import Mathlib.Data.Set.Lattice

/-!
# Writing regions of a store from one source

A refresh of a region replaces, under every key of the region for which the source has a row, the
row of the store. As long as the source does not change, refreshes compose like their regions: order
and overlap do not matter.
-/

namespace VoiceSpend.Overlay

variable {κ ρ : Type*} {source : κ → Option ρ} {first second region : Set κ} {store : κ → Option ρ} {key : κ}

open Classical in
/-- The store after a region was refreshed from the source. -/
noncomputable def overlay (source : κ → Option ρ) (region : Set κ) (store : κ → Option ρ) : κ → Option ρ :=
  fun key ↦ if key ∈ region then (source key).or (store key) else store key

@[simp] theorem overlay_of_mem (h : key ∈ region) :
    overlay source region store key = (source key).or (store key) := if_pos h

@[simp] theorem overlay_of_not_mem (h : key ∉ region) : overlay source region store key = store key :=
  if_neg h

/-- A key without a row in the source keeps its row. -/
theorem overlay_of_source_none (h : source key = none) : overlay source region store key = store key := by
  by_cases hkey : key ∈ region
  · rw [overlay_of_mem hkey, h, Option.none_or]
  · exact overlay_of_not_mem hkey

theorem overlay_empty : overlay source ∅ store = store :=
  funext fun _ ↦ overlay_of_not_mem (Set.notMem_empty _)

/-- One refresh after another is the refresh of both regions. -/
theorem overlay_overlay :
    overlay source second (overlay source first store) = overlay source (first ∪ second) store := by
  apply funext
  intro key
  by_cases hsecond : key ∈ second
  · rw [overlay_of_mem hsecond, overlay_of_mem (Set.mem_union_right _ hsecond)]
    by_cases hfirst : key ∈ first
    · rw [overlay_of_mem hfirst, ← Option.or_assoc, Option.or_self]
    · rw [overlay_of_not_mem hfirst]
  · rw [overlay_of_not_mem hsecond]
    by_cases hfirst : key ∈ first
    · rw [overlay_of_mem hfirst, overlay_of_mem (Set.mem_union_left _ hfirst)]
    · rw [overlay_of_not_mem hfirst, overlay_of_not_mem fun hunion ↦ hunion.elim hfirst hsecond]

/-- Any number of refreshes is one of all their regions. -/
theorem foldl_overlay {ι : Type*} (regions : ι → Set κ) (order : List ι) (store : κ → Option ρ) :
    order.foldl (fun store i ↦ overlay source (regions i) store) store =
      overlay source (⋃ i ∈ order, regions i) store := by
  induction order generalizing store with
  | nil => simp [overlay_empty]
  | cons i rest ih =>
    calc rest.foldl (fun store i ↦ overlay source (regions i) store) (overlay source (regions i) store)
        = overlay source (⋃ j ∈ rest, regions j) (overlay source (regions i) store) := ih _
      _ = overlay source (regions i ∪ ⋃ j ∈ rest, regions j) store := overlay_overlay
      _ = overlay source (⋃ j ∈ i :: rest, regions j) store := by
          simp only [List.mem_cons, Set.iUnion_iUnion_eq_or_left]

/-- Refreshing a part of what was refreshed changes nothing. -/
theorem overlay_of_subset (h : second ⊆ first) :
    overlay source second (overlay source first store) = overlay source first store := by
  rw [overlay_overlay, Set.union_eq_left.mpr h]

end VoiceSpend.Overlay
