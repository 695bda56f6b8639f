import Mathlib.Data.List.Nodup
import VoiceSpend.Library.Table

/-!
# Dictionaries that keep their order

Keys are distinct and stand in the order in which they came; a key that is set again keeps its place.
-/

namespace VoiceSpend

structure Dict (κ ρ : Type*) where
  items : List (κ × ρ)
  nodup : (items.map Prod.fst).Nodup

namespace Dict

variable {κ ρ : Type*} [DecidableEq κ]

def setItem (key : κ) (value : ρ) : List (κ × ρ) → List (κ × ρ)
  | [] => [(key, value)]
  | item :: items => if item.1 = key then (key, value) :: items else item :: setItem key value items

theorem keys_setItem (key : κ) (value : ρ) (items : List (κ × ρ)) : (setItem key value items).map Prod.fst =
    if key ∈ items.map Prod.fst then items.map Prod.fst else items.map Prod.fst ++ [key] := by
  induction items with
  | nil => rfl
  | cons item items ih =>
    rw [setItem, List.map_cons]
    split
    · rename_i hkey
      rw [List.map_cons, if_pos (by rw [hkey]; exact List.mem_cons_self), hkey]
    · rename_i hkey
      have hmem : key ∈ item.1 :: items.map Prod.fst ↔ key ∈ items.map Prod.fst := by
        rw [List.mem_cons]
        exact or_iff_right fun heq ↦ hkey heq.symm
      rw [List.map_cons, ih, if_congr hmem rfl rfl]
      split <;> rfl

def set (d : Dict κ ρ) (key : κ) (value : ρ) : Dict κ ρ where
  items := setItem key value d.items
  nodup := by
    rw [keys_setItem]
    split
    · exact d.nodup
    · rename_i hkey
      exact List.nodup_append.mpr ⟨d.nodup, List.nodup_singleton _, fun other hother key' hkey' heq ↦
        hkey (List.mem_singleton.mp hkey' ▸ heq ▸ hother)⟩

def empty : Dict κ ρ := ⟨[], List.nodup_nil⟩

def get? (d : Dict κ ρ) (key : κ) : Option ρ := d.items.lookup key

/-- `set` for all items of a list, in their order. -/
def setAll (d : Dict κ ρ) (items : List (κ × ρ)) : Dict κ ρ :=
  items.foldl (fun d item ↦ d.set item.1 item.2) d

theorem lookup_cons_eq (key : κ) (item : κ × ρ) (items : List (κ × ρ)) :
    (item :: items).lookup key = if key = item.1 then some item.2 else items.lookup key := by
  rw [List.lookup_cons]
  split_ifs with hkey
  · rw [hkey, beq_self_eq_true]
  · rw [beq_eq_false_iff_ne.mpr hkey]

theorem lookup_eq_none {key : κ} {items : List (κ × ρ)} (h : key ∉ items.map Prod.fst) :
    items.lookup key = none := by
  rw [List.lookup_eq_none_iff]
  intro item hmem
  exact bne_iff_ne.mpr fun heq ↦ h (heq ▸ List.mem_map_of_mem hmem)

theorem lookup_setItem (key other : κ) (value : ρ) (items : List (κ × ρ)) :
    (setItem key value items).lookup other = if other = key then some value else items.lookup other := by
  induction items with
  | nil => rw [setItem, lookup_cons_eq]
  | cons item items ih =>
    rw [setItem]
    by_cases hkey : item.1 = key
    · rw [if_pos hkey, lookup_cons_eq, lookup_cons_eq, hkey]
      split <;> rfl
    · rw [if_neg hkey, lookup_cons_eq, lookup_cons_eq, ih]
      by_cases hother : other = key
      · have hne : other ≠ item.1 := fun heq ↦ hkey (heq.symm.trans hother)
        rw [if_neg hne, if_pos hother, if_pos hother]
      · rw [if_neg hother, if_neg hother]

@[simp] theorem get?_set (d : Dict κ ρ) (key other : κ) (value : ρ) :
    (d.set key value).get? other = if other = key then some value else d.get? other :=
  lookup_setItem key other value d.items

theorem get?_of_mem {d : Dict κ ρ} {item : κ × ρ} (h : item ∈ d.items) : d.get? item.1 = some item.2 :=
  Table.lookup_of_mem_nodup d.nodup h

theorem lookup_filter_of_nodup (p : κ × ρ → Bool) (key : κ) {items : List (κ × ρ)}
    (h : (items.map Prod.fst).Nodup) :
    (items.filter p).lookup key = (items.lookup key).filter fun value ↦ p (key, value) := by
  induction items with
  | nil => rfl
  | cons item items ih =>
    rw [List.map_cons, List.nodup_cons] at h
    rw [List.filter_cons, lookup_cons_eq]
    by_cases hkey : key = item.1
    · subst hkey
      have hnone : (items.filter p).lookup item.1 = none := by
        rw [ih h.2, lookup_eq_none h.1]
        rfl
      rw [if_pos rfl, Option.filter_some, apply_ite (List.lookup item.1), lookup_cons_eq, if_pos rfl, hnone]
    · rw [if_neg hkey, apply_ite (List.lookup key), lookup_cons_eq, if_neg hkey, ite_self, ih h.2]

theorem lookup_filter (d : Dict κ ρ) (p : κ × ρ → Bool) (key : κ) :
    (d.items.filter p).lookup key = (d.get? key).filter fun value ↦ p (key, value) :=
  lookup_filter_of_nodup p key d.nodup

/-- The items of distinct keys are found, before those that were there. -/
theorem get?_setAll (d : Dict κ ρ) {items : List (κ × ρ)} (h : (items.map Prod.fst).Nodup) (key : κ) :
    (d.setAll items).get? key = (items.lookup key).or (d.get? key) := by
  induction items generalizing d with
  | nil => rfl
  | cons item items ih =>
    rw [List.map_cons, List.nodup_cons] at h
    have hrest : (d.setAll (item :: items)) = (d.set item.1 item.2).setAll items := rfl
    rw [hrest, ih _ h.2, get?_set, lookup_cons_eq]
    split_ifs with hkey
    · rw [hkey, lookup_eq_none h.1]
      rfl
    · rfl

end Dict

end VoiceSpend
