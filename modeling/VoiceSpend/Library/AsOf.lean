import Mathlib.Order.Lattice

/-!
# Entries in force on a day

A history with gaps says on a day what its last entry not after that day says. `InForce` is this
lookup as a relation; the lemmas say which later entries it depends on.
-/

namespace VoiceSpend.AsOf

variable {δ ρ : Type*} [LinearOrder δ]

/-- `row`, entered on `day`, is the last entry not after `asOf`. -/
structure InForce (history : δ → Option ρ) (asOf day : δ) (row : ρ) : Prop where
  entered : history day = some row
  not_after : day ≤ asOf
  last : ∀ other, other ≤ asOf → (history other).isSome → other ≤ day

variable {history history' : δ → Option ρ} {asOf day day' changed : δ} {row row' : ρ}

theorem InForce.unique (h : InForce history asOf day row) (h' : InForce history asOf day' row') :
    day = day' ∧ row = row' := by
  have hle := h'.last day h.not_after (by rw [h.entered]; rfl)
  have hge := h.last day' h'.not_after (by rw [h'.entered]; rfl)
  have hday : day = day' := le_antisymm hle hge
  subst hday
  exact ⟨rfl, Option.some.inj (h.entered.symm.trans h'.entered)⟩

/-- Only entries not after the day matter. -/
theorem InForce.congr (h : InForce history asOf day row)
    (hsame : ∀ other, other ≤ asOf → history' other = history other) :
    InForce history' asOf day row := by
  refine ⟨(hsame day h.not_after).trans h.entered, h.not_after, fun other hother hsome ↦ ?_⟩
  rw [hsame other hother] at hsome
  exact h.last other hother hsome

/-- An entry before the one in force may change or be new. -/
theorem InForce.of_changed_before (h : InForce history asOf day row) (hchanged : changed < day)
    (hsame : ∀ other, other ≠ changed → history' other = history other) :
    InForce history' asOf day row := by
  refine ⟨(hsame day hchanged.ne').trans h.entered, h.not_after, fun other hother hsome ↦ ?_⟩
  by_cases hother' : other = changed
  · rw [hother']
    exact hchanged.le
  · rw [hsame other hother'] at hsome
    exact h.last other hother hsome

/-- A change on one day does not show on a later day with an entry in between. -/
theorem inForce_iff_of_entry_between {between : δ} (hafter : changed < between)
    (hbetween : between ≤ asOf) (hsome : (history between).isSome)
    (hsame : ∀ other, other ≠ changed → history' other = history other) :
    InForce history' asOf day row ↔ InForce history asOf day row := by
  have hsome' : (history' between).isSome := by
    rw [hsame between hafter.ne']
    exact hsome
  constructor
  · intro h
    exact h.of_changed_before (lt_of_lt_of_le hafter (h.last between hbetween hsome'))
      fun other hother ↦ (hsame other hother).symm
  · intro h
    exact h.of_changed_before (lt_of_lt_of_le hafter (h.last between hbetween hsome)) hsame

end VoiceSpend.AsOf
