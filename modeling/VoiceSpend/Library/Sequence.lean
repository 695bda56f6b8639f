import Mathlib.Data.Nat.Basic

/-!
# Values of a sequence

A database sequence hands out each number once, and what became of a number is a question of
where it is kept: `stampAt place` is the value kept at a place. `Placed` says that every value
in use was drawn and is in one place only. It is kept when values move between places without
meeting, and when a new value is put somewhere.
-/

namespace VoiceSpend.Sequence

variable {π : Type*}

/-- Every value in use is at most `last`, the value drawn last, and is in one place. -/
structure Placed (stampAt : π → Option ℕ) (last : ℕ) : Prop where
  bounded : ∀ place stamp, stampAt place = some stamp → stamp ≤ last
  distinct : ∀ first second stamp, stampAt first = some stamp → stampAt second = some stamp →
    first = second

namespace Placed

variable {before after : π → Option ℕ} {last last' : ℕ}

theorem empty (h : ∀ place, before place = none) (last : ℕ) : Placed before last := by
  refine ⟨fun place stamp hstamp ↦ ?_, fun first second stamp hfirst ↦ ?_⟩
  · rw [h place] at hstamp
    cases hstamp
  · rw [h first] at hfirst
    cases hfirst

/-- Values stay where they are or move, each from a place of its own. -/
theorem moved (h : Placed before last) (source : π → π) (hle : last ≤ last')
    (hsource : ∀ place stamp, after place = some stamp → before (source place) = some stamp)
    (hinj : ∀ first second, (after first).isSome → (after second).isSome →
      source first = source second → first = second) : Placed after last' := by
  constructor
  · intro place stamp hstamp
    exact Nat.le_trans (h.bounded _ _ (hsource place stamp hstamp)) hle
  · intro first second stamp hfirst hsecond
    have hsame := h.distinct _ _ _ (hsource first stamp hfirst) (hsource second stamp hsecond)
    exact hinj first second (by rw [hfirst]; rfl) (by rw [hsecond]; rfl) hsame

/-- Some places lose their value. -/
theorem kept (h : Placed before last)
    (hkept : ∀ place stamp, after place = some stamp → before place = some stamp) : Placed after last :=
  h.moved (fun place ↦ place) (Nat.le_refl _) hkept fun _ _ _ _ heq ↦ heq

/-- A new value at one place; every other place keeps its value or loses it. -/
theorem fresh (h : Placed before last) (target : π) (htarget : after target = some (last + 1))
    (hkept : ∀ place stamp, place ≠ target → after place = some stamp → before place = some stamp) :
    Placed after (last + 1) := by
  have hold {place : π} {stamp : ℕ} (hne : place ≠ target) (hstamp : after place = some stamp) :
      stamp ≤ last := h.bounded place stamp (hkept place stamp hne hstamp)
  constructor
  · intro place stamp hstamp
    by_cases hplace : place = target
    · rw [hplace, htarget] at hstamp
      cases hstamp
      exact Nat.le_refl _
    · exact Nat.le_succ_of_le (hold hplace hstamp)
  · intro first second stamp hfirst hsecond
    by_cases hone : first = target <;> by_cases htwo : second = target
    · exact hone.trans htwo.symm
    · rw [hone, htarget] at hfirst
      cases hfirst
      exact absurd (hold htwo hsecond) (Nat.not_succ_le_self _)
    · rw [htwo, htarget] at hsecond
      cases hsecond
      exact absurd (hold hone hfirst) (Nat.not_succ_le_self _)
    · exact h.distinct first second stamp (hkept first stamp hone hfirst) (hkept second stamp htwo hsecond)

end Placed

end VoiceSpend.Sequence
