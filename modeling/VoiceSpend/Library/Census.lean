import Mathlib.Data.Set.Card

/-!
# How many processes are in a class of states

A step of a concurrent system moves one process, so the number of processes in a class of states changes by
what that process does. The number may be infinite, so it needs no list of the processes.
-/

namespace VoiceSpend

variable {ι σ : Type*}

/-- How many processes are in the class. -/
noncomputable def census (procs : ι → σ) (Q : σ → Prop) : ℕ∞ := {i | Q (procs i)}.encard

theorem census_eq_zero {procs : ι → σ} {Q : σ → Prop} (h : ∀ i, ¬ Q (procs i)) : census procs Q = 0 := by
  rw [census, Set.encard_eq_zero, Set.eq_empty_iff_forall_notMem]
  exact h

/-- A process that was not in the class takes its next state. -/
theorem census_update [DecidableEq ι] {procs : ι → σ} {Q : σ → Prop} {i : ι} {next : σ} [Decidable (Q next)]
    (hbefore : ¬ Q (procs i)) :
    census (Function.update procs i next) Q = census procs Q + if Q next then 1 else 0 := by
  have hother {j : ι} (hne : j ≠ i) : Q (Function.update procs i next j) ↔ Q (procs j) := by
    rw [Function.update_of_ne hne]
  unfold census
  split
  · rename_i hnext
    have hinsert : {j | Q (Function.update procs i next j)} = insert i {j | Q (procs j)} := by
      ext j
      by_cases hj : j = i
      · subst hj
        simpa using hnext
      · simp [hj]
    rw [hinsert]
    exact Set.encard_insert_of_notMem hbefore
  · rename_i hnext
    rw [add_zero]
    congr 1
    ext j
    by_cases hj : j = i
    · subst hj
      simpa using iff_of_false hnext hbefore
    · exact hother hj

end VoiceSpend
