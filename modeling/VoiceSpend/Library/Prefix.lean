import Mathlib.Data.List.Basic

/-!
# The first elements of an ordered list

A bounded batch is `queue.take n` of a queue ordered by `R`. Whether an element reaches the batch
depends on how many elements stand before it: these two lemmas bound that number from each side.
-/

namespace VoiceSpend.Prefix

variable {α : Type*} {R : α → α → Prop} [DecidableRel R] {queue : List α} {n : ℕ} {x : α}

/-- An element of the batch has fewer than `n` elements strictly before it. -/
theorem ahead_lt_of_mem_take (hsorted : queue.Pairwise R) (hrefl : ∀ y, R y y) (hmem : x ∈ queue.take n) :
    (queue.filter fun y ↦ ¬ R x y).length < n := by
  obtain ⟨before, after, hsplit⟩ := List.append_of_mem hmem
  have hqueue : queue = before ++ x :: (after ++ queue.drop n) := by
    calc queue = queue.take n ++ queue.drop n := (List.take_append_drop n queue).symm
      _ = before ++ x :: (after ++ queue.drop n) := by rw [hsplit, List.append_assoc, List.cons_append]
  have hlater : (x :: (after ++ queue.drop n)).filter (fun y ↦ decide ¬ R x y) = [] := by
    rw [hqueue] at hsorted
    have hpairs := List.pairwise_cons.mp (List.pairwise_append.mp hsorted).2.1
    rw [List.filter_eq_nil_iff]
    intro y hy hnot
    rcases List.mem_cons.mp hy with rfl | hrest
    · exact of_decide_eq_true hnot (hrefl y)
    · exact of_decide_eq_true hnot (hpairs.1 y hrest)
  have hlength : before.length < n := by
    have htake : (queue.take n).length = before.length + (after.length + 1) := by
      rw [hsplit, List.length_append, List.length_cons]
    rw [List.length_take] at htake
    omega
  calc (queue.filter fun y ↦ decide ¬ R x y).length
      = (before.filter fun y ↦ decide ¬ R x y).length := by
        conv_lhs => rw [hqueue, List.filter_append, hlater, List.append_nil]
    _ ≤ before.length := List.length_filter_le _ _
    _ < n := hlength

/-- If fewer than `n` elements without `p` stand before some element with `p`, the batch has an
element with `p`. -/
theorem exists_mem_take (hsorted : queue.Pairwise R) (p : α → Bool) (hmem : x ∈ queue) (hx : p x = true)
    (hfew : (queue.filter fun y ↦ !p y && decide (R y x)).length < n) : ∃ y ∈ queue.take n, p y = true := by
  by_contra hnone
  have hbatch (y : α) (hy : y ∈ queue.take n) : p y = false :=
    Bool.eq_false_iff.mpr fun h ↦ hnone ⟨y, hy, h⟩
  have hdrop : x ∈ queue.drop n := by
    rw [← List.take_append_drop n queue, List.mem_append] at hmem
    exact hmem.resolve_left fun h ↦ by rw [hbatch x h] at hx; cases hx
  have hlong : n ≤ queue.length := by
    have hpos := List.length_pos_of_mem hdrop
    rw [List.length_drop] at hpos
    omega
  -- then the whole batch stands before `x`
  have hbefore : (queue.take n).filter (fun y ↦ !p y && decide (R y x)) = queue.take n := by
    rw [← List.take_append_drop n queue, List.pairwise_append] at hsorted
    rw [List.filter_eq_self]
    intro y hy
    rw [hbatch y hy, Bool.not_false, Bool.true_and, decide_eq_true_eq]
    exact hsorted.2.2 y hy x hdrop
  have hcount : n ≤ (queue.filter fun y ↦ !p y && decide (R y x)).length := by
    calc n = (queue.take n).length := by rw [List.length_take, Nat.min_eq_left hlong]
      _ = ((queue.take n).filter fun y ↦ !p y && decide (R y x)).length := by rw [hbefore]
      _ ≤ (queue.filter fun y ↦ !p y && decide (R y x)).length :=
        ((List.take_sublist n queue).filter _).length_le
  omega

end VoiceSpend.Prefix
