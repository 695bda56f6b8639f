import VoiceSpend.Store.Rows

/-!
# Usage counters

`increment_usage` is an atomic `INSERT ... ON CONFLICT DO UPDATE SET log_count = log_count + n`.
It raises when the sum leaves the range of the `INTEGER` column, and does nothing at all for
`n = 0`.
-/

namespace VoiceSpend

/-- The counter row after adding `n`, or `none` when the column overflows. -/
def addToCounter (existing : Option UsageCounter) (n : ℕ) (now : Instant) : Option UsageCounter :=
  match existing with
  | none => if n ≤ integerMax then some ⟨n, now, now⟩ else none
  | some counter =>
    if counter.logCount + n ≤ integerMax then
      some { counter with logCount := counter.logCount + n, updatedAt := now }
    else none

/-- `increment_usage`. -/
def incrementUsage (counters : UsageTable) (user : UUID) (period : Period) (n : ℕ) (now : Instant) :
    Option UsageTable :=
  if n = 0 then some counters
  else (addToCounter (counters.lookup (user, period)) n now).map (counters.insert (user, period))

/-- A stored count after `n` more logs; adding none writes no row. -/
def countMore (old : Option ℕ) (n : ℕ) : Option ℕ := if n = 0 then old else some (old.getD 0 + n)

theorem countMore_add (old : Option ℕ) (n m : ℕ) : countMore (countMore old n) m = countMore old (n + m) := by
  unfold countMore
  by_cases hn : n = 0
  · simp [hn]
  · by_cases hm : m = 0
    · simp [hm]
    · have hboth : n + m ≠ 0 := by omega
      simp only [hn, hm, hboth, if_false, Option.getD_some]
      congr 1
      omega

theorem addToCounter_logCount {existing : Option UsageCounter} {n : ℕ} {now : Instant}
    {counter : UsageCounter} (h : addToCounter existing n now = some counter) :
    counter.logCount = existing.elim 0 (·.logCount) + n := by
  unfold addToCounter at h
  cases existing with
  | none =>
    dsimp only at h
    split at h
    · cases h
      simp
    · cases h
  | some old =>
    dsimp only at h
    split at h
    · cases h
      simp
    · cases h

theorem addToCounter_isSome {existing : Option UsageCounter} {n : ℕ} {now : Instant} :
    (addToCounter existing n now).isSome ↔ existing.elim 0 (·.logCount) + n ≤ integerMax := by
  unfold addToCounter
  cases existing <;> dsimp only <;> split <;> simp_all

section

variable {counters counters' : UsageTable} {user : UUID} {period : Period} {n : ℕ} {now : Instant}

/-- The counter of the user and period grows by `n`; every other counter is kept. -/
theorem usageCount_incrementUsage (h : incrementUsage counters user period n now = some counters')
    (other : UUID) (otherPeriod : Period) :
    usageCount counters' other otherPeriod = usageCount counters other otherPeriod +
      if other = user ∧ otherPeriod = period then n else 0 := by
  unfold incrementUsage at h
  split at h
  · rename_i hzero
    cases h
    simp [hzero]
  · obtain ⟨counter, hcounter, rfl⟩ := Option.map_eq_some_iff.mp h
    have hcount := addToCounter_logCount hcounter
    unfold usageCount
    rw [Table.lookup_insert_eq]
    by_cases hkey : other = user ∧ otherPeriod = period
    · obtain ⟨rfl, rfl⟩ := hkey
      simp [hcount]
    · have hne : ¬ (other, otherPeriod) = (user, period) := fun heq ↦ hkey (Prod.mk.inj heq)
      simp [hkey, hne]

/-- The stored counts, with the absence of a row. -/
theorem lookup_incrementUsage (h : incrementUsage counters user period n now = some counters')
    (key : UUID × Period) : (counters'.lookup key).map (·.logCount) =
      if key = (user, period) then countMore ((counters.lookup key).map (·.logCount)) n
      else (counters.lookup key).map (·.logCount) := by
  unfold incrementUsage at h
  split at h
  · rename_i hzero
    cases h
    simp [countMore, hzero]
  · rename_i hnonzero
    obtain ⟨counter, hcounter, rfl⟩ := Option.map_eq_some_iff.mp h
    have hcount := addToCounter_logCount hcounter
    rw [Table.lookup_insert_eq]
    split
    · rename_i hkey
      subst hkey
      rw [Option.map_some, hcount, countMore, if_neg hnonzero]
      cases counters.lookup (user, period) <;> rfl
    · rfl

/-- All logs counted for the user grow by `n`. -/
theorem usageTotal_incrementUsage (h : incrementUsage counters user period n now = some counters')
    (other : UUID) :
    usageTotal counters' other = usageTotal counters other + if other = user then n else 0 := by
  unfold incrementUsage at h
  split at h
  · rename_i hzero
    cases h
    simp [hzero]
  · obtain ⟨counter, hcounter, rfl⟩ := Option.map_eq_some_iff.mp h
    have hcount := addToCounter_logCount hcounter
    have htotal := Table.total_insert
      (fun (key : UUID × Period) (row : UsageCounter) ↦ if key.1 = other then row.logCount else 0)
      counters (user, period) counter
    unfold usageTotal
    by_cases hother : other = user
    · subst hother
      simp only [Table.weightAt, if_true, hcount] at htotal ⊢
      cases hlookup : counters.lookup (other, period) with
      | none => simp only [hlookup, Option.elim_none] at htotal; omega
      | some old => simp only [hlookup, Option.elim_some] at htotal; omega
    · rw [if_neg hother]
      simp only [if_neg (Ne.symm hother)] at htotal
      have hzero : Table.weightAt (fun (key : UUID × Period) (row : UsageCounter) ↦
          if key.1 = other then row.logCount else 0) counters (user, period) = 0 := by
        unfold Table.weightAt
        cases counters.lookup (user, period) <;> simp [Ne.symm hother]
      omega

theorem incrementUsage_isSome (counters : UsageTable) (user : UUID) (period : Period) (n : ℕ)
    (now : Instant) : (incrementUsage counters user period n now).isSome ↔
      n = 0 ∨ usageCount counters user period + n ≤ integerMax := by
  unfold incrementUsage
  split
  · rename_i hzero
    simp [hzero]
  · rename_i hzero
    rw [Option.isSome_map, addToCounter_isSome]
    simp [hzero, usageCount]

end

end VoiceSpend
