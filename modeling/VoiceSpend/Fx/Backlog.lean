import VoiceSpend.Fx.Sweep
import VoiceSpend.Library.Prefix

/-!
# Does the backlog drain?

A sweep takes the oldest `limit` rows without `amount_base`, and a row it cannot convert stays
where it is in that order. So the rows that cannot be converted fill the batch from the front:
the backlog drains, whatever the order among rows created at the same instant, exactly when every
convertible row fits its column and has fewer than `limit` unconvertible rows created no later.

One direction counts the convertible rows, which every sweep makes fewer; the other keeps a row
out of every batch by letting the unconvertible rows go first.
-/

namespace VoiceSpend

/-- The conversion of a selected row. -/
def SweepRow.converted (rates : FxTable) (row : SweepRow) : Option (Option ℚ) :=
  convert rates row.amountOriginal.toRat row.currencyOriginal row.baseCurrency row.spentAt.date

/-- A live row without `amount_base`, with what the sweep's query returns for it. -/
def Waiting (db : Db) (userId : Option UUID) (id : UUID) (row : Expense) (selected : SweepRow) : Prop :=
  db.expenses.lookup id = some row ∧ sweepRow? db.users userId id row = some selected

/-- `convert` raises on no row. -/
def NoRaise (rates : FxTable) (db : Db) : Prop :=
  ∀ id row user, db.expenses.lookup id = some row → db.users.lookup row.userId = some user →
    convert rates row.client.amountOriginal.toRat row.client.currencyOriginal user.baseCurrency
      row.client.spentAt.date ≠ none

/-- What a sweep leaves behind: a sweep that raises is rolled back. -/
def afterSweep (settings : Settings) (rates : FxTable) (userId : Option UUID) (limit : ℕ)
    (tie : UUID → ℕ) (now : Instant) (db : Db) : Db :=
  (recomputeAmountBase settings db rates userId (some limit) tie now).elim db (·.1)

/-- The tables after `n` sweeps with no other writes. -/
def afterSweeps (settings : Settings) (rates : FxTable) (userId : Option UUID) (limit : ℕ)
    (tie : ℕ → UUID → ℕ) (clock : ℕ → Instant) (db : Db) : ℕ → Db
  | 0 => db
  | n + 1 => afterSweep settings rates userId limit (tie n) (clock n)
      (afterSweeps settings rates userId limit tie clock db n)

/-- Some row gets its `amount_base`. -/
def Fills (before after : Db) : Prop :=
  ∃ id row new, before.expenses.lookup id = some row ∧ row.amountBase = none ∧
    after.expenses.lookup id = some new ∧ new.amountBase ≠ none

/-- Every live row without `amount_base` is one that cannot be converted. -/
def Drained (rates : FxTable) (userId : Option UUID) (db : Db) : Prop :=
  ∀ id row selected, Waiting db userId id row selected → selected.converted rates = some none

/-- One sweep makes progress while there is a convertible row, and repeated sweeps drain the
backlog, in whatever order rows created at the same instant are taken. -/
structure BacklogDrains (settings : Settings) (rates : FxTable) (userId : Option UUID) (limit : ℕ)
    (db : Db) : Prop where
  progress : (∃ id row selected value, Waiting db userId id row selected ∧
      selected.converted rates = some (some value)) →
    ∀ tie now, ∃ after result,
      recomputeAmountBase settings db rates userId (some limit) tie now = some (after, result) ∧
        Fills db after
  drained : ∀ tie clock, ∃ n, Drained rates userId (afterSweeps settings rates userId limit tie clock db n)

/-- A waiting row that cannot be converted. -/
def stuck (users : Table UUID User) (rates : FxTable) (userId : Option UUID) (id : UUID) (row : Expense) :
    Bool :=
  (sweepRow? users userId id row).any fun selected ↦ selected.converted rates = some none

/-- How many rows that cannot be converted were created at or before an instant. -/
def blockers (rates : FxTable) (userId : Option UUID) (db : Db) (createdAt : Instant) : ℕ :=
  Table.countRows (fun id row ↦ stuck db.users rates userId id row && decide (row.createdAt ≤ createdAt))
    db.expenses

/-- Every convertible row fits its column, and fewer than `limit` rows that cannot be converted
were created at or before it. -/
def Unblocked (rates : FxTable) (userId : Option UUID) (limit : ℕ) (db : Db) : Prop :=
  ∀ id row selected value, Waiting db userId id row selected →
    selected.converted rates = some (some value) →
      (Numeric.ofRat 18 4 value).isSome ∧ blockers rates userId db row.createdAt < limit

section

variable {settings : Settings} {rates : FxTable} {userId : Option UUID} {limit : ℕ} {tie : UUID → ℕ}
  {now : Instant} {db after : Db} {id : UUID} {row : Expense} {selected : SweepRow} {value : ℚ}

theorem SweepRow.fill_of_converted {rates : FxTable} {row : SweepRow}
    (h : row.converted rates = some (some value)) :
    row.fill rates = (Numeric.ofRat 18 4 value).map some := by
  unfold SweepRow.converted at h
  unfold SweepRow.fill
  rw [h]

theorem SweepRow.fill_of_missing {rates : FxTable} {row : SweepRow} (h : row.converted rates = some none) :
    row.fill rates = some none := by
  unfold SweepRow.converted at h
  unfold SweepRow.fill
  rw [h]

theorem stuck_iff {users : Table UUID User} : stuck users rates userId id row = true ↔
    ∃ selected, sweepRow? users userId id row = some selected ∧ selected.converted rates = some none := by
  simp [stuck, Option.any_eq_true]

theorem sweepLimit_some (settings : Settings) (hlimit : 1 ≤ limit) :
    (sweepLimit settings (some (limit : ℤ))).toNat = limit := by
  have hne : (limit : ℤ) ≠ 0 := by omega
  rw [sweepLimit, if_neg hne, Int.toNat_natCast]

/-- Two answers of the query for one waiting row are the same. -/
theorem Waiting.unique {row' : Expense} {selected' : SweepRow} (h : Waiting db userId id row selected)
    (h' : Waiting db userId id row' selected') : row = row' ∧ selected = selected' := by
  obtain ⟨hrow, hselected⟩ := h
  obtain ⟨hrow', hselected'⟩ := h'
  have heq : row = row' := Option.some.inj (hrow.symm.trans hrow')
  subst heq
  exact ⟨rfl, Option.some.inj (hselected.symm.trans hselected')⟩

/-- A conversion that does not raise finds no rate, or gives a value. -/
theorem NoRaise.converted_cases (h : NoRaise rates db) (hwaiting : Waiting db userId id row selected) :
    selected.converted rates = some none ∨ ∃ value, selected.converted rates = some (some value) := by
  have hraise : selected.converted rates ≠ none := by
    obtain ⟨_, _, _, user, huser, rfl⟩ := sweepRow?_eq_some hwaiting.2
    exact h id row user hwaiting.1 huser
  obtain ⟨converted, hconverted⟩ := Option.ne_none_iff_exists'.mp hraise
  cases converted with
  | none => exact .inl hconverted
  | some value => exact .inr ⟨value, hconverted⟩

theorem Waiting.not_stuck (h : Waiting db userId id row selected)
    (hvalue : selected.converted rates = some (some value)) : stuck db.users rates userId id row ≠ true := by
  intro hstuck
  obtain ⟨other, hother, hmissing⟩ := stuck_iff.mp hstuck
  cases Option.some.inj (h.2.symm.trans hother)
  cases hvalue.symm.trans hmissing

/-! ## One sweep -/

/-- A row that waits after a completed sweep has not been touched by it. -/
theorem SweepSpec.waiting_before (h : SweepSpec settings db rates userId (some (limit : ℤ)) tie now after)
    (hwaiting : Waiting after userId id row selected) : Waiting db userId id row selected := by
  obtain ⟨hrow, hselected⟩ := hwaiting
  rw [h.users] at hselected
  rcases h.lookup_cases id with hsame | ⟨old, _, stored, seq, _, _, _, hnew⟩
  · exact ⟨hsame.symm.trans hrow, hselected⟩
  · rw [hnew] at hrow
    cases hrow
    have hnone : some stored = none := (sweepRow?_eq_some hselected).1
    cases hnone

/-- A row that cannot be converted waits on. -/
theorem SweepSpec.stuck_waits (h : SweepSpec settings db rates userId (some (limit : ℤ)) tie now after)
    (hwaiting : Waiting db userId id row selected) (hmissing : selected.converted rates = some none) :
    Waiting after userId id row selected := by
  refine ⟨?_, by rw [h.users]; exact hwaiting.2⟩
  rcases h.lookup_cases id with hsame | ⟨row', selected', stored, _, _, hwaiting', hfill, _⟩
  · exact hsame.trans hwaiting.1
  · obtain ⟨rfl, rfl⟩ := hwaiting.unique hwaiting'
    rw [SweepRow.fill_of_missing hmissing] at hfill
    cases hfill

/-- The inputs of the conversions stay, so no conversion raises after a sweep either. -/
theorem SweepSpec.noRaise (h : SweepSpec settings db rates userId (some (limit : ℤ)) tie now after)
    (hnoRaise : NoRaise rates db) : NoRaise rates after := by
  intro id row user hrow huser
  rw [h.users] at huser
  rcases h.lookup_cases id with hsame | ⟨old, _, _, _, _, ⟨hold, _⟩, _, hnew⟩
  · exact hnoRaise id row user (hsame.symm.trans hrow) huser
  · rw [hnew] at hrow
    cases hrow
    exact hnoRaise id old user hold huser

theorem SweepSpec.blockers_le (h : SweepSpec settings db rates userId (some (limit : ℤ)) tie now after)
    (createdAt : Instant) : blockers rates userId after createdAt ≤ blockers rates userId db createdAt := by
  refine Table.countRows_le fun id row hrow hstuck ↦ ?_
  rw [Bool.and_eq_true, stuck_iff] at hstuck
  obtain ⟨⟨selected, hselected, hmissing⟩, hcreated⟩ := hstuck
  have hbefore := h.waiting_before ⟨hrow, hselected⟩
  exact ⟨row, hbefore.1, Bool.and_eq_true _ _ ▸ ⟨stuck_iff.mpr ⟨selected, hbefore.2, hmissing⟩, hcreated⟩⟩

theorem SweepSpec.unblocked (h : SweepSpec settings db rates userId (some (limit : ℤ)) tie now after)
    (hunblocked : Unblocked rates userId limit db) : Unblocked rates userId limit after := by
  intro id row selected value hwaiting hvalue
  obtain ⟨hfits, hfew⟩ := hunblocked id row selected value (h.waiting_before hwaiting) hvalue
  exact ⟨hfits, lt_of_le_of_lt (h.blockers_le _) hfew⟩

/-- The waiting rows that can be converted. -/
def readyCount (rates : FxTable) (userId : Option UUID) (db : Db) : ℕ :=
  Table.countRows (fun id row ↦ (sweepRow? db.users userId id row).any fun selected ↦
    (selected.converted rates).any Option.isSome) db.expenses

/-- Where every convertible row fits its column, a sweep completes. -/
theorem Unblocked.completes (h : Unblocked rates userId limit db) (hnoRaise : NoRaise rates db)
    (settings : Settings) (tie : UUID → ℕ) (now : Instant) (hlimit : 1 ≤ limit) :
    (recomputeAmountBase settings db rates userId (some (limit : ℤ)) tie now).isSome := by
  rw [recomputeAmountBase_isSome]
  refine ⟨?_, fun other hmem ↦ ?_⟩
  · rw [sweepLimit]
    split <;> omega
  · obtain ⟨row, hlookup, hother⟩ := lookup_of_mem_selectBatch hmem
    have hwaiting : Waiting db userId other.id row other := ⟨hlookup, hother⟩
    rcases hnoRaise.converted_cases hwaiting with hmissing | ⟨value, hvalue⟩
    · rw [SweepRow.fill_of_missing hmissing]
      rfl
    · rw [SweepRow.fill_of_converted hvalue, Option.isSome_map]
      exact (h _ _ _ _ hwaiting hvalue).1

/-- The rows ahead of an unblocked one do not fill the batch, so it has a convertible row. -/
theorem Unblocked.exists_mem_take (h : Unblocked rates userId limit db) (hnoRaise : NoRaise rates db)
    (hwaiting : Waiting db userId id row selected) (hvalue : selected.converted rates = some (some value))
    (tie : UUID → ℕ) : ∃ first firstRow firstSelected firstValue,
      (first, firstRow) ∈ (sweepQueue db.users db.expenses userId tie).take limit ∧
        Waiting db userId first firstRow firstSelected ∧
          firstSelected.converted rates = some (some firstValue) := by
  let ready (entry : UUID × Expense) : Bool := !stuck db.users rates userId entry.1 entry.2
  have hfew : ((sweepQueue db.users db.expenses userId tie).filter fun entry ↦
      !ready entry && decide (sweepBefore tie entry (id, row))).length < limit := by
    refine lt_of_le_of_lt ?_ (h id row selected value hwaiting hvalue).2
    have hqueue : (sweepQueue db.users db.expenses userId tie).Perm _ := List.perm_insertionSort _ _
    rw [(hqueue.filter _).length_eq, List.filter_filter]
    refine (List.monotone_filter_right _ fun entry hentry ↦ ?_).length_le
    simp only [ready, Bool.not_not, Bool.and_eq_true, decide_eq_true_eq] at hentry ⊢
    refine ⟨hentry.1.1, ?_⟩
    rcases hentry.1.2 with hlt | ⟨heq, _⟩
    · exact hlt.le
    · exact heq.le
  have hmem : (id, row) ∈ sweepQueue db.users db.expenses userId tie :=
    mem_sweepQueue.mpr ⟨hwaiting.1, by rw [hwaiting.2]; rfl⟩
  have hready : ready (id, row) = true := by simp [ready, hwaiting.not_stuck hvalue]
  obtain ⟨⟨first, firstRow⟩, htake, hfirst⟩ :=
    Prefix.exists_mem_take (sweepQueue_sorted ..) ready hmem hready hfew
  obtain ⟨hlookup, hsome⟩ := mem_sweepQueue.mp (List.mem_of_mem_take htake)
  obtain ⟨firstSelected, hselected⟩ := Option.isSome_iff_exists.mp hsome
  have hfirstWaiting : Waiting db userId first firstRow firstSelected := ⟨hlookup, hselected⟩
  rcases hnoRaise.converted_cases hfirstWaiting with hmissing | ⟨firstValue, hfirstValue⟩
  · have hstuck := stuck_iff.mpr ⟨firstSelected, hselected, hmissing⟩
    simp [ready, hstuck] at hfirst
  · exact ⟨first, firstRow, firstSelected, firstValue, htake, hfirstWaiting, hfirstValue⟩

/-- A sweep that fills a convertible row leaves fewer of them. -/
theorem SweepSpec.readyCount_lt (h : SweepSpec settings db rates userId (some (limit : ℤ)) tie now after)
    (hwaiting : Waiting db userId id row selected) (hvalue : selected.converted rates = some (some value))
    {new : Expense} (hnew : after.expenses.lookup id = some new) (hfilled : new.amountBase ≠ none) :
    readyCount rates userId after < readyCount rates userId db := by
  refine Table.countRows_lt (fun key other hother hany ↦ ?_) hwaiting.1 ?_ fun other hother ↦ ?_
  · obtain ⟨otherSelected, hotherSelected, hotherReady⟩ := (Option.any_eq_true _ _).mp hany
    have hbefore := h.waiting_before ⟨hother, hotherSelected⟩
    exact ⟨other, hbefore.1, (Option.any_eq_true _ _).mpr ⟨otherSelected, hbefore.2, hotherReady⟩⟩
  · exact (Option.any_eq_true _ _).mpr ⟨selected, hwaiting.2, by rw [hvalue]; rfl⟩
  · cases hnew.symm.trans hother
    rw [Option.any_eq_false]
    intro later hlater
    exact absurd (sweepRow?_eq_some hlater).1 hfilled

/-- While a convertible row waits, an unblocked sweep completes and fills one of them. -/
theorem Unblocked.sweep (h : Unblocked rates userId limit db) (hnoRaise : NoRaise rates db)
    (hlimit : 1 ≤ limit) (hwaiting : Waiting db userId id row selected)
    (hvalue : selected.converted rates = some (some value)) (settings : Settings) (tie : UUID → ℕ)
    (now : Instant) :
    ∃ after result,
      recomputeAmountBase settings db rates userId (some (limit : ℤ)) tie now = some (after, result) ∧
        Fills db after ∧ readyCount rates userId after < readyCount rates userId db := by
  obtain ⟨⟨after, result⟩, hafter⟩ :=
    Option.isSome_iff_exists.mp (h.completes hnoRaise settings tie now hlimit)
  have hspec := recomputeAmountBase_spec hafter
  obtain ⟨first, firstRow, firstSelected, firstValue, htake, hfirst, hfirstValue⟩ :=
    h.exists_mem_take hnoRaise hwaiting hvalue tie
  have hid := sweepRow?_id hfirst.2
  subst hid
  have hbatch : firstSelected ∈ selectBatch db.users db.expenses userId
      (sweepLimit settings (some (limit : ℤ))).toNat tie := by
    rw [sweepLimit_some settings hlimit]
    exact mem_selectBatch.mpr ⟨firstRow, htake, hfirst.2⟩
  obtain ⟨stored, hstored⟩ := Option.isSome_iff_exists.mp (h _ _ _ _ hfirst hfirstValue).1
  obtain ⟨_, new, _, _, hnew, hfill⟩ := hspec.lookup_selected hbatch
  rw [SweepRow.fill_of_converted hfirstValue, hstored, Option.map_some] at hfill
  have hfilled : new.amountBase ≠ none := by
    rw [← Option.some.inj hfill]
    exact Option.some_ne_none stored
  exact ⟨after, result, hafter,
    ⟨_, firstRow, new, hfirst.1, (sweepRow?_eq_some hfirst.2).1, hnew, hfilled⟩,
    hspec.readyCount_lt hfirst hfirstValue hnew hfilled⟩

/-! ## Repeated sweeps -/

/-- Every sweep of an unblocked backlog leaves fewer convertible rows, so one of them is the last. -/
theorem Unblocked.drained (h : Unblocked rates userId limit db) (hnoRaise : NoRaise rates db)
    (hlimit : 1 ≤ limit) (settings : Settings) (tie : ℕ → UUID → ℕ) (clock : ℕ → Instant) :
    ∃ n, Drained rates userId (afterSweeps settings rates userId limit tie clock db n) := by
  let state (n : ℕ) : Db := afterSweeps settings rates userId limit tie clock db n
  by_contra hnever
  have hcount (n : ℕ) : Unblocked rates userId limit (state n) ∧ NoRaise rates (state n) ∧
      readyCount rates userId (state n) + n ≤ readyCount rates userId db := by
    induction n with
    | zero => exact ⟨h, hnoRaise, le_rfl⟩
    | succ n ih =>
      obtain ⟨hunblocked, hraise, hless⟩ := ih
      have hready : ∃ id row selected value, Waiting (state n) userId id row selected ∧
          selected.converted rates = some (some value) := by
        by_contra hnone
        refine hnever ⟨n, fun id row selected hwaiting ↦ ?_⟩
        rcases hraise.converted_cases hwaiting with hmissing | ⟨value, hvalue⟩
        · exact hmissing
        · exact absurd ⟨id, row, selected, value, hwaiting, hvalue⟩ hnone
      obtain ⟨id, row, selected, value, hwaiting, hvalue⟩ := hready
      obtain ⟨after, result, hafter, _, hfewer⟩ :=
        hunblocked.sweep hraise hlimit hwaiting hvalue settings (tie n) (clock n)
      have hstate : state (n + 1) = after := by
        change afterSweep settings rates userId limit (tie n) (clock n) (state n) = after
        rw [afterSweep, hafter, Option.elim_some]
      have hspec := recomputeAmountBase_spec hafter
      rw [hstate]
      exact ⟨hspec.unblocked hunblocked, hspec.noRaise hraise, by omega⟩
  have hlast := (hcount (readyCount rates userId db + 1)).2.2
  omega

/-- The order among rows created at the same instant that puts the unconvertible ones first. -/
def stuckFirst (rates : FxTable) (userId : Option UUID) (db : Db) (id : UUID) : ℕ :=
  if (db.expenses.lookup id).any (stuck db.users rates userId id) = true then 0 else 1

/-- What sweeps of a blocked backlog keep: the waiting rows are old ones, and the unconvertible
rows and the row behind them wait on. -/
structure Jammed (rates : FxTable) (userId : Option UUID) (start : Db) (id : UUID) (row : Expense)
    (selected : SweepRow) (db : Db) : Prop where
  old : ∀ id row selected, Waiting db userId id row selected → Waiting start userId id row selected
  stuckOn : ∀ id row selected, Waiting start userId id row selected → selected.converted rates = some none →
    Waiting db userId id row selected
  behind : Waiting db userId id row selected

/-- In the batch of a jammed backlog there is no room for the row behind. -/
theorem Jammed.not_mem_selectBatch {start : Db} (h : Jammed rates userId start id row selected db)
    (hvalue : selected.converted rates = some (some value))
    (hblocked : limit ≤ blockers rates userId start row.createdAt) :
    selected ∉ selectBatch db.users db.expenses userId limit (stuckFirst rates userId start) := by
  intro hmem
  obtain ⟨row', htake, hselected'⟩ := mem_selectBatch.mp hmem
  have hid := sweepRow?_id h.behind.2
  subst hid
  have hrow' := (mem_sweepQueue.mp (List.mem_of_mem_take htake)).1
  cases Option.some.inj (hrow'.symm.trans h.behind.1)
  have hahead := Prefix.ahead_lt_of_mem_take (sweepQueue_sorted ..) (fun y ↦ .inr ⟨rfl, le_rfl⟩) htake
  have htie : stuckFirst rates userId start selected.id = 1 := by
    have hstart := h.old _ _ _ h.behind
    refine if_neg fun hany ↦ ?_
    rw [hstart.1, Option.any_some] at hany
    exact hstart.not_stuck hvalue hany
  have hcount : blockers rates userId start row.createdAt ≤
      ((sweepQueue db.users db.expenses userId (stuckFirst rates userId start)).filter fun y ↦
        ¬ sweepBefore (stuckFirst rates userId start) (selected.id, row) y).length := by
    have hqueue : (sweepQueue db.users db.expenses userId (stuckFirst rates userId start)).Perm _ :=
      List.perm_insertionSort _ _
    rw [(hqueue.filter _).length_eq, List.filter_filter]
    change blockers rates userId start row.createdAt ≤ Table.countRows (fun key other ↦
      decide (¬ sweepBefore (stuckFirst rates userId start) (selected.id, row) (key, other)) &&
        (sweepRow? db.users userId key other).isSome) db.expenses
    refine Table.countRows_le fun key other hother hstuck ↦ ?_
    rw [Bool.and_eq_true, stuck_iff] at hstuck
    obtain ⟨⟨otherSelected, hotherSelected, hmissing⟩, hcreated⟩ := hstuck
    have hwaits := h.stuckOn key other otherSelected ⟨hother, hotherSelected⟩ hmissing
    have hzero : stuckFirst rates userId start key = 0 := by
      refine if_pos ?_
      rw [hother, Option.any_some, stuck_iff]
      exact ⟨otherSelected, hotherSelected, hmissing⟩
    refine ⟨other, hwaits.1, ?_⟩
    rw [hwaits.2, Option.isSome_some, Bool.and_true, decide_eq_true_eq]
    rintro (hlt | ⟨_, hle⟩)
    · exact absurd hlt (not_lt.mpr (of_decide_eq_true hcreated))
    · simp only [htie, hzero] at hle
      omega
  omega

/-- A row that no sweep can take waits through all sweeps. -/
theorem Jammed.afterSweep {start : Db} (h : Jammed rates userId start id row selected db) (hlimit : 1 ≤ limit)
    (hvalue : selected.converted rates = some (some value))
    (hblocked : Numeric.ofRat 18 4 value = none ∨ limit ≤ blockers rates userId start row.createdAt)
    (settings : Settings) (now : Instant) :
    Jammed rates userId start id row selected
      (afterSweep settings rates userId limit (stuckFirst rates userId start) now db) := by
  unfold VoiceSpend.afterSweep
  cases hafter : recomputeAmountBase settings db rates userId (some (limit : ℤ))
      (stuckFirst rates userId start) now with
  | none => exact h
  | some pair =>
    obtain ⟨after, result⟩ := pair
    have hspec := recomputeAmountBase_spec hafter
    rw [Option.elim_some]
    refine ⟨fun id row selected hwaiting ↦ h.old _ _ _ (hspec.waiting_before hwaiting),
      fun id row selected hwaiting hmissing ↦ hspec.stuck_waits (h.stuckOn _ _ _ hwaiting hmissing) hmissing,
      ?_, by rw [hspec.users]; exact h.behind.2⟩
    rcases hspec.lookup_cases id with hsame | ⟨row', selected', stored, _, hmem, hwaiting', hfill, _⟩
    · exact hsame.trans h.behind.1
    · obtain ⟨rfl, rfl⟩ := h.behind.unique hwaiting'
      rcases hblocked with hwide | hfull
      · rw [SweepRow.fill_of_converted hvalue, hwide] at hfill
        cases hfill
      · rw [sweepLimit_some settings hlimit] at hmem
        exact absurd hmem (h.not_mem_selectBatch hvalue hfull)

/-- The backlog drains exactly when every convertible row fits its column and fewer than `limit`
unconvertible rows were created at or before it. -/
theorem backlogDrains_iff (settings : Settings) (rates : FxTable) (userId : Option UUID) (limit : ℕ)
    (db : Db) (hlimit : 1 ≤ limit) (hnoRaise : NoRaise rates db) :
    BacklogDrains settings rates userId limit db ↔ Unblocked rates userId limit db := by
  constructor
  · intro hdrains id row selected value hwaiting hvalue
    by_contra hblocked
    have hcases : Numeric.ofRat 18 4 value = none ∨ limit ≤ blockers rates userId db row.createdAt := by
      rw [not_and_or, Option.not_isSome_iff_eq_none, not_lt] at hblocked
      exact hblocked
    let tie (_ : ℕ) : UUID → ℕ := stuckFirst rates userId db
    have hjammed (n : ℕ) : Jammed rates userId db id row selected
        (afterSweeps settings rates userId limit tie (fun _ ↦ 0) db n) := by
      induction n with
      | zero => exact ⟨fun _ _ _ ↦ fun h ↦ h, fun _ _ _ h _ ↦ h, hwaiting⟩
      | succ n ih => exact ih.afterSweep hlimit hvalue hcases settings 0
    obtain ⟨n, hdrained⟩ := hdrains.drained tie fun _ ↦ 0
    have hmissing := hdrained id row selected (hjammed n).behind
    rw [hvalue] at hmissing
    cases hmissing
  · intro hunblocked
    refine ⟨?_, hunblocked.drained hnoRaise hlimit settings⟩
    rintro ⟨id, row, selected, value, hwaiting, hvalue⟩ tie now
    obtain ⟨after, result, hafter, hfills, _⟩ :=
      hunblocked.sweep hnoRaise hlimit hwaiting hvalue settings tie now
    exact ⟨after, result, hafter, hfills⟩

end

/-! ## A blocked backlog -/

/-- An expense of the user `1` in a currency, created at an instant and not yet converted. -/
def unconverted (currency : String) (createdAt : Instant) : Expense where
  userId := ⟨1⟩
  deviceId := ⟨2⟩
  client := ⟨⟨120000, by decide⟩, currency, none, none, none, none, 0, 1, none, none⟩
  amountBase := none
  currencyBase := none
  parseStatus := .«local»
  createdAt := createdAt
  updatedAt := createdAt
  serverSeq := 0

/-- An expense without a rate, and a later one in the user's base currency. -/
def jammedDb : Db where
  users := AList.singleton ⟨1⟩ ⟨"USD"⟩
  devices := AList.singleton ⟨2⟩ ⟨⟨1⟩⟩
  expenses := (AList.singleton ⟨10⟩ (unconverted "XAU" 0)).insert ⟨11⟩ (unconverted "USD" 1)
  usageCounters := ∅
  entitlements := ∅
  syncSeq := 0

/-- Without rates no conversion raises. -/
theorem convert_empty_ne_none (amount : ℚ) (fromCurrency toCurrency : Text) (asOf : Date) :
    convert ∅ amount fromCurrency toCurrency asOf ≠ none := by
  have hrate (code : Text) (hcode : code ≠ "USD") : ratePerUsd ∅ code asOf = none := by
    rw [ratePerUsd, if_neg hcode]
    rfl
  unfold convert
  split
  · exact Option.some_ne_none _
  · rename_i hne
    by_cases hfrom : fromCurrency = "USD"
    · have hto : toCurrency ≠ "USD" := fun hto ↦ hne (hfrom.trans hto.symm)
      rw [hrate toCurrency hto]
      split <;> exact Option.some_ne_none _
    · rw [hrate fromCurrency hfrom]
      exact Option.some_ne_none _

theorem jammedDb_noRaise : NoRaise ∅ jammedDb := fun _ _ _ _ _ ↦ convert_empty_ne_none _ _ _ _

theorem jammedDb_rows {id : UUID} {row : Expense} (h : jammedDb.expenses.lookup id = some row) :
    id = ⟨11⟩ ∧ row = unconverted "USD" 1 ∨ id = ⟨10⟩ ∧ row = unconverted "XAU" 0 := by
  have hrows := Table.mem_rows.mpr h
  rw [show Table.rows jammedDb.expenses = [(⟨11⟩, unconverted "USD" 1), (⟨10⟩, unconverted "XAU" 0)] from
    rfl] at hrows
  simpa using hrows

/-- Sweeps of one row take the row without a rate every time. -/
theorem backlog_not_drained : ¬ ∀ (settings : Settings) (rates : FxTable) (userId : Option UUID) (limit : ℕ)
    (db : Db), 1 ≤ limit → NoRaise rates db → BacklogDrains settings rates userId limit db := by
  intro hdrains
  have hwaiting : Waiting jammedDb none ⟨11⟩ (unconverted "USD" 1)
      ⟨⟨11⟩, ⟨120000, by decide⟩, "USD", 0, "USD"⟩ :=
    ⟨by decide +kernel, by decide +kernel⟩
  obtain ⟨after, result, hafter, hfills⟩ :=
    (hdrains sampleSettings ∅ none 1 jammedDb le_rfl jammedDb_noRaise).progress
      ⟨_, _, _, 12, hwaiting, by decide +kernel⟩ (fun _ ↦ 0) 0
  obtain ⟨id, row, new, hrow, hnone, hnew, hfilled⟩ := hfills
  rcases (recomputeAmountBase_spec hafter).lookup_cases id with hsame | ⟨_, selected, _, _, hmem, _, hfill, _⟩
  · rw [hsame, hrow] at hnew
    cases hnew
    exact hfilled hnone
  · have hbatch : selectBatch jammedDb.users jammedDb.expenses none
        (sweepLimit sampleSettings (some ((1 : ℕ) : ℤ))).toNat (fun _ ↦ 0) =
          [⟨⟨10⟩, ⟨120000, by decide⟩, "XAU", 0, "USD"⟩] := by
      decide +kernel
    rw [hbatch, List.mem_singleton] at hmem
    subst hmem
    have hmissing : SweepRow.fill ∅ ⟨⟨10⟩, ⟨120000, by decide⟩, "XAU", 0, "USD"⟩ = some none := by
      decide +kernel
    rw [hmissing] at hfill
    cases hfill

/-- With two rows in a batch the same backlog drains. -/
theorem backlogDrains_iff_sample : BacklogDrains sampleSettings ∅ none 2 jammedDb := by
  refine (backlogDrains_iff sampleSettings ∅ none 2 jammedDb (by decide) jammedDb_noRaise).mpr ?_
  intro id row selected value hwaiting hvalue
  rcases jammedDb_rows hwaiting.1 with ⟨rfl, rfl⟩ | ⟨rfl, rfl⟩
  · have hselected : sweepRow? jammedDb.users none ⟨11⟩ (unconverted "USD" 1) =
        some ⟨⟨11⟩, ⟨120000, by decide⟩, "USD", 0, "USD"⟩ := by
      decide +kernel
    cases Option.some.inj (hwaiting.2.symm.trans hselected)
    have hconverted : SweepRow.converted ∅ ⟨⟨11⟩, ⟨120000, by decide⟩, "USD", 0, "USD"⟩ = some (some 12) := by
      decide +kernel
    rw [hconverted] at hvalue
    cases hvalue
    exact ⟨by decide +kernel, by decide +kernel⟩
  · have hselected : sweepRow? jammedDb.users none ⟨10⟩ (unconverted "XAU" 0) =
        some ⟨⟨10⟩, ⟨120000, by decide⟩, "XAU", 0, "USD"⟩ := by
      decide +kernel
    cases Option.some.inj (hwaiting.2.symm.trans hselected)
    have hmissing : SweepRow.converted ∅ ⟨⟨10⟩, ⟨120000, by decide⟩, "XAU", 0, "USD"⟩ = some none := by
      decide +kernel
    rw [hmissing] at hvalue
    cases hvalue

end VoiceSpend
