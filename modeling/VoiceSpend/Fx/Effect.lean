import VoiceSpend.Fx.Overflow
import VoiceSpend.Sync.Pull

/-!
# The effect of a sweep

What `recompute_amount_base` writes, reports and makes visible to a pull, and that it touches
nothing else. The only way to lose this is the abort of the whole sweep by a value that does not fit
its column.
-/

namespace VoiceSpend

/-- The row got its `amount_base` from the sweep. -/
def FilledBy (db after : Db) (id : UUID) : Prop :=
  ∃ row new, db.expenses.lookup id = some row ∧ after.expenses.lookup id = some new ∧
    row.amountBase = none ∧ new.amountBase ≠ none

/-- The row has another sequence value now. -/
def restamped (after : Db) (id : UUID) (row : Expense) : Bool :=
  (after.expenses.lookup id).map Expense.serverSeq ≠ some row.serverSeq

/-- What a completed sweep does to the tables, what it reports, and what a pull then returns. -/
structure SweepSound (rates : FxTable) (db : Db) (userId : Option UUID) (limit : ℕ) (tie : UUID → ℕ)
    (after : Db) (result : RecomputeResult) : Prop where
  /-- A changed row is one of the first `limit` of the query, so it was live and without a base amount. -/
  confined : ∀ id, after.expenses.lookup id ≠ db.expenses.lookup id → ∃ row,
    (id, row) ∈ (sweepQueue db.users db.expenses userId tie).take limit ∧ row.amountBase = none ∧
      row.client.deletedAt = none ∧ userId.all (· = row.userId) = true
  converted : ∀ id row user, (id, row) ∈ (sweepQueue db.users db.expenses userId tie).take limit →
    db.users.lookup row.userId = some user → ∀ value,
      convert rates row.client.amountOriginal.toRat row.client.currencyOriginal user.baseCurrency
          row.client.spentAt.date = some (some value) →
        ∃ new, after.expenses.lookup id = some new ∧ new.amountBase.map Numeric.toRat = some value ∧
          new.currencyBase = some user.baseCurrency
  unconverted : ∀ id row user, (id, row) ∈ (sweepQueue db.users db.expenses userId tie).take limit →
    db.users.lookup row.userId = some user →
      convert rates row.client.amountOriginal.toRat row.client.currencyOriginal user.baseCurrency
          row.client.spentAt.date = some none → after.expenses.lookup id = some row
  /-- Only `amount_base`, `currency_base`, `updated_at` and `server_seq` of a row can change. -/
  columns : ∀ id, (after.expenses.lookup id).map
      (fun row ↦ (row.userId, row.deviceId, row.client, row.parseStatus, row.createdAt)) =
    (db.expenses.lookup id).map fun row ↦
      (row.userId, row.deviceId, row.client, row.parseStatus, row.createdAt)
  untouched : ∀ id row, db.expenses.lookup id = some row → (row.amountBase ≠ none ∨
    row.client.deletedAt ≠ none ∨ userId.all (· = row.userId) = false) →
      after.expenses.lookup id = some row
  tables : after.users = db.users ∧ after.devices = db.devices ∧ after.entitlements = db.entitlements ∧
    after.usageCounters = db.usageCounters
  later : ∀ id row, FilledBy db after id → after.expenses.lookup id = some row →
    ∀ other old, db.expenses.lookup other = some old → old.serverSeq < row.serverSeq
  pulled : ∀ user cursor, changesSince db.expenses user cursor = [] → cursor ≤ db.syncSeq →
    ∀ id row, (id, row) ∈ changesSince after.expenses user cursor ↔
      after.expenses.lookup id = some row ∧ row.userId = user ∧ FilledBy db after id
  scanned : result.scanned = ((sweepQueue db.users db.expenses userId tie).take limit).length
  reported : result.scanned = result.recomputed + result.stillMissing
  counted : result.recomputed = Table.countRows (restamped after) db.expenses

section

variable {settings : Settings} {rates : FxTable} {db after : Db} {userId : Option UUID}
  {limit : Option ℤ}
  {tie : UUID → ℕ} {now : Instant} {result : RecomputeResult} {id : UUID} {row : Expense} {user : User}

/-! ## The rows a sweep writes -/

/-- A row the loop writes. -/
def SweepRow.writes (rates : FxTable) (row : SweepRow) : Bool := (row.fill rates).join.isSome

theorem SweepRow.writes_iff {row : SweepRow} :
    row.writes rates = true ↔ ∃ stored, row.fill rates = some (some stored) := by
  unfold SweepRow.writes
  rw [Option.isSome_iff_exists]
  simp only [Option.join_eq_some_iff]

/-- `recomputed` counts the rows the loop writes. -/
theorem foldlM_recomputeRow_count {rows : List SweepRow} {s s' : SweepState}
    (h : rows.foldlM (recomputeRow rates now) s = some s') :
    s'.recomputed = s.recomputed + (rows.filter (SweepRow.writes rates)).length := by
  induction rows generalizing s with
  | nil =>
    cases h
    rfl
  | cons row rest ih =>
    rw [List.foldlM_cons, recomputeRow_eq] at h
    obtain ⟨middle, hmiddle, hrest⟩ := Option.bind_eq_some_iff.mp h
    obtain ⟨amountBase, hfill, rfl⟩ := Option.map_eq_some_iff.mp hmiddle
    rw [ih hrest]
    cases amountBase with
    | none =>
      have hnot : ¬ row.writes rates = true := by simp [SweepRow.writes, hfill]
      rw [List.filter_cons_of_neg hnot]
      rfl
    | some stored =>
      have hwrites : row.writes rates = true := SweepRow.writes_iff.mpr ⟨stored, hfill⟩
      have hupdate : (s.update row stored now).recomputed = s.recomputed + 1 := by
        unfold SweepState.update
        split <;> rfl
      rw [List.filter_cons_of_pos hwrites, List.length_cons, Option.elim_some, hupdate]
      omega

/-- The rows of the batch are the first rows of the query, each with what is selected of it. -/
theorem selectBatch_length (users : Table UUID User) (expenses : Table UUID Expense)
    (userId : Option UUID) (limit : ℕ) (tie : UUID → ℕ) :
    (selectBatch users expenses userId limit tie).length =
      ((sweepQueue users expenses userId tie).take limit).length := by
  rw [selectBatch_eq, List.filterMap_length_eq_length]
  rintro ⟨id, row⟩ hmem
  exact (mem_sweepQueue.mp (List.mem_of_mem_take hmem)).2

/-- What is selected of a row within the limit. -/
theorem selected_of_mem_queue {limit : ℕ}
    (hmem : (id, row) ∈ (sweepQueue db.users db.expenses userId tie).take limit)
    (huser : db.users.lookup row.userId = some user) :
    ∃ selected ∈ selectBatch db.users db.expenses userId limit tie, selected.id = id ∧
      db.expenses.lookup id = some row ∧ sweepRow? db.users userId id row = some selected ∧
        selected.baseCurrency = user.baseCurrency ∧ ∀ rates, selected.converted rates = convert rates
          row.client.amountOriginal.toRat row.client.currencyOriginal user.baseCurrency
          row.client.spentAt.date := by
  obtain ⟨hrow, hsome⟩ := mem_sweepQueue.mp (List.mem_of_mem_take hmem)
  obtain ⟨selected, hselected⟩ := Option.isSome_iff_exists.mp hsome
  have hid := sweepRow?_id hselected
  obtain ⟨_, _, _, owner, howner, heq⟩ := sweepRow?_eq_some hselected
  cases howner.symm.trans huser
  subst heq
  exact ⟨_, mem_selectBatch.mpr ⟨row, hmem, hselected⟩, hid, hrow, hselected, rfl, fun _ ↦ rfl⟩

/-- The row of the batch with an id, if the sweep writes it. -/
def WrittenBy (settings : Settings) (rates : FxTable) (db : Db) (userId : Option UUID)
    (limit : Option ℤ) (tie : UUID → ℕ) (id : UUID) : Prop :=
  ∃ selected ∈ selectBatch db.users db.expenses userId (sweepLimit settings limit).toNat tie,
    selected.id = id ∧ selected.writes rates = true

theorem SweepSpec.kept (h : SweepSpec settings db rates userId limit tie now after)
    (hnot : ¬ WrittenBy settings rates db userId limit tie id) :
    after.expenses.lookup id = db.expenses.lookup id := by
  obtain ⟨_, hswept⟩ := h.swept
  refine hswept.kept id fun selected hmem hid ↦ ?_
  obtain ⟨amountBase, hfill⟩ := Option.isSome_iff_exists.mp (hswept.computed selected hmem)
  cases amountBase with
  | none => exact hfill
  | some stored => exact absurd ⟨selected, hmem, hid, SweepRow.writes_iff.mpr ⟨stored, hfill⟩⟩ hnot

/-- A written row: what was there, and what is there now. -/
theorem SweepSpec.written (h : SweepSpec settings db rates userId limit tie now after)
    (hwritten : WrittenBy settings rates db userId limit tie id) : ∃ row selected stored seq,
      (id, row) ∈ (sweepQueue db.users db.expenses userId tie).take (sweepLimit settings limit).toNat ∧
        db.expenses.lookup id = some row ∧ sweepRow? db.users userId id row = some selected ∧
        selected.fill rates = some (some stored) ∧ db.syncSeq < seq ∧ after.expenses.lookup id =
          some { row.recomputed stored selected.baseCurrency now with serverSeq := seq } := by
  obtain ⟨selected, hmem, rfl, hwrites⟩ := hwritten
  obtain ⟨_, hswept⟩ := h.swept
  obtain ⟨stored, hfill⟩ := SweepRow.writes_iff.mp hwrites
  obtain ⟨row, hqueue, hselected⟩ := mem_selectBatch.mp hmem
  have hrow := (mem_sweepQueue.mp (List.mem_of_mem_take hqueue)).1
  obtain ⟨seq, hlt, _, hafter⟩ := hswept.filled selected hmem stored row hfill hrow
  exact ⟨row, selected, stored, seq, hqueue, hrow, hselected, hfill, hlt, hafter⟩

theorem SweepSpec.filledBy_iff (h : SweepSpec settings db rates userId limit tie now after)
    (id : UUID) :
    FilledBy db after id ↔ WrittenBy settings rates db userId limit tie id := by
  constructor
  · rintro ⟨row, new, hrow, hnew, hnone, hsome⟩
    by_contra hnot
    rw [h.kept hnot, hrow] at hnew
    cases hnew
    exact hsome hnone
  · intro hwritten
    obtain ⟨row, selected, stored, seq, _, hrow, hselected, _, _, hnew⟩ := h.written hwritten
    exact ⟨row, _, hrow, hnew, (sweepRow?_eq_some hselected).1, Option.some_ne_none _⟩

/-- The sequence values of written rows, against those before the sweep. -/
theorem SweepSpec.filled_later (h : SweepSpec settings db rates userId limit tie now after)
    (hbound : ∀ id row, db.expenses.lookup id = some row → row.serverSeq ≤ db.syncSeq)
    (hfilled : FilledBy db after id) (hrow : after.expenses.lookup id = some row) :
    db.syncSeq < row.serverSeq ∧
      ∀ other old, db.expenses.lookup other = some old → old.serverSeq < row.serverSeq := by
  obtain ⟨_, _, _, seq, _, _, _, _, hlt, hnew⟩ := h.written ((h.filledBy_iff id).mp hfilled)
  cases hnew.symm.trans hrow
  exact ⟨hlt, fun other old hold ↦ lt_of_le_of_lt (hbound other old hold) hlt⟩

/-- A row that is not filled is as it was. -/
theorem SweepSpec.kept_of_not_filled (h : SweepSpec settings db rates userId limit tie now after)
    (hnot : ¬ FilledBy db after id) : after.expenses.lookup id = db.expenses.lookup id :=
  h.kept ((h.filledBy_iff id).not.mp hnot)

/-! ## Soundness -/

theorem SweepSpec.pulled (h : SweepSpec settings db rates userId limit tie now after)
    (hbound : ∀ id row, db.expenses.lookup id = some row → row.serverSeq ≤ db.syncSeq) {reader : UUID}
    {cursor : ℕ} (hnothing : changesSince db.expenses reader cursor = [])
    (hcursor : cursor ≤ db.syncSeq) :
    (id, row) ∈ changesSince after.expenses reader cursor ↔
      after.expenses.lookup id = some row ∧ row.userId = reader ∧ FilledBy db after id := by
  rw [mem_changesSince]
  constructor
  · rintro ⟨hrow, howner, hseq⟩
    refine ⟨hrow, howner, ?_⟩
    by_contra hnot
    rw [h.kept_of_not_filled hnot] at hrow
    have hmem := mem_changesSince.mpr ⟨hrow, howner, hseq⟩
    rw [hnothing] at hmem
    exact absurd hmem List.not_mem_nil
  · rintro ⟨hrow, howner, hfilled⟩
    exact ⟨hrow, howner, lt_of_le_of_lt hcursor (h.filled_later hbound hfilled hrow).1⟩

/-- The rows whose sequence value changed are the rows the loop wrote. -/
theorem SweepSpec.counted (h : SweepSpec settings db rates userId limit tie now after)
    (hbound : ∀ id row, db.expenses.lookup id = some row → row.serverSeq ≤ db.syncSeq) :
    ((selectBatch db.users db.expenses userId (sweepLimit settings limit).toNat tie).filter
        (SweepRow.writes rates)).length = Table.countRows (restamped after) db.expenses := by
  have hnodup : (((selectBatch db.users db.expenses userId (sweepLimit settings limit).toNat tie).filter
      (SweepRow.writes rates)).map SweepRow.id).Nodup :=
    (selectBatch_nodup ..).sublist (List.filter_sublist.map _)
  have hperm : (((selectBatch db.users db.expenses userId (sweepLimit settings limit).toNat tie).filter
      (SweepRow.writes rates)).map SweepRow.id).Perm (((Table.rows db.expenses).filter fun row ↦
        restamped after row.1 row.2).map Prod.fst) := by
    rw [List.perm_ext_iff_of_nodup hnodup (Table.keys_filter_nodup (restamped after) _)]
    intro id
    rw [Table.mem_keys_filter (restamped after)]
    have hwritten : id ∈ ((selectBatch db.users db.expenses userId (sweepLimit settings limit).toNat
        tie).filter (SweepRow.writes rates)).map SweepRow.id ↔
          WrittenBy settings rates db userId limit tie id := by
      rw [List.mem_map]
      constructor
      · rintro ⟨selected, hmem, hid⟩
        obtain ⟨hbatch, hwrites⟩ := List.mem_filter.mp hmem
        exact ⟨selected, hbatch, hid, hwrites⟩
      · rintro ⟨selected, hbatch, hid, hwrites⟩
        exact ⟨selected, List.mem_filter.mpr ⟨hbatch, hwrites⟩, hid⟩
    rw [hwritten]
    constructor
    · intro hmem
      obtain ⟨row, _, _, seq, _, hrow, _, _, hlt, hnew⟩ := h.written hmem
      have hle := hbound id row hrow
      refine ⟨row, hrow, decide_eq_true fun heq ↦ ?_⟩
      rw [hnew] at heq
      have hseq : seq = row.serverSeq := Option.some.inj heq
      omega
    · rintro ⟨row, hrow, hchanged⟩
      by_contra hnot
      rw [restamped, h.kept hnot, hrow] at hchanged
      simp at hchanged
  unfold Table.countRows
  rw [← List.length_map (f := SweepRow.id), hperm.length_eq, List.length_map]

/-- The three numbers a completed sweep reports. -/
theorem recomputeAmountBase_result
    (h : recomputeAmountBase settings db rates userId limit tie now = some (after, result)) :
    let batch := selectBatch db.users db.expenses userId (sweepLimit settings limit).toNat tie
    let recomputed := (batch.filter (SweepRow.writes rates)).length
    result = ⟨batch.length, recomputed, batch.length - recomputed⟩ := by
  unfold recomputeAmountBase at h
  split at h
  · cases h
  · obtain ⟨s, hs, heq⟩ := Option.map_eq_some_iff.mp h
    have hcount := foldlM_recomputeRow_count hs
    rw [Nat.zero_add] at hcount
    cases heq
    rw [hcount]

/-- What a sweep that completes does. -/
theorem sweepSound_of_recomputeAmountBase
    (h : recomputeAmountBase settings db rates userId limit tie now = some (after, result))
    (hbound : ∀ id row, db.expenses.lookup id = some row → row.serverSeq ≤ db.syncSeq) :
    SweepSound rates db userId (sweepLimit settings limit).toNat tie after result := by
  have hspec := recomputeAmountBase_spec h
  have hresult := recomputeAmountBase_result h
  have hlength := selectBatch_length db.users db.expenses userId (sweepLimit settings limit).toNat tie
  have hfewer := List.length_filter_le (SweepRow.writes rates)
    (selectBatch db.users db.expenses userId (sweepLimit settings limit).toNat tie)
  constructor
  case confined =>
    intro id hchanged
    have hwritten : WrittenBy settings rates db userId limit tie id := by
      by_contra hnot
      exact hchanged (hspec.kept hnot)
    obtain ⟨row, selected, _, _, hqueue, _, hselected, _⟩ := hspec.written hwritten
    obtain ⟨hnone, hlive, hscope, _⟩ := sweepRow?_eq_some hselected
    exact ⟨row, hqueue, hnone, hlive, hscope⟩
  case converted =>
    intro id row user hqueue huser value hvalue
    obtain ⟨selected, hmem, rfl, hrow, hselected, hbase, hconverted⟩ :=
      selected_of_mem_queue hqueue huser
    rw [← hconverted rates] at hvalue
    obtain ⟨_, new, _, _, _, hfill⟩ := hspec.lookup_selected hmem
    rw [SweepRow.fill_of_converted hvalue] at hfill
    obtain ⟨stored, hstored, heq⟩ := Option.map_eq_some_iff.mp hfill
    have hfilled : selected.fill rates = some (some stored) := by
      rw [SweepRow.fill_of_converted hvalue, hstored, Option.map_some]
    obtain ⟨row', selected', stored', seq, _, hrow', hselected', hfilled', _, hnew⟩ :=
      hspec.written ⟨selected, hmem, rfl, SweepRow.writes_iff.mpr ⟨stored, hfilled⟩⟩
    cases hrow.symm.trans hrow'
    cases hselected.symm.trans hselected'
    cases hfilled.symm.trans hfilled'
    refine ⟨_, hnew, ?_, congrArg some hbase⟩
    exact congrArg some (toRat_of_convert hvalue hstored)
  case unconverted =>
    intro id row user hqueue huser hnone
    obtain ⟨selected, hmem, rfl, hrow, hselected, _, hconverted⟩ := selected_of_mem_queue hqueue huser
    rw [← hconverted rates] at hnone
    refine (hspec.kept fun hwritten ↦ ?_).trans hrow
    obtain ⟨row', selected', stored, _, _, hrow', hselected', hfilled, _⟩ := hspec.written hwritten
    cases hrow.symm.trans hrow'
    cases hselected.symm.trans hselected'
    cases (SweepRow.fill_of_missing hnone).symm.trans hfilled
  case columns =>
    intro id
    rcases hspec.lookup_cases id with hsame | ⟨row, _, _, _, _, ⟨hrow, _⟩, _, hnew⟩
    · rw [hsame]
    · rw [hnew, hrow]
      rfl
  case untouched =>
    intro id row hrow hnot
    refine (hspec.kept fun hwritten ↦ ?_).trans hrow
    obtain ⟨row', _, _, _, _, hrow', hselected, _⟩ := hspec.written hwritten
    cases hrow.symm.trans hrow'
    obtain ⟨hnone, hlive, hscope, _⟩ := sweepRow?_eq_some hselected
    rcases hnot with hbase | hdeleted | hforeign
    · exact hbase hnone
    · exact hdeleted hlive
    · rw [hscope] at hforeign
      cases hforeign
  case tables => exact ⟨hspec.users, hspec.devices, hspec.entitlements, hspec.usageCounters⟩
  case later => exact fun id row hfilled hrow ↦ (hspec.filled_later hbound hfilled hrow).2
  case pulled => exact fun user cursor hnothing hcursor id row ↦ hspec.pulled hbound hnothing hcursor
  case scanned => rw [hresult, ← hlength]
  case reported =>
    rw [hresult]
    dsimp only
    omega
  case counted => rw [hresult, ← hspec.counted hbound]

/-- Where no conversion raises, a row of the batch is filled or left exactly when it is safe. -/
theorem NoRaise.fill_isSome_iff (h : NoRaise rates db) {limit : ℕ} {selected : SweepRow}
    (hmem : selected ∈ selectBatch db.users db.expenses userId limit tie) :
    (selected.fill rates).isSome ↔ selected.Safe rates := by
  refine selected.fill_isSome_iff_of_nonzero fun hne rateFrom rateTo hfrom hto hzero ↦ ?_
  obtain ⟨row, hrow, hselected⟩ := lookup_of_mem_selectBatch hmem
  have hraises : selected.converted rates = none := by
    rw [SweepRow.converted, convert, if_neg hne, hfrom, hto, hzero]
    rfl
  rcases h.converted_cases ⟨hrow, hselected⟩ with hnone | ⟨value, hvalue⟩
  · cases hraises.symm.trans hnone
  · cases hraises.symm.trans hvalue

/-- A sweep is sound exactly when the converted amount of every row of its batch fits its column. -/
theorem sweep_sound_iff (settings : Settings) (rates : FxTable) (db : Db) (userId : Option UUID)
    (limit : ℕ) (tie : UUID → ℕ) (now : Instant) (hlimit : 1 ≤ limit) (hraise : NoRaise rates db)
    (hbound : ∀ id row, db.expenses.lookup id = some row → row.serverSeq ≤ db.syncSeq) :
    (∃ after result,
      recomputeAmountBase settings db rates userId (some limit) tie now = some (after, result) ∧
        SweepSound rates db userId limit tie after result) ↔
      ∀ selected ∈ selectBatch db.users db.expenses userId limit tie, selected.Safe rates := by
  have hlimits := sweepLimit_some settings hlimit
  have hcompletes := @recomputeAmountBase_isSome settings db rates userId (some (limit : ℤ)) tie now
  rw [hlimits] at hcompletes
  constructor
  · rintro ⟨after, result, hafter, _⟩ selected hmem
    obtain ⟨_, hfill⟩ := hcompletes.mp (by rw [hafter]; rfl)
    exact (hraise.fill_isSome_iff hmem).mp (hfill selected hmem)
  · intro hsafe
    have hnonneg : 0 ≤ sweepLimit settings (some (limit : ℤ)) := by
      rw [sweepLimit, if_neg (by omega)]
      exact Int.natCast_nonneg limit
    obtain ⟨⟨after, result⟩, hafter⟩ := Option.isSome_iff_exists.mp (hcompletes.mpr ⟨hnonneg,
      fun selected hmem ↦ (hraise.fill_isSome_iff hmem).mpr (hsafe selected hmem)⟩)
    have hsound := sweepSound_of_recomputeAmountBase hafter hbound
    rw [hlimits] at hsound
    exact ⟨after, result, hafter, hsound⟩

end

/-! ## A sweep that writes nothing -/

theorem dinarDb_rows {units : Money} {id : UUID} {row : Expense}
    (h : (dinarDb units).expenses.lookup id = some row) : id = ⟨11⟩ ∧ row = unconverted "USD" 1 ∨
      id = ⟨10⟩ ∧ row = { unconverted "KWD" 0 with
        client := { (unconverted "KWD" 0).client with amountOriginal := units } } := by
  have hrows := Table.mem_rows.mpr h
  rw [show Table.rows (dinarDb units).expenses =
    [(⟨11⟩, unconverted "USD" 1), (⟨10⟩, { unconverted "KWD" 0 with
      client := { (unconverted "KWD" 0).client with amountOriginal := units } })] from rfl] at hrows
  simpa using hrows

/-- Dinars convert to dollars wherever the product has at most 28 digits. -/
theorem dinarDb_noRaise {units : Money}
    (hproduct : convert dinarRates units.toRat "KWD" "USD" (Instant.date 0) ≠ none) :
    NoRaise dinarRates (dinarDb units) := by
  intro id row user hrow huser
  have hdollars : user.baseCurrency = "USD" := by
    have hmem := Table.mem_rows.mpr huser
    rw [show Table.rows (dinarDb units).users = [(⟨1⟩, ⟨"USD"⟩)] from rfl, List.mem_singleton] at hmem
    exact congrArg (fun entry ↦ entry.2.baseCurrency) hmem
  rw [hdollars]
  rcases dinarDb_rows hrow with ⟨_, rfl⟩ | ⟨_, rfl⟩
  · rw [convert, if_pos (show (unconverted "USD" 1).client.currencyOriginal = "USD" from rfl)]
    exact Option.some_ne_none _
  · exact hproduct

theorem dinarDb_seq {units : Money} {id : UUID} {row : Expense}
    (h : (dinarDb units).expenses.lookup id = some row) : row.serverSeq ≤ (dinarDb units).syncSeq := by
  rcases dinarDb_rows h with ⟨_, rfl⟩ | ⟨_, rfl⟩ <;> exact le_rfl

/-- The converted dinars have 19 digits, which is no error of the conversion but one of the column. -/
theorem sweep_not_sound : ¬ ∀ (settings : Settings) (rates : FxTable) (db : Db) (userId : Option UUID)
    (limit : ℕ) (tie : UUID → ℕ) (now : Instant), 1 ≤ limit → NoRaise rates db →
      (∀ id row, db.expenses.lookup id = some row → row.serverSeq ≤ db.syncSeq) →
        ∃ after result,
          recomputeAmountBase settings db rates userId (some limit) tie now = some (after, result) ∧
            SweepSound rates db userId limit tie after result := by
  intro hsound
  obtain ⟨after, result, hafter, _⟩ := hsound sampleSettings dinarRates
    (dinarDb ⟨999999999999999999, by decide⟩) none 2 (fun _ ↦ 0) 0 (by decide)
    (dinarDb_noRaise (by decide +kernel)) (fun _ _ h ↦ dinarDb_seq h)
  have hraises : (recomputeAmountBase sampleSettings (dinarDb ⟨999999999999999999, by decide⟩) dinarRates none
      (some ((2 : ℕ) : ℤ)) (fun _ ↦ 0) 0).isSome = false := by
    decide +kernel
  rw [hafter] at hraises
  cases hraises

/-- Twelve dinars and twelve dollars are both filled. -/
theorem sweep_sound_iff_sample : ∃ after result,
    recomputeAmountBase sampleSettings (dinarDb ⟨120000, by decide⟩) dinarRates none (some ((2 : ℕ) : ℤ))
        (fun _ ↦ 0) 0 = some (after, result) ∧
      SweepSound dinarRates (dinarDb ⟨120000, by decide⟩) none 2 (fun _ ↦ 0) after result := by
  refine (sweep_sound_iff sampleSettings dinarRates (dinarDb ⟨120000, by decide⟩) none 2
    (fun _ ↦ 0) 0 (by decide)
    (dinarDb_noRaise (by decide +kernel)) (fun _ _ h ↦ dinarDb_seq h)).mpr ?_
  have hbatch : selectBatch (dinarDb ⟨120000, by decide⟩).users (dinarDb ⟨120000, by decide⟩).expenses none 2
      (fun _ ↦ 0) =
        [⟨⟨10⟩, ⟨120000, by decide⟩, "KWD", 0, "USD"⟩, ⟨⟨11⟩, ⟨120000, by decide⟩, "USD", 0, "USD"⟩] := by
    decide +kernel
  rw [hbatch, List.forall_mem_cons, List.forall_mem_singleton]
  refine ⟨.inr fun rateFrom rateTo hfrom hto ↦ ?_, .inl rfl⟩
  have hdinar : ratePerUsd dinarRates "KWD" (Instant.date 0) = some (3 / 10) := by decide +kernel
  have hdollar : ratePerUsd dinarRates "USD" (Instant.date 0) = some 1 := rfl
  cases hfrom.symm.trans hdinar
  cases hto.symm.trans hdollar
  decide +kernel

end VoiceSpend
