import VoiceSpend.Concurrency.Staleness
import VoiceSpend.Fx.Effect
import VoiceSpend.Sync.Replicas
import VoiceSpend.Worker.Runs

/-!
# The base currency of a user

Every converted amount is, at any time, the conversion of the row as it is, under rates that were in the table,
into the base currency that its user has now: a change of the base currency is followed by
`handle_base_currency_changed`, which empties the user's amounts before a sweep converts them again. The run
of the message it sends fills every row whose rates are known.
-/

namespace VoiceSpend

open Machine

/-- The user's base currency may be another one than that of the amounts, after a step. -/
def WorkerAction.pending (user : UUID) (before : Bool) : WorkerAction → Bool
  | .setBaseCurrency changed _ => before || decide (changed = user)
  | .handleBaseCurrencyChanged handled _ => before && decide (handled ≠ user)
  | _ => before

/-- A change of the user's base currency has not been handled yet. -/
def Worker.unhandled (user : UUID) (trace : List (Worker × WorkerAction)) : Bool :=
  trace.foldl (fun before entry ↦ entry.2.pending user before) false

namespace Worker

/-- `fx_rates` at every moment of a run. -/
def ratesSeen (trace : List (Worker × WorkerAction)) (s : Worker) : List FxTable :=
  trace.map (·.1.rates) ++ [s.rates]

/-- The user's amounts are in the user's base currency. -/
def InBase (s : Worker) (user : UUID) : Prop :=
  ∀ id row, s.db.expenses.lookup id = some row → row.userId = user → ∀ currency ∈ row.currencyBase,
    (s.db.users.lookup user).map User.baseCurrency = some currency

/-- The live rows of a user. -/
def liveRows (s : Worker) (user : UUID) : ℕ :=
  Table.countRows (fun _ row ↦ decide (row.userId = user ∧ row.client.deletedAt = none)) s.db.expenses

/-- What a change of the base currency comes to when its message is run: `cleared` is the state after
`handle_base_currency_changed`, and `filled` the one after the sweep. -/
structure Rebased (s : Worker) (user : UUID) (cleared filled : Worker) : Prop where
  converted : ∀ id row account, s.db.expenses.lookup id = some row → row.userId = user →
    row.client.deletedAt = none → s.db.users.lookup user = some account →
      ∃ new, filled.db.expenses.lookup id = some new ∧ new.client = row.client ∧
        convert s.rates row.client.amountOriginal.toRat row.client.currencyOriginal account.baseCurrency
          row.client.spentAt.date = some (new.amountBase.map Numeric.toRat)
  others : ∀ id row, s.db.expenses.lookup id = some row → row.userId ≠ user →
    cleared.db.expenses.lookup id = some row ∧ filled.db.expenses.lookup id = some row

end Worker

/-- What holds of the converted amounts after a run of the worker. -/
structure AmountsFollow (rt : Runtime) (settings : Settings) (trace : List (Worker × WorkerAction))
    (s : Worker) :
    Prop where
  current : ∀ id row, s.db.expenses.lookup id = some row → BaseCurrent (Worker.ratesSeen trace s) row
  inBase : ∀ user, Worker.unhandled user trace = false → s.InBase user
  /-- The message is the last one in the queue; its sweep raises or converts all the user's rows. -/
  rebased : ∀ user now env cleared filled, rt.uuid user.str = some user →
    s.liveRows user ≤ settings.fxRecomputeBatch →
      s.step rt settings (.handleBaseCurrencyChanged user now) = some cleared →
        cleared.step rt settings (.run s.queue.length env) = some filled →
          filled.db = cleared.db ∨ s.Rebased user cleared filled

/-! ## The text of an identifier -/

theorem Runtime.hexDigit_digitChar : ∀ digit : Fin 16, hexDigit (Nat.digitChar digit) = some (digit : ℕ) := by
  decide

/-- Reading the last digits of a number, by induction on how many. -/
theorem Runtime.foldlM_digits (value n start : ℕ) :
    (((List.range n).map fun i ↦ Nat.digitChar (value / 16 ^ i % 16)).reverse.foldlM
      (fun read c ↦ (hexDigit c).map (16 * read + ·)) start) = some (start * 16 ^ n + value % 16 ^ n) := by
  induction n generalizing start with
  | zero => simp [Nat.mod_one]
  | succ n ih =>
    have hdigit := hexDigit_digitChar ⟨value / 16 ^ n % 16, Nat.mod_lt _ (by decide)⟩
    rw [List.range_succ, List.map_append, List.map_cons, List.map_nil, List.reverse_append,
      List.reverse_singleton,
      List.singleton_append, List.foldlM_cons, hdigit]
    simp only [Option.map_some, Option.bind_eq_bind, Option.bind_some, ih]
    rw [Nat.mod_pow_succ]
    congr 1
    ring

/-- `UUID(str(uuid))`. -/
theorem Runtime.hexUuid_str (id : UUID) : hexUuid id.str = some id := by
  have hlength : id.hex.reverse.length = 32 := by simp [UUID.hex]
  unfold hexUuid
  simp only [UUID.str_digits, hlength, if_true]
  rw [UUID.hex, Runtime.foldlM_digits]
  have hvalue : id.int.toNat % 16 ^ 32 = id.int.toNat := Nat.mod_eq_of_lt id.int.isLt
  simp only [hvalue, Nat.zero_mul, Nat.zero_add, Option.map_some, BitVec.ofNat_toNat, BitVec.setWidth_eq]

section

variable {rt : Runtime} {settings : Settings} {s s' : Worker} {action : WorkerAction} {user : UUID}
  {trace : List (Worker × WorkerAction)} {db after : Db} {now : Instant} {id : UUID} {row : Expense}

/-! ## The invalidation -/

theorem lookup_nullRow (now : Instant) (t : Table UUID Expense × ℕ) (written id : UUID) :
    (nullRow now t written).1.lookup id = if id = written then
      (t.1.lookup id).map fun row ↦ { row.nulled now with serverSeq := t.2 + 1 } else t.1.lookup id := by
  unfold nullRow
  cases hrow : t.1.lookup written with
  | none =>
    by_cases hid : id = written
    · rw [if_pos hid, hid, hrow]
      rfl
    · rw [if_neg hid]
  | some row =>
    dsimp only
    rw [Table.lookup_insert_eq]
    by_cases hid : id = written
    · rw [if_pos hid, if_pos hid, hid, hrow]
      rfl
    · rw [if_neg hid, if_neg hid]

theorem lookup_foldl_nullRow (now : Instant) (ids : List UUID) (t : Table UUID Expense × ℕ) (id : UUID) :
    (id ∉ ids → (ids.foldl (nullRow now) t).1.lookup id = t.1.lookup id) ∧
      (id ∈ ids → ∃ seq, (ids.foldl (nullRow now) t).1.lookup id =
        (t.1.lookup id).map fun row ↦ { row.nulled now with serverSeq := seq }) := by
  induction ids generalizing t with
  | nil => exact ⟨fun _ ↦ rfl, fun hmem ↦ absurd hmem List.not_mem_nil⟩
  | cons written rest ih =>
    obtain ⟨hother, hnulled⟩ := ih (nullRow now t written)
    rw [List.foldl_cons, List.mem_cons]
    constructor
    · intro hnot
      rw [hother fun hmem ↦ hnot (.inr hmem), lookup_nullRow, if_neg fun hid ↦ hnot (.inl hid)]
    · intro hmem
      by_cases hrest : id ∈ rest
      · -- a row nulled twice is a row nulled once
        obtain ⟨seq, hseq⟩ := hnulled hrest
        refine ⟨seq, ?_⟩
        rw [hseq, lookup_nullRow]
        split
        · rw [Option.map_map]
          rfl
        · rfl
      · have hid : id = written := hmem.resolve_right hrest
        refine ⟨t.2 + 1, ?_⟩
        rw [hother hrest, lookup_nullRow, if_pos hid]

/-- One row after `null_amount_base_for_user`. -/
theorem lookup_nullAmountBaseForUser (db : Db) (user : UUID) (now : Instant)
    (hrow : db.expenses.lookup id = some row) :
    if armed user row then ∃ seq, (nullAmountBaseForUser db user now).1.expenses.lookup id =
      some { row.nulled now with serverSeq := seq }
    else (nullAmountBaseForUser db user now).1.expenses.lookup id = some row := by
  have hmem : id ∈ ((Table.rows db.expenses).filter fun row ↦ armed user row.2).map Prod.fst ↔
      armed user row = true := by
    rw [List.mem_map]
    constructor
    · rintro ⟨⟨key, other⟩, hother, rfl⟩
      obtain ⟨hlookup, harmed⟩ := List.mem_filter.mp hother
      cases hrow.symm.trans (Table.mem_rows.mp hlookup)
      exact harmed
    · exact fun harmed ↦ ⟨(id, row), List.mem_filter.mpr ⟨Table.mem_rows.mpr hrow, harmed⟩, rfl⟩
  obtain ⟨hother, hnulled⟩ := lookup_foldl_nullRow now
    (((Table.rows db.expenses).filter fun row ↦ armed user row.2).map Prod.fst) (db.expenses, db.syncSeq) id
  split
  · rename_i harmed
    obtain ⟨seq, hseq⟩ := hnulled (hmem.mpr harmed)
    exact ⟨seq, hseq.trans (by rw [hrow]; rfl)⟩
  · rename_i harmed
    exact (hother fun h ↦ harmed (hmem.mp h)).trans hrow

/-! ## One row in one step -/

/-- What a step may have done to the row that is there afterwards. -/
inductive Worker.RowStep (s : Worker) (id : UUID) (new : Expense) : Prop
  | kept (row : Expense) (stored : s.db.expenses.lookup id = some row) (owner : new.userId = row.userId)
      (inputs : new.inputs = row.inputs) (amount : new.amountBase = row.amountBase)
      (currency : new.currencyBase = row.currencyBase)
  | cleared (amount : new.amountBase = none) (currency : new.currencyBase = none)
  | converted (account : User) (amountBase : Money) (owner : s.db.users.lookup new.userId = some account)
      (amount : new.amountBase = some amountBase) (currency : new.currencyBase = some account.baseCurrency)
      (value : convert s.rates new.client.amountOriginal.toRat new.client.currencyOriginal
        account.baseCurrency
        new.client.spentAt.date = some (some amountBase.toRat))

theorem Worker.RowStep.same (h : s.db.expenses.lookup id = some row) : s.RowStep id row :=
  .kept row h rfl rfl rfl rfl

/-- An amount that a sweep stores is the conversion itself. -/
theorem SweepRow.converted_of_fill {rates : FxTable} {selected : SweepRow} {amountBase : Option Money}
    (h : selected.fill rates = some amountBase) :
    selected.converted rates = some (amountBase.map Numeric.toRat) := by
  unfold SweepRow.converted
  unfold SweepRow.fill at h
  split at h
  · cases h
  · rename_i hmissing
    cases h
    exact hmissing
  · rename_i value hvalue
    obtain ⟨stored, hstored, rfl⟩ := Option.map_eq_some_iff.mp h
    rw [hvalue, Option.map_some, toRat_of_convert hvalue hstored]

theorem Worker.rowStep_of_push {batch : List RawRecord} {clock : Instant} {response : SyncPushResponse}
    (h : pushSync rt settings s.db user batch now clock = some (after, response))
    (hrow : after.expenses.lookup id = some row) : s.RowStep id row := by
  obtain ⟨returned, hspec⟩ := pushSync_spec h
  cases hselected : selected s.db user (batch.map (classify rt)) id with
  | none => exact .same ((hspec.untouched id hselected).1.symm.trans hrow)
  | some record =>
    obtain ⟨columns, _, houtcome⟩ := hspec.written id record hselected
    obtain ⟨_, _, hnew, _⟩ | ⟨old, _, hold, _, hnew, _⟩ | ⟨old, hold, _, hnew, _⟩ := houtcome.cases_eq
    · cases hrow.symm.trans hnew
      exact .cleared rfl rfl
    · cases hrow.symm.trans hnew
      by_cases hstale : old.amountBaseIsStale columns = true
      · exact .cleared (by simp [Expense.onConflict, hstale]) (by simp [Expense.onConflict, hstale])
      · have hsame : old.client.amountOriginal = columns.amountOriginal ∧
            old.client.currencyOriginal = columns.currencyOriginal ∧
              old.client.spentAt = columns.spentAt := by
          simpa [Expense.amountBaseIsStale, and_assoc] using hstale
        refine .kept old hold rfl ?_ (by simp [Expense.onConflict, hstale])
          (by simp [Expense.onConflict, hstale])
        simp [Expense.inputs, hsame]
    · cases hrow.symm.trans hnew
      exact .same hold

theorem Worker.rowStep_of_sweep {userId : Option UUID} {limit : Option ℤ} {tie : UUID → ℕ}
    {result : RecomputeResult}
    (h : recomputeAmountBase settings s.db s.rates userId limit tie now = some (after, result))
    (hrow : after.expenses.lookup id = some row) : s.RowStep id row := by
  rcases (recomputeAmountBase_spec h).lookup_cases id with
    hsame | ⟨old, selected, stored, seq, _, ⟨hold, hselected⟩, hfill, hnew⟩
  · exact .same (hsame.symm.trans hrow)
  · obtain ⟨_, _, _, account, haccount, rfl⟩ := sweepRow?_eq_some hselected
    cases hrow.symm.trans hnew
    exact .converted account stored haccount rfl rfl (SweepRow.converted_of_fill hfill)

theorem Worker.rowStep_of_null (hrow : (nullAmountBaseForUser s.db user now).1.expenses.lookup id =
    some row) :
    s.RowStep id row := by
  have hpushed := nullAmountBaseForUser_pushed s.db user now id
  rw [hrow, Option.map_some] at hpushed
  obtain ⟨old, hold, _⟩ := Option.map_eq_some_iff.mp hpushed.symm
  have hafter := lookup_nullAmountBaseForUser s.db user now hold
  split at hafter
  · obtain ⟨seq, hnew⟩ := hafter
    cases hrow.symm.trans hnew
    exact .cleared rfl rfl
  · cases hrow.symm.trans hafter
    exact .same hold

theorem Worker.rowStep_of_perform {env : TaskEnv} {task : FxTask}
    (hrow : (s.perform rt settings env task).db.expenses.lookup id = some row) : s.RowStep id row := by
  cases task with
  | ingestDailyFx tick retries =>
    simp only [Worker.perform, Worker.ingestDailyFx] at hrow
    split at hrow
    · split at hrow <;> exact .same hrow
    · exact .same hrow
  | backfillFxRange start finish => exact .same hrow
  | recomputeAmountBase userId limit =>
    simp only [Worker.perform, Worker.recompute] at hrow
    split at hrow
    · exact .same hrow
    · rename_i user _
      cases hsweep : recomputeAmountBase settings s.db s.rates user limit env.tie env.now with
      | none =>
        rw [hsweep] at hrow
        exact .same hrow
      | some out =>
        rw [hsweep] at hrow
        exact Worker.rowStep_of_sweep hsweep hrow

theorem Worker.step_row (hstep : s.step rt settings action = some s')
    (hrow : s'.db.expenses.lookup id = some row) : s.RowStep id row := by
  cases action with
  | beat | callBackfill | elsewhere =>
    cases hstep
    exact .same hrow
  | handleBaseCurrencyChanged user now =>
    cases hstep
    exact Worker.rowStep_of_null hrow
  | push user batch now clock =>
    obtain ⟨⟨after, response⟩, hpush, rfl⟩ := Option.map_eq_some_iff.mp hstep
    exact Worker.rowStep_of_push hpush hrow
  | setBaseCurrency =>
    obtain ⟨_, _, rfl⟩ := Option.map_eq_some_iff.mp hstep
    exact .same hrow
  | lose i =>
    obtain ⟨_, _, rfl⟩ := Option.map_eq_some_iff.mp hstep
    exact .same hrow
  | signUp id user =>
    simp only [Worker.step] at hstep
    split at hstep
    · cases hstep
    · cases hstep
      exact .same hrow
  | run i env =>
    obtain ⟨task, _, rfl⟩ := Option.map_eq_some_iff.mp hstep
    cases Worker.rowStep_of_perform hrow with
    | kept old stored owner inputs amount currency => exact .kept old stored owner inputs amount currency
    | cleared amount currency => exact .cleared amount currency
    | converted account amountBase owner amount currency value =>
      exact .converted account amountBase owner amount currency value

theorem Worker.RowStep.baseCurrent {tables : List FxTable} (h : s.RowStep id row) (hrates : s.rates ∈ tables)
    (hall : ∀ id row, s.db.expenses.lookup id = some row → BaseCurrent tables row) :
      BaseCurrent tables row := by
  cases h with
  | kept old stored owner inputs amount currency =>
    have hold := hall id old stored
    obtain ⟨horiginal, hrest⟩ := Prod.mk.inj inputs
    obtain ⟨hcurrency, hspent⟩ := Prod.mk.inj hrest
    constructor
    · rw [amount, currency]
      exact hold.null
    · rw [amount, currency, horiginal, hcurrency, hspent]
      exact hold.converted
  | cleared amount currency => exact baseCurrent_of_null amount currency
  | converted account amountBase owner amount currency value =>
    refine ⟨by simp [amount, currency], fun written base hwritten hbase ↦ ⟨s.rates, hrates, ?_⟩⟩
    cases amount.symm.trans hwritten
    cases currency.symm.trans hbase
    exact value

/-- The base currency of a user changes in one way only. -/
theorem Worker.perform_users (rt : Runtime) (settings : Settings) (s : Worker) (env : TaskEnv)
    (task : FxTask) :
    (s.perform rt settings env task).db.users = s.db.users := by
  cases task with
  | ingestDailyFx tick retries =>
    simp only [Worker.perform, Worker.ingestDailyFx]
    split
    · split <;> rfl
    · rfl
  | backfillFxRange start finish => rfl
  | recomputeAmountBase userId limit =>
    simp only [Worker.perform, Worker.recompute]
    split
    · rfl
    · rename_i user _
      cases hsweep : recomputeAmountBase settings s.db s.rates user limit env.tie env.now with
      | none => rfl
      | some out =>
        obtain ⟨after, result⟩ := out
        exact (recomputeAmountBase_spec hsweep).users

theorem Worker.step_users (hstep : s.step rt settings action = some s')
    (hkept : ∀ currency, action ≠ .setBaseCurrency user currency) {account : User}
    (haccount : s.db.users.lookup user = some account) : s'.db.users.lookup user = some account := by
  cases action with
  | beat | callBackfill | elsewhere | handleBaseCurrencyChanged =>
    cases hstep
    exact haccount
  | push writer batch now clock =>
    obtain ⟨⟨after, response⟩, hpush, rfl⟩ := Option.map_eq_some_iff.mp hstep
    obtain ⟨_, hspec⟩ := pushSync_spec hpush
    exact (congrArg (AList.lookup user) hspec.users).trans haccount
  | setBaseCurrency changed currency =>
    obtain ⟨_, _, rfl⟩ := Option.map_eq_some_iff.mp hstep
    have hne : user ≠ changed := fun heq ↦ hkept currency (by rw [heq])
    exact (AList.lookup_insert_ne hne).trans haccount
  | lose i =>
    obtain ⟨_, _, rfl⟩ := Option.map_eq_some_iff.mp hstep
    exact haccount
  | signUp id new =>
    simp only [Worker.step] at hstep
    split at hstep
    · cases hstep
    · rename_i hfresh
      cases hstep
      have hne : user ≠ id := by
        rintro rfl
        exact hfresh (AList.lookup_isSome.mp (Option.isSome_iff_exists.mpr ⟨_, haccount⟩))
      exact (AList.lookup_insert_ne hne).trans haccount
  | run i env =>
    obtain ⟨task, _, rfl⟩ := Option.map_eq_some_iff.mp hstep
    rw [Worker.perform_users]
    exact haccount

/-- A step that is no change of the user's base currency keeps the amounts in it. -/
theorem Worker.InBase.step (h : s.InBase user) (hstep : s.step rt settings action = some s')
    (hkept : ∀ currency, action ≠ .setBaseCurrency user currency) : s'.InBase user := by
  intro id row hrow howner currency hcurrency
  have huser : (s.db.users.lookup user).map User.baseCurrency = some currency := by
    cases Worker.step_row hstep hrow with
    | kept old stored owner inputs amount same =>
      exact h id old stored (owner.symm.trans howner) currency (same ▸ hcurrency)
    | cleared amount none =>
      rw [none] at hcurrency
      cases hcurrency
    | converted account amountBase owner amount base value =>
      cases base.symm.trans hcurrency
      rw [← howner, owner]
      rfl
  obtain ⟨account, haccount, rfl⟩ := Option.map_eq_some_iff.mp huser
  rw [Worker.step_users hstep hkept haccount]
  rfl

/-- `handle_base_currency_changed` leaves no amount of the user. -/
theorem Worker.cleared_of_handled
    (hpaired : ∀ id row, s.db.expenses.lookup id = some row → row.Paired)
    (hrow : (nullAmountBaseForUser s.db user now).1.expenses.lookup id = some row)
    (howner : row.userId = user) :
    row.amountBase = none ∧ row.currencyBase = none := by
  have hpushed := nullAmountBaseForUser_pushed s.db user now id
  rw [hrow, Option.map_some] at hpushed
  obtain ⟨old, hold, hsame⟩ := Option.map_eq_some_iff.mp hpushed.symm
  injection hsame with huser
  have hafter := lookup_nullAmountBaseForUser s.db user now hold
  split at hafter
  · obtain ⟨seq, hnew⟩ := hafter
    cases hrow.symm.trans hnew
    exact ⟨rfl, rfl⟩
  · rename_i harmed
    cases hrow.symm.trans hafter
    have hamount : row.amountBase = none := by simpa [armed, howner] using harmed
    exact ⟨hamount, (hpaired id row hold).mp hamount⟩

theorem Worker.InBase.of_handled (hpaired : ∀ id row, s.db.expenses.lookup id = some row → row.Paired) :
    (s.handleBaseCurrencyChanged user now).1.InBase user := by
  intro id row hrow howner currency hcurrency
  rw [(Worker.cleared_of_handled hpaired hrow howner).2] at hcurrency
  cases hcurrency

/-! ## The sweep of one user -/

theorem UUID.str_ne_empty (id : UUID) : id.str ≠ "" := by
  intro hempty
  have hdigits := id.str_digits
  rw [hempty] at hdigits
  have hlength : id.hex.reverse.length = 32 := by simp [UUID.hex]
  rw [← hdigits] at hlength
  cases hlength

/-- The row in the tables that `handle_base_currency_changed` leaves. -/
theorem Worker.exists_cleared (hpaired : ∀ id row, s.db.expenses.lookup id = some row → row.Paired)
    (hrow : s.db.expenses.lookup id = some row) (howner : row.userId = user) (now : Instant) :
    ∃ cleared, (nullAmountBaseForUser s.db user now).1.expenses.lookup id = some cleared ∧
      cleared.amountBase = none ∧ cleared.userId = user ∧ cleared.client = row.client := by
  have hpushed := nullAmountBaseForUser_pushed s.db user now id
  rw [hrow, Option.map_some] at hpushed
  obtain ⟨cleared, hcleared, hsame⟩ := Option.map_eq_some_iff.mp hpushed
  injection hsame with huser _ hclient
  have howner' := huser.trans howner
  exact ⟨cleared, hcleared, (Worker.cleared_of_handled hpaired hcleared howner').1, howner', hclient⟩

/-- The sweep of a user has no more rows to do than the user has live ones. -/
theorem Worker.sweepQueue_length_le (s : Worker) (user : UUID) (now : Instant) (tie : UUID → ℕ) :
    (sweepQueue s.db.users (nullAmountBaseForUser s.db user now).1.expenses (some user) tie).length ≤
      s.liveRows user := by
  rw [sweepQueue, List.length_insertionSort]
  refine Table.countRows_le (p := fun id row ↦ (sweepRow? s.db.users (some user) id row).isSome)
    fun id cleared hcleared hselected ↦ ?_
  obtain ⟨selected, hselected⟩ := Option.isSome_iff_exists.mp hselected
  obtain ⟨_, hlive, howner, _⟩ := sweepRow?_eq_some hselected
  have hpushed := nullAmountBaseForUser_pushed s.db user now id
  rw [hcleared, Option.map_some] at hpushed
  obtain ⟨row, hrow, hsame⟩ := Option.map_eq_some_iff.mp hpushed.symm
  injection hsame with huser _ hclient
  refine ⟨row, hrow, decide_eq_true ⟨?_, hclient ▸ hlive⟩⟩
  rw [Option.all_some, decide_eq_true_eq] at howner
  exact huser.trans howner.symm

theorem Worker.rebased_of_sweep {tie : UUID → ℕ} {later : Instant} {result : RecomputeResult}
    {cleared filled : Worker}
    (hpaired : ∀ id row, s.db.expenses.lookup id = some row → row.Paired)
    (hbatch : s.liveRows user ≤ settings.fxRecomputeBatch)
    (hcleared : cleared.db = (nullAmountBaseForUser s.db user now).1)
    (hsweep : recomputeAmountBase settings cleared.db s.rates (some user) none tie later =
      some (filled.db, result)) :
    s.Rebased user cleared filled := by
  have hspec := recomputeAmountBase_spec hsweep
  have husers : cleared.db.users = s.db.users := by
    rw [hcleared]
    rfl
  constructor
  · intro id row account hrow howner hlive haccount
    obtain ⟨middle, hmiddle, hamount, howner', hclient⟩ := Worker.exists_cleared hpaired hrow howner now
    rw [← hcleared] at hmiddle
    have hselected : (sweepRow? cleared.db.users (some user) id middle).isSome = true := by
      rw [sweepRow?, if_pos ⟨hamount, hclient ▸ hlive, by simp [howner']⟩, howner', husers, haccount]
      rfl
    have hqueue : (id, middle) ∈ (sweepQueue cleared.db.users cleared.db.expenses (some user) tie).take
        (sweepLimit settings none).toNat := by
      rw [List.take_of_length_le]
      · exact mem_sweepQueue.mpr ⟨hmiddle, hselected⟩
      · have hlength := s.sweepQueue_length_le user now tie
        rw [husers, hcleared, sweepLimit]
        omega
    obtain ⟨selected, hmem, rfl, _, _, _, hconvert⟩ :=
      selected_of_mem_queue hqueue (by rw [husers, howner', haccount])
    obtain ⟨_, new, _, _, hnew, hfill⟩ := hspec.lookup_selected hmem
    have hpushed := recomputeAmountBase_pushed hsweep selected.id
    rw [hnew, hmiddle, Option.map_some, Option.map_some] at hpushed
    injection Option.some.inj hpushed with _ _ hclient'
    refine ⟨new, hnew, hclient'.trans hclient, ?_⟩
    rw [← hclient, ← hconvert s.rates]
    exact SweepRow.converted_of_fill hfill
  · intro id row hrow hother
    have hkept := lookup_nullAmountBaseForUser s.db user now hrow
    rw [if_neg (by simp [armed, hother]), ← hcleared] at hkept
    refine ⟨hkept, ?_⟩
    rcases hspec.lookup_cases id with hsame | ⟨old, selected, _, _, _, ⟨hold, hselected⟩, _⟩
    · exact hsame.trans hkept
    · cases hkept.symm.trans hold
      obtain ⟨_, _, howner, _⟩ := sweepRow?_eq_some hselected
      rw [Option.all_some, decide_eq_true_eq] at howner
      exact absurd howner.symm hother

/-- The tables after the message of `handle_base_currency_changed` is run. -/
theorem Worker.db_of_handled {env : TaskEnv} {cleared filled : Worker} (huuid : rt.uuid user.str = some user)
    (hcleared : s.step rt settings (.handleBaseCurrencyChanged user now) = some cleared)
    (hfilled : cleared.step rt settings (.run s.queue.length env) = some filled) :
    cleared.db = (nullAmountBaseForUser s.db user now).1 ∧ filled.db =
      (recomputeAmountBase settings cleared.db s.rates (some user) none env.tie env.now).elim
        cleared.db (·.1) := by
  cases hcleared
  have hmessage : (s.handleBaseCurrencyChanged user now).1.queue[s.queue.length]? =
      some (.recomputeAmountBase (some user.str) none) := List.getElem?_concat_length
  obtain ⟨task, htask, rfl⟩ := Option.map_eq_some_iff.mp hfilled
  cases hmessage.symm.trans htask
  have huser : taskUser rt (some user.str) = some (some user) := by
    rw [taskUser, if_neg fun hempty ↦ user.str_ne_empty (Text.unicode.inj hempty), huuid]
    rfl
  simp only [Worker.perform, Worker.recompute, huser]
  exact ⟨rfl, rfl⟩

theorem Worker.rebased {env : TaskEnv} {cleared filled : Worker}
    (hpaired : ∀ id row, s.db.expenses.lookup id = some row → row.Paired)
    (huuid : rt.uuid user.str = some user)
    (hbatch : s.liveRows user ≤ settings.fxRecomputeBatch)
    (hcleared : s.step rt settings (.handleBaseCurrencyChanged user now) = some cleared)
    (hfilled : cleared.step rt settings (.run s.queue.length env) = some filled) :
    filled.db = cleared.db ∨ s.Rebased user cleared filled := by
  obtain ⟨hnulled, hdb⟩ := Worker.db_of_handled huuid hcleared hfilled
  cases hsweep : recomputeAmountBase settings cleared.db s.rates (some user) none env.tie env.now with
  | none =>
    rw [hsweep] at hdb
    exact .inl hdb
  | some out =>
    rw [hsweep] at hdb
    obtain ⟨after, result⟩ := out
    obtain rfl : filled.db = after := hdb
    exact .inr (Worker.rebased_of_sweep hpaired hbatch hnulled hsweep)

/-! ## Runs -/

theorem Worker.unhandled_snoc : Worker.unhandled user (trace ++ [(s, action)]) =
    action.pending user (Worker.unhandled user trace) := by
  rw [Worker.unhandled, List.foldl_append]
  rfl

/-- By induction on the run: every amount is a conversion, and in the base currency unless a change is pending. -/
theorem Worker.run_amounts {rates : FxTable}
    (hrun : Run (Worker.step rt settings) (fun _ _ ↦ True) (.ofTables db rates) trace s)
    (hcurrent : ∀ id row, db.expenses.lookup id = some row → BaseCurrent [rates] row)
    (hbase : ∀ user, (Worker.ofTables db rates).InBase user) :
    (∀ id row, s.db.expenses.lookup id = some row → BaseCurrent (Worker.ratesSeen trace s) row) ∧
      ∀ user, Worker.unhandled user trace = false → s.InBase user := by
  refine hrun.trace_invariant (fun trace s ↦
    (∀ id row, s.db.expenses.lookup id = some row → BaseCurrent (Worker.ratesSeen trace s) row) ∧
      ∀ user, Worker.unhandled user trace = false → s.InBase user) ⟨hcurrent, fun user _ ↦ hbase user⟩
    fun trace s action s' h _ hstep ↦ ⟨fun id row hrow ↦ ?_, fun user hhandled ↦ ?_⟩
  · have hseen : Worker.ratesSeen trace s ⊆ Worker.ratesSeen (trace ++ [(s, action)]) s' := by
      rw [Worker.ratesSeen, Worker.ratesSeen, List.map_append]
      exact List.subset_append_left _ _
    have hnow : s.rates ∈ Worker.ratesSeen trace s := List.mem_append_right _ (List.mem_singleton_self _)
    exact ((Worker.step_row hstep hrow).baseCurrent hnow h.1).mono hseen
  · rw [Worker.unhandled_snoc] at hhandled
    by_cases hset : ∃ currency, action = .setBaseCurrency user currency
    · obtain ⟨currency, rfl⟩ := hset
      simp [WorkerAction.pending] at hhandled
    · by_cases hhandle : ∃ now, action = .handleBaseCurrencyChanged user now
      · obtain ⟨now, rfl⟩ := hhandle
        cases hstep
        exact Worker.InBase.of_handled fun id row hrow ↦ (h.1 id row hrow).null
      · have hbefore : Worker.unhandled user trace = false := by
          cases action with
          | setBaseCurrency changed currency =>
            simp only [WorkerAction.pending, Bool.or_eq_false_iff] at hhandled
            exact hhandled.1
          | handleBaseCurrencyChanged handled now =>
            have hne : handled ≠ user := fun heq ↦ hhandle ⟨now, by rw [heq]⟩
            simpa [WorkerAction.pending, hne] using hhandled
          | _ => exact hhandled
        exact (h.2 user hbefore).step hstep fun currency heq ↦ hset ⟨currency, heq⟩

theorem amounts_follow (rt : Runtime) (settings : Settings) (db : Db) (rates : FxTable)
    (trace : List (Worker × WorkerAction)) (s : Worker)
    (hrun : Run (Worker.step rt settings) (fun _ _ ↦ True) (.ofTables db rates) trace s)
    (hcurrent : ∀ id row, db.expenses.lookup id = some row → BaseCurrent [rates] row)
    (hbase : ∀ user, (Worker.ofTables db rates).InBase user) : AmountsFollow rt settings trace s := by
  obtain ⟨hamounts, hin⟩ := Worker.run_amounts hrun hcurrent hbase
  refine ⟨hamounts, hin, fun user now env cleared filled huuid hbatch hcleared hfilled ↦ ?_⟩
  exact Worker.rebased (fun id row hrow ↦ (hamounts id row hrow).null) huuid hbatch hcleared hfilled

end

/-- A user's dinars are converted to dollars, until the user changes to dinars. -/
theorem amounts_follow_sample : ∃ trace s cleared filled, AmountsFollow .ascii sampleSettings trace s ∧
    s.Rebased ⟨1⟩ cleared filled ∧
      [s, cleared, filled].map (fun state : Worker ↦
        (state.db.expenses.lookup ⟨10⟩).bind Expense.amountBase) =
        [some ⟨400000, by decide⟩, none, some ⟨120000, by decide⟩] := by
  let start := Worker.ofTables (dinarDb ⟨120000, by decide⟩) dinarRates
  let env := sampleTaskEnv false
  let step := Worker.step .ascii sampleSettings
  let amount (state : Worker) : Option Money := (state.db.expenses.lookup ⟨10⟩).bind Expense.amountBase
  have hexec : ((exec step start [.handleBaseCurrencyChanged ⟨1⟩ 0, .run 0 env,
    .setBaseCurrency ⟨1⟩ "KWD"]).bind
      fun s ↦ (step s (.handleBaseCurrencyChanged ⟨1⟩ 1)).bind fun cleared ↦
        (step cleared (.run s.queue.length env)).map fun filled ↦
          (s.liveRows ⟨1⟩, [s, cleared, filled].map amount)) =
      some (2, [some ⟨400000, by decide⟩, none, some ⟨120000, by decide⟩]) := by decide +kernel
  obtain ⟨s, hs, hexec⟩ := Option.bind_eq_some_iff.mp hexec
  obtain ⟨cleared, hcleared, hexec⟩ := Option.bind_eq_some_iff.mp hexec
  obtain ⟨filled, hfilled, hfacts⟩ := Option.map_eq_some_iff.mp hexec
  obtain ⟨hlive, hamounts⟩ := Prod.mk.inj hfacts
  have hempty (id : UUID) (row : Expense) (hrow : start.db.expenses.lookup id = some row) :
      row.amountBase = none ∧ row.currencyBase = none := by
    rcases dinarDb_rows hrow with ⟨_, rfl⟩ | ⟨_, rfl⟩ <;> exact ⟨rfl, rfl⟩
  have hfollow := amounts_follow .ascii sampleSettings (dinarDb ⟨120000, by decide⟩) dinarRates _ s
    (run_of_exec hs)
    (fun id row hrow ↦ baseCurrent_of_null (hempty id row hrow).1 (hempty id row hrow).2)
    fun user id row hrow _ currency hcurrency ↦ by
      rw [(hempty id row hrow).2] at hcurrency
      cases hcurrency
  refine ⟨_, s, cleared, filled, hfollow, ?_, hamounts⟩
  have hbatch : s.liveRows ⟨1⟩ ≤ sampleSettings.fxRecomputeBatch := by
    rw [hlive]
    decide
  rcases hfollow.rebased ⟨1⟩ 1 env cleared filled (Runtime.hexUuid_str ⟨1⟩) hbatch hcleared hfilled with
    hsame | hdone
  · simp only [List.map_cons, List.map_nil, List.cons.injEq, amount, hsame] at hamounts
    obtain ⟨_, hnone, hsome, _⟩ := hamounts
    cases hnone.symm.trans hsome
  · exact hdone

end VoiceSpend
