import VoiceSpend.Concurrency.CommitOrder
import VoiceSpend.Library.Register

/-!
# Concurrent pushes converge

Whatever pushes, sweeps, invalidations and aborts interleave, the client's columns of every expense
are the greatest revision among the first row and the committed upserts of its id. No update that
a push has answered as applied is lost to an older one, and two runs that commit the same revisions, in
any order, in any batches and any number of times, store the same. A committed row stays, with its owner, and
changes its content only with its revision.
-/

namespace VoiceSpend

open Machine Register

/-- The versions of one expense that the committed pushes of a run upsert, in the order of their commits. -/
def committedVersions (trace : List (SyncSystem × SyncAction)) (id : UUID) : List ClientColumns :=
  ((serialUpserts trace).filter (·.insertion.id = id)).map (·.insertion.client)

section

variable {store : UUID → Option PushedColumns} {id : UUID}

/-- An upsert of the id puts its version into the register of the client's columns. -/
theorem upserts_apply_self (upsert : Upsert) (hid : upsert.insertion.id = id) :
    (upserts.apply store upsert id).map PushedColumns.client =
      put ClientColumns.clientRev ((store id).map PushedColumns.client) upsert.insertion.client := by
  subst hid
  change (Function.update store upsert.insertion.id _ upsert.insertion.id).map _ = _
  rw [Function.update_self]
  change (upserts.effect upsert (store upsert.insertion.id)).map _ = _
  cases store upsert.insertion.id with
  | none => rfl
  | some row =>
    by_cases hnewer : row.client.clientRev < upsert.insertion.client.clientRev
    · simp [upserts, put, accepts, hnewer]
    · simp [upserts, put, accepts, hnewer]

theorem upserts_run_holds (store : UUID → Option PushedColumns) (id : UUID) (ops : List Upsert) :
    Holds ClientColumns.clientRev ((upserts.run store ops id).map PushedColumns.client)
      (((store id).map PushedColumns.client).toList ++
        (ops.filter (·.insertion.id = id)).map (·.insertion.client)) := by
  induction ops using List.reverseRecOn with
  | nil =>
    rw [List.filter_nil, List.map_nil, List.append_nil]
    exact holds_toList _ _
  | append_singleton front upsert ih =>
    rw [Operations.run_concat, List.filter_append]
    by_cases hid : upsert.insertion.id = id
    · rw [upserts_apply_self upsert hid, List.filter_singleton, decide_eq_true hid, cond_true,
        List.map_append, ← List.append_assoc]
      exact holds_concat ih _
    · rw [Operations.apply_of_ne fun heq ↦ hid heq.symm, List.filter_singleton, decide_eq_false hid,
        cond_false, List.append_nil]
      exact ih

end

/-- In every run the client's columns of an expense have the greatest revision among the row the run
started with and the versions the committed pushes upserted. Two runs that started with the same row and
committed the same versions, where a revision is one version, store the same columns. -/
theorem pushes_converge {rt rt' : Runtime} {settings settings' : Settings} {s s' : SyncSystem}
    {trace trace' : List (SyncSystem × SyncAction)} {users users' : Table UUID User}
    {devices devices' : Table UUID Device} {fxRates fxRates' : FxTable}
    {expenses expenses' : Table UUID Expense}
    {usage usage' : UsageTable} {syncSeq syncSeq' : ℕ} {reader reader' : UUID} (id : UUID)
    (hrun : Run (SyncSystem.step rt settings) (fun _ _ ↦ True)
      (.ofTables users devices fxRates expenses usage syncSeq reader) trace s)
    (hrun' : Run (SyncSystem.step rt' settings') (fun _ _ ↦ True)
      (.ofTables users' devices' fxRates' expenses' usage' syncSeq' reader') trace' s') :
    let seen := ((expenses.lookup id).map Expense.client).toList ++ committedVersions trace id
    let seen' := ((expenses'.lookup id).map Expense.client).toList ++ committedVersions trace' id
    Holds ClientColumns.clientRev ((s.expenses.committed.lookup id).map Expense.client) seen ∧
      ((∀ version, version ∈ seen ↔ version ∈ seen') →
        (∀ version ∈ seen, ∀ other ∈ seen, version.clientRev = other.clientRev → version = other) →
        (s.expenses.committed.lookup id).map Expense.client =
          (s'.expenses.committed.lookup id).map Expense.client) := by
  have hclient (table : Table UUID Expense) :
      (coreOf Expense.pushed table id).map PushedColumns.client = (table.lookup id).map Expense.client :=
    Option.map_map ..
  have hholds := upserts_run_holds (coreOf Expense.pushed expenses) id (serialUpserts trace)
  have hholds' := upserts_run_holds (coreOf Expense.pushed expenses') id (serialUpserts trace')
  rw [← (serialized_of_run hrun).store, hclient, hclient] at hholds
  rw [← (serialized_of_run hrun').store, hclient, hclient] at hholds'
  exact ⟨hholds, hholds.unique hholds'⟩

/-- The newer version first, and last. -/
theorem pushes_converge_overlapping : ∃ s s' : SyncSystem,
    (s.expenses.committed.lookup ⟨3⟩).map (·.client.clientRev) = some 2 ∧
      (s.expenses.committed.lookup ⟨3⟩).map Expense.client =
        (s'.expenses.committed.lookup ⟨3⟩).map Expense.client := by
  let step := SyncSystem.step .ascii sampleSettings
  let first := overlappingPushes (sampleExpense 12 1) (sampleExpense 13 2)
  let last := overlappingPushes (sampleExpense 13 2) (sampleExpense 12 1)
  have hexec : (exec step .sample first).map (fun s ↦
      (s.expenses.committed.lookup ⟨3⟩).map (·.client.clientRev)) = some (some 2) := by decide +kernel
  have hexec' : (exec step .sample last).isSome := by decide +kernel
  have hversions : (committedVersions (traceOf step .sample first) ⟨3⟩).reverse =
      committedVersions (traceOf step .sample last) ⟨3⟩ := by decide +kernel
  have hrevisions : ∀ version ∈ committedVersions (traceOf step .sample first) ⟨3⟩,
      ∀ other ∈ committedVersions (traceOf step .sample first) ⟨3⟩,
        version.clientRev = other.clientRev → version = other := by decide +kernel
  obtain ⟨s, hs, hrevision⟩ := Option.map_eq_some_iff.mp hexec
  obtain ⟨s', hs'⟩ := Option.isSome_iff_exists.mp hexec'
  have hrun := run_of_exec hs
  have hrun' := run_of_exec hs'
  generalize traceOf step .sample first = trace at hrun hversions hrevisions
  generalize traceOf step .sample last = trace' at hrun' hversions
  have hsame (version : ClientColumns) :
      version ∈ committedVersions trace ⟨3⟩ ↔ version ∈ committedVersions trace' ⟨3⟩ := by
    rw [← hversions]
    exact List.mem_reverse.symm
  exact ⟨s, s', hrevision, (pushes_converge ⟨3⟩ hrun hrun').2 hsame hrevisions⟩

/-! ## What becomes of a row -/

/-- A later version of the same row. -/
structure Expense.Continues (row later : Expense) : Prop where
  userId : later.userId = row.userId
  deviceId : later.deviceId = row.deviceId
  parseStatus : later.parseStatus = row.parseStatus
  createdAt : later.createdAt = row.createdAt
  revision : row.client.clientRev ≤ later.client.clientRev
  content : later.client.clientRev = row.client.clientRev → later.client = row.client

/-- `amount_base` and `currency_base` are both NULL or neither is. -/
def Expense.Paired (row : Expense) : Prop := row.amountBase = none ↔ row.currencyBase = none

section

variable {rt : Runtime} {settings : Settings} {s s' : SyncSystem} {action : SyncAction}
  {trace : List (SyncSystem × SyncAction)} {expenses : Table UUID Expense}
  {store : UUID → Option PushedColumns} {id : UUID} {row : PushedColumns}

/-- An upsert replaces the client's columns of a row or nothing. -/
theorem upserts_apply_row (upsert : Upsert) (hrow : store id = some row) :
    ∃ client, upserts.apply store upsert id = some { row with client } ∧
      row.client.clientRev ≤ client.clientRev ∧
        (client.clientRev = row.client.clientRev → client = row.client) := by
  by_cases hid : id = upsert.insertion.id
  · subst hid
    have heffect : upserts.apply store upsert upsert.insertion.id =
        upserts.effect upsert (store upsert.insertion.id) := Function.update_self ..
    rw [heffect, hrow]
    by_cases hnewer : row.client.clientRev < upsert.insertion.client.clientRev
    · exact ⟨upsert.insertion.client, if_pos hnewer, hnewer.le, fun heq ↦ absurd heq hnewer.ne'⟩
    · exact ⟨row.client, if_neg hnewer, le_rfl, fun _ ↦ rfl⟩
  · rw [Operations.apply_of_ne hid, hrow]
    exact ⟨row.client, rfl, le_rfl, fun _ ↦ rfl⟩

theorem upserts_run_row (ops : List Upsert) (hrow : store id = some row) :
    ∃ client, upserts.run store ops id = some { row with client } ∧
      row.client.clientRev ≤ client.clientRev ∧
        (client.clientRev = row.client.clientRev → client = row.client) := by
  induction ops using List.reverseRecOn with
  | nil => exact ⟨row.client, hrow, le_rfl, fun _ ↦ rfl⟩
  | append_singleton front upsert ih =>
    obtain ⟨middle, hmiddle, hle, hcontent⟩ := ih
    obtain ⟨client, hclient, hle', hcontent'⟩ := upserts_apply_row upsert hmiddle
    rw [Operations.run_concat]
    refine ⟨client, hclient, hle.trans hle', fun heq ↦ ?_⟩
    have hsame : middle.clientRev = row.client.clientRev := le_antisymm (heq ▸ hle') hle
    rw [hcontent' (heq.trans hsame.symm), hcontent hsame]

/-- The rows of any earlier state, as upserts have left them since. -/
theorem run_upserts_since {users : Table UUID User} {devices : Table UUID Device} {fxRates : FxTable}
    {usage : UsageTable} {syncSeq : ℕ} {reader : UUID}
    (hrun : Run (SyncSystem.step rt settings) (fun _ _ ↦ True)
      (.ofTables users devices fxRates expenses usage syncSeq reader) trace s) :
    ∀ entry ∈ trace, ∃ ops, coreOf Expense.pushed s.expenses.committed =
      upserts.run (coreOf Expense.pushed entry.1.expenses.committed) ops := by
  induction hrun with
  | nil => exact nofun
  | @snoc trace s s' action hrun _ hstep ih =>
    have hnext := (serialized_of_run hrun).store_step (SyncSystem.step_outcome hstep)
    intro entry hmem
    rcases List.mem_append.mp hmem with hmem | hmem
    · obtain ⟨ops, hops⟩ := ih entry hmem
      rw [hops, ← Operations.run_append] at hnext
      exact ⟨_, hnext⟩
    · cases List.mem_singleton.mp hmem
      exact ⟨_, hnext⟩

theorem PushRun.Steps.paired {run : PushRun} {t : ℕ} {clock : Instant} {effect : Effect}
    (steps : run.Steps rt s t clock effect) (h : AllRows Expense.Paired s)
    (performs : Performs s t effect s') :
    AllRows Expense.Paired s' := by
  refine h.performs performs (fun id row next heq ↦ ?_) fun id row next heq ↦ ?_
  · cases steps <;> cases heq
    exact iff_of_true rfl rfl
  · cases steps with
    | updated insertion todo drawn returned stage old found newer =>
      cases heq
      have hold := h.visible found
      simp only [Expense.Paired, SyncSystem.stamped, Expense.onConflict]
      split
      · exact iff_of_true rfl rfl
      · exact hold
    | raised | devices | owners | drawn | inserted | stale | written | uncounted | counted | committed =>
      cases heq

theorem Outcome.paired (houtcome : Outcome rt settings s action s') (h : AllRows Expense.Paired s) :
    AllRows Expense.Paired s' := by
  cases houtcome with
  | started | ratesUpserted | pulled => exact ⟨h.committed, h.drafts⟩
  | aborted t running => exact h.release rfl h.committed
  | pushed t clock run running effect steps s' performs => exact steps.paired h performs
  | swept t clock run running effect steps s' performs =>
    refine h.performs performs (fun id row next heq ↦ ?_) fun id row next heq ↦ ?_
    · cases steps <;> cases heq
    · cases steps <;> cases heq
      exact iff_of_false nofun nofun
  | nullified t clock run running effect steps s' performs =>
    refine h.performs performs (fun id row next heq ↦ ?_) fun id row next heq ↦ ?_
    · cases steps <;> cases heq
    · cases steps <;> cases heq
      exact iff_of_true rfl rfl

/-- In every run no committed row is lost: in every later state it is there with its owner, its device and its
creation, in the same revision and content or in a later one. And where the first rows have both base columns
or neither, all rows have. -/
theorem rows_kept {users : Table UUID User} {devices : Table UUID Device} {fxRates : FxTable}
    {usage : UsageTable} {syncSeq : ℕ} {reader : UUID}
    (hrun : Run (SyncSystem.step rt settings) (fun _ _ ↦ True)
      (.ofTables users devices fxRates expenses usage syncSeq reader) trace s) :
    ((∀ id row, expenses.lookup id = some row → row.Paired) →
      ∀ id row, s.expenses.committed.lookup id = some row → row.Paired) ∧
      ∀ entry ∈ trace, ∀ id row, entry.1.expenses.committed.lookup id = some row →
        ∃ later, s.expenses.committed.lookup id = some later ∧ row.Continues later := by
  constructor
  · intro hpaired
    have hstart : AllRows Expense.Paired (.ofTables users devices fxRates expenses usage syncSeq reader) :=
      ⟨hpaired, fun t id row hrow ↦ by cases hrow⟩
    exact (hrun.invariant (AllRows Expense.Paired) hstart fun s action s' h _ hstep ↦
      (SyncSystem.step_outcome hstep).paired h).committed
  · intro entry hmem id row hrow
    obtain ⟨ops, hops⟩ := run_upserts_since hrun entry hmem
    have hpushed : coreOf Expense.pushed entry.1.expenses.committed id = some row.pushed :=
      congrArg (Option.map Expense.pushed) hrow
    obtain ⟨client, hclient, hle, hcontent⟩ := upserts_run_row ops hpushed
    rw [← hops] at hclient
    obtain ⟨later, hlater, heq⟩ := Option.map_eq_some_iff.mp hclient
    injection heq with huser hdevice hcolumns hstatus hcreated
    subst hcolumns
    exact ⟨later, hlater, huser, hdevice, hstatus, hcreated, hle, hcontent⟩

/-- The second of two overlapping pushes edits the row that the first one inserts. -/
theorem rows_kept_overlapping : ∃ trace, ∃ s : SyncSystem, commitOrder trace = [0, 1] ∧
    (s.expenses.committed.lookup ⟨3⟩).map (·.client.clientRev) = some 2 ∧
    ∀ entry ∈ trace, ∀ id row, entry.1.expenses.committed.lookup id = some row →
      ∃ later, s.expenses.committed.lookup id = some later ∧ row.Continues later := by
  let step := SyncSystem.step .ascii sampleSettings
  let actions := overlappingPushes (sampleExpense 12 1) (sampleExpense 13 2)
  have hexec : (exec step .sample actions).map (fun s ↦
      (s.expenses.committed.lookup ⟨3⟩).map (·.client.clientRev)) = some (some 2) := by decide +kernel
  have horder : commitOrder (traceOf step .sample actions) = [0, 1] := by decide +kernel
  obtain ⟨s, hs, hrevision⟩ := Option.map_eq_some_iff.mp hexec
  exact ⟨_, s, horder, hrevision, (rows_kept (run_of_exec hs)).2⟩

end

end VoiceSpend
