import VoiceSpend.Concurrency.Counting
import VoiceSpend.Concurrency.Cursor

/-!
# The invariant of `server_seq`

The migration numbers the rows that are there, and from then on a trigger numbers every row that is
written. A row's write begins with its trigger: an inserted row carries the value its `BEFORE INSERT`
trigger drew, with no step of its transaction in between, and an updated row the value drawn under its
lock. So whatever else was drawn in between, and by whom, no value is in two rows and no row goes back.
-/

namespace VoiceSpend

open Machine

/-! ## The migration -/

/-- One row of the migration's `UPDATE`. What stood in the new column is not read. -/
def numberRow (numbered : Table UUID Expense × ℕ) (row : UUID × Expense) : Table UUID Expense × ℕ :=
  (numbered.1.insert row.1 { row.2 with serverSeq := numbered.2 + 1 }, numbered.2 + 1)

/-- `upgrade`: the rows in the order of the scan, and the last value of the new sequence. -/
def upgrade (expenses : Table UUID Expense) : Table UUID Expense × ℕ :=
  (Table.rows expenses).foldl numberRow (∅, 0)

/-- The migrated tables, before any transaction. -/
def SyncSystem.migrated (users : Table UUID User) (devices : Table UUID Device) (fxRates : FxTable)
    (expenses : Table UUID Expense) (usage : UsageTable) (reader : UUID) : SyncSystem :=
  .ofTables users devices fxRates (upgrade expenses).1 usage (upgrade expenses).2 reader

/-! ## What is claimed of states and steps -/

/-- No two rows have the same value, and all values were handed out. -/
structure SeqInvariant (s : SyncSystem) : Prop where
  distinct : DistinctSeqs s.expenses.committed
  bounded : ∀ id row, s.expenses.committed.lookup id = some row → row.serverSeq ≤ s.syncSeq

/-- `began` is the state in which the transaction took its last step so far. -/
def LastStep (trace : List (SyncSystem × SyncAction)) (t : ℕ) (began : SyncSystem) : Prop :=
  ∃ front clock rest, trace = front ++ (began, SyncAction.advance t clock) :: rest ∧
    ∀ entry ∈ rest, entry.2.actor ≠ some t

/-- What a step does to the values of rows. -/
structure SeqStep (trace : List (SyncSystem × SyncAction)) (before : SyncSystem) (action : SyncAction)
    (after : SyncSystem) : Prop where
  /-- A written row gets the next value from where its write began: this statement, or its trigger. -/
  fresh : ∀ t id row, (after.expenses.drafts t).lookup id = some row →
    (before.expenses.drafts t).lookup id ≠ some row →
      ∃ began, (began = before ∨ LastStep trace t began) ∧ row.serverSeq = began.syncSeq + 1
  increases : ∀ id row, before.expenses.committed.lookup id = some row →
    ∃ row', after.expenses.committed.lookup id = some row' ∧ (row' = row ∨ row.serverSeq < row'.serverSeq)
  /-- A row without a version of the transaction is left alone. -/
  unwritten : ∀ id, (∀ t, action.actor = some t → id ∉ before.expenses.drafts t) →
    after.expenses.committed.lookup id = before.expenses.committed.lookup id
  aborted : ∀ t, action.actor = some t → after.procs t = .failed →
    after.expenses.committed = before.expenses.committed
  stale : ∀ t clock run insertion todo drawn returned row, action = .advance t clock →
    before.procs t = .push run → run.stage = .writing (insertion :: todo) (some drawn) returned →
      before.expenses.visible t insertion.id = some row →
        ¬ row.client.clientRev < insertion.client.clientRev →
          after.expenses.drafts = before.expenses.drafts ∧
            after.expenses.committed = before.expenses.committed
  /-- What a push's upsert does not return, because it was rejected or stale, its commit leaves alone. -/
  unreturned : ∀ t run returned counted, action.actor = some t → before.procs t = .push run →
    run.stage = .committing returned counted → ∀ id, (∀ row ∈ returned, row.id ≠ id) →
      after.expenses.committed.lookup id = before.expenses.committed.lookup id

/-! ## The migrated table -/

theorem placed_numberRow {numbered : Table UUID Expense × ℕ}
    (h : Sequence.Placed (fun id ↦ (numbered.1.lookup id).map (·.serverSeq)) numbered.2)
    (row : UUID × Expense) :
    Sequence.Placed (fun id ↦ ((numberRow numbered row).1.lookup id).map (·.serverSeq))
      (numberRow numbered row).2 := by
  refine h.fresh row.1 ?_ fun id stamp hne hstamp ↦ ?_
  · rw [numberRow, AList.lookup_insert, Option.map_some]
  · rw [numberRow, Table.lookup_insert_eq, if_neg hne] at hstamp
    exact hstamp

/-- The migration numbers its rows apart, up to the last value of the sequence. -/
theorem placed_upgrade (expenses : Table UUID Expense) :
    Sequence.Placed (fun id ↦ ((upgrade expenses).1.lookup id).map (·.serverSeq)) (upgrade expenses).2 := by
  have hfold (rows : List (UUID × Expense)) (numbered : Table UUID Expense × ℕ)
      (h : Sequence.Placed (fun id ↦ (numbered.1.lookup id).map (·.serverSeq)) numbered.2) :
      Sequence.Placed (fun id ↦ ((rows.foldl numberRow numbered).1.lookup id).map (·.serverSeq))
        (rows.foldl numberRow numbered).2 := by
    induction rows generalizing numbered with
    | nil => exact h
    | cons row rest ih => exact ih _ (placed_numberRow h row)
  exact hfold _ (∅, 0) (.empty (fun _ ↦ rfl) 0)

section

variable {rt : Runtime} {settings : Settings} {s s' : SyncSystem} {t u : ℕ} {clock : Instant}
  {effect : Effect} {action : SyncAction} {trace : List (SyncSystem × SyncAction)}

theorem stamps_migrated (users : Table UUID User) (devices : Table UUID Device) (fxRates : FxTable)
    (expenses : Table UUID Expense) (usage : UsageTable) (reader : UUID) :
    Stamps (.migrated users devices fxRates expenses usage reader) := by
  have h := placed_upgrade expenses
  constructor
  · intro place stamp hstamp
    cases place with
    | committed id => exact h.bounded id stamp hstamp
    | draft | drawn => cases hstamp
  · intro first second stamp hfirst hsecond
    cases first with
    | draft | drawn => cases hfirst
    | committed id =>
      cases second with
      | draft | drawn => cases hsecond
      | committed id' => exact congrArg Place.committed (h.distinct id id' stamp hfirst hsecond)

theorem Stamps.seqInvariant (h : Stamps s) : SeqInvariant s :=
  ⟨h.distinctSeqs, fun id row hrow ↦ h.bounded (.committed id) row.serverSeq (by rw [stampAt, hrow]; rfl)⟩

/-! ## Written values -/

/-- An action is a statement of its transaction, whose insertions are of new rows with the value drawn
for them, or it leaves rows and processes alone. -/
theorem Outcome.statement_cases (h : Outcome rt settings s action s') :
    (∃ t effect, action.actor = some t ∧ Performs s t effect s' ∧ ∀ id row next,
        effect = .insert id row next →
          s.expenses.visible t id = none ∧ (s.procs t).drawn = some row.serverSeq) ∨
      (s'.expenses = s.expenses ∧ s'.procs = s.procs) := by
  cases h with
  | started t request idle =>
    exact .inl ⟨t, .read (request.proc rt), rfl, .read _, fun _ _ _ heq ↦ by cases heq⟩
  | pushed t clock run running effect steps s' performs =>
    refine .inl ⟨t, effect, rfl, performs, fun id row next heq ↦ ?_⟩
    cases steps with
    | inserted insertion todo drawn returned stage fresh =>
      cases heq
      refine ⟨fresh, ?_⟩
      rw [running, Proc.drawn, stage]
      rfl
    | raised | devices | owners | drawn | updated | stale | written | uncounted | counted | committed =>
      cases heq
  | swept t clock run running effect steps s' performs =>
    refine .inl ⟨t, effect, rfl, performs, fun id row next heq ↦ ?_⟩
    cases steps <;> cases heq
  | nullified t clock run running effect steps s' performs =>
    refine .inl ⟨t, effect, rfl, performs, fun id row next heq ↦ ?_⟩
    cases steps <;> cases heq
  | aborted t running =>
    exact .inl ⟨t, .rollback, rfl, .rollback, fun _ _ _ heq ↦ by cases heq⟩
  | ratesUpserted | pulled => exact .inr ⟨rfl, rfl⟩

theorem visible_serverSeq_le (h : Stamps s) {id : UUID} {row : Expense}
    (hrow : s.expenses.visible t id = some row) : row.serverSeq ≤ s.syncSeq := by
  cases hdraft : (s.expenses.drafts t).lookup id with
  | some draft =>
    rw [Versioned.visible_of_draft hdraft] at hrow
    cases hrow
    exact h.bounded (.draft t id) _ (by rw [stampAt, hdraft]; rfl)
  | none =>
    rw [Versioned.visible_of_lookup_drafts hdraft] at hrow
    exact h.bounded (.committed id) _ (by rw [stampAt, hrow]; rfl)

/-- Every open version has a larger value than the committed row it replaces. -/
abbrev SeqAhead (s : SyncSystem) : Prop := Overlaid (fun row draft ↦ row.serverSeq < draft.serverSeq) s

theorem Outcome.seqAhead (h : Outcome rt settings s action s') (hstamps : Stamps s) (hahead : SeqAhead s) :
    SeqAhead s' := by
  rcases h.statement_cases with ⟨t, effect, _, performs, hinsert⟩ | ⟨hexpenses, _⟩
  · refine hahead.performs (fun _ _ _ ↦ lt_trans) performs fun id row hwritten old hold ↦ ?_
    rcases SyncSystem.written_cases hwritten with ⟨next, heffect⟩ | ⟨new, next, _, rfl⟩
    · rw [(hinsert id row next heffect).1] at hold
      cases hold
    · exact Nat.lt_succ_of_le (visible_serverSeq_le hstamps hold)
  · unfold SeqAhead Overlaid
    rw [hexpenses]
    exact hahead

/-! ## Where a write began -/

/-- A value that waits for its row was drawn in the transaction's last step. -/
def DrawnAt (trace : List (SyncSystem × SyncAction)) (s : SyncSystem) (t : ℕ) : Prop :=
  ∀ drawn, (s.procs t).drawn = some drawn → ∃ began, LastStep trace t began ∧ drawn = began.syncSeq + 1

theorem LastStep.snoc {began : SyncSystem} (h : LastStep trace t began) (hactor : action.actor ≠ some t) :
    LastStep (trace ++ [(s, action)]) t began := by
  obtain ⟨front, clock, rest, rfl, hrest⟩ := h
  refine ⟨front, clock, rest ++ [(s, action)], by simp, fun entry hmem ↦ ?_⟩
  rcases List.mem_append.mp hmem with hold | hnew
  · exact hrest entry hold
  · rw [List.mem_singleton.mp hnew]
    exact hactor

theorem lastStep_self (trace : List (SyncSystem × SyncAction)) (s : SyncSystem) (t : ℕ) (clock : Instant) :
    LastStep (trace ++ [(s, .advance t clock)]) t s :=
  ⟨trace, clock, [], rfl, fun _ hmem ↦ absurd hmem List.not_mem_nil⟩

theorem Outcome.drawnAt (h : Outcome rt settings s action s') (hdrawn : DrawnAt trace s t) :
    DrawnAt (trace ++ [(s, action)]) s' t := by
  intro drawn hnow
  by_cases hactor : action.actor = some t
  · cases h with
    | pushed _ clock run running effect steps s' performs =>
      cases hactor
      rw [performs.proc] at hnow
      cases steps with
      | drawn insertion todo returned stage =>
        cases hnow
        exact ⟨s, lastStep_self trace s t clock, rfl⟩
      | raised | devices | owners | inserted | updated | stale | written | uncounted | counted
      | committed => cases hnow
    | swept _ clock run running effect steps s' performs =>
      cases hactor
      rw [performs.proc] at hnow
      cases steps <;> cases hnow
    | nullified _ clock run running effect steps s' performs =>
      cases hactor
      rw [performs.proc] at hnow
      cases steps <;> cases hnow
    | started _ request idle =>
      cases hactor
      rw [SyncSystem.setProc_procs] at hnow
      cases request <;> cases hnow
    | aborted _ running =>
      cases hactor
      rw [SyncSystem.rollback_procs] at hnow
      cases hnow
    | ratesUpserted | pulled => cases hactor
  · rw [(h.untouched hactor).proc] at hnow
    obtain ⟨began, hbegan, hvalue⟩ := hdrawn drawn hnow
    exact ⟨began, hbegan.snoc hactor, hvalue⟩

/-! ## What a push has written -/

/-- A transaction that is not running has no versions, and a push has returned every id it has a
version of. -/
structure Accounted (s : SyncSystem) (t : ℕ) : Prop where
  idle : (s.procs t).running = false → s.expenses.drafts t = ∅
  returned : ∀ run, s.procs t = .push run → ∀ id ∈ s.expenses.drafts t,
    ∃ row ∈ run.stage.returned, row.id = id

theorem Accounted.ended (hexpenses : s.expenses.drafts t = ∅) : Accounted s t := by
  refine ⟨fun _ ↦ hexpenses, fun run _ id hmem ↦ ?_⟩
  rw [hexpenses] at hmem
  exact absurd hmem (AList.notMem_empty id)

theorem Accounted.other {next : Proc} (hproc : s'.procs t = next) (hrunning : next.running = true)
    (hpush : ∀ run, next ≠ .push run) : Accounted s' t := by
  refine ⟨fun hidle ↦ ?_, fun run hrun ↦ absurd (hproc.symm.trans hrun) (hpush run)⟩
  rw [hproc, hrunning] at hidle
  cases hidle

/-- A statement that goes on with a push, whose version it writes has been returned. -/
theorem Performs.accounted {run run' : PushRun} (performs : Performs s t effect s')
    (h : Accounted s t) (hrun : s.procs t = .push run) (hnext : effect.next = .push run')
    (hmore : ∀ row ∈ run.stage.returned, row ∈ run'.stage.returned)
    (hwritten : ∀ id row, s.written effect = some (id, row) → ∃ row ∈ run'.stage.returned, row.id = id) :
    Accounted s' t := by
  constructor
  · intro hidle
    rw [performs.proc, hnext] at hidle
    cases hidle
  · intro other hother id hmem
    rw [performs.proc, hnext] at hother
    cases hother
    obtain ⟨row, hrow⟩ := Option.isSome_iff_exists.mp (AList.lookup_isSome.mpr hmem)
    rcases performs.draft_cases hrow with hold | ⟨_, hnew⟩
    · obtain ⟨returned, hreturned, hid⟩ := h.returned run hrun id (Versioned.mem_drafts_of_lookup hold)
      exact ⟨returned, hmore returned hreturned, hid⟩
    · exact hwritten id row hnew

theorem PushRun.Steps.accounted {run : PushRun} (steps : run.Steps rt s t clock effect)
    (hrun : s.procs t = .push run) (h : Accounted s t) (performs : Performs s t effect s') :
    Accounted s' t := by
  have hempty {table : Table UUID Expense}
      (hdrafts : s'.expenses.drafts = (s.expenses.release t table).drafts) : Accounted s' t :=
    .ended (by rw [hdrafts]; exact Function.update_self ..)
  cases steps with
  | raised => exact hempty (by cases performs; rfl)
  | committed => exact hempty (by cases performs; rfl)
  | inserted insertion todo drawn returned stage fresh =>
    refine performs.accounted h hrun rfl (fun row hrow ↦ ?_) fun id row hwritten ↦ ?_
    · rw [stage] at hrow
      exact List.mem_append_left _ hrow
    · cases hwritten
      exact ⟨_, List.mem_append_right _ (List.mem_singleton_self _), rfl⟩
  | updated insertion todo drawn returned stage row found newer =>
    refine performs.accounted h hrun rfl (fun row hrow ↦ ?_) fun id row hwritten ↦ ?_
    · rw [stage] at hrow
      exact List.mem_append_left _ hrow
    · cases hwritten
      exact ⟨_, List.mem_append_right _ (List.mem_singleton_self _), rfl⟩
  | devices stage | owners _ stage =>
    refine performs.accounted h hrun rfl (fun row hrow ↦ ?_) fun id row hwritten ↦ by cases hwritten
    rw [stage] at hrow
    exact absurd hrow List.not_mem_nil
  | drawn _ _ _ stage | stale _ _ _ _ stage | written _ _ stage | uncounted _ stage | counted _ stage =>
    refine performs.accounted h hrun rfl (fun row hrow ↦ ?_) fun id row hwritten ↦ by cases hwritten
    rw [stage] at hrow
    exact hrow

theorem SweepRun.Steps.accounted {run : SweepRun} (steps : run.Steps settings s t effect)
    (performs : Performs s t effect s') : Accounted s' t := by
  cases steps with
  | raised | finished =>
    cases performs
    exact .ended (Function.update_self ..)
  | selected | sameCurrency | firstRate | noFirstRate | secondRate | noSecondRate | updated | gone =>
    exact .other performs.proc rfl fun _ heq ↦ by cases heq

theorem NullifyRun.Steps.accounted {run : NullifyRun} (steps : run.Steps s t effect)
    (performs : Performs s t effect s') : Accounted s' t := by
  cases steps with
  | finished =>
    cases performs
    exact .ended (Function.update_self ..)
  | selected | nulled | unarmed | gone => exact .other performs.proc rfl fun _ heq ↦ by cases heq

theorem Outcome.accounted (h : Outcome rt settings s action s') (haccounted : Accounted s t) :
    Accounted s' t := by
  by_cases hactor : action.actor = some t
  · cases h with
    | pushed _ clock run running effect steps s' performs =>
      cases hactor
      exact steps.accounted running haccounted performs
    | swept _ clock run running effect steps s' performs =>
      cases hactor
      exact steps.accounted performs
    | nullified _ clock run running effect steps s' performs =>
      cases hactor
      exact steps.accounted performs
    | started _ request idle =>
      cases hactor
      exact .ended (haccounted.idle (by rw [idle]; rfl))
    | aborted _ running =>
      cases hactor
      exact .ended (Function.update_self ..)
    | ratesUpserted | pulled => cases hactor
  · have hsame := h.untouched hactor
    refine ⟨fun hidle ↦ ?_, fun run hrun id hmem ↦ ?_⟩
    · rw [hsame.proc] at hidle
      rw [hsame.expenses]
      exact haccounted.idle hidle
    · rw [hsame.proc] at hrun
      rw [hsame.expenses] at hmem
      exact haccounted.returned run hrun id hmem

/-! ## One step -/

/-- A row changes only by a commit of a transaction with a version of it, and becomes that version. -/
theorem Outcome.lookup_committed (h : Outcome rt settings s action s') (id : UUID) :
    s'.expenses.committed.lookup id = s.expenses.committed.lookup id ∨
      ∃ t clock next draft, action = .advance t clock ∧ s' = s.commit t next ∧
        (s.expenses.drafts t).lookup id = some draft ∧ s'.expenses.committed.lookup id = some draft := by
  rcases h.commit_or_same with ⟨hsame, _⟩ | ⟨t, clock, next, haction, _, rfl⟩
  · exact .inl (by rw [hsame])
  · rcases s.expenses.lookup_commit_cases t id with hsame | ⟨draft, hdraft, hnew⟩
    · exact .inl hsame
    · exact .inr ⟨t, clock, next, draft, haction, rfl, hdraft, hnew⟩

theorem Outcome.fresh (h : Outcome rt settings s action s') (hdrawn : ∀ t, DrawnAt trace s t) {id : UUID}
    {row : Expense} (hafter : (s'.expenses.drafts t).lookup id = some row)
    (hbefore : (s.expenses.drafts t).lookup id ≠ some row) :
    ∃ began, (began = s ∨ LastStep trace t began) ∧ row.serverSeq = began.syncSeq + 1 := by
  rcases h.statement_cases with ⟨u, effect, _, performs, hinsert⟩ | ⟨hexpenses, _⟩
  · rcases performs.draft_cases hafter with hold | ⟨rfl, hwritten⟩
    · exact absurd hold hbefore
    · rcases SyncSystem.written_cases hwritten with ⟨next, heffect⟩ | ⟨old, next, _, rfl⟩
      · obtain ⟨began, hbegan, hvalue⟩ := hdrawn t row.serverSeq (hinsert id row next heffect).2
        exact ⟨began, .inr hbegan, hvalue⟩
      · exact ⟨s, .inl rfl, rfl⟩
  · rw [hexpenses] at hafter
    exact absurd hafter hbefore

theorem Outcome.unwritten (h : Outcome rt settings s action s') {id : UUID}
    (hnone : ∀ t, action.actor = some t → id ∉ s.expenses.drafts t) :
    s'.expenses.committed.lookup id = s.expenses.committed.lookup id := by
  rcases h.lookup_committed id with hsame | ⟨t, clock, next, draft, rfl, _, hdraft, _⟩
  · exact hsame
  · exact absurd (Versioned.mem_drafts_of_lookup hdraft) (hnone t rfl)

theorem Outcome.committed_of_failed (h : Outcome rt settings s action s') (hactor : action.actor = some t)
    (hfailed : s'.procs t = .failed) : s'.expenses.committed = s.expenses.committed := by
  have hperforms {effect : Effect} (performs : Performs s t effect s')
      (hcommit : ∀ next, effect = .commit next → next ≠ .failed) :
      s'.expenses.committed = s.expenses.committed := by
    refine (performs.committed_same fun next heq ↦ ?_).1
    exact hcommit next heq (by rw [← hfailed, performs.proc, heq]; rfl)
  cases h with
  | pushed _ clock run running effect steps s' performs =>
    cases hactor
    refine hperforms performs fun next heq ↦ ?_
    cases steps <;> cases heq
    exact fun hnext ↦ by cases hnext
  | swept _ clock run running effect steps s' performs =>
    cases hactor
    refine hperforms performs fun next heq ↦ ?_
    cases steps <;> cases heq
    exact fun hnext ↦ by cases hnext
  | nullified _ clock run running effect steps s' performs =>
    cases hactor
    refine hperforms performs fun next heq ↦ ?_
    cases steps <;> cases heq
    exact fun hnext ↦ by cases hnext
  | started | aborted | ratesUpserted | pulled => rfl

/-- The statement on a row that is not older takes its lock and nothing else. -/
theorem SyncSystem.stale_step (hstep : step rt settings s (.advance t clock) = some s') {run : PushRun}
    {insertion : Insertion} {todo : List Insertion} {drawn : ℕ} {returned : List Returned} {row : Expense}
    (hrun : s.procs t = .push run) (hstage : run.stage = .writing (insertion :: todo) (some drawn) returned)
    (hfound : s.expenses.visible t insertion.id = some row)
    (hold : ¬ row.client.clientRev < insertion.client.clientRev) :
    s'.expenses.drafts = s.expenses.drafts ∧ s'.expenses.committed = s.expenses.committed := by
  have hstatement : ∃ next, run.statement rt s t clock = .lock insertion.id next := by
    unfold PushRun.statement
    simp only [hstage, hfound, if_neg hold]
    exact ⟨_, rfl⟩
  obtain ⟨next, hnext⟩ := hstatement
  simp only [step, statement, hrun, Option.bind_some, hnext] at hstep
  cases perform_performs hstep
  exact ⟨rfl, rfl⟩

/-- Every step of a run, given what holds before it. -/
theorem Outcome.seqStep (h : Outcome rt settings s action s')
    (hstep : SyncSystem.step rt settings s action = some s') (hahead : SeqAhead s)
    (hdrawn : ∀ t, DrawnAt trace s t) (haccounted : ∀ t, Accounted s t) : SeqStep trace s action s' := by
  constructor
  case fresh => exact fun t id row hafter hbefore ↦ h.fresh hdrawn hafter hbefore
  case increases =>
    intro id row hrow
    rcases h.lookup_committed id with hsame | ⟨t, _, _, draft, _, _, hdraft, hnew⟩
    · exact ⟨row, hsame.trans hrow, .inl rfl⟩
    · exact ⟨draft, hnew, .inr (hahead t id draft hdraft row hrow)⟩
  case unwritten => exact fun id hnone ↦ h.unwritten hnone
  case aborted => exact fun t hactor hfailed ↦ h.committed_of_failed hactor hfailed
  case stale =>
    intro t clock run insertion todo drawn returned row haction hrun hstage hfound hold
    subst haction
    exact SyncSystem.stale_step hstep hrun hstage hfound hold
  case unreturned =>
    intro t run returned counted hactor hrun hstage id hnone
    refine h.unwritten fun u hu hmem ↦ ?_
    cases hactor.symm.trans hu
    obtain ⟨row, hrow, hid⟩ := (haccounted t).returned run hrun id hmem
    rw [hstage] at hrow
    exact hnone row hrow hid

end

/-! ## Every run -/

/-- From the migrated tables, in every reachable state and over every next step. -/
theorem server_seq_invariant (rt : Runtime) (settings : Settings) (users : Table UUID User)
    (devices : Table UUID Device) (fxRates : FxTable) (expenses : Table UUID Expense) (usage : UsageTable)
    (reader : UUID) {trace : List (SyncSystem × SyncAction)} {s : SyncSystem}
    (hrun : Run (SyncSystem.step rt settings) (fun _ _ ↦ True)
      (.migrated users devices fxRates expenses usage reader) trace s) :
    SeqInvariant s ∧ ∀ action s', SyncSystem.step rt settings s action = some s' →
      SeqStep trace s action s' := by
  have hinv := hrun.trace_invariant
    (fun trace s ↦ Stamps s ∧ SeqAhead s ∧ (∀ t, DrawnAt trace s t) ∧ ∀ t, Accounted s t) ?_ ?_
  · obtain ⟨hstamps, hahead, hdrawn, haccounted⟩ := hinv
    exact ⟨hstamps.seqInvariant, fun action s' hstep ↦
      (SyncSystem.step_outcome hstep).seqStep hstep hahead hdrawn haccounted⟩
  · refine ⟨stamps_migrated users devices fxRates expenses usage reader, fun t id draft hdraft ↦ ?_,
      fun t drawn hdrawn ↦ ?_, fun t ↦ .ended rfl⟩
    · cases hdraft
    · cases hdrawn
  · rintro trace s action s' ⟨hstamps, hahead, hdrawn, haccounted⟩ _ hstep
    have houtcome := SyncSystem.step_outcome hstep
    exact ⟨houtcome.stamps hstamps, houtcome.seqAhead hstamps hahead,
      fun t ↦ houtcome.drawnAt (hdrawn t), fun t ↦ houtcome.accounted (haccounted t)⟩

/-- An expense from before the migration, with id `3`. -/
def unnumbered : Expense :=
  ⟨⟨1⟩, ⟨2⟩, ⟨⟨10000, by decide⟩, "USD", none, none, none, none, 0, 1, none, none⟩, none, none, .enriched,
    0, 0, 0⟩

/-- A newer revision of it is pushed: its triggers draw 2 and 3, and the row goes from 1 to 3. -/
theorem server_seq_invariant_sample : ∃ s, (s.expenses.committed.lookup ⟨3⟩).map (·.serverSeq) = some 3 ∧
    SeqInvariant s := by
  have hexec : (exec (SyncSystem.step .ascii sampleSettings)
      (.migrated (AList.singleton ⟨1⟩ ⟨"USD"⟩) (AList.singleton ⟨2⟩ ⟨⟨1⟩⟩) ∅
        (AList.singleton ⟨3⟩ unnumbered) ∅ ⟨1⟩)
      (SyncSystem.transaction 0 (.push ⟨1⟩ [sampleExpense 12 2] 0) 7)).map
        (fun s ↦ (s.expenses.committed.lookup ⟨3⟩).map (·.serverSeq)) = some (some 3) := by
    decide +kernel
  obtain ⟨s, hs, hseq⟩ := Option.map_eq_some_iff.mp hexec
  exact ⟨s, hseq, (server_seq_invariant .ascii sampleSettings _ _ _ _ _ _ (run_of_exec hs)).1⟩

end VoiceSpend
