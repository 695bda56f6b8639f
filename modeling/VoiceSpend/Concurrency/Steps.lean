import VoiceSpend.Concurrency.System

/-!
# What one step can do

Every statement of every process, once, with the facts it was taken under; every invariant is
a case analysis of these lists. `Untouched` is the frame: a step of one transaction changes
neither the process nor the versions of another one, nor the committed rows under them.
-/

namespace VoiceSpend

variable {rt : Runtime} {settings : Settings} {s s' : SyncSystem} {t u : ℕ} {clock : Instant}
  {effect : Effect} {action : SyncAction}

/-! ## Processes -/

/-- The statements of a push. -/
inductive PushRun.Steps (rt : Runtime) (s : SyncSystem) (t : ℕ) (run : PushRun) (clock : Instant) :
    Effect → Prop
  | raised (before : ∀ returned counted, run.stage ≠ .committing returned counted) :
      Steps rt s t run clock .rollback
  | devices (stage : run.stage = .devices) :
      Steps rt s t run clock (.read (.push { run with
        stage := .owners (ownedDeviceIds s.devices run.user (run.scanned.parsed.map (·.deviceId))) }))
  | owners (owned : List UUID) (stage : run.stage = .owners owned) (rejects : UUID → Option String)
      (validRecords : List ExpenseSyncIn) (insertions : List Insertion)
      (checked : checkOwners owned (existingOwners (s.expenses.view t) (run.scanned.parsed.map (·.id)))
        run.user run.scanned = (rejects, validRecords))
      (fits : toInsertions rt validRecords = some insertions) :
      Steps rt s t run clock
        (.read (.push { run with rejects := rejects, stage := .writing insertions none [] }))
  | drawn (insertion : Insertion) (todo : List Insertion) (returned : List Returned)
      (stage : run.stage = .writing (insertion :: todo) none returned) :
      Steps rt s t run clock (.draw (.push
        { run with stage := .writing (insertion :: todo) (some (s.syncSeq + 1)) returned }))
  | inserted (insertion : Insertion) (todo : List Insertion) (drawn : ℕ) (returned : List Returned)
      (stage : run.stage = .writing (insertion :: todo) (some drawn) returned)
      (fresh : s.expenses.visible t insertion.id = none) :
      Steps rt s t run clock (.insert insertion.id (.ofInsertion run.user run.now insertion drawn) (.push
        { run with stage := .writing todo none (returned ++ [⟨insertion.id, drawn, true⟩]) }))
  | updated (insertion : Insertion) (todo : List Insertion) (drawn : ℕ) (returned : List Returned)
      (stage : run.stage = .writing (insertion :: todo) (some drawn) returned) (row : Expense)
      (found : s.expenses.visible t insertion.id = some row)
      (newer : row.client.clientRev < insertion.client.clientRev) :
      Steps rt s t run clock (.update insertion.id (row.onConflict insertion.client (s.syncSeq + 1)) (.push
        { run with stage := .writing todo none (returned ++ [⟨insertion.id, s.syncSeq + 1, false⟩]) }))
  | stale (insertion : Insertion) (todo : List Insertion) (drawn : ℕ) (returned : List Returned)
      (stage : run.stage = .writing (insertion :: todo) (some drawn) returned) (row : Expense)
      (found : s.expenses.visible t insertion.id = some row)
      (notNewer : ¬ row.client.clientRev < insertion.client.clientRev) :
      Steps rt s t run clock (.lock insertion.id (.push { run with stage := .writing todo none returned }))
  | written (drawn : Option ℕ) (returned : List Returned) (stage : run.stage = .writing [] drawn returned) :
      Steps rt s t run clock (.read (.push { run with stage := .counting returned }))
  | uncounted (returned : List Returned) (stage : run.stage = .counting returned)
      (zero : newCount returned = 0) :
      Steps rt s t run clock (.read (.push { run with stage := .committing returned none }))
  | counted (returned : List Returned) (stage : run.stage = .counting returned)
      (nonzero : newCount returned ≠ 0) (counter : UsageCounter)
      (added : addToCounter (s.usage.visible t (run.user, currentPeriod clock)) (newCount returned) run.now =
        some counter) :
      Steps rt s t run clock (.count (run.user, currentPeriod clock) counter (.push
        { run with stage := .committing returned (some clock) }))
  | committed (returned : List Returned) (counted : Option Instant)
      (stage : run.stage = .committing returned counted) :
      Steps rt s t run clock
        (.commit (.answered run.user (run.scanned.order.map (resultFor run.rejects returned))))

theorem PushRun.statement_steps (rt : Runtime) (s : SyncSystem) (t : ℕ) (run : PushRun) (clock : Instant) :
    run.Steps rt s t clock (run.statement rt s t clock) := by
  unfold PushRun.statement
  split
  · rename_i stage
    exact .devices stage
  · rename_i owned stage
    dsimp only
    split
    · exact .raised fun _ _ ↦ by simp [stage]
    · rename_i insertions fits
      exact .owners owned stage _ _ insertions rfl fits
  · rename_i drawn returned stage
    exact .written drawn returned stage
  · rename_i insertion todo returned stage
    exact .drawn insertion todo returned stage
  · rename_i insertion todo drawn returned stage
    split
    · rename_i fresh
      exact .inserted insertion todo drawn returned stage fresh
    · rename_i row found
      split
      · rename_i newer
        exact .updated insertion todo drawn returned stage row found newer
      · rename_i notNewer
        exact .stale insertion todo drawn returned stage row found notNewer
  · rename_i returned stage
    split
    · rename_i zero
      exact .uncounted returned stage zero
    · rename_i nonzero
      dsimp only
      split
      · exact .raised fun _ _ ↦ by simp [stage]
      · rename_i counter added
        exact .counted returned stage nonzero counter added
  · rename_i returned counted stage
    exact .committed returned counted stage

/-- The statements of a sweep. -/
inductive SweepRun.Steps (settings : Settings) (s : SyncSystem) (t : ℕ) (run : SweepRun) :
    Effect → Prop
  | raised (before : run.stage ≠ .converting []) : Steps settings s t run .rollback
  | selected (stage : run.stage = .selecting) (limit : 0 ≤ sweepLimit settings run.limit) :
      Steps settings s t run (.read (.sweep { run with
        stage := .converting (selectBatch s.users (s.expenses.view t) run.userId
          (sweepLimit settings run.limit).toNat run.tie) }))
  | sameCurrency (row : SweepRow) (todo : List SweepRow) (stage : run.stage = .converting (row :: todo))
      (same : row.currencyOriginal = row.baseCurrency) :
      Steps settings s t run
        (.read (.sweep { run with stage := .updating row row.amountOriginal.toRat todo }))
  | firstRate (row : SweepRow) (todo : List SweepRow) (stage : run.stage = .converting (row :: todo))
      (rateFrom : ℚ) (different : row.currencyOriginal ≠ row.baseCurrency)
      (found : ratePerUsd s.fxRates row.currencyOriginal row.spentAt.date = some rateFrom) :
      Steps settings s t run (.read (.sweep { run with stage := .lookingUp row rateFrom todo }))
  | noFirstRate (row : SweepRow) (todo : List SweepRow) (stage : run.stage = .converting (row :: todo))
      (different : row.currencyOriginal ≠ row.baseCurrency)
      (missing : ratePerUsd s.fxRates row.currencyOriginal row.spentAt.date = none) :
      Steps settings s t run (.read (.sweep { run with stage := .converting todo }))
  | secondRate (row : SweepRow) (rateFrom : ℚ) (todo : List SweepRow)
      (stage : run.stage = .lookingUp row rateFrom todo) (rateTo amountBase : ℚ)
      (found : ratePerUsd s.fxRates row.baseCurrency row.spentAt.date = some rateTo)
      (converted : convertAmount row.amountOriginal.toRat rateFrom rateTo = some amountBase) :
      Steps settings s t run (.read (.sweep { run with stage := .updating row amountBase todo }))
  | noSecondRate (row : SweepRow) (rateFrom : ℚ) (todo : List SweepRow)
      (stage : run.stage = .lookingUp row rateFrom todo)
      (missing : ratePerUsd s.fxRates row.baseCurrency row.spentAt.date = none) :
      Steps settings s t run (.read (.sweep { run with stage := .converting todo }))
  | updated (row : SweepRow) (amountBase : ℚ) (todo : List SweepRow)
      (stage : run.stage = .updating row amountBase todo) (stored : Money)
      (fits : Numeric.ofRat 18 4 amountBase = some stored) (current : Expense)
      (found : s.expenses.visible t row.id = some current) :
      Steps settings s t run (.update row.id (current.recomputed stored row.baseCurrency run.now)
        (.sweep { run with stage := .converting todo }))
  | gone (row : SweepRow) (amountBase : ℚ) (todo : List SweepRow)
      (stage : run.stage = .updating row amountBase todo) (missing : s.expenses.visible t row.id = none) :
      Steps settings s t run (.read (.sweep { run with stage := .converting todo }))
  | finished (stage : run.stage = .converting []) : Steps settings s t run (.commit .done)

theorem SweepRun.statement_steps (settings : Settings) (s : SyncSystem) (t : ℕ) (run : SweepRun) :
    run.Steps settings s t (run.statement settings s t) := by
  unfold SweepRun.statement
  split
  · rename_i stage
    split
    · exact .raised (by simp [stage])
    · rename_i limit
      exact .selected stage (not_lt.mp limit)
  · rename_i stage
    exact .finished stage
  · rename_i row todo stage
    split
    · rename_i same
      exact .sameCurrency row todo stage same
    · rename_i different
      split
      · rename_i missing
        exact .noFirstRate row todo stage different missing
      · rename_i rateFrom found
        exact .firstRate row todo stage rateFrom different found
  · rename_i row rateFrom todo stage
    split
    · rename_i missing
      exact .noSecondRate row rateFrom todo stage missing
    · rename_i rateTo found
      split
      · exact .raised (by simp [stage])
      · rename_i amountBase converted
        exact .secondRate row rateFrom todo stage rateTo amountBase found converted
  · rename_i row amountBase todo stage
    split
    · exact .raised (by simp [stage])
    · rename_i stored fits
      split
      · rename_i missing
        exact .gone row amountBase todo stage missing
      · rename_i current found
        exact .updated row amountBase todo stage stored fits current found

/-- The statements of an invalidation. -/
inductive NullifyRun.Steps (s : SyncSystem) (t : ℕ) (run : NullifyRun) : Effect → Prop
  | selected (stage : run.stage = .selecting) :
      Steps s t run (.read (.nullify { run with
        stage := .updating
          (((Table.rows (s.expenses.view t)).filter fun row ↦ armed run.user row.2).map (·.1)) }))
  | nulled (id : UUID) (todo : List UUID) (stage : run.stage = .updating (id :: todo)) (row : Expense)
      (found : s.expenses.visible t id = some row) (selected : armed run.user row = true) :
      Steps s t run (.update id (row.nulled run.now) (.nullify { run with stage := .updating todo }))
  | unarmed (id : UUID) (todo : List UUID) (stage : run.stage = .updating (id :: todo)) (row : Expense)
      (found : s.expenses.visible t id = some row) (dropped : ¬ armed run.user row = true) :
      Steps s t run (.lock id (.nullify { run with stage := .updating todo }))
  | gone (id : UUID) (todo : List UUID) (stage : run.stage = .updating (id :: todo))
      (missing : s.expenses.visible t id = none) :
      Steps s t run (.read (.nullify { run with stage := .updating todo }))
  | finished (stage : run.stage = .updating []) : Steps s t run (.commit .done)

theorem NullifyRun.statement_steps (s : SyncSystem) (t : ℕ) (run : NullifyRun) :
    run.Steps s t (run.statement s t) := by
  unfold NullifyRun.statement
  split
  · rename_i stage
    exact .selected stage
  · rename_i stage
    exact .finished stage
  · rename_i id todo stage
    split
    · rename_i missing
      exact .gone id todo stage missing
    · rename_i row found
      split
      · rename_i selected
        exact .nulled id todo stage row found selected
      · rename_i dropped
        exact .unarmed id todo stage row found dropped

/-! ## The end of a transaction -/

/-- A statement leaves its transaction open, or ends it. -/
def Effect.Ends (effect : Effect) : Prop :=
  effect.next.running = true ∨ effect = .rollback ∨ ∃ next, effect = .commit next

theorem PushRun.Steps.ends {run : PushRun} (h : run.Steps rt s t clock effect) : effect.Ends := by
  cases h with
  | raised => exact .inr (.inl rfl)
  | committed => exact .inr (.inr ⟨_, rfl⟩)
  | devices | owners | drawn | inserted | updated | stale | written | uncounted | counted => exact .inl rfl

theorem SweepRun.Steps.ends {run : SweepRun} (h : run.Steps settings s t effect) : effect.Ends := by
  cases h with
  | raised => exact .inr (.inl rfl)
  | finished => exact .inr (.inr ⟨_, rfl⟩)
  | selected | sameCurrency | firstRate | noFirstRate | secondRate | noSecondRate | updated | gone =>
    exact .inl rfl

theorem NullifyRun.Steps.ends {run : NullifyRun} (h : run.Steps s t effect) : effect.Ends := by
  cases h with
  | finished => exact .inr (.inr ⟨_, rfl⟩)
  | selected | nulled | unarmed | gone => exact .inl rfl

/-! ## The database -/

/-- What `perform` does with a statement, locks included. -/
inductive Performs (s : SyncSystem) (t : ℕ) : Effect → SyncSystem → Prop
  | read (next : Proc) : Performs s t (.read next) (s.setProc t next)
  | draw (next : Proc) : Performs s t (.draw next) ({ s with syncSeq := s.syncSeq + 1 }.setProc t next)
  | lock (id : UUID) (next : Proc) (hfree : s.expenses.Free t id) :
      Performs s t (.lock id next) ({ s with expenses := s.expenses.lock t id hfree }.setProc t next)
  | insert (id : UUID) (row : Expense) (next : Proc) (hfree : s.expenses.Free t id) :
      Performs s t (.insert id row next) (s.put t id row s.syncSeq hfree next)
  | update (id : UUID) (row : Expense) (next : Proc) (hfree : s.expenses.Free t id) :
      Performs s t (.update id row next) (s.put t id (s.stamped row) (s.syncSeq + 1) hfree next)
  | count (key : UUID × Period) (counter : UsageCounter) (next : Proc) (hfree : s.usage.Free t key) :
      Performs s t (.count key counter next)
        ({ s with usage := s.usage.write t key counter hfree }.setProc t next)
  | commit (next : Proc) : Performs s t (.commit next) (s.commit t next)
  | rollback : Performs s t .rollback (s.rollback t)

theorem SyncSystem.perform_performs (h : s.perform t effect = some s') : Performs s t effect s' := by
  unfold SyncSystem.perform at h
  split at h
  · cases h
    exact .read _
  · cases h
    exact .draw _
  · split at h
    · rename_i hfree
      cases h
      exact .lock _ _ hfree
    · cases h
  · split at h
    · rename_i hfree
      cases h
      exact .insert _ _ _ hfree
    · cases h
  · split at h
    · rename_i hfree
      cases h
      exact .update _ _ _ hfree
    · cases h
  · split at h
    · rename_i hfree
      cases h
      exact .count _ _ _ hfree
    · cases h
  · cases h
    exact .commit _
  · cases h
    exact .rollback

theorem Performs.proc (h : Performs s t effect s') : s'.procs t = effect.next := by
  cases h <;> exact Function.update_self ..

/-- Only a commit changes committed rows. -/
theorem Performs.committed_same (h : Performs s t effect s') (hne : ∀ next, effect ≠ .commit next) :
    s'.expenses.committed = s.expenses.committed ∧ s'.usage.committed = s.usage.committed := by
  cases h with
  | commit next => exact absurd rfl (hne next)
  | read | draw | lock | insert | update | count | rollback => exact ⟨rfl, rfl⟩

/-- Everything an action can do. -/
inductive Outcome (rt : Runtime) (settings : Settings) (s : SyncSystem) : SyncAction → SyncSystem → Prop
  | started (t : ℕ) (request : SyncRequest) (idle : s.procs t = .idle) :
      Outcome rt settings s (.start t request) (s.setProc t (request.proc rt))
  | pushed (t : ℕ) (clock : Instant) (run : PushRun) (running : s.procs t = .push run) (effect : Effect)
      (steps : run.Steps rt s t clock effect) (s' : SyncSystem) (performs : Performs s t effect s') :
      Outcome rt settings s (.advance t clock) s'
  | swept (t : ℕ) (clock : Instant) (run : SweepRun) (running : s.procs t = .sweep run) (effect : Effect)
      (steps : run.Steps settings s t effect) (s' : SyncSystem) (performs : Performs s t effect s') :
      Outcome rt settings s (.advance t clock) s'
  | nullified (t : ℕ) (clock : Instant) (run : NullifyRun) (running : s.procs t = .nullify run)
      (effect : Effect) (steps : run.Steps s t effect) (s' : SyncSystem) (performs : Performs s t effect s') :
      Outcome rt settings s (.advance t clock) s'
  | aborted (t : ℕ) (running : (s.procs t).running = true) :
      Outcome rt settings s (.abort t) (s.rollback t)
  | ratesUpserted (quotes : List (Text × Rate)) (rateDate : Date) (source : String) :
      Outcome rt settings s (.upsertRates quotes rateDate source)
        { s with fxRates := VoiceSpend.upsertRates s.fxRates quotes rateDate source }
  | pulled (limit : ℕ) : Outcome rt settings s (.pull limit) (s.deliver (s.nextPage limit))

theorem SyncSystem.step_outcome (h : SyncSystem.step rt settings s action = some s') :
    Outcome rt settings s action s' := by
  cases action with
  | start t request =>
    simp only [step] at h
    split at h
    · rename_i idle
      cases h
      exact .started t request idle
    · cases h
  | advance t clock =>
    obtain ⟨effect, heffect, hperform⟩ := Option.bind_eq_some_iff.mp h
    have performs := perform_performs hperform
    unfold statement at heffect
    split at heffect
    · rename_i run running
      cases heffect
      exact .pushed t clock run running _ (run.statement_steps rt s t clock) s' performs
    · rename_i run running
      cases heffect
      exact .swept t clock run running _ (run.statement_steps settings s t) s' performs
    · rename_i run running
      cases heffect
      exact .nullified t clock run running _ (run.statement_steps s t) s' performs
    · cases heffect
  | abort t =>
    simp only [step] at h
    split at h
    · rename_i running
      cases h
      exact .aborted t running
    · cases h
  | upsertRates quotes rateDate source =>
    cases h
    exact .ratesUpserted quotes rateDate source
  | pull limit =>
    simp only [step] at h
    split at h
    · cases h
      exact .pulled limit
    · cases h

/-- A step changes committed rows only by committing a transaction. -/
theorem Outcome.commit_or_same (h : Outcome rt settings s action s') :
    (s'.expenses.committed = s.expenses.committed ∧ s'.usage.committed = s.usage.committed) ∨
      ∃ t clock next, action = .advance t clock ∧ (s.procs t).running = true ∧ s' = s.commit t next := by
  have hperforms {t : ℕ} {clock : Instant} {effect : Effect} (hrunning : (s.procs t).running = true)
      (performs : Performs s t effect s') :
      (s'.expenses.committed = s.expenses.committed ∧ s'.usage.committed = s.usage.committed) ∨
        ∃ u now next, SyncAction.advance t clock = .advance u now ∧ (s.procs u).running = true ∧
          s' = s.commit u next := by
    cases performs with
    | commit next => exact .inr ⟨t, clock, next, rfl, hrunning, rfl⟩
    | read | draw | lock | insert | update | count | rollback => exact .inl ⟨rfl, rfl⟩
  cases h with
  | pushed t clock run running effect steps s' performs => exact hperforms (by rw [running]; rfl) performs
  | swept t clock run running effect steps s' performs => exact hperforms (by rw [running]; rfl) performs
  | nullified t clock run running effect steps s' performs => exact hperforms (by rw [running]; rfl) performs
  | started | aborted | ratesUpserted | pulled => exact .inl ⟨rfl, rfl⟩

/-! ## Every row version -/

/-- The property holds of every committed row and of every uncommitted version. -/
structure AllRows (P : Expense → Prop) (s : SyncSystem) : Prop where
  committed : ∀ id row, s.expenses.committed.lookup id = some row → P row
  drafts : ∀ t id row, (s.expenses.drafts t).lookup id = some row → P row

theorem AllRows.visible {P : Expense → Prop} (h : AllRows P s) {id : UUID} {row : Expense}
    (found : s.expenses.visible t id = some row) : P row := by
  cases hdraft : (s.expenses.drafts t).lookup id with
  | some draft =>
    rw [Versioned.visible_of_draft hdraft] at found
    cases found
    exact h.drafts t id row hdraft
  | none =>
    rw [Versioned.visible_of_lookup_drafts hdraft] at found
    exact h.committed id row found

theorem AllRows.mono {P Q : Expense → Prop} (h : AllRows P s) (hle : ∀ row, P row → Q row) : AllRows Q s :=
  ⟨fun id row hrow ↦ hle row (h.committed id row hrow), fun t id row hrow ↦ hle row (h.drafts t id row hrow)⟩

theorem AllRows.put {P : Expense → Prop} (h : AllRows P s) {id : UUID} {row : Expense} {syncSeq : ℕ}
    {next : Proc} (hfree : s.expenses.Free t id) (hrow : P row) :
    AllRows P (s.put t id row syncSeq hfree next) := by
  refine ⟨h.committed, fun u other new hnew ↦ ?_⟩
  have hlookup := hnew.symm.trans (s.expenses.lookup_write_drafts row hfree u other)
  split at hlookup
  · cases hlookup
    exact hrow
  · exact h.drafts u other new hlookup.symm

theorem AllRows.release {P : Expense → Prop} (h : AllRows P s)
    (hexpenses : s'.expenses.drafts = Function.update s.expenses.drafts t ∅)
    (hcommitted : ∀ id row, s'.expenses.committed.lookup id = some row → P row) : AllRows P s' := by
  refine ⟨hcommitted, fun u id row hrow ↦ ?_⟩
  rw [hexpenses] at hrow
  by_cases hu : u = t
  · subst hu
    rw [Function.update_self, AList.lookup_empty] at hrow
    cases hrow
  · rw [Function.update_of_ne hu] at hrow
    exact h.drafts u id row hrow

/-- A statement keeps a property of all rows that holds of the row it writes. -/
theorem AllRows.performs {P : Expense → Prop} (h : AllRows P s) (performs : Performs s t effect s')
    (hinsert : ∀ id row next, effect = .insert id row next → P row)
    (hupdate : ∀ id row next, effect = .update id row next → P (s.stamped row)) : AllRows P s' := by
  cases performs with
  | read | draw | lock | count => exact ⟨h.committed, h.drafts⟩
  | insert id row next hfree => exact h.put hfree (hinsert id row next rfl)
  | update id row next hfree => exact h.put hfree (hupdate id row next rfl)
  | commit next =>
    refine h.release rfl fun id row hrow ↦ ?_
    exact h.visible ((s.expenses.lookup_commit t id).symm.trans hrow)
  | rollback => exact h.release rfl h.committed

/-! ## Versions over committed rows -/

/-- The version a statement writes. -/
def SyncSystem.written (s : SyncSystem) : Effect → Option (UUID × Expense)
  | .insert id row _ => some (id, row)
  | .update id row _ => some (id, s.stamped row)
  | .read _ | .draw _ | .lock _ _ | .count _ _ _ | .commit _ | .rollback => none

theorem SyncSystem.written_cases {id : UUID} {row : Expense} (h : s.written effect = some (id, row)) :
    (∃ next, effect = .insert id row next) ∨
      ∃ old next, effect = .update id old next ∧ row = s.stamped old := by
  cases effect with
  | insert other new next =>
    cases h
    exact .inl ⟨next, rfl⟩
  | update other new next =>
    cases h
    exact .inr ⟨new, next, rfl, rfl⟩
  | read | draw | lock | count | commit | rollback => cases h

/-- Every open version is related to the committed row it replaces. -/
def Overlaid (R : Expense → Expense → Prop) (s : SyncSystem) : Prop :=
  ∀ t id draft, (s.expenses.drafts t).lookup id = some draft → ∀ row,
    s.expenses.committed.lookup id = some row → R row draft

/-- An open version is there before the statement, or is what the statement writes. -/
theorem Performs.draft_cases (h : Performs s t effect s') {id : UUID} {row : Expense}
    (hrow : (s'.expenses.drafts u).lookup id = some row) :
    (s.expenses.drafts u).lookup id = some row ∨ u = t ∧ s.written effect = some (id, row) := by
  have hwrite {new : Expense} {other : UUID} (hfree : s.expenses.Free t other)
      (hnew : ((s.expenses.write t other new hfree).drafts u).lookup id = some row) :
      (s.expenses.drafts u).lookup id = some row ∨ u = t ∧ some (other, new) = some (id, row) := by
    rw [Versioned.lookup_write_drafts] at hnew
    split at hnew
    · rename_i hboth
      cases hnew
      exact .inr ⟨hboth.1, by rw [hboth.2]⟩
    · exact .inl hnew
  have hrelease {table : Table UUID Expense}
      (hold : ((s.expenses.release t table).drafts u).lookup id = some row) :
      (s.expenses.drafts u).lookup id = some row := by
    rw [Versioned.lookup_release_drafts] at hold
    split at hold
    · cases hold
    · exact hold
  cases h with
  | read | draw | lock | count => exact .inl hrow
  | insert other new next hfree => exact hwrite hfree hrow
  | update other new next hfree => exact hwrite hfree hrow
  | commit next => exact .inl (hrelease hrow)
  | rollback => exact .inl (hrelease hrow)

/-- A statement that relates what it writes to what it sees keeps the open versions related. -/
theorem Overlaid.performs {R : Expense → Expense → Prop} (h : Overlaid R s)
    (htrans : ∀ first second third, R first second → R second third → R first third)
    (performs : Performs s t effect s')
    (hwrites : ∀ id row, s.written effect = some (id, row) → ∀ old,
      s.expenses.visible t id = some old → R old row) : Overlaid R s' := by
  intro writer id draft hdraft row hrow
  by_cases hcommit : ∃ next, effect = .commit next
  · obtain ⟨next, rfl⟩ := hcommit
    cases performs
    have hlookup := hdraft.symm.trans (s.expenses.lookup_release_drafts t _ writer id)
    split at hlookup
    · cases hlookup
    · rename_i hwriter
      -- the committed row under another transaction's version is the old one
      have hmem : id ∈ s.expenses.drafts writer := Versioned.mem_drafts_of_lookup hlookup.symm
      have hsame := s.expenses.lookup_commit_of_mem_drafts hwriter hmem
      exact h writer id draft hlookup.symm row (hsame.symm.trans hrow)
  · push Not at hcommit
    rw [(performs.committed_same hcommit).1] at hrow
    rcases performs.draft_cases hdraft with hold | ⟨rfl, hnew⟩
    · exact h writer id draft hold row hrow
    · cases hprevious : (s.expenses.drafts writer).lookup id with
      | none =>
        exact hwrites id draft hnew row ((Versioned.visible_of_lookup_drafts hprevious).trans hrow)
      | some previous =>
        exact htrans _ _ _ (h writer id previous hprevious row hrow)
          (hwrites id draft hnew previous (Versioned.visible_of_draft hprevious))

/-! ## The frame -/

/-- The process of `u`, its versions, and the committed rows under them are as before. -/
structure Untouched (u : ℕ) (s s' : SyncSystem) : Prop where
  proc : s'.procs u = s.procs u
  expenses : s'.expenses.drafts u = s.expenses.drafts u
  usage : s'.usage.drafts u = s.usage.drafts u
  committed : ∀ id ∈ s.expenses.drafts u, s'.expenses.committed.lookup id = s.expenses.committed.lookup id
  counted : ∀ key ∈ s.usage.drafts u, s'.usage.committed.lookup key = s.usage.committed.lookup key

theorem Performs.untouched (h : Performs s t effect s') (hne : u ≠ t) : Untouched u s s' := by
  have hproc (next : Proc) : Function.update s.procs t next u = s.procs u := Function.update_of_ne hne ..
  cases h with
  | read next => exact ⟨hproc _, rfl, rfl, fun _ _ ↦ rfl, fun _ _ ↦ rfl⟩
  | draw next => exact ⟨hproc _, rfl, rfl, fun _ _ ↦ rfl, fun _ _ ↦ rfl⟩
  | lock id next hfree => exact ⟨hproc _, rfl, rfl, fun _ _ ↦ rfl, fun _ _ ↦ rfl⟩
  | insert id row next hfree =>
    exact ⟨hproc _, Function.update_of_ne hne .., rfl, fun _ _ ↦ rfl, fun _ _ ↦ rfl⟩
  | update id row next hfree =>
    exact ⟨hproc _, Function.update_of_ne hne .., rfl, fun _ _ ↦ rfl, fun _ _ ↦ rfl⟩
  | count key counter next hfree =>
    exact ⟨hproc _, rfl, Function.update_of_ne hne .., fun _ _ ↦ rfl, fun _ _ ↦ rfl⟩
  | commit next =>
    exact ⟨hproc _, Function.update_of_ne hne .., Function.update_of_ne hne ..,
      fun _ hmem ↦ s.expenses.lookup_commit_of_mem_drafts hne hmem,
      fun _ hmem ↦ s.usage.lookup_commit_of_mem_drafts hne hmem⟩
  | rollback =>
    exact ⟨hproc _, Function.update_of_ne hne .., Function.update_of_ne hne .., fun _ _ ↦ rfl,
      fun _ _ ↦ rfl⟩

/-- An action touches no transaction but its own. -/
theorem Outcome.untouched (h : Outcome rt settings s action s') (hne : action.actor ≠ some u) :
    Untouched u s s' := by
  cases h with
  | started t request idle =>
    have hut : u ≠ t := fun heq ↦ hne (congrArg some heq.symm)
    exact (Performs.read (request.proc rt)).untouched hut
  | pushed t clock run running effect steps s' performs =>
    exact performs.untouched fun heq ↦ hne (congrArg some heq.symm)
  | swept t clock run running effect steps s' performs =>
    exact performs.untouched fun heq ↦ hne (congrArg some heq.symm)
  | nullified t clock run running effect steps s' performs =>
    exact performs.untouched fun heq ↦ hne (congrArg some heq.symm)
  | aborted t running => exact Performs.rollback.untouched fun heq ↦ hne (congrArg some heq.symm)
  | ratesUpserted | pulled => exact ⟨rfl, rfl, rfl, fun _ _ ↦ rfl, fun _ _ ↦ rfl⟩

/-- A process that no action belongs to stays as it is. -/
theorem exec_proc {actions : List SyncAction}
    (hexec : Machine.exec (SyncSystem.step rt settings) s actions = some s')
    (hne : ∀ action ∈ actions, action.actor ≠ some u) : s'.procs u = s.procs u := by
  induction actions generalizing s with
  | nil =>
    cases hexec
    rfl
  | cons action rest ih =>
    obtain ⟨middle, hmiddle, hrest⟩ := Option.bind_eq_some_iff.mp hexec
    rw [List.forall_mem_cons] at hne
    calc s'.procs u
        = middle.procs u := ih hrest hne.2
      _ = s.procs u := ((SyncSystem.step_outcome hmiddle).untouched hne.1).proc

end VoiceSpend
