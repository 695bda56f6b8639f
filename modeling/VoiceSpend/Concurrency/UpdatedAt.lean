import VoiceSpend.Concurrency.Steps
import VoiceSpend.Webhooks.Concurrent

/-!
# Does a change refresh `updated_at`?

Three mechanisms set the column: the default on an insert, `onupdate` in an `UPDATE` built by the
ORM, and the `SET` clause of an upsert, where `onupdate` does not apply. The upserts of
`usage_counters`, `entitlements` and `fx_rates` name the column; the one of `push_sync` does not, so
an edited expense keeps the time of whatever changed it before. No other step of any run leaves a
changed row with another time than its transaction's.
-/

namespace VoiceSpend

open Machine

/-! ## Rates with their times -/

/-- A row of `fx_rates` with its timestamps. -/
structure StoredRate where
  rate : FxRate
  createdAt : Instant
  updatedAt : Instant
  deriving DecidableEq, Repr

abbrev StoredRates := Table (Text × Date) StoredRate

/-- The rates without their times. -/
def plainRates (rates : StoredRates) : FxTable :=
  ⟨rates.entries.map (Sigma.map id fun _ ↦ StoredRate.rate), rates.nodupKeys.map₂ _⟩

/-- `INSERT ... ON CONFLICT (currency_code, rate_date) DO UPDATE` of one row. -/
def StoredRate.upsert (existing : Option StoredRate) (rate : FxRate) (now : Instant) : StoredRate :=
  match existing with
  | none => ⟨rate, now, now⟩
  | some row => { row with rate := rate, updatedAt := now }

/-- `upsert_rates`, in a transaction that began at `now`. -/
def upsertStoredRates (rates : StoredRates) (quotes : List (Text × Rate)) (rateDate : Date)
    (source : String) (now : Instant) : StoredRates :=
  quotes.foldl (fun table quote ↦ table.insert (quote.1, rateDate)
    (.upsert (table.lookup (quote.1, rateDate)) ⟨quote.2, some source⟩ now)) rates

/-! ## All write paths -/

/-- The transactions on expenses and counters, the webhook's handler runs, and the rates. -/
structure Backend where
  sync : SyncSystem
  webhooks : WebhookSystem
  fxRates : StoredRates

inductive BackendAction
  | sync (action : SyncAction)
  | webhook (action : WebhookAction)
  | upsertRates (quotes : List (Text × Rate)) (rateDate : Date) (source : String) (now : Instant)

/-- The time the transaction of a process began. -/
@[simp] def Proc.now? : Proc → Option Instant
  | .push run => some run.now
  | .sweep run => some run.now
  | .nullify run => some run.now
  | _ => none

@[simp] def HandlerState.now? : HandlerState → Option Instant
  | .running run => some run.now
  | _ => none

namespace Backend

/-- Rates change by their own action only, in both copies. -/
def step (rt : Runtime) (settings : Settings) (s : Backend) : BackendAction → Option Backend
  | .sync (.upsertRates ..) => none
  | .sync action => (s.sync.step rt settings action).map fun sync ↦ { s with sync }
  | .webhook action => (s.webhooks.step rt action).map fun webhooks ↦ { s with webhooks }
  | .upsertRates quotes rateDate source now =>
    (s.sync.step rt settings (.upsertRates quotes rateDate source)).map fun sync ↦
      { s with sync, fxRates := upsertStoredRates s.fxRates quotes rateDate source now }

/-- Committed tables and no transaction. -/
def ofTables (users : Table UUID User) (devices : Table UUID Device) (expenses : Table UUID Expense)
    (usage : UsageTable) (syncSeq : ℕ) (reader : UUID) (billing : Billing) (fxRates : StoredRates) :
    Backend where
  sync := .ofTables users devices (plainRates fxRates) expenses usage syncSeq reader
  webhooks := .ofBilling billing
  fxRates := fxRates

/-- `now()` in the transaction of a step. -/
def now? (s : Backend) : BackendAction → Option Instant
  | .sync action => action.actor.bind fun t ↦ (s.sync.procs t).now?
  | .webhook (.deliver _ _ now) => some now
  | .webhook (.advance t) | .webhook (.abort t) => (s.webhooks.runs t).now?
  | .upsertRates _ _ _ now => some now

/-- The next statement is the upsert of a push that edits a row which another time is stored in. -/
def forgetsUpdatedAt (s : Backend) : BackendAction → Bool
  | .sync (.advance t _) =>
    match s.sync.procs t with
    | .push ⟨_, _, _, now, .writing (insertion :: _) (some _) _⟩ =>
      (s.sync.expenses.visible t insertion.id).any fun row ↦
        row.client.clientRev < insertion.client.clientRev && row.updatedAt ≠ now
    | _ => false
  | _ => false

end Backend

/-- Every existing row that a step changes in another column has the time of the step's transaction. -/
structure Refreshes (before : Backend) (action : BackendAction) (after : Backend) : Prop where
  expenses : ∀ id old new, before.sync.expenses.committed.lookup id = some old →
    after.sync.expenses.committed.lookup id = some new → (∀ time, new ≠ { old with updatedAt := time }) →
      before.now? action = some new.updatedAt
  usageCounters : ∀ key old new, before.sync.usage.committed.lookup key = some old →
    after.sync.usage.committed.lookup key = some new → (∀ time, new ≠ { old with updatedAt := time }) →
      before.now? action = some new.updatedAt
  entitlements : ∀ user old new, before.webhooks.entitlements.committed.lookup user = some old →
    after.webhooks.entitlements.committed.lookup user = some new →
      (∀ time, new ≠ { old with updatedAt := time }) → before.now? action = some new.updatedAt
  fxRates : ∀ key old new, before.fxRates.lookup key = some old → after.fxRates.lookup key = some new →
    (∀ time, new ≠ { old with updatedAt := time }) → before.now? action = some new.updatedAt

section

variable {rt : Runtime} {settings : Settings} {t u : ℕ} {clock now : Instant}

/-! ## Rates -/

theorem lookup_plainRates (rates : StoredRates) (key : Text × Date) :
    (plainRates rates).lookup key = (rates.lookup key).map (·.rate) := by
  unfold AList.lookup plainRates
  exact List.dlookup_map₂ _

/-- The upsert changes rates as it does without their times. -/
theorem lookup_upsertStoredRates_rate {rates : StoredRates} {plain : FxTable}
    (h : ∀ key, (rates.lookup key).map (·.rate) = plain.lookup key) (quotes : List (Text × Rate))
    (rateDate : Date) (source : String) (now : Instant) (key : Text × Date) :
    ((upsertStoredRates rates quotes rateDate source now).lookup key).map (·.rate) =
      (upsertRates plain quotes rateDate source).lookup key := by
  unfold upsertStoredRates upsertRates
  induction quotes generalizing rates plain with
  | nil => exact h key
  | cons quote rest ih =>
    refine ih fun other ↦ ?_
    rw [Table.lookup_insert_eq, Table.lookup_insert_eq]
    split
    · unfold StoredRate.upsert
      cases rates.lookup (quote.1, rateDate) <;> rfl
    · exact h other

theorem updatedAt_upsert (existing : Option StoredRate) (rate : FxRate) (now : Instant) :
    (StoredRate.upsert existing rate now).updatedAt = now := by
  cases existing <;> rfl

/-- A row is as before, or written at the time of the upsert. -/
theorem lookup_upsertStoredRates (rates : StoredRates) (quotes : List (Text × Rate)) (rateDate : Date)
    (source : String) (now : Instant) (key : Text × Date) :
    (upsertStoredRates rates quotes rateDate source now).lookup key = rates.lookup key ∨
      ∃ row, (upsertStoredRates rates quotes rateDate source now).lookup key = some row ∧
        row.updatedAt = now := by
  unfold upsertStoredRates
  induction quotes generalizing rates with
  | nil => exact .inl rfl
  | cons quote rest ih =>
    rw [List.foldl_cons]
    rcases ih (rates.insert (quote.1, rateDate)
      (.upsert (rates.lookup (quote.1, rateDate)) ⟨quote.2, some source⟩ now)) with hsame | hwritten
    · rw [hsame, Table.lookup_insert_eq]
      split
      · exact .inr ⟨_, rfl, updatedAt_upsert ..⟩
      · exact .inl rfl
    · exact .inr hwritten

end

/-! ## Expenses and counters -/

/-- Every open version has the time of its transaction. -/
structure SyncTimely (s : SyncSystem) : Prop where
  expenses : ∀ t id draft, (s.expenses.drafts t).lookup id = some draft →
    (s.procs t).now? = some draft.updatedAt
  usage : ∀ t key draft, (s.usage.drafts t).lookup key = some draft →
    (s.procs t).now? = some draft.updatedAt

/-- The transaction has ended, or goes on with the time it began at. -/
def Effect.KeepsNow (effect : Effect) (now : Instant) : Prop :=
  effect = .rollback ∨ (∃ next, effect = .commit next) ∨ effect.next.now? = some now

section

variable {rt : Runtime} {settings : Settings} {s s' : SyncSystem} {t u : ℕ} {clock now : Instant}
  {effect : Effect} {action : SyncAction}

theorem updatedAt_addToCounter {existing : Option UsageCounter} {n : ℕ} {counter : UsageCounter}
    (h : addToCounter existing n now = some counter) : counter.updatedAt = now := by
  unfold addToCounter at h
  cases existing <;> dsimp only at h <;> split at h <;> cases h <;> rfl

/-- An open counter version is there before the statement, or is what the statement writes. -/
theorem Performs.counter_cases (h : Performs s t effect s') {key : UUID × Period} {counter : UsageCounter}
    (hcounter : (s'.usage.drafts u).lookup key = some counter) :
    (s.usage.drafts u).lookup key = some counter ∨ u = t ∧ ∃ next, effect = .count key counter next := by
  have hrelease {table : UsageTable}
      (hold : ((s.usage.release t table).drafts u).lookup key = some counter) :
      (s.usage.drafts u).lookup key = some counter := by
    rw [Versioned.lookup_release_drafts] at hold
    split at hold
    · cases hold
    · exact hold
  cases h with
  | read | draw | lock | insert | update => exact .inl hcounter
  | count other new next hfree =>
    have hlookup := hcounter.symm.trans (s.usage.lookup_write_drafts new hfree u key)
    split at hlookup
    · rename_i hboth
      cases hlookup
      exact .inr ⟨hboth.1, next, by rw [hboth.2]⟩
    · exact .inl hlookup.symm
  | commit next => exact .inl (hrelease hcounter)
  | rollback => exact .inl (hrelease hcounter)

theorem Performs.drafts_of_ended (h : Performs s t effect s')
    (hended : effect = .rollback ∨ ∃ next, effect = .commit next) :
    s'.expenses.drafts t = ∅ ∧ s'.usage.drafts t = ∅ := by
  rcases hended with rfl | ⟨next, rfl⟩
  · cases h
    exact ⟨Function.update_self .., Function.update_self ..⟩
  · cases h
    exact ⟨Function.update_self .., Function.update_self ..⟩

/-- A statement that writes versions with its transaction's time. -/
theorem SyncTimely.performs (h : SyncTimely s) (performs : Performs s t effect s')
    (hnow : (s.procs t).now? = some now) (hnext : effect.KeepsNow now)
    (hwritten : ∀ id row, s.written effect = some (id, row) → row.updatedAt = now)
    (hcounted : ∀ key counter next, effect = .count key counter next → counter.updatedAt = now) :
    SyncTimely s' := by
  have hopen (hdrafts : ¬ (s'.expenses.drafts t = ∅ ∧ s'.usage.drafts t = ∅)) :
      (s'.procs t).now? = some now := by
    rw [performs.proc]
    rcases hnext with hend | hend | hgoes
    · exact absurd (performs.drafts_of_ended (.inl hend)) hdrafts
    · exact absurd (performs.drafts_of_ended (.inr hend)) hdrafts
    · exact hgoes
  constructor
  · intro u id draft hdraft
    by_cases hu : u = t
    · subst hu
      have htime : draft.updatedAt = now := by
        rcases performs.draft_cases hdraft with hold | ⟨_, hnew⟩
        · exact Option.some.inj ((h.expenses u id draft hold).symm.trans hnow)
        · exact hwritten id draft hnew
      rw [htime]
      exact hopen fun hempty ↦ by
        rw [hempty.1, AList.lookup_empty] at hdraft
        cases hdraft
    · have hother := performs.untouched hu
      rw [hother.expenses] at hdraft
      rw [hother.proc]
      exact h.expenses u id draft hdraft
  · intro u key draft hdraft
    by_cases hu : u = t
    · subst hu
      have htime : draft.updatedAt = now := by
        rcases performs.counter_cases hdraft with hold | ⟨_, next, hnew⟩
        · exact Option.some.inj ((h.usage u key draft hold).symm.trans hnow)
        · exact hcounted key draft next hnew
      rw [htime]
      exact hopen fun hempty ↦ by
        rw [hempty.2, AList.lookup_empty] at hdraft
        cases hdraft
    · have hother := performs.untouched hu
      rw [hother.usage] at hdraft
      rw [hother.proc]
      exact h.usage u key draft hdraft

/-- An upsert that is allowed edits a row of its own time. -/
theorem updatedAt_of_newer {backend : Backend} {run : PushRun} {insertion : Insertion}
    {todo : List Insertion} {drawn : ℕ} {returned : List Returned} {row : Expense}
    (hok : backend.forgetsUpdatedAt (.sync (.advance t clock)) = false)
    (hrun : backend.sync.procs t = .push run)
    (stage : run.stage = .writing (insertion :: todo) (some drawn) returned)
    (found : backend.sync.expenses.visible t insertion.id = some row)
    (newer : row.client.clientRev < insertion.client.clientRev) : row.updatedAt = run.now := by
  obtain ⟨user, scanned, rejects, now, _⟩ := run
  subst stage
  simpa [Backend.forgetsUpdatedAt, hrun, found, newer] using hok

theorem PushRun.Steps.syncTimely {backend : Backend} {run : PushRun}
    (steps : run.Steps rt backend.sync t clock effect) (hrun : backend.sync.procs t = .push run)
    (hok : backend.forgetsUpdatedAt (.sync (.advance t clock)) = false) (h : SyncTimely backend.sync)
    (performs : Performs backend.sync t effect s') : SyncTimely s' := by
  refine h.performs performs (by rw [hrun]; rfl) ?_ (fun id row hwritten ↦ ?_)
    fun key counter next hcount ↦ ?_
  · cases steps with
    | raised => exact .inl rfl
    | committed => exact .inr (.inl ⟨_, rfl⟩)
    | devices | owners | drawn | inserted | updated | stale | written | uncounted | counted =>
      exact .inr (.inr rfl)
  · cases steps with
    | inserted insertion todo drawn returned stage fresh =>
      cases hwritten
      rfl
    | updated insertion todo drawn returned stage row found newer =>
      cases hwritten
      have htime : row.updatedAt = run.now := updatedAt_of_newer hok hrun stage found newer
      exact htime
    | raised | devices | owners | drawn | stale | written | uncounted | counted | committed =>
      cases hwritten
  · cases steps with
    | counted returned stage nonzero counter added =>
      cases hcount
      exact updatedAt_addToCounter added
    | raised | devices | owners | drawn | inserted | updated | stale | written | uncounted | committed =>
      cases hcount

theorem SweepRun.Steps.syncTimely {run : SweepRun} (steps : run.Steps settings s t effect)
    (hrun : s.procs t = .sweep run) (h : SyncTimely s) (performs : Performs s t effect s') :
    SyncTimely s' := by
  refine h.performs performs (by rw [hrun]; rfl) ?_ (fun id row hwritten ↦ ?_)
    fun key counter next hcount ↦ by cases steps <;> cases hcount
  · cases steps with
    | raised => exact .inl rfl
    | finished => exact .inr (.inl ⟨_, rfl⟩)
    | selected | sameCurrency | firstRate | noFirstRate | secondRate | noSecondRate | updated | gone =>
      exact .inr (.inr rfl)
  · cases steps <;> cases hwritten
    rfl

theorem NullifyRun.Steps.syncTimely {run : NullifyRun} (steps : run.Steps s t effect)
    (hrun : s.procs t = .nullify run) (h : SyncTimely s) (performs : Performs s t effect s') :
    SyncTimely s' := by
  refine h.performs performs (by rw [hrun]; rfl) ?_ (fun id row hwritten ↦ ?_)
    fun key counter next hcount ↦ by cases steps <;> cases hcount
  · cases steps with
    | finished => exact .inr (.inl ⟨_, rfl⟩)
    | selected | nulled | unarmed | gone => exact .inr (.inr rfl)
  · cases steps <;> cases hwritten
    rfl

theorem Outcome.syncTimely {backend : Backend} (h : Outcome rt settings backend.sync action s')
    (hok : backend.forgetsUpdatedAt (.sync action) = false) (htimely : SyncTimely backend.sync) :
    SyncTimely s' := by
  cases h with
  | started t request idle =>
    have hother {u : ℕ} {time : Instant} (hold : (backend.sync.procs u).now? = some time) :
        ((backend.sync.setProc t (request.proc rt)).procs u).now? = some time := by
      by_cases hu : u = t
      · rw [hu, idle] at hold
        cases hold
      · exact (congrArg Proc.now? (Function.update_of_ne hu ..)).trans hold
    exact ⟨fun u id draft hdraft ↦ hother (htimely.expenses u id draft hdraft),
      fun u key draft hdraft ↦ hother (htimely.usage u key draft hdraft)⟩
  | pushed t clock run running effect steps s' performs => exact steps.syncTimely running hok htimely performs
  | swept t clock run running effect steps s' performs => exact steps.syncTimely running htimely performs
  | nullified t clock run running effect steps s' performs => exact steps.syncTimely running htimely performs
  | aborted t running =>
    have hnow : ∃ now, (backend.sync.procs t).now? = some now := by
      cases hproc : backend.sync.procs t with
      | push run | sweep run | nullify run => exact ⟨run.now, rfl⟩
      | idle | answered | done | failed =>
        rw [hproc] at running
        cases running
    obtain ⟨now, hnow⟩ := hnow
    exact htimely.performs .rollback hnow (.inl rfl) (fun _ _ h ↦ by cases h) fun _ _ _ h ↦ by cases h
  | ratesUpserted | pulled => exact ⟨htimely.expenses, htimely.usage⟩

end

/-! ## Entitlements -/

/-- Every open version has the time of its transaction. -/
def WebhookTimely (s : WebhookSystem) : Prop :=
  ∀ t user row, (s.entitlements.drafts t).lookup user = some row → (s.runs t).now? = some row.updatedAt

section

variable {rt : Runtime} {s s' : WebhookSystem} {action : WebhookAction}

theorem updatedAt_entitlement (change : EntitlementChange) (existing : Option Entitlement) (now : Instant) :
    (change.upsert existing now).updatedAt = now := by
  cases existing <;> rfl

/-- The run goes on, or has begun, and no version is written. -/
theorem WebhookTimely.setRun (h : WebhookTimely s) {t : ℕ} {state : HandlerState}
    (hstate : ∀ now, (s.runs t).now? = some now → state.now? = some now)
    (hdrafts : s'.entitlements.drafts = s.entitlements.drafts)
    (hruns : s'.runs = Function.update s.runs t state) : WebhookTimely s' := by
  intro u user row hrow
  rw [hdrafts] at hrow
  have hold := h u user row hrow
  rw [hruns]
  by_cases hu : u = t
  · subst hu
    rw [Function.update_self]
    exact hstate _ hold
  · rw [Function.update_of_ne hu]
    exact hold

theorem WebhookTimely.released (h : WebhookTimely s) {t : ℕ} {state : HandlerState}
    {table : Table UUID Entitlement}
    (hdrafts : s'.entitlements.drafts = (s.entitlements.release t table).drafts)
    (hruns : s'.runs = Function.update s.runs t state) : WebhookTimely s' := by
  intro u user row hrow
  rw [hdrafts, Versioned.lookup_release_drafts] at hrow
  split at hrow
  · cases hrow
  · rename_i hu
    rw [hruns, Function.update_of_ne hu]
    exact h u user row hrow

theorem WebhookSystem.Outcome.timely (h : WebhookSystem.Outcome rt s action s')
    (htimely : WebhookTimely s) : WebhookTimely s' := by
  have hgoto {t : ℕ} {run : HandlerRun} {stage : HandlerStage} (hrun : s.runs t = .running run)
      (now : Instant) (hnow : (s.runs t).now? = some now) :
      (HandlerState.running { run with stage := stage }).now? = some now := by
    rw [hrun] at hnow
    exact hnow
  cases h with
  | delivered idle =>
    refine htimely.setRun (fun now hnow ↦ ?_) rfl rfl
    rw [idle] at hnow
    cases hnow
  | rolledBack running => exact htimely.released rfl rfl
  | committed running => exact htimely.released rfl rfl
  | known running | recorded running | unmapped running | mapped running | decided running =>
    exact htimely.setRun (hgoto running) rfl rfl
  | @upserted t run running user change stage hfree =>
    intro u other row hrow
    have hlookup := hrow.symm.trans (s.entitlements.lookup_write_drafts
      (change.upsert (s.entitlements.visible t user) run.now) hfree u other)
    split at hlookup
    · rename_i hboth
      cases hlookup
      rw [hboth.1, updatedAt_entitlement]
      exact (congrArg HandlerState.now? (Function.update_self ..)).trans rfl
    · have hold := htimely u other row hlookup.symm
      by_cases hu : u = t
      · subst hu
        exact (congrArg HandlerState.now? (Function.update_self ..)).trans (hgoto running _ hold)
      · exact (congrArg HandlerState.now? (Function.update_of_ne hu ..)).trans hold

/-- Only the commit of a run changes entitlements. -/
theorem WebhookSystem.Outcome.lookup_entitlement (h : WebhookSystem.Outcome rt s action s') (user : UUID) :
    s'.entitlements.committed.lookup user = s.entitlements.committed.lookup user ∨
      ∃ t draft, action = .advance t ∧ (s.entitlements.drafts t).lookup user = some draft ∧
        s'.entitlements.committed.lookup user = some draft := by
  cases h with
  | @committed t run running response stage =>
    rcases s.entitlements.lookup_commit_cases t user with hsame | ⟨draft, hdraft, hnew⟩
    · exact .inl hsame
    · exact .inr ⟨t, draft, rfl, hdraft, hnew⟩
  | delivered | rolledBack | known | recorded | unmapped | mapped | decided | upserted => exact .inl rfl

end

/-! ## Every run -/

/-- Open versions have the times of their transactions, and both copies of the rates agree. -/
structure Backend.Timely (s : Backend) : Prop where
  sync : SyncTimely s.sync
  webhooks : WebhookTimely s.webhooks
  rates : ∀ key, (s.fxRates.lookup key).map (·.rate) = s.sync.fxRates.lookup key

section

variable {rt : Runtime} {settings : Settings} {s s' : Backend} {action : BackendAction}

theorem Outcome.fxRates_same {s s' : SyncSystem} {action : SyncAction} (h : Outcome rt settings s action s')
    (hne : ∀ quotes rateDate source, action ≠ .upsertRates quotes rateDate source) :
    s'.fxRates = s.fxRates := by
  have hperforms {t : ℕ} {effect : Effect} (performs : Performs s t effect s') : s'.fxRates = s.fxRates := by
    cases performs <;> rfl
  cases h with
  | pushed t clock run running effect steps s' performs => exact hperforms performs
  | swept t clock run running effect steps s' performs => exact hperforms performs
  | nullified t clock run running effect steps s' performs => exact hperforms performs
  | ratesUpserted quotes rateDate source => exact absurd rfl (hne quotes rateDate source)
  | started | aborted | pulled => rfl

/-- A step is one of its component, and rates change in both copies. -/
theorem Backend.step_cases (h : Backend.step rt settings s action = some s') :
    (∃ sync syncAction, action = .sync syncAction ∧ Outcome rt settings s.sync syncAction sync ∧
        s' = { s with sync } ∧ sync.fxRates = s.sync.fxRates) ∨
      (∃ webhooks webhookAction, action = .webhook webhookAction ∧
        WebhookSystem.Outcome rt s.webhooks webhookAction webhooks ∧ s' = { s with webhooks }) ∨
        ∃ quotes rateDate source now, action = .upsertRates quotes rateDate source now ∧ s' = { s with
          sync := { s.sync with fxRates := upsertRates s.sync.fxRates quotes rateDate source }
          fxRates := upsertStoredRates s.fxRates quotes rateDate source now } := by
  cases action with
  | sync action =>
    have hother (hne : ∀ quotes rateDate source, action ≠ .upsertRates quotes rateDate source)
        (hstep : (s.sync.step rt settings action).map (fun sync ↦ { s with sync }) = some s') :
        ∃ sync syncAction, BackendAction.sync action = .sync syncAction ∧
          Outcome rt settings s.sync syncAction sync ∧ s' = { s with sync } ∧
            sync.fxRates = s.sync.fxRates := by
      obtain ⟨sync, hsync, rfl⟩ := Option.map_eq_some_iff.mp hstep
      have houtcome := SyncSystem.step_outcome hsync
      exact ⟨sync, action, rfl, houtcome, rfl, houtcome.fxRates_same hne⟩
    cases action with
    | upsertRates => cases h
    | start | advance | abort | pull => exact .inl (hother (fun _ _ _ heq ↦ by cases heq) h)
  | webhook action =>
    obtain ⟨webhooks, hwebhooks, rfl⟩ := Option.map_eq_some_iff.mp h
    exact .inr (.inl ⟨webhooks, action, rfl, WebhookSystem.step_outcome hwebhooks, rfl⟩)
  | upsertRates quotes rateDate source now =>
    cases h
    exact .inr (.inr ⟨quotes, rateDate, source, now, rfl, rfl⟩)

theorem Backend.Timely.step (h : s.Timely) (hok : s.forgetsUpdatedAt action = false)
    (hstep : Backend.step rt settings s action = some s') : s'.Timely := by
  rcases Backend.step_cases hstep with ⟨sync, syncAction, rfl, houtcome, rfl, hrates⟩ |
    ⟨webhooks, webhookAction, rfl, houtcome, rfl⟩ | ⟨quotes, rateDate, source, now, rfl, rfl⟩
  · refine ⟨houtcome.syncTimely hok h.sync, h.webhooks, fun key ↦ ?_⟩
    rw [hrates]
    exact h.rates key
  · exact ⟨h.sync, houtcome.timely h.webhooks, h.rates⟩
  · exact ⟨⟨h.sync.expenses, h.sync.usage⟩, h.webhooks,
      lookup_upsertStoredRates_rate h.rates quotes rateDate source now⟩

/-- A commit publishes versions of its own time. -/
theorem Backend.Timely.refreshes (h : s.Timely) (hstep : Backend.step rt settings s action = some s') :
    Refreshes s action s' := by
  have hsame {κ ρ : Type} [DecidableEq κ] {before after : Table κ ρ} {key : κ} {old new : ρ}
      (hlookup : after.lookup key = before.lookup key) (hold : before.lookup key = some old)
      (hnew : after.lookup key = some new) : new = old := by
    rw [hlookup, hold] at hnew
    exact (Option.some.inj hnew).symm
  rcases Backend.step_cases hstep with ⟨sync, syncAction, rfl, houtcome, rfl, hrates⟩ |
    ⟨webhooks, webhookAction, rfl, houtcome, rfl⟩ | ⟨quotes, rateDate, source, now, rfl, rfl⟩
  · constructor
    case expenses =>
      intro id old new hold hnew hchanged
      rcases houtcome.commit_or_same with ⟨hexpenses, _⟩ | ⟨t, clock, next, rfl, _, rfl⟩
      · exact absurd (hsame (by rw [hexpenses]) hold hnew) (hchanged old.updatedAt)
      · rcases s.sync.expenses.lookup_commit_cases t id with hlookup | ⟨draft, hdraft, hpublished⟩
        · exact absurd (hsame hlookup hold hnew) (hchanged old.updatedAt)
        · cases hpublished.symm.trans hnew
          exact h.sync.expenses t id _ hdraft
    case usageCounters =>
      intro key old new hold hnew hchanged
      rcases houtcome.commit_or_same with ⟨_, husage⟩ | ⟨t, clock, next, rfl, _, rfl⟩
      · exact absurd (hsame (by rw [husage]) hold hnew) (hchanged old.updatedAt)
      · rcases s.sync.usage.lookup_commit_cases t key with hlookup | ⟨draft, hdraft, hpublished⟩
        · exact absurd (hsame hlookup hold hnew) (hchanged old.updatedAt)
        · cases hpublished.symm.trans hnew
          exact h.sync.usage t key _ hdraft
    case entitlements =>
      intro user old new hold hnew hchanged
      exact absurd (hsame rfl hold hnew) (hchanged old.updatedAt)
    case fxRates =>
      intro key old new hold hnew hchanged
      exact absurd (hsame rfl hold hnew) (hchanged old.updatedAt)
  · constructor
    case entitlements =>
      intro user old new hold hnew hchanged
      rcases houtcome.lookup_entitlement user with hlookup | ⟨t, draft, rfl, hdraft, hpublished⟩
      · exact absurd (hsame hlookup hold hnew) (hchanged old.updatedAt)
      · cases hpublished.symm.trans hnew
        exact h.webhooks t user _ hdraft
    case expenses =>
      intro id old new hold hnew hchanged
      exact absurd (hsame rfl hold hnew) (hchanged old.updatedAt)
    case usageCounters =>
      intro key old new hold hnew hchanged
      exact absurd (hsame rfl hold hnew) (hchanged old.updatedAt)
    case fxRates =>
      intro key old new hold hnew hchanged
      exact absurd (hsame rfl hold hnew) (hchanged old.updatedAt)
  · constructor
    case fxRates =>
      intro key old new hold hnew hchanged
      rcases lookup_upsertStoredRates s.fxRates quotes rateDate source now key with
        hlookup | ⟨row, hrow, htime⟩
      · exact absurd (hsame hlookup hold hnew) (hchanged old.updatedAt)
      · cases hrow.symm.trans hnew
        exact congrArg some htime.symm
    case expenses =>
      intro id old new hold hnew hchanged
      exact absurd (hsame rfl hold hnew) (hchanged old.updatedAt)
    case usageCounters =>
      intro key old new hold hnew hchanged
      exact absurd (hsame rfl hold hnew) (hchanged old.updatedAt)
    case entitlements =>
      intro user old new hold hnew hchanged
      exact absurd (hsame rfl hold hnew) (hchanged old.updatedAt)

theorem timely_ofTables (users : Table UUID User) (devices : Table UUID Device)
    (expenses : Table UUID Expense) (usage : UsageTable) (syncSeq : ℕ) (reader : UUID) (billing : Billing)
    (fxRates : StoredRates) :
    (Backend.ofTables users devices expenses usage syncSeq reader billing fxRates).Timely :=
  have hnone {κ ρ : Type} [DecidableEq κ] {key : κ} {row : ρ} {P : Prop}
      (hdraft : (∅ : Table κ ρ).lookup key = some row) : P := by
    rw [AList.lookup_empty] at hdraft
    cases hdraft
  ⟨⟨fun _ _ _ hdraft ↦ hnone hdraft, fun _ _ _ hdraft ↦ hnone hdraft⟩,
    fun _ _ _ hdraft ↦ hnone hdraft, fun key ↦ (lookup_plainRates fxRates key).symm⟩

/-- In every run no statement of which is an upsert of `push_sync` on a stored row of an older revision
and of another time, every step that changes a row refreshes its `updated_at`. -/
theorem updatedAt_refreshed (rt : Runtime) (settings : Settings) (users : Table UUID User)
    (devices : Table UUID Device) (expenses : Table UUID Expense) (usage : UsageTable) (syncSeq : ℕ)
    (reader : UUID) (billing : Billing) (fxRates : StoredRates) {trace : List (Backend × BackendAction)}
    (hrun : Run (Backend.step rt settings) (fun s action ↦ s.forgetsUpdatedAt action = false)
      (.ofTables users devices expenses usage syncSeq reader billing fxRates) trace s) :
    ∀ before action after, (before, action) ∈ trace →
      Backend.step rt settings before action = some after → Refreshes before action after := by
  intro before action after hmem hstep
  obtain ⟨front, back, htrace⟩ := List.append_of_mem hmem
  have htimely : before.Timely := (hrun.before htrace).1.invariant Backend.Timely
    (timely_ofTables users devices expenses usage syncSeq reader billing fxRates)
    fun _ _ _ htimely hok hstep ↦ htimely.step hok hstep
  exact htimely.refreshes hstep

end

/-! ## Two runs -/

namespace Backend

/-- One user with a device, and nothing else. -/
def sample : Backend :=
  ofTables (AList.singleton ⟨1⟩ ⟨"USD"⟩) (AList.singleton ⟨2⟩ ⟨⟨1⟩⟩) ∅ ∅ 0 ⟨1⟩ ⟨∅, ∅, ∅⟩ ∅

/-- One transaction, begun and taken `steps` statements far. -/
def transaction (t : ℕ) (request : SyncRequest) (steps : ℕ) : List BackendAction :=
  (SyncSystem.transaction t request steps).map .sync

/-- Time and revision of the expense `3`. -/
def stored (s : Backend) : Option (Instant × ℕ) :=
  (s.sync.expenses.committed.lookup ⟨3⟩).map fun row ↦ (row.updatedAt, row.client.clientRev)

end Backend

/-- Pushed at the time 0 and edited at the time 5, an expense still has the time 0. -/
theorem updatedAt_not_refreshed : ¬ ∀ (rt : Runtime) (settings : Settings) (users : Table UUID User)
    (devices : Table UUID Device) (expenses : Table UUID Expense) (usage : UsageTable) (syncSeq : ℕ)
    (reader : UUID) (billing : Billing) (fxRates : StoredRates) (trace : List (Backend × BackendAction))
    (s : Backend), Run (Backend.step rt settings) (fun _ _ ↦ True)
      (.ofTables users devices expenses usage syncSeq reader billing fxRates) trace s →
        ∀ action s', Backend.step rt settings s action = some s' → Refreshes s action s' := by
  intro hrefreshed
  have hfacts : ((exec (Backend.step .ascii sampleSettings) .sample
      (Backend.transaction 0 (.push ⟨1⟩ [sampleExpense 12 1] 0) 7 ++
        Backend.transaction 1 (.push ⟨1⟩ [sampleExpense 12 2] 5) 6)).bind fun before ↦
      (Backend.step .ascii sampleSettings before (.sync (.advance 1 0))).map fun after ↦ (before, after)).map
        (fun states ↦ (states.1.stored, states.2.stored, states.1.now? (.sync (.advance 1 0)))) =
      some (some (0, 1), some (0, 2), some 5) := by
    decide +kernel
  obtain ⟨⟨before, after⟩, hstates, hfacts⟩ := Option.map_eq_some_iff.mp hfacts
  obtain ⟨middle, hexec, hlast⟩ := Option.bind_eq_some_iff.mp hstates
  obtain ⟨final, hstep, heq⟩ := Option.map_eq_some_iff.mp hlast
  cases heq
  simp only [Prod.mk.injEq, Backend.stored, Option.map_eq_some_iff] at hfacts
  obtain ⟨⟨old, hold, _, hrev⟩, ⟨new, hnew, htime, hrev'⟩, hnow⟩ := hfacts
  have hrefreshes := hrefreshed .ascii sampleSettings _ _ _ _ _ _ _ _ _ _ (run_of_exec hexec) _ _ hstep
  have hchanged : ∀ time, new ≠ { old with updatedAt := time } := by
    rintro time rfl
    exact absurd (hrev.symm.trans hrev') (by decide)
  rw [hrefreshes.expenses ⟨3⟩ old new hold hnew hchanged, htime] at hnow
  exact absurd (Option.some.inj hnow) (by decide)

/-- A sweep at the time 7 fills in the base amount of an expense pushed at the time 0. -/
theorem updatedAt_refreshed_sample : ∃ before action after, before.stored = some (0, 1) ∧
    after.stored = some (7, 1) ∧ Refreshes before action after := by
  let guardedStep (s : Backend) (action : BackendAction) : Option Backend :=
    if s.forgetsUpdatedAt action = false then Backend.step .ascii sampleSettings s action else none
  have hfacts : ((exec guardedStep .sample
      (Backend.transaction 0 (.push ⟨1⟩ [sampleExpense 12 1] 0) 7 ++
        Backend.transaction 1 (.sweep none none (fun _ ↦ 0) 7) 3)).bind fun before ↦
      (Backend.step .ascii sampleSettings before (.sync (.advance 1 0))).map fun after ↦ (before, after)).map
        (fun states ↦ (states.1.stored, states.2.stored,
          states.1.forgetsUpdatedAt (.sync (.advance 1 0)))) = some (some (0, 1), some (7, 1), false) := by
    decide +kernel
  obtain ⟨⟨before, after⟩, hstates, hfacts⟩ := Option.map_eq_some_iff.mp hfacts
  obtain ⟨middle, hexec, hlast⟩ := Option.bind_eq_some_iff.mp hstates
  obtain ⟨final, hstep, heq⟩ := Option.map_eq_some_iff.mp hlast
  cases heq
  simp only [Prod.mk.injEq] at hfacts
  obtain ⟨hbefore, hafter, hok⟩ := hfacts
  obtain ⟨trace, hrun⟩ := exists_guarded_append .nil hexec
  exact ⟨before, _, after, hbefore, hafter, updatedAt_refreshed .ascii sampleSettings _ _ _ _ _ _ _ _
    (hrun.snoc hok hstep) before _ after (List.mem_append_right _ List.mem_cons_self) hstep⟩

end VoiceSpend
