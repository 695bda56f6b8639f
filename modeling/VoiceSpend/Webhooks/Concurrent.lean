import VoiceSpend.Library.Machine
import VoiceSpend.Library.ReadCommitted
import VoiceSpend.Webhooks.Handler

/-!
# Concurrent handler runs

Any number of authenticated handler runs, one SQL statement at a time, under READ COMMITTED.
A run that raises, loses its connection or is cancelled is rolled back; a statement that
would wait for another transaction's row is not enabled until that transaction ends.
-/

namespace VoiceSpend

/-- What a handler run does next. -/
inductive HandlerStage
  /-- insert the audit row -/
  | recording
  /-- find the user of `app_user_id` -/
  | mapping
  /-- select the user's entitlement and decide -/
  | reading (user : UUID)
  /-- upsert the user's entitlement -/
  | upserting (user : UUID) (change : EntitlementChange)
  /-- commit and answer -/
  | committing (response : WebhookResponse)
  deriving DecidableEq, Repr

/-- An open transaction of the handler; `now` is the time it began. -/
structure HandlerRun where
  event : RevenueCatEvent
  now : Instant
  stage : HandlerStage
  deriving DecidableEq, Repr

inductive HandlerState
  | idle
  | running (run : HandlerRun)
  | answered (event : RevenueCatEvent) (response : WebhookResponse)
  | failed (event : RevenueCatEvent)
  deriving DecidableEq, Repr

/-- The database and every handler run, keyed by transaction number. -/
structure WebhookSystem where
  users : Table UUID User
  audit : Versioned Text ProcessedWebhookEvent ℕ
  entitlements : Versioned UUID Entitlement ℕ
  runs : ℕ → HandlerState

inductive WebhookAction
  | deliver (t : ℕ) (event : RevenueCatEvent) (now : Instant)
  | advance (t : ℕ)
  | abort (t : ℕ)
  deriving DecidableEq, Repr

namespace WebhookSystem

/-- Committed tables and no handler run. -/
def ofBilling (db : Billing) : WebhookSystem where
  users := db.users
  audit := .ofTable db.processedWebhookEvents
  entitlements := .ofTable db.entitlements
  runs _ := .idle

/-- The committed tables. -/
def billing (s : WebhookSystem) : Billing :=
  ⟨s.users, s.audit.committed, s.entitlements.committed⟩

def setRun (s : WebhookSystem) (t : ℕ) (state : HandlerState) : WebhookSystem :=
  { s with runs := Function.update s.runs t state }

/-- The run goes on with another stage. -/
def goto (s : WebhookSystem) (t : ℕ) (run : HandlerRun) (stage : HandlerStage) : WebhookSystem :=
  s.setRun t (.running { run with stage := stage })

def rollback (s : WebhookSystem) (t : ℕ) (run : HandlerRun) : WebhookSystem where
  users := s.users
  audit := s.audit.abort t
  entitlements := s.entitlements.abort t
  runs := Function.update s.runs t (.failed run.event)

def commit (s : WebhookSystem) (t : ℕ) (run : HandlerRun) (response : WebhookResponse) : WebhookSystem where
  users := s.users
  audit := s.audit.commit t
  entitlements := s.entitlements.commit t
  runs := Function.update s.runs t (.answered run.event response)

@[simp] theorem setRun_runs (s : WebhookSystem) (t : ℕ) (state : HandlerState) :
    (s.setRun t state).runs t = state :=
  Function.update_self ..

@[simp] theorem goto_runs (s : WebhookSystem) (t : ℕ) (run : HandlerRun) (stage : HandlerStage) :
    (s.goto t run stage).runs t = .running { run with stage := stage } :=
  setRun_runs ..

@[simp] theorem rollback_runs (s : WebhookSystem) (t : ℕ) (run : HandlerRun) :
    (s.rollback t run).runs t = .failed run.event :=
  Function.update_self ..

@[simp] theorem commit_runs (s : WebhookSystem) (t : ℕ) (run : HandlerRun) (response : WebhookResponse) :
    (s.commit t run response).runs t = .answered run.event response :=
  Function.update_self ..

/-- Insert the audit row. -/
def record (s : WebhookSystem) (t : ℕ) (run : HandlerRun) (hfree : s.audit.Free t run.event.id) :
    WebhookSystem :=
  { s with audit := s.audit.write t run.event.id ⟨run.event.type, run.now, run.event⟩ hfree }

/-- Upsert the entitlement over the row found under its lock. -/
def upsert (s : WebhookSystem) (t : ℕ) (run : HandlerRun) (user : UUID) (change : EntitlementChange)
    (hfree : s.entitlements.Free t user) : WebhookSystem :=
  { s with entitlements :=
      s.entitlements.write t user (change.upsert (s.entitlements.visible t user) run.now) hfree }

/-- The decision after the entitlement was read, or `none` for an exception. -/
def decision (rt : Runtime) (event : RevenueCatEvent) (user : UUID) (entitlement : Option Entitlement) :
    Option HandlerStage :=
  if isStale entitlement event.eventTimestampMs then some (.committing .ignoredStaleEvent)
  else match eventState.lookup event.type with
    | none => some (.committing .ignoredUnhandledEventType)
    | some (tier, status) => (entitlementChange rt event tier status).map (.upserting user)

/-- One statement of an open run. -/
def statement (rt : Runtime) (s : WebhookSystem) (t : ℕ) (run : HandlerRun) : Option WebhookSystem :=
  match run.stage with
  | .recording =>
    if run.event.textsFit rt = true then
      if hfree : s.audit.Free t run.event.id then
        match s.audit.visible t run.event.id with
        | some _ => some (s.goto t run (.committing .alreadyProcessed))
        | none => some ((s.record t run hfree).goto t run .mapping)
      else none
    else some (s.rollback t run)
  | .mapping =>
    match mappedUser rt s.users run.event with
    | none => some (s.goto t run (.committing .ignoredUnmappedUser))
    | some user => some (s.goto t run (.reading user))
  | .reading user =>
    match decision rt run.event user (s.entitlements.visible t user) with
    | none => some (s.rollback t run)
    | some stage => some (s.goto t run stage)
  | .upserting user change =>
    if hfree : s.entitlements.Free t user then
      some ((s.upsert t run user change hfree).goto t run (.committing .processed))
    else none
  | .committing response => some (s.commit t run response)

def step (rt : Runtime) (s : WebhookSystem) : WebhookAction → Option WebhookSystem
  | .deliver t event now =>
    match s.runs t with
    | .idle => some (s.setRun t (.running ⟨event, now, .recording⟩))
    | _ => none
  | .advance t =>
    match s.runs t with
    | .running run => statement rt s t run
    | _ => none
  | .abort t =>
    match s.runs t with
    | .running run => some (s.rollback t run)
    | _ => none

/-- What the decision after the read commits the run to. -/
theorem decision_cases {rt : Runtime} {event : RevenueCatEvent} {user : UUID}
    {entitlement : Option Entitlement} {next : HandlerStage}
    (h : decision rt event user entitlement = some next) :
    (next = .committing .ignoredStaleEvent ∧ isStale entitlement event.eventTimestampMs = true) ∨
    (next = .committing .ignoredUnhandledEventType ∧ eventState.lookup event.type = none) ∨
    ∃ change, next = .upserting user change ∧ changeOf rt event = some change := by
  unfold decision at h
  split at h
  · rename_i hstale
    cases h
    exact .inl ⟨rfl, hstale⟩
  · cases hstate : eventState.lookup event.type with
    | none =>
      rw [hstate] at h
      exact .inr (.inl ⟨(Option.some.inj h).symm, rfl⟩)
    | some state =>
      rw [hstate] at h
      obtain ⟨change, hchange, rfl⟩ := Option.map_eq_some_iff.mp h
      refine .inr (.inr ⟨change, rfl, ?_⟩)
      rw [changeOf, hstate]
      exact hchange

/-- Everything an action can do to the tables and the runs. -/
inductive Outcome (rt : Runtime) (s : WebhookSystem) : WebhookAction → WebhookSystem → Prop
  | delivered {t : ℕ} {event : RevenueCatEvent} {now : Instant} (idle : s.runs t = .idle) :
      Outcome rt s (.deliver t event now) (s.setRun t (.running ⟨event, now, .recording⟩))
  | rolledBack {t : ℕ} {run : HandlerRun} {action : WebhookAction} (running : s.runs t = .running run) :
      Outcome rt s action (s.rollback t run)
  | known {t : ℕ} {run : HandlerRun} (running : s.runs t = .running run) (stage : run.stage = .recording)
      (row : ProcessedWebhookEvent) (found : s.audit.visible t run.event.id = some row) :
      Outcome rt s (.advance t) (s.goto t run (.committing .alreadyProcessed))
  | recorded {t : ℕ} {run : HandlerRun} (running : s.runs t = .running run) (stage : run.stage = .recording)
      (fits : run.event.textsFit rt = true) (hfree : s.audit.Free t run.event.id)
      (fresh : s.audit.visible t run.event.id = none) :
      Outcome rt s (.advance t) ((s.record t run hfree).goto t run .mapping)
  | unmapped {t : ℕ} {run : HandlerRun} (running : s.runs t = .running run) (stage : run.stage = .mapping)
      (nobody : mappedUser rt s.users run.event = none) :
      Outcome rt s (.advance t) (s.goto t run (.committing .ignoredUnmappedUser))
  | mapped {t : ℕ} {run : HandlerRun} (running : s.runs t = .running run) (stage : run.stage = .mapping)
      (user : UUID) (somebody : mappedUser rt s.users run.event = some user) :
      Outcome rt s (.advance t) (s.goto t run (.reading user))
  | decided {t : ℕ} {run : HandlerRun} (running : s.runs t = .running run) (user : UUID)
      (stage : run.stage = .reading user) (next : HandlerStage)
      (decides : decision rt run.event user (s.entitlements.visible t user) = some next) :
      Outcome rt s (.advance t) (s.goto t run next)
  | upserted {t : ℕ} {run : HandlerRun} (running : s.runs t = .running run) (user : UUID)
      (change : EntitlementChange) (stage : run.stage = .upserting user change)
      (hfree : s.entitlements.Free t user) :
      Outcome rt s (.advance t) ((s.upsert t run user change hfree).goto t run (.committing .processed))
  | committed {t : ℕ} {run : HandlerRun} (running : s.runs t = .running run) (response : WebhookResponse)
      (stage : run.stage = .committing response) :
      Outcome rt s (.advance t) (s.commit t run response)

theorem step_outcome {rt : Runtime} {s s' : WebhookSystem} {action : WebhookAction}
    (h : step rt s action = some s') : Outcome rt s action s' := by
  cases action with
  | deliver t event now =>
    cases hrun : s.runs t with
    | idle =>
      simp only [step, hrun, Option.some.injEq] at h
      subst h
      exact .delivered hrun
    | running | answered | failed => simp [step, hrun] at h
  | abort t =>
    cases hrun : s.runs t with
    | running run =>
      simp only [step, hrun, Option.some.injEq] at h
      subst h
      exact .rolledBack hrun
    | idle | answered | failed => simp [step, hrun] at h
  | advance t =>
    cases hrun : s.runs t with
    | idle | answered | failed => simp [step, hrun] at h
    | running run =>
      simp only [step, hrun, statement] at h
      cases hstage : run.stage with
      | recording =>
        simp only [hstage] at h
        split at h
        · rename_i hfits
          split at h
          · rename_i hfree
            split at h
            · rename_i row hfound
              cases h
              exact .known hrun hstage row hfound
            · rename_i hfresh
              cases h
              exact .recorded hrun hstage hfits hfree hfresh
          · cases h
        · cases h
          exact .rolledBack hrun
      | mapping =>
        simp only [hstage] at h
        cases hmapped : mappedUser rt s.users run.event with
        | none =>
          simp only [hmapped, Option.some.injEq] at h
          subst h
          exact .unmapped hrun hstage hmapped
        | some user =>
          simp only [hmapped, Option.some.injEq] at h
          subst h
          exact .mapped hrun hstage user hmapped
      | reading user =>
        simp only [hstage] at h
        cases hdecision : decision rt run.event user (s.entitlements.visible t user) with
        | none =>
          simp only [hdecision, Option.some.injEq] at h
          subst h
          exact .rolledBack hrun
        | some next =>
          simp only [hdecision, Option.some.injEq] at h
          subst h
          exact .decided hrun user hstage next hdecision
      | upserting user change =>
        simp only [hstage] at h
        split at h
        · rename_i hfree
          cases h
          exact .upserted hrun user change hstage hfree
        · cases h
      | committing response =>
        simp only [hstage, Option.some.injEq] at h
        subst h
        exact .committed hrun response hstage

/-- What a step of run `t` leaves to the others. -/
structure Untouched (s : WebhookSystem) (t : ℕ) (s' : WebhookSystem) : Prop where
  users : s'.users = s.users
  runs : ∀ u, u ≠ t → s'.runs u = s.runs u
  audit : ∀ u, u ≠ t → s'.audit.drafts u = s.audit.drafts u
  entitlements : ∀ u, u ≠ t → s'.entitlements.drafts u = s.entitlements.drafts u
  auditLocked : ∀ u, u ≠ t → ∀ id, id ∈ s.audit.drafts u →
    s'.audit.committed.lookup id = s.audit.committed.lookup id
  entitlementsLocked : ∀ u, u ≠ t → ∀ user, user ∈ s.entitlements.drafts u →
    s'.entitlements.committed.lookup user = s.entitlements.committed.lookup user
  auditReleased : ∀ u, u ≠ t → s.audit.Released u → s'.audit.Released u
  entitlementsReleased : ∀ u, u ≠ t → s.entitlements.Released u → s'.entitlements.Released u

section

variable {t : ℕ}

/-- Another stage, or a new run. -/
theorem untouched_setRun (s : WebhookSystem) (t : ℕ) (state : HandlerState) :
    s.Untouched t (s.setRun t state) :=
  ⟨rfl, fun _ hu ↦ Function.update_of_ne hu .., fun _ _ ↦ rfl, fun _ _ ↦ rfl, fun _ _ _ _ ↦ rfl,
    fun _ _ _ _ ↦ rfl, fun _ _ h ↦ h, fun _ _ h ↦ h⟩

theorem untouched_record (s : WebhookSystem) (run : HandlerRun) (hfree : s.audit.Free t run.event.id)
    (stage : HandlerStage) : s.Untouched t ((s.record t run hfree).goto t run stage) :=
  ⟨rfl, fun _ hu ↦ Function.update_of_ne hu .., fun _ hu ↦ Function.update_of_ne hu .., fun _ _ ↦ rfl,
    fun _ _ _ _ ↦ rfl, fun _ _ _ _ ↦ rfl, fun _ hu h ↦ h.write hu _ hfree, fun _ _ h ↦ h⟩

theorem untouched_upsert (s : WebhookSystem) (run : HandlerRun) (user : UUID)
    (change : EntitlementChange) (hfree : s.entitlements.Free t user) (stage : HandlerStage) :
    s.Untouched t ((s.upsert t run user change hfree).goto t run stage) :=
  ⟨rfl, fun _ hu ↦ Function.update_of_ne hu .., fun _ _ ↦ rfl, fun _ hu ↦ Function.update_of_ne hu ..,
    fun _ _ _ _ ↦ rfl, fun _ _ _ _ ↦ rfl, fun _ _ h ↦ h, fun _ hu h ↦ h.write hu _ hfree⟩

theorem untouched_rollback (s : WebhookSystem) (t : ℕ) (run : HandlerRun) :
    s.Untouched t (s.rollback t run) :=
  ⟨rfl, fun _ hu ↦ Function.update_of_ne hu .., fun _ hu ↦ Function.update_of_ne hu ..,
    fun _ hu ↦ Function.update_of_ne hu .., fun _ _ _ _ ↦ rfl, fun _ _ _ _ ↦ rfl,
    fun _ hu h ↦ h.release hu _, fun _ hu h ↦ h.release hu _⟩

theorem untouched_commit (s : WebhookSystem) (t : ℕ) (run : HandlerRun) (response : WebhookResponse) :
    s.Untouched t (s.commit t run response) :=
  ⟨rfl, fun _ hu ↦ Function.update_of_ne hu .., fun _ hu ↦ Function.update_of_ne hu ..,
    fun _ hu ↦ Function.update_of_ne hu ..,
    fun _ hu _ hmem ↦ s.audit.lookup_commit_of_mem_drafts hu hmem,
    fun _ hu _ hmem ↦ s.entitlements.lookup_commit_of_mem_drafts hu hmem, fun _ hu h ↦ h.release hu _,
    fun _ hu h ↦ h.release hu _⟩

end

end WebhookSystem

end VoiceSpend
