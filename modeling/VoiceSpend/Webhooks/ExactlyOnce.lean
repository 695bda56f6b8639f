import VoiceSpend.Webhooks.Concurrent

/-!
# Is an event processed exactly once?

The audit row is inserted first and committed with everything else, so its key works as the lock of
the event. `Exclusive` says what the open runs and the committed rows owe each other: a run past its
insert owns an id that no committed row has, and its version of an entitlement is its own change over
the committed row. A run that fails leaves nothing: without it, the same execution has the same
tables and the same answers.
-/

namespace VoiceSpend

open Machine

/-- The run a step belongs to. -/
def WebhookAction.run : WebhookAction → ℕ
  | .deliver t _ _ => t
  | .advance t => t
  | .abort t => t

/-- The run has its audit row inserted. -/
def HandlerStage.recorded : HandlerStage → Bool
  | .recording => false
  | .committing response => decide (response ≠ .alreadyProcessed)
  | .mapping | .reading _ | .upserting _ _ => true

/-- The audit row of a run. -/
def HandlerRun.auditRow (run : HandlerRun) : ProcessedWebhookEvent :=
  ⟨run.event.type, run.now, run.event⟩

namespace WebhookSystem

/-- Run `t` was committed past the duplicate check. -/
def Passed (s : WebhookSystem) (t : ℕ) (event : RevenueCatEvent) : Prop :=
  ∃ response, s.runs t = .answered event response ∧ response ≠ .alreadyProcessed

/-- A committed run: a redelivery changes nothing, any other run adds its audit row, and with it the
change of its entitlement if and only if its answer is `processed`. -/
structure CommitsWhole (rt : Runtime) (users : Table UUID User) (before : WebhookSystem)
    (run : HandlerRun) (response : WebhookResponse) (after : WebhookSystem) : Prop where
  audit : ∀ id, after.audit.committed.lookup id =
    if id = run.event.id ∧ response ≠ .alreadyProcessed then some run.auditRow
    else before.audit.committed.lookup id
  fresh : response ≠ .alreadyProcessed → before.audit.committed.lookup run.event.id = none
  processed : response = .processed → ∃ user change, mappedUser rt users run.event = some user ∧
    changeOf rt run.event = some change ∧ ∀ other, after.entitlements.committed.lookup other =
      if other = user then some (change.upsert (before.entitlements.committed.lookup user) run.now)
      else before.entitlements.committed.lookup other
  unprocessed : response ≠ .processed →
    ∀ user, after.entitlements.committed.lookup user = before.entitlements.committed.lookup user

/-- Webhook processing along a run of the system. -/
structure ExactlyOnce (rt : Runtime) (start : Billing) (trace : List (WebhookSystem × WebhookAction))
    (s : WebhookSystem) : Prop where
  row : ∀ id, Table.countRows (fun key _ ↦ key = id) s.audit.committed ≤ 1
  once : ∀ t u first second, Passed s t first → Passed s u second → first.id = second.id → t = u
  passed : ∀ t event, Passed s t event → start.processedWebhookEvents.lookup event.id = none ∧
    ∃ row, s.audit.committed.lookup event.id = some row ∧ row.rawPayload = event
  kept : ∀ id row, start.processedWebhookEvents.lookup id = some row →
    s.audit.committed.lookup id = some row
  recorded : ∀ id row, s.audit.committed.lookup id = some row →
    start.processedWebhookEvents.lookup id = some row ∨
      ∃ t, Passed s t row.rawPayload ∧ row.rawPayload.id = id
  /-- Every step leaves the committed tables as they are, or commits one run as a whole. -/
  atomic : ∀ before action after, (before, action) ∈ trace → step rt before action = some after →
    after.billing = before.billing ∨ ∃ t run response, action = .advance t ∧
      before.runs t = .running run ∧ after.runs t = .answered run.event response ∧
        CommitsWhole rt start.users before run response after
  /-- The execution without the steps of a failed run. -/
  erased : ∀ t event, s.runs t = .failed event → ∃ shown,
    Run (step rt) (fun _ _ ↦ True) (ofBilling start) shown (s.setRun t .idle) ∧
      shown.map Prod.snd = (trace.map Prod.snd).filter fun action ↦ decide (action.run ≠ t)

/-- What the tables owe run `t`, and the run them. -/
structure RunExclusive (rt : Runtime) (start : Billing) (s : WebhookSystem) (t : ℕ) : Prop where
  audit : ∀ id row, (s.audit.drafts t).lookup id = some row →
    ∃ run, s.runs t = .running run ∧ run.stage.recorded = true ∧ id = run.event.id
  inserted : ∀ run, s.runs t = .running run → run.stage.recorded = true →
    (s.audit.drafts t).lookup run.event.id = some run.auditRow ∧
      s.audit.committed.lookup run.event.id = none
  entitlement : ∀ user row, (s.entitlements.drafts t).lookup user = some row → ∃ run change,
    s.runs t = .running run ∧ run.stage = .committing .processed ∧
      mappedUser rt start.users run.event = some user ∧ changeOf rt run.event = some change ∧
        row = change.upsert (s.entitlements.committed.lookup user) run.now
  upserted : ∀ run, s.runs t = .running run → run.stage = .committing .processed →
    ∃ user row, (s.entitlements.drafts t).lookup user = some row
  mapped : ∀ run user, s.runs t = .running run → run.stage = .reading user →
    mappedUser rt start.users run.event = some user
  planned : ∀ run user change, s.runs t = .running run → run.stage = .upserting user change →
    mappedUser rt start.users run.event = some user ∧ changeOf rt run.event = some change

/-- A run is alone with its event, and a committed row has one run behind it. -/
structure Exclusive (rt : Runtime) (start : Billing) (s : WebhookSystem) : Prop where
  users : s.users = start.users
  runs : ∀ t, RunExclusive rt start s t
  released : ∀ t, (∀ run, s.runs t ≠ .running run) → s.audit.Released t ∧ s.entitlements.Released t
  once : ∀ t u first second, Passed s t first → Passed s u second → first.id = second.id → t = u
  passed : ∀ t event, Passed s t event → start.processedWebhookEvents.lookup event.id = none ∧
    ∃ row, s.audit.committed.lookup event.id = some row ∧ row.rawPayload = event
  kept : ∀ id row, start.processedWebhookEvents.lookup id = some row →
    s.audit.committed.lookup id = some row
  recorded : ∀ id row, s.audit.committed.lookup id = some row →
    start.processedWebhookEvents.lookup id = some row ∨
      ∃ t, Passed s t row.rawPayload ∧ row.rawPayload.id = id

section

variable {rt : Runtime} {start : Billing} {s s' : WebhookSystem} {t : ℕ} {run : HandlerRun}
  {action : WebhookAction}

/-! ## One step and the other runs -/

theorem statement_runs (h : statement rt s t run = some s') :
    ∃ state, s'.runs = Function.update s.runs t state := by
  unfold statement at h
  split at h
  · split at h
    · split at h
      · split at h
        · cases h
          exact ⟨_, rfl⟩
        · cases h
          exact ⟨_, rfl⟩
      · cases h
    · cases h
      exact ⟨_, rfl⟩
  · split at h
    · cases h
      exact ⟨_, rfl⟩
    · cases h
      exact ⟨_, rfl⟩
  · split at h
    · cases h
      exact ⟨_, rfl⟩
    · cases h
      exact ⟨_, rfl⟩
  · split at h
    · cases h
      exact ⟨_, rfl⟩
    · cases h
  · cases h
    exact ⟨_, rfl⟩

/-- A step changes the state of its own run only. -/
theorem step_runs (h : step rt s action = some s') :
    ∃ state, s'.runs = Function.update s.runs action.run state := by
  cases action with
  | deliver t event now =>
    cases hrun : s.runs t with
    | idle =>
      simp only [step, hrun, Option.some.injEq] at h
      subst h
      exact ⟨_, rfl⟩
    | running | answered | failed => simp [step, hrun] at h
  | advance t =>
    cases hrun : s.runs t with
    | running run =>
      simp only [step, hrun] at h
      exact statement_runs h
    | idle | answered | failed => simp [step, hrun] at h
  | abort t =>
    cases hrun : s.runs t with
    | running run =>
      simp only [step, hrun, Option.some.injEq] at h
      subst h
      exact ⟨_, rfl⟩
    | idle | answered | failed => simp [step, hrun] at h

theorem runs_of_ne (h : step rt s action = some s') {u : ℕ} (hu : u ≠ action.run) :
    s'.runs u = s.runs u := by
  obtain ⟨state, hruns⟩ := step_runs h
  rw [hruns, Function.update_of_ne hu]

/-! ## The invariant -/

theorem exclusive_start (rt : Runtime) (start : Billing) : Exclusive rt start (ofBilling start) := by
  refine ⟨rfl, fun t ↦ ⟨?_, ?_, ?_, ?_, ?_, ?_⟩, fun t _ ↦ ⟨⟨nofun, rfl⟩, nofun, rfl⟩, ?_, ?_,
    fun _ _ hrow ↦ hrow, fun _ _ hrow ↦ .inl hrow⟩
  · intro id row hrow
    simp [ofBilling] at hrow
  · intro run hrun
    cases hrun
  · intro user row hrow
    simp [ofBilling] at hrow
  · intro run hrun
    cases hrun
  · intro run user hrun
    cases hrun
  · intro run user change hrun
    cases hrun
  · rintro t u first second ⟨_, hanswered, _⟩
    cases hanswered
  · rintro t event ⟨_, hanswered, _⟩
    cases hanswered

/-- The part of another run only depends on what it has locked. -/
theorem RunExclusive.untouched {u : ℕ} (h : RunExclusive rt start s u) (hstep : s.Untouched t s')
    (hu : u ≠ t) : RunExclusive rt start s' u := by
  have hruns := hstep.runs u hu
  constructor <;> simp only [hruns, hstep.audit u hu, hstep.entitlements u hu]
  case audit => exact h.audit
  case inserted =>
    intro run hrun hrecorded
    obtain ⟨hdraft, hfresh⟩ := h.inserted run hrun hrecorded
    exact ⟨hdraft, (hstep.auditLocked u hu _ (Versioned.mem_drafts_of_lookup hdraft)).trans hfresh⟩
  case entitlement =>
    intro user row hrow
    rw [hstep.entitlementsLocked u hu user (Versioned.mem_drafts_of_lookup hrow)]
    exact h.entitlement user row hrow
  case upserted => exact h.upserted
  case mapped => exact h.mapped
  case planned => exact h.planned

/-- A run that is not open has no versions and no obligations. -/
theorem RunExclusive.of_released (hclosed : ∀ run, s.runs t ≠ .running run)
    (haudit : s.audit.Released t) (hentitlements : s.entitlements.Released t) :
    RunExclusive rt start s t := by
  constructor
  case audit =>
    intro id row hrow
    rw [haudit.2] at hrow
    cases hrow
  case entitlement =>
    intro user row hrow
    rw [hentitlements.2] at hrow
    cases hrow
  case inserted => exact fun run hrun ↦ absurd hrun (hclosed run)
  case upserted => exact fun run hrun ↦ absurd hrun (hclosed run)
  case mapped => exact fun run _ hrun ↦ absurd hrun (hclosed run)
  case planned => exact fun run _ _ hrun ↦ absurd hrun (hclosed run)

/-- What an open run has to keep, without a search for the run. -/
theorem RunExclusive.of_running (hrun : s.runs t = .running run)
    (haudit : ∀ id row, (s.audit.drafts t).lookup id = some row →
      run.stage.recorded = true ∧ id = run.event.id)
    (hinserted : run.stage.recorded = true →
      (s.audit.drafts t).lookup run.event.id = some run.auditRow ∧
      s.audit.committed.lookup run.event.id = none)
    (hentitlement : ∀ user row, (s.entitlements.drafts t).lookup user = some row → ∃ change,
      run.stage = .committing .processed ∧ mappedUser rt start.users run.event = some user ∧
        changeOf rt run.event = some change ∧
          row = change.upsert (s.entitlements.committed.lookup user) run.now)
    (hupserted : run.stage = .committing .processed →
      ∃ user row, (s.entitlements.drafts t).lookup user = some row)
    (hmapped : ∀ user, run.stage = .reading user → mappedUser rt start.users run.event = some user)
    (hplanned : ∀ user change, run.stage = .upserting user change →
      mappedUser rt start.users run.event = some user ∧ changeOf rt run.event = some change) :
    RunExclusive rt start s t := by
  have hsame {other : HandlerRun} (hother : s.runs t = .running other) : run = other := by
    cases hrun.symm.trans hother
    rfl
  constructor
  case audit => exact fun id row hrow ↦ ⟨run, hrun, haudit id row hrow⟩
  case inserted =>
    intro other hother
    cases hsame hother
    exact hinserted
  case entitlement =>
    intro user row hrow
    obtain ⟨change, hrest⟩ := hentitlement user row hrow
    exact ⟨run, change, hrun, hrest⟩
  case upserted =>
    intro other hother
    cases hsame hother
    exact hupserted
  case mapped =>
    intro other user hother
    cases hsame hother
    exact hmapped user
  case planned =>
    intro other user change hother
    cases hsame hother
    exact hplanned user change

/-- A run that has not upserted yet has no version of an entitlement. -/
theorem RunExclusive.no_entitlement (h : RunExclusive rt start s t) (hrun : s.runs t = .running run)
    (hstage : run.stage ≠ .committing .processed) (user : UUID) :
    (s.entitlements.drafts t).lookup user = none := by
  rw [Option.eq_none_iff_forall_ne_some]
  intro row hrow
  obtain ⟨other, _, hother, hprocessed, _⟩ := h.entitlement user row hrow
  cases hrun.symm.trans hother
  exact hstage hprocessed

/-- A run that has not inserted its audit row has no version of one. -/
theorem RunExclusive.no_audit (h : RunExclusive rt start s t) (hrun : s.runs t = .running run)
    (hstage : run.stage.recorded = false) (id : Text) : (s.audit.drafts t).lookup id = none := by
  rw [Option.eq_none_iff_forall_ne_some]
  intro row hrow
  obtain ⟨other, hother, hrecorded, _⟩ := h.audit id row hrow
  cases hrun.symm.trans hother
  rw [hstage] at hrecorded
  cases hrecorded

/-- A step to a stage that changes no table. -/
theorem RunExclusive.goto (h : RunExclusive rt start s t) (hrun : s.runs t = .running run)
    {next : HandlerStage} (hstage : run.stage ≠ .committing .processed)
    (hrecorded : next.recorded = run.stage.recorded) (hnext : next ≠ .committing .processed)
    (hmapped : ∀ user, next = .reading user → mappedUser rt start.users run.event = some user)
    (hplanned : ∀ user change, next = .upserting user change →
      mappedUser rt start.users run.event = some user ∧ changeOf rt run.event = some change) :
    RunExclusive rt start (s.goto t run next) t := by
  refine .of_running (goto_runs ..) (fun id row hrow ↦ ?_) (fun hinserted ↦ ?_)
    (fun user row hrow ↦ ?_) (fun hprocessed ↦ absurd hprocessed hnext) hmapped hplanned
  · obtain ⟨other, hother, hold, hid⟩ := h.audit id row hrow
    cases hrun.symm.trans hother
    exact ⟨hrecorded.trans hold, hid⟩
  · exact h.inserted run hrun (hrecorded.symm.trans hinserted)
  · cases (h.no_entitlement hrun hstage user).symm.trans hrow

theorem RunExclusive.record (h : RunExclusive rt start s t) (hrun : s.runs t = .running run)
    (hstage : run.stage = .recording) (hfree : s.audit.Free t run.event.id)
    (hfresh : s.audit.visible t run.event.id = none) :
    RunExclusive rt start ((s.record t run hfree).goto t run .mapping) t := by
  have hcommitted : s.audit.committed.lookup run.event.id = none := (Option.or_eq_none_iff.mp hfresh).2
  have hlookup (id : Text) := s.audit.lookup_write_drafts run.auditRow hfree t id
  refine .of_running (goto_runs ..) (fun id row hrow ↦ ?_) (fun _ ↦ ?_)
    (fun user row hrow ↦ ?_) nofun nofun fun _ _ heq ↦ nomatch heq
  · have hrow := (hlookup id).symm.trans hrow
    split at hrow
    · rename_i hown
      exact ⟨rfl, hown.2⟩
    · cases (h.no_audit hrun (by rw [hstage]; rfl) id).symm.trans hrow
  · exact ⟨(hlookup run.event.id).trans (if_pos ⟨rfl, rfl⟩), hcommitted⟩
  · cases (h.no_entitlement hrun (by rw [hstage]; nofun) user).symm.trans hrow

theorem RunExclusive.upsert (h : RunExclusive rt start s t) (hrun : s.runs t = .running run)
    {user : UUID} {change : EntitlementChange} (hstage : run.stage = .upserting user change)
    (hfree : s.entitlements.Free t user) :
    RunExclusive rt start ((s.upsert t run user change hfree).goto t run (.committing .processed)) t := by
  have hnone (other : UUID) := h.no_entitlement hrun (by rw [hstage]; nofun) other
  have hvisible := Versioned.visible_of_lookup_drafts (hnone user)
  obtain ⟨hmapped, hchange⟩ := h.planned run user change hrun hstage
  have hlookup (other : UUID) := s.entitlements.lookup_write_drafts
    (change.upsert (s.entitlements.visible t user) run.now) hfree t other
  refine .of_running (goto_runs ..) (fun id row hrow ↦ ?_) (fun _ ↦ ?_)
    (fun other row hrow ↦ ?_) (fun _ ↦ ⟨user, _, (hlookup user).trans (if_pos ⟨rfl, rfl⟩)⟩) nofun
    fun _ _ heq ↦ nomatch heq
  · obtain ⟨other, hother, _, hid⟩ := h.audit id row hrow
    cases hrun.symm.trans hother
    exact ⟨rfl, hid⟩
  · exact h.inserted run hrun (by rw [hstage]; rfl)
  · have hrow := (hlookup other).symm.trans hrow
    split at hrow
    · rename_i hown
      obtain ⟨_, rfl⟩ := hown
      cases hrow
      exact ⟨change, rfl, hmapped, hchange, by rw [hvisible]; rfl⟩
    · cases (hnone other).symm.trans hrow

/-- A step that commits nothing has to be followed in its own run only. -/
theorem Exclusive.of_untouched (h : Exclusive rt start s) (hstep : s.Untouched t s')
    (haudit : s'.audit.committed = s.audit.committed)
    (hbefore : ∀ event response, s.runs t ≠ .answered event response)
    (hafter : ∀ event response, s'.runs t ≠ .answered event response)
    (hown : RunExclusive rt start s' t)
    (hreleased : (∀ run, s'.runs t ≠ .running run) → s'.audit.Released t ∧ s'.entitlements.Released t) :
    Exclusive rt start s' := by
  have hpassed (u : ℕ) (event : RevenueCatEvent) (hu : Passed s' u event) : Passed s u event := by
    obtain ⟨response, hanswered, hnew⟩ := hu
    by_cases hut : u = t
    · rw [hut] at hanswered
      exact absurd hanswered (hafter event response)
    · exact ⟨response, (hstep.runs u hut).symm.trans hanswered, hnew⟩
  have hpassed' (u : ℕ) (event : RevenueCatEvent) (hu : Passed s u event) : Passed s' u event := by
    obtain ⟨response, hanswered, hnew⟩ := hu
    by_cases hut : u = t
    · rw [hut] at hanswered
      exact absurd hanswered (hbefore event response)
    · exact ⟨response, (hstep.runs u hut).trans hanswered, hnew⟩
  constructor
  case users => exact hstep.users.trans h.users
  case runs =>
    intro u
    by_cases hu : u = t
    · rw [hu]
      exact hown
    · exact (h.runs u).untouched hstep hu
  case released =>
    intro u hclosed
    by_cases hu : u = t
    · subst hu
      exact hreleased hclosed
    · rw [hstep.runs u hu] at hclosed
      exact ⟨hstep.auditReleased u hu (h.released u hclosed).1,
        hstep.entitlementsReleased u hu (h.released u hclosed).2⟩
  case once =>
    intro u w first second hfirst hsecond hid
    exact h.once u w first second (hpassed _ _ hfirst) (hpassed _ _ hsecond) hid
  case passed =>
    intro u event hu
    rw [haudit]
    exact h.passed u event (hpassed u event hu)
  case kept =>
    rw [haudit]
    exact h.kept
  case recorded =>
    intro id row hrow
    rw [haudit] at hrow
    exact (h.recorded id row hrow).imp_right fun ⟨u, hu, hid⟩ ↦ ⟨u, hpassed' _ _ hu, hid⟩

/-- A run from its start to its commit is whole. -/
theorem Exclusive.commitsWhole (h : Exclusive rt start s) (hrun : s.runs t = .running run)
    {response : WebhookResponse} (hstage : run.stage = .committing response) :
    CommitsWhole rt start.users s run response (s.commit t run response) := by
  have hown := h.runs t
  have hrecorded : run.stage.recorded = true ↔ response ≠ .alreadyProcessed := by
    rw [hstage]
    exact decide_eq_true_iff
  constructor
  case audit =>
    intro id
    refine (s.audit.lookup_commit t id).trans ?_
    split
    · rename_i hnew
      rw [hnew.1]
      exact Versioned.visible_of_draft (hown.inserted run hrun (hrecorded.mpr hnew.2)).1
    · rename_i hnot
      apply Versioned.visible_of_lookup_drafts
      rw [Option.eq_none_iff_forall_ne_some]
      intro row hrow
      obtain ⟨other, hother, hinserted, hid⟩ := hown.audit id row hrow
      cases hrun.symm.trans hother
      exact hnot ⟨hid, hrecorded.mp hinserted⟩
  case fresh => exact fun hnew ↦ (hown.inserted run hrun (hrecorded.mpr hnew)).2
  case processed =>
    rintro rfl
    obtain ⟨user, row, hdraft⟩ := hown.upserted run hrun hstage
    obtain ⟨other, change, hother, _, hmapped, hchange, rfl⟩ := hown.entitlement user row hdraft
    cases hrun.symm.trans hother
    refine ⟨user, change, hmapped, hchange, fun owner ↦ ?_⟩
    refine (s.entitlements.lookup_commit t owner).trans ?_
    split
    · rename_i howner
      rw [howner]
      exact Versioned.visible_of_draft hdraft
    · rename_i howner
      apply Versioned.visible_of_lookup_drafts
      rw [Option.eq_none_iff_forall_ne_some]
      intro row hrow
      obtain ⟨other, _, hother, _, hmapped', _⟩ := hown.entitlement owner row hrow
      cases hrun.symm.trans hother
      exact howner (Option.some.inj (hmapped'.symm.trans hmapped))
  case unprocessed =>
    intro hnot user
    refine (s.entitlements.lookup_commit t user).trans ?_
    apply Versioned.visible_of_lookup_drafts
    exact hown.no_entitlement hrun
      (by rw [hstage]; exact fun heq ↦ hnot (HandlerStage.committing.inj heq)) user

theorem Exclusive.commit (h : Exclusive rt start s) (hrun : s.runs t = .running run)
    {response : WebhookResponse} (hstage : run.stage = .committing response) :
    Exclusive rt start (s.commit t run response) := by
  have hwhole := h.commitsWhole hrun hstage
  have hstep := untouched_commit s t run response
  have hself : (s.commit t run response).runs t = .answered run.event response :=
    commit_runs ..
  have hclosed (other : HandlerRun) : (s.commit t run response).runs t ≠ .running other := by
    rw [hself]
    nofun
  have hreleased : (s.commit t run response).audit.Released t ∧
      (s.commit t run response).entitlements.Released t :=
    ⟨s.audit.released_release t _, s.entitlements.released_release t _⟩
  -- a run that passes here is this one, or it had passed before
  have hcases (u : ℕ) (event : RevenueCatEvent) (hu : Passed (s.commit t run response) u event) :
      (u = t ∧ event = run.event ∧ response ≠ .alreadyProcessed) ∨ (u ≠ t ∧ Passed s u event) := by
    obtain ⟨answer, hanswered, hnew⟩ := hu
    by_cases hut : u = t
    · rw [hut, hself] at hanswered
      cases hanswered
      exact .inl ⟨hut, rfl, hnew⟩
    · exact .inr ⟨hut, answer, (hstep.runs u hut).symm.trans hanswered, hnew⟩
  have hkept {u : ℕ} {event : RevenueCatEvent} (hu : Passed s u event) :
      Passed (s.commit t run response) u event := by
    obtain ⟨answer, hanswered, hnew⟩ := hu
    by_cases hut : u = t
    · rw [hut, hrun] at hanswered
      cases hanswered
    · exact ⟨answer, (hstep.runs u hut).trans hanswered, hnew⟩
  -- an event that has passed is not this run's, whose id was free
  have hother {u : ℕ} {event : RevenueCatEvent} (hu : Passed s u event)
      (hnew : response ≠ .alreadyProcessed) : event.id ≠ run.event.id := by
    intro heq
    obtain ⟨_, row, hrow, _⟩ := h.passed u event hu
    rw [heq, hwhole.fresh hnew] at hrow
    cases hrow
  constructor
  case users => exact h.users
  case runs =>
    intro u
    by_cases hu : u = t
    · rw [hu]
      exact .of_released hclosed hreleased.1 hreleased.2
    · exact (h.runs u).untouched hstep hu
  case released =>
    intro u hu
    by_cases hut : u = t
    · rw [hut]
      exact hreleased
    · rw [hstep.runs u hut] at hu
      exact ⟨hstep.auditReleased u hut (h.released u hu).1,
        hstep.entitlementsReleased u hut (h.released u hu).2⟩
  case once =>
    intro u w first second hfirst hsecond hid
    rcases hcases u first hfirst with ⟨rfl, rfl, hnew⟩ | ⟨_, hbefore⟩
    · rcases hcases w second hsecond with ⟨rfl, _⟩ | ⟨_, hbefore⟩
      · rfl
      · exact absurd hid.symm (hother hbefore hnew)
    · rcases hcases w second hsecond with ⟨rfl, rfl, hnew⟩ | ⟨_, hbefore'⟩
      · exact absurd hid (hother hbefore hnew)
      · exact h.once u w first second hbefore hbefore' hid
  case passed =>
    intro u event hu
    rw [hwhole.audit]
    rcases hcases u event hu with ⟨rfl, rfl, hnew⟩ | ⟨_, hu⟩
    · rw [if_pos ⟨rfl, hnew⟩]
      refine ⟨?_, run.auditRow, rfl, rfl⟩
      rw [Option.eq_none_iff_forall_ne_some]
      intro row hrow
      cases (h.kept _ row hrow).symm.trans (hwhole.fresh hnew)
    · obtain ⟨hstart, row, hrow, hpayload⟩ := h.passed u event hu
      refine ⟨hstart, row, ?_, hpayload⟩
      rw [if_neg fun hboth ↦ hother hu hboth.2 hboth.1]
      exact hrow
  case kept =>
    intro id row hrow
    rw [hwhole.audit, if_neg, h.kept id row hrow]
    rintro ⟨rfl, hnew⟩
    cases (h.kept _ row hrow).symm.trans (hwhole.fresh hnew)
  case recorded =>
    intro id row hrow
    rw [hwhole.audit] at hrow
    split at hrow
    · rename_i hnew
      cases hrow
      exact .inr ⟨t, ⟨response, hself, hnew.2⟩, hnew.1.symm⟩
    · exact (h.recorded id row hrow).imp_right fun ⟨u, hu, hid⟩ ↦ ⟨u, hkept hu, hid⟩

theorem Exclusive.goto (h : Exclusive rt start s) (hrun : s.runs t = .running run)
    {next : HandlerStage} (hstage : run.stage ≠ .committing .processed)
    (hrecorded : next.recorded = run.stage.recorded) (hnext : next ≠ .committing .processed)
    (hmapped : ∀ user, next = .reading user → mappedUser rt start.users run.event = some user)
    (hplanned : ∀ user change, next = .upserting user change →
      mappedUser rt start.users run.event = some user ∧ changeOf rt run.event = some change) :
    Exclusive rt start (s.goto t run next) := by
  have hself : (s.goto t run next).runs t = .running { run with stage := next } :=
    goto_runs ..
  refine h.of_untouched (untouched_setRun s t _) rfl
    (fun _ _ ↦ by rw [hrun]; nofun) (fun _ _ ↦ by rw [hself]; nofun)
    ((h.runs t).goto hrun hstage hrecorded hnext hmapped hplanned) fun hclosed ↦
      absurd hself (hclosed _)

/-- Every step keeps the invariant. -/
theorem Exclusive.keep (h : Exclusive rt start s) (hstep : step rt s action = some s') :
    Exclusive rt start s' := by
  cases step_outcome hstep with
  | @delivered t event now idle =>
    have hself : (s.setRun t (.running ⟨event, now, .recording⟩)).runs t =
        .running ⟨event, now, .recording⟩ :=
      setRun_runs ..
    have hreleased := h.released t fun run hrun ↦ by
      rw [idle] at hrun
      cases hrun
    refine h.of_untouched (untouched_setRun s t _) rfl (fun _ _ ↦ by rw [idle]; nofun)
      (fun _ _ ↦ by rw [hself]; nofun)
      (.of_running hself (fun id row hrow ↦ ?_) nofun (fun user row hrow ↦ ?_) nofun nofun
        fun _ _ heq ↦ nomatch heq)
      fun hclosed ↦ absurd hself (hclosed _)
    · change (s.audit.drafts t).lookup id = some row at hrow
      rw [hreleased.1.2] at hrow
      cases hrow
    · change (s.entitlements.drafts t).lookup user = some row at hrow
      rw [hreleased.2.2] at hrow
      cases hrow
  | @rolledBack t run _ running =>
    have hself : (s.rollback t run).runs t = .failed run.event := rollback_runs ..
    have hreleased : (s.rollback t run).audit.Released t ∧ (s.rollback t run).entitlements.Released t :=
      ⟨s.audit.released_release t _, s.entitlements.released_release t _⟩
    exact h.of_untouched (untouched_rollback s t run) rfl (fun _ _ ↦ by rw [running]; nofun)
      (fun _ _ ↦ by rw [hself]; nofun)
      (.of_released (fun _ ↦ by rw [hself]; nofun) hreleased.1 hreleased.2) fun _ ↦ hreleased
  | known running stage row found =>
    exact h.goto running (by rw [stage]; nofun) (by rw [stage]; rfl) nofun nofun
      fun _ _ heq ↦ nomatch heq
  | @recorded t run running stage fits hfree fresh =>
    have hself : ((s.record t run hfree).goto t run .mapping).runs t =
        .running { run with stage := .mapping } :=
      goto_runs ..
    exact h.of_untouched (untouched_record s run hfree .mapping) rfl (fun _ _ ↦ by rw [running]; nofun)
      (fun _ _ ↦ by rw [hself]; nofun) ((h.runs t).record running stage hfree fresh)
      fun hclosed ↦ absurd hself (hclosed _)
  | unmapped running stage nobody =>
    exact h.goto running (by rw [stage]; nofun) (by rw [stage]; rfl) nofun nofun
      fun _ _ heq ↦ nomatch heq
  | mapped running stage user somebody =>
    refine h.goto running (by rw [stage]; nofun) (by rw [stage]; rfl) nofun ?_
      fun _ _ heq ↦ nomatch heq
    rintro owner ⟨⟩
    rw [← h.users]
    exact somebody
  | @decided t run running user stage next decides =>
    have hmapped := (h.runs t).mapped run user running stage
    obtain ⟨rfl, _⟩ | ⟨rfl, _⟩ | ⟨change, rfl, hchange⟩ := decision_cases decides
    · exact h.goto running (by rw [stage]; nofun) (by rw [stage]; rfl) nofun nofun
        fun _ _ heq ↦ nomatch heq
    · exact h.goto running (by rw [stage]; nofun) (by rw [stage]; rfl) nofun nofun
        fun _ _ heq ↦ nomatch heq
    · refine h.goto running (by rw [stage]; nofun) (by rw [stage]; rfl) nofun nofun ?_
      rintro owner plan ⟨⟩
      exact ⟨hmapped, hchange⟩
  | @upserted t run running user change stage hfree =>
    have hself : ((s.upsert t run user change hfree).goto t run (.committing .processed)).runs t =
        .running { run with stage := .committing .processed } := goto_runs ..
    exact h.of_untouched (untouched_upsert s run user change hfree _) rfl
      (fun _ _ ↦ by rw [running]; nofun)
      (fun _ _ ↦ by rw [hself]; nofun) ((h.runs t).upsert running stage hfree)
      fun hclosed ↦ absurd hself (hclosed _)
  | committed running response stage => exact h.commit running stage

/-- A step leaves the committed tables as they are, or commits one run as a whole. -/
theorem Exclusive.atomic (h : Exclusive rt start s) (hstep : step rt s action = some s') :
    s'.billing = s.billing ∨ ∃ t run response, action = .advance t ∧ s.runs t = .running run ∧
      s'.runs t = .answered run.event response ∧ CommitsWhole rt start.users s run response s' := by
  cases step_outcome hstep with
  | committed running response stage =>
    exact .inr ⟨_, _, response, rfl, running, commit_runs .., h.commitsWhole running stage⟩
  | delivered | rolledBack | known | recorded | unmapped | mapped | decided | upserted => exact .inl rfl

/-! ## Without a failed run -/

/-- The system as if run `t` had never been delivered. -/
def without (s : WebhookSystem) (t : ℕ) : WebhookSystem where
  users := s.users
  audit := s.audit.abort t
  entitlements := s.entitlements.abort t
  runs := Function.update s.runs t .idle

/-- A closed run has left nothing behind. -/
theorem Exclusive.without_eq (h : Exclusive rt start s) (hclosed : ∀ run, s.runs t ≠ .running run) :
    s.without t = s.setRun t .idle := by
  obtain ⟨haudit, hentitlements⟩ := h.released t hclosed
  unfold without
  rw [haudit.abort_eq, hentitlements.abort_eq]
  rfl

theorem without_setRun {u : ℕ} (hne : u ≠ t) (state : HandlerState) :
    (s.setRun u state).without t = (s.without t).setRun u state := by
  unfold without setRun
  dsimp only
  rw [Function.update_comm hne]

theorem without_setRun_self (s : WebhookSystem) (t : ℕ) (state : HandlerState) :
    (s.setRun t state).without t = s.without t := by
  unfold without setRun
  dsimp only
  rw [Function.update_idem]

theorem without_record {u : ℕ} (hne : u ≠ t) (hfree : s.audit.Free u run.event.id) :
    (s.record u run hfree).without t =
    (s.without t).record u run (Versioned.free_abort hfree t hne) := by
  unfold without record
  dsimp only
  rw [Versioned.abort_write _ hne]

theorem without_upsert {u : ℕ} (hne : u ≠ t) {user : UUID} (change : EntitlementChange)
    (hfree : s.entitlements.Free u user) : (s.upsert u run user change hfree).without t =
      (s.without t).upsert u run user change (Versioned.free_abort hfree t hne) := by
  unfold without upsert
  dsimp only
  rw [Versioned.abort_write _ hne, s.entitlements.visible_abort hne]

theorem without_rollback {u : ℕ} (hne : u ≠ t) :
    (s.rollback u run).without t = (s.without t).rollback u run := by
  unfold without rollback
  dsimp only
  rw [Versioned.abort_abort _ hne, Versioned.abort_abort _ hne, Function.update_comm hne]

theorem without_commit {u : ℕ} (hne : u ≠ t) (response : WebhookResponse) :
    (s.commit u run response).without t = (s.without t).commit u run response := by
  unfold without commit
  dsimp only
  rw [Versioned.abort_commit _ hne, Versioned.abort_commit _ hne, Function.update_comm hne]

/-- A statement of another run does there what it does here. -/
theorem statement_without {u : ℕ} (hne : u ≠ t) (h : statement rt s u run = some s') :
    statement rt (s.without t) u run = some (s'.without t) := by
  have haudit : (s.without t).audit.visible u run.event.id = s.audit.visible u run.event.id :=
    s.audit.visible_abort hne _
  unfold statement at h ⊢
  cases hstage : run.stage with
  | recording =>
    simp only [hstage, haudit] at h ⊢
    by_cases hfits : run.event.textsFit rt = true
    · rw [if_pos hfits] at h ⊢
      by_cases hfree : s.audit.Free u run.event.id
      · have hfree' : (s.without t).audit.Free u run.event.id := Versioned.free_abort hfree t hne
        rw [dif_pos hfree] at h
        rw [dif_pos hfree']
        cases hvisible : s.audit.visible u run.event.id with
        | some row =>
          rw [hvisible] at h
          cases h
          exact congrArg some (without_setRun hne _).symm
        | none =>
          rw [hvisible] at h
          cases h
          refine congrArg some ((without_setRun hne _).trans ?_).symm
          rw [without_record hne hfree]
          rfl
      · rw [dif_neg hfree] at h
        cases h
    · rw [if_neg hfits] at h ⊢
      cases h
      exact congrArg some (without_rollback hne).symm
  | mapping =>
    simp only [hstage] at h ⊢
    have husers : (s.without t).users = s.users := rfl
    rw [husers]
    split at h <;> cases h <;> exact congrArg some (without_setRun hne _).symm
  | reading user =>
    have hentitlements : (s.without t).entitlements.visible u user = s.entitlements.visible u user :=
      s.entitlements.visible_abort hne user
    simp only [hstage, hentitlements] at h ⊢
    split at h <;> cases h
    · exact congrArg some (without_rollback hne).symm
    · exact congrArg some (without_setRun hne _).symm
  | upserting user change =>
    simp only [hstage] at h ⊢
    by_cases hfree : s.entitlements.Free u user
    · have hfree' : (s.without t).entitlements.Free u user := Versioned.free_abort hfree t hne
      rw [dif_pos hfree] at h
      rw [dif_pos hfree']
      cases h
      refine congrArg some ((without_setRun hne _).trans ?_).symm
      rw [without_upsert hne change hfree]
      rfl
    · rw [dif_neg hfree] at h
      cases h
  | committing response =>
    simp only [hstage] at h ⊢
    cases h
    exact congrArg some (without_commit hne response).symm

/-- A step of another run does there what it does here. -/
theorem step_without (hne : action.run ≠ t) (h : step rt s action = some s') :
    step rt (s.without t) action = some (s'.without t) := by
  have hruns : (s.without t).runs action.run = s.runs action.run := Function.update_of_ne hne ..
  cases action with
  | deliver u event now =>
    have hruns : (s.without t).runs u = s.runs u := hruns
    simp only [step, hruns] at h ⊢
    split at h <;> cases h
    exact congrArg some (without_setRun hne _).symm
  | advance u =>
    have hruns : (s.without t).runs u = s.runs u := hruns
    simp only [step, hruns] at h ⊢
    split at h
    · exact statement_without hne h
    · cases h
  | abort u =>
    have hruns : (s.without t).runs u = s.runs u := hruns
    simp only [step, hruns] at h ⊢
    split at h <;> cases h
    exact congrArg some (without_rollback hne).symm

/-- A step of the run itself does not show, unless it commits. -/
theorem without_of_own (hown : action.run = t) (h : step rt s action = some s')
    (hopen : ∀ event response, s'.runs t ≠ .answered event response) : s'.without t = s.without t := by
  -- the run that an outcome is about is the run of the action, as no other state changes
  have hsame {u : ℕ} (hchanged : s'.runs u ≠ s.runs u) : u = t := by
    by_contra hne
    exact hchanged (runs_of_ne h fun heq ↦ hne (heq.trans hown))
  cases step_outcome h with
  | delivered idle =>
    cases hown
    exact without_setRun_self ..
  | @rolledBack u run _ running =>
    have hu : u = t :=
      hsame (by rw [running]; exact fun heq ↦ by cases (rollback_runs ..).symm.trans heq)
    subst hu
    have haudit : (s.audit.abort u).abort u = s.audit.abort u := (s.audit.released_release u _).abort_eq
    have hentitlements : (s.entitlements.abort u).abort u = s.entitlements.abort u :=
      (s.entitlements.released_release u _).abort_eq
    unfold without rollback
    dsimp only
    rw [haudit, hentitlements, Function.update_idem]
  | known | unmapped | mapped | decided =>
    cases hown
    exact without_setRun_self ..
  | @recorded u run running stage fits hfree fresh =>
    cases hown
    refine (without_setRun_self _ u _).trans ?_
    unfold without record
    dsimp only
    rw [Versioned.abort_write_self]
    rfl
  | @upserted u run running user change stage hfree =>
    cases hown
    refine (without_setRun_self _ u _).trans ?_
    unfold without upsert
    dsimp only
    rw [Versioned.abort_write_self]
    rfl
  | committed running response stage =>
    cases hown
    exact absurd (commit_runs ..) (hopen _ _)

/-- An answered run stays answered. -/
theorem answered_stays (h : step rt s action = some s') {event : RevenueCatEvent}
    {response : WebhookResponse} (hanswered : s.runs t = .answered event response) :
    s'.runs t = .answered event response := by
  by_cases hown : t = action.run
  · subst hown
    cases action <;> simp only [WebhookAction.run] at hanswered <;> simp [step, hanswered] at h
  · exact (runs_of_ne h hown).trans hanswered

/-- An execution without the steps of a run that never commits. -/
theorem run_without {trace : List (WebhookSystem × WebhookAction)}
    (hrun : Run (step rt) (fun _ _ ↦ True) (ofBilling start) trace s)
    (hopen : ∀ event response, s.runs t ≠ .answered event response) : ∃ shown,
    Run (step rt) (fun _ _ ↦ True) (ofBilling start) shown (s.without t) ∧
      shown.map Prod.snd = (trace.map Prod.snd).filter fun action ↦ decide (action.run ≠ t) := by
  have hstart : (ofBilling start).without t = ofBilling start := by
    have hclosed (run : HandlerRun) : (ofBilling start).runs t ≠ .running run :=
      fun h ↦ HandlerState.noConfusion h
    have hidle : Function.update (ofBilling start).runs t .idle = (ofBilling start).runs :=
      Function.update_eq_self t (ofBilling start).runs
    rw [(exclusive_start rt start).without_eq hclosed, setRun, hidle]
  have hkept (s : WebhookSystem) (action : WebhookAction) (s' : WebhookSystem)
      (hstep : step rt s action = some s') (hkeep : decide (action.run ≠ t) = true) :
      step rt (s.without t) action = some (s'.without t) :=
    step_without (of_decide_eq_true hkeep) hstep
  have hshown : ∃ shown, Run (step rt) (fun _ _ ↦ True) ((ofBilling start).without t) shown (s.without t) ∧
      shown.map Prod.snd = (trace.map Prod.snd).filter fun action ↦ decide (action.run ≠ t) := by
    refine hrun.project (fun s ↦ s.without t) _
      (fun s ↦ ∀ event response, s.runs t ≠ .answered event response) ?_ ?_ ?_ hopen
    · intro s action s' _ hstep hafter event response hanswered
      exact hafter event response (answered_stays hstep hanswered)
    · intro s action s' _ hstep _ hkeep
      exact ⟨trivial, hkept s action s' hstep hkeep⟩
    · intro s action s' _ hstep hafter hdrop
      exact without_of_own (not_not.mp (of_decide_eq_false hdrop)) hstep hafter
  rw [hstart] at hshown
  exact hshown

/-- Every execution processes each event at most once, as a whole or not at all. -/
theorem webhooks_exactly_once (rt : Runtime) (start : Billing)
    (trace : List (WebhookSystem × WebhookAction)) (s : WebhookSystem)
    (hrun : Run (step rt) (fun _ _ ↦ True) (ofBilling start) trace s) :
    ExactlyOnce rt start trace s := by
  have hexclusive {trace : List (WebhookSystem × WebhookAction)} {s : WebhookSystem}
      (hrun : Run (step rt) (fun _ _ ↦ True) (ofBilling start) trace s) : Exclusive rt start s :=
    hrun.invariant (Exclusive rt start) (exclusive_start rt start) fun _ _ _ h _ hstep ↦ h.keep hstep
  have h := hexclusive hrun
  constructor
  case row => exact fun id ↦ Table.countRows_key_le_one _ id
  case once => exact h.once
  case passed => exact h.passed
  case kept => exact h.kept
  case recorded => exact h.recorded
  case atomic =>
    intro before action after hmem hstep
    obtain ⟨earlier, later, htrace⟩ := List.append_of_mem hmem
    exact (hexclusive (hrun.before htrace).1).atomic hstep
  case erased =>
    intro t event hfailed
    have hshown := run_without (t := t) hrun fun _ _ ↦ by rw [hfailed]; nofun
    rw [h.without_eq fun _ ↦ by rw [hfailed]; nofun] at hshown
    exact hshown

end

/-- The first delivery is lost after its insert, while a second one waits for it; the second is processed
as the first would have been. -/
def lostActions : List WebhookAction :=
  [.deliver 0 (sampleEvent "e1" 1 none) 0, .advance 0, .deliver 1 (sampleEvent "e1" 1 none) 5, .abort 0,
    .advance 1, .advance 1, .advance 1, .advance 1, .advance 1]

theorem webhooks_exactly_once_sample : ∃ trace s, s.runs 0 = .failed (sampleEvent "e1" 1 none) ∧
    s.runs 1 = .answered (sampleEvent "e1" 1 none) .processed ∧
      ExactlyOnce .ascii ⟨sampleUsers, ∅, ∅⟩ trace s := by
  have hexec : (exec (step .ascii) (ofBilling ⟨sampleUsers, ∅, ∅⟩) lostActions).map
      (fun s ↦ (s.runs 0, s.runs 1)) =
        some (.failed (sampleEvent "e1" 1 none), .answered (sampleEvent "e1" 1 none) .processed) := by
    decide
  obtain ⟨s, hs, hruns⟩ := Option.map_eq_some_iff.mp hexec
  obtain ⟨hzero, hone⟩ := Prod.mk.inj hruns
  exact ⟨_, s, hzero, hone, webhooks_exactly_once _ _ _ _ (run_of_exec hs)⟩

end WebhookSystem

end VoiceSpend
