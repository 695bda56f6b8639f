import VoiceSpend.Webhooks.Concurrent

/-!
# A handler run alone is `handleEvent`

`handleEvent` describes one request without concurrent ones; the concurrent system takes the
handler statement by statement. A run during which no other transaction holds a row ends with
the tables and the response that `handleEvent` computes, or rolls back when it raises.
-/

namespace VoiceSpend

open Machine

namespace WebhookSystem

variable {rt : Runtime} {s s' : WebhookSystem} {t : ℕ} {run : HandlerRun} {before : Billing}
  {result : Option (Billing × WebhookResponse)}

/-- Run `t` goes on from here to a result: a commit with its response, or a rollback. -/
def EndsWith (rt : Runtime) (t : ℕ) (before : Billing) (event : RevenueCatEvent) (s : WebhookSystem)
    (result : Option (Billing × WebhookResponse)) : Prop :=
  ∃ s', Repeats (step rt) (.advance t) s s' ∧
    match result with
    | some (after, response) => s'.billing = after ∧ s'.runs t = .answered event response
    | none => s'.billing = before ∧ s'.runs t = .failed event

theorem repeats_of_statement (hrun : s.runs t = .running run) (hstatement : statement rt s t run = some s') :
    Repeats (step rt) (.advance t) s s' := by
  apply Repeats.once
  simp only [step, hrun]
  exact hstatement

/-- One statement, and the rest of the run. -/
theorem EndsWith.after {event : RevenueCatEvent} (h : EndsWith rt t before event s' result)
    (hrun : s.runs t = .running run) (hstatement : statement rt s t run = some s') :
    EndsWith rt t before event s result := by
  obtain ⟨last, hrest, hlast⟩ := h
  exact ⟨last, (repeats_of_statement hrun hstatement).trans hrest, hlast⟩

theorem endsWith_commit (hrun : s.runs t = .running run) {response : WebhookResponse}
    (hstage : run.stage = .committing response) :
    EndsWith rt t before run.event s
      (some (⟨s.users, s.audit.view t, s.entitlements.view t⟩, response)) := by
  refine ⟨s.commit t run response, repeats_of_statement hrun ?_, rfl, commit_runs ..⟩
  simp only [statement, hstage]

theorem endsWith_rollback (hrun : s.runs t = .running run) (hbefore : s.billing = before)
    (hstatement : statement rt s t run = some (s.rollback t run)) :
    EndsWith rt t before run.event s none :=
  ⟨s.rollback t run, repeats_of_statement hrun hstatement, hbefore, rollback_runs ..⟩

/-- The run answers next. -/
theorem endsWith_response (before : Billing) (hrun : s.runs t = .running run) (response : WebhookResponse)
    (hstatement : statement rt s t run = some (s.goto t run (.committing response))) :
    EndsWith rt t before run.event s
      (some (⟨s.users, s.audit.view t, s.entitlements.view t⟩, response)) := by
  let last : HandlerRun := { run with stage := .committing response }
  have hlast : (s.goto t run (.committing response)).runs t = .running last := goto_runs ..
  exact (endsWith_commit hlast rfl).after hrun hstatement

/-- From the upsert on. -/
theorem endsWith_upserting (before : Billing) (hrun : s.runs t = .running run) {user : UUID}
    {change : EntitlementChange} (hstage : run.stage = .upserting user change)
    (hfree : s.entitlements.Free t user) :
    EndsWith rt t before run.event s (some (⟨s.users, s.audit.view t,
      (s.entitlements.view t).insert user (change.upsert (s.entitlements.visible t user) run.now)⟩,
      .processed)) := by
  let last : HandlerRun := { run with stage := .committing .processed }
  have hlast : ((s.upsert t run user change hfree).goto t run (.committing .processed)).runs t =
      .running last := goto_runs ..
  have hstatement : statement rt s t run =
      some ((s.upsert t run user change hfree).goto t run (.committing .processed)) := by
    simp only [statement, hstage, dif_pos hfree]
  rw [← Versioned.view_write _ _ hfree]
  exact (endsWith_commit hlast rfl).after hrun hstatement

/-- From the entitlement's `SELECT` on. -/
theorem endsWith_reading (hrun : s.runs t = .running run) {user : UUID}
    (hstage : run.stage = .reading user) (hbefore : s.billing = before) (hfree : s.entitlements.Free t user) :
    EndsWith rt t before run.event s
      (if isStale (s.entitlements.visible t user) run.event.eventTimestampMs then
        some (⟨s.users, s.audit.view t, s.entitlements.view t⟩, .ignoredStaleEvent)
      else match eventState.lookup run.event.type with
        | none => some (⟨s.users, s.audit.view t, s.entitlements.view t⟩, .ignoredUnhandledEventType)
        | some (tier, status) => (entitlementChange rt run.event tier status).bind fun change ↦
          some (⟨s.users, s.audit.view t, (s.entitlements.view t).insert user
            (change.upsert (s.entitlements.visible t user) run.now)⟩, .processed)) := by
  cases hstale : isStale (s.entitlements.visible t user) run.event.eventTimestampMs with
  | true =>
    apply endsWith_response _ hrun
    simp only [statement, hstage, decision, hstale, if_true]
  | false =>
    simp only [Bool.false_eq_true, if_false]
    cases hstate : eventState.lookup run.event.type with
    | none =>
      apply endsWith_response _ hrun
      simp only [statement, hstage, decision, hstale, hstate, Bool.false_eq_true, if_false]
    | some state =>
      obtain ⟨tier, status⟩ := state
      cases hchange : entitlementChange rt run.event tier status with
      | none =>
        simp only [hchange, Option.bind_none]
        apply endsWith_rollback hrun hbefore
        simp only [statement, hstage, decision, hstale, hstate, hchange, Bool.false_eq_true, if_false,
          Option.map_none]
      | some change =>
        let next : HandlerRun := { run with stage := .upserting user change }
        have hnext : (s.goto t run (.upserting user change)).runs t = .running next := goto_runs ..
        simp only [hchange, Option.bind_some]
        apply (endsWith_upserting before hnext rfl hfree).after hrun
        simp only [statement, hstage, decision, hstale, hstate, hchange, Bool.false_eq_true, if_false,
          Option.map_some]

/-- From the user's `SELECT` on. -/
theorem endsWith_mapping (rt : Runtime) (hrun : s.runs t = .running run) (hstage : run.stage = .mapping)
    (hbefore : s.billing = before) (halone : s.entitlements.Alone t) :
    EndsWith rt t before run.event s
      (match mappedUser rt s.users run.event with
      | none => some (⟨s.users, s.audit.view t, s.entitlements.view t⟩, .ignoredUnmappedUser)
      | some user =>
        if isStale (s.entitlements.visible t user) run.event.eventTimestampMs then
          some (⟨s.users, s.audit.view t, s.entitlements.view t⟩, .ignoredStaleEvent)
        else match eventState.lookup run.event.type with
          | none => some (⟨s.users, s.audit.view t, s.entitlements.view t⟩, .ignoredUnhandledEventType)
          | some (tier, status) => (entitlementChange rt run.event tier status).bind fun change ↦
            some (⟨s.users, s.audit.view t, (s.entitlements.view t).insert user
              (change.upsert (s.entitlements.visible t user) run.now)⟩, .processed)) := by
  cases hmapped : mappedUser rt s.users run.event with
  | none =>
    apply endsWith_response _ hrun
    simp only [statement, hstage, hmapped]
  | some user =>
    let next : HandlerRun := { run with stage := .reading user }
    have hnext : (s.goto t run (.reading user)).runs t = .running next := goto_runs ..
    apply (endsWith_reading hnext rfl hbefore (halone user)).after hrun
    simp only [statement, hstage, hmapped]

/-- A run that no other transaction gets in the way of does what `handleEvent` does. -/
theorem deliver_alone (rt : Runtime) (s : WebhookSystem) (haudit : s.audit.Unheld)
    (hentitlements : s.entitlements.Unheld) (t : ℕ) (event : RevenueCatEvent) (now : Instant) :
    EndsWith rt t s.billing event (s.setRun t (.running ⟨event, now, .recording⟩))
      (handleEvent rt s.billing event now) := by
  let first : HandlerRun := ⟨event, now, .recording⟩
  let s₁ := s.setRun t (.running first)
  have hrun : s₁.runs t = .running first := setRun_runs ..
  have hfree : s₁.audit.Free t event.id := haudit.alone t event.id
  have hauditView : s₁.audit.view t = s.audit.committed := haudit.view t
  have hentitlementsView : s₁.entitlements.view t = s.entitlements.committed := hentitlements.view t
  have hlookup : s.billing.processedWebhookEvents.lookup event.id = s₁.audit.visible t event.id := by
    rw [← Versioned.lookup_view, hauditView]
    rfl
  unfold handleEvent
  by_cases hfits : event.textsFit rt = true
  swap
  · simp only [hfits, guard, if_false, Bool.false_eq_true]
    apply endsWith_rollback hrun rfl
    simp only [statement, first, hfits, if_false, Bool.false_eq_true]
  simp only [hfits, guard, if_true, Option.bind_eq_bind, Option.pure_def, Option.bind_some]
  cases hknown : s₁.audit.visible t event.id with
  | some row =>
    rw [if_pos (by rw [hlookup, hknown]; rfl)]
    have hstatement : statement rt s₁ t first = some (s₁.goto t first (.committing .alreadyProcessed)) := by
      simp only [statement, first, hfits, if_true, dif_pos hfree, hknown]
    have hresponse := endsWith_response s.billing hrun .alreadyProcessed hstatement
    rw [hauditView, hentitlementsView] at hresponse
    exact hresponse
  | none =>
    rw [if_neg (by rw [hlookup, hknown]; exact Bool.false_ne_true)]
    let next : HandlerRun := { first with stage := .mapping }
    let s₂ := (s₁.record t first hfree).goto t first .mapping
    have hnext : s₂.runs t = .running next := setRun_runs ..
    have hstatement : statement rt s₁ t first = some s₂ := by
      simp only [statement, first, hfits, if_true, dif_pos hfree, hknown]
      rfl
    have hrest := (endsWith_mapping rt hnext rfl rfl (hentitlements.alone t)).after hrun hstatement
    have hrecorded : s₂.audit.view t = s.audit.committed.insert event.id ⟨event.type, now, event⟩ := by
      rw [← hauditView]
      exact s₁.audit.view_write _ hfree
    have hview : s₂.entitlements.view t = s.entitlements.committed := hentitlementsView
    simp only [← Versioned.lookup_view, hview, hrecorded] at hrest
    exact hrest

end WebhookSystem

end VoiceSpend
