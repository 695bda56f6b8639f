import Mathlib.Data.Int.ConditionallyCompleteOrder
import Mathlib.Order.WithBot
import VoiceSpend.Webhooks.Concurrent

/-!
# Does the watermark survive concurrency?

The handler compares the event with the watermark it read in one statement and overwrites the
row in another. In a run in which no upsert finds a newer row than its event, `Covered` is an
invariant: every committed event of a handled type is covered by the committed watermark, and
an uncommitted version is never older than the row it replaces. `webhooks_ordered` follows.
-/

namespace VoiceSpend

open Machine

/-- The timestamp of the last event that changed the row; `⊥` when there is none. -/
def watermark (row : Option Entitlement) : WithBot ℤ := row.bind (·.lastEventTsMs)

theorem watermark_some {row : Entitlement} {ts : ℤ} (h : row.lastEventTsMs = some ts) :
    watermark (some row) = (ts : WithBot ℤ) := by
  unfold watermark
  rw [Option.bind_some, h]
  rfl

theorem isStale_iff (row : Option Entitlement) (ts : ℤ) :
    isStale row ts = true ↔ (ts : WithBot ℤ) < watermark row := by
  unfold isStale watermark
  cases row.bind (·.lastEventTsMs) with
  | none =>
    simp only [Option.any_none, Bool.false_eq_true, false_iff]
    exact not_lt_bot
  | some last =>
    rw [Option.any_some, decide_eq_true_eq]
    exact WithBot.coe_lt_coe.symm

namespace WebhookSystem

/-- The next statement of the run is an upsert over a row that is newer than its event. -/
def overtaken (s : WebhookSystem) : WebhookAction → Bool
  | .advance t =>
    match s.runs t with
    | .running ⟨event, _, .upserting user _⟩ =>
      isStale (s.entitlements.committed.lookup user) event.eventTimestampMs
    | _ => false
  | _ => false

/-- An event of a handled type for the user whose audit row was committed since the start. -/
def CommittedFor (rt : Runtime) (start : Billing) (s : WebhookSystem) (user : UUID)
    (event : RevenueCatEvent) : Prop :=
  ∃ id row, s.audit.committed.lookup id = some row ∧ row.rawPayload = event ∧
    start.processedWebhookEvents.lookup id = none ∧ handledFor rt start.users user event = true

/-- Along the run the watermark never decreases, and every change of a user's row is made by
an event that is not older than any event committed for the user. -/
structure Ordered (rt : Runtime) (start : Billing) (trace : List (WebhookSystem × WebhookAction))
    (s : WebhookSystem) : Prop where
  monotone : ∀ user, ((trace.map Prod.fst ++ [s]).map fun state ↦
    watermark (state.entitlements.committed.lookup user)).Pairwise (· ≤ ·)
  changes : ∀ before action after, (before, action) ∈ trace → step rt before action = some after →
    ∀ user, (after.entitlements.committed.lookup user).map Entitlement.content ≠
        (before.entitlements.committed.lookup user).map Entitlement.content →
      ∃ t run, action = .advance t ∧ before.runs t = .running run ∧
        ∀ event, CommittedFor rt start before user event →
          event.eventTimestampMs ≤ run.event.eventTimestampMs

/-- What holds between the tables and the open runs. -/
structure Covered (rt : Runtime) (start : Billing) (s : WebhookSystem) : Prop where
  users : s.users = start.users
  committed : ∀ user event, CommittedFor rt start s user event →
    (event.eventTimestampMs : WithBot ℤ) ≤ watermark (s.entitlements.committed.lookup user)
  drafts : ∀ t user row, (s.entitlements.drafts t).lookup user = some row →
    ∃ run, s.runs t = .running run ∧ run.stage = .committing .processed ∧
      row.lastEventTsMs = some run.event.eventTimestampMs ∧
      watermark (s.entitlements.committed.lookup user) ≤ (run.event.eventTimestampMs : WithBot ℤ)
  recorded : ∀ t id row, (s.audit.drafts t).lookup id = some row →
    ∃ run, s.runs t = .running run ∧ row.rawPayload = run.event ∧ run.stage ≠ .recording ∧
      run.stage ≠ .committing .alreadyProcessed
  mapped : ∀ t run user, s.runs t = .running run → run.stage = .reading user →
    mappedUser rt start.users run.event = some user
  planned : ∀ t run user change, s.runs t = .running run → run.stage = .upserting user change →
    mappedUser rt start.users run.event = some user ∧ change.lastEventTsMs = run.event.eventTimestampMs
  finished : ∀ t run response user, s.runs t = .running run → run.stage = .committing response →
    response ≠ .alreadyProcessed → handledFor rt start.users user run.event = true →
      (run.event.eventTimestampMs : WithBot ℤ) ≤ watermark (s.entitlements.visible t user)

/-- What `Covered` says of one run. -/
structure RunCovered (rt : Runtime) (start : Billing) (s : WebhookSystem) (t : ℕ) : Prop where
  drafts : ∀ user row, (s.entitlements.drafts t).lookup user = some row →
    ∃ run, s.runs t = .running run ∧ run.stage = .committing .processed ∧
      row.lastEventTsMs = some run.event.eventTimestampMs ∧
      watermark (s.entitlements.committed.lookup user) ≤ (run.event.eventTimestampMs : WithBot ℤ)
  recorded : ∀ id row, (s.audit.drafts t).lookup id = some row →
    ∃ run, s.runs t = .running run ∧ row.rawPayload = run.event ∧ run.stage ≠ .recording ∧
      run.stage ≠ .committing .alreadyProcessed
  mapped : ∀ run user, s.runs t = .running run → run.stage = .reading user →
    mappedUser rt start.users run.event = some user
  planned : ∀ run user change, s.runs t = .running run → run.stage = .upserting user change →
    mappedUser rt start.users run.event = some user ∧ change.lastEventTsMs = run.event.eventTimestampMs
  finished : ∀ run response user, s.runs t = .running run → run.stage = .committing response →
    response ≠ .alreadyProcessed → handledFor rt start.users user run.event = true →
      (run.event.eventTimestampMs : WithBot ℤ) ≤ watermark (s.entitlements.visible t user)

/-- What a step of run `t` leaves to the other runs: their stages, their versions and the rows
they have a lock on. -/
structure Frame (s : WebhookSystem) (t : ℕ) (s' : WebhookSystem) : Prop where
  users : s'.users = s.users
  runs : ∀ u, u ≠ t → s'.runs u = s.runs u
  drafts : ∀ u, u ≠ t → ∀ user,
    (s'.entitlements.drafts u).lookup user = (s.entitlements.drafts u).lookup user
  locked : ∀ u, u ≠ t → ∀ user, user ∈ s.entitlements.drafts u →
    s'.entitlements.committed.lookup user = s.entitlements.committed.lookup user
  audit : ∀ u, u ≠ t → ∀ id row, (s'.audit.drafts u).lookup id = some row →
    (s.audit.drafts u).lookup id = some row
  rises : ∀ user, watermark (s.entitlements.committed.lookup user) ≤
    watermark (s'.entitlements.committed.lookup user)

section

variable {rt : Runtime} {start : Billing} {s s' : WebhookSystem} {t : ℕ} {run : HandlerRun}
  {action : WebhookAction}

theorem Untouched.frame (h : s.Untouched t s') (hrises : ∀ user,
    watermark (s.entitlements.committed.lookup user) ≤
      watermark (s'.entitlements.committed.lookup user)) : s.Frame t s' where
  users := h.users
  runs := h.runs
  drafts u hu user := by rw [h.entitlements u hu]
  locked := h.entitlementsLocked
  audit u hu id row hrow := by
    rw [h.audit u hu] at hrow
    exact hrow
  rises := hrises

theorem covered_start (rt : Runtime) (start : Billing) : Covered rt start (ofBilling start) := by
  refine ⟨rfl, ?_, ?_, ?_, ?_, ?_, ?_⟩
  · rintro user event ⟨id, row, hrow, _, hstart, _⟩
    rw [show (ofBilling start).audit.committed = start.processedWebhookEvents from rfl, hstart] at hrow
    cases hrow
  · intro t user row hrow
    simp [ofBilling] at hrow
  · intro t id row hrow
    simp [ofBilling] at hrow
  · intro t run user hrun
    cases hrun
  · intro t run user change hrun
    cases hrun
  · intro t run response user hrun
    cases hrun

theorem Covered.runCovered (h : Covered rt start s) (t : ℕ) : RunCovered rt start s t :=
  ⟨h.drafts t, h.recorded t, h.mapped t, h.planned t, h.finished t⟩

/-- The part of another run only depends on what the frame keeps. -/
theorem RunCovered.frame {u : ℕ} (h : RunCovered rt start s u) (hframe : s.Frame t s') (hu : u ≠ t) :
    RunCovered rt start s' u := by
  have hruns := hframe.runs u hu
  refine ⟨fun user row hrow ↦ ?_, fun id row hrow ↦ ?_, fun run user hrun ↦ ?_,
    fun run user change hrun ↦ ?_, fun run response user hrun hcommitting hnew hhandled ↦ ?_⟩
  · rw [hframe.drafts u hu user] at hrow
    rw [hruns, hframe.locked u hu user (Versioned.mem_drafts_of_lookup hrow)]
    exact h.drafts user row hrow
  · rw [hruns]
    exact h.recorded id row (hframe.audit u hu id row hrow)
  · exact h.mapped run user (hruns.symm.trans hrun)
  · exact h.planned run user change (hruns.symm.trans hrun)
  · have hfinished := h.finished run response user (hruns.symm.trans hrun) hcommitting hnew hhandled
    have hdrafts := hframe.drafts u hu user
    cases hdraft : (s.entitlements.drafts u).lookup user with
    | some row =>
      rw [Versioned.visible_of_draft hdraft] at hfinished
      rw [Versioned.visible_of_draft (hdrafts.trans hdraft)]
      exact hfinished
    | none =>
      rw [Versioned.visible_of_lookup_drafts hdraft] at hfinished
      rw [Versioned.visible_of_lookup_drafts (hdrafts.trans hdraft)]
      exact hfinished.trans (hframe.rises user)

/-- A step of run `t` has to be followed in the committed rows and in the run itself only. -/
theorem Covered.of_frame (h : Covered rt start s) (hframe : s.Frame t s')
    (hcommitted : ∀ user event, CommittedFor rt start s' user event →
      (event.eventTimestampMs : WithBot ℤ) ≤ watermark (s'.entitlements.committed.lookup user))
    (hown : RunCovered rt start s' t) : Covered rt start s' := by
  have hrun (u : ℕ) : RunCovered rt start s' u := by
    by_cases hu : u = t
    · rw [hu]
      exact hown
    · exact (h.runCovered u).frame hframe hu
  exact ⟨hframe.users.trans h.users, hcommitted, fun u ↦ (hrun u).drafts, fun u ↦ (hrun u).recorded,
    fun u ↦ (hrun u).mapped, fun u ↦ (hrun u).planned, fun u ↦ (hrun u).finished⟩

/-- A run that is not open has no versions and no obligations. -/
theorem RunCovered.of_closed (hclosed : ∀ run, s.runs t ≠ .running run)
    (hdrafts : ∀ user, (s.entitlements.drafts t).lookup user = none)
    (haudit : ∀ id, (s.audit.drafts t).lookup id = none) : RunCovered rt start s t := by
  refine ⟨fun user row hrow ↦ ?_, fun id row hrow ↦ ?_, fun run _ hrun ↦ ?_, fun run _ _ hrun ↦ ?_,
    fun run _ _ hrun ↦ ?_⟩
  · cases (hdrafts user).symm.trans hrow
  · cases (haudit id).symm.trans hrow
  all_goals exact absurd hrun (hclosed run)

/-- No transaction sees a row older than the committed one. -/
theorem Covered.le_visible (h : Covered rt start s) (t : ℕ) (user : UUID) :
    watermark (s.entitlements.committed.lookup user) ≤ watermark (s.entitlements.visible t user) := by
  cases hdraft : (s.entitlements.drafts t).lookup user with
  | none => rw [Versioned.visible_of_lookup_drafts hdraft]
  | some row =>
    obtain ⟨run, _, _, hts, hle⟩ := h.drafts t user row hdraft
    rw [Versioned.visible_of_draft hdraft, watermark_some hts]
    exact hle

/-- A run that has not upserted yet has no version of an entitlement. -/
theorem Covered.no_draft (h : Covered rt start s) (hrun : s.runs t = .running run)
    (hstage : run.stage ≠ .committing .processed) (user : UUID) :
    (s.entitlements.drafts t).lookup user = none := by
  rw [Option.eq_none_iff_forall_ne_some]
  intro row hrow
  obtain ⟨other, hother, hcommitting, _⟩ := h.drafts t user row hrow
  rw [hrun] at hother
  cases hother
  exact hstage hcommitting

/-- A run that has not inserted its audit row has no version of one. -/
theorem Covered.no_audit (h : Covered rt start s) (hrun : s.runs t = .running run)
    (hstage : run.stage = .recording ∨ run.stage = .committing .alreadyProcessed) (id : Text) :
    (s.audit.drafts t).lookup id = none := by
  rw [Option.eq_none_iff_forall_ne_some]
  intro row hrow
  obtain ⟨other, hother, _, hrecording, hknown⟩ := h.recorded t id row hrow
  rw [hrun] at hother
  cases hother
  exact hstage.elim hrecording hknown

/-- A run before its upsert goes to another stage, possibly with its audit row inserted. -/
theorem Covered.goto (h : Covered rt start s) (hrun : s.runs t = .running run)
    (hstage : run.stage ≠ .committing .processed)
    (audit : Versioned Text ProcessedWebhookEvent ℕ) (hcommitted : audit.committed = s.audit.committed)
    (hdrafts : ∀ u id row, (audit.drafts u).lookup id = some row →
      (s.audit.drafts u).lookup id = some row ∨ u = t ∧ row.rawPayload = run.event)
    {next : HandlerStage} (hnext : next ≠ .recording)
    (hknown : next = .committing .alreadyProcessed → ∀ id, (audit.drafts t).lookup id = none)
    (hmapped : ∀ user, next = .reading user → mappedUser rt start.users run.event = some user)
    (hplanned : ∀ user change, next = .upserting user change →
      mappedUser rt start.users run.event = some user ∧
        change.lastEventTsMs = run.event.eventTimestampMs)
    (hfinished : ∀ response user, next = .committing response → response ≠ .alreadyProcessed →
      handledFor rt start.users user run.event = true →
        (run.event.eventTimestampMs : WithBot ℤ) ≤ watermark (s.entitlements.visible t user)) :
    Covered rt start ({ s with audit := audit }.goto t run next) := by
  have hframe : s.Frame t ({ s with audit := audit }.goto t run next) := by
    refine ⟨rfl, fun u hu ↦ Function.update_of_ne hu .., fun u _ user ↦ rfl, fun u _ user _ ↦ rfl,
      fun u hu id row hrow ↦ ?_, fun user ↦ le_rfl⟩
    exact (hdrafts u id row hrow).resolve_right fun hboth ↦ hu hboth.1
  refine h.of_frame hframe (fun user event hevent ↦ ?_) ⟨fun user row hrow ↦ ?_, fun id row hrow ↦ ?_,
    fun other user hother hreading ↦ ?_, fun other user change hother hupserting ↦ ?_,
    fun other response user hother hcommitting hnew hhandled ↦ ?_⟩
  · apply h.committed user event
    obtain ⟨id, row, hrow, hrest⟩ := hevent
    exact ⟨id, row, by rw [← hcommitted]; exact hrow, hrest⟩
  · cases (h.no_draft hrun hstage user).symm.trans hrow
  · refine ⟨_, goto_runs .., ?_, hnext, fun heq ↦ ?_⟩
    · rcases hdrafts t id row hrow with hold | ⟨_, hpayload⟩
      · obtain ⟨other, hother, hpayload, _⟩ := h.recorded t id row hold
        cases hrun.symm.trans hother
        exact hpayload
      · exact hpayload
    · cases (hknown heq id).symm.trans hrow
  · cases (goto_runs ..).symm.trans hother
    exact hmapped user hreading
  · cases (goto_runs ..).symm.trans hother
    exact hplanned user change hupserting
  · cases (goto_runs ..).symm.trans hother
    exact hfinished response user hcommitting hnew hhandled

/-- The same without a change of any table. -/
theorem Covered.move (h : Covered rt start s) (hrun : s.runs t = .running run)
    (hstage : run.stage ≠ .committing .processed) {next : HandlerStage} (hnext : next ≠ .recording)
    (hknown : next = .committing .alreadyProcessed → ∀ id, (s.audit.drafts t).lookup id = none)
    (hmapped : ∀ user, next = .reading user → mappedUser rt start.users run.event = some user)
    (hplanned : ∀ user change, next = .upserting user change →
      mappedUser rt start.users run.event = some user ∧
        change.lastEventTsMs = run.event.eventTimestampMs)
    (hfinished : ∀ response user, next = .committing response → response ≠ .alreadyProcessed →
      handledFor rt start.users user run.event = true →
        (run.event.eventTimestampMs : WithBot ℤ) ≤ watermark (s.entitlements.visible t user)) :
    Covered rt start (s.goto t run next) :=
  h.goto hrun hstage s.audit rfl (fun _ _ _ hrow ↦ .inl hrow) hnext hknown hmapped hplanned hfinished

/-- An upsert over a row that is not newer. -/
theorem Covered.upsert (h : Covered rt start s) (hrun : s.runs t = .running run) {user : UUID}
    {change : EntitlementChange} (hstage : run.stage = .upserting user change)
    (hfree : s.entitlements.Free t user)
    (hcurrent : watermark (s.entitlements.committed.lookup user) ≤
      (run.event.eventTimestampMs : WithBot ℤ)) :
    Covered rt start ((s.upsert t run user change hfree).goto t run (.committing .processed)) := by
  obtain ⟨hmapped, hts⟩ := h.planned t run user change hrun hstage
  have hnew : (change.upsert (s.entitlements.visible t user) run.now).lastEventTsMs =
      some run.event.eventTimestampMs := by
    rw [EntitlementChange.upsert_lastEventTsMs, hts]
  have hdrafts (u : ℕ) (owner : UUID) := s.entitlements.lookup_write_drafts
    (change.upsert (s.entitlements.visible t user) run.now) hfree u owner
  have hframe := (untouched_upsert s run user change hfree (.committing .processed)).frame
    fun owner ↦ le_rfl
  refine h.of_frame hframe h.committed ⟨fun owner row hrow ↦ ?_, fun id row hrow ↦ ?_,
    fun other owner hother hreading ↦ ?_, fun other owner plan hother hupserting ↦ ?_,
    fun other response owner hother hcommitting hnot hhandled ↦ ?_⟩
  · have hlookup := hrow.symm.trans (hdrafts t owner)
    by_cases howner : owner = user
    · subst howner
      rw [if_pos ⟨rfl, rfl⟩] at hlookup
      cases hlookup
      exact ⟨_, goto_runs .., rfl, hnew, hcurrent⟩
    · rw [if_neg fun hboth ↦ howner hboth.2, h.no_draft hrun (by rw [hstage]; simp)] at hlookup
      cases hlookup
  · obtain ⟨other, hother, hpayload, _⟩ := h.recorded t id row hrow
    cases hrun.symm.trans hother
    exact ⟨_, goto_runs .., hpayload, by simp, by simp⟩
  · cases (goto_runs ..).symm.trans hother
    cases hreading
  · cases (goto_runs ..).symm.trans hother
    cases hupserting
  · cases (goto_runs ..).symm.trans hother
    -- a handled event is for the mapped user only
    have howner : owner = user := by
      rw [handledFor, Bool.and_eq_true, decide_eq_true_eq] at hhandled
      exact Option.some.inj (hhandled.1.symm.trans hmapped)
    have hvisible := Versioned.visible_write s.entitlements
      (change.upsert (s.entitlements.visible t user) run.now) hfree t owner
    rw [if_pos ⟨rfl, howner⟩] at hvisible
    rw [show ((s.upsert t run user change hfree).goto t run _).entitlements.visible t owner = _ from hvisible,
      watermark_some hnew]

/-- Ending a run by rollback. -/
theorem Covered.rollback (h : Covered rt start s) : Covered rt start (s.rollback t run) := by
  have hdrafts (user : UUID) := s.entitlements.lookup_release_drafts t s.entitlements.committed t user
  have haudit (id : Text) := s.audit.lookup_release_drafts t s.audit.committed t id
  have hframe := (untouched_rollback s t run).frame fun user ↦ le_rfl
  refine h.of_frame hframe h.committed (.of_closed (fun other hother ↦ ?_)
    (fun user ↦ (hdrafts user).trans (if_pos rfl)) fun id ↦ (haudit id).trans (if_pos rfl))
  cases (rollback_runs ..).symm.trans hother

/-- Ending a run by commit. -/
theorem Covered.commit (h : Covered rt start s) (hrun : s.runs t = .running run)
    {response : WebhookResponse} (hstage : run.stage = .committing response) :
    Covered rt start (s.commit t run response) := by
  have hlookup (user : UUID) : (s.commit t run response).entitlements.committed.lookup user =
      s.entitlements.visible t user := s.entitlements.lookup_commit t user
  have hdrafts (user : UUID) := s.entitlements.lookup_release_drafts t (s.entitlements.view t) t user
  have haudit (id : Text) := s.audit.lookup_release_drafts t (s.audit.view t) t id
  have hframe := (untouched_commit s t run response).frame fun user ↦ by
    rw [hlookup]
    exact h.le_visible t user
  refine h.of_frame hframe (fun user event hevent ↦ ?_) (.of_closed (fun other hother ↦ ?_)
    (fun user ↦ (hdrafts user).trans (if_pos rfl)) fun id ↦ (haudit id).trans (if_pos rfl))
  · rw [hlookup]
    obtain ⟨id, row, hrow, hpayload, hstart, hhandled⟩ := hevent
    have hvisible := (s.audit.lookup_commit t id).symm.trans hrow
    cases hdraft : (s.audit.drafts t).lookup id with
    | some draft =>
      rw [Versioned.visible_of_draft hdraft] at hvisible
      cases hvisible
      obtain ⟨other, hother, hevent, _, hknown⟩ := h.recorded t id row hdraft
      cases hrun.symm.trans hother
      rw [← hpayload, hevent] at hhandled ⊢
      exact h.finished t run response user hrun hstage (fun heq ↦ hknown (by rw [hstage, heq])) hhandled
    | none =>
      rw [Versioned.visible_of_lookup_drafts hdraft] at hvisible
      calc (event.eventTimestampMs : WithBot ℤ)
          ≤ watermark (s.entitlements.committed.lookup user) :=
            h.committed user event ⟨id, row, hvisible, hpayload, hstart, hhandled⟩
        _ ≤ watermark (s.entitlements.visible t user) := h.le_visible t user
  · cases (commit_runs ..).symm.trans hother

/-- A new run has no versions and no obligations. -/
theorem Covered.deliver (h : Covered rt start s) (hidle : s.runs t = .idle) (event : RevenueCatEvent)
    (now : Instant) : Covered rt start (s.setRun t (.running ⟨event, now, .recording⟩)) := by
  have hframe := (untouched_setRun s t (.running ⟨event, now, .recording⟩)).frame fun user ↦ le_rfl
  refine h.of_frame hframe h.committed ⟨fun user row hrow ↦ ?_, fun id row hrow ↦ ?_,
    fun other user hother hreading ↦ ?_, fun other user change hother hupserting ↦ ?_,
    fun other response user hother hcommitting ↦ ?_⟩
  · obtain ⟨other, hother, _⟩ := h.drafts t user row hrow
    cases hidle.symm.trans hother
  · obtain ⟨other, hother, _⟩ := h.recorded t id row hrow
    cases hidle.symm.trans hother
  · cases (setRun_runs ..).symm.trans hother
    cases hreading
  · cases (setRun_runs ..).symm.trans hother
    cases hupserting
  · cases (setRun_runs ..).symm.trans hother
    cases hcommitting

/-- Every step that does not upsert over a newer row keeps the invariant. -/
theorem Covered.keep (h : Covered rt start s) (hok : s.overtaken action = false)
    (hstep : step rt s action = some s') : Covered rt start s' := by
  cases step_outcome hstep with
  | delivered idle => exact h.deliver idle _ _
  | rolledBack => exact h.rollback
  | known running stage row found =>
    refine h.move running (by rw [stage]; simp) (by simp) (fun _ ↦ h.no_audit running (Or.inl stage))
      ?_ ?_ ?_
    · intro user heq
      cases heq
    · intro user change heq
      cases heq
    · intro response user heq hnew
      cases heq
      exact absurd rfl hnew
  | @recorded t run running stage fits hfree fresh =>
    refine h.goto running (by rw [stage]; simp) (s.record t run hfree).audit rfl (fun u id row hrow ↦ ?_)
      (by simp) ?_ ?_ ?_ ?_
    · have hlookup := hrow.symm.trans (s.audit.lookup_write_drafts _ hfree u id)
      split at hlookup
      · rename_i hboth
        cases hlookup
        exact Or.inr ⟨hboth.1, rfl⟩
      · exact Or.inl hlookup.symm
    · intro heq
      cases heq
    · intro user heq
      cases heq
    · intro user change heq
      cases heq
    · intro response user heq
      cases heq
  | unmapped running stage nobody =>
    refine h.move running (by rw [stage]; simp) (by simp) ?_ ?_ ?_ ?_
    · intro heq
      cases heq
    · intro user heq
      cases heq
    · intro user change heq
      cases heq
    · intro response user _ _ hhandled
      rw [handledFor, ← h.users, nobody] at hhandled
      simp at hhandled
  | mapped running stage user somebody =>
    refine h.move running (by rw [stage]; simp) (by simp) ?_ ?_ ?_ ?_
    · intro heq
      cases heq
    · intro owner heq
      cases heq
      rw [← h.users]
      exact somebody
    · intro owner change heq
      cases heq
    · intro response owner heq
      cases heq
  | @decided t run running user stage next decides =>
    have hmapped := h.mapped t run user running stage
    have hstage : run.stage ≠ .committing .processed := by rw [stage]; simp
    obtain ⟨rfl, hstale⟩ | ⟨rfl, hunhandled⟩ | ⟨change, rfl, hchange⟩ := decision_cases decides
    · refine h.move running hstage (by simp) (by simp) (by simp) (by simp) ?_
      intro response owner _ _ hhandled
      rw [handledFor, Bool.and_eq_true, decide_eq_true_eq, hmapped] at hhandled
      cases hhandled.1
      exact ((isStale_iff _ _).mp hstale).le
    · refine h.move running hstage (by simp) (by simp) (by simp) (by simp) ?_
      intro response owner _ _ hhandled
      simp [handledFor, hunhandled] at hhandled
    · refine h.move running hstage (by simp) (by simp) (by simp) ?_ (by simp)
      intro owner plan heq
      cases heq
      exact ⟨hmapped, (changeOf_fields hchange).2.1⟩
  | @upserted t run running user change stage hfree =>
    refine h.upsert running stage hfree (not_lt.mp fun hlt ↦ ?_)
    have hovertaken : s.overtaken (.advance t) = true := by
      obtain ⟨event, now, _⟩ := run
      subst stage
      simp only [overtaken, running]
      exact (isStale_iff _ _).mpr hlt
    rw [hok] at hovertaken
    cases hovertaken
  | committed running response stage => exact h.commit running stage

/-- A guarded step never lowers a watermark. -/
theorem Covered.watermark_le (h : Covered rt start s) (hstep : step rt s action = some s') (user : UUID) :
    watermark (s.entitlements.committed.lookup user) ≤ watermark (s'.entitlements.committed.lookup user) := by
  cases step_outcome hstep with
  | @committed t run running response stage =>
    rw [show (s.commit t run response).entitlements.committed.lookup user = _ from
      s.entitlements.lookup_commit t user]
    exact h.le_visible t user
  | delivered | rolledBack | known | recorded | unmapped | mapped | decided | upserted => exact le_rfl

/-- A step that changes a user's row commits an event that covers all committed ones. -/
theorem Covered.newest_of_change (h : Covered rt start s) (hstep : step rt s action = some s')
    {user : UUID} (hchange : (s'.entitlements.committed.lookup user).map Entitlement.content ≠
      (s.entitlements.committed.lookup user).map Entitlement.content) :
    ∃ t run, action = .advance t ∧ s.runs t = .running run ∧
      ∀ event, CommittedFor rt start s user event →
        event.eventTimestampMs ≤ run.event.eventTimestampMs := by
  cases step_outcome hstep with
  | @committed t run running response stage =>
    refine ⟨t, run, rfl, running, fun event hevent ↦ ?_⟩
    rw [show (s.commit t run response).entitlements.committed.lookup user = _ from
      s.entitlements.lookup_commit t user] at hchange
    cases hdraft : (s.entitlements.drafts t).lookup user with
    | none => exact absurd (by rw [Versioned.visible_of_lookup_drafts hdraft]) hchange
    | some row =>
      obtain ⟨other, hother, _, _, hle⟩ := h.drafts t user row hdraft
      rw [running] at hother
      cases hother
      apply WithBot.coe_le_coe.mp
      calc (event.eventTimestampMs : WithBot ℤ)
          ≤ watermark (s.entitlements.committed.lookup user) := h.committed user event hevent
        _ ≤ run.event.eventTimestampMs := hle
  | delivered | rolledBack | known | recorded | unmapped | mapped | decided | upserted =>
    exact absurd rfl hchange

end

section

variable (rt : Runtime) (start : Billing) (trace : List (WebhookSystem × WebhookAction)) (s : WebhookSystem)

/-- In every run in which no upsert overtakes a newer row, the watermark never decreases and
no event changes a row that a newer committed event is about. -/
theorem webhooks_ordered
    (hrun : Run (step rt) (fun s action ↦ s.overtaken action = false) (ofBilling start) trace s) :
    Ordered rt start trace s := by
  have hall : Covered rt start s ∧ Ordered rt start trace s := by
    refine hrun.trace_invariant (fun trace s ↦ Covered rt start s ∧ Ordered rt start trace s)
      ⟨covered_start rt start, fun user ↦ by simp, fun _ _ _ h ↦ absurd h List.not_mem_nil⟩ ?_
    rintro trace s action s' ⟨hcovered, hordered⟩ hok hstep
    refine ⟨hcovered.keep hok hstep, fun user ↦ ?_, fun before other after hmem hother user hchange ↦ ?_⟩
    · have hpairs := hordered.monotone user
      have hle := hcovered.watermark_le hstep user
      rw [List.map_append, List.map_singleton, List.map_append, List.map_singleton, List.pairwise_append]
      refine ⟨by simpa using hpairs, List.pairwise_singleton _ _, fun earlier hearlier last hlast ↦ ?_⟩
      rw [List.mem_singleton.mp hlast]
      rw [List.map_append, List.map_singleton, List.pairwise_append] at hpairs
      rw [List.map_append, List.map_singleton, List.mem_append, List.mem_singleton] at hearlier
      rcases hearlier with hearlier | rfl
      · calc earlier
            ≤ watermark (s.entitlements.committed.lookup user) :=
              hpairs.2.2 earlier hearlier _ (List.mem_singleton_self _)
          _ ≤ watermark (s'.entitlements.committed.lookup user) := hle
      · exact hle
    · rcases List.mem_append.mp hmem with hmem | hmem
      · exact hordered.changes before other after hmem hother user hchange
      · cases List.mem_singleton.mp hmem
        exact hcovered.newest_of_change hother hchange
  exact hall.2

end

/-- Both runs read no entitlement; the newer event commits before the older one upserts. -/
def overtakingActions : List WebhookAction :=
  [.deliver 0 (sampleEvent "new" 2 none) 0, .advance 0, .advance 0, .advance 0,
    .deliver 1 (sampleEvent "old" 1 none) 0, .advance 1, .advance 1, .advance 1,
    .advance 0, .advance 0, .advance 1]

/-- The commit of the older event takes the watermark back. -/
theorem webhooks_not_ordered : ¬ ∀ (rt : Runtime) (start : Billing)
    (trace : List (WebhookSystem × WebhookAction)) (s : WebhookSystem),
    Run (step rt) (fun _ _ ↦ True) (ofBilling start) trace s → Ordered rt start trace s := by
  intro hordered
  have hbefore : (exec (step .ascii) (ofBilling ⟨sampleUsers, ∅, ∅⟩) overtakingActions).map
      (fun s ↦ (s.entitlements.committed.lookup ⟨1⟩).bind (·.lastEventTsMs)) = some (some 2) := by
    decide
  have hafter : ((exec (step .ascii) (ofBilling ⟨sampleUsers, ∅, ∅⟩) overtakingActions).bind
      fun s ↦ step .ascii s (.advance 1)).map
      (fun s ↦ (s.entitlements.committed.lookup ⟨1⟩).bind (·.lastEventTsMs)) = some (some 1) := by
    decide
  obtain ⟨before, hexec, htwo⟩ := Option.map_eq_some_iff.mp hbefore
  rw [hexec, Option.bind_some] at hafter
  obtain ⟨after, hstep, hone⟩ := Option.map_eq_some_iff.mp hafter
  have hrun := run_of_exec hexec
  have hmonotone := (hordered .ascii _ _ _ (hrun.snoc trivial hstep)).monotone ⟨1⟩
  rw [List.map_append, List.map_append, List.pairwise_append] at hmonotone
  have hle := hmonotone.2.2 (watermark (before.entitlements.committed.lookup ⟨1⟩)) (by simp)
    (watermark (after.entitlements.committed.lookup ⟨1⟩)) (by simp)
  rw [watermark, watermark, htwo, hone] at hle
  exact absurd (WithBot.coe_le_coe.mp hle) (by decide)

/-- The same two runs with the older event read after the commit of the newer one. -/
theorem webhooks_ordered_sample : ∃ trace s,
    (s.entitlements.committed.lookup ⟨1⟩).bind (·.lastEventTsMs) = some 2 ∧
      Ordered .ascii ⟨sampleUsers, ∅, ∅⟩ trace s := by
  let actions : List WebhookAction :=
    [.deliver 0 (sampleEvent "new" 2 none) 0, .advance 0, .advance 0, .advance 0,
      .deliver 1 (sampleEvent "old" 1 none) 0, .advance 1, .advance 1,
      .advance 0, .advance 0, .advance 1, .advance 1]
  have hexec : (exec (fun s action ↦ if s.overtaken action = false then step .ascii s action else none)
      (ofBilling ⟨sampleUsers, ∅, ∅⟩) actions).map
      (fun s ↦ (s.entitlements.committed.lookup ⟨1⟩).bind (·.lastEventTsMs)) = some (some 2) := by
    decide
  obtain ⟨s, hs, htwo⟩ := Option.map_eq_some_iff.mp hexec
  obtain ⟨trace, hrun⟩ := exists_guarded_append .nil hs
  exact ⟨trace, s, htwo, webhooks_ordered .ascii ⟨sampleUsers, ∅, ∅⟩ trace s hrun⟩

end WebhookSystem

end VoiceSpend
