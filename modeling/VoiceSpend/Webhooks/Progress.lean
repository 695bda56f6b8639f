import Mathlib.Algebra.Order.BigOperators.Group.Finset
import VoiceSpend.Library.Locking
import VoiceSpend.Webhooks.ExactlyOnce

/-!
# Every delivery is answered

A handler run takes at most five statements. It locks the audit key of its event first and the entitlement of
one user last, so no runs wait for each other in a circle, whatever events they handle. Every reached state can
be left by the statements of its open runs alone; each of them is then answered, with its event in the audit
table, unless the event is one that the handler raises on.
-/

namespace VoiceSpend

open Machine

/-- The handler raises on the event: a text does not fit, or the change of a handled type does not. -/
def RevenueCatEvent.Refused (rt : Runtime) (event : RevenueCatEvent) : Prop :=
  event.textsFit rt = false ∨ (eventState.lookup event.type).isSome = true ∧ changeOf rt event = none

/-- How many statements a run has left at most. -/
def HandlerStage.work : HandlerStage → ℕ
  | .recording => 5
  | .mapping => 4
  | .reading _ => 3
  | .upserting _ _ => 2
  | .committing _ => 1

def HandlerState.work : HandlerState → ℕ
  | .idle => 5
  | .running run => run.stage.work
  | .answered .. | .failed _ => 0

/-- The event of an open run. -/
def HandlerState.openEvent : HandlerState → Option RevenueCatEvent
  | .running run => some run.event
  | .idle | .answered .. | .failed _ => none

/-- What becomes of a run by its own statements. -/
inductive HandlerState.Ahead (rt : Runtime) : HandlerState → HandlerState → Prop
  | same (state : HandlerState) : Ahead rt state state
  | further (run : HandlerRun) (stage : HandlerStage) : Ahead rt (.running run) (.running { run with stage })
  | answered (run : HandlerRun) (response : WebhookResponse) :
      Ahead rt (.running run) (.answered run.event response)
  | failed (run : HandlerRun) (refused : run.event.Refused rt) : Ahead rt (.running run) (.failed run.event)

theorem HandlerState.Ahead.trans {rt : Runtime} {first second third : HandlerState}
    (h : first.Ahead rt second)
    (h' : second.Ahead rt third) : first.Ahead rt third := by
  cases h with
  | same => exact h'
  | further run stage =>
    cases h' with
    | same => exact .further run stage
    | further _ next => exact .further run next
    | answered _ response => exact .answered run response
    | failed _ refused => exact .failed run refused
  | answered run response =>
    cases h'
    exact .answered run response
  | failed run refused =>
    cases h'
    exact .failed run refused

namespace WebhookSystem

/-- The audit keys and the entitlements that a run has locked. -/
def Holds (s : WebhookSystem) (t : ℕ) : Text ⊕ UUID → Prop
  | .inl id => s.audit.holder id = some t
  | .inr user => s.entitlements.holder user = some t

/-- The lock that the next statement of a run waits for. -/
def Wants (rt : Runtime) (s : WebhookSystem) (t : ℕ) : Text ⊕ UUID → Prop
  | .inl id => ∃ run, s.runs t = .running run ∧ run.stage = .recording ∧ run.event.textsFit rt = true ∧
      run.event.id = id ∧ ¬ s.audit.Free t id
  | .inr user => ∃ run change, s.runs t = .running run ∧ run.stage = .upserting user change ∧
      ¬ s.entitlements.Free t user

/-- Audit keys come before entitlements. -/
def lockOrder : Text ⊕ UUID → ℕ
  | .inl _ => 0
  | .inr _ => 1

/-- A run holds no lock before its first statement, and no entitlement before its upsert. -/
structure LocksInOrder (s : WebhookSystem) (t : ℕ) : Prop where
  audit : ∀ id, s.audit.holder id = some t → ∃ run, s.runs t = .running run ∧ run.stage ≠ .recording
  entitlement : ∀ user, s.entitlements.holder user = some t →
    ∃ run, s.runs t = .running run ∧ run.stage = .committing .processed

/-- The statements that a run has taken. -/
def statementsTaken (trace : List (WebhookSystem × WebhookAction)) (t : ℕ) : ℕ :=
  trace.countP fun entry ↦ decide (entry.2 = .advance t)

/-- An answered delivery has its event in the audit table. -/
structure Audited (s : WebhookSystem) (t : ℕ) : Prop where
  answered : ∀ event response, s.runs t = .answered event response →
    (s.audit.committed.lookup event.id).isSome = true
  known : ∀ run, s.runs t = .running run → run.stage = .committing .alreadyProcessed →
    (s.audit.committed.lookup run.event.id).isSome = true

section

variable {rt : Runtime} {start : Billing} {s s' : WebhookSystem} {t : ℕ} {run : HandlerRun}
  {action : WebhookAction} {trace : List (WebhookSystem × WebhookAction)}

/-! ## Locks -/

/-- What holds of an open run, without a search for the run. -/
theorem LocksInOrder.of_running (hrun : s.runs t = .running run)
    (haudit : ∀ id, s.audit.holder id = some t → run.stage ≠ .recording)
    (hentitlement : ∀ user, s.entitlements.holder user = some t → run.stage = .committing .processed) :
    LocksInOrder s t :=
  ⟨fun id hid ↦ ⟨run, hrun, haudit id hid⟩, fun user huser ↦ ⟨run, hrun, hentitlement user huser⟩⟩

/-- A run that is not open, or has not begun, holds nothing. -/
theorem LocksInOrder.unlocked (h : LocksInOrder s t)
    (hrun : ∀ run, s.runs t = .running run → run.stage = .recording) (id : Text) :
    s.audit.holder id ≠ some t := by
  intro hid
  obtain ⟨run, hrunning, hstage⟩ := h.audit id hid
  exact hstage (hrun run hrunning)

theorem LocksInOrder.no_entitlement (h : LocksInOrder s t)
    (hrun : ∀ run, s.runs t = .running run → run.stage ≠ .committing .processed) (user : UUID) :
    s.entitlements.holder user ≠ some t := by
  intro huser
  obtain ⟨run, hrunning, hstage⟩ := h.entitlement user huser
  exact hrun run hrunning hstage

/-- A run that goes on to a stage between its first and its last lock. -/
theorem LocksInOrder.goto (h : LocksInOrder s t) (hrun : s.runs t = .running run) {next : HandlerStage}
    (hstage : run.stage ≠ .committing .processed) (hnext : next ≠ .recording) :
    LocksInOrder (s.goto t run next) t := by
  refine .of_running (goto_runs ..) (fun _ _ ↦ hnext) fun user huser ↦ ?_
  refine absurd huser (h.no_entitlement (fun other hother ↦ ?_) user)
  cases hrun.symm.trans hother
  exact hstage

theorem LocksInOrder.released (haudit : s.audit.Released t) (hentitlements : s.entitlements.Released t) :
    LocksInOrder s t :=
  ⟨fun id hid ↦ absurd hid (haudit.1 id), fun user huser ↦ absurd huser (hentitlements.1 user)⟩

/-- A step of one run leaves the locks of another. -/
theorem LocksInOrder.of_ne {u : ℕ} (h : LocksInOrder s u) (hruns : s'.runs u = s.runs u)
    (haudit : ∀ id, s'.audit.holder id = some u → s.audit.holder id = some u)
    (hentitlements : ∀ user, s'.entitlements.holder user = some u → s.entitlements.holder user = some u) :
    LocksInOrder s' u := by
  constructor
  · intro id hid
    rw [hruns]
    exact h.audit id (haudit id hid)
  · intro user huser
    rw [hruns]
    exact h.entitlement user (hentitlements user huser)

theorem locksInOrder_step (h : ∀ t, LocksInOrder s t) (hstep : step rt s action = some s') (u : ℕ) :
    LocksInOrder s' u := by
  have hother (hu : u ≠ action.run) := runs_of_ne hstep hu
  cases step_outcome hstep with
  | @delivered t event now idle =>
    by_cases hu : u = t
    · subst hu
      refine .of_running (setRun_runs ..) (fun id hid ↦ ?_) fun user huser ↦ ?_
      · refine absurd hid ((h u).unlocked (fun run hrun ↦ ?_) id)
        cases idle.symm.trans hrun
      · refine absurd huser ((h u).no_entitlement (fun run hrun ↦ ?_) user)
        cases idle.symm.trans hrun
    · exact (h u).of_ne (hother hu) (fun _ hid ↦ hid) fun _ huser ↦ huser
  | @rolledBack t run _ running =>
    by_cases hu : u = t
    · subst hu
      exact .released (s.audit.released_release u _) (s.entitlements.released_release u _)
    · exact (h u).of_ne (Function.update_of_ne hu ..)
        (fun id hid ↦ ((s.audit.holder_release_eq_iff t _ u id).mp hid).2)
        fun user huser ↦ ((s.entitlements.holder_release_eq_iff t _ u user).mp huser).2
  | @known t run running stage | @unmapped t run running stage =>
    by_cases hu : u = t
    · subst hu
      exact (h u).goto running (by rw [stage]; simp) (by simp)
    · exact (h u).of_ne (hother hu) (fun _ hid ↦ hid) fun _ huser ↦ huser
  | @mapped t run running stage user =>
    by_cases hu : u = t
    · subst hu
      exact (h u).goto running (by rw [stage]; simp) (by simp)
    · exact (h u).of_ne (hother hu) (fun _ hid ↦ hid) fun _ huser ↦ huser
  | @decided t run running user stage next decides =>
    by_cases hu : u = t
    · subst hu
      refine (h u).goto running (by rw [stage]; simp) ?_
      obtain ⟨rfl, _⟩ | ⟨rfl, _⟩ | ⟨change, rfl, _⟩ := decision_cases decides <;> simp
    · exact (h u).of_ne (hother hu) (fun _ hid ↦ hid) fun _ huser ↦ huser
  | @recorded t run running stage fits hfree fresh =>
    by_cases hu : u = t
    · subst hu
      refine .of_running (goto_runs ..) (fun _ _ ↦ by simp) fun user huser ↦ ?_
      refine absurd huser ((h u).no_entitlement (fun other hrun ↦ ?_) user)
      cases running.symm.trans hrun
      rw [stage]
      simp
    · refine (h u).of_ne (hother hu) (fun id hid ↦ ?_) fun _ huser ↦ huser
      exact ((s.audit.holder_write_eq_iff _ hfree u id).mp hid).resolve_left fun hown ↦ hu hown.1
  | @upserted t run running user change stage hfree =>
    by_cases hu : u = t
    · subst hu
      exact .of_running (goto_runs ..) (fun _ _ ↦ by simp) fun _ _ ↦ rfl
    · refine (h u).of_ne (hother hu) (fun _ hid ↦ hid) fun other huser ↦ ?_
      exact ((s.entitlements.holder_write_eq_iff _ hfree u other).mp huser).resolve_left fun hown ↦ hu hown.1
  | @committed t run running response stage =>
    by_cases hu : u = t
    · subst hu
      exact .released (s.audit.released_release u _) (s.entitlements.released_release u _)
    · exact (h u).of_ne (hother hu) (fun id hid ↦ ((s.audit.holder_release_eq_iff t _ u id).mp hid).2)
        fun user huser ↦ ((s.entitlements.holder_release_eq_iff t _ u user).mp huser).2

/-- A run wants only locks that rank above the ones it holds. -/
theorem LocksInOrder.lockOrder_lt (h : LocksInOrder s t) {held wanted : Text ⊕ UUID} (hholds : s.Holds t held)
    (hwants : s.Wants rt t wanted) : lockOrder held < lockOrder wanted := by
  cases wanted with
  | inl id =>
    obtain ⟨run, hrun, hstage, _⟩ := hwants
    cases held with
    | inl other =>
      obtain ⟨other, hother, hnot⟩ := h.audit other hholds
      cases hrun.symm.trans hother
      exact absurd hstage hnot
    | inr user =>
      obtain ⟨other, hother, hcommitting⟩ := h.entitlement user hholds
      cases hrun.symm.trans hother
      cases hstage.symm.trans hcommitting
  | inr user =>
    obtain ⟨run, change, hrun, hstage, _⟩ := hwants
    cases held with
    | inl id => exact Nat.zero_lt_one
    | inr other =>
      obtain ⟨other, hother, hcommitting⟩ := h.entitlement other hholds
      cases hrun.symm.trans hother
      cases hstage.symm.trans hcommitting

/-! ## A run that can go on -/

/-- A run that waits for no lock takes its next statement: it has less work left, and fails only on an event
that the handler raises on. -/
theorem exists_advance (rt : Runtime) (hrun : s.runs t = .running run)
    (hunblocked : ∀ key, ¬ s.Wants rt t key) :
    ∃ s', step rt s (.advance t) = some s' ∧ (s'.runs t).work < run.stage.work ∧
      HandlerState.Ahead rt (.running run) (s'.runs t) := by
  have hgoto (next : HandlerStage) (s' : WebhookSystem)
    (hs' : s'.runs t = .running { run with stage := next })
      (hless : next.work < run.stage.work) :
      (s'.runs t).work < run.stage.work ∧ HandlerState.Ahead rt (.running run) (s'.runs t) := by
    rw [hs']
    exact ⟨hless, .further run next⟩
  have hfailed (hrefused : run.event.Refused rt) (hopen : 0 < run.stage.work) :
      ((s.rollback t run).runs t).work < run.stage.work ∧
        HandlerState.Ahead rt (.running run) ((s.rollback t run).runs t) := by
    rw [rollback_runs]
    exact ⟨hopen, .failed run hrefused⟩
  simp only [step, hrun, statement]
  cases hstage : run.stage with
  | recording =>
    rw [hstage] at hgoto hfailed
    dsimp only
    by_cases hfits : run.event.textsFit rt = true
    · have hfree : s.audit.Free t run.event.id := by
        by_contra hheld
        exact hunblocked (.inl run.event.id) ⟨run, hrun, hstage, hfits, rfl, hheld⟩
      rw [if_pos hfits, dif_pos hfree]
      cases s.audit.visible t run.event.id with
      | some row => exact ⟨_, rfl, hgoto _ _ (goto_runs ..) (by decide)⟩
      | none => exact ⟨_, rfl, hgoto _ _ (goto_runs ..) (by decide)⟩
    · rw [if_neg hfits]
      exact ⟨_, rfl, hfailed (.inl (Bool.not_eq_true _ ▸ hfits)) (by decide)⟩
  | mapping =>
    rw [hstage] at hgoto
    cases mappedUser rt s.users run.event with
    | none => exact ⟨_, rfl, hgoto _ _ (goto_runs ..) (by decide)⟩
    | some user => exact ⟨_, rfl, hgoto (.reading user) _ (goto_runs ..) (Nat.lt_succ_self 3)⟩
  | reading user =>
    rw [hstage] at hgoto hfailed
    dsimp only
    cases hdecision : decision rt run.event user (s.entitlements.visible t user) with
    | some next =>
      refine ⟨_, rfl, hgoto next _ (goto_runs ..) ?_⟩
      obtain ⟨rfl, _⟩ | ⟨rfl, _⟩ | ⟨change, rfl, _⟩ := decision_cases hdecision <;> simp [HandlerStage.work]
    | none =>
      refine ⟨_, rfl, hfailed (.inr ?_) (Nat.succ_pos 2)⟩
      unfold decision at hdecision
      split at hdecision
      · cases hdecision
      · cases hstate : eventState.lookup run.event.type with
        | none =>
          rw [hstate] at hdecision
          cases hdecision
        | some state =>
          rw [hstate] at hdecision
          refine ⟨rfl, ?_⟩
          rw [changeOf, hstate]
          exact Option.map_eq_none_iff.mp hdecision
  | upserting user change =>
    rw [hstage] at hgoto
    have hfree : s.entitlements.Free t user := by
      by_contra hheld
      exact hunblocked (.inr user) ⟨run, change, hrun, hstage, hheld⟩
    dsimp only
    rw [dif_pos hfree]
    exact ⟨_, rfl, hgoto _ _ (goto_runs ..) (Nat.lt_succ_self 1)⟩
  | committing response =>
    refine ⟨_, rfl, ?_⟩
    rw [commit_runs]
    exact ⟨Nat.zero_lt_one, .answered run response⟩

/-- Every lock that is waited for is held by an open run, and one open run waits for none. -/
theorem exists_unblocked_run {opened : Finset ℕ} (hlocks : ∀ t, LocksInOrder s t)
    (hopened : ∀ t run, s.runs t = .running run → t ∈ opened) (hrunning : ∃ t run, s.runs t = .running run) :
    ∃ t run, s.runs t = .running run ∧ ∀ key, ¬ s.Wants rt t key := by
  classical
  let waiting := opened.filter fun t ↦ ∃ run, s.runs t = .running run
  have hmem {t : ℕ} {run : HandlerRun} (hrun : s.runs t = .running run) : t ∈ waiting :=
    Finset.mem_filter.mpr ⟨hopened t run hrun, run, hrun⟩
  have hheld (t : ℕ) (key : Text ⊕ UUID) (hwants : s.Wants rt t key) : ∃ u ∈ waiting, s.Holds u key := by
    cases key with
    | inl id =>
      obtain ⟨run, _, _, _, rfl, hlocked⟩ := hwants
      obtain ⟨u, hu⟩ := Option.ne_none_iff_exists'.mp fun hnone ↦ hlocked (.inl hnone)
      obtain ⟨other, hother, _⟩ := (hlocks u).audit _ hu
      exact ⟨u, hmem hother, hu⟩
    | inr user =>
      obtain ⟨run, change, _, _, hlocked⟩ := hwants
      obtain ⟨u, hu⟩ := Option.ne_none_iff_exists'.mp fun hnone ↦ hlocked (.inl hnone)
      obtain ⟨other, hother, _⟩ := (hlocks u).entitlement _ hu
      exact ⟨u, hmem hother, hu⟩
  obtain ⟨first, run, hfirst⟩ := hrunning
  obtain ⟨t, ht, hunblocked⟩ := Locking.exists_unblocked lockOrder
    (fun t _ _ hholds hwants ↦ (hlocks t).lockOrder_lt hholds hwants) ⟨first, hmem hfirst⟩ fun t _ ↦ hheld t
  obtain ⟨run, hrun⟩ := (Finset.mem_filter.mp ht).2
  exact ⟨t, run, hrun, hunblocked⟩

/-- The open runs can all be finished. -/
theorem finish_runs (rt : Runtime) {opened : Finset ℕ} (hlocks : ∀ t, LocksInOrder s t)
    (hopened : ∀ t run, s.runs t = .running run → t ∈ opened) :
    ∃ actions s', (∀ action ∈ actions, ∃ t, action = WebhookAction.advance t) ∧
      exec (step rt) s actions = some s' ∧ (∀ t run, s'.runs t ≠ .running run) ∧
        ∀ t, (s.runs t).Ahead rt (s'.runs t) := by
  let I (s' : WebhookSystem) : Prop := (∀ t, LocksInOrder s' t) ∧
    (∀ t run, s'.runs t = .running run → t ∈ opened) ∧ ∀ t, (s.runs t).Ahead rt (s'.runs t)
  suffices hfinish : ∃ actions s', (∀ action ∈ actions, ∃ t, action = WebhookAction.advance t) ∧
      exec (step rt) s actions = some s' ∧ I s' ∧ ∀ t run, s'.runs t ≠ .running run by
    obtain ⟨actions, s', hactions, hexec, ⟨_, _, hahead⟩, hdone⟩ := hfinish
    exact ⟨actions, s', hactions, hexec, hdone, hahead⟩
  refine exists_exec_done (fun action ↦ ∃ t, action = WebhookAction.advance t) I
    (fun s' ↦ ∀ t run, s'.runs t ≠ .running run) (fun s' ↦ ∑ t ∈ opened, (s'.runs t).work) ?_ s
    ⟨hlocks, hopened, fun t ↦ .same _⟩
  rintro middle ⟨hlocks, hopened, hahead⟩ hopen
  push Not at hopen
  obtain ⟨t, run, hrun, hunblocked⟩ := exists_unblocked_run hlocks hopened hopen
  obtain ⟨s', hstep, hless, hnext⟩ := exists_advance rt hrun hunblocked
  have hother {u : ℕ} (hu : u ≠ t) : s'.runs u = middle.runs u := runs_of_ne hstep hu
  refine ⟨[.advance t], s', by simp, by rw [exec, hstep]; rfl,
    ⟨locksInOrder_step hlocks hstep, fun u other hu ↦ ?_, fun u ↦ ?_⟩, ?_⟩
  · by_cases heq : u = t
    · rw [heq]
      exact hopened t run hrun
    · rw [hother heq] at hu
      exact hopened u other hu
  · by_cases heq : u = t
    · rw [heq]
      exact (hahead t).trans (hrun ▸ hnext)
    · rw [hother heq]
      exact hahead u
  · refine Finset.sum_lt_sum (fun u _ ↦ ?_) ⟨t, hopened t run hrun, by rw [hrun]; exact hless⟩
    by_cases heq : u = t
    · rw [heq, hrun]
      exact hless.le
    · rw [hother heq]

/-! ## Whole runs -/

/-- A committed audit row stays. -/
theorem Exclusive.audit_kept (h : Exclusive rt start s) (hstep : step rt s action = some s') {id : Text}
    (hrow : (s.audit.committed.lookup id).isSome = true) : (s'.audit.committed.lookup id).isSome = true := by
  rcases h.atomic hstep with hsame | ⟨t, run, response, _, _, _, hwhole⟩
  · have haudit : s'.audit.committed = s.audit.committed := congrArg Billing.processedWebhookEvents hsame
    rw [haudit]
    exact hrow
  · rw [hwhole.audit]
    split
    · rfl
    · exact hrow

/-- What a run that goes on to another stage has to show for its answer. -/
theorem Audited.of_running (hrun : s.runs t = .running run)
    (hknown : run.stage = .committing .alreadyProcessed →
    (s.audit.committed.lookup run.event.id).isSome = true) : Audited s t := by
  constructor
  · intro event response hanswered
    cases hrun.symm.trans hanswered
  · intro other hother hstage
    cases hrun.symm.trans hother
    exact hknown hstage

theorem Audited.step (h : ∀ t, Audited s t) (hexclusive : Exclusive rt start s)
    (hstep : step rt s action = some s') (u : ℕ) : Audited s' u := by
  by_cases hu : u = action.run
  · have houtcome := step_outcome hstep
    subst hu
    cases houtcome with
    | delivered idle => exact .of_running (setRun_runs ..) (by simp)
    | @rolledBack t run _ running =>
      have ht : action.run = t := by
        by_contra hne
        have hchanged : (s.rollback t run).runs t = s.runs t := runs_of_ne hstep (Ne.symm hne)
        rw [rollback_runs, running] at hchanged
        cases hchanged
      rw [ht]
      constructor
      · intro event response hanswered
        cases (rollback_runs s t run).symm.trans hanswered
      · intro other hother
        cases (rollback_runs s t run).symm.trans hother
    | @known t run running stage row found =>
      refine .of_running (goto_runs ..) fun _ ↦ ?_
      have hdraft := (hexclusive.runs t).no_audit running (by rw [stage]; rfl) run.event.id
      rw [Versioned.visible_of_lookup_drafts hdraft] at found
      exact Option.isSome_of_eq_some found
    | recorded => exact .of_running (goto_runs ..) (by simp)
    | unmapped => exact .of_running (goto_runs ..) (by simp)
    | mapped => exact .of_running (goto_runs ..) (by simp)
    | decided running user stage next decides =>
      refine .of_running (goto_runs ..) fun hstage ↦ ?_
      obtain ⟨rfl, _⟩ | ⟨rfl, _⟩ | ⟨change, rfl, _⟩ := decision_cases decides <;> cases hstage
    | upserted => exact .of_running (goto_runs ..) (by simp)
    | @committed t run running response stage =>
      have hself : (s.commit t run response).runs t = .answered run.event response := commit_runs ..
      constructor
      · intro event answer hanswered
        cases hself.symm.trans hanswered
        by_cases hknown : response = .alreadyProcessed
        · exact hexclusive.audit_kept hstep ((h t).known run running (by rw [stage, hknown]))
        · rw [(hexclusive.commitsWhole running stage).audit, if_pos ⟨rfl, hknown⟩]
          rfl
      · intro other hother
        cases hself.symm.trans hother
  · constructor
    · intro event response hanswered
      rw [runs_of_ne hstep hu] at hanswered
      exact hexclusive.audit_kept hstep ((h u).answered event response hanswered)
    · intro run hrun hstage
      rw [runs_of_ne hstep hu] at hrun
      exact hexclusive.audit_kept hstep ((h u).known run hrun hstage)

/-- A statement that is taken waits for nothing. -/
theorem not_wants_of_step (hstep : step rt s (.advance t) = some s') (key : Text ⊕ UUID) :
    ¬ s.Wants rt t key := by
  intro hwants
  cases key with
  | inl id =>
    obtain ⟨run, hrun, hstage, hfits, rfl, hlocked⟩ := hwants
    simp [step, hrun, statement, hstage, hfits, hlocked] at hstep
  | inr user =>
    obtain ⟨run, change, hrun, hstage, hlocked⟩ := hwants
    simp [step, hrun, statement, hstage, hlocked] at hstep

/-- A statement lowers the work of its run, and no other step raises any work. -/
theorem step_work (hstep : step rt s action = some s') (u : ℕ) :
    (s'.runs u).work + (if action = .advance u then 1 else 0) ≤ (s.runs u).work := by
  by_cases hu : u = action.run
  · subst hu
    cases action with
    | deliver t event now =>
      cases hrun : s.runs t with
      | idle =>
        simp only [step, hrun, Option.some.injEq] at hstep
        subst hstep
        simp [WebhookAction.run, hrun, HandlerState.work, HandlerStage.work]
      | running | answered | failed => simp [step, hrun] at hstep
    | advance t =>
      cases hrun : s.runs t with
      | running run =>
        obtain ⟨after, hafter, hless, _⟩ := exists_advance rt hrun (not_wants_of_step hstep)
        cases hstep.symm.trans hafter
        simp only [WebhookAction.run, if_true]
        rw [hrun]
        exact hless
      | idle | answered | failed => simp [step, hrun] at hstep
    | abort t =>
      cases hrun : s.runs t with
      | running run =>
        simp only [step, hrun, Option.some.injEq] at hstep
        subst hstep
        simp [WebhookAction.run, HandlerState.work]
      | idle | answered | failed => simp [step, hrun] at hstep
  · rw [runs_of_ne hstep hu, if_neg fun heq ↦ hu (by rw [heq]; rfl)]
    exact le_rfl

theorem mem_delivered_of_running (hrun : Run (step rt) (fun _ _ ↦ True) (ofBilling start) trace s)
    (hrunning : s.runs t = .running run) : t ∈ (trace.map (·.2.run)).toFinset := by
  induction hrun generalizing run with
  | nil => cases hrunning
  | @snoc trace s s' action _ _ hstep ih =>
    rw [List.map_append, List.toFinset_append, Finset.mem_union]
    by_cases hown : t = action.run
    · right
      simp [hown]
    · left
      rw [runs_of_ne hstep hown] at hrunning
      exact ih hrunning

/-- In every run a handler takes at most five statements, no handlers wait for each other in a circle, and the
open handlers can be finished by their own statements. An event that the handler does not raise on is then
answered, and is in the audit table. -/
theorem handlers_finish (rt : Runtime) (start : Billing) (trace : List (WebhookSystem × WebhookAction))
    (s : WebhookSystem) (hrun : Run (step rt) (fun _ _ ↦ True) (ofBilling start) trace s) :
    (∀ t, statementsTaken trace t ≤ 5) ∧ ¬ Locking.Deadlock s.Holds (s.Wants rt) ∧
      ∃ actions s', (∀ action ∈ actions, ∃ t, action = WebhookAction.advance t) ∧
        exec (step rt) s actions = some s' ∧ (∀ t run, s'.runs t ≠ .running run) ∧
          ∀ t run, s.runs t = .running run → ¬ run.event.Refused rt →
            (∃ response, s'.runs t = .answered run.event response) ∧
              (s'.audit.committed.lookup run.event.id).isSome = true := by
  have hlocks (t : ℕ) : LocksInOrder s t :=
    hrun.invariant (fun s ↦ ∀ t, LocksInOrder s t)
      (fun t ↦ .released ⟨fun _ ↦ (Option.some_ne_none t).symm, rfl⟩
      ⟨fun _ ↦ (Option.some_ne_none t).symm, rfl⟩)
      (fun s action s' h _ hstep ↦ locksInOrder_step h hstep) t
  have hwork (t : ℕ) : statementsTaken trace t + (s.runs t).work ≤ 5 := by
    clear hlocks
    induction hrun with
    | nil => exact le_rfl
    | @snoc trace s s' action _ _ hstep ih =>
      have hless := step_work hstep t
      rw [statementsTaken, List.countP_append, List.countP_singleton]
      simp only [decide_eq_true_eq]
      rw [statementsTaken] at ih
      omega
  refine ⟨fun t ↦ (Nat.le_add_right ..).trans (hwork t), ?_, ?_⟩
  · exact Locking.not_deadlock lockOrder fun t _ _ hholds hwants ↦ (hlocks t).lockOrder_lt hholds hwants
  · obtain ⟨actions, s', hactions, hexec, hdone, hahead⟩ :=
      finish_runs rt hlocks fun t run ↦ mem_delivered_of_running hrun
    refine ⟨actions, s', hactions, hexec, hdone, fun t run hrunning hfine ↦ ?_⟩
    have hinv : Exclusive rt start s' ∧ ∀ t, Audited s' t := by
      refine (hrun.append hexec).invariant (fun s ↦ Exclusive rt start s ∧ ∀ t, Audited s t)
        ⟨exclusive_start rt start, fun t ↦ ⟨fun _ _ h ↦ (by cases h), fun _ h ↦ (by cases h)⟩⟩ ?_
      rintro s action s' ⟨hexclusive, haudited⟩ _ hstep
      exact ⟨hexclusive.keep hstep, Audited.step haudited hexclusive hstep⟩
    have hended := hahead t
    rw [hrunning] at hended
    generalize hstate : s'.runs t = state at hended
    cases hended with
    | same => exact absurd hstate (hdone t run)
    | further _ stage => exact absurd hstate (hdone t _)
    | answered _ response => exact ⟨⟨response, rfl⟩, (hinv.2 t).answered _ response hstate⟩
    | failed _ refused => exact absurd refused hfine

end

/-- The second of two renewals waits for the entitlement that the first one has upserted. -/
theorem handlers_finish_sample : ∃ s : WebhookSystem, s.Holds 0 (.inr ⟨1⟩) ∧
    (step .ascii s (.advance 1)).isNone = true ∧ ∃ actions s',
      (∀ action ∈ actions, ∃ t, action = WebhookAction.advance t) ∧ exec (step .ascii) s actions = some s' ∧
        (∃ response, s'.runs 1 = .answered (sampleEvent "e2" 2 none) response) ∧
          (s'.audit.committed.lookup ("e2" : Text)).isSome = true := by
  let actions : List WebhookAction := [.deliver 0 (sampleEvent "e1" 1 none) 0,
    .deliver 1 (sampleEvent "e2" 2 none) 0] ++ List.replicate 4 (.advance 0) ++ List.replicate 3 (.advance 1)
  have hexec : (exec (step .ascii) (ofBilling ⟨sampleUsers, ∅, ∅⟩) actions).map (fun s ↦
      (s.entitlements.holder ⟨1⟩, (step .ascii s (.advance 1)).isNone,
        (s.runs 1).openEvent)) = some (some 0, true, some (sampleEvent "e2" 2 none)) := by decide
  obtain ⟨s, hs, hfacts⟩ := Option.map_eq_some_iff.mp hexec
  simp only [Prod.mk.injEq] at hfacts
  obtain ⟨hholder, hblocked, hevent⟩ := hfacts
  obtain ⟨_, _, rest, s', hrest, hexec', _, hfine⟩ := handlers_finish _ _ _ _ (run_of_exec hs)
  cases hstate : s.runs 1 with
  | running run =>
    simp only [hstate, HandlerState.openEvent, Option.some.injEq] at hevent
    have hrefused : ¬ run.event.Refused .ascii := by
      rw [hevent, RevenueCatEvent.Refused]
      decide
    obtain ⟨hanswered, haudited⟩ := hfine 1 run hstate hrefused
    rw [hevent] at hanswered haudited
    exact ⟨s, hholder, hblocked, rest, s', hrest, hexec', hanswered, haudited⟩
  | idle | answered | failed => simp [hstate, HandlerState.openEvent] at hevent

end WebhookSystem

end VoiceSpend
