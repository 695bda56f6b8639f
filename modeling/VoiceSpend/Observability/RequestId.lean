import VoiceSpend.Library.Machine
import VoiceSpend.Observability.Middleware

/-!
# Does every log line of a request carry its id?

Any number of tasks, each with its own context. A task copies the context of the task that creates it, so
the tasks of a request inherit its id, and `dispatch` may be called again inside a request. Everything a
request logs while `call_next` runs carries its id, and so does the line of a failed request. The line of
a completed one is logged after the id is unbound: it carries what the variable held before.
-/

namespace VoiceSpend

open Machine

/-- A task: its context, the calls of `dispatch` it is in, the innermost first, and the id of the request
whose code created it. -/
structure HttpTask where
  vars : ContextVars
  frames : List DispatchFrame
  serving : Option String
  deriving DecidableEq, Repr

/-- The id of the request whose code the task runs. -/
def HttpTask.owner (task : HttpTask) : Option String :=
  match task.frames with
  | [] => task.serving
  | frame :: _ => some frame.requestId

/-- A record, and the id of the request it belongs to. -/
structure LogEntry where
  owner : Option String
  record : LogRecord
  deriving DecidableEq, Repr

structure HttpSystem where
  tasks : ℕ → Option HttpTask
  log : List LogEntry

/-- `dispatch` is its part before `call_next`, `leave` the one after it; `bindTrace` sets or resets the
other variable. -/
inductive HttpAction
  | create (parent child : ℕ)
  | dispatch (t : ℕ) (request : HttpRequest) (generated : UUID)
  | log (t : ℕ) (call : LogCall)
  | bindTrace (t : ℕ) (traceId : Option String)
  | leave (t : ℕ) (route : Option Route) (outcome : CallNext)

namespace HttpSystem

def setTask (s : HttpSystem) (t : ℕ) (task : HttpTask) : HttpSystem :=
  { s with tasks := Function.update s.tasks t (some task) }

def emit (s : HttpSystem) (owner : Option String) (record : Option LogRecord) : HttpSystem :=
  { s with log := s.log ++ (record.map (LogEntry.mk owner)).toList }

def step (s : HttpSystem) : HttpAction → Option HttpSystem
  | .create parent child =>
    match s.tasks parent, s.tasks child with
    | some task, none => some (s.setTask child ⟨task.vars, [], task.owner⟩)
    | _, _ => none
  | .dispatch t request generated =>
    (s.tasks t).map fun task ↦
      let (frame, vars) := DispatchFrame.enter task.vars request generated
      s.setTask t { task with vars := vars, frames := frame :: task.frames }
  | .log t call =>
    (s.tasks t).map fun task ↦ s.emit task.owner (some (contextFilter task.vars call))
  | .bindTrace t traceId =>
    (s.tasks t).map fun task ↦ s.setTask t { task with vars := { task.vars with traceId := traceId } }
  | .leave t route outcome =>
    (s.tasks t).bind fun task ↦
      match task.frames with
      | [] => none
      | frame :: rest =>
        let left := frame.leave task.vars route outcome
        some ((s.setTask t { task with vars := left.vars, frames := rest }).emit task.owner left.logged)

/-- Tasks with these contexts, outside any request. -/
def ofContexts (contexts : ℕ → Option ContextVars) : HttpSystem where
  tasks t := (contexts t).map fun vars ↦ ⟨vars, [], none⟩
  log := []

/-- `request_id_var.get()` in a task. -/
def requestId (s : HttpSystem) (t : ℕ) : Option String := (s.tasks t).bind (·.vars.requestId)

/-- The calls of `dispatch` a task is in. -/
def frames (s : HttpSystem) (t : ℕ) : List DispatchFrame := ((s.tasks t).map (·.frames)).getD []

/-- `dispatch` goes on with a response, and the variable held another value than the request's id when it
began. -/
def completesUnbound (s : HttpSystem) : HttpAction → Bool
  | .leave t _ (.returned _) =>
    (s.frames t).head?.any fun frame ↦ frame.token ≠ some frame.requestId
  | _ => false

end HttpSystem

/-- A record of a request carries its id. -/
def LogEntry.Correlated (entry : LogEntry) : Prop :=
  ∀ id, entry.owner = some id → entry.record.requestId = some id

/-- A call of `dispatch` that begins and ends in a run leaves the variable as it was. -/
def Restored (trace : List (HttpSystem × HttpAction)) : Prop :=
  ∀ front middle back before t request generated last route outcome after,
    trace = front ++ (before, .dispatch t request generated) :: middle ++
      (last, .leave t route outcome) :: back →
    (∀ entry ∈ middle, (before.frames t).length < (entry.1.frames t).length) →
    (last.frames t).length = (before.frames t).length + 1 →
    HttpSystem.step last (.leave t route outcome) = some after → after.requestId t = before.requestId t

section

variable {s s' : HttpSystem} {action : HttpAction} {trace : List (HttpSystem × HttpAction)} {t u : ℕ}

/-! ## Steps -/

/-- Everything an action can do. -/
inductive HttpOutcome (s : HttpSystem) : HttpAction → HttpSystem → Prop
  | created {parent child : ℕ} {task : HttpTask} (running : s.tasks parent = some task)
      (fresh : s.tasks child = none) :
      HttpOutcome s (.create parent child) (s.setTask child ⟨task.vars, [], task.owner⟩)
  | dispatched {t : ℕ} {task : HttpTask} (running : s.tasks t = some task) (request : HttpRequest)
      (generated : UUID) :
      HttpOutcome s (.dispatch t request generated) (s.setTask t
        { task with
          vars := { task.vars with requestId := some (request.requestId generated) }
          frames := ⟨request.method, request.requestId generated, task.vars.requestId⟩ :: task.frames })
  | logged {t : ℕ} {task : HttpTask} (running : s.tasks t = some task) (call : LogCall) :
      HttpOutcome s (.log t call) (s.emit task.owner (some (contextFilter task.vars call)))
  | traced {t : ℕ} {task : HttpTask} (running : s.tasks t = some task) (traceId : Option String) :
      HttpOutcome s (.bindTrace t traceId)
        (s.setTask t { task with vars := { task.vars with traceId := traceId } })
  | left {t : ℕ} {task : HttpTask} {frame : DispatchFrame} {rest : List DispatchFrame}
      (running : s.tasks t = some task) (frames : task.frames = frame :: rest) (route : Option Route)
      (outcome : CallNext) :
      HttpOutcome s (.leave t route outcome) ((s.setTask t
        { task with vars := { task.vars with requestId := frame.token }, frames := rest }).emit
          task.owner (frame.leave task.vars route outcome).logged)

theorem HttpSystem.step_outcome (h : HttpSystem.step s action = some s') : HttpOutcome s action s' := by
  cases action with
  | create parent child =>
    simp only [step] at h
    split at h
    · rename_i task running fresh
      cases h
      exact .created running fresh
    · cases h
  | dispatch t request generated =>
    obtain ⟨task, running, rfl⟩ := Option.map_eq_some_iff.mp h
    exact .dispatched running request generated
  | log t call =>
    obtain ⟨task, running, rfl⟩ := Option.map_eq_some_iff.mp h
    exact .logged running call
  | bindTrace t traceId =>
    obtain ⟨task, running, rfl⟩ := Option.map_eq_some_iff.mp h
    exact .traced running traceId
  | leave t route outcome =>
    obtain ⟨task, running, h⟩ := Option.bind_eq_some_iff.mp h
    split at h
    · cases h
    · rename_i frame rest frames
      cases h
      rw [frame.leave_vars]
      exact .left running frames route outcome

@[simp] theorem HttpSystem.setTask_tasks (s : HttpSystem) (t : ℕ) (task : HttpTask) :
    (s.setTask t task).tasks = Function.update s.tasks t (some task) := rfl

@[simp] theorem HttpSystem.emit_tasks (s : HttpSystem) (owner : Option String) (record : Option LogRecord) :
    (s.emit owner record).tasks = s.tasks := rfl

/-! ## Bound ids -/

/-- The variable holds the id of the innermost call, its token the id of the next one, and so on; the last
token is the id of the request the task was created for, if any. -/
def BoundTo (serving : Option String) : Option String → List DispatchFrame → Prop
  | current, [] => ∀ id, serving = some id → current = some id
  | current, frame :: rest => current = some frame.requestId ∧ BoundTo serving frame.token rest

def HttpTask.Bound (task : HttpTask) : Prop := BoundTo task.serving task.vars.requestId task.frames

theorem HttpTask.Bound.owner {task : HttpTask} (h : task.Bound) {id : String}
    (howner : task.owner = some id) : task.vars.requestId = some id := by
  obtain ⟨vars, frames, serving⟩ := task
  cases frames with
  | nil => exact h id howner
  | cons frame rest => exact h.1.trans howner

def HttpSystem.Bound (s : HttpSystem) : Prop := ∀ t task, s.tasks t = some task → task.Bound

theorem HttpSystem.bound_ofContexts (contexts : ℕ → Option ContextVars) : (ofContexts contexts).Bound := by
  intro t task htask
  obtain ⟨vars, _, rfl⟩ := Option.map_eq_some_iff.mp htask
  intro id hserving
  cases hserving

theorem HttpSystem.Bound.setTask (h : s.Bound) {task : HttpTask} (htask : task.Bound) :
    (s.setTask t task).Bound := by
  unfold HttpSystem.Bound
  rw [setTask_tasks,
    Function.forall_update_iff s.tasks fun _ other ↦ ∀ task, other = some task → task.Bound]
  refine ⟨?_, fun u _ ↦ h u⟩
  rintro _ ⟨⟩
  exact htask

theorem HttpOutcome.bound (h : HttpOutcome s action s') (hbound : s.Bound) : s'.Bound := by
  cases h with
  | created running fresh =>
    have hparent := hbound _ _ running
    exact hbound.setTask fun id howner ↦ hparent.owner howner
  | dispatched running request generated =>
    have htask := hbound _ _ running
    exact hbound.setTask ⟨rfl, htask⟩
  | logged running call => exact hbound
  | traced running traceId =>
    have htask := hbound _ _ running
    exact hbound.setTask htask
  | @left t task frame rest running frames route outcome =>
    have htask := hbound _ _ running
    rw [HttpTask.Bound, frames] at htask
    have hbelow : (HttpTask.mk { task.vars with requestId := frame.token } rest task.serving).Bound := htask.2
    exact hbound.setTask hbelow

/-! ## Correlated records -/

theorem LogEntry.correlated_iff {id : String} {record : LogRecord} :
    (LogEntry.mk (some id) record).Correlated ↔ record.requestId = some id :=
  ⟨fun h ↦ h id rfl, fun h _ howner ↦ h.trans howner⟩

/-- A step logs correlated records only, unless it completes a request whose id is not bound. -/
theorem HttpOutcome.log (h : HttpOutcome s action s') (hbound : s.Bound) :
    ∃ new, s'.log = s.log ++ new ∧
      ((∀ entry ∈ new, entry.Correlated) ↔ s.completesUnbound action = false) := by
  cases h with
  | created | dispatched | traced =>
    exact ⟨[], (List.append_nil _).symm, iff_of_true (fun _ hmem ↦ by cases hmem) rfl⟩
  | logged running call =>
    refine ⟨_, rfl, iff_of_true (fun entry hmem ↦ ?_) rfl⟩
    rw [List.mem_singleton.mp hmem]
    exact fun id howner ↦ (hbound _ _ running).owner howner
  | @left t task frame rest running frames route outcome =>
    refine ⟨_, rfl, ?_⟩
    have howner : task.owner = some frame.requestId := by rw [HttpTask.owner, frames]
    have hhead : s.frames t = frame :: rest := by
      rw [HttpSystem.frames, running]
      exact frames
    cases outcome with
    | returned statusCode =>
      have hline : ((frame.leave task.vars route (.returned statusCode)).logged.map
          (LogEntry.mk task.owner)).toList = [⟨some frame.requestId, contextFilter
            { task.vars with requestId := frame.token } ⟨completionLevel statusCode, "request completed",
              some ⟨routeLabel route, frame.method, statusCode⟩⟩⟩] := by
        rw [howner]
        rfl
      rw [hline, List.forall_mem_singleton, LogEntry.correlated_iff, HttpSystem.completesUnbound, hhead]
      simp [contextFilter]
    | raised =>
      refine iff_of_true (fun entry hmem ↦ ?_) rfl
      rw [List.mem_singleton.mp hmem]
      exact fun id hid ↦ (hbound _ _ running).owner hid
    | cancelled => exact iff_of_true (fun _ hmem ↦ by cases hmem) rfl

theorem correlated_iff_of_run (contexts : ℕ → Option ContextVars)
    (hrun : Run HttpSystem.step (fun _ _ ↦ True) (.ofContexts contexts) trace s) :
    (∀ entry ∈ s.log, entry.Correlated) ↔ ∀ entry ∈ trace, entry.1.completesUnbound entry.2 = false := by
  induction hrun with
  | nil => exact iff_of_true (fun _ hmem ↦ by cases hmem) fun _ hmem ↦ by cases hmem
  | @snoc trace s s' action hrun _ hstep ih =>
    have hbound : s.Bound := hrun.invariant HttpSystem.Bound (HttpSystem.bound_ofContexts contexts)
      fun _ _ _ hbound _ hstep ↦ (HttpSystem.step_outcome hstep).bound hbound
    obtain ⟨new, hlog, hnew⟩ := (HttpSystem.step_outcome hstep).log hbound
    rw [hlog, List.forall_mem_append, List.forall_mem_append, ih, hnew, List.forall_mem_singleton]

/-! ## The variable afterwards -/

theorem HttpSystem.frames_setTask (s : HttpSystem) (t u : ℕ) (task : HttpTask) :
    (s.setTask t task).frames u = if u = t then task.frames else s.frames u := by
  rw [HttpSystem.frames, setTask_tasks]
  split
  · rename_i hu
    rw [hu, Function.update_self]
    rfl
  · rename_i hu
    rw [Function.update_of_ne hu]
    rfl

/-- The calls a task is in are as before, or it has begun one more, or has ended the innermost one. -/
theorem HttpOutcome.frames (h : HttpOutcome s action s') (t : ℕ) :
    s'.frames t = s.frames t ∨
      (∃ request generated, action = .dispatch t request generated ∧ s'.frames t =
        ⟨request.method, request.requestId generated, s.requestId t⟩ :: s.frames t) ∨
      ∃ frame, s.frames t = frame :: s'.frames t := by
  have hsame {u : ℕ} {task task' : HttpTask} (running : s.tasks u = some task)
      (hframes : task'.frames = task.frames) : (s.setTask u task').frames t = s.frames t := by
    rw [HttpSystem.frames_setTask]
    split
    · rename_i ht
      rw [hframes, ht, HttpSystem.frames, running]
      rfl
    · rfl
  cases h with
  | @created parent child task running fresh =>
    refine .inl ?_
    rw [HttpSystem.frames_setTask]
    split
    · rename_i ht
      rw [ht, HttpSystem.frames, fresh]
      rfl
    · rfl
  | @dispatched u task running request generated =>
    by_cases ht : t = u
    · subst ht
      refine .inr (.inl ⟨request, generated, rfl, ?_⟩)
      rw [HttpSystem.frames_setTask, if_pos rfl, HttpSystem.frames, HttpSystem.requestId, running]
      rfl
    · rw [HttpSystem.frames_setTask, if_neg ht]
      exact .inl rfl
  | logged running call => exact .inl rfl
  | traced running traceId => exact .inl (hsame running rfl)
  | @left u task frame rest running frames route outcome =>
    have hemit : HttpSystem.frames ((s.setTask u
        { task with vars := { task.vars with requestId := frame.token }, frames := rest }).emit
          task.owner (frame.leave task.vars route outcome).logged) t =
        if t = u then rest else s.frames t := HttpSystem.frames_setTask ..
    rw [hemit]
    split
    · rename_i ht
      rw [ht, HttpSystem.frames, running]
      exact .inr (.inr ⟨frame, frames⟩)
    · exact .inl rfl

/-- While a call of `dispatch` has not ended, its frame lies on the calls the task was in before. -/
theorem frames_of_run {start : HttpSystem} (hrun : Run HttpSystem.step (fun _ _ ↦ True) start trace s)
    {front middle : List (HttpSystem × HttpAction)} {before : HttpSystem} {t : ℕ} {request : HttpRequest}
    {generated : UUID} (htrace : trace = front ++ (before, .dispatch t request generated) :: middle)
    (hinside : ∀ entry ∈ middle, (before.frames t).length < (entry.1.frames t).length)
    (hopen : (before.frames t).length < (s.frames t).length) :
    ∃ inner frame, s.frames t = inner ++ frame :: before.frames t ∧ frame.token = before.requestId t := by
  induction hrun generalizing middle with
  | nil => exact absurd htrace.symm (List.append_ne_nil_of_right_ne_nil _ (List.cons_ne_nil _ _))
  | @snoc trace s s' action hrun _ hstep ih =>
    have houtcome := (HttpSystem.step_outcome hstep).frames t
    rcases List.eq_nil_or_concat middle with rfl | ⟨rest, last, rfl⟩
    · obtain ⟨rfl, heq⟩ := List.append_inj' htrace rfl
      cases heq
      rcases houtcome with hsame | ⟨_, _, _, hframes⟩ | ⟨frame, hframes⟩
      · rw [hsame] at hopen
        exact absurd hopen (lt_irrefl _)
      · exact ⟨[], _, hframes, rfl⟩
      · rw [hframes, List.length_cons] at hopen
        omega
    · rw [List.concat_eq_append] at hinside
      rw [List.concat_eq_append, ← List.cons_append, ← List.append_assoc] at htrace
      obtain ⟨rfl, heq⟩ := List.append_inj' htrace rfl
      cases heq
      obtain ⟨inner, frame, hframes, htoken⟩ := ih rfl
        (fun entry hmem ↦ hinside entry (List.mem_append_left _ hmem))
        (hinside (s, action) (List.mem_append_right _ List.mem_cons_self))
      rcases houtcome with hsame | ⟨_, _, _, hnew⟩ | ⟨top, htop⟩
      · exact ⟨inner, frame, hsame.trans hframes, htoken⟩
      · exact ⟨_ :: inner, frame, by rw [hnew, hframes]; rfl, htoken⟩
      · rw [hframes] at htop
        cases inner with
        | nil =>
          obtain ⟨_, hbelow⟩ := List.cons.inj htop
          rw [← hbelow] at hopen
          exact absurd hopen (lt_irrefl _)
        | cons _ inner => exact ⟨inner, frame, (List.cons.inj htop).2.symm, htoken⟩

theorem restored_of_run {start : HttpSystem} (hrun : Run HttpSystem.step (fun _ _ ↦ True) start trace s) :
    Restored trace := by
  intro front middle back before t request generated last route outcome after htrace hinside hdepth hstep
  obtain ⟨inner, frame, hframes, htoken⟩ :=
    frames_of_run (hrun.before htrace).1 rfl hinside (by omega)
  have hinner : inner = [] := by
    rw [hframes, List.length_append, List.length_cons] at hdepth
    exact List.eq_nil_of_length_eq_zero (by omega)
  subst hinner
  have houtcome := HttpSystem.step_outcome hstep
  cases houtcome with
  | @left _ task top rest running frames =>
    have htop : last.frames t = top :: rest := by
      rw [HttpSystem.frames, running]
      exact frames
    obtain ⟨rfl, _⟩ := List.cons.inj (htop.symm.trans hframes)
    rw [← htoken, HttpSystem.requestId]
    simp

/-- In every run, every record of a request carries the id that the request's response echoes, and every
call of `dispatch` leaves the variable as it was, exactly when `dispatch` never goes on with a response
while the variable's former value is another one than the request's id. -/
theorem requestIds_correlated_iff (contexts : ℕ → Option ContextVars)
    (hrun : Run HttpSystem.step (fun _ _ ↦ True) (.ofContexts contexts) trace s) :
    ((∀ entry ∈ s.log, entry.Correlated) ∧ Restored trace) ↔
      ∀ entry ∈ trace, entry.1.completesUnbound entry.2 = false := by
  rw [correlated_iff_of_run contexts hrun]
  exact and_iff_left (restored_of_run hrun)

end

/-! ## Two runs -/

/-- One task, outside any request. -/
def HttpSystem.sample : HttpSystem := ofContexts fun t ↦ if t = 0 then some ⟨none, none⟩ else none

/-- The scrape of the metrics that the header test makes. -/
def sampleRequest : HttpRequest := ⟨"GET", some "test-request-id-123"⟩

/-- The line of a completed request has no id. -/
theorem requestIds_not_correlated : ¬ ∀ (contexts : ℕ → Option ContextVars)
    (trace : List (HttpSystem × HttpAction)) (s : HttpSystem),
    Run HttpSystem.step (fun _ _ ↦ True) (.ofContexts contexts) trace s →
      (∀ entry ∈ s.log, entry.Correlated) ∧ Restored trace := by
  intro hcorrelated
  have hlog : (exec HttpSystem.step .sample [.dispatch 0 sampleRequest ⟨7⟩,
      .leave 0 (some .metrics) (.returned 200)]).map (·.log) = some [⟨some "test-request-id-123",
        ⟨⟨.info, "request completed", some ⟨"/metrics", "GET", 200⟩⟩, none, none⟩⟩] := by
    decide +kernel
  obtain ⟨s, hexec, hlog⟩ := Option.map_eq_some_iff.mp hlog
  have hall := (hcorrelated _ _ s (run_of_exec hexec)).1
  rw [hlog, List.forall_mem_singleton, LogEntry.correlated_iff] at hall
  cases hall

/-- A request without a header whose handler logs a line in a task of its own and raises. -/
theorem requestIds_correlated_iff_sample : ∃ (trace : List (HttpSystem × HttpAction)) (s : HttpSystem),
    s.log.map (·.record.requestId) = List.replicate 2 (some "00000000-0000-0000-0000-000000000007") ∧
      (∀ entry ∈ s.log, entry.Correlated) ∧ Restored trace := by
  have hfacts : (exec HttpSystem.step .sample [.dispatch 0 ⟨"POST", none⟩ ⟨7⟩, .create 0 1,
      .log 1 ⟨.info, "transcription completed", none⟩, .leave 0 (some .transcribe) .raised]).map
        (fun s ↦ s.log.map (·.record.requestId)) =
      some (List.replicate 2 (some "00000000-0000-0000-0000-000000000007")) := by
    decide +kernel
  obtain ⟨s, hexec, hlog⟩ := Option.map_eq_some_iff.mp hfacts
  exact ⟨_, s, hlog, (requestIds_correlated_iff _ (run_of_exec hexec)).mpr (by decide +kernel)⟩

end VoiceSpend
