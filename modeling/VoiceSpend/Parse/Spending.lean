import VoiceSpend.Parse.Quota
import VoiceSpend.RateLimit.Isolation
import VoiceSpend.RateLimit.Outage

/-!
# What one user's requests can cost

The rate limiter in front of the two endpoints, while Redis may fail. A paid call is made for a request that the
limiter has admitted, and a user has one scope for each device and one more, so the limits of the scopes bound
the calls of a user, each request making one to the LLM and one to the STT provider at most.
-/

namespace VoiceSpend

open Machine

/-- The limiter and the endpoints; the request `r` of a user is `⟨user, r⟩` in the limiter. -/
structure GuardedSystem where
  limiter : LimiterSystem
  endpoints : ParseSystem

/-- `enter` takes a request that the limiter has answered to its endpoint. -/
inductive GuardedAction
  | limit (action : OutageAction)
  | enter (r : ℕ) (request : ParseRequest)
  | proceed (action : ParseAction)

/-- What the exception of the dependency makes of a request. -/
def LimiterAnswer.error? : LimiterAnswer → Option HttpError
  | .admitted => none
  | .raised exception => some ⟨exception.statusCode, exception.detail⟩

def ParseAction.arrives : ParseAction → Bool
  | .receive .. => true
  | _ => false

namespace GuardedSystem

def step (env : ParseEnv) (limits : RateLimitSettings) (devices : Table UUID Device) (s : GuardedSystem) :
    GuardedAction → Option GuardedSystem
  | .limit action =>
    (s.limiter.outageStep env.rt.toRuntime limits devices action).map fun limiter ↦ { s with limiter }
  | .enter r request =>
    match s.limiter.procs ⟨request.user, r⟩ with
    | .answered answer =>
      (s.endpoints.step env (.receive r request answer.error?)).map fun endpoints ↦ { s with endpoints }
    | _ => none
  | .proceed action =>
    if action.arrives then none
    else (s.endpoints.step env action).map fun endpoints ↦ { s with endpoints }

/-- Tables, no key, and no request. -/
def ofTables (now : ℕ) (sync : SyncSystem) (entitlements : Table UUID Entitlement)
    (categories : List Category) : GuardedSystem where
  limiter := .initial now
  endpoints := .ofTables sync entitlements categories

/-- The paid calls for requests of the user. -/
def callsOf (s : GuardedSystem) (user : UUID) : List ProviderCall :=
  s.endpoints.calls.filter fun call ↦ (s.endpoints.requests call.request).request?.any (·.user = user)

end GuardedSystem

/-- The steps of the limiter. -/
def limiterTrace (trace : List (GuardedSystem × GuardedAction)) : List (LimiterSystem × OutageAction) :=
  trace.filterMap fun entry ↦
    match entry.2 with
    | .limit action => some (entry.1.limiter, action)
    | _ => none

/-- The scopes of a user. -/
def scopesOf (devices : Table UUID Device) (user : UUID) : List String :=
  ("user:" ++ user.str) :: ((Table.rows devices).filter fun row ↦ row.2.userId = user).map fun row ↦
    "device:" ++ row.1.str

/-- The requests that hit a counter of the user for this window from `start` on and before `stop`. -/
def windowHits (devices : Table UUID Device) (trace : List (LimiterSystem × OutageAction)) (user : UUID)
    (window : Window) (start stop : ℕ) : List RequestId :=
  (scopesOf devices user).flatMap fun scope ↦
    ((hitsOn (calmedTrace trace) (rateLimitKey scope window.seconds)).filter fun made ↦
      start ≤ made.2 ∧ made.2 < stop).map Prod.fst

/-- The paid calls for the requests among them that have not failed in the limiter. -/
def callsWithin (devices : Table UUID Device) (trace : List (LimiterSystem × OutageAction))
    (s : GuardedSystem)
    (user : UUID) (window : Window) (start stop : ℕ) : List ProviderCall :=
  (s.callsOf user).filter fun call ↦ ⟨user, call.request⟩ ∉ failedRequests trace ∧
    ⟨user, call.request⟩ ∈ windowHits devices trace user window start stop

/-- What holds of the paid calls after a run. -/
structure SpendingBounded (limits : RateLimitSettings) (devices : Table UUID Device)
    (trace : List (LimiterSystem × OutageAction)) (s : GuardedSystem) : Prop where
  once : s.endpoints.calls.Nodup
  admitted : ∀ user, ∀ call ∈ s.callsOf user, s.limiter.procs ⟨user, call.request⟩ = .answered .admitted
  everyCall : ∀ call ∈ s.endpoints.calls, ∃ user, call ∈ s.callsOf user
  counted : ∀ user, ∀ call ∈ s.callsOf user, ⟨user, call.request⟩ ∉ failedRequests trace →
    ∀ window ∈ windows limits, ∃ stop, ⟨user, call.request⟩ ∈ windowHits devices trace user window 0 stop
  /-- Two calls a request, two lives of a counter, and one counter a scope. -/
  bounded : ∀ user, ∀ window ∈ windows limits, ∀ start,
    ((callsWithin devices trace s user window start (start + window.ms)).length : ℤ) ≤
      2 * ((1 + Table.countRows (fun _ device ↦ device.userId = user) devices) * (2 * window.limit))
  closed : limits.rateLimitFailOpen = false → ∀ user, ∀ call ∈ s.callsOf user,
    ⟨user, call.request⟩ ∉ failedRequests trace

section

variable {env : ParseEnv} {limits : RateLimitSettings} {devices : Table UUID Device} {s s' : GuardedSystem}
  {action : GuardedAction} {trace : List (GuardedSystem × GuardedAction)} {request : RequestId} {user : UUID}
  {rt : Runtime}

/-! ## Scopes -/

theorem ScopeOf.mem_scopesOf {scope : String} (h : ScopeOf devices user scope) :
    scope ∈ scopesOf devices user := by
  cases h with
  | user => exact List.mem_cons_self
  | device id device stored own =>
    apply List.mem_cons_of_mem
    exact List.mem_map.mpr ⟨(id, device),
      List.mem_filter.mpr ⟨Table.mem_rows.mpr stored, decide_eq_true own⟩, rfl⟩

theorem length_scopesOf (devices : Table UUID Device) (user : UUID) : (scopesOf devices user).length =
    1 + Table.countRows (fun _ device ↦ device.userId = user) devices := by
  rw [scopesOf, List.length_cons, List.length_map, add_comm]
  rfl

/-! ## A request on its way through the windows -/

/-- The request has hit a counter of its user for this window. -/
def HasHit (devices : Table UUID Device) (trace : List (LimiterSystem × LimiterAction)) (request : RequestId)
    (window : Window) : Prop :=
  ∃ scope, ScopeOf devices request.user scope ∧
    ∃ time, (request, time) ∈ hitsOn trace (rateLimitKey scope window.seconds)

/-- A request has hit the windows that it need not hit any more. -/
def HitSoFar (limits : RateLimitSettings) (devices : Table UUID Device)
    (trace : List (LimiterSystem × LimiterAction)) (request : RequestId) : LimiterProc → Prop
  | .idle => True
  | .limiting run => ScopeOf devices request.user run.scope ∧
      ∀ window ∈ windows limits, window ∈ run.todo ∨ HasHit devices trace request window
  | .answered _ => ∀ window ∈ windows limits, HasHit devices trace request window

section

variable {t t' : LimiterSystem} {shown : List (LimiterSystem × LimiterAction)} {action : LimiterAction}

theorem HasHit.snoc {window : Window} (h : HasHit devices shown request window) :
    HasHit devices (shown ++ [(t, action)]) request window := by
  obtain ⟨scope, hscope, time, hmem⟩ := h
  exact ⟨scope, hscope, time, mem_hitsOn_concat.mpr (.inl hmem)⟩

theorem HitSoFar.snoc {proc : LimiterProc} (h : HitSoFar limits devices shown request proc) :
    HitSoFar limits devices (shown ++ [(t, action)]) request proc := by
  cases proc with
  | idle => trivial
  | limiting run => exact ⟨h.1, fun window hwindow ↦ (h.2 window hwindow).imp_right HasHit.snoc⟩
  | answered answer => exact fun window hwindow ↦ (h window hwindow).snoc

/-- A hit is the next window of the request. -/
theorem HitSoFar.hit {run : LimiterRun} {window : Window} {todo : List Window} {decision : Decision}
    (h : HitSoFar limits devices shown request (.limiting run)) (htodo : run.todo = window :: todo)
    (hhit : HasHit devices (shown ++ [(t, action)]) request window) :
    HitSoFar limits devices (shown ++ [(t, action)]) request (run.next todo decision) := by
  have hwindows (other : Window) (hother : other ∈ windows limits) :
      other ∈ todo ∨ HasHit devices (shown ++ [(t, action)]) request other := by
    rcases h.2 other hother with hmem | hbefore
    · rw [htodo] at hmem
      rcases List.mem_cons.mp hmem with rfl | hmem
      · exact .inr hhit
      · exact .inl hmem
    · exact .inr hbefore.snoc
  cases todo with
  | nil => exact fun other hother ↦ (hwindows other hother).resolve_left List.not_mem_nil
  | cons first rest => exact ⟨h.1, hwindows⟩

theorem LimiterOutcome.hitSoFar (houtcome : LimiterOutcome rt limits devices t action t')
    (herror : action.errorFree = true)
    (h : ∀ request, HitSoFar limits devices shown request (t.procs request))
    (request : RequestId) : HitSoFar limits devices (shown ++ [(t, action)]) request (t'.procs request) := by
  have hother {other : RequestId} {next : LimiterProc} {after : LimiterSystem}
      (hnext : HitSoFar limits devices (shown ++ [(t, action)]) other next) (hprocs : after.procs = t.procs) :
      HitSoFar limits devices (shown ++ [(t, action)]) request
        ((after.setProc other next).procs request) := by
    by_cases heq : request = other
    · rw [heq, LimiterSystem.setProc_procs]
      exact hnext
    · rw [LimiterSystem.setProc_procs_of_ne _ _ heq, hprocs]
      exact (h request).snoc
  cases houtcome with
  | arrived other rawDeviceId idle =>
    exact hother ⟨resolveScope_scopeOf rt devices other.user rawDeviceId,
      fun window hwindow ↦ .inl hwindow⟩ rfl
  | counted other scope window todo decisions running redis count ttlMs told =>
    have hrunning := h other
    rw [running] at hrunning
    refine hother (hrunning.hit rfl ⟨scope, hrunning.1, t.redis.now, ?_⟩) rfl
    apply mem_hitsOn_concat.mpr
    exact .inr (by simp [LimiterSystem.hitBy, running])
  | failed => cases herror
  | elapsed ms => exact (h request).snoc

theorem hitSoFar_of_run {now : ℕ} (hrun : Run (LimiterSystem.step rt limits devices)
    (fun _ action ↦ action.errorFree = true) (.initial now) shown t) (request : RequestId) :
    HitSoFar limits devices shown request (t.procs request) := by
  revert request
  apply hrun.trace_invariant fun shown t ↦ ∀ request, HitSoFar limits devices shown request (t.procs request)
  · intro request
    exact trivial
  · intro shown t action t' h herror hstep
    exact (LimiterSystem.step_outcome hstep).hitSoFar herror h

end

/-! ## The requests behind the limiter -/

/-- Every paid call is for a request that was admitted, and a request calls a provider once. -/
structure Billed (procs : RequestId → LimiterProc) (s : ParseSystem) : Prop where
  nodup : s.calls.Nodup
  waiting : ∀ r, (s.requests r).waiting = true → ∀ provider, ⟨r, provider⟩ ∉ s.calls
  listening : ∀ r request entitlement, s.requests r = .listening request entitlement → ⟨r, .llm⟩ ∉ s.calls
  refused : ∀ r request error, s.requests r = .answered request (.refused error) →
    ∀ provider, ⟨r, provider⟩ ∉ s.calls
  admitted : ∀ r request, (s.requests r).request? = some request →
    (∃ error, s.requests r = .answered request (.refused error)) ∨
      procs ⟨request.user, r⟩ = .answered .admitted

section

variable {procs : RequestId → LimiterProc} {t t' : ParseSystem} {action : ParseAction} {r : ℕ}
  {next : ParseProc × Option Provider} {asked : ParseRequest}

theorem Billed.proceed (h : Billed procs t)
    (hfresh : ∀ provider, next.2 = some provider → ⟨r, provider⟩ ∉ t.calls)
    (hwaiting : next.1.waiting = true → next.2 = none ∧ (t.requests r).waiting = true)
    (hlistening : ∀ request entitlement, next.1 = .listening request entitlement →
      next.2 ≠ some .llm ∧ ⟨r, .llm⟩ ∉ t.calls)
    (hrefused : ∀ request error, next.1 = .answered request (.refused error) →
      next.2 = none ∧ (t.requests r).waiting = true)
    (hadmitted : ∀ request, next.1.request? = some request →
      (∃ error, next.1 = .answered request (.refused error)) ∨
        procs ⟨request.user, r⟩ = .answered .admitted) : Billed procs (t.proceed r next) := by
  have huncalled (hsilent : next.2 = none ∧ (t.requests r).waiting = true) (provider : Provider) :
      ⟨r, provider⟩ ∉ (t.proceed r next).calls := by
    rw [mem_proceed_calls, not_or]
    exact ⟨h.waiting r hsilent.2 provider, fun hcall ↦ by rw [hsilent.1] at hcall; cases hcall.2⟩
  have hother {u : ℕ} (hu : u ≠ r) {provider : Provider} (hold : ⟨u, provider⟩ ∉ t.calls) :
      ⟨u, provider⟩ ∉ (t.proceed r next).calls := by
    rw [mem_proceed_calls, not_or]
    exact ⟨hold, fun hcall ↦ hu hcall.1⟩
  constructor
  · change (t.calls ++ _).Nodup
    rw [List.nodup_append]
    refine ⟨h.nodup, ?_, fun call hcall new hnew heq ↦ ?_⟩
    · cases next.2 <;> simp
    · obtain ⟨provider, hprovider, rfl⟩ := Option.map_eq_some_iff.mp (Option.mem_toList.mp hnew)
      exact hfresh provider hprovider (heq ▸ hcall)
  · intro u hproc provider
    by_cases hu : u = r
    · subst hu
      rw [proceed_requests] at hproc
      exact huncalled (hwaiting hproc) provider
    · rw [proceed_requests_of_ne _ _ hu] at hproc
      exact hother hu (h.waiting u hproc provider)
  · intro u request entitlement hproc
    by_cases hu : u = r
    · subst hu
      rw [proceed_requests] at hproc
      obtain ⟨hnext, hold⟩ := hlistening request entitlement hproc
      rw [mem_proceed_calls, not_or]
      exact ⟨hold, fun hcall ↦ hnext hcall.2⟩
    · rw [proceed_requests_of_ne _ _ hu] at hproc
      exact hother hu (h.listening u request entitlement hproc)
  · intro u request error hproc provider
    by_cases hu : u = r
    · subst hu
      rw [proceed_requests] at hproc
      exact huncalled (hrefused request error hproc) provider
    · rw [proceed_requests_of_ne _ _ hu] at hproc
      exact hother hu (h.refused u request error hproc provider)
  · intro u request hproc
    by_cases hu : u = r
    · subst hu
      rw [proceed_requests] at hproc ⊢
      exact hadmitted request hproc
    · rw [proceed_requests_of_ne _ _ hu] at hproc ⊢
      exact h.admitted u request hproc

/-- A step of an open request behind the limiter keeps the request. -/
theorem Billed.advance (h : Billed procs t) (hrequest : (t.requests r).request? = some asked)
    (hopen : ∀ request reply, t.requests r ≠ .answered request reply)
    (hfresh : ∀ provider, next.2 = some provider → ⟨r, provider⟩ ∉ t.calls)
    (hwaiting : next.1.waiting = true → next.2 = none ∧ (t.requests r).waiting = true)
    (hlistening : ∀ request entitlement, next.1 = .listening request entitlement →
      next.2 ≠ some .llm ∧ ⟨r, .llm⟩ ∉ t.calls)
    (hnext : next.1.request? = some asked)
    (hanswer : ∀ request error, next.1 ≠ .answered request (.refused error)) :
    Billed procs (t.proceed r next) := by
  refine h.proceed hfresh hwaiting hlistening (fun request error heq ↦ absurd heq (hanswer request error)) ?_
  intro request heq
  cases hnext.symm.trans heq
  refine .inr ((h.admitted r asked hrequest).resolve_left ?_)
  rintro ⟨error, hrefused⟩
  exact hopen _ _ hrefused

/-- A request gets past its admission only without an error of the limiter. -/
theorem admission_request {limited : Option HttpError} {settings : ParseSettings} {request : ParseRequest}
    (h : (admission settings asked limited).request? = some request) : request = asked ∧
      ((∃ error, admission settings asked limited = .answered asked (.refused error)) ∨ limited = none) := by
  cases limited with
  | some error =>
    cases h
    exact ⟨rfl, .inl ⟨error, rfl⟩⟩
  | none =>
    rcases admission_cases settings asked none with heq | ⟨error, heq⟩ <;> rw [heq] at h <;> cases h <;>
      exact ⟨rfl, .inr rfl⟩

theorem gate_cases (request : ParseRequest) (entitlement : EntitlementSignal) (clock : Instant) :
    (∃ reply, gate request entitlement clock = (.answered request reply, none) ∧
      ∀ error, reply ≠ .refused error) ∨
      (∃ text reference, gate request entitlement clock =
        (.extracting request text none reference entitlement, some .llm)) ∨
      gate request entitlement clock = (.listening request entitlement, some .stt) := by
  unfold gate
  split
  · refine .inl ⟨_, rfl, fun error ↦ ?_⟩
    unfold ParseRequest.reply
    split <;> simp
  · split
    · exact .inr (.inl ⟨_, _, rfl⟩)
    · exact .inr (.inr rfl)

theorem extracted_cases (env : ParseEnv) (categories : List Category) (rates : FxTable) (user : User)
    (request : ParseRequest) (text : Text) (transcript : Option Text) (referenceTime : DateTime)
    (entitlement : EntitlementSignal) (traceId : Option String) (outcome : Awaited ExtractionResult) :
    extracted env categories rates user request text transcript referenceTime entitlement traceId outcome =
        .raised request ∨
      ∃ reply, extracted env categories rates user request text transcript referenceTime entitlement traceId
        outcome = .answered request reply ∧ ∀ error, reply ≠ .refused error := by
  unfold extracted
  split
  · exact .inl rfl
  · cases transcript with
    | none => exact .inr ⟨_, rfl, by simp⟩
    | some transcript => exact .inr ⟨_, rfl, by simp⟩

theorem ParseOutcome.billed (houtcome : ParseOutcome env t action t')
    (hreceive : ∀ r request limited, action = .receive r request limited → limited = none →
      procs ⟨request.user, r⟩ = .answered .admitted) (h : Billed procs t) : Billed procs t' := by
  cases houtcome with
  | synced | entitled => exact ⟨h.nodup, h.waiting, h.listening, h.refused, h.admitted⟩
  | received r request limited idle =>
    have hidle : (t.requests r).waiting = true := by rw [idle]; rfl
    refine h.proceed (by simp) (fun _ ↦ ⟨rfl, hidle⟩) (fun other entitlement hlistening ↦ ?_)
      (fun _ _ _ ↦ ⟨rfl, hidle⟩) fun other hother ↦ ?_
    · rcases admission_cases env.parseSettings request limited with heq | ⟨error, heq⟩ <;>
        cases heq.symm.trans hlistening
    · obtain ⟨rfl, hcases⟩ := admission_request hother
      exact hcases.imp_right (hreceive r other limited rfl)
  | resolved r clock request resolving =>
    have hwaiting : (t.requests r).waiting = true := by rw [resolving]; rfl
    exact h.advance (by rw [resolving]; rfl) (by simp [resolving]) (by simp) (fun _ ↦ ⟨rfl, hwaiting⟩)
      (by simp) rfl (by simp)
  | counted r clock request effective counting =>
    have huncalled := h.waiting r (by rw [counting]; rfl)
    have hrequest : (t.requests r).request? = some request := by rw [counting]; rfl
    have hopen (other : ParseRequest) (reply : ParseReply) : t.requests r ≠ .answered other reply := by
      simp [counting]
    rcases gate_cases request (t.signal env.settings request effective clock) clock with
      ⟨reply, heq, hreply⟩ | ⟨text, reference, heq⟩ | heq
    · rw [heq]
      exact h.advance hrequest hopen (by simp) (by simp) (by simp) rfl (by simp [hreply])
    · rw [heq]
      exact h.advance hrequest hopen (fun provider _ ↦ huncalled provider) (by simp) (by simp) rfl (by simp)
    · rw [heq]
      exact h.advance hrequest hopen (fun provider _ ↦ huncalled provider) (by simp)
        (fun _ _ _ ↦ ⟨by simp, huncalled .llm⟩) rfl (by simp)
  | heard r clock traceId heard request entitlement listening =>
    have huncalled := h.listening r request entitlement listening
    have hrequest : (t.requests r).request? = some request := by rw [listening]; rfl
    refine h.advance hrequest (by simp [listening]) ?_ ?_ ?_ ?_ ?_
    · intro provider hprovider
      cases heard with
      | returned transcript =>
        cases hprovider
        exact huncalled
      | raised | timedOut => cases hprovider
    all_goals cases heard <;> simp [transcribed, ParseProc.request?]
  | extracted r traceId outcome request text transcript referenceTime entitlement user extracting =>
    have hrequest : (t.requests r).request? = some request := by rw [extracting]; rfl
    have hopen (other : ParseRequest) (reply : ParseReply) : t.requests r ≠ .answered other reply := by
      simp [extracting]
    rcases extracted_cases env t.categories t.sync.fxRates user request text transcript referenceTime
      entitlement
      traceId outcome with heq | ⟨reply, heq, hreply⟩
    · rw [heq]
      exact h.advance hrequest hopen (by simp) (by simp) (by simp) rfl (by simp)
    · rw [heq]
      exact h.advance hrequest hopen (by simp) (by simp) (by simp) rfl (by simp [hreply])

end

/-! ## Runs of both -/

/-- An answer of the limiter stays. -/
theorem LimiterSystem.outageStep_answered {t t' : LimiterSystem} {outage : OutageAction}
    {answer : LimiterAnswer}
    (hstep : t.outageStep rt limits devices outage = some t') (hanswer : t.procs request = .answered answer) :
    t'.procs request = .answered answer := by
  have hother {other : RequestId} {next : LimiterProc} {after : LimiterSystem}
      (hwas : t.procs other ≠ .answered answer) (hprocs : after.procs = t.procs) :
      (after.setProc other next).procs request = .answered answer := by
    have hne : request ≠ other := fun heq ↦ hwas (heq ▸ hanswer)
    rw [LimiterSystem.setProc_procs_of_ne _ _ hne, hprocs]
    exact hanswer
  cases outage with
  | replyLost other =>
    simp only [LimiterSystem.outageStep] at hstep
    split at hstep
    · rename_i scope window todo decisions running
      cases hstep
      exact hother (by simp [running]) rfl
    · cases hstep
  | regular action =>
    cases LimiterSystem.step_outcome hstep with
    | arrived other rawDeviceId idle => exact hother (by simp [idle]) rfl
    | counted other scope window todo decisions running => exact hother (by simp [running]) rfl
    | failed other run running => exact hother (by simp [running]) rfl
    | elapsed ms => exact hanswer

/-- The limiter's part of a run is a run of the limiter, and every paid call is for an admitted request. -/
structure Guarded (env : ParseEnv) (limits : RateLimitSettings) (devices : Table UUID Device) (now : ℕ)
    (trace : List (GuardedSystem × GuardedAction)) (s : GuardedSystem) : Prop where
  limited : Run (LimiterSystem.outageStep env.rt.toRuntime limits devices) (fun _ _ ↦ True) (.initial now)
    (limiterTrace trace) s.limiter
  billed : Billed s.limiter.procs s.endpoints

theorem Guarded.step {now : ℕ} (h : Guarded env limits devices now trace s)
    (hstep : s.step env limits devices action = some s') :
    Guarded env limits devices now (trace ++ [(s, action)]) s' := by
  have hsilent (hnone : limiterTrace [(s, action)] = []) : limiterTrace (trace ++ [(s, action)]) =
      limiterTrace trace := by
    rw [limiterTrace, List.filterMap_append]
    exact (congrArg _ hnone).trans (List.append_nil _)
  cases action with
  | limit action =>
    obtain ⟨limiter, hlimiter, rfl⟩ := Option.map_eq_some_iff.mp hstep
    constructor
    · rw [limiterTrace, List.filterMap_append]
      exact h.limited.snoc trivial hlimiter
    · exact ⟨h.billed.nodup, h.billed.waiting, h.billed.listening, h.billed.refused, fun r request hrequest ↦
        (h.billed.admitted r request hrequest).imp_right (LimiterSystem.outageStep_answered hlimiter)⟩
  | enter r request =>
    simp only [GuardedSystem.step] at hstep
    split at hstep
    · rename_i answer hanswer
      obtain ⟨endpoints, hendpoints, rfl⟩ := Option.map_eq_some_iff.mp hstep
      refine ⟨hsilent rfl ▸ h.limited, (ParseSystem.step_outcome hendpoints).billed ?_ h.billed⟩
      intro r' request' limited heq hnone
      cases heq
      cases answer with
      | admitted => exact hanswer
      | raised exception => cases hnone
    · cases hstep
  | proceed action =>
    simp only [GuardedSystem.step] at hstep
    split at hstep
    · cases hstep
    · rename_i harrives
      obtain ⟨endpoints, hendpoints, rfl⟩ := Option.map_eq_some_iff.mp hstep
      refine ⟨hsilent rfl ▸ h.limited, (ParseSystem.step_outcome hendpoints).billed ?_ h.billed⟩
      intro r request limited heq
      rw [heq] at harrives
      exact absurd rfl harrives

theorem Billed.mem_callsOf (h : Billed s.limiter.procs s.endpoints) {call : ProviderCall} :
    call ∈ s.callsOf user → s.limiter.procs ⟨user, call.request⟩ = .answered .admitted := by
  intro hcall
  obtain ⟨hmem, huser⟩ := List.mem_filter.mp hcall
  obtain ⟨asked, hasked, hsame⟩ := (Option.any_eq_true _ _).mp huser
  cases of_decide_eq_true hsame
  refine (h.admitted call.request asked hasked).resolve_left ?_
  rintro ⟨error, hrefused⟩
  exact h.refused call.request asked error hrefused call.provider hmem

/-- Every paid call is for a request of some user. -/
theorem Billed.exists_user (h : Billed s.limiter.procs s.endpoints) {call : ProviderCall}
    (hcall : call ∈ s.endpoints.calls) : ∃ user, call ∈ s.callsOf user := by
  cases hasked : (s.endpoints.requests call.request).request? with
  | none =>
    have hwaiting : (s.endpoints.requests call.request).waiting = true := by
      generalize s.endpoints.requests call.request = proc at hasked
      cases proc <;> first | rfl | cases hasked
    exact absurd hcall (h.waiting call.request hwaiting call.provider)
  | some asked => exact ⟨asked.user, List.mem_filter.mpr ⟨hcall, by simp [hasked]⟩⟩

variable (user) in
/-- Distinct calls for requests of a list are at most two for each. -/
theorem length_calls_le {calls : List ProviderCall} (hnodup : calls.Nodup) {requests : List RequestId}
    (hmem : ∀ call ∈ calls, ⟨user, call.request⟩ ∈ requests) : calls.length ≤ 2 * requests.length := by
  have hone (provider : Provider) : (calls.filter (·.provider = provider)).length ≤ requests.length := by
    have hmap : ((calls.filter (·.provider = provider)).map fun call ↦
        RequestId.mk user call.request).Nodup := by
      refine List.Nodup.map_on (fun first hfirst second hsecond heq ↦ ?_) (hnodup.filter _)
      have hprovider := of_decide_eq_true (List.mem_filter.mp hfirst).2
      have hprovider' := of_decide_eq_true (List.mem_filter.mp hsecond).2
      cases first
      cases second
      cases heq
      cases hprovider.trans hprovider'.symm
      rfl
    have hsubset : ((calls.filter (·.provider = provider)).map fun call ↦ RequestId.mk user call.request) ⊆
        requests := by
      intro request hrequest
      obtain ⟨call, hcall, rfl⟩ := List.mem_map.mp hrequest
      exact hmem call (List.mem_of_mem_filter hcall)
    have hlength := (hmap.subperm hsubset).length_le
    rw [List.length_map] at hlength
    exact hlength
  have hsplit := List.length_eq_length_filter_add (l := calls) fun call ↦ decide (call.provider = .stt)
  have hother : calls.filter (fun call ↦ !decide (call.provider = .stt)) =
      calls.filter (·.provider = .llm) := by
    apply List.filter_congr
    intro call _
    cases call.provider <;> rfl
  rw [hother] at hsplit
  have hstt := hone .stt
  have hllm := hone .llm
  omega

theorem length_flatMap_le {α β : Type*} {bound : ℕ} (l : List α) {f : α → List β}
    (h : ∀ a ∈ l, (f a).length ≤ bound) : (l.flatMap f).length ≤ l.length * bound := by
  induction l with
  | nil => exact Nat.zero_le _
  | cons a rest ih =>
    rw [List.forall_mem_cons] at h
    rw [List.flatMap_cons, List.length_append, List.length_cons, Nat.succ_mul, Nat.add_comm]
    exact Nat.add_le_add (ih h.2) h.1

/-- Each of the calls is for an admitted hit, in the run without the errors. -/
theorem Billed.callsWithin_le {now : ℕ} {limited : List (LimiterSystem × OutageAction)}
    {shown : List (LimiterSystem × LimiterAction)} {t : LimiterSystem}
    (h : Billed s.limiter.procs s.endpoints) (hcalm : CalmRun rt limits devices now limited s.limiter shown t)
    (user : UUID) (window : Window) (start stop : ℕ) :
    (callsWithin devices limited s user window start stop).length ≤
      2 * ((scopesOf devices user).flatMap fun scope ↦
        (admittedHits shown t (rateLimitKey scope window.seconds) start stop).map Prod.fst).length := by
  refine length_calls_le user ((h.nodup.filter _).filter _) fun call hcall ↦ ?_
  obtain ⟨hmem, hcounted⟩ := List.mem_filter.mp hcall
  rw [decide_eq_true_eq] at hcounted
  obtain ⟨scope, hscope, hhit⟩ := List.mem_flatMap.mp hcounted.2
  obtain ⟨made, hmade, heq⟩ := List.mem_map.mp hhit
  obtain ⟨hmade, hwithin⟩ := List.mem_filter.mp hmade
  refine List.mem_flatMap.mpr ⟨scope, hscope, List.mem_map.mpr ⟨made, ?_, heq⟩⟩
  apply List.mem_filter.mpr
  refine ⟨(hcalm.hits _).symm ▸ hmade, ?_⟩
  rw [heq, hcalm.calm.procs _ hcounted.1, h.mem_callsOf hmem]
  exact decide_eq_true ⟨of_decide_eq_true hwithin, rfl⟩

/-- In every run of requests behind the limiter, with any failures of Redis, a provider is called for admitted
requests only, once each at most, and in any interval the limits of a user's scopes bound the calls for the
user's requests that were told their counts. -/
theorem spending_bounded {now : ℕ} {sync : SyncSystem} {entitlements : Table UUID Entitlement}
    {categories : List Category} (hminute : 1 ≤ limits.parseRateLimit)
    (hdaily : 1 ≤ limits.parseRateLimitDaily)
    (hrun : Run (GuardedSystem.step env limits devices) (fun _ _ ↦ True)
      (.ofTables now sync entitlements categories) trace s) :
    SpendingBounded limits devices (limiterTrace trace) s := by
  have hguarded : Guarded env limits devices now trace s := by
    apply hrun.trace_invariant (Guarded env limits devices now)
    · exact ⟨.nil, by constructor <;> simp [GuardedSystem.ofTables, ParseSystem.ofTables, ParseProc.request?]⟩
    · intro trace s action s' h _ hstep
      exact h.step hstep
  obtain ⟨shown, t, hcalm⟩ := calmRun_of_run hguarded.limited
  constructor
  · exact hguarded.billed.nodup
  · intro user call hcall
    exact hguarded.billed.mem_callsOf hcall
  · exact fun call hcall ↦ hguarded.billed.exists_user hcall
  · intro user call hcall hfailed window hwindow
    have hhit := hitSoFar_of_run hcalm.run ⟨user, call.request⟩
    rw [hcalm.calm.procs _ hfailed, hguarded.billed.mem_callsOf hcall] at hhit
    obtain ⟨scope, hscope, time, hmem⟩ := hhit window hwindow
    rw [hcalm.hits] at hmem
    refine ⟨time + 1, List.mem_flatMap.mpr ⟨scope, hscope.mem_scopesOf, ?_⟩⟩
    exact List.mem_map.mpr ⟨_, List.mem_filter.mpr ⟨hmem, by simp⟩, rfl⟩
  · intro user window hwindow start
    have hscope (scope : String) : (admittedHits shown t (rateLimitKey scope window.seconds) start
        (start + window.ms)).length ≤ (2 * window.limit).toNat := by
      have hkept : WindowKept shown t scope window := windowKept_of_run hminute hdaily hcalm.run hwindow
      have hinterval := hkept.interval start
      omega
    have hlimit : 0 ≤ window.limit := by
      rw [windows, List.mem_pair] at hwindow
      rcases hwindow with rfl | rfl
      · exact zero_le_one.trans hminute
      · exact zero_le_one.trans hdaily
    have hcalls := hguarded.billed.callsWithin_le hcalm user window start (start + window.ms)
    have hsum := length_flatMap_le (scopesOf devices user) fun scope _ ↦
      (List.length_map (Prod.fst : RequestId × ℕ → RequestId)).trans_le (hscope scope)
    have hall := hcalls.trans (Nat.mul_le_mul_left 2 hsum)
    rw [length_scopesOf] at hall
    calc ((callsWithin devices (limiterTrace trace) s user window start (start + window.ms)).length : ℤ)
        ≤ ((2 * ((1 + Table.countRows (fun _ device ↦ device.userId = user) devices) *
            (2 * window.limit).toNat) : ℕ) : ℤ) := by exact_mod_cast hall
      _ = 2 * ((1 + Table.countRows (fun _ device ↦ device.userId = user) devices) * (2 * window.limit)) := by
          push_cast [Int.toNat_of_nonneg (by omega : 0 ≤ 2 * window.limit)]
          ring
  · intro hclosed user call hcall hfailed
    have hanswer := hcalm.calm.failed _ hfailed
    rw [hguarded.billed.mem_callsOf hcall, RateLimitSettings.onRedisError, hclosed] at hanswer
    cases hanswer

end

/-- A request of the first sample user, from its arrival at the limiter to its gate. -/
def guardedRequest (r : ℕ) (hits : List OutageAction) : List GuardedAction :=
  .limit (.regular (.arrive ⟨⟨1⟩, r⟩ none)) :: hits.map .limit ++
    [.enter r ⟨⟨1⟩, .parse "coffee", none⟩, .proceed (.resolve r 0), .proceed (.count r 0)]

/-- The first request is admitted, and Redis fails for the second one, which is let through. -/
theorem spending_bounded_sample : ∃ trace s, s.endpoints.calls = [⟨0, .llm⟩, ⟨1, .llm⟩] ∧
    (callsWithin SyncSystem.sample.devices (limiterTrace trace) s ⟨1⟩ ⟨60, 1⟩ 0 60000) = [⟨0, .llm⟩] ∧
      SpendingBounded sampleLimits SyncSystem.sample.devices (limiterTrace trace) s := by
  let step := GuardedSystem.step sampleEnv sampleLimits SyncSystem.sample.devices
  let start : GuardedSystem := .ofTables 0 .sample ∅ []
  let hit (r : ℕ) : OutageAction := .regular (.advance ⟨⟨1⟩, r⟩)
  let actions := guardedRequest 0 [hit 0, hit 0] ++ guardedRequest 1 [.replyLost ⟨⟨1⟩, 1⟩]
  have hexec : (exec step start actions).map
    (fun s ↦ (s.endpoints.calls, callsWithin SyncSystem.sample.devices
      (limiterTrace (traceOf step start actions)) s ⟨1⟩ ⟨60, 1⟩ 0 60000)) =
        some ([⟨0, .llm⟩, ⟨1, .llm⟩], [⟨0, .llm⟩]) := by
    decide +kernel
  obtain ⟨s, hs, hfacts⟩ := Option.map_eq_some_iff.mp hexec
  obtain ⟨hcalls, hwithin⟩ := Prod.mk.inj hfacts
  exact ⟨_, s, hcalls, hwithin, spending_bounded le_rfl le_rfl (run_of_exec hs)⟩

end VoiceSpend
