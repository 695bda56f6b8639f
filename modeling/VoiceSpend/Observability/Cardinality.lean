import Mathlib.Data.Finite.Prod
import Mathlib.Data.Fintype.Option
import Mathlib.Data.Set.Finite.Lattice
import Mathlib.Order.Interval.Finset.Nat
import VoiceSpend.Observability.Metrics
import VoiceSpend.Observability.RequestId

/-!
# Is the number of series bounded?

The whole server: requests and their `dispatch`, the parse endpoints beside the sync transactions, the
rate limiter and the webhook, in any order of steps. Routes, endpoints, stages and statuses are bounded by
the code, providers and models by the configuration. Two labels are texts from outside: the method of a
request, and the type of a webhook event. The series of a server are finitely many exactly when these are.
-/

namespace VoiceSpend

open Emitting Machine

instance : Fintype Route where
  elems := {.liveness, .readiness, .pushSync, .pullSync, .parse, .transcribe, .revenuecat, .metrics, .openapi,
    .docs, .oauth2Redirect, .redoc}
  complete route := by cases route <;> decide

instance : Fintype ParseStatusLiteral where
  elems := {.ok, .lowConfidence, .failed, .quotaExceeded}
  complete status := by cases status <;> decide

instance : Fintype SyncRecordStatus where
  elems := {.applied, .staleIgnored, .rejected}
  complete status := by cases status <;> decide

instance : Fintype WebhookResponse where
  elems := {.invalidCredentials, .alreadyProcessed, .ignoredUnmappedUser, .ignoredStaleEvent,
    .ignoredUnhandledEventType, .processed}
  complete response := by cases response <;> decide

/-! ## The server -/

/-- What the server is configured with; the root path is where it is mounted. -/
structure MetricsEnv extends ParseEnv where
  sttProviderName : String
  rootPath : String
  rateLimits : RateLimitSettings

/-- All parts of the server, and the label tuples recorded so far. -/
structure Server where
  http : HttpSystem
  parse : ParseSystem
  limiter : LimiterSystem
  webhooks : WebhookSystem
  recorded : List MetricSample

/-- A step of one part; a hit of the rate limiter belongs to a request of that route. -/
inductive ServerAction
  | http (action : HttpAction)
  | parse (action : ParseAction)
  | limiter (route : Route) (action : LimiterAction)
  | webhook (action : WebhookAction)

/-! ### What each step records -/

/-- `dispatch` observes the duration after `call_next`. -/
def HttpSystem.samples (s : HttpSystem) : HttpAction → List MetricSample
  | .leave t route outcome =>
    match s.tasks t with
    | some ⟨vars, frame :: _, _⟩ =>
      ((frame.leave vars route outcome).observed.map .httpRequestDuration).toList
    | _ => []
  | _ => []

/-- `push_sync` records after its commit. -/
def SyncSystem.samples (s : SyncSystem) : SyncAction → List MetricSample
  | .advance t _ =>
    match s.procs t with
    | .push ⟨_, scanned, rejects, _, .committing returned _⟩ =>
      Metered.pushed (scanned.order.map (resultFor rejects returned)) (newCount returned)
    | _ => []
  | _ => []

def ParseSystem.samples (env : MetricsEnv) (s : ParseSystem) : ParseAction → List MetricSample
  | .sync action => s.sync.samples action
  | .count r clock =>
    match s.requests r with
    | .counting request effective => (Metered.gate env.toParseEnv request
        (s.signal env.settings request effective clock) clock).emitted
    | _ => []
  | .hear r clock traceId heard =>
    match s.requests r with
    | .listening request entitlement => (Metered.transcribed env.toParseEnv env.sttProviderName request
        entitlement clock traceId heard).emitted
    | _ => []
  | .extract r traceId outcome =>
    match s.requests r, (s.requests r).request?.bind fun request ↦ s.sync.users.lookup request.user with
    | .extracting _ text _ referenceTime entitlement, some user =>
      (Metered.runExtraction env.rt env.inc env.parseSettings s.categories s.sync.fxRates user text
        referenceTime ⟨env.providerName, env.modelName, fun _ _ ↦ outcome⟩ traceId entitlement).emitted
    | _, _ => []
  | .entitle .. | .receive .. | .resolve .. => []

/-- `enforce_parse_rate_limit` answers after its last hit, or at a `RedisError`. -/
def LimiterSystem.samples (s : LimiterSystem) (endpoint : String) : LimiterAction → List MetricSample
  | .advance request =>
    match s.procs request with
    | .limiting ⟨scope, [window], decisions⟩ =>
      let (_, count, ttlMs) := hit s.redis (rateLimitKey scope window.seconds) window.seconds
      (Metered.answer endpoint (decisions ++ [⟨count, ttlMs, window.limit⟩])).emitted
    | _ => []
  | .redisError request =>
    match s.procs request with
    | .limiting _ => [.rateLimiterRedisErrors]
    | _ => []
  | .arrive .. | .elapse _ => []

/-- `revenuecat_webhook` records after its commit. -/
def WebhookSystem.samples (s : WebhookSystem) : WebhookAction → List MetricSample
  | .advance t =>
    match s.runs t with
    | .running ⟨event, _, .committing response⟩ =>
      (response.outcome.map (.webhookEvents event.type)).toList
    | _ => []
  | _ => []

/-- A response has a status code of three digits. -/
def HttpAction.threeDigits : HttpAction → Bool
  | .leave _ _ (.returned statusCode) => decide (100 ≤ statusCode ∧ statusCode < 1000)
  | _ => true

namespace Server

def step (env : MetricsEnv) (s : Server) : ServerAction → Option Server
  | .http action =>
    if action.threeDigits = true then
      (s.http.step action).map fun http ↦
        { s with http := http, recorded := s.recorded ++ s.http.samples action }
    else none
  | .parse action =>
    (ParseSystem.step env.toParseEnv s.parse action).map fun parse ↦
      { s with parse := parse, recorded := s.recorded ++ s.parse.samples env action }
  | .limiter route action =>
    if route.limited = true then
      (LimiterSystem.step env.rt.toRuntime env.rateLimits s.parse.sync.devices s.limiter action).map
        fun limiter ↦ { s with
          limiter := limiter
          recorded := s.recorded ++ s.limiter.samples (endpointLabel (env.rootPath ++ route.path)) action }
    else none
  | .webhook action =>
    (WebhookSystem.step env.rt.toRuntime s.webhooks action).map fun webhooks ↦
      { s with webhooks := webhooks, recorded := s.recorded ++ s.webhooks.samples action }

/-- Tasks, tables and a Redis; no request, no transaction and no series yet. -/
def ofTables (contexts : ℕ → Option ContextVars) (sync : SyncSystem) (entitlements : Table UUID Entitlement)
    (categories : List Category) (redis : Redis) (billing : Billing) : Server where
  http := .ofContexts contexts
  parse := .ofTables sync entitlements categories
  limiter := .ofRedis redis
  webhooks := .ofBilling billing
  recorded := []

end Server

/-- Requests have these methods, and authenticated deliveries are of events of these types. -/
def ServerAction.From (methods : Set String) (eventTypes : Set Text) : ServerAction → Prop
  | .http (.dispatch _ request _) => request.method ∈ methods
  | .webhook (.deliver _ event _) => event.type ∈ eventTypes
  | _ => True

/-- One finite set holds every label tuple that any run with these methods and event types records. -/
def MetricsEnv.Bounded (env : MetricsEnv) (methods : Set String) (eventTypes : Set Text) : Prop :=
  ∃ labels : Set MetricSample, labels.Finite ∧ ∀ contexts sync entitlements categories redis billing trace s,
    Run (Server.step env) (fun _ action ↦ action.From methods eventTypes)
      (.ofTables contexts sync entitlements categories redis billing) trace s →
        ∀ sample ∈ s.recorded, sample ∈ labels

/-! ## The label tuples -/

/-- The tuples that the routes, the enumerations, the configuration and these two sets allow. -/
inductive LabelTuple (env : MetricsEnv) (methods : Set String) (eventTypes : Set Text) : MetricSample → Prop
  | http (route : Option Route) {method : String} (hmethod : method ∈ methods) {statusCode : ℕ}
      (hcode : statusCode ∈ Set.Ico 100 1000) :
      LabelTuple env methods eventTypes
        (.httpRequestDuration ⟨routeLabel route, method, toString statusCode⟩)
  | parse (status : ParseStatusLiteral) :
      LabelTuple env methods eventTypes (.parseRequests env.providerName env.modelName status.value)
  | llm : LabelTuple env methods eventTypes (.parseLatency env.providerName "llm")
  | total : LabelTuple env methods eventTypes (.parseLatency env.providerName "total")
  | stt : LabelTuple env methods eventTypes (.parseLatency env.sttProviderName "stt")
  | cost : LabelTuple env methods eventTypes (.parseLlmCostUsd env.providerName env.modelName)
  | prompt : LabelTuple env methods eventTypes (.parseTokens env.providerName env.modelName "prompt")
  | completion : LabelTuple env methods eventTypes (.parseTokens env.providerName env.modelName "completion")
  | limited {endpoint : String} (hendpoint : endpoint = "parse" ∨ endpoint = "transcribe") :
      LabelTuple env methods eventTypes (.rateLimited endpoint)
  | redisError : LabelTuple env methods eventTypes .rateLimiterRedisErrors
  | pushed (status : SyncRecordStatus) : LabelTuple env methods eventTypes (.syncPushRecords status.value)
  | pushedNew : LabelTuple env methods eventTypes .syncPushNew
  | webhook {eventType : Text} {outcome : String} (htype : eventType ∈ eventTypes)
    (response : WebhookResponse)
      (houtcome : response.outcome = some outcome) :
      LabelTuple env methods eventTypes (.webhookEvents eventType outcome)

section

variable {env : MetricsEnv} {methods : Set String} {eventTypes : Set Text}

theorem finite_labelTuple (hmethods : methods.Finite) (htypes : eventTypes.Finite) :
    {sample | LabelTuple env methods eventTypes sample}.Finite := by
  have hhttp : (Set.image (fun label : Option Route × String × ℕ ↦
      MetricSample.httpRequestDuration ⟨routeLabel label.1, label.2.1, toString label.2.2⟩)
        (Set.univ ×ˢ methods ×ˢ Set.Ico 100 1000)).Finite :=
    (Set.finite_univ.prod (hmethods.prod (Set.finite_Ico 100 1000))).image _
  have hwebhook : (Set.image (fun label : Text × WebhookResponse ↦ MetricSample.webhookEvents label.1
      (label.2.outcome.getD "")) (eventTypes ×ˢ Set.univ)).Finite :=
    (htypes.prod Set.finite_univ).image _
  have hparse := Set.finite_range fun status : ParseStatusLiteral ↦
    MetricSample.parseRequests env.providerName env.modelName status.value
  have hpushed := Set.finite_range fun status : SyncRecordStatus ↦ MetricSample.syncPushRecords status.value
  have hsingle := Set.toFinite ({.parseLatency env.providerName "llm", .parseLatency env.providerName "total",
    .parseLatency env.sttProviderName "stt", .parseLlmCostUsd env.providerName env.modelName,
    .parseTokens env.providerName env.modelName "prompt",
    .parseTokens env.providerName env.modelName "completion", .rateLimited "parse",
    .rateLimited "transcribe", .rateLimiterRedisErrors, .syncPushNew} : Set MetricSample)
  refine (hhttp.union (hwebhook.union (hparse.union (hpushed.union hsingle)))).subset ?_
  intro sample h
  cases h with
  | @http route method hmethod statusCode hcode =>
    exact .inl ⟨(route, method, statusCode), ⟨trivial, hmethod, hcode⟩, rfl⟩
  | @webhook eventType outcome htype response houtcome =>
    exact .inr (.inl ⟨(eventType, response), ⟨htype, trivial⟩, by simp [houtcome]⟩)
  | parse status => exact .inr (.inr (.inl ⟨status, rfl⟩))
  | pushed status => exact .inr (.inr (.inr (.inl ⟨status, rfl⟩)))
  | limited hendpoint =>
    refine .inr (.inr (.inr (.inr ?_)))
    rcases hendpoint with rfl | rfl <;> simp
  | llm | total | stt | cost | prompt | completion | redisError | pushedNew =>
    exact .inr (.inr (.inr (.inr (by simp))))

/-! ## What a step can record -/

namespace Metered

theorem recordParseTokens_within {inc : ℚ → Bool} {provider model kind : String} {count : Option ℤ}
    {allowed : Set MetricSample} (h : .parseTokens provider model kind ∈ allowed) :
    (recordParseTokens inc provider model kind count).Within allowed := by
  cases count with
  | none => exact within_pure _
  | some count =>
    unfold recordParseTokens
    dsimp only
    split
    · exact within_pure _
    · exact (within_emit h).bind fun _ ↦ within_ofOption _

theorem recordParseCost_within {inc : ℚ → Bool} {provider model : String} {cost : Option ℚ}
    {allowed : Set MetricSample} (h : .parseLlmCostUsd provider model ∈ allowed) :
    (recordParseCost inc provider model cost).Within allowed := by
  cases cost with
  | none => exact within_pure _
  | some cost =>
    unfold recordParseCost
    dsimp only
    split
    · exact (within_emit h).bind fun _ ↦ within_ofOption _
    · exact within_pure _

theorem runExtraction_within (rt : ParseRuntime) (inc : ℚ → Bool) (settings : ParseSettings)
    (categories : List Category) (rates : FxTable) (user : User) (text : Text) (referenceTime : DateTime)
    (extract : Text → ExtractionContext → Awaited ExtractionResult) (traceId : Option String)
    (entitlement : EntitlementSignal) :
    (runExtraction rt inc settings categories rates user text referenceTime
      ⟨env.providerName, env.modelName, extract⟩ traceId entitlement).Within
        {sample | LabelTuple env methods eventTypes sample} := by
  unfold runExtraction
  refine (within_emit .llm).bind fun _ ↦ (within_ofOption _).bind fun costUsd ↦ ?_
  refine (recordParseTokens_within .prompt).bind fun _ ↦ ?_
  refine (recordParseTokens_within .completion).bind fun _ ↦ ?_
  refine (recordParseCost_within .cost).bind fun _ ↦ (within_ofOption _).bind fun answer ↦ ?_
  exact (within_emit .total).bind fun _ ↦ (within_emit (.parse answer.1)).bind fun _ ↦ within_pure _

theorem gate_within (request : ParseRequest) (entitlement : EntitlementSignal) (clock : Instant) :
    (gate env.toParseEnv request entitlement clock).Within
      {sample | LabelTuple env methods eventTypes sample} := by
  unfold gate
  split
  · exact (within_emit (.parse .quotaExceeded)).bind fun _ ↦ within_pure _
  · exact within_pure _

theorem transcribed_within (request : ParseRequest) (entitlement : EntitlementSignal) (clock : Instant)
    (traceId : Option String) (heard : Awaited Text) :
    (transcribed env.toParseEnv env.sttProviderName request entitlement clock traceId heard).Within
      {sample | LabelTuple env methods eventTypes sample} := by
  unfold transcribed
  refine (within_emit .stt).bind fun _ ↦ ?_
  cases heard with
  | returned => exact (within_pure _).bind fun _ ↦ within_pure _
  | raised | timedOut => exact (within_emit (.parse .failed)).bind fun _ ↦ within_pure _

theorem answer_within {route : Route} (hroute : route.limited = true) (decisions : List Decision) :
    (answer (endpointLabel (env.rootPath ++ route.path)) decisions).Within
      {sample | LabelTuple env methods eventTypes sample} := by
  unfold answer
  split
  · exact within_pure _
  · exact (within_emit (.limited (endpointLabel_of_limited env.rootPath hroute))).bind fun _ ↦ within_pure _

theorem labelTuple_pushed (results : List SyncPushResult) (newCount : ℕ) :
    ∀ sample ∈ pushed results newCount, LabelTuple env methods eventTypes sample := by
  refine List.forall_mem_append.mpr ⟨fun sample hmem ↦ ?_, fun sample hmem ↦ ?_⟩
  · obtain ⟨value, hvalue, rfl⟩ := List.mem_map.mp hmem
    obtain ⟨result, _, rfl⟩ := List.mem_map.mp (List.mem_eraseDups.mp hvalue)
    exact .pushed result.status
  · split at hmem
    · cases hmem
    · rw [List.mem_singleton.mp hmem]
      exact .pushedNew

end Metered

theorem ParseSystem.labelTuple_samples (s : ParseSystem) (action : ParseAction) :
    ∀ sample ∈ s.samples env action, LabelTuple env methods eventTypes sample := by
  cases action with
  | sync action =>
    cases action with
    | advance t clock =>
      unfold ParseSystem.samples SyncSystem.samples
      dsimp only
      split
      · exact Metered.labelTuple_pushed _ _
      · exact List.forall_mem_nil _
    | start | abort | upsertRates | pull => exact List.forall_mem_nil _
  | count r clock =>
    unfold ParseSystem.samples
    dsimp only
    split
    · exact Metered.gate_within _ _ _
    · exact List.forall_mem_nil _
  | hear r clock traceId heard =>
    unfold ParseSystem.samples
    dsimp only
    split
    · exact Metered.transcribed_within _ _ _ _ _
    · exact List.forall_mem_nil _
  | extract r traceId outcome =>
    unfold ParseSystem.samples
    dsimp only
    split
    · exact Metered.runExtraction_within _ _ _ _ _ _ _ _ _ _ _
    · exact List.forall_mem_nil _
  | entitle | receive | resolve => exact List.forall_mem_nil _

theorem LimiterSystem.labelTuple_samples (s : LimiterSystem) (action : LimiterAction) {route : Route}
    (hroute : route.limited = true) :
    ∀ sample ∈ s.samples (endpointLabel (env.rootPath ++ route.path)) action,
      LabelTuple env methods eventTypes sample := by
  cases action with
  | advance request =>
    unfold LimiterSystem.samples
    dsimp only
    split
    · exact Metered.answer_within hroute _
    · exact List.forall_mem_nil _
  | redisError request =>
    unfold LimiterSystem.samples
    dsimp only
    split
    · exact List.forall_mem_singleton.mpr .redisError
    · exact List.forall_mem_nil _
  | arrive | elapse => exact List.forall_mem_nil _

/-! ## Methods and event types -/

theorem HttpSystem.labelTuple_samples {s : HttpSystem} {action : HttpAction}
    (hmethods : ∀ t, ∀ frame ∈ s.frames t, frame.method ∈ methods) (hdigits : action.threeDigits = true) :
    ∀ sample ∈ s.samples action, LabelTuple env methods eventTypes sample := by
  cases action with
  | leave t route outcome =>
    unfold HttpSystem.samples
    dsimp only
    split
    · rename_i vars frame rest serving htask
      have hmethod : frame.method ∈ methods := hmethods t frame (by simp [HttpSystem.frames, htask])
      cases outcome with
      | returned statusCode =>
        exact List.forall_mem_singleton.mpr (.http route hmethod (of_decide_eq_true hdigits))
      | raised =>
        have hcode : toString (500 : ℕ) = "500" := by decide
        refine List.forall_mem_singleton.mpr ?_
        rw [← hcode]
        exact .http route hmethod ⟨by decide, by decide⟩
      | cancelled => exact List.forall_mem_nil _
    · exact List.forall_mem_nil _
  | create | dispatch | log | bindTrace => exact List.forall_mem_nil _

theorem HttpOutcome.knownMethods {s s' : HttpSystem} {action : HttpAction} (h : HttpOutcome s action s')
    (hfrom : (ServerAction.http action).From methods eventTypes)
    (hmethods : ∀ t, ∀ frame ∈ s.frames t, frame.method ∈ methods) :
    ∀ t, ∀ frame ∈ s'.frames t, frame.method ∈ methods := by
  intro t
  rcases h.frames t with hsame | ⟨request, generated, rfl, hnew⟩ | ⟨top, htop⟩
  · rw [hsame]
    exact hmethods t
  · rw [hnew]
    exact List.forall_mem_cons.mpr ⟨hfrom, hmethods t⟩
  · exact fun frame hmem ↦ hmethods t frame (by rw [htop]; exact List.mem_cons_of_mem _ hmem)

/-- The types that the audit row can hold. -/
def storedTypes (eventTypes : Set Text) : Set Text := {type | type ∈ eventTypes ∧ textFits type = true}

/-- The event of an open run has one of these types, which is stored after the first statement. -/
def KnownType (eventTypes : Set Text) (state : HandlerState) : Prop :=
  ∀ run, state = .running run → run.event.type ∈ eventTypes ∧
    (run.stage ≠ .recording → textFits run.event.type = true)

def KnownTypes (eventTypes : Set Text) (s : WebhookSystem) : Prop := ∀ t, KnownType eventTypes (s.runs t)

theorem KnownTypes.setRun {s s' : WebhookSystem} (h : KnownTypes eventTypes s) {t : ℕ} {state : HandlerState}
    (hruns : s'.runs = Function.update s.runs t state) (hstate : KnownType eventTypes state) :
    KnownTypes eventTypes s' := by
  unfold KnownTypes
  rw [hruns, Function.forall_update_iff s.runs fun _ ↦ KnownType eventTypes]
  exact ⟨hstate, fun u _ ↦ h u⟩

/-- A run that goes on after its first statement has stored its texts. -/
theorem WebhookSystem.textFits_of_recording {rt : Runtime} {s s' : WebhookSystem} {t : ℕ}
    {run later : HandlerRun} (hstep : WebhookSystem.step rt s (.advance t) = some s')
    (running : s.runs t = .running run) (stage : run.stage = .recording)
    (hlater : s'.runs t = .running later) : textFits run.event.type = true := by
  have hfits : run.event.textsFit rt = true := by
    by_contra hnot
    simp only [WebhookSystem.step, running, statement, stage, if_neg hnot, Option.some.injEq] at hstep
    subst hstep
    have hfailed : (s.rollback t run).runs t = .failed run.event := rollback_runs ..
    rw [hfailed] at hlater
    cases hlater
  simp only [RevenueCatEvent.textsFit, Bool.and_eq_true] at hfits
  exact hfits.1.1.1.2

theorem KnownTypes.step {rt : Runtime} {s s' : WebhookSystem} {action : WebhookAction}
    (h : KnownTypes eventTypes s) (hfrom : (ServerAction.webhook action).From methods eventTypes)
    (hstep : WebhookSystem.step rt s action = some s') : KnownTypes eventTypes s' := by
  -- a run that goes on has the event it had
  have hgoes {t : ℕ} {run : HandlerRun} {stage : HandlerStage} (running : s.runs t = .running run)
      (hfits : textFits run.event.type = true) :
      KnownType eventTypes (.running { run with stage := stage }) := by
    rintro _ ⟨⟩
    exact ⟨(h t run running).1, fun _ ↦ hfits⟩
  have houtcome := WebhookSystem.step_outcome hstep
  cases houtcome with
  | delivered idle =>
    refine h.setRun rfl fun run heq ↦ ?_
    cases heq
    exact ⟨hfrom, fun hne ↦ absurd rfl hne⟩
  | rolledBack running => exact h.setRun rfl fun _ heq ↦ nomatch heq
  | committed running => exact h.setRun rfl fun _ heq ↦ nomatch heq
  | @known t run running stage row found =>
    exact h.setRun rfl (hgoes running (WebhookSystem.textFits_of_recording hstep running stage
      (WebhookSystem.goto_runs ..)))
  | @recorded t run running stage =>
    exact h.setRun rfl (hgoes running (WebhookSystem.textFits_of_recording hstep running stage
      (WebhookSystem.goto_runs ..)))
  | @unmapped t run running stage =>
    exact h.setRun rfl (hgoes running ((h t run running).2 fun heq ↦ nomatch stage.symm.trans heq))
  | @mapped t run running stage =>
    exact h.setRun rfl (hgoes running ((h t run running).2 fun heq ↦ nomatch stage.symm.trans heq))
  | @decided t run running user stage next =>
    exact h.setRun rfl (hgoes running ((h t run running).2 fun heq ↦ nomatch stage.symm.trans heq))
  | @upserted t run running user change stage =>
    exact h.setRun rfl (hgoes running ((h t run running).2 fun heq ↦ nomatch stage.symm.trans heq))

theorem WebhookSystem.labelTuple_samples {s : WebhookSystem} (h : KnownTypes eventTypes s)
    (action : WebhookAction) :
    ∀ sample ∈ s.samples action, LabelTuple env methods (storedTypes eventTypes) sample := by
  cases action with
  | advance t =>
    unfold WebhookSystem.samples
    dsimp only
    split
    · rename_i event now response running
      obtain ⟨htype, hfits⟩ := h t _ running
      cases houtcome : response.outcome with
      | none => exact List.forall_mem_nil _
      | some outcome =>
        exact List.forall_mem_singleton.mpr (.webhook ⟨htype, hfits fun heq ↦ nomatch heq⟩ response houtcome)
    · exact List.forall_mem_nil _
  | deliver | abort => exact List.forall_mem_nil _

/-! ## Every run -/

/-- Methods and types come from the two sets, and so do the labels. -/
structure Server.Known (env : MetricsEnv) (methods : Set String) (eventTypes : Set Text)
    (s : Server) : Prop where
  frames : ∀ t, ∀ frame ∈ s.http.frames t, frame.method ∈ methods
  types : KnownTypes eventTypes s.webhooks
  recorded : ∀ sample ∈ s.recorded, LabelTuple env methods (storedTypes eventTypes) sample

theorem Server.Known.step {s s' : Server} {action : ServerAction} (h : s.Known env methods eventTypes)
    (hfrom : action.From methods eventTypes) (hstep : Server.step env s action = some s') :
    s'.Known env methods eventTypes := by
  cases action with
  | http action =>
    obtain ⟨hdigits, hstep⟩ := Option.ite_none_right_eq_some.mp hstep
    obtain ⟨http, hhttp, rfl⟩ := Option.map_eq_some_iff.mp hstep
    exact ⟨(HttpSystem.step_outcome hhttp).knownMethods hfrom h.frames, h.types,
      List.forall_mem_append.mpr ⟨h.recorded, HttpSystem.labelTuple_samples h.frames hdigits⟩⟩
  | parse action =>
    obtain ⟨parse, _, rfl⟩ := Option.map_eq_some_iff.mp hstep
    exact ⟨h.frames, h.types,
      List.forall_mem_append.mpr ⟨h.recorded, ParseSystem.labelTuple_samples s.parse action⟩⟩
  | limiter route action =>
    obtain ⟨hroute, hstep⟩ := Option.ite_none_right_eq_some.mp hstep
    obtain ⟨limiter, _, rfl⟩ := Option.map_eq_some_iff.mp hstep
    exact ⟨h.frames, h.types,
      List.forall_mem_append.mpr ⟨h.recorded, LimiterSystem.labelTuple_samples s.limiter action hroute⟩⟩
  | webhook action =>
    obtain ⟨webhooks, hwebhooks, rfl⟩ := Option.map_eq_some_iff.mp hstep
    exact ⟨h.frames, h.types.step hfrom hwebhooks,
      List.forall_mem_append.mpr ⟨h.recorded, WebhookSystem.labelTuple_samples h.types action⟩⟩

theorem Server.known_ofTables (contexts : ℕ → Option ContextVars) (sync : SyncSystem)
    (entitlements : Table UUID Entitlement) (categories : List Category) (redis : Redis) (billing : Billing) :
    (ofTables contexts sync entitlements categories redis billing).Known env methods eventTypes := by
  refine ⟨fun t frame hmem ↦ ?_, fun _ _ h ↦ (nomatch h), fun _ h ↦ nomatch h⟩
  have hnone : (HttpSystem.ofContexts contexts).frames t = [] := by
    simp only [HttpSystem.frames, HttpSystem.ofContexts]
    cases contexts t <;> rfl
  rw [ofTables, hnone] at hmem
  cases hmem

theorem bounded_of_finite (hmethods : methods.Finite) (htypes : (storedTypes eventTypes).Finite) :
    env.Bounded methods eventTypes := by
  refine ⟨_, @finite_labelTuple env _ _ hmethods htypes, ?_⟩
  intro contexts sync entitlements categories redis billing trace s hrun
  have hknown : s.Known env methods eventTypes := hrun.invariant (Server.Known env methods eventTypes)
    (Server.known_ofTables contexts sync entitlements categories redis billing)
    fun _ _ _ hknown hfrom hstep ↦ hknown.step hfrom hstep
  exact hknown.recorded

/-! ## Every text becomes a label -/

/-- One task outside any request, and empty tables. -/
def Server.empty : Server :=
  ofTables (fun t ↦ if t = 0 then some ⟨none, none⟩ else none) (.ofTables ∅ ∅ ∅ ∅ ∅ 0 ⟨0⟩) ∅ []
    ⟨0, fun _ ↦ none⟩ ⟨∅, ∅, ∅⟩

/-- A request to no route. -/
def requestOf (method : String) : List ServerAction :=
  [.http (.dispatch 0 ⟨method, none⟩ ⟨0⟩), .http (.leave 0 none (.returned 404))]

/-- A delivery of an event about nobody. -/
def deliveryOf (eventType : Text) : List ServerAction :=
  .webhook (.deliver 0 ⟨"", eventType, "", 0, none, none, none⟩ 0) :: List.replicate 3 (.webhook (.advance 0))

theorem recorded_requestOf (method : String) :
    (exec (Server.step env) .empty (requestOf method)).map (·.recorded) =
      some [.httpRequestDuration ⟨"unmatched", method, "404"⟩] := by
  rfl

theorem recorded_deliveryOf {eventType : Text} (h : textFits eventType = true) :
    (exec (Server.step env) .empty (deliveryOf eventType)).map (·.recorded) =
      some [.webhookEvents eventType "unmatched"] := by
  have hfits : (RevenueCatEvent.mk "" eventType "" 0 none none none).textsFit env.rt.toRuntime = true := by
    simp only [RevenueCatEvent.textsFit, env.rt.indexable_short "" (by decide), h, optionalTextFits]
    rfl
  simp [deliveryOf, exec, Server.step, Server.empty, Server.ofTables, WebhookSystem.step,
    WebhookSystem.ofBilling, WebhookSystem.statement, WebhookSystem.setRun, WebhookSystem.goto,
    WebhookSystem.record, WebhookSystem.commit, WebhookSystem.samples, WebhookResponse.outcome, hfits,
    Versioned.Free, Versioned.ofTable, Versioned.visible, mappedUser]

/-- What an execution from the empty server records is in every bound. -/
theorem mem_of_exec {labels : Set MetricSample} {actions : List ServerAction} {sample : MetricSample}
    (hbound : ∀ contexts sync entitlements categories redis billing trace s,
      Run (Server.step env) (fun _ action ↦ action.From methods eventTypes)
        (.ofTables contexts sync entitlements categories redis billing) trace s →
          ∀ sample ∈ s.recorded, sample ∈ labels)
    (hfrom : ∀ action ∈ actions, action.From methods eventTypes)
    (hrecorded : (exec (Server.step env) .empty actions).map (·.recorded) = some [sample]) :
    sample ∈ labels := by
  obtain ⟨s, hexec, hs⟩ := Option.map_eq_some_iff.mp hrecorded
  refine hbound _ _ _ _ _ _ _ s (run_of_exec_of_forall hexec hfrom) sample ?_
  rw [hs]
  exact List.mem_singleton_self _

theorem finite_of_bounded (h : env.Bounded methods eventTypes) :
    methods.Finite ∧ (storedTypes eventTypes).Finite := by
  obtain ⟨labels, hfinite, hbound⟩ := h
  constructor
  · have hlabel : ∀ method ∈ methods, .httpRequestDuration ⟨"unmatched", method, "404"⟩ ∈ labels := by
      intro method hmethod
      refine mem_of_exec hbound ?_ (recorded_requestOf method)
      exact List.forall_mem_cons.mpr ⟨hmethod, List.forall_mem_singleton.mpr trivial⟩
    refine (hfinite.preimage (f := fun method ↦ MetricSample.httpRequestDuration
      ⟨"unmatched", method, "404"⟩) fun _ _ _ _ heq ↦ ?_).subset hlabel
    cases heq
    rfl
  · have hlabel : ∀ eventType ∈ storedTypes eventTypes, .webhookEvents eventType "unmatched" ∈ labels := by
      intro eventType htype
      refine mem_of_exec hbound ?_ (recorded_deliveryOf htype.2)
      refine List.forall_mem_cons.mpr ⟨htype.1, fun action hmem ↦ ?_⟩
      rw [List.eq_of_mem_replicate hmem]
      trivial
    refine (hfinite.preimage (f := fun eventType ↦ MetricSample.webhookEvents eventType "unmatched")
      fun _ _ _ _ heq ↦ ?_).subset hlabel
    cases heq
    rfl

/-- The series of every run are in one finite set exactly when the methods of the requests are finitely
many, and so are the types of the authenticated events that can be stored. -/
theorem labels_bounded_iff (env : MetricsEnv) (methods : Set String) (eventTypes : Set Text) :
    env.Bounded methods eventTypes ↔
      methods.Finite ∧ {type | type ∈ eventTypes ∧ textFits type = true}.Finite :=
  ⟨finite_of_bounded, fun h ↦ bounded_of_finite h.1 h.2⟩

end

/-- The defaults, with the models of the deployment and no prefix. -/
def MetricsEnv.sample : MetricsEnv where
  rt := .ascii
  inc := documentedCounter
  settings := sampleSettings
  parseSettings := sampleParseSettings
  providerName := "anthropic"
  modelName := "claude-3-5-haiku-20241022"
  sttProviderName := "groq"
  rootPath := ""
  rateLimits := ⟨20, 300, true⟩

/-- With requests of all methods, and deliveries of all event types, no finite set is enough. -/
theorem labels_not_bounded : ¬ ∀ env : MetricsEnv, env.Bounded Set.univ Set.univ := by
  intro hbounded
  have hmethods := (finite_of_bounded (hbounded .sample)).1
  exact Set.infinite_univ hmethods

end VoiceSpend
