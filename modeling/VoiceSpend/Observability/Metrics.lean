import VoiceSpend.Library.Emission
import VoiceSpend.Observability.Middleware
import VoiceSpend.Parse.Endpoints
import VoiceSpend.Webhooks.Concurrent

/-!
# The metrics and who records them

The label tuples of the registry, and the code that records them, call by call. `labels(...)` makes a
series before its counter takes an amount, so a series stays even where `inc` raises.
-/

namespace VoiceSpend

open Emitting

/-- A metric with a tuple of its labels. -/
inductive MetricSample
  | httpRequestDuration (labels : HttpLabels)
  | parseRequests (provider model status : String)
  | parseLatency (provider stage : String)
  | parseLlmCostUsd (provider model : String)
  | parseTokens (provider model kind : String)
  | rateLimited (endpoint : String)
  | rateLimiterRedisErrors
  | syncPushRecords (result : String)
  | syncPushNew
  | webhookEvents (eventType : Text) (outcome : String)
  deriving DecidableEq, Repr

/-! ## Label texts -/

def SyncRecordStatus.value : SyncRecordStatus → String
  | .applied => "applied"
  | .staleIgnored => "stale_ignored"
  | .rejected => "rejected"

def ParseStatusLiteral.value : ParseStatusLiteral → String
  | .ok => "ok"
  | .lowConfidence => "low_confidence"
  | .failed => "failed"
  | .quotaExceeded => "quota_exceeded"

/-- The `outcome` that `revenuecat_webhook` records before this answer; a 401 records nothing. -/
def WebhookResponse.outcome : WebhookResponse → Option String
  | .invalidCredentials => none
  | .alreadyProcessed => some "duplicate"
  | .ignoredUnmappedUser | .ignoredUnhandledEventType => some "unmatched"
  | .ignoredStaleEvent => some "stale"
  | .processed => some "applied"

/-- `_endpoint_label`: what follows the last slash of the path. -/
def endpointLabel (path : String) : String :=
  String.ofList (path.toList.reverse.takeWhile (· ≠ '/')).reverse

/-- The routes that depend on `enforce_parse_rate_limit`. -/
def Route.limited : Route → Bool
  | .parse | .transcribe => true
  | _ => false

theorem endpointLabel_append (front last : String) (h : '/' ∉ last.toList) :
    endpointLabel (front ++ "/" ++ last) = last := by
  have hlast : ∀ c ∈ last.toList.reverse, decide (c ≠ '/') = true := by
    intro c hmem
    refine decide_eq_true ?_
    rintro rfl
    exact h (List.mem_reverse.mp hmem)
  have htake : (last.toList.reverse ++ '/' :: front.toList.reverse).takeWhile (· ≠ '/') =
      last.toList.reverse := by
    rw [List.takeWhile_append_of_pos hlast, List.takeWhile_cons_of_neg (by decide), List.append_nil]
  have hpath : (front ++ "/" ++ last).toList.reverse =
      last.toList.reverse ++ '/' :: front.toList.reverse := by
    simp
  rw [endpointLabel, hpath, htake, List.reverse_reverse, String.ofList_toList]

/-- The two endpoints, wherever the application is mounted. -/
theorem endpointLabel_of_limited (rootPath : String) {route : Route} (h : route.limited = true) :
    endpointLabel (rootPath ++ route.path) = "parse" ∨
      endpointLabel (rootPath ++ route.path) = "transcribe" := by
  cases route <;> cases h
  · refine .inl ?_
    have hpath : rootPath ++ Route.parse.path = rootPath ++ "/api/v1" ++ "/" ++ "parse" := by
      simp [Route.path, String.append_assoc]
    rw [hpath]
    exact endpointLabel_append _ _ (by decide)
  · refine .inr ?_
    have hpath : rootPath ++ Route.transcribe.path = rootPath ++ "/api/v1" ++ "/" ++ "transcribe" := by
      simp [Route.path, String.append_assoc]
    rw [hpath]
    exact endpointLabel_append _ _ (by decide)

/-! ## The parse pipeline -/

namespace Metered

/-- `record_parse_tokens`. -/
def recordParseTokens (inc : ℚ → Bool) (provider model kind : String) :
    Option ℤ → Emitting MetricSample Unit
  | none => pure ()
  | some count =>
    if count = 0 then pure ()
    else do
      emit (.parseTokens provider model kind)
      ofOption (if inc count then some () else none)

/-- `record_parse_cost`, on a known cost. -/
def recordParseCost (inc : ℚ → Bool) (provider model : String) : Option ℚ → Emitting MetricSample Unit
  | none => pure ()
  | some cost =>
    if 0 < cost then do
      emit (.parseLlmCostUsd provider model)
      ofOption (if inc cost then some () else none)
    else pure ()

/-- `_run_extraction`. -/
def runExtraction (rt : ParseRuntime) (inc : ℚ → Bool) (settings : ParseSettings)
    (categories : List Category) (rates : FxTable) (user : User) (text : Text) (referenceTime : DateTime)
    (extractor : LLMExtractor) (traceId : Option String) (entitlement : EntitlementSignal) :
    Emitting MetricSample ParseResponse := do
  let outcome := extractor.outcome categories user text referenceTime
  emit (.parseLatency extractor.providerName "llm")
  let costUsd ← ofOption (estimateCostUsd extractor.providerName extractor.modelName outcome.promptTokens
    outcome.completionTokens)
  recordParseTokens inc extractor.providerName extractor.modelName "prompt" outcome.promptTokens
  recordParseTokens inc extractor.providerName extractor.modelName "completion" outcome.completionTokens
  recordParseCost inc extractor.providerName extractor.modelName costUsd
  let answer ← ofOption (toResponse rt settings rates user.baseCurrency (knownCategoryNames categories)
    referenceTime outcome)
  emit (.parseLatency extractor.providerName "total")
  emit (.parseRequests extractor.providerName extractor.modelName answer.1.value)
  return ⟨answer.1, answer.2, traceId, entitlement⟩

/-- The gate records a request over quota. -/
def gate (env : ParseEnv) (request : ParseRequest) (entitlement : EntitlementSignal) (clock : Instant) :
    Emitting MetricSample (ParseProc × Option Provider) := do
  if entitlement.overQuota then emit (.parseRequests env.providerName env.modelName "quota_exceeded")
  return VoiceSpend.gate request entitlement clock

/-- What follows the STT call. -/
def transcribed (env : ParseEnv) (sttProviderName : String) (request : ParseRequest)
    (entitlement : EntitlementSignal) (clock : Instant) (traceId : Option String) (heard : Awaited Text) :
    Emitting MetricSample (ParseProc × Option Provider) := do
  emit (.parseLatency sttProviderName "stt")
  match heard with
  | .returned _ => pure ()
  | .raised _ | .timedOut => emit (.parseRequests env.providerName env.modelName "failed")
  return VoiceSpend.transcribed request entitlement clock traceId heard

/-! ## The other endpoints -/

/-- The last loop of `enforce_parse_rate_limit`. -/
def answer (endpoint : String) (decisions : List Decision) : Emitting MetricSample LimiterAnswer :=
  match decisions.find? fun decision ↦ decision.limit < decision.count with
  | none => pure .admitted
  | some decision => do
    emit (.rateLimited endpoint)
    return .raised (.rateLimited (max 1 ((decision.ttlMs + 999) / 1000)))

/-- What `push_sync` records: each status of the results once, and whether a row is new. -/
def pushed (results : List SyncPushResult) (newCount : ℕ) : List MetricSample :=
  (results.map (·.status.value)).eraseDups.map .syncPushRecords ++ if newCount = 0 then [] else [.syncPushNew]

/-! ## The same code as without metrics -/

theorem result_recordParseTokens (inc : ℚ → Bool) (provider model kind : String) (count : Option ℤ) :
    (recordParseTokens inc provider model kind count).result = VoiceSpend.recordParseTokens inc count := by
  cases count with
  | none => rfl
  | some count =>
    unfold recordParseTokens VoiceSpend.recordParseTokens
    dsimp only
    split
    · rfl
    · rw [result_bind]
      rfl

theorem result_recordParseCost (inc : ℚ → Bool) (provider model : String) (cost : Option ℚ) :
    (recordParseCost inc provider model cost).result = VoiceSpend.recordParseCost inc cost := by
  cases cost with
  | none => rfl
  | some cost =>
    unfold recordParseCost VoiceSpend.recordParseCost
    dsimp only
    split
    · rw [result_bind]
      rfl
    · rfl

theorem result_runExtraction (rt : ParseRuntime) (inc : ℚ → Bool) (settings : ParseSettings)
    (categories : List Category) (rates : FxTable) (user : User) (text : Text) (referenceTime : DateTime)
    (extractor : LLMExtractor) (traceId : Option String) (entitlement : EntitlementSignal) :
    (runExtraction rt inc settings categories rates user text referenceTime extractor traceId
      entitlement).result = VoiceSpend.runExtraction rt inc settings categories rates user text referenceTime
        extractor traceId entitlement := by
  simp only [runExtraction, VoiceSpend.runExtraction, result_bind, result_emit, result_ofOption, result_pure,
    result_recordParseTokens, result_recordParseCost, Option.bind_eq_bind, Option.bind_some, Option.pure_def]

theorem result_gate (env : ParseEnv) (request : ParseRequest) (entitlement : EntitlementSignal)
    (clock : Instant) :
    (gate env request entitlement clock).result = some (VoiceSpend.gate request entitlement clock) := by
  unfold gate
  cases entitlement.overQuota <;> rfl

theorem result_transcribed (env : ParseEnv) (sttProviderName : String) (request : ParseRequest)
    (entitlement : EntitlementSignal) (clock : Instant) (traceId : Option String) (heard : Awaited Text) :
    (transcribed env sttProviderName request entitlement clock traceId heard).result =
      some (VoiceSpend.transcribed request entitlement clock traceId heard) := by
  unfold transcribed
  cases heard <;> rfl

theorem result_answer (endpoint : String) (decisions : List Decision) :
    (answer endpoint decisions).result = some (VoiceSpend.answer decisions) := by
  unfold answer VoiceSpend.answer
  cases decisions.find? fun decision ↦ decision.limit < decision.count <;> rfl

end Metered

end VoiceSpend
