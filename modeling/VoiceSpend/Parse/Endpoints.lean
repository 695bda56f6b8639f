import VoiceSpend.Concurrency.Counting
import VoiceSpend.Parse.Pipeline

/-!
# `POST /parse` and `POST /transcribe`

The two endpoints beside the concurrent pushes and sweeps. A request is rate limited and its size is
checked; then its entitlement signal is built by two queries, each at its own reading of the clock; then
the gate answers `quota_exceeded` or calls a provider: the LLM on a text, the STT provider on audio and
after it the LLM on the transcript. The answers of the rate limiter and of the providers are chosen from
outside.
-/

namespace VoiceSpend

/-- What a client sends; of the audio only its length is looked at. -/
inductive ParseInput
  | parse (text : Text)
  | transcribe (audioLength : ℕ)
  deriving DecidableEq, Repr

structure ParseRequest where
  user : UUID
  input : ParseInput
  referenceTime : Option DateTime
  deriving DecidableEq, Repr

structure HttpError where
  statusCode : ℕ
  detail : String
  deriving DecidableEq, Repr

/-- An error, a `ParseResponse`, or a `TranscribeResponse`. -/
inductive ParseReply
  | refused (error : HttpError)
  | parsed (response : ParseResponse)
  | transcribed (response : ParseResponse) (transcript : Text)

def ParseReply.status? : ParseReply → Option ParseStatusLiteral
  | .refused _ => none
  | .parsed response | .transcribed response _ => some response.status

/-- How far a request has come; `extracting` waits for the LLM, with a transcript if there is one. -/
inductive ParseProc
  | idle
  | resolving (request : ParseRequest)
  | counting (request : ParseRequest) (effective : EffectiveEntitlement)
  | listening (request : ParseRequest) (entitlement : EntitlementSignal)
  | extracting (request : ParseRequest) (text : Text) (transcript : Option Text)
      (referenceTime : DateTime) (entitlement : EntitlementSignal)
  | answered (request : ParseRequest) (reply : ParseReply)
  | raised (request : ParseRequest)

def ParseProc.request? : ParseProc → Option ParseRequest
  | .idle => none
  | .resolving request | .counting request _ | .listening request _ | .extracting request _ _ _ _
  | .answered request _ | .raised request => some request

/-- The status of the answer, if there is one. -/
def ParseProc.status? : ParseProc → Option ParseStatusLiteral
  | .answered _ reply => reply.status?
  | _ => none

inductive Provider
  | stt
  | llm
  deriving DecidableEq, Repr

/-- A paid call, and the request that made it. -/
structure ProviderCall where
  request : ℕ
  provider : Provider
  deriving DecidableEq, Repr

/-- The tables, the sync transactions, every request by its number, and the paid calls so far. -/
structure ParseSystem where
  sync : SyncSystem
  entitlements : Table UUID Entitlement
  categories : List Category
  requests : ℕ → ParseProc
  calls : List ProviderCall

/-- What the endpoints are configured with. -/
structure ParseEnv where
  rt : ParseRuntime
  inc : ℚ → Bool
  settings : Settings
  parseSettings : ParseSettings
  providerName : String
  modelName : String

/-! ## The stages -/

/-- The rate limit and the size check. -/
def admission (settings : ParseSettings) (request : ParseRequest) (limited : Option HttpError) : ParseProc :=
  match limited with
  | some error => .answered request (.refused error)
  | none =>
    match request.input with
    | .parse text =>
      if settings.parseMaxTextLength < text.length then
        .answered request (.refused
          ⟨422, "text exceeds the " ++ toString settings.parseMaxTextLength ++ "-character limit"⟩)
      else .resolving request
    | .transcribe audioLength =>
      if settings.maxAudioBytes < audioLength then
        .answered request (.refused
          ⟨413, "audio exceeds the " ++ toString settings.maxAudioBytes ++ "-byte limit"⟩)
      else .resolving request

/-- `payload.reference_time or datetime.now(UTC)`. -/
def ParseRequest.reference (request : ParseRequest) (clock : Instant) : DateTime :=
  request.referenceTime.getD ⟨clock, some 0⟩

/-- The answer of an endpoint; the transcript of a request over quota is empty. -/
def ParseRequest.reply (request : ParseRequest) (response : ParseResponse) : ParseReply :=
  match request.input with
  | .parse _ => .parsed response
  | .transcribe _ => .transcribed response ""

/-- The gate: the process after it, and the provider it calls. -/
def gate (request : ParseRequest) (entitlement : EntitlementSignal) (clock : Instant) :
    ParseProc × Option Provider :=
  if entitlement.overQuota then
    (.answered request (request.reply ⟨.quotaExceeded, none, none, entitlement⟩), none)
  else match request.input with
    | .parse text => (.extracting request text none (request.reference clock) entitlement, some .llm)
    | .transcribe _ => (.listening request entitlement, some .stt)

/-- What follows the STT call. -/
def transcribed (request : ParseRequest) (entitlement : EntitlementSignal) (clock : Instant)
    (traceId : Option String) : Awaited Text → ParseProc × Option Provider
  | .returned transcript =>
    (.extracting request transcript (some transcript) (request.reference clock) entitlement, some .llm)
  | .raised _ | .timedOut =>
    (.answered request (.transcribed ⟨.failed, none, traceId, entitlement⟩ ""), none)

/-- What follows the LLM call. -/
def extracted (env : ParseEnv) (categories : List Category) (rates : FxTable) (user : User)
    (request : ParseRequest) (text : Text) (transcript : Option Text) (referenceTime : DateTime)
    (entitlement : EntitlementSignal) (traceId : Option String) (outcome : Awaited ExtractionResult) :
    ParseProc :=
  match runExtraction env.rt env.inc env.parseSettings categories rates user text referenceTime
      ⟨env.providerName, env.modelName, fun _ _ ↦ outcome⟩ traceId entitlement with
  | none => .raised request
  | some response =>
    match transcript with
    | none => .answered request (.parsed response)
    | some transcript => .answered request (.transcribed response transcript)

/-! ## Steps -/

/-- `entitle` is a committed write of the billing webhook, whatever it stores. -/
inductive ParseAction
  | sync (action : SyncAction)
  | entitle (user : UUID) (row : Entitlement)
  | receive (r : ℕ) (request : ParseRequest) (limited : Option HttpError)
  | resolve (r : ℕ) (clock : Instant)
  | count (r : ℕ) (clock : Instant)
  | hear (r : ℕ) (clock : Instant) (traceId : Option String) (heard : Awaited Text)
  | extract (r : ℕ) (traceId : Option String) (outcome : Awaited ExtractionResult)

/-- The server's clock at the step, where it is read. -/
def ParseAction.clock? : ParseAction → Option Instant
  | .sync (.advance _ clock) | .resolve _ clock | .count _ clock | .hear _ clock _ _ => some clock
  | _ => none

/-- The request an action belongs to. -/
def ParseAction.request? : ParseAction → Option ℕ
  | .receive r _ _ | .resolve r _ | .count r _ | .hear r _ _ _ | .extract r _ _ => some r
  | .sync _ | .entitle _ _ => none

namespace ParseSystem

/-- Move a request on, with the provider it calls, if any. -/
def proceed (s : ParseSystem) (r : ℕ) (next : ParseProc × Option Provider) : ParseSystem :=
  { s with
    requests := Function.update s.requests r next.1
    calls := s.calls ++ (next.2.map (ProviderCall.mk r)).toList }

/-- The signal a request's second query builds. -/
def signal (settings : Settings) (s : ParseSystem) (request : ParseRequest) (effective : EffectiveEntitlement)
    (clock : Instant) : EntitlementSignal :=
  signalOf settings effective (currentPeriod clock)
    (usageCount s.sync.usage.committed request.user (currentPeriod clock))

def step (env : ParseEnv) (s : ParseSystem) : ParseAction → Option ParseSystem
  | .sync action =>
    (SyncSystem.step env.rt.toRuntime env.settings s.sync action).map fun sync ↦ { s with sync := sync }
  | .entitle user row => some { s with entitlements := s.entitlements.insert user row }
  | .receive r request limited =>
    match s.requests r with
    | .idle => some (s.proceed r (admission env.parseSettings request limited, none))
    | _ => none
  | .resolve r clock =>
    match s.requests r with
    | .resolving request => some (s.proceed r
        (.counting request (resolveEntitlement (s.entitlements.lookup request.user) clock), none))
    | _ => none
  | .count r clock =>
    match s.requests r with
    | .counting request effective =>
      some (s.proceed r (gate request (s.signal env.settings request effective clock) clock))
    | _ => none
  | .hear r clock traceId heard =>
    match s.requests r with
    | .listening request entitlement =>
      some (s.proceed r (transcribed request entitlement clock traceId heard))
    | _ => none
  | .extract r traceId outcome =>
    match s.requests r with
    | .extracting request text transcript referenceTime entitlement =>
      (s.sync.users.lookup request.user).map fun user ↦ s.proceed r
        (extracted env s.categories s.sync.fxRates user request text transcript referenceTime entitlement
          traceId outcome, none)
    | _ => none

/-- Committed tables, no transaction, no request and no call. -/
def ofTables (sync : SyncSystem) (entitlements : Table UUID Entitlement) (categories : List Category) :
    ParseSystem where
  sync := sync
  entitlements := entitlements
  categories := categories
  requests _ := .idle
  calls := []

/-- The request is one of the user's. -/
def RequestedBy (s : ParseSystem) (r : ℕ) (user : UUID) : Prop :=
  ∃ request, (s.requests r).request? = some request ∧ request.user = user

/-- The request was answered `quota_exceeded`. -/
def Exceeded (s : ParseSystem) (r : ℕ) : Prop := (s.requests r).status? = some .quotaExceeded

end ParseSystem

end VoiceSpend
