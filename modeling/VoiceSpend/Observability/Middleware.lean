import VoiceSpend.RateLimit.Limiter

/-!
# `RequestContextMiddleware`

One call of `dispatch`, cut at its only `await`: `enter` binds the request id and waits for `call_next`,
`leave` is everything after it. The id is unbound in a `finally`, which comes after the line of a failed
request and before the line of a completed one.
-/

namespace VoiceSpend

/-! ## Routes -/

/-- The routes of `create_app`; the last four are FastAPI's own. -/
inductive Route
  | liveness
  | readiness
  | pushSync
  | pullSync
  | parse
  | transcribe
  | revenuecat
  | metrics
  | openapi
  | docs
  | oauth2Redirect
  | redoc
  deriving DecidableEq, Repr

def Route.path : Route → String
  | .liveness => "/api/v1/health/live"
  | .readiness => "/api/v1/health/ready"
  | .pushSync | .pullSync => "/api/v1/sync"
  | .parse => "/api/v1/parse"
  | .transcribe => "/api/v1/transcribe"
  | .revenuecat => "/api/v1/webhooks/revenuecat"
  | .metrics => "/metrics"
  | .openapi => "/openapi.json"
  | .docs => "/docs"
  | .oauth2Redirect => "/docs/oauth2-redirect"
  | .redoc => "/redoc"

/-- `_route_label`, on what routing has left in the scope. -/
def routeLabel (route : Option Route) : String := (route.map Route.path).getD "unmatched"

/-! ## Logging -/

/-- `request_id_var` and `trace_id_var` in the context of a task. -/
structure ContextVars where
  requestId : Option String
  traceId : Option String
  deriving DecidableEq, Repr

inductive LogLevel
  | debug
  | info
  | warning
  | error
  | critical
  deriving DecidableEq, Repr

/-- The `extra` of an access line. -/
structure AccessExtra where
  route : String
  method : String
  statusCode : ℕ
  deriving DecidableEq, Repr

/-- What a caller logs. -/
structure LogCall where
  level : LogLevel
  message : String
  extra : Option AccessExtra
  deriving DecidableEq, Repr

structure LogRecord extends LogCall where
  requestId : Option String
  traceId : Option String
  deriving DecidableEq, Repr

/-- `_ContextFilter.filter`. -/
def contextFilter (vars : ContextVars) (call : LogCall) : LogRecord :=
  { call with requestId := vars.requestId, traceId := vars.traceId }

/-! ## `dispatch` -/

/-- What `dispatch` reads of a request; a missing header is `none`. -/
structure HttpRequest where
  method : String
  requestIdHeader : Option String
  deriving DecidableEq, Repr

/-- The local variables of `dispatch` during `call_next`; the token holds the previous value. -/
structure DispatchFrame where
  method : String
  requestId : String
  token : Option String
  deriving DecidableEq, Repr

/-- How `call_next` ends; `cancelled` is a `BaseException`. -/
inductive CallNext
  | returned (statusCode : ℕ)
  | raised
  | cancelled
  deriving DecidableEq, Repr

/-- The labels of `HTTP_REQUEST_DURATION`. -/
structure HttpLabels where
  route : String
  method : String
  status : String
  deriving DecidableEq, Repr

/-- The context after `dispatch`, what it has observed and logged, and the status and `X-Request-Id` of
its response. -/
structure Left where
  vars : ContextVars
  observed : Option HttpLabels
  logged : Option LogRecord
  response : Option (ℕ × String)
  deriving DecidableEq, Repr

/-- The incoming id, or the generated one if there is none or an empty one. -/
def HttpRequest.requestId (request : HttpRequest) (generated : UUID) : String :=
  (request.requestIdHeader.filter (· ≠ "")).getD generated.str

def completionLevel (statusCode : ℕ) : LogLevel :=
  if 500 ≤ statusCode then .error else if 400 ≤ statusCode then .warning else .info

/-- `dispatch` up to `call_next`. -/
def DispatchFrame.enter (vars : ContextVars) (request : HttpRequest) (generated : UUID) :
    DispatchFrame × ContextVars :=
  (⟨request.method, request.requestId generated, vars.requestId⟩,
    { vars with requestId := some (request.requestId generated) })

/-- `dispatch` after `call_next`. -/
def DispatchFrame.leave (frame : DispatchFrame) (vars : ContextVars) (route : Option Route) :
    CallNext → Left
  | .raised =>
    { vars := { vars with requestId := frame.token }
      observed := some ⟨routeLabel route, frame.method, "500"⟩
      logged := some (contextFilter vars
        ⟨.error, "request failed", some ⟨routeLabel route, frame.method, 500⟩⟩)
      response := none }
  | .cancelled => ⟨{ vars with requestId := frame.token }, none, none, none⟩
  | .returned statusCode =>
    let vars := { vars with requestId := frame.token }
    { vars := vars
      observed := some ⟨routeLabel route, frame.method, toString statusCode⟩
      logged := some (contextFilter vars ⟨completionLevel statusCode, "request completed",
        some ⟨routeLabel route, frame.method, statusCode⟩⟩)
      response := some (statusCode, frame.requestId) }

section

variable (frame : DispatchFrame) (vars : ContextVars) (route : Option Route) (outcome : CallNext)

/-- The variable is restored however `call_next` ends, and the other one is left alone. -/
theorem DispatchFrame.leave_vars :
    (frame.leave vars route outcome).vars = { vars with requestId := frame.token } := by
  cases outcome <;> rfl

/-- A response of `dispatch` echoes the request's id. -/
theorem DispatchFrame.leave_response {statusCode : ℕ} {echoed : String}
    (h : (frame.leave vars route outcome).response = some (statusCode, echoed)) :
    outcome = .returned statusCode ∧ echoed = frame.requestId := by
  cases outcome <;> cases h
  exact ⟨rfl, rfl⟩

end

end VoiceSpend
