import VoiceSpend.Accounts.Authentication
import VoiceSpend.Fx.Sweep
import VoiceSpend.Sync.Pull
import VoiceSpend.Sync.Push
import VoiceSpend.Webhooks.Handler

/-!
# Requests from the header to the tables

Any number of overlapping requests. Behind `get_current_user`, a request provisions its user one statement at a
time, and then its endpoint runs with that user. The endpoint is a whole transaction in one step, and so are a
webhook delivery and a transaction of the worker: they come in any order, but no two of them overlap. What the
statements of overlapping pushes can do to each other, down to the upsert that meets a row which another user
has inserted since the owner check, is the subject of the concurrent system and left out here.
-/

namespace VoiceSpend

/-- `MAX_PUSH_BATCH_SIZE`. -/
def maxPushBatchSize : ℕ := 500

/-- A request to an endpoint that depends on `get_current_db_user`; the two parse endpoints write no table. -/
inductive ApiCall
  | push (records : List RawRecord)
  | pull (since limit : ℤ)
  | parse

inductive ApiAnswer
  | refused (error : AuthError)
  | unprocessable
  | serverError
  | pushed (response : SyncPushResponse)
  | pulled (response : SyncPullResponse)
  | parsed

inductive ApiProc
  | idle
  | provisioning (call : ApiCall)
  | answered (answer : ApiAnswer)

/-- `accounts` holds `users` with the calls of `get_current_db_user`, one a request. -/
structure Api where
  accounts : Accounts
  db : Db
  fxRates : FxTable
  processedWebhookEvents : Table Text ProcessedWebhookEvent
  requests : ℕ → ApiProc

/-- `receive` is the arrival of a request with its header, `provision` the next statement of
`get_current_db_user`, and `serve` the endpoint. -/
inductive ApiAction
  | receive (r : ℕ) (call : ApiCall) (authorization : Option String) (now : Instant)
  | provision (r : ℕ) (newId : UUID)
  | serve (r : ℕ) (now clock : Instant)
  | webhook (authorization : Option String) (event : RevenueCatEvent) (now : Instant)
  | registerDevice (id : UUID) (device : Device)
  | ingest (fxRates : FxTable)
  | sweep (userId : Option UUID) (limit : Option ℤ) (tie : UUID → ℕ) (now : Instant)
  | nullify (user : UUID) (now : Instant)

/-- What the other tables see of a row of `users`. -/
def Account.user (account : Account) : User := ⟨account.baseCurrency⟩

namespace Api

def setRequest (s : Api) (r : ℕ) (proc : ApiProc) : Api :=
  { s with requests := Function.update s.requests r proc }

def answer (s : Api) (r : ℕ) (answer : ApiAnswer) : Api := s.setRequest r (.answered answer)

def setAccounts (s : Api) (accounts : Accounts) : Api :=
  { s with accounts, db := { s.db with users := accounts.users.mapRows Account.user } }

def billing (s : Api) : Billing := ⟨s.db.users, s.processedWebhookEvents, s.db.entitlements⟩

/-- An endpoint with its user. What a request sends is checked after its dependencies are there. -/
def endpoint (rt : Runtime) (settings : Settings) (s : Api) (r : ℕ) (user : UUID) (now clock : Instant) :
    ApiCall → Api
  | .push records =>
    if maxPushBatchSize < records.length then s.answer r .unprocessable
    else match pushSync rt settings s.db user records now clock with
      | none => s.answer r .serverError
      | some (db, response) => { s with db }.answer r (.pushed response)
  | .pull since limit =>
    if 0 ≤ since ∧ 1 ≤ limit ∧ limit ≤ maxPullLimit then
      -- a cursor that no BIGINT holds is refused by the driver
      if since ≤ bigintMax then s.answer r (.pulled (pullSync s.db.expenses user since.toNat limit.toNat))
      else s.answer r .serverError
    else s.answer r .unprocessable
  | .parse => s.answer r .parsed

/-- The dependencies of a request up to its first statement. -/
def receive (lib : TokenLibrary) (auth : AuthSettings) (s : Api) (r : ℕ) (call : ApiCall)
    (authorization : Option String) (now : Instant) : Option Api :=
  match getCurrentUser lib auth authorization now with
  | .ok user => (s.accounts.step (.start r user)).map fun accounts ↦
      { s with accounts }.setRequest r (.provisioning call)
  | .unauthorized error => some (s.answer r (.refused error))
  | .raised => some (s.answer r .serverError)

def step (lib : TokenLibrary) (auth : AuthSettings) (rt : Runtime) (settings : Settings) (s : Api) :
    ApiAction → Option Api
  | .receive r call authorization now =>
    match s.requests r with
    | .idle => s.receive lib auth r call authorization now
    | _ => none
  | .provision r newId => (s.accounts.step (.advance r newId)).map s.setAccounts
  | .serve r now clock =>
    match s.requests r, s.accounts.calls r with
    | .provisioning call, .returned _ user _ => some (s.endpoint rt settings r user now clock call)
    | .provisioning _, .raised _ => some (s.answer r .serverError)
    | _, _ => none
  | .webhook authorization event now =>
    (revenuecatWebhook rt settings s.billing authorization event now).map fun out ↦
      { s with
        db := { s.db with entitlements := out.1.entitlements }
        processedWebhookEvents := out.1.processedWebhookEvents }
  | .registerDevice id device => some { s with db := { s.db with devices := s.db.devices.insert id device } }
  | .ingest fxRates => some { s with fxRates }
  | .sweep userId limit tie now =>
    (recomputeAmountBase settings s.db s.fxRates userId limit tie now).map fun out ↦ { s with db := out.1 }
  | .nullify user now => some { s with db := (nullAmountBaseForUser s.db user now).1 }

/-- Tables and no request. -/
def ofTables (users : AccountTable) (db : Db) (fxRates : FxTable)
    (processedWebhookEvents : Table Text ProcessedWebhookEvent) : Api where
  accounts := .ofUsers users
  db := { db with users := users.mapRows Account.user }
  fxRates := fxRates
  processedWebhookEvents := processedWebhookEvents
  requests := fun _ ↦ .idle

end Api

end VoiceSpend
