import VoiceSpend.Fx.Backfill
import VoiceSpend.RateLimit.Limiter
import VoiceSpend.Sync.Writes

/-!
# The Celery tasks

The broker's queue with the tasks of the worker, between them whole transactions of the API. A task is taken
from the queue in any order and runs to its end; it may be lost before it has committed anything. The daily
ingest retries itself, a bounded number of times, and a successful one sends a sweep.
-/

namespace VoiceSpend

/-- A message of the broker; an ingest carries the tick of the beat it stems from and `request.retries`. -/
inductive FxTask
  | ingestDailyFx (tick retries : ℕ)
  | backfillFxRange (start finish : Date)
  | recomputeAmountBase (userId : Option Text) (limit : Option ℤ)
  deriving DecidableEq

/-- What a task finds when it runs; `none` is a `fetch_latest` that raises. -/
structure TaskEnv where
  provider : FXProvider
  latest : Option (Table Text Quote)
  tie : UUID → ℕ
  now : Instant

/-- The tables, the queue, and the two metrics of the ingest. -/
structure Worker where
  db : Db
  rates : FxTable
  queue : List FxTask
  ticks : ℕ
  ingestFailures : ℕ
  lastSuccessfulIngest : Option Instant

/-- `max_retries` of `ingest_daily_fx`. -/
def maxRetries : ℕ := 3

/-- `_ingest_daily_async`. -/
def ingestDaily (rt : Runtime) (rates : FxTable) (env : TaskEnv) : Option (FxTable × IngestResult) := do
  let values ← env.latest
  ingestSnapshot rt.upper env.provider rates values (Instant.date env.now)

/-- `UUID(user_id) if user_id else None`; the outer `none` is a `ValueError`. -/
def taskUser (rt : Runtime) : Option Text → Option (Option UUID)
  | none => some none
  | some text => if text = "" then some none else (rt.uuid text).map some

namespace Worker

def send (s : Worker) (task : FxTask) : Worker := { s with queue := s.queue ++ [task] }

/-- `ingest_daily_fx`. Everything but the sending of the sweep is in its `try`. -/
def ingestDailyFx (rt : Runtime) (s : Worker) (tick retries : ℕ) (env : TaskEnv) : Worker :=
  match ingestDaily rt s.rates env with
  | none =>
    let failed := { s with ingestFailures := s.ingestFailures + 1 }
    if retries < maxRetries then failed.send (.ingestDailyFx tick (retries + 1)) else failed
  | some (rates, _) =>
    { s with rates, lastSuccessfulIngest := some env.now }.send (.recomputeAmountBase none none)

/-- `backfill_fx_range`; the dates before one that raises stay committed. -/
def backfillFxRange (rt : Runtime) (s : Worker) (start finish : Date) (env : TaskEnv) : Worker :=
  { s with rates := (backfillRange rt.upper env.provider start finish s.rates).1 }

/-- The task `recompute_amount_base`; a sweep that raises is rolled back and not retried. -/
def recompute (rt : Runtime) (settings : Settings) (s : Worker) (userId : Option Text) (limit : Option ℤ)
    (env : TaskEnv) : Worker :=
  match taskUser rt userId with
  | none => s
  | some user =>
    { s with db := (recomputeAmountBase settings s.db s.rates user limit env.tie env.now).elim s.db (·.1) }

def perform (rt : Runtime) (settings : Settings) (s : Worker) (env : TaskEnv) : FxTask → Worker
  | .ingestDailyFx tick retries => s.ingestDailyFx rt tick retries env
  | .backfillFxRange start finish => s.backfillFxRange rt start finish env
  | .recomputeAmountBase userId limit => s.recompute rt settings userId limit env

/-- `enqueue_recompute_for_user`. -/
def enqueueRecomputeForUser (s : Worker) (user : UUID) : Worker :=
  s.send (.recomputeAmountBase (some user.str) none)

/-- `handle_base_currency_changed`, and the number it returns. -/
def handleBaseCurrencyChanged (s : Worker) (user : UUID) (now : Instant) : Worker × ℕ :=
  let (db, count) := nullAmountBaseForUser s.db user now
  ({ s with db }.enqueueRecomputeForUser user, count)

end Worker

/-- `beat` is the schedule's tick, `callBackfill` a manual call, and `setBaseCurrency` an update of `users` by the
code that then calls `handle_base_currency_changed`. -/
inductive WorkerAction
  | beat
  | callBackfill (start finish : Date)
  | push (user : UUID) (batch : List RawRecord) (now clock : Instant)
  | signUp (id : UUID) (user : User)
  | elsewhere (devices : Table UUID Device) (usageCounters : UsageTable)
    (entitlements : Table UUID Entitlement)
  | setBaseCurrency (user : UUID) (currency : Text)
  | handleBaseCurrencyChanged (user : UUID) (now : Instant)
  | run (i : ℕ) (env : TaskEnv)
  | lose (i : ℕ)

namespace Worker

/-- Without the message that is taken. -/
def take (s : Worker) (i : ℕ) : Worker := { s with queue := s.queue.eraseIdx i }

def step (rt : Runtime) (settings : Settings) (s : Worker) : WorkerAction → Option Worker
  | .beat => some { s.send (.ingestDailyFx s.ticks 0) with ticks := s.ticks + 1 }
  | .callBackfill start finish => some (s.send (.backfillFxRange start finish))
  | .push user batch now clock =>
    (pushSync rt settings s.db user batch now clock).map fun out ↦ { s with db := out.1 }
  | .signUp id user =>
    if id ∈ s.db.users then none else some { s with db := { s.db with users := s.db.users.insert id user } }
  | .elsewhere devices usageCounters entitlements =>
    some { s with db := { s.db with devices, usageCounters, entitlements } }
  | .setBaseCurrency user currency => (s.db.users.lookup user).map fun row ↦
    { s with db := { s.db with users := s.db.users.insert user { row with baseCurrency := currency } } }
  | .handleBaseCurrencyChanged user now => some (s.handleBaseCurrencyChanged user now).1
  | .run i env => s.queue[i]?.map fun task ↦ (s.take i).perform rt settings env task
  | .lose i => s.queue[i]?.map fun _ ↦ s.take i

/-- Tables, and nothing to do. -/
def ofTables (db : Db) (rates : FxTable) : Worker := ⟨db, rates, [], 0, 0, none⟩

end Worker

end VoiceSpend
