import VoiceSpend.Fx.Recompute
import VoiceSpend.Library.Machine
import VoiceSpend.Library.ReadCommitted
import VoiceSpend.Sync.Pull
import VoiceSpend.Sync.Push

/-!
# Concurrent pushes, sweeps, invalidations and pulls

Any number of `push_sync`, `recompute_amount_base` and `null_amount_base_for_user`
transactions under READ COMMITTED, FX upserts, and a client that pulls. A transaction takes
one SQL statement at a time; the statements that write many rows take one row at a time,
since they lock and re-check one row after the other.

A process decides what its next statement is (`Effect`), and `perform` is what the database
does with it. A statement that would wait for another transaction's row is not enabled until
that transaction ends.
-/

namespace VoiceSpend

/-! ## Processes -/

/-- What a push does next. An empty `valid_records` skips the upsert and the commit in the
source; here it is an upsert of no rows and a commit of no versions. -/
inductive PushStage
  /-- select the user's devices -/
  | devices
  /-- select the owners of the stored ids and run the second loop -/
  | owners (owned : List UUID)
  /-- one row of the upsert; `drawn` is what the `BEFORE INSERT` trigger drew for it -/
  | writing (todo : List Insertion) (drawn : Option ℕ) (returned : List Returned)
  /-- `increment_usage`, unless nothing was inserted -/
  | counting (returned : List Returned)
  /-- commit; `counted` is the clock `current_period` was read from -/
  | committing (returned : List Returned) (counted : Option Instant)

/-- An open push; `now` is the time its transaction began. -/
structure PushRun where
  user : UUID
  scanned : Scan
  rejects : UUID → Option String
  now : Instant
  stage : PushStage

/-- What a sweep does next. The two queries of one conversion are two statements. -/
inductive SweepStage
  | selecting
  | converting (todo : List SweepRow)
  | lookingUp (row : SweepRow) (rateFrom : ℚ) (todo : List SweepRow)
  | updating (row : SweepRow) (amountBase : ℚ) (todo : List SweepRow)

structure SweepRun where
  userId : Option UUID
  limit : Option ℤ
  tie : UUID → ℕ
  now : Instant
  stage : SweepStage

/-- `null_amount_base_for_user` finds its rows in the statement's snapshot and checks each
again under its lock. -/
inductive NullifyStage
  | selecting
  | updating (todo : List UUID)

structure NullifyRun where
  user : UUID
  now : Instant
  stage : NullifyStage

inductive Proc
  | idle
  | push (run : PushRun)
  | sweep (run : SweepRun)
  | nullify (run : NullifyRun)
  | answered (user : UUID) (results : List SyncPushResult)
  | done
  | failed

def Proc.running : Proc → Bool
  | .push _ | .sweep _ | .nullify _ => true
  | _ => false

/-- A device that pulls: its cursor and the versions it was given last. -/
structure Client where
  user : UUID
  cursor : ℕ
  delivered : Table UUID Expense
  hasMore : Bool

/-- The tables, the sequence, every process by its transaction number, and the client. -/
structure SyncSystem where
  users : Table UUID User
  devices : Table UUID Device
  fxRates : FxTable
  expenses : Versioned UUID Expense ℕ
  usage : Versioned (UUID × Period) UsageCounter ℕ
  syncSeq : ℕ
  procs : ℕ → Proc
  client : Client

/-! ## Statements -/

/-- One statement, with the state of the process after it. -/
inductive Effect
  /-- a query -/
  | read (next : Proc)
  /-- the `BEFORE INSERT` trigger of a proposed row -/
  | draw (next : Proc)
  /-- a row that is locked and then not updated -/
  | lock (id : UUID) (next : Proc)
  | insert (id : UUID) (row : Expense) (next : Proc)
  /-- an update; the `BEFORE UPDATE` trigger sets `server_seq` -/
  | update (id : UUID) (row : Expense) (next : Proc)
  | count (key : UUID × Period) (counter : UsageCounter) (next : Proc)
  | commit (next : Proc)
  | rollback

/-- The state of the process after the statement. -/
def Effect.next : Effect → Proc
  | .read next | .draw next | .lock _ next | .insert _ _ next | .update _ _ next | .count _ _ next
  | .commit next => next
  | .rollback => .failed

namespace SyncSystem

def setProc (s : SyncSystem) (t : ℕ) (next : Proc) : SyncSystem :=
  { s with procs := Function.update s.procs t next }

/-- End the transaction by `ROLLBACK`; values drawn from the sequence are not given back. -/
def rollback (s : SyncSystem) (t : ℕ) : SyncSystem :=
  { s with
    expenses := s.expenses.abort t
    usage := s.usage.abort t
    procs := Function.update s.procs t .failed }

@[simp] theorem setProc_procs (s : SyncSystem) (t : ℕ) (next : Proc) : (s.setProc t next).procs t = next :=
  Function.update_self ..

@[simp] theorem rollback_procs (s : SyncSystem) (t : ℕ) : (s.rollback t).procs t = .failed :=
  Function.update_self ..

def commit (s : SyncSystem) (t : ℕ) (next : Proc) : SyncSystem :=
  { s with
    expenses := s.expenses.commit t
    usage := s.usage.commit t
    procs := Function.update s.procs t next }

@[simp] theorem commit_procs (s : SyncSystem) (t : ℕ) (next : Proc) : (s.commit t next).procs t = next :=
  Function.update_self ..

/-- Write one version of an expense. -/
def put (s : SyncSystem) (t : ℕ) (id : UUID) (row : Expense) (syncSeq : ℕ) (hfree : s.expenses.Free t id)
    (next : Proc) : SyncSystem :=
  { s with
    expenses := s.expenses.write t id row hfree
    syncSeq := syncSeq
    procs := Function.update s.procs t next }

/-- `set_expense_server_seq`. -/
def stamped (s : SyncSystem) (row : Expense) : Expense := { row with serverSeq := s.syncSeq + 1 }

def perform (s : SyncSystem) (t : ℕ) : Effect → Option SyncSystem
  | .read next => some (s.setProc t next)
  | .draw next => some ({ s with syncSeq := s.syncSeq + 1 }.setProc t next)
  | .lock id next =>
    if hfree : s.expenses.Free t id then
      some ({ s with expenses := s.expenses.lock t id hfree }.setProc t next)
    else none
  | .insert id row next =>
    if hfree : s.expenses.Free t id then some (s.put t id row s.syncSeq hfree next) else none
  | .update id row next =>
    if hfree : s.expenses.Free t id then
      some (s.put t id (s.stamped row) (s.syncSeq + 1) hfree next)
    else none
  | .count key counter next =>
    if hfree : s.usage.Free t key then
      some ({ s with usage := s.usage.write t key counter hfree }.setProc t next)
    else none
  | .commit next => some (s.commit t next)
  | .rollback => some (s.rollback t)

end SyncSystem

/-- The next statement of `push_sync`. -/
def PushRun.statement (rt : Runtime) (s : SyncSystem) (t : ℕ) (run : PushRun) (clock : Instant) : Effect :=
  let goto (stage : PushStage) : Proc := .push { run with stage := stage }
  match run.stage with
  | .devices =>
    .read (goto (.owners (ownedDeviceIds s.devices run.user (run.scanned.parsed.map (·.deviceId)))))
  | .owners owned =>
    let owners := existingOwners (s.expenses.view t) (run.scanned.parsed.map (·.id))
    let (rejects, validRecords) := checkOwners owned owners run.user run.scanned
    match toInsertions rt validRecords with
    | none => .rollback
    | some insertions => .read (.push { run with rejects := rejects, stage := .writing insertions none [] })
  | .writing [] _ returned => .read (goto (.counting returned))
  | .writing (insertion :: todo) none returned =>
    .draw (goto (.writing (insertion :: todo) (some (s.syncSeq + 1)) returned))
  | .writing (insertion :: todo) (some drawn) returned =>
    match s.expenses.visible t insertion.id with
    | none => .insert insertion.id (.ofInsertion run.user run.now insertion drawn)
        (goto (.writing todo none (returned ++ [⟨insertion.id, drawn, true⟩])))
    | some row =>
      if row.client.clientRev < insertion.client.clientRev then
        .update insertion.id (row.onConflict insertion.client (s.syncSeq + 1))
          (goto (.writing todo none (returned ++ [⟨insertion.id, s.syncSeq + 1, false⟩])))
      else .lock insertion.id (goto (.writing todo none returned))
  | .counting returned =>
    if newCount returned = 0 then .read (goto (.committing returned none))
    else
      let key := (run.user, currentPeriod clock)
      match addToCounter (s.usage.visible t key) (newCount returned) run.now with
      | none => .rollback
      | some counter => .count key counter (goto (.committing returned (some clock)))
  | .committing returned _ =>
    .commit (.answered run.user (run.scanned.order.map (resultFor run.rejects returned)))

/-- The next statement of `recompute_amount_base`. -/
def SweepRun.statement (settings : Settings) (s : SyncSystem) (t : ℕ) (run : SweepRun) : Effect :=
  let goto (stage : SweepStage) : Proc := .sweep { run with stage := stage }
  match run.stage with
  | .selecting =>
    -- a negative LIMIT raises
    if sweepLimit settings run.limit < 0 then .rollback
    else .read (goto (.converting (selectBatch s.users (s.expenses.view t) run.userId
      (sweepLimit settings run.limit).toNat run.tie)))
  | .converting [] => .commit .done
  | .converting (row :: todo) =>
    if row.currencyOriginal = row.baseCurrency then .read (goto (.updating row row.amountOriginal.toRat todo))
    else match ratePerUsd s.fxRates row.currencyOriginal row.spentAt.date with
      | none => .read (goto (.converting todo))
      | some rateFrom => .read (goto (.lookingUp row rateFrom todo))
  | .lookingUp row rateFrom todo =>
    match ratePerUsd s.fxRates row.baseCurrency row.spentAt.date with
    | none => .read (goto (.converting todo))
    | some rateTo =>
      match convertAmount row.amountOriginal.toRat rateFrom rateTo with
      | none => .rollback
      | some amountBase => .read (goto (.updating row amountBase todo))
  | .updating row amountBase todo =>
    match Numeric.ofRat 18 4 amountBase with
    | none => .rollback
    | some stored =>
      match s.expenses.visible t row.id with
      | none => .read (goto (.converting todo))
      | some current => .update row.id (current.recomputed stored row.baseCurrency run.now)
          (goto (.converting todo))

/-- The next statement of `null_amount_base_for_user`. -/
def NullifyRun.statement (s : SyncSystem) (t : ℕ) (run : NullifyRun) : Effect :=
  let goto (stage : NullifyStage) : Proc := .nullify { run with stage := stage }
  match run.stage with
  | .selecting => .read (goto (.updating
      (((Table.rows (s.expenses.view t)).filter fun row ↦ armed run.user row.2).map (·.1))))
  | .updating [] => .commit .done
  | .updating (id :: todo) =>
    match s.expenses.visible t id with
    | none => .read (goto (.updating todo))
    | some row =>
      if armed run.user row then .update id (row.nulled run.now) (goto (.updating todo))
      else .lock id (goto (.updating todo))

/-! ## Steps -/

/-- What starts a transaction. -/
inductive SyncRequest
  | push (user : UUID) (batch : List RawRecord) (now : Instant)
  | sweep (userId : Option UUID) (limit : Option ℤ) (tie : UUID → ℕ) (now : Instant)
  | nullify (user : UUID) (now : Instant)

/-- The process a request starts; a push has scanned its batch before its first statement. -/
def SyncRequest.proc (rt : Runtime) : SyncRequest → Proc
  | .push user batch now => .push ⟨user, scan (batch.map (classify rt)), fun _ ↦ none, now, .devices⟩
  | .sweep userId limit tie now => .sweep ⟨userId, limit, tie, now, .selecting⟩
  | .nullify user now => .nullify ⟨user, now, .selecting⟩

/-- `advance` runs the next statement of a transaction at the server's clock; `abort` ends it
at any point before its commit. -/
inductive SyncAction
  | start (t : ℕ) (request : SyncRequest)
  | advance (t : ℕ) (clock : Instant)
  | abort (t : ℕ)
  | upsertRates (quotes : List (Text × Rate)) (rateDate : Date) (source : String)
  | pull (limit : ℕ)

/-- The transaction an action belongs to. -/
def SyncAction.actor : SyncAction → Option ℕ
  | .start t _ | .advance t _ | .abort t => some t
  | .upsertRates .. | .pull _ => none

namespace SyncSystem

def statement (rt : Runtime) (settings : Settings) (s : SyncSystem) (t : ℕ) (clock : Instant) :
    Option Effect :=
  match s.procs t with
  | .push run => some (run.statement rt s t clock)
  | .sweep run => some (run.statement settings s t)
  | .nullify run => some (run.statement s t)
  | _ => none

/-- The client stores a page and moves its cursor. -/
def deliver (s : SyncSystem) (page : SyncPullResponse) : SyncSystem :=
  { s with client :=
    { user := s.client.user
      cursor := page.nextCursor
      delivered := page.records.foldl (fun table record ↦ table.insert record.1 record.2) s.client.delivered
      hasMore := page.hasMore } }

/-- The page the client asks for next; it sees committed rows only. -/
def nextPage (s : SyncSystem) (limit : ℕ) : SyncPullResponse :=
  pullSync s.expenses.committed s.client.user s.client.cursor limit

def step (rt : Runtime) (settings : Settings) (s : SyncSystem) : SyncAction → Option SyncSystem
  | .start t request =>
    match s.procs t with
    | .idle => some (s.setProc t (request.proc rt))
    | _ => none
  | .advance t clock => (statement rt settings s t clock).bind (s.perform t)
  | .abort t => if (s.procs t).running then some (s.rollback t) else none
  | .upsertRates quotes rateDate source =>
    some { s with fxRates := VoiceSpend.upsertRates s.fxRates quotes rateDate source }
  | .pull limit => if 1 ≤ limit ∧ limit ≤ maxPullLimit then some (s.deliver (s.nextPage limit)) else none

/-- Committed tables, no transaction, and a client that has pulled nothing. -/
def ofTables (users : Table UUID User) (devices : Table UUID Device) (fxRates : FxTable)
    (expenses : Table UUID Expense) (usage : UsageTable) (syncSeq : ℕ) (reader : UUID) : SyncSystem where
  users := users
  devices := devices
  fxRates := fxRates
  expenses := .ofTable expenses
  usage := .ofTable usage
  syncSeq := syncSeq
  procs _ := .idle
  client := ⟨reader, 0, ∅, false⟩

/-- No expense and no counter yet. -/
def initial (users : Table UUID User) (devices : Table UUID Device) (fxRates : FxTable) (reader : UUID) :
    SyncSystem := ofTables users devices fxRates ∅ ∅ 0 reader

/-- A run from empty tables every step of which meets `ok`. -/
def FromEmpty (rt : Runtime) (settings : Settings) (ok : SyncSystem → SyncAction → Prop)
    (trace : List (SyncSystem × SyncAction)) (s : SyncSystem) : Prop :=
  ∃ users devices fxRates reader,
    Machine.Run (step rt settings) ok (initial users devices fxRates reader) trace s

/-- The two users `1` and `4` with the devices `2` and `5`, and the first one's client. -/
def sample : SyncSystem :=
  initial ((AList.singleton ⟨1⟩ ⟨"USD"⟩).insert ⟨4⟩ ⟨"USD"⟩)
    ((AList.singleton ⟨2⟩ ⟨⟨1⟩⟩).insert ⟨5⟩ ⟨⟨4⟩⟩) ∅ ⟨1⟩

/-- One transaction, begun and taken `steps` statements far. -/
def transaction (t : ℕ) (request : SyncRequest) (steps : ℕ) : List SyncAction :=
  .start t request :: List.replicate steps (.advance t 0)

end SyncSystem

end VoiceSpend
