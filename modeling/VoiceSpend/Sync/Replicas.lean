import VoiceSpend.Concurrency.Convergence
import VoiceSpend.Sync.Pagination

/-!
# The devices of all users converge

Any number of devices keep a copy of their user's rows from the pages they pull, while whole transactions
commit between the pages. A device that has every value up to the last one of its user holds exactly the
user's rows, so two such devices agree, with the greatest revision of everything that was pushed. On the way
there no copy goes back to an older version of a row.
-/

namespace VoiceSpend

open Machine Register

/-- A device's copy of the rows of its user, up to a cursor. -/
structure Replica where
  user : UUID
  cursor : ℕ
  copy : Table UUID Expense

/-- The committed tables and all devices. -/
structure Fleet where
  db : Db
  rates : FxTable
  replicas : ℕ → Replica

/-- Whole transactions of any user, as in a session of one client, and pages of a device. -/
inductive FleetAction
  | transaction (action : SessionAction)
  | page (d limit : ℕ)

def SessionAction.isPull : SessionAction → Bool
  | .pull _ => true
  | _ => false

/-- The rows of a page replace the device's versions. -/
def Replica.receive (replica : Replica) (page : SyncPullResponse) : Replica where
  user := replica.user
  cursor := page.nextCursor
  copy := page.records.foldl (fun copy record ↦ copy.insert record.1 record.2) replica.copy

namespace Fleet

/-- Devices that have read nothing. -/
def begin (db : Db) (rates : FxTable) (users : ℕ → UUID) : Fleet := ⟨db, rates, fun d ↦ ⟨users d, 0, ∅⟩⟩

/-- What a device's next pull returns. -/
def nextPage (s : Fleet) (d limit : ℕ) : SyncPullResponse :=
  pullSync s.db.expenses (s.replicas d).user (s.replicas d).cursor limit

def receive (s : Fleet) (d limit : ℕ) : Fleet :=
  { s with replicas := Function.update s.replicas d ((s.replicas d).receive (s.nextPage d limit)) }

def step (rt : Runtime) (settings : Settings) (s : Fleet) : FleetAction → Option Fleet
  | .transaction action =>
    if action.isPull then none
    else (PullSession.step rt settings ⟨0⟩ (.begin s.db s.rates 0) action).map fun session ↦
      { s with db := session.db, rates := session.rates }
  | .page d limit => if 1 ≤ limit ∧ limit ≤ maxPullLimit then some (s.receive d limit) else none

/-- No row of the device's user is above its cursor. -/
def UpToDate (s : Fleet) (d : ℕ) : Prop :=
  ∀ id row, s.db.expenses.lookup id = some row → row.userId = (s.replicas d).user →
    row.serverSeq ≤ (s.replicas d).cursor

end Fleet

/-- The version of an expense that a push passes on to its upsert. -/
def FleetAction.version (rt : Runtime) (s : Fleet) (id : UUID) : FleetAction → Option ClientColumns
  | .transaction (.push user batch _ _) =>
    (selected s.db user (batch.map (classify rt)) id).bind (·.toColumns rt)
  | _ => none

/-- All versions of an expense that the pushes of a run passed on. -/
def pushedVersions (rt : Runtime) (trace : List (Fleet × FleetAction)) (id : UUID) : List ClientColumns :=
  trace.filterMap fun entry ↦ entry.2.version rt entry.1 id

/-- What the devices can rely on after a run from a table. -/
structure DevicesConverge (rt : Runtime) (settings : Settings) (expenses : Table UUID Expense)
    (trace : List (Fleet × FleetAction)) (s : Fleet) : Prop where
  /-- A device that is up to date holds its user's rows, in all columns, and no others. -/
  complete : ∀ d, s.UpToDate d → ∀ id, (s.replicas d).copy.lookup id =
    (s.db.expenses.lookup id).filter (·.userId = (s.replicas d).user)
  agree : ∀ d d', (s.replicas d).user = (s.replicas d').user → s.UpToDate d → s.UpToDate d' →
    ∀ id, (s.replicas d).copy.lookup id = (s.replicas d').copy.lookup id
  /-- The client's columns are the greatest revision of the first row and all that was pushed. -/
  greatest : ∀ id, Holds ClientColumns.clientRev ((s.db.expenses.lookup id).map Expense.client)
    (((expenses.lookup id).map Expense.client).toList ++ pushedVersions rt trace id)
  lastPage : ∀ d limit s', s.step rt settings (.page d limit) = some s' →
    (s.nextPage d limit).hasMore = false → s'.UpToDate d
  /-- Enough pages bring any device up to date. -/
  reachable : ∀ d limit, 1 ≤ limit → limit ≤ maxPullLimit → ∃ s', exec (Fleet.step rt settings) s
    (List.replicate (rowsAbove s.db.expenses (s.replicas d).user (s.replicas d).cursor / limit + 1)
      (.page d limit)) = some s' ∧ s'.UpToDate d
  /-- No copy loses a row or goes back to an older version of it. -/
  monotone : ∀ entry ∈ trace, ∀ d id row, (entry.1.replicas d).copy.lookup id = some row →
    ∃ later, (s.replicas d).copy.lookup id = some later ∧ row.Continues later

/-! ## What transactions do to a row -/

theorem Expense.Continues.of_pushed {row later : Expense} (h : later.pushed = row.pushed) :
    row.Continues later := by
  injection h with huser hdevice hclient hstatus hcreated
  exact ⟨huser, hdevice, hstatus, hcreated, by rw [hclient], fun _ ↦ hclient⟩

theorem Expense.Continues.refl (row : Expense) : row.Continues row := .of_pushed rfl

theorem Expense.Continues.trans {row middle later : Expense} (h : row.Continues middle)
    (h' : middle.Continues later) : row.Continues later := by
  constructor
  · exact h'.userId.trans h.userId
  · exact h'.deviceId.trans h.deviceId
  · exact h'.parseStatus.trans h.parseStatus
  · exact h'.createdAt.trans h.createdAt
  · exact h.revision.trans h'.revision
  · intro heq
    have hsame : middle.client.clientRev = row.client.clientRev := le_antisymm (heq ▸ h'.revision) h.revision
    exact (h'.content (heq.trans hsame.symm)).trans (h.content hsame)

section

variable {rt : Runtime} {settings : Settings} {db after : Db} {rates : FxTable} {user : UUID}
  {batch : List RawRecord} {now clock : Instant} {response : SyncPushResponse}

/-- A push puts its version of an expense into the register of the client's columns. -/
theorem pushSync_client (h : pushSync rt settings db user batch now clock = some (after, response))
    (id : UUID) :
    (after.expenses.lookup id).map Expense.client =
      ((selected db user (batch.map (classify rt)) id).bind (·.toColumns rt)).elim
        ((db.expenses.lookup id).map Expense.client)
        (put ClientColumns.clientRev ((db.expenses.lookup id).map Expense.client)) := by
  obtain ⟨returned, hspec⟩ := pushSync_spec h
  cases hselected : selected db user (batch.map (classify rt)) id with
  | none =>
    rw [(hspec.untouched id hselected).1]
    rfl
  | some record =>
    obtain ⟨columns, hcolumns, houtcome⟩ := hspec.written id record hselected
    rw [Option.bind_some, hcolumns, Option.elim_some]
    obtain ⟨_, hold, hnew, _⟩ | ⟨row, _, hold, hnewer, hnew, _⟩ | ⟨row, hold, holder, hnew, _⟩ :=
      houtcome.cases_eq
    · rw [hold, hnew]
      rfl
    · rw [hold, hnew]
      simp only [Option.map_some, put, accepts, hnewer, decide_true, if_true]
      rfl
    · rw [hold, hnew]
      simp only [Option.map_some, put, accepts, not_lt.mpr holder, decide_false]
      rfl

theorem pushSync_continues (h : pushSync rt settings db user batch now clock = some (after, response))
    {id : UUID} {row : Expense} (hrow : db.expenses.lookup id = some row) :
    ∃ later, after.expenses.lookup id = some later ∧ row.Continues later := by
  obtain ⟨returned, hspec⟩ := pushSync_spec h
  cases hselected : selected db user (batch.map (classify rt)) id with
  | none => exact ⟨row, (hspec.untouched id hselected).1.trans hrow, .refl row⟩
  | some record =>
    obtain ⟨columns, _, houtcome⟩ := hspec.written id record hselected
    obtain ⟨_, hold, _⟩ | ⟨old, _, hold, hnewer, hnew, _⟩ | ⟨old, hold, _, hnew, _⟩ := houtcome.cases_eq
    · rw [hrow] at hold
      cases hold
    · cases hrow.symm.trans hold
      exact ⟨_, hnew, rfl, rfl, rfl, rfl, hnewer.le, fun heq ↦ absurd heq hnewer.ne'⟩
    · cases hrow.symm.trans hold
      exact ⟨_, hnew, .refl _⟩

theorem recomputeAmountBase_pushed {userId : Option UUID} {limit : Option ℤ} {tie : UUID → ℕ}
    {result : RecomputeResult} (h : recomputeAmountBase settings db rates userId limit tie now =
      some (after, result))
    (id : UUID) : (after.expenses.lookup id).map Expense.pushed =
    (db.expenses.lookup id).map Expense.pushed := by
  rcases (recomputeAmountBase_spec h).lookup_cases id with hsame | ⟨row, _, _, _, _, ⟨hrow, _⟩, _, hnew⟩
  · rw [hsame]
  · rw [hrow, hnew]
    rfl

theorem nullRow_pushed (now : Instant) (s : Table UUID Expense × ℕ) (written id : UUID) :
    ((nullRow now s written).1.lookup id).map Expense.pushed = (s.1.lookup id).map Expense.pushed := by
  unfold nullRow
  cases hrow : s.1.lookup written with
  | none => rfl
  | some row =>
    dsimp only
    rw [Table.lookup_insert_eq]
    split
    · rename_i hid
      rw [hid, hrow]
      rfl
    · rfl

theorem nullAmountBaseForUser_pushed (db : Db) (user : UUID) (now : Instant) (id : UUID) :
    ((nullAmountBaseForUser db user now).1.expenses.lookup id).map Expense.pushed =
      (db.expenses.lookup id).map Expense.pushed := by
  have hfold (ids : List UUID) (s : Table UUID Expense × ℕ) :
      ((ids.foldl (nullRow now) s).1.lookup id).map Expense.pushed = (s.1.lookup id).map Expense.pushed := by
    induction ids generalizing s with
    | nil => rfl
    | cons written rest ih => exact (ih _).trans (nullRow_pushed now s written id)
  exact hfold _ _

end

/-! ## One step -/

section

variable {rt : Runtime} {settings : Settings} {s s' : Fleet} {action : SessionAction} {d limit : ℕ}

/-- What a transaction does to the tables; it leaves the devices alone. -/
structure Fleet.Commits (rt : Runtime) (s : Fleet) (action : SessionAction) (s' : Fleet) : Prop where
  replicas : s'.replicas = s.replicas
  writes : RowWrites (s.db.expenses, s.db.syncSeq) (s'.db.expenses, s'.db.syncSeq)
  kept : ∀ id row, s.db.expenses.lookup id = some row →
    ∃ later, s'.db.expenses.lookup id = some later ∧ row.Continues later
  client : ∀ id, (s'.db.expenses.lookup id).map Expense.client =
    ((FleetAction.transaction action).version rt s id).elim ((s.db.expenses.lookup id).map Expense.client)
      (put ClientColumns.clientRev ((s.db.expenses.lookup id).map Expense.client))

/-- A transaction that writes no column of a push. -/
theorem Fleet.Commits.of_pushed (hreplicas : s'.replicas = s.replicas)
    (hwrites : RowWrites (s.db.expenses, s.db.syncSeq) (s'.db.expenses, s'.db.syncSeq))
    (hpushed : ∀ id, (s'.db.expenses.lookup id).map Expense.pushed =
      (s.db.expenses.lookup id).map Expense.pushed)
    (hversion : ∀ id, (FleetAction.transaction action).version rt s id = none) : s.Commits rt action s' := by
  refine ⟨hreplicas, hwrites, fun id row hrow ↦ ?_, fun id ↦ ?_⟩
  · have hlater := hpushed id
    rw [hrow] at hlater
    obtain ⟨later, hlookup, heq⟩ := Option.map_eq_some_iff.mp hlater
    exact ⟨later, hlookup, .of_pushed heq⟩
  · have hclient := congrArg (Option.map PushedColumns.client) (hpushed id)
    rw [Option.map_map, Option.map_map] at hclient
    rw [hversion id]
    exact hclient

theorem Fleet.step_transaction (hstep : s.step rt settings (.transaction action) = some s') :
    s.Commits rt action s' := by
  simp only [Fleet.step] at hstep
  split at hstep
  · cases hstep
  · rename_i hpull
    obtain ⟨session, hsession, rfl⟩ := Option.map_eq_some_iff.mp hstep
    have hwrites := (PullSession.step_writes hsession fun limit heq ↦ hpull (by rw [heq]; rfl)).1
    cases action with
    | push user batch now clock =>
      obtain ⟨⟨after, response⟩, hout, rfl⟩ := Option.map_eq_some_iff.mp hsession
      exact ⟨rfl, hwrites, fun id row hrow ↦ pushSync_continues hout hrow, fun id ↦ pushSync_client hout id⟩
    | sweep userId limit tie now =>
      obtain ⟨⟨after, result⟩, hout, rfl⟩ := Option.map_eq_some_iff.mp hsession
      exact .of_pushed rfl hwrites (recomputeAmountBase_pushed hout) fun _ ↦ rfl
    | nullify user now =>
      cases hsession
      exact .of_pushed rfl hwrites (nullAmountBaseForUser_pushed s.db user now) fun _ ↦ rfl
    | rolledBack | elsewhere =>
      cases hsession
      exact .of_pushed rfl hwrites (fun _ ↦ rfl) fun _ ↦ rfl
    | pull limit => exact absurd rfl hpull

theorem Fleet.step_page (hstep : s.step rt settings (.page d limit) = some s') :
    1 ≤ limit ∧ s' = s.receive d limit := by
  simp only [Fleet.step] at hstep
  split at hstep
  · rename_i hlimit
    exact ⟨hlimit.1, (Option.some.inj hstep).symm⟩
  · cases hstep

@[simp] theorem Fleet.receive_self (s : Fleet) (d limit : ℕ) :
    (s.receive d limit).replicas d = (s.replicas d).receive (s.nextPage d limit) := Function.update_self ..

theorem Fleet.receive_of_ne (s : Fleet) (limit : ℕ) {d other : ℕ} (hne : other ≠ d) :
    (s.receive d limit).replicas other = s.replicas other := Function.update_of_ne hne ..

/-- A row of the page comes in its committed version, any other row stays as it was. -/
theorem Fleet.lookup_receive (s : Fleet) (d limit : ℕ) (id : UUID) :
    ((s.replicas d).receive (s.nextPage d limit)).copy.lookup id =
      if id ∈ (s.nextPage d limit).records.map Prod.fst then s.db.expenses.lookup id
      else (s.replicas d).copy.lookup id :=
  Table.lookup_foldl_insert s.db.expenses _ _ (fun _ hmem ↦ (of_mem_pullSync hmem).1) id

/-! ## The copies against the tables -/

/-- A device's copy, against the tables as they are now. -/
structure Follows (db : Db) (replica : Replica) : Prop where
  cursor : replica.cursor ≤ db.syncSeq
  /-- A row of the user up to the cursor is there in its current version. -/
  held : ∀ id row, db.expenses.lookup id = some row → row.userId = replica.user →
    row.serverSeq ≤ replica.cursor → replica.copy.lookup id = some row
  /-- Every version was a committed row of the user, which may have changed since. -/
  origin : ∀ id row, replica.copy.lookup id = some row → row.userId = replica.user ∧
    ∃ later, db.expenses.lookup id = some later ∧ row.Continues later

theorem Follows.begin (db : Db) (user : UUID) (hstamped : ∀ id row, db.expenses.lookup id = some row →
    0 < row.serverSeq) : Follows db ⟨user, 0, ∅⟩ := by
  refine ⟨Nat.zero_le _, fun id row hrow _ hle ↦ ?_, fun id row hrow ↦ by cases hrow⟩
  exact absurd (hstamped id row hrow) (not_lt.mpr hle)

/-- A row that a transaction changed is above every cursor. -/
theorem Follows.commits {replica : Replica} (h : Follows s.db replica) (hcommits : s.Commits rt action s') :
    Follows s'.db replica := by
  refine ⟨h.cursor.trans hcommits.writes.seq_le, fun id row hrow huser hle ↦ ?_, fun id row hrow ↦ ?_⟩
  · rcases hcommits.writes.old_or_later hrow with hold | hlater
    · exact h.held id row hold huser hle
    · exact absurd (lt_of_le_of_lt h.cursor hlater) (not_lt.mpr hle)
  · obtain ⟨huser, middle, hmiddle, hcontinues⟩ := h.origin id row hrow
    obtain ⟨later, hlater, hcontinues'⟩ := hcommits.kept id middle hmiddle
    exact ⟨huser, later, hlater, hcontinues.trans hcontinues'⟩

theorem Follows.receive (h : Follows s.db (s.replicas d)) (hstamped : Stamped s.db.expenses s.db.syncSeq)
    (limit : ℕ) : Follows s.db ((s.replicas d).receive (s.nextPage d limit)) := by
  constructor
  · change (s.nextPage d limit).nextCursor ≤ s.db.syncSeq
    rcases nextCursor_cases s.db.expenses (s.replicas d).user (s.replicas d).cursor limit with
      hsame | ⟨⟨id, row⟩, hmem, hlast⟩
    · rw [Fleet.nextPage, hsame]
      exact h.cursor
    · rw [Fleet.nextPage, hlast]
      exact hstamped.bounded id row (of_mem_pullSync hmem).1
  · intro id row hrow huser hle
    rw [Fleet.lookup_receive]
    split
    · exact hrow
    · rename_i hnot
      apply h.held id row hrow huser
      by_contra hcursor
      exact hnot (List.mem_map.mpr ⟨_,
        mem_pullSync hstamped.distinct hrow huser (not_le.mp hcursor) hle, rfl⟩)
  · intro id row hrow
    rw [Fleet.lookup_receive] at hrow
    split at hrow
    · rename_i hmem
      obtain ⟨⟨id', row'⟩, hrecord, rfl⟩ := List.mem_map.mp hmem
      obtain ⟨hrow', huser, _⟩ := of_mem_pullSync hrecord
      cases hrow'.symm.trans hrow
      exact ⟨huser, row, hrow', .refl row⟩
    · exact h.origin id row hrow

/-- A device that is up to date holds its user's rows. -/
theorem Follows.complete (h : Follows s.db (s.replicas d)) (huptodate : s.UpToDate d) (id : UUID) :
    (s.replicas d).copy.lookup id =
      (s.db.expenses.lookup id).filter (·.userId = (s.replicas d).user) := by
  cases hrow : s.db.expenses.lookup id with
  | none =>
    cases hcopy : (s.replicas d).copy.lookup id with
    | none => rfl
    | some version =>
      obtain ⟨_, later, hlater, _⟩ := h.origin id version hcopy
      cases hrow.symm.trans hlater
  | some row =>
    by_cases huser : row.userId = (s.replicas d).user
    · rw [h.held id row hrow huser (huptodate id row hrow huser), Option.filter_some, decide_eq_true huser,
        if_pos rfl]
    · rw [Option.filter_some, decide_eq_false huser, if_neg Bool.false_ne_true]
      cases hcopy : (s.replicas d).copy.lookup id with
      | none => rfl
      | some version =>
        obtain ⟨hversion, later, hlater, hcontinues⟩ := h.origin id version hcopy
        cases hrow.symm.trans hlater
        exact absurd (hcontinues.userId.trans hversion) huser

/-- A page that is not full brings its device up to date. -/
theorem Fleet.receive_upToDate (hlast : (s.nextPage d limit).hasMore = false) :
    (s.receive d limit).UpToDate d := by
  intro id row hrow huser
  rw [Fleet.receive_self] at huser ⊢
  by_cases hsince : (s.replicas d).cursor < row.serverSeq
  · exact le_nextCursor_of_mem (mem_pullSync_of_last hlast hrow huser hsince)
  · exact (not_lt.mp hsince).trans (le_nextCursor ..)

theorem Fleet.upToDate_of_nothing
    (h : (changesSince s.db.expenses (s.replicas d).user (s.replicas d).cursor).isEmpty) : s.UpToDate d := by
  intro id row hrow huser
  by_contra habove
  have hmem := mem_changesSince.mpr ⟨hrow, huser, not_le.mp habove⟩
  rw [List.isEmpty_iff.mp h] at hmem
  exact absurd hmem List.not_mem_nil

/-- Pages of one size until one is not full, by induction on how many are full. -/
theorem Fleet.exec_pages (hlimit : 1 ≤ limit) (hmax : limit ≤ maxPullLimit)
    (hdistinct : DistinctSeqs s.db.expenses) :
    ∃ s', exec (Fleet.step rt settings) s (List.replicate
      (rowsAbove s.db.expenses (s.replicas d).user (s.replicas d).cursor / limit + 1)
        (.page d limit)) = some s' ∧
        s'.UpToDate d := by
  have hstep (s : Fleet) : s.step rt settings (.page d limit) = some (s.receive d limit) :=
    if_pos ⟨hlimit, hmax⟩
  generalize hfull : rowsAbove s.db.expenses (s.replicas d).user (s.replicas d).cursor / limit = full
  induction full generalizing s with
  | zero =>
    have hshort := (Nat.div_eq_zero_iff_lt hlimit).mp hfull
    refine ⟨s.receive d limit, by rw [List.replicate_one, exec, hstep]; rfl, receive_upToDate ?_⟩
    rw [nextPage, hasMore_iff, decide_eq_false (not_le.mpr hshort)]
  | succ full ih =>
    have hlong : limit ≤ rowsAbove s.db.expenses (s.replicas d).user (s.replicas d).cursor := by
      by_contra hshort
      rw [Nat.div_eq_of_lt (not_le.mp hshort)] at hfull
      cases hfull
    have hnext : rowsAbove (s.receive d limit).db.expenses ((s.receive d limit).replicas d).user
        ((s.receive d limit).replicas d).cursor / limit = full := by
      have hrest := rowsAbove_nextCursor hdistinct (s.replicas d).user (s.replicas d).cursor limit
      rw [receive_self]
      change rowsAbove s.db.expenses (s.replicas d).user (s.nextPage d limit).nextCursor / limit = full
      rw [nextPage, hrest]
      rw [Nat.div_eq_sub_div hlimit hlong] at hfull
      omega
    obtain ⟨s', hexec, huptodate⟩ := ih (s := s.receive d limit) hdistinct hnext
    refine ⟨s', ?_, huptodate⟩
    rw [List.replicate_succ, exec, hstep]
    exact hexec

end

/-! ## Whole runs -/

section

variable {rt : Runtime} {settings : Settings} {s s' : Fleet} {db : Db} {rates : FxTable} {users : ℕ → UUID}
  {trace : List (Fleet × FleetAction)} {action : FleetAction}

/-- The tables are stamped and every device follows them. -/
structure Fleet.Consistent (s : Fleet) : Prop where
  stamped : Stamped s.db.expenses s.db.syncSeq
  follows : ∀ d, Follows s.db (s.replicas d)

theorem Fleet.Consistent.step (h : s.Consistent) (hstep : s.step rt settings action = some s') :
    s'.Consistent := by
  cases action with
  | transaction action =>
    have hcommits := Fleet.step_transaction hstep
    refine ⟨hcommits.writes.stamped h.stamped, fun d ↦ ?_⟩
    rw [hcommits.replicas]
    exact (h.follows d).commits hcommits
  | page d limit =>
    obtain ⟨_, rfl⟩ := Fleet.step_page hstep
    refine ⟨h.stamped, fun other ↦ ?_⟩
    by_cases hother : other = d
    · subst hother
      rw [Fleet.receive_self]
      exact (h.follows other).receive h.stamped limit
    · rw [Fleet.receive_of_ne s limit hother]
      exact h.follows other

/-- A step keeps or continues every version a device has. -/
theorem Fleet.Consistent.copy_continues (h : s.Consistent)
    (hstep : s.step rt settings action = some s') (d : ℕ)
    {id : UUID} {row : Expense} (hrow : (s.replicas d).copy.lookup id = some row) :
    ∃ later, (s'.replicas d).copy.lookup id = some later ∧ row.Continues later := by
  cases action with
  | transaction action =>
    rw [(Fleet.step_transaction hstep).replicas]
    exact ⟨row, hrow, .refl row⟩
  | page reader limit =>
    obtain ⟨_, rfl⟩ := Fleet.step_page hstep
    by_cases hd : d = reader
    · subst hd
      rw [Fleet.receive_self, Fleet.lookup_receive]
      split
      · exact ((h.follows d).origin id row hrow).2
      · exact ⟨row, hrow, .refl row⟩
    · rw [Fleet.receive_of_ne s limit hd]
      exact ⟨row, hrow, .refl row⟩

theorem Fleet.Consistent.greatest_step (id : UUID) {seen : List ClientColumns}
    (h : Holds ClientColumns.clientRev ((s.db.expenses.lookup id).map Expense.client) seen)
    (hstep : s.step rt settings action = some s') :
    Holds ClientColumns.clientRev ((s'.db.expenses.lookup id).map Expense.client)
      (seen ++ (action.version rt s id).toList) := by
  cases action with
  | transaction action =>
    rw [(Fleet.step_transaction hstep).client id]
    cases (FleetAction.transaction action).version rt s id with
    | none => simpa using h
    | some version => exact holds_concat h version
  | page d limit =>
    obtain ⟨_, rfl⟩ := Fleet.step_page hstep
    have hversion : (FleetAction.page d limit).version rt s id = none := rfl
    rw [hversion, Option.toList_none, List.append_nil]
    exact h

end

/-- In every run of whole transactions and pages, with the devices of any users: the devices of a user that
are up to date hold its rows, so they agree; the rows are the greatest revisions pushed; and no device ever
goes back. -/
theorem devices_converge (rt : Runtime) (settings : Settings) (db : Db) (rates : FxTable) (users : ℕ → UUID)
    (hstamped : Stamped db.expenses db.syncSeq)
    (hdrawn : ∀ id row, db.expenses.lookup id = some row → 0 < row.serverSeq)
    {trace : List (Fleet × FleetAction)} {s : Fleet}
    (hrun : Run (Fleet.step rt settings) (fun _ _ ↦ True) (.begin db rates users) trace s) :
    DevicesConverge rt settings db.expenses trace s := by
  have hstart : (Fleet.begin db rates users).Consistent := ⟨hstamped, fun d ↦ .begin db (users d) hdrawn⟩
  have hconsistent : s.Consistent := hrun.invariant Fleet.Consistent hstart fun _ _ _ h _ hstep ↦ h.step hstep
  have hcomplete (d : ℕ) (huptodate : s.UpToDate d) := (hconsistent.follows d).complete huptodate
  constructor
  case complete => exact hcomplete
  case agree =>
    intro d d' huser huptodate huptodate' id
    rw [hcomplete d huptodate id, hcomplete d' huptodate' id, huser]
  case greatest =>
    intro id
    clear hcomplete hconsistent
    induction hrun with
    | nil =>
      rw [pushedVersions, List.filterMap_nil, List.append_nil]
      exact holds_toList _ _
    | snoc hrun _ hstep ih =>
      have hnext := Fleet.Consistent.greatest_step id ih hstep
      rw [pushedVersions, List.filterMap_append, ← List.append_assoc]
      exact hnext
  case lastPage =>
    intro d limit s' hstep hlast
    obtain ⟨_, rfl⟩ := Fleet.step_page hstep
    exact Fleet.receive_upToDate hlast
  case reachable =>
    intro d limit hlimit hmax
    exact Fleet.exec_pages hlimit hmax hconsistent.stamped.distinct
  case monotone =>
    clear hcomplete hconsistent
    induction hrun with
    | nil => exact nofun
    | @snoc trace s s' action hrun _ hstep ih =>
      have hbefore : s.Consistent := hrun.invariant Fleet.Consistent hstart fun _ _ _ h _ hstep ↦ h.step hstep
      intro entry hmem d id row hrow
      rcases List.mem_append.mp hmem with hmem | hmem
      · obtain ⟨middle, hmiddle, hcontinues⟩ := ih entry hmem d id row hrow
        obtain ⟨later, hlater, hcontinues'⟩ := hbefore.copy_continues hstep d hmiddle
        exact ⟨later, hlater, hcontinues.trans hcontinues'⟩
      · cases List.mem_singleton.mp hmem
        exact hbefore.copy_continues hstep d hrow

/-- Two devices of the sample user, which read before and after an edit. -/
theorem devices_converge_sample : ∃ s : Fleet, s.UpToDate 0 ∧ s.UpToDate 1 ∧
    ((s.replicas 0).copy.lookup ⟨3⟩).map (·.client.clientRev) = some 2 ∧
      ∀ id, (s.replicas 0).copy.lookup id = (s.replicas 1).copy.lookup id := by
  let step := Fleet.step .ascii sampleSettings
  let start := Fleet.begin twoExpenses ∅ fun _ ↦ ⟨1⟩
  let actions : List FleetAction := [.page 0 500, .page 1 1,
    .transaction (.push ⟨1⟩ [sampleExpense 6 2] 0 0), .page 1 500, .page 0 500]
  have hexec : (exec step start actions).map (fun s ↦
      ((changesSince s.db.expenses (s.replicas 0).user (s.replicas 0).cursor).isEmpty,
        (changesSince s.db.expenses (s.replicas 1).user (s.replicas 1).cursor).isEmpty,
        ((s.replicas 0).copy.lookup ⟨3⟩).map (·.client.clientRev),
        decide ((s.replicas 0).user = (s.replicas 1).user))) =
      some (true, true, some 2, true) := by decide +kernel
  have hdrawn : ((Table.rows twoExpenses.expenses).all fun row ↦ 0 < row.2.serverSeq) = true := by
    decide +kernel
  obtain ⟨s, hs, hfacts⟩ := Option.map_eq_some_iff.mp hexec
  simp only [Prod.mk.injEq] at hfacts
  obtain ⟨hfirst, hsecond, hrevision, huser⟩ := hfacts
  have hconverge := devices_converge .ascii sampleSettings twoExpenses ∅ (fun _ ↦ ⟨1⟩) twoExpenses_stamped
    (fun id row hrow ↦ by simpa using List.all_eq_true.mp hdrawn _ (Table.mem_rows.mpr hrow)) (run_of_exec hs)
  have huptodate := Fleet.upToDate_of_nothing hfirst
  have huptodate' := Fleet.upToDate_of_nothing hsecond
  exact ⟨s, huptodate, huptodate', hrevision,
    hconverge.agree 0 1 (of_decide_eq_true huser) huptodate huptodate'⟩

end VoiceSpend
