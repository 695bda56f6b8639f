import VoiceSpend.Metering.Signal
import VoiceSpend.Metering.Usage
import VoiceSpend.Sync.Batch
import VoiceSpend.Sync.Upsert

/-!
# `push_sync`

The endpoint without concurrent writers: scan the batch, drop records on devices or rows
the user does not own, write the rest in one statement, count the inserted rows and build
the response. An exception from a statement before the commit rolls everything back; it is
`none` here.

`pushSync_spec` describes a successful push one id at a time: `selected` is the record of
the id that is written, `finalReason` the reason the response gives for it.
-/

namespace VoiceSpend

structure SyncPushResult where
  id : UUID
  status : SyncRecordStatus
  reason : Option String
  serverSeq : Option ℕ
  deriving DecidableEq, Repr

structure SyncPushResponse where
  results : List SyncPushResult
  serverHighWater : ℕ
  entitlement : EntitlementSignal
  deriving DecidableEq, Repr

/-- `SELECT id FROM devices WHERE id IN (...) AND user_id = :user`. -/
def ownedDeviceIds (devices : Table UUID Device) (user : UUID) (ids : List UUID) : List UUID :=
  ids.filter fun id ↦ (devices.lookup id).any (·.userId = user)

/-- `SELECT id, user_id FROM expenses WHERE id IN (...)`, as a dictionary. -/
def existingOwners (expenses : Table UUID Expense) (ids : List UUID) : UUID → Option UUID :=
  fun id ↦ if id ∈ ids then (expenses.lookup id).map (·.userId) else none

/-- Why a parsed record is not written, given the answers of the two queries. -/
def objection (owned : List UUID) (owners : UUID → Option UUID) (user : UUID)
    (record : ExpenseSyncIn) : Option String :=
  if record.deviceId ∉ owned then some "device_id not found or not owned by user"
  else match owners record.id with
    | some owner => if owner ≠ user then some "record id belongs to a different user" else none
    | none => none

/-- One iteration of the second loop: `rejects` and `valid_records`. -/
def checkOwner (owned : List UUID) (owners : UUID → Option UUID) (user : UUID)
    (acc : (UUID → Option String) × List ExpenseSyncIn) (record : ExpenseSyncIn) :
    (UUID → Option String) × List ExpenseSyncIn :=
  match objection owned owners user record with
  | some reason => (Function.update acc.1 record.id (some reason), acc.2)
  | none => (acc.1, acc.2 ++ [record])

def checkOwners (owned : List UUID) (owners : UUID → Option UUID) (user : UUID) (s : Scan) :
    (UUID → Option String) × List ExpenseSyncIn :=
  s.parsed.foldl (checkOwner owned owners user) (s.rejects, [])

/-- The `VALUES` list, or `none` when one value of one record does not fit its column: the
statement then raises as a whole. -/
def toInsertions (rt : Runtime) : List ExpenseSyncIn → Option (List Insertion)
  | [] => some []
  | record :: rest => do
    let columns ← record.toColumns rt
    let insertions ← toInsertions rt rest
    return ⟨record.id, record.deviceId, columns⟩ :: insertions

/-- `sum(1 for row in rows if row.was_inserted)`. -/
def newCount (returned : List Returned) : ℕ := (returned.filter (·.wasInserted)).length

def resultFor (rejects : UUID → Option String) (returned : List Returned) (id : UUID) : SyncPushResult :=
  match rejects id with
  | some reason => ⟨id, .rejected, some reason, none⟩
  | none =>
    match returnedFor returned id with
    | some (serverSeq, _) => ⟨id, .applied, none, some serverSeq⟩
    | none => ⟨id, .staleIgnored, none, none⟩

@[simp] theorem resultFor_id (rejects : UUID → Option String) (returned : List Returned) (id : UUID) :
    (resultFor rejects returned id).id = id := by
  unfold resultFor
  cases rejects id with
  | some => rfl
  | none => cases returnedFor returned id <;> rfl

/-- `_high_water`. -/
def highWater (expenses : Table UUID Expense) (user : UUID) : ℕ :=
  (((Table.rows expenses).filter fun row ↦ row.2.userId = user).map (·.2.serverSeq)).foldr max 0

/-- `push_sync` for an authenticated user, with the transaction's `now()` and the server's
clock. An empty `valid_records` makes the statement and the counter update no-ops. -/
def pushSync (rt : Runtime) (settings : Settings) (db : Db) (user : UUID) (batch : List RawRecord)
    (now clock : Instant) : Option (Db × SyncPushResponse) := do
  let scanned := scan (batch.map (classify rt))
  let owned := ownedDeviceIds db.devices user (scanned.parsed.map (·.deviceId))
  let owners := existingOwners db.expenses (scanned.parsed.map (·.id))
  let (rejects, validRecords) := checkOwners owned owners user scanned
  let insertions ← toInsertions rt validRecords
  let upserted := bulkUpsert user now db.expenses db.syncSeq insertions
  let counters ← incrementUsage db.usageCounters user (currentPeriod clock)
    (newCount upserted.returned) now
  let after : Db :=
    { db with expenses := upserted.expenses, usageCounters := counters, syncSeq := upserted.seq }
  return (after,
    { results := scanned.order.map (resultFor rejects upserted.returned)
      serverHighWater := highWater after.expenses user
      entitlement := buildEntitlementSignal settings after.entitlements after.usageCounters user clock })

/-! ## A sample -/

/-- One user with one device and nothing else. -/
def sampleDb : Db where
  users := AList.singleton ⟨1⟩ ⟨"USD"⟩
  devices := AList.singleton ⟨2⟩ ⟨⟨1⟩⟩
  expenses := ∅
  usageCounters := ∅
  entitlements := ∅
  syncSeq := 0

/-- A valid record of the sample user for the expense `3`. -/
def sampleExpense (amountOriginal clientRev : ℤ) : RawRecord :=
  sampleRecord "00000000-0000-0000-0000-000000000003" "00000000-0000-0000-0000-000000000002"
    amountOriginal clientRev

/-! ## One id at a time -/

/-- `objection` with the answers the database gives. -/
def objectionAt (db : Db) (user : UUID) (record : ExpenseSyncIn) : Option String :=
  if (db.devices.lookup record.deviceId).any (·.userId = user) = false then
    some "device_id not found or not owned by user"
  else match db.expenses.lookup record.id with
    | some row => if row.userId ≠ user then some "record id belongs to a different user" else none
    | none => none

/-- The record of an id that the push writes. -/
def selected (db : Db) (user : UUID) (entries : List Entry) (id : UUID) : Option ExpenseSyncIn :=
  (verdict entries id).record?.filter fun record ↦ (objectionAt db user record).isNone

/-- The reason the response gives for rejecting an id. -/
def finalReason (db : Db) (user : UUID) (entries : List Entry) (id : UUID) : Option String :=
  ((verdict entries id).record?.bind (objectionAt db user)).or (verdict entries id).reason?

theorem objection_eq_objectionAt (db : Db) (user : UUID) {records : List ExpenseSyncIn}
    {record : ExpenseSyncIn} (hmem : record ∈ records) :
    objection (ownedDeviceIds db.devices user (records.map (·.deviceId)))
        (existingOwners db.expenses (records.map (·.id))) user record = objectionAt db user record := by
  have hdevice : record.deviceId ∈ records.map (·.deviceId) := List.mem_map_of_mem hmem
  have hid : record.id ∈ records.map (·.id) := List.mem_map_of_mem hmem
  unfold objection objectionAt ownedDeviceIds existingOwners
  rw [if_pos hid]
  by_cases howned : (db.devices.lookup record.deviceId).any (·.userId = user) = true
  · rw [if_neg (not_not.mpr (List.mem_filter.mpr ⟨hdevice, howned⟩)), if_neg (by simp [howned])]
    cases db.expenses.lookup record.id <;> rfl
  · have hnot : record.deviceId ∉ (records.map (·.deviceId)).filter fun id ↦
        (db.devices.lookup id).any (·.userId = user) := fun h ↦ howned (List.mem_filter.mp h).2
    rw [if_pos hnot, if_pos (Bool.eq_false_iff.mpr howned)]

theorem foldl_checkOwner (owned : List UUID) (owners : UUID → Option UUID) (user : UUID)
    (records : List ExpenseSyncIn) (hnodup : (records.map ExpenseSyncIn.id).Nodup)
    (rejects : UUID → Option String) (kept : List ExpenseSyncIn) :
    let acc := records.foldl (checkOwner owned owners user) (rejects, kept)
    acc.2 = kept ++ records.filter (fun record ↦ (objection owned owners user record).isNone) ∧
      ∀ id, acc.1 id =
        ((records.find? (·.id = id)).bind (objection owned owners user)).or (rejects id) := by
  induction records generalizing rejects kept with
  | nil => simp
  | cons record rest ih =>
    rw [List.map_cons, List.nodup_cons] at hnodup
    have hrest : rest.find? (·.id = record.id) = none := by
      rw [List.find?_eq_none]
      intro other hother heq
      exact hnodup.1 ((of_decide_eq_true heq) ▸ List.mem_map_of_mem hother)
    dsimp only
    rw [List.foldl_cons]
    cases hobj : objection owned owners user record with
    | some reason =>
      rw [show checkOwner owned owners user (rejects, kept) record =
        (Function.update rejects record.id (some reason), kept) by simp [checkOwner, hobj]]
      obtain ⟨hkept, hrejects⟩ := ih hnodup.2 (Function.update rejects record.id (some reason)) kept
      refine ⟨by rw [hkept]; simp [hobj], fun id ↦ ?_⟩
      rw [hrejects id]
      by_cases hid : id = record.id
      · subst hid
        simp [hrest, hobj]
      · simp [Ne.symm hid, hid]
    | none =>
      rw [show checkOwner owned owners user (rejects, kept) record = (rejects, kept ++ [record]) by
        simp [checkOwner, hobj]]
      obtain ⟨hkept, hrejects⟩ := ih hnodup.2 rejects (kept ++ [record])
      refine ⟨by rw [hkept]; simp [hobj], fun id ↦ ?_⟩
      rw [hrejects id]
      by_cases hid : id = record.id
      · subst hid
        simp [hrest, hobj]
      · simp [Ne.symm hid]

/-- The second loop, through the verdicts and the database. -/
theorem checkOwners_spec (db : Db) (user : UUID) (entries : List Entry) :
    let s := scan entries
    let acc := checkOwners (ownedDeviceIds db.devices user (s.parsed.map (·.deviceId)))
      (existingOwners db.expenses (s.parsed.map (·.id))) user s
    acc.1 = finalReason db user entries ∧
      acc.2 = s.parsed.filter (fun record ↦ (objectionAt db user record).isNone) := by
  intro s acc
  have hfold := foldl_checkOwner (ownedDeviceIds db.devices user (s.parsed.map (·.deviceId)))
    (existingOwners db.expenses (s.parsed.map (·.id))) user
    s.parsed (scan_parsed_nodup entries) s.rejects []
  obtain ⟨hkept, hrejects⟩ := hfold
  constructor
  · funext id
    rw [show acc.1 id = _ from hrejects id, (scan_verdict entries).rejects id]
    unfold finalReason
    rw [← (scan_verdict entries).parsed id]
    cases hfind : s.parsed.find? (·.id = id) with
    | none => rfl
    | some record =>
      have hmem := List.mem_of_find?_eq_some hfind
      rw [Option.bind_some, Option.bind_some, objection_eq_objectionAt db user hmem]
  · rw [show acc.2 = _ from hkept, List.nil_append]
    apply List.filter_congr
    intro record hmem
    rw [objection_eq_objectionAt db user hmem]

/-- A filtered list of records with distinct ids, looked up by id. -/
theorem find?_filter_id {records : List ExpenseSyncIn} (hnodup : (records.map ExpenseSyncIn.id).Nodup)
    (keep : ExpenseSyncIn → Bool) (id : UUID) :
    (records.filter keep).find? (·.id = id) = (records.find? (·.id = id)).filter keep := by
  induction records with
  | nil => rfl
  | cons record rest ih =>
    rw [List.map_cons, List.nodup_cons] at hnodup
    by_cases hid : record.id = id
    · subst hid
      by_cases hkeep : keep record = true
      · simp [hkeep, Option.filter_some]
      · have hrest : (rest.filter keep).find? (·.id = record.id) = none := by
          rw [List.find?_eq_none]
          intro other hother heq
          exact hnodup.1 ((of_decide_eq_true heq) ▸ List.mem_map_of_mem (List.mem_filter.mp hother).1)
        rw [List.filter_cons_of_neg hkeep, hrest, List.find?_cons_of_pos (by simp),
          Option.filter_some, if_neg hkeep]
    · by_cases hkeep : keep record = true
      · simp [hkeep, hid, ih hnodup.2]
      · simp [hkeep, hid, ih hnodup.2]

theorem selected_eq_find? (db : Db) (user : UUID) (entries : List Entry) (id : UUID) :
    selected db user entries id =
      ((scan entries).parsed.filter fun record ↦ (objectionAt db user record).isNone).find?
        (·.id = id) := by
  rw [find?_filter_id (scan_parsed_nodup entries), (scan_verdict entries).parsed id]
  rfl

theorem toInsertions_ids {rt : Runtime} {records : List ExpenseSyncIn} {insertions : List Insertion}
    (h : toInsertions rt records = some insertions) :
    insertions.map Insertion.id = records.map ExpenseSyncIn.id := by
  induction records generalizing insertions with
  | nil => cases h; rfl
  | cons record rest ih =>
    simp only [toInsertions, Option.bind_eq_bind, Option.bind_eq_some_iff, Option.pure_def] at h
    obtain ⟨columns, _, tail, htail, heq⟩ := h
    cases heq
    rw [List.map_cons, List.map_cons, ih htail]

theorem mem_toInsertions {rt : Runtime} {records : List ExpenseSyncIn} {insertions : List Insertion}
    (h : toInsertions rt records = some insertions) {record : ExpenseSyncIn} (hmem : record ∈ records) :
    ∃ columns, record.toColumns rt = some columns ∧
      ⟨record.id, record.deviceId, columns⟩ ∈ insertions := by
  induction records generalizing insertions with
  | nil => exact absurd hmem List.not_mem_nil
  | cons head rest ih =>
    simp only [toInsertions, Option.bind_eq_bind, Option.bind_eq_some_iff, Option.pure_def] at h
    obtain ⟨columns, hcolumns, tail, htail, heq⟩ := h
    cases heq
    rcases List.mem_cons.mp hmem with rfl | hmem
    · exact ⟨columns, hcolumns, List.mem_cons_self⟩
    · obtain ⟨other, hother, hin⟩ := ih htail hmem
      exact ⟨other, hother, List.mem_cons_of_mem _ hin⟩

/-- A row of the `VALUES` list is one of the records. -/
theorem of_mem_toInsertions {rt : Runtime} {records : List ExpenseSyncIn} {insertions : List Insertion}
    (h : toInsertions rt records = some insertions) {insertion : Insertion} (hmem : insertion ∈ insertions) :
    ∃ record ∈ records, record.toColumns rt = some insertion.client ∧ record.id = insertion.id := by
  induction records generalizing insertions with
  | nil =>
    cases h
    exact absurd hmem List.not_mem_nil
  | cons head rest ih =>
    simp only [toInsertions, Option.bind_eq_bind, Option.bind_eq_some_iff, Option.pure_def] at h
    obtain ⟨columns, hcolumns, tail, htail, heq⟩ := h
    cases heq
    rcases List.mem_cons.mp hmem with rfl | hmem
    · exact ⟨head, List.mem_cons_self, hcolumns, rfl⟩
    · obtain ⟨record, hrecord, hfacts⟩ := ih htail hmem
      exact ⟨record, List.mem_cons_of_mem _ hrecord, hfacts⟩

/-- A relation between the rows of the `VALUES` list, read back to the records. -/
theorem pairwise_of_toInsertions {rt : Runtime} {related : Insertion → Insertion → Prop}
    {records : List ExpenseSyncIn} {insertions : List Insertion}
    (h : toInsertions rt records = some insertions) (hpairs : insertions.Pairwise related) :
    records.Pairwise fun first second ↦ ∀ columns columns', first.toColumns rt = some columns →
      second.toColumns rt = some columns' →
        related ⟨first.id, first.deviceId, columns⟩ ⟨second.id, second.deviceId, columns'⟩ := by
  induction records generalizing insertions with
  | nil => exact .nil
  | cons head rest ih =>
    simp only [toInsertions, Option.bind_eq_bind, Option.bind_eq_some_iff, Option.pure_def] at h
    obtain ⟨columns, hcolumns, tail, htail, heq⟩ := h
    cases heq
    rw [List.pairwise_cons] at hpairs ⊢
    refine ⟨fun record hmem first second hfirst hsecond ↦ ?_, ih htail hpairs.2⟩
    obtain ⟨other, hother, hin⟩ := mem_toInsertions htail hmem
    cases hcolumns.symm.trans hfirst
    cases hother.symm.trans hsecond
    exact hpairs.1 _ hin

theorem toInsertions_isSome {rt : Runtime} (records : List ExpenseSyncIn) :
    (toInsertions rt records).isSome ↔ ∀ record ∈ records, (record.toColumns rt).isSome := by
  induction records with
  | nil => simp [toInsertions]
  | cons record rest ih =>
    rw [List.forall_mem_cons, ← ih]
    rw [toInsertions]
    cases record.toColumns rt with
    | none => simp
    | some columns => cases toInsertions rt rest <;> simp

/-- The records the second loop keeps. -/
def validRecords (db : Db) (user : UUID) (entries : List Entry) : List ExpenseSyncIn :=
  (scan entries).parsed.filter fun record ↦ (objectionAt db user record).isNone

theorem selected_id {db : Db} {user : UUID} {entries : List Entry} {id : UUID} {record : ExpenseSyncIn}
    (h : selected db user entries id = some record) : record.id = id := by
  rw [selected_eq_find?] at h
  simpa using List.find?_some h

theorem mem_validRecords {db : Db} {user : UUID} {entries : List Entry} {record : ExpenseSyncIn} :
    record ∈ validRecords db user entries ↔ selected db user entries record.id = some record := by
  have hnodup : ((validRecords db user entries).map ExpenseSyncIn.id).Nodup :=
    (scan_parsed_nodup entries).sublist (List.filter_sublist.map _)
  rw [selected_eq_find?]
  constructor
  · intro hmem
    have hsome : ((validRecords db user entries).find? (·.id = record.id)).isSome :=
      List.find?_isSome.mpr ⟨record, hmem, by simp⟩
    obtain ⟨other, hother⟩ := Option.isSome_iff_exists.mp hsome
    have hid : other.id = record.id := by simpa using List.find?_some hother
    have heq := List.inj_on_of_nodup_map hnodup (List.mem_of_find?_eq_some hother) hmem hid
    rw [← heq] at hother ⊢
    exact hother
  · exact List.mem_of_find?_eq_some

/-- The parsable ids of a batch that the push inserts: selected, and without a stored row. -/
def freshIds (db : Db) (user : UUID) (entries : List Entry) : List UUID :=
  (entries.filterMap Entry.id?).eraseDups.filter fun id ↦
    (selected db user entries id).isSome && (db.expenses.lookup id).isNone

/-- The counter column has room for the fresh ids. -/
def CounterRoom (db : Db) (user : UUID) (entries : List Entry) (clock : Instant) : Prop :=
  freshIds db user entries = [] ∨
    usageCount db.usageCounters user (currentPeriod clock) + (freshIds db user entries).length ≤ integerMax

/-- What the statement writes and returns, one id at a time. -/
structure WriteSpec (rt : Runtime) (db : Db) (user : UUID) (entries : List Entry) (now : Instant)
    (expenses : Table UUID Expense) (returned : List Returned) : Prop where
  nodup : (returned.map Returned.id).Nodup
  written : ∀ id record, selected db user entries id = some record →
    ∃ columns, record.toColumns rt = some columns ∧
      RowOutcome user now ⟨id, record.deviceId, columns⟩ (db.expenses.lookup id)
        (expenses.lookup id) (returnedFor returned id)
  untouched : ∀ id, selected db user entries id = none →
    expenses.lookup id = db.expenses.lookup id ∧ returnedFor returned id = none

/-- A successful push: its write, its count, its results and the tables it leaves alone. -/
structure PushSpec (rt : Runtime) (db : Db) (user : UUID) (entries : List Entry) (now clock : Instant)
    (after : Db) (response : SyncPushResponse) (returned : List Returned) : Prop
    extends WriteSpec rt db user entries now after.expenses returned where
  results : response.results =
    (scan entries).order.map (resultFor (finalReason db user entries) returned)
  counted : incrementUsage db.usageCounters user (currentPeriod clock) (newCount returned) now =
    some after.usageCounters
  users : after.users = db.users
  devices : after.devices = db.devices
  entitlements : after.entitlements = db.entitlements

theorem writeSpec_of_toInsertions {rt : Runtime} {db : Db} {user : UUID} {entries : List Entry}
    {insertions : List Insertion} (now : Instant)
    (h : toInsertions rt (validRecords db user entries) = some insertions) :
    WriteSpec rt db user entries now
      (bulkUpsert user now db.expenses db.syncSeq insertions).expenses
      (bulkUpsert user now db.expenses db.syncSeq insertions).returned := by
  have hids := toInsertions_ids h
  have hnodup : (insertions.map Insertion.id).Nodup := by
    rw [hids]
    exact (scan_parsed_nodup _).sublist (List.filter_sublist.map _)
  refine ⟨?_, ?_, ?_⟩
  · exact foldl_upsertRow_returned insertions ⟨db.expenses, db.syncSeq, []⟩ (by simpa using hnodup)
  · intro id record hselected
    have hid := selected_id hselected
    subst hid
    obtain ⟨columns, hcolumns, hmem⟩ := mem_toInsertions h (mem_validRecords.mpr hselected)
    exact ⟨columns, hcolumns, bulkUpsert_outcome hnodup hmem⟩
  · intro id hselected
    apply bulkUpsert_other
    rw [hids]
    intro hmem
    obtain ⟨record, hrecord, rfl⟩ := List.mem_map.mp hmem
    rw [mem_validRecords.mp hrecord] at hselected
    cases hselected

section

variable {rt : Runtime} {settings : Settings} {db after : Db} {user : UUID} {entries : List Entry}
  {batch : List RawRecord} {now clock : Instant} {response : SyncPushResponse}
  {expenses : Table UUID Expense} {returned : List Returned}

/-- An id is returned as inserted exactly when it is selected and had no row. -/
theorem WriteSpec.mem_insertedIds_iff (h : WriteSpec rt db user entries now expenses returned)
    (id : UUID) : id ∈ insertedIds returned ↔
      (selected db user entries id).isSome ∧ db.expenses.lookup id = none := by
  rw [mem_insertedIds h.nodup]
  cases hselected : selected db user entries id with
  | none => simp [(h.untouched id hselected).2]
  | some record =>
    obtain ⟨columns, _, houtcome⟩ := h.written id record hselected
    generalize hold : db.expenses.lookup id = old at houtcome ⊢
    generalize hnew : expenses.lookup id = new at houtcome
    generalize hret : returnedFor returned id = ret at houtcome ⊢
    cases houtcome with
    | inserted serverSeq => simp
    | updated row serverSeq newer => simp
    | stale row older => simp

theorem seen_of_selected {id : UUID} {record : ExpenseSyncIn}
    (h : selected db user entries id = some record) :
    id ∈ (entries.filterMap Entry.id?).eraseDups := by
  rw [← scan_order, (scan_verdict entries).order]
  unfold selected at h
  cases hv : verdict entries id <;> simp [hv, Verdict.record?, Verdict.seen] at h ⊢

/-- A selected record is the first copy of its id, and nothing is objected to it. -/
theorem first_copy_of_selected {id : UUID} {record : ExpenseSyncIn}
    (h : selected db user entries id = some record) :
    objectionAt db user record = none ∧ ∃ rest, copies entries id = .valid record :: rest := by
  unfold selected at h
  rw [Option.filter_eq_some_iff] at h
  exact ⟨by simpa using h.2, copies_of_verdict h.1⟩

theorem freshIds_nodup : (freshIds db user entries).Nodup := by
  unfold freshIds
  rw [← scan_order]
  exact (scan_order_nodup entries).filter _

theorem freshIds_length_le (db : Db) (user : UUID) (entries : List Entry) :
    (freshIds db user entries).length ≤ entries.length := by
  have hsubset : freshIds db user entries ⊆ entries.filterMap Entry.id? := fun id hmem ↦
    List.mem_eraseDups.mp (List.mem_filter.mp hmem).1
  calc (freshIds db user entries).length
      ≤ (entries.filterMap Entry.id?).length := (freshIds_nodup.subperm hsubset).length_le
    _ ≤ entries.length := List.length_filterMap_le _ _

theorem WriteSpec.insertedIds_perm (h : WriteSpec rt db user entries now expenses returned) :
    (insertedIds returned).Perm (freshIds db user entries) := by
  have hnodup : (insertedIds returned).Nodup :=
    h.nodup.sublist (List.filter_sublist.map _)
  rw [List.perm_ext_iff_of_nodup hnodup freshIds_nodup]
  intro id
  rw [h.mem_insertedIds_iff]
  unfold freshIds
  rw [List.mem_filter, Bool.and_eq_true, Option.isNone_iff_eq_none]
  constructor
  · rintro ⟨hselected, hnone⟩
    obtain ⟨record, hrecord⟩ := Option.isSome_iff_exists.mp hselected
    exact ⟨seen_of_selected hrecord, hselected, hnone⟩
  · exact And.right

/-- The push counts the fresh ids of its batch. -/
theorem WriteSpec.newCount_eq (h : WriteSpec rt db user entries now expenses returned) :
    newCount returned = (freshIds db user entries).length := by
  rw [← h.insertedIds_perm.length_eq]
  unfold newCount insertedIds
  rw [List.length_map]

theorem pushSync_spec (h : pushSync rt settings db user batch now clock = some (after, response)) :
    ∃ returned, PushSpec rt db user (batch.map (classify rt)) now clock after response returned := by
  unfold pushSync at h
  obtain ⟨hrejects, hvalid⟩ := checkOwners_spec db user (batch.map (classify rt))
  simp only [Option.bind_eq_bind, Option.bind_eq_some_iff, Option.pure_def, hrejects, hvalid] at h
  obtain ⟨insertions, hinsertions, counters, hcounters, heq⟩ := h
  simp only [Option.some.injEq, Prod.mk.injEq] at heq
  obtain ⟨rfl, rfl⟩ := heq
  exact ⟨_, { writeSpec_of_toInsertions now hinsertions with
    results := rfl
    counted := hcounters
    users := rfl
    devices := rfl
    entitlements := rfl }⟩

/-- What a result reports of its id. -/
inductive Reported (rejects : UUID → Option String) (returned : List Returned) (id : UUID) :
    SyncPushResult → Prop
  | rejected (reason : String) (refused : rejects id = some reason) :
      Reported rejects returned id ⟨id, .rejected, some reason, none⟩
  | applied (serverSeq : ℕ) (inserted : Bool) (accepted : rejects id = none)
      (wrote : returnedFor returned id = some (serverSeq, inserted)) :
      Reported rejects returned id ⟨id, .applied, none, some serverSeq⟩
  | stale (accepted : rejects id = none) (left : returnedFor returned id = none) :
      Reported rejects returned id ⟨id, .staleIgnored, none, none⟩

theorem reported_resultFor (rejects : UUID → Option String) (returned : List Returned) (id : UUID) :
    Reported rejects returned id (resultFor rejects returned id) := by
  unfold resultFor
  split
  · rename_i reason hreason
    exact .rejected reason hreason
  · rename_i haccepted
    split
    · rename_i serverSeq inserted hreturned
      exact .applied serverSeq inserted haccepted hreturned
    · rename_i hreturned
      exact .stale haccepted hreturned

/-- A result of the response, read back to the id's final reason and returned values. -/
theorem PushSpec.reported
    (h : PushSpec rt db user entries now clock after response returned)
    {result : SyncPushResult} (hmem : result ∈ response.results) :
    ∃ id ∈ (scan entries).order, Reported (finalReason db user entries) returned id result := by
  rw [h.results] at hmem
  obtain ⟨id, hid, rfl⟩ := List.mem_map.mp hmem
  exact ⟨id, hid, reported_resultFor ..⟩

/-- An id without a final reason was parsed and not objected to. -/
theorem selected_of_finalReason {id : UUID} (hseen : (verdict entries id).seen = true)
    (h : finalReason db user entries id = none) :
    ∃ record, verdict entries id = .kept record ∧ selected db user entries id = some record := by
  unfold finalReason at h
  rw [Option.or_eq_none_iff] at h
  cases hv : verdict entries id with
  | unseen => simp [hv, Verdict.seen] at hseen
  | rejected reason => simp [hv, Verdict.reason?] at h
  | duplicated record => simp [hv, Verdict.reason?] at h
  | kept record =>
    simp only [hv, Verdict.record?, Option.bind_some] at h
    exact ⟨record, rfl, by simp [selected, hv, Verdict.record?, h.1, Option.filter_some]⟩

/-- The stored row of a selected record is the user's own. -/
theorem owner_of_selected {id : UUID} {record : ExpenseSyncIn} {row : Expense}
    (hselected : selected db user entries id = some record) (hrow : db.expenses.lookup id = some row) :
    row.userId = user := by
  have hid := selected_id hselected
  have hobjection : objectionAt db user record = none := by
    unfold selected at hselected
    rw [Option.filter_eq_some_iff] at hselected
    simpa using hselected.2
  subst hid
  by_contra hne
  unfold objectionAt at hobjection
  split at hobjection
  · cases hobjection
  · simp [hrow, hne] at hobjection

/-- A push fails as a whole exactly when a selected record does not fit its columns, or the
counter column has no room for the fresh ids. -/
theorem pushSync_isSome :
    (pushSync rt settings db user batch now clock).isSome ↔
      (∀ id record, selected db user (batch.map (classify rt)) id = some record →
        (record.toColumns rt).isSome) ∧
      CounterRoom db user (batch.map (classify rt)) clock := by
  have hstorable : (toInsertions rt (validRecords db user (batch.map (classify rt)))).isSome ↔
      ∀ id record, selected db user (batch.map (classify rt)) id = some record →
        (record.toColumns rt).isSome := by
    rw [toInsertions_isSome]
    constructor
    · intro hall id record hselected
      have hid := selected_id hselected
      subst hid
      exact hall record (mem_validRecords.mpr hselected)
    · intro hall record hmem
      exact hall record.id record (mem_validRecords.mp hmem)
  unfold pushSync CounterRoom
  obtain ⟨hrejects, hvalid⟩ := checkOwners_spec db user (batch.map (classify rt))
  simp only [Option.bind_eq_bind, Option.pure_def, hrejects, hvalid]
  rw [← hstorable]
  change (Option.bind (toInsertions rt (validRecords db user (batch.map (classify rt)))) _).isSome ↔ _
  cases hinsertions : toInsertions rt (validRecords db user (batch.map (classify rt))) with
  | none => simp
  | some insertions =>
    have hcount := (writeSpec_of_toInsertions now hinsertions).newCount_eq
    have hroom := incrementUsage_isSome db.usageCounters user (currentPeriod clock)
      (newCount (bulkUpsert user now db.expenses db.syncSeq insertions).returned) now
    rw [Option.bind_some, hcount, List.length_eq_zero_iff] at *
    cases hcounters : incrementUsage db.usageCounters user (currentPeriod clock)
      (freshIds db user (batch.map (classify rt))).length now <;> simp_all

end

end VoiceSpend
