import VoiceSpend.Sync.Push

/-!
# One batch against one request for each record

A push decides ownership, staleness and counting for all records of its batch at once. `Served`
is what a push of valid records with distinct ids does to each of them; it is determined by the
tables before, up to the values of the sequence and the timestamps, and pushes of single records
add up to it. The one difference is the counter column: it has room for the whole batch or the
whole batch fails, while single pushes go on until it is full.
-/

namespace VoiceSpend

/-- A push of one record. -/
structure PushRequest where
  raw : RawRecord
  now : Instant
  clock : Instant

/-- One request after the other; a push that raises is rolled back and reports nothing. -/
def pushEach (rt : Runtime) (settings : Settings) (user : UUID) : Db → List PushRequest →
    Db × List SyncPushResult
  | db, [] => (db, [])
  | db, request :: rest =>
    match pushSync rt settings db user [request.raw] request.now request.clock with
    | none => pushEach rt settings user db rest
    | some (after, response) =>
      ((pushEach rt settings user after rest).1, response.results ++ (pushEach rt settings user after rest).2)

/-- The requests carry valid, storable records with distinct ids. -/
structure ValidBatch (rt : Runtime) (requests : List PushRequest) (records : List ExpenseSyncIn) : Prop where
  parsed : requests.map (fun request ↦ classify rt request.raw) = records.map .valid
  distinct : (records.map (·.id)).Nodup
  storable : ∀ record ∈ records, (record.toColumns rt).isSome

namespace Expense

/-- Every column but `server_seq`, `created_at` and `updated_at`. -/
def content (row : Expense) : Expense := { row with serverSeq := 0, createdAt := 0, updatedAt := 0 }

end Expense

/-- The id is reported as written. -/
def Applied (results : List SyncPushResult) (id : UUID) : Prop :=
  ∃ result ∈ results, result.id = id ∧ result.status = .applied

/-- The same reports, the same rows up to `server_seq` and timestamps, the applied rows in the same
order, and the same counts. -/
structure SamePush (first second : Db × List SyncPushResult) : Prop where
  results : first.2.map (fun result ↦ (result.id, result.status, result.reason)) =
    second.2.map fun result ↦ (result.id, result.status, result.reason)
  rows : ∀ id, (first.1.expenses.lookup id).map Expense.content =
    (second.1.expenses.lookup id).map Expense.content
  order : ∀ id id', Applied first.2 id → Applied first.2 id' → ∀ row row' new new',
    first.1.expenses.lookup id = some row → first.1.expenses.lookup id' = some row' →
      second.1.expenses.lookup id = some new → second.1.expenses.lookup id' = some new' →
        (row.serverSeq < row'.serverSeq ↔ new.serverSeq < new'.serverSeq)
  counters : ∀ key, (first.1.usageCounters.lookup key).map (·.logCount) =
    (second.1.usageCounters.lookup key).map (·.logCount)

/-! ## What a push does to one record -/

/-- The three results of a valid record. -/
inductive Handled (rt : Runtime) (user : UUID) (record : ExpenseSyncIn) (old new : Option Expense) :
    Option String → SyncPushResult → Prop
  | refused (reason : String) (kept : new = old) :
      Handled rt user record old new (some reason) ⟨record.id, .rejected, some reason, none⟩
  | applied (now : Instant) (columns : ClientColumns) (serverSeq : ℕ) (wasInserted : Bool)
      (fits : record.toColumns rt = some columns)
      (outcome : RowOutcome user now ⟨record.id, record.deviceId, columns⟩ old new
        (some (serverSeq, wasInserted))) :
      Handled rt user record old new none ⟨record.id, .applied, none, some serverSeq⟩
  | stale (now : Instant) (columns : ClientColumns) (fits : record.toColumns rt = some columns)
      (outcome : RowOutcome user now ⟨record.id, record.deviceId, columns⟩ old new none) :
      Handled rt user record old new none ⟨record.id, .staleIgnored, none, none⟩

/-- The record is written: nothing is objected to it, and its row is absent or older. -/
def Applies (db : Db) (user : UUID) (record : ExpenseSyncIn) : Prop :=
  objectionAt db user record = none ∧
    ∀ row, db.expenses.lookup record.id = some row → row.client.clientRev < record.clientRev

/-- The record gets a new row. -/
def isNew (db : Db) (user : UUID) (record : ExpenseSyncIn) : Bool :=
  (objectionAt db user record).isNone && (db.expenses.lookup record.id).isNone

/-- What a push, or a number of pushes, does to records with distinct ids. -/
structure Served (rt : Runtime) (user : UUID) (period : Period) (db : Db) (records : List ExpenseSyncIn)
    (after : Db) (results : List SyncPushResult) : Prop where
  handled : List.Forall₂ (fun record result ↦ Handled rt user record (db.expenses.lookup record.id)
    (after.expenses.lookup record.id) (objectionAt db user record) result) records results
  others : ∀ id, id ∉ records.map (·.id) → after.expenses.lookup id = db.expenses.lookup id
  drawn : ∀ record ∈ records, Applies db user record → ∀ row, after.expenses.lookup record.id = some row →
    db.syncSeq < row.serverSeq ∧ row.serverSeq ≤ after.syncSeq
  sorted : records.Pairwise fun first second ↦ Applies db user first → Applies db user second → ∀ row row',
    after.expenses.lookup first.id = some row → after.expenses.lookup second.id = some row' →
      row.serverSeq < row'.serverSeq
  seq_le : db.syncSeq ≤ after.syncSeq
  counters : ∀ key, (after.usageCounters.lookup key).map (·.logCount) =
    if key = (user, period) then
      countMore ((db.usageCounters.lookup key).map (·.logCount)) (records.filter (isNew db user)).length
    else (db.usageCounters.lookup key).map (·.logCount)
  devices : after.devices = db.devices

section

variable {rt : Runtime} {settings : Settings} {db mid after after' : Db} {user : UUID} {period : Period}
  {record : ExpenseSyncIn} {records : List ExpenseSyncIn} {results results' : List SyncPushResult}
  {result result' : SyncPushResult} {old new new' : Option Expense} {reason : Option String}

/-! ## The tables before determine the rest -/

/-- Two writes of the same record over the same row differ in the sequence and the timestamps only. -/
theorem RowOutcome.content_eq {now now' : Instant} {insertion : Insertion} {ret ret' : Option (ℕ × Bool)}
    (h : RowOutcome user now insertion old new ret) (h' : RowOutcome user now' insertion old new' ret') :
    new.map Expense.content = new'.map Expense.content ∧ ret.isSome = ret'.isSome := by
  cases h with
  | inserted serverSeq =>
    cases h' with
    | inserted serverSeq' => exact ⟨rfl, rfl⟩
  | updated row serverSeq newer =>
    cases h' with
    | updated _ serverSeq' newer' => exact ⟨rfl, rfl⟩
    | stale _ older => exact absurd newer (not_lt.mpr older)
  | stale row older =>
    cases h' with
    | updated _ serverSeq newer => exact absurd newer (not_lt.mpr older)
    | stale _ older' => exact ⟨rfl, rfl⟩

theorem Handled.same (h : Handled rt user record old new reason result)
    (h' : Handled rt user record old new' reason result') :
    (result.id, result.status, result.reason) = (result'.id, result'.status, result'.reason) ∧
      new.map Expense.content = new'.map Expense.content := by
  cases h with
  | refused reason kept =>
    cases h' with
    | refused _ kept' => exact ⟨rfl, by rw [kept, kept']⟩
  | applied now columns serverSeq wasInserted fits outcome =>
    cases h' with
    | applied now' columns' serverSeq' wasInserted' fits' outcome' =>
      cases fits.symm.trans fits'
      exact ⟨rfl, (outcome.content_eq outcome').1⟩
    | stale now' columns' fits' outcome' =>
      cases fits.symm.trans fits'
      cases (outcome.content_eq outcome').2
  | stale now columns fits outcome =>
    cases h' with
    | applied now' columns' serverSeq' wasInserted' fits' outcome' =>
      cases fits.symm.trans fits'
      cases (outcome.content_eq outcome').2
    | stale now' columns' fits' outcome' =>
      cases fits.symm.trans fits'
      exact ⟨rfl, (outcome.content_eq outcome').1⟩

theorem Handled.id_eq (h : Handled rt user record old new reason result) : result.id = record.id := by
  cases h <;> rfl

/-- A record that is reported as written was to be written. -/
theorem Handled.applies (h : Handled rt user record (db.expenses.lookup record.id) new
    (objectionAt db user record) result) (hstatus : result.status = .applied) : Applies db user record := by
  generalize hold : db.expenses.lookup record.id = old at h
  generalize hreason : objectionAt db user record = reason at h
  cases h with
  | refused | stale => cases hstatus
  | applied now columns serverSeq wasInserted fits outcome =>
    refine ⟨hreason, fun row hrow ↦ ?_⟩
    rw [hold] at hrow
    rw [← ExpenseSyncIn.clientRev_of_toColumns fits]
    cases outcome with
    | inserted => cases hrow
    | updated _ _ newer =>
      cases hrow
      exact newer

/-- A result, with what it says about its record. -/
theorem Served.of_result (h : Served rt user period db records after results) (hresult : result ∈ results) :
    ∃ record ∈ records, Handled rt user record (db.expenses.lookup record.id)
      (after.expenses.lookup record.id) (objectionAt db user record) result := by
  obtain ⟨i, hi, rfl⟩ := List.mem_iff_getElem.mp hresult
  obtain ⟨hlength, hone⟩ := List.forall₂_iff_get.mp h.handled
  exact ⟨_, List.getElem_mem _, hone i (hlength.symm ▸ hi) hi⟩

/-- A record, with some result about it. -/
theorem Served.of_record (h : Served rt user period db records after results) (hmem : record ∈ records) :
    ∃ result, Handled rt user record (db.expenses.lookup record.id) (after.expenses.lookup record.id)
      (objectionAt db user record) result := by
  obtain ⟨i, hi, rfl⟩ := List.mem_iff_getElem.mp hmem
  obtain ⟨hlength, hone⟩ := List.forall₂_iff_get.mp h.handled
  exact ⟨_, hone i hi (hlength ▸ hi)⟩

theorem Served.applies_of_applied (h : Served rt user period db records after results) {id : UUID}
    (happlied : Applied results id) : ∃ record ∈ records, record.id = id ∧ Applies db user record := by
  obtain ⟨result, hresult, rfl, hstatus⟩ := happlied
  obtain ⟨record, hrecord, hhandled⟩ := h.of_result hresult
  exact ⟨record, hrecord, hhandled.id_eq.symm, hhandled.applies hstatus⟩

/-- The rows of two records have their values in the same order in both tables. -/
def OrderedAlike (db after after' : Db) (user : UUID) (first second : ExpenseSyncIn) : Prop :=
  Applies db user first → Applies db user second → ∀ row row' new new',
    after.expenses.lookup first.id = some row → after.expenses.lookup second.id = some row' →
      after'.expenses.lookup first.id = some new → after'.expenses.lookup second.id = some new' →
        (row.serverSeq < row'.serverSeq ↔ new.serverSeq < new'.serverSeq)

theorem Served.orderedAlike (h : Served rt user period db records after results)
    (h' : Served rt user period db records after' results') {first second : ExpenseSyncIn}
    (hfirst : first ∈ records) (hsecond : second ∈ records) :
    OrderedAlike db after after' user first second := by
  have hboth := h.sorted.and h'.sorted
  have hself : ∀ record ∈ records, OrderedAlike db after after' user record record := by
    intro record _ _ _ row row' new new' hrow hrow' hnew hnew'
    cases hrow.symm.trans hrow'
    cases hnew.symm.trans hnew'
    exact iff_of_false (lt_irrefl _) (lt_irrefl _)
  have hforward : records.Pairwise (OrderedAlike db after after' user) := by
    refine hboth.imp fun hsorted happlies happlies' row row' new new' hrow hrow' hnew hnew' ↦ ?_
    exact iff_of_true (hsorted.1 happlies happlies' row row' hrow hrow')
      (hsorted.2 happlies happlies' new new' hnew hnew')
  have hbackward : records.Pairwise (flip (OrderedAlike db after after' user)) := by
    refine hboth.imp fun hsorted happlies happlies' row row' new new' hrow hrow' hnew hnew' ↦ ?_
    exact iff_of_false (hsorted.1 happlies' happlies row' row hrow' hrow).asymm
      (hsorted.2 happlies' happlies new' new hnew' hnew).asymm
  exact List.Pairwise.forall_of_forall_of_flip hself hforward hbackward hfirst hsecond

/-- Two ways to serve the same records agree. -/
theorem Served.same (h : Served rt user period db records after results)
    (h' : Served rt user period db records after' results') :
    SamePush (after, results) (after', results') := by
  refine ⟨?_, fun id ↦ ?_, ?_, fun key ↦ ?_⟩
  · have hboth := h.handled
    have hboth' := h'.handled
    clear h h'
    induction hboth generalizing results' with
    | nil =>
      cases hboth'
      rfl
    | cons hfirst _ ih =>
      cases hboth' with
      | cons hfirst' hrest' =>
        rw [List.map_cons, List.map_cons, (hfirst.same hfirst').1]
        exact congrArg _ (ih hrest')
  · by_cases hmem : id ∈ records.map (·.id)
    · obtain ⟨record, hrecord, rfl⟩ := List.mem_map.mp hmem
      obtain ⟨_, hhandled⟩ := h.of_record hrecord
      obtain ⟨_, hhandled'⟩ := h'.of_record hrecord
      exact (hhandled.same hhandled').2
    · dsimp only
      rw [h.others id hmem, h'.others id hmem]
  · intro id id' hid hid' row row' new new' hrow hrow' hnew hnew'
    obtain ⟨first, hfirst, rfl, happlies⟩ := h.applies_of_applied hid
    obtain ⟨second, hsecond, rfl, happlies'⟩ := h.applies_of_applied hid'
    exact h.orderedAlike h' hfirst hsecond happlies happlies' row row' new new' hrow hrow' hnew hnew'
  · dsimp only
    rw [h.counters key, h'.counters key]

/-! ## One push -/

theorem selected_of_valid (db : Db) (user : UUID) (hdistinct : (records.map (·.id)).Nodup)
    (hmem : record ∈ records) :
    selected db user (records.map .valid) record.id =
      if (objectionAt db user record).isNone then some record else none := by
  have hparsed : (scan (records.map Entry.valid)).parsed = records := by rw [scan_valid hdistinct]
  have hfind := find?_parsed (hparsed.symm ▸ hmem)
  rw [(scan_verdict _).parsed] at hfind
  rw [selected, hfind, Option.filter_some]

theorem selected_of_notMem (hdistinct : (records.map (·.id)).Nodup) {id : UUID}
    (hnot : id ∉ records.map (·.id)) : selected db user (records.map .valid) id = none := by
  rw [selected_eq_find?, scan_valid hdistinct, List.find?_eq_none]
  intro record hmem heq
  have hrecord := (List.mem_filter.mp hmem).1
  exact hnot (of_decide_eq_true heq ▸ List.mem_map_of_mem hrecord)

theorem finalReason_of_valid (db : Db) (user : UUID) (hdistinct : (records.map (·.id)).Nodup)
    (hmem : record ∈ records) :
    finalReason db user (records.map .valid) record.id = objectionAt db user record := by
  have hparsed : (scan (records.map Entry.valid)).parsed = records := by rw [scan_valid hdistinct]
  have hrejects : (scan (records.map Entry.valid)).rejects record.id = none := by rw [scan_valid hdistinct]
  have hfind := find?_parsed (hparsed.symm ▸ hmem)
  rw [(scan_verdict _).parsed] at hfind
  rw [(scan_verdict _).rejects] at hrejects
  rw [finalReason, hfind, hrejects, Option.bind_some, Option.or_none]

theorem freshIds_of_valid (hdistinct : (records.map (·.id)).Nodup) :
    (freshIds db user (records.map .valid)).length = (records.filter (isNew db user)).length := by
  have horder : ((records.map Entry.valid).filterMap Entry.id?).eraseDups = records.map (·.id) := by
    rw [← scan_order, scan_valid hdistinct]
  rw [freshIds, horder, List.filter_map, List.length_map]
  congr 1
  apply List.filter_congr
  intro record hmem
  rw [Function.comp_apply, selected_of_valid db user hdistinct hmem, isNew]
  cases (objectionAt db user record).isNone <;> rfl

/-- The values a push draws for the rows it writes. -/
theorem pushSync_sorted {batch : List RawRecord} {now clock : Instant} {response : SyncPushResponse}
    (hparsed : batch.map (classify rt) = records.map .valid) (hdistinct : (records.map (·.id)).Nodup)
    (h : pushSync rt settings db user batch now clock = some (after, response)) :
    (∀ record ∈ records, Applies db user record → ∀ row, after.expenses.lookup record.id = some row →
      db.syncSeq < row.serverSeq ∧ row.serverSeq ≤ after.syncSeq) ∧
    (records.Pairwise fun first second ↦ Applies db user first → Applies db user second → ∀ row row',
      after.expenses.lookup first.id = some row → after.expenses.lookup second.id = some row' →
        row.serverSeq < row'.serverSeq) ∧ db.syncSeq ≤ after.syncSeq := by
  obtain ⟨_, hvalid⟩ := checkOwners_spec db user (batch.map (classify rt))
  simp only [pushSync, Option.bind_eq_bind, Option.bind_eq_some_iff, Option.pure_def, hvalid] at h
  obtain ⟨insertions, hinsertions, counters, _, heq⟩ := h
  cases heq
  rw [hparsed, scan_valid hdistinct] at hinsertions
  dsimp only at hinsertions
  have hnodup : (insertions.map Insertion.id).Nodup := by
    rw [toInsertions_ids hinsertions]
    exact hdistinct.sublist (List.filter_sublist.map _)
  obtain ⟨hdrawn, hsorted⟩ := foldl_upsertRow_sorted user now insertions ⟨db.expenses, db.syncSeq, []⟩ hnodup
  have hnewer {record : ExpenseSyncIn} {columns : ClientColumns} (happlies : Applies db user record)
      (hcolumns : record.toColumns rt = some columns) :
      Insertion.Newer db.expenses ⟨record.id, record.deviceId, columns⟩ := by
    intro row hrow
    rw [ExpenseSyncIn.clientRev_of_toColumns hcolumns]
    exact happlies.2 row hrow
  have hkept {record : ExpenseSyncIn} (hmem : record ∈ records) (happlies : Applies db user record) :
      record ∈ records.filter fun record ↦ (objectionAt db user record).isNone :=
    List.mem_filter.mpr ⟨hmem, by rw [happlies.1]; rfl⟩
  have hseq := le_foldl_upsertRow_seq user now insertions ⟨db.expenses, db.syncSeq, []⟩
  refine ⟨fun record hmem happlies row hrow ↦ ?_, ?_, hseq⟩
  · obtain ⟨columns, hcolumns, hin⟩ := mem_toInsertions hinsertions (hkept hmem happlies)
    exact hdrawn _ hin (hnewer happlies hcolumns) row hrow
  · have hrecords := pairwise_of_toInsertions hinsertions hsorted
    rw [List.pairwise_filter] at hrecords
    refine hrecords.imp_of_mem fun hfirst hsecond hpair happlies happlies' row row' hrow hrow' ↦ ?_
    obtain ⟨columns, hcolumns, _⟩ := mem_toInsertions hinsertions (hkept hfirst happlies)
    obtain ⟨columns', hcolumns', _⟩ := mem_toInsertions hinsertions (hkept hsecond happlies')
    exact hpair (by rw [happlies.1]; rfl) (by rw [happlies'.1]; rfl) columns columns' hcolumns hcolumns'
      (hnewer happlies hcolumns) (hnewer happlies' hcolumns') row row' hrow hrow'

/-- A push of valid records with distinct ids serves them. -/
theorem pushSync_served {batch : List RawRecord} {now clock : Instant} {response : SyncPushResponse}
    (hparsed : batch.map (classify rt) = records.map .valid) (hdistinct : (records.map (·.id)).Nodup)
    (h : pushSync rt settings db user batch now clock = some (after, response)) :
    Served rt user (currentPeriod clock) db records after response.results := by
  obtain ⟨returned, hspec⟩ := pushSync_spec h
  obtain ⟨hdrawn, hsorted, hseq⟩ := pushSync_sorted hparsed hdistinct h
  rw [hparsed] at hspec
  refine ⟨?_, ?_, hdrawn, hsorted, hseq, ?_, hspec.devices⟩
  · rw [hspec.results, scan_valid hdistinct, List.map_map, List.forall₂_map_right_iff, List.forall₂_same]
    intro record hmem
    have hselected := selected_of_valid db user hdistinct hmem
    have hreason := finalReason_of_valid db user hdistinct hmem
    rw [Function.comp_apply, resultFor, hreason]
    cases hobjection : objectionAt db user record with
    | some reason =>
      rw [hobjection] at hselected
      exact .refused reason (hspec.untouched record.id hselected).1
    | none =>
      rw [hobjection] at hselected
      obtain ⟨columns, hcolumns, houtcome⟩ := hspec.written record.id record hselected
      dsimp only
      cases hreturned : returnedFor returned record.id with
      | none =>
        rw [hreturned] at houtcome
        exact .stale now columns hcolumns houtcome
      | some value =>
        rw [hreturned] at houtcome
        exact .applied now columns value.1 value.2 hcolumns houtcome
  · intro id hnot
    exact (hspec.untouched id (selected_of_notMem hdistinct hnot)).1
  · intro key
    rw [lookup_incrementUsage hspec.counted key, hspec.newCount_eq, freshIds_of_valid hdistinct]

/-- The counter column of the period has room for the new rows of the records. -/
def HasRoom (db : Db) (user : UUID) (period : Period) (records : List ExpenseSyncIn) : Prop :=
  (records.filter (isNew db user)).length = 0 ∨
    usageCount db.usageCounters user period + (records.filter (isNew db user)).length ≤ integerMax

theorem pushSync_isSome_of_valid {batch : List RawRecord} (settings : Settings) (db : Db) (user : UUID)
    (now clock : Instant) (hparsed : batch.map (classify rt) = records.map .valid)
    (hdistinct : (records.map (·.id)).Nodup) (hstorable : ∀ record ∈ records, (record.toColumns rt).isSome) :
    (pushSync rt settings db user batch now clock).isSome ↔
      HasRoom db user (currentPeriod clock) records := by
  have hselected : ∀ id record, selected db user (records.map .valid) id = some record →
      (record.toColumns rt).isSome := by
    intro id record hselected
    have hid := selected_id hselected
    subst hid
    by_cases hmem : record.id ∈ records.map (·.id)
    · obtain ⟨other, hother, heq⟩ := List.mem_map.mp hmem
      rw [← heq, selected_of_valid db user hdistinct hother] at hselected
      split at hselected
      · cases hselected
        exact hstorable _ hother
      · cases hselected
    · rw [selected_of_notMem hdistinct hmem] at hselected
      cases hselected
  rw [pushSync_isSome, hparsed, and_iff_right hselected, CounterRoom, ← List.length_eq_zero_iff,
    freshIds_of_valid hdistinct]
  rfl

/-! ## One request after the other -/

/-- What the decisions about a record depend on. -/
theorem objectionAt_congr (hdevices : mid.devices = db.devices)
    (hrow : mid.expenses.lookup record.id = db.expenses.lookup record.id) :
    objectionAt mid user record = objectionAt db user record := by
  unfold objectionAt
  rw [hdevices, hrow]

theorem length_filter_isNew_cons (db : Db) (user : UUID) (record : ExpenseSyncIn)
    (records : List ExpenseSyncIn) : ((record :: records).filter (isNew db user)).length =
      ([record].filter (isNew db user)).length + (records.filter (isNew db user)).length := by
  rw [← List.singleton_append, List.filter_append, List.length_append]

theorem usageCount_eq_getD (counters : UsageTable) (user : UUID) (period : Period) :
    usageCount counters user period = ((counters.lookup (user, period)).map (·.logCount)).getD 0 := by
  unfold usageCount
  cases counters.lookup (user, period) <;> rfl

theorem countMore_getD (old : Option ℕ) (n : ℕ) : (countMore old n).getD 0 = old.getD 0 + n := by
  unfold countMore
  split
  · rename_i hzero
    rw [hzero, Nat.add_zero]
  · rfl

theorem Served.usageCount_eq (h : Served rt user period db records after results) :
    usageCount after.usageCounters user period =
      usageCount db.usageCounters user period + (records.filter (isNew db user)).length := by
  rw [usageCount_eq_getD, h.counters, if_pos rfl, countMore_getD, usageCount_eq_getD]

/-- Later records are decided on as before an earlier push of others. -/
theorem Served.kept (h : Served rt user period db records mid results) {other : ExpenseSyncIn}
    (hnot : other.id ∉ records.map (·.id)) :
    mid.expenses.lookup other.id = db.expenses.lookup other.id ∧
      objectionAt mid user other = objectionAt db user other := by
  have hrow := h.others other.id hnot
  exact ⟨hrow, objectionAt_congr h.devices hrow⟩

theorem Served.applies_iff (h : Served rt user period db records mid results) {other : ExpenseSyncIn}
    (hnot : other.id ∉ records.map (·.id)) : Applies mid user other ↔ Applies db user other := by
  obtain ⟨hrow, hobjection⟩ := h.kept hnot
  rw [Applies, hrow, hobjection, Applies]

theorem notMem_singleton_of_mem {other : ExpenseSyncIn} (hnot : record.id ∉ records.map (·.id))
    (hmem : other ∈ records) : other.id ∉ [record].map (·.id) := by
  rw [List.map_singleton, List.mem_singleton]
  intro heq
  rw [← heq] at hnot
  exact hnot (List.mem_map_of_mem hmem)

theorem Served.filter_isNew (h : Served rt user period db [record] mid results)
    (hnot : record.id ∉ records.map (·.id)) :
    records.filter (isNew mid user) = records.filter (isNew db user) := by
  apply List.filter_congr
  intro other hmem
  have hne : other.id ∉ [record].map (·.id) := notMem_singleton_of_mem hnot hmem
  obtain ⟨hrow, hobjection⟩ := h.kept hne
  rw [isNew, hrow, hobjection, isNew]

theorem Served.nil (db : Db) : Served rt user period db [] db [] where
  handled := .nil
  others _ _ := rfl
  drawn _ hmem := absurd hmem List.not_mem_nil
  sorted := .nil
  seq_le := le_rfl
  counters key := by
    rw [List.filter_nil, List.length_nil, countMore, if_pos rfl]
    exact (ite_self _).symm
  devices := rfl

/-- Serving one record and then the others. -/
theorem Served.cons (h : Served rt user period db [record] mid [result])
    (hrest : Served rt user period mid records after results) (hnot : record.id ∉ records.map (·.id)) :
    Served rt user period db (record :: records) after (result :: results) := by
  have hne (other : ExpenseSyncIn) (hmem : other ∈ records) : other.id ∉ [record].map (·.id) :=
    notMem_singleton_of_mem hnot hmem
  have hlast := hrest.others record.id hnot
  have hfirst (happlies : Applies db user record) (row : Expense)
      (hrow : after.expenses.lookup record.id = some row) :
      db.syncSeq < row.serverSeq ∧ row.serverSeq ≤ mid.syncSeq := by
    rw [hlast] at hrow
    exact h.drawn record (List.mem_singleton_self _) happlies row hrow
  constructor
  · have hothers := (List.forall₂_and_left records results).mpr ⟨fun _ hmem ↦ hmem, hrest.handled⟩
    refine .cons ?_ (hothers.imp fun other _ hboth ↦ ?_)
    · rw [hlast]
      cases h.handled with
      | cons hhandled _ => exact hhandled
    · obtain ⟨hmem, hhandled⟩ := hboth
      obtain ⟨hrow, hobjection⟩ := h.kept (hne other hmem)
      rw [hrow, hobjection] at hhandled
      exact hhandled
  · intro id hid
    rw [List.map_cons, List.mem_cons, not_or] at hid
    calc after.expenses.lookup id
        = mid.expenses.lookup id := hrest.others id hid.2
      _ = db.expenses.lookup id := h.others id fun heq ↦ hid.1 (List.mem_singleton.mp heq)
  · intro other hmem happlies row hrow
    rcases List.mem_cons.mp hmem with rfl | hmem
    · exact ⟨(hfirst happlies row hrow).1, (hfirst happlies row hrow).2.trans hrest.seq_le⟩
    · have hdrawn := hrest.drawn other hmem ((h.applies_iff (hne other hmem)).mpr happlies) row hrow
      exact ⟨lt_of_le_of_lt h.seq_le hdrawn.1, hdrawn.2⟩
  · refine List.pairwise_cons.mpr ⟨fun other hmem happlies happlies' row row' hrow hrow' ↦ ?_, ?_⟩
    · have hdrawn := hrest.drawn other hmem ((h.applies_iff (hne other hmem)).mpr happlies') row' hrow'
      exact lt_of_le_of_lt (hfirst happlies row hrow).2 hdrawn.1
    · refine hrest.sorted.imp_of_mem fun hmem hmem' hpair happlies happlies' ↦ ?_
      exact hpair ((h.applies_iff (hne _ hmem)).mpr happlies) ((h.applies_iff (hne _ hmem')).mpr happlies')
  · exact h.seq_le.trans hrest.seq_le
  · intro key
    have hmore : (records.filter (isNew mid user)).length = (records.filter (isNew db user)).length := by
      rw [h.filter_isNew hnot]
    rw [hrest.counters, h.counters, hmore, length_filter_isNew_cons db user record records]
    split
    · exact countMore_add ..
    · rfl
  · exact hrest.devices.trans h.devices

theorem ValidBatch.head {request : PushRequest} {rest : List PushRequest}
    (h : ValidBatch rt (request :: rest) (record :: records)) :
    [request.raw].map (classify rt) = [record].map .valid :=
  congrArg (fun entry ↦ [entry]) (List.cons.inj h.parsed).1

theorem ValidBatch.tail {request : PushRequest} {rest : List PushRequest}
    (h : ValidBatch rt (request :: rest) (record :: records)) : ValidBatch rt rest records where
  parsed := (List.cons.inj h.parsed).2
  distinct := (List.nodup_cons.mp h.distinct).2
  storable other hmem := h.storable other (List.mem_cons_of_mem _ hmem)

theorem pushEach_length_le (rt : Runtime) (settings : Settings) (user : UUID) (db : Db)
    {requests : List PushRequest} (hvalid : ValidBatch rt requests records) :
    (pushEach rt settings user db requests).2.length ≤ requests.length := by
  induction requests generalizing db records with
  | nil => exact le_rfl
  | cons request rest ih =>
    cases records with
    | nil => cases hvalid.parsed
    | cons record records =>
      rw [pushEach]
      split
      · exact Nat.le_succ_of_le (ih db hvalid.tail)
      · rename_i after response hpush
        have hserved := pushSync_served hvalid.head (List.nodup_singleton _) hpush
        have hlength := hserved.handled.length_eq
        have hrest := ih after hvalid.tail
        rw [List.length_append, List.length_cons, ← hlength, List.length_singleton]
        omega

/-- The single pushes are all answered exactly when the counter has room for all of them, and then
they serve the records one after the other. -/
theorem pushEach_served {requests : List PushRequest} (settings : Settings) (user : UUID) (db : Db)
    (hvalid : ValidBatch rt requests records)
    (hperiod : ∀ request ∈ requests, currentPeriod request.clock = period) :
    ((pushEach rt settings user db requests).2.length = requests.length ↔ HasRoom db user period records) ∧
      (HasRoom db user period records → Served rt user period db records
        (pushEach rt settings user db requests).1 (pushEach rt settings user db requests).2) := by
  induction requests generalizing db records with
  | nil =>
    cases records with
    | nil =>
      exact ⟨iff_of_true rfl (.inl rfl), fun _ ↦ .nil db⟩
    | cons record records => cases hvalid.parsed
  | cons request rest ih =>
    cases records with
    | nil => cases hvalid.parsed
    | cons record records =>
      have hnot : record.id ∉ records.map (·.id) := (List.nodup_cons.mp hvalid.distinct).1
      have hclock : currentPeriod request.clock = period := hperiod request List.mem_cons_self
      have hstorable : ∀ other ∈ [record], (other.toColumns rt).isSome := by
        rw [List.forall_mem_singleton]
        exact hvalid.storable record List.mem_cons_self
      have hroom := pushSync_isSome_of_valid settings db user request.now request.clock hvalid.head
        (List.nodup_singleton _) hstorable
      have hsplit := length_filter_isNew_cons db user record records
      rw [hclock] at hroom
      unfold HasRoom at hroom ⊢
      rw [pushEach]
      cases hpush : pushSync rt settings db user [request.raw] request.now request.clock with
      | none =>
        -- the counter is full: this request, and with it the whole, is not answered
        rw [hpush] at hroom
        have hfull := mt hroom.mpr (by simp)
        have hshort := pushEach_length_le rt settings user db hvalid.tail
        have hnone : ¬ (((record :: records).filter (isNew db user)).length = 0 ∨
            usageCount db.usageCounters user period + ((record :: records).filter (isNew db user)).length ≤
              integerMax) := by
          omega
        refine ⟨iff_of_false ?_ hnone, fun h ↦ absurd h hnone⟩
        rw [List.length_cons]
        exact (Nat.lt_succ_of_le hshort).ne
      | some out =>
        obtain ⟨after, response⟩ := out
        have hserved := pushSync_served hvalid.head (List.nodup_singleton _) hpush
        rw [hclock] at hserved
        have hcount := hserved.usageCount_eq
        have hmore := congrArg List.length (hserved.filter_isNew hnot)
        obtain ⟨hanswered, hrest⟩ := ih after hvalid.tail fun other hmem ↦
          hperiod other (List.mem_cons_of_mem _ hmem)
        unfold HasRoom at hanswered hrest
        rw [hpush] at hroom
        have hfirst := hroom.mp rfl
        have hlength := hserved.handled.length_eq
        dsimp only
        rw [List.length_singleton] at hlength
        rw [List.length_append, ← hlength, List.length_cons]
        constructor
        · constructor
          · intro hall
            have hothers := hanswered.mp (by omega)
            omega
          · intro hall
            have hothers := hanswered.mpr (by omega)
            omega
        · intro hall
          obtain ⟨result, hresult⟩ := List.length_eq_one_iff.mp hlength.symm
          rw [hresult] at hserved ⊢
          exact hserved.cons (hrest (by omega)) hnot

end

/-- Valid records with distinct ids, pushed at once and one by one within one period: the batch is
answered exactly when every single push is, and then the two agree. -/
theorem pushEach_agrees (rt : Runtime) (settings : Settings) (db : Db) (user : UUID)
    (requests : List PushRequest) (records : List ExpenseSyncIn) (now clock : Instant)
    (hvalid : ValidBatch rt requests records)
    (hperiod : ∀ request ∈ requests, currentPeriod request.clock = currentPeriod clock) :
    ((pushSync rt settings db user (requests.map (·.raw)) now clock).isSome ↔
      (pushEach rt settings user db requests).2.length = requests.length) ∧
    ∀ after response, pushSync rt settings db user (requests.map (·.raw)) now clock = some (after, response) →
      SamePush (after, response.results) (pushEach rt settings user db requests) := by
  have hparsed : (requests.map (·.raw)).map (classify rt) = records.map .valid := by
    rw [List.map_map]
    exact hvalid.parsed
  have hroom := pushSync_isSome_of_valid settings db user now clock hparsed hvalid.distinct hvalid.storable
  obtain ⟨hanswered, hserved⟩ := pushEach_served settings user db hvalid hperiod
  refine ⟨hroom.trans hanswered.symm, fun after response hpush ↦ ?_⟩
  have hbatch := pushSync_served hparsed hvalid.distinct hpush
  rw [hpush] at hroom
  exact hbatch.same (hserved (hroom.mp rfl))

/-! ## A full counter -/

/-- Two new expenses of the sample user. -/
def twoRequests : List PushRequest :=
  [⟨sampleExpense 5 1, 0, 0⟩,
    ⟨sampleRecord "00000000-0000-0000-0000-000000000004" "00000000-0000-0000-0000-000000000002" 7 1, 0, 0⟩]

/-- What the two requests parse to. -/
def twoRecords : List ExpenseSyncIn :=
  [⟨⟨3⟩, ⟨2⟩, ⟨5, 0⟩, "USD", ⟨1789000000000000, some 0⟩, 1, none, none, none, none, none, none⟩,
    ⟨⟨4⟩, ⟨2⟩, ⟨7, 0⟩, "USD", ⟨1789000000000000, some 0⟩, 1, none, none, none, none, none, none⟩]

theorem twoRequests_valid : ValidBatch .ascii twoRequests twoRecords where
  parsed := by
    have hclassify : ∀ (raw : RawRecord) (record : ExpenseSyncIn), modelValidate .ascii raw = .ok record →
        classify .ascii raw = .valid record := by
      intro raw record hok
      unfold classify
      rw [hok]
    exact congrArg₂ (fun first second ↦ [first, second])
      (hclassify _ _ (by decide +kernel)) (hclassify _ _ (by decide +kernel))
  distinct := by decide
  storable := by decide +kernel

/-- The sample user, one log before the counter column is full. -/
def almostFull : Db :=
  { sampleDb with usageCounters := AList.singleton (⟨1⟩, currentPeriod 0) ⟨integerMax - 1, 0, 0⟩ }

/-- The batch raises and writes nothing; pushed one by one, the first record gets its row. -/
theorem pushEach_disagrees : ¬ ∀ (rt : Runtime) (settings : Settings) (db : Db) (user : UUID)
    (requests : List PushRequest) (records : List ExpenseSyncIn) (now clock : Instant),
    ValidBatch rt requests records →
      (∀ request ∈ requests, currentPeriod request.clock = currentPeriod clock) →
        SamePush
          ((pushSync rt settings db user (requests.map (·.raw)) now clock).elim (db, []) fun out ↦
            (out.1, out.2.results))
          (pushEach rt settings user db requests) := by
  intro hsame
  have hbatch : pushSync .ascii sampleSettings almostFull ⟨1⟩ (twoRequests.map (·.raw)) 0 0 = none := by
    rw [← Option.not_isSome_iff_eq_none]
    decide +kernel
  have hrow : ((pushEach .ascii sampleSettings ⟨1⟩ almostFull twoRequests).1.expenses.lookup ⟨3⟩).isSome =
      true := by
    decide +kernel
  have hrows := (hsame .ascii sampleSettings almostFull ⟨1⟩ twoRequests twoRecords 0 0 twoRequests_valid
    (by decide)).rows ⟨3⟩
  rw [hbatch] at hrows
  obtain ⟨row, hlookup⟩ := Option.isSome_iff_exists.mp hrow
  rw [hlookup] at hrows
  cases hrows

/-- With an empty counter the two requests and their batch agree. -/
theorem pushEach_agrees_sample : ∃ after response,
    pushSync .ascii sampleSettings sampleDb ⟨1⟩ (twoRequests.map (·.raw)) 0 0 = some (after, response) ∧
      response.results.map (·.status) = [.applied, .applied] ∧
        SamePush (after, response.results) (pushEach .ascii sampleSettings ⟨1⟩ sampleDb twoRequests) := by
  have hbatch : (pushSync .ascii sampleSettings sampleDb ⟨1⟩ (twoRequests.map (·.raw)) 0 0).map
      (fun out ↦ out.2.results.map (·.status)) = some [.applied, .applied] := by
    decide +kernel
  obtain ⟨⟨after, response⟩, hpush, hstatus⟩ := Option.map_eq_some_iff.mp hbatch
  exact ⟨after, response, hpush, hstatus, (pushEach_agrees .ascii sampleSettings sampleDb ⟨1⟩ twoRequests
    twoRecords 0 0 twoRequests_valid (by decide)).2 after response hpush⟩

end VoiceSpend
