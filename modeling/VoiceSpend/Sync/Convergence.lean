import VoiceSpend.Library.Register
import VoiceSpend.Sync.Push

/-!
# Last writer wins

Batches are delivered one after another; a push that raises is not answered and changes
nothing. Seen through the client columns, the rows of the delivered ids form a file of
last-writer-wins registers keyed by `client_rev`: a push of valid records with distinct ids
offers each of them to the register of its id, and answers APPLIED exactly when it is
accepted. Convergence and the number of APPLIED answers are then facts about registers.
-/

namespace VoiceSpend

open Register

/-- One request: its records, the transaction's `now()` and the server's clock. -/
structure Delivery where
  records : List RawRecord
  now : Instant
  clock : Instant

/-- Deliver the batches in order; the answered ones are returned with their responses. -/
def deliverAll (rt : Runtime) (settings : Settings) (user : UUID) :
    Db → List Delivery → Db × List (Delivery × SyncPushResponse)
  | db, [] => (db, [])
  | db, delivery :: rest =>
    match pushSync rt settings db user delivery.records delivery.now delivery.clock with
    | none => deliverAll rt settings user db rest
    | some (after, response) =>
      ((deliverAll rt settings user after rest).1,
        (delivery, response) :: (deliverAll rt settings user after rest).2)

/-- The record versions of a batch. -/
def versionsOf (rt : Runtime) (records : List RawRecord) : List ExpenseSyncIn :=
  records.filterMap fun raw ↦ (modelValidate rt raw).toOption

/-- The versions of one id that answered pushes delivered, in order. -/
def delivered (rt : Runtime) (answered : List (Delivery × SyncPushResponse)) (id : UUID) :
    List ExpenseSyncIn :=
  (answered.flatMap fun answer ↦ versionsOf rt answer.1.records).filter (·.id = id)

/-- The number of APPLIED results for one id. -/
def appliedCount (answered : List (Delivery × SyncPushResponse)) (id : UUID) : ℕ :=
  (answered.flatMap fun answer ↦ answer.2.results).countP fun result ↦
    result.id = id ∧ result.status = .applied

/-- Versions of one user's new expenses that every push can store. -/
structure Pushable (rt : Runtime) (db : Db) (user : UUID) (versions : Finset ExpenseSyncIn) : Prop where
  payload : ∀ v ∈ versions, ∀ w ∈ versions, v.id = w.id → v.clientRev = w.clientRev →
    v.toColumns rt = w.toColumns rt
  storable : ∀ v ∈ versions, (v.toColumns rt).isSome
  owned : ∀ v ∈ versions, (db.devices.lookup v.deviceId).any (·.userId = user) = true
  fresh : ∀ v ∈ versions, db.expenses.lookup v.id = none

/-- Batches of these versions, each without repeated ids. -/
structure Schedule (rt : Runtime) (versions : Finset ExpenseSyncIn) (deliveries : List Delivery) :
    Prop where
  valid : ∀ delivery ∈ deliveries, ∀ raw ∈ delivery.records,
    ∃ v ∈ versions, modelValidate rt raw = .ok v
  distinct : ∀ delivery ∈ deliveries, ((versionsOf rt delivery.records).map (·.id)).Nodup

/-- Every version is in some answered batch. -/
def Complete (rt : Runtime) (versions : Finset ExpenseSyncIn)
    (answered : List (Delivery × SyncPushResponse)) : Prop :=
  ∀ v ∈ versions, ∃ answer ∈ answered, v ∈ versionsOf rt answer.1.records

/-! ## The register file -/

/-- Offer a version to the register of its id. -/
def receive (stored : UUID → Option ExpenseSyncIn) (batch : List ExpenseSyncIn) :
    UUID → Option ExpenseSyncIn :=
  fun id ↦ match batch.find? (·.id = id) with
    | none => stored id
    | some v => put ExpenseSyncIn.clientRev (stored id) v

/-- The tables hold the registers: an empty one is an absent row, a full one the user's row
with the version's columns. -/
structure Represents (rt : Runtime) (user : UUID) (versions : Finset ExpenseSyncIn) (db : Db)
    (stored : UUID → Option ExpenseSyncIn) : Prop where
  owned : ∀ v ∈ versions, (db.devices.lookup v.deviceId).any (·.userId = user) = true
  absent : ∀ v ∈ versions, stored v.id = none → db.expenses.lookup v.id = none
  present : ∀ id v, stored id = some v → ∃ row, db.expenses.lookup id = some row ∧
    row.userId = user ∧ v.toColumns rt = some row.client

section

variable {rt : Runtime} {settings : Settings} {user : UUID} {versions : Finset ExpenseSyncIn}
  {db after : Db} {stored : UUID → Option ExpenseSyncIn} {records : List RawRecord}
  {now clock : Instant} {response : SyncPushResponse}

/-- The entries of a batch of valid records. -/
theorem classify_valid (hvalid : ∀ raw ∈ records, ∃ v ∈ versions, modelValidate rt raw = .ok v) :
    records.map (classify rt) = (versionsOf rt records).map .valid := by
  induction records with
  | nil => rfl
  | cons raw rest ih =>
    obtain ⟨v, _, hv⟩ := hvalid raw List.mem_cons_self
    have hclass : classify rt raw = .valid v := by
      unfold classify
      rw [hv]
    have hversion : (modelValidate rt raw).toOption = some v := by rw [hv]; rfl
    rw [List.map_cons, hclass, ih fun other hother ↦ hvalid other (List.mem_cons_of_mem _ hother)]
    simp only [versionsOf, List.filterMap_cons, hversion, List.map_cons]

theorem mem_versions_of_mem (hvalid : ∀ raw ∈ records, ∃ v ∈ versions, modelValidate rt raw = .ok v)
    {v : ExpenseSyncIn} (hmem : v ∈ versionsOf rt records) : v ∈ versions := by
  obtain ⟨raw, hraw, hv⟩ := List.mem_filterMap.mp hmem
  obtain ⟨w, hw, hok⟩ := hvalid raw hraw
  rw [hok] at hv
  cases hv
  exact hw

/-- With distinct ids, the only version of an id is found by its id. -/
theorem filter_id_eq_find? {batch : List ExpenseSyncIn} (hdistinct : (batch.map (·.id)).Nodup)
    (id : UUID) : batch.filter (·.id = id) = (batch.find? (·.id = id)).toList := by
  induction batch with
  | nil => rfl
  | cons v rest ih =>
    rw [List.map_cons, List.nodup_cons] at hdistinct
    by_cases hid : v.id = id
    · subst hid
      have hrest : rest.filter (fun other ↦ decide (other.id = v.id)) = [] := by
        apply List.filter_eq_nil_iff.mpr
        intro other hother heq
        exact hdistinct.1 (of_decide_eq_true heq ▸ List.mem_map_of_mem hother)
      simp [hrest]
    · simp [hid, ih hdistinct.2]

/-- The verdict on an id of a batch of valid records with distinct ids. -/
theorem verdict_valid {batch : List ExpenseSyncIn} (hdistinct : (batch.map (·.id)).Nodup) (id : UUID) :
    verdict (batch.map .valid) id = match batch.find? (·.id = id) with
      | none => .unseen
      | some v => .kept v := by
  have hcopies : copies (batch.map .valid) id = (batch.find? (·.id = id)).toList.map .valid := by
    rw [← filter_id_eq_find? hdistinct id, copies, List.filter_map]
    have hpred : (fun e : Entry ↦ decide (e.id? = some id)) ∘ Entry.valid = fun v ↦ decide (v.id = id) := by
      funext v
      simp [Entry.id?]
    rw [hpred]
  unfold verdict
  rw [hcopies]
  cases batch.find? (·.id = id) <;> rfl

/-- The response has at most one result for an id. -/
theorem PushSpec.countP_applied {entries : List Entry} {returned : List Returned}
    (h : PushSpec rt db user entries now clock after response returned) (id : UUID) :
    (response.results.countP fun result ↦ result.id = id ∧ result.status = .applied) =
      if (verdict entries id).seen = true ∧
          (resultFor (finalReason db user entries) returned id).status = .applied then 1 else 0 := by
  rw [h.results, List.countP_map]
  by_cases hstatus : (resultFor (finalReason db user entries) returned id).status = .applied
  · have hpred : (fun result : SyncPushResult ↦ decide (result.id = id ∧ result.status = .applied)) ∘
        resultFor (finalReason db user entries) returned = fun other ↦ other == id := by
      funext other
      by_cases hother : other = id
      · simp [hother, hstatus]
      · simp [hother]
    rw [hpred]
    change (scan entries).order.count id = _
    by_cases hseen : (verdict entries id).seen = true
    · rw [if_pos ⟨hseen, hstatus⟩]
      exact List.count_eq_one_of_mem (scan_order_nodup entries)
        (((scan_verdict entries).order id).mpr hseen)
    · rw [if_neg fun hboth ↦ hseen hboth.1]
      exact List.count_eq_zero.mpr fun hmem ↦ hseen (((scan_verdict entries).order id).mp hmem)
  · rw [if_neg fun hboth ↦ hstatus hboth.2, List.countP_eq_zero]
    intro other _ hother
    simp only [Function.comp_apply, resultFor_id, decide_eq_true_eq] at hother
    exact hstatus (hother.1 ▸ hother.2)

/-- The push may write every version: its device and its row are the user's. -/
theorem Represents.objectionAt_eq_none (hrep : Represents rt user versions db stored) {v : ExpenseSyncIn}
    (hv : v ∈ versions) : objectionAt db user v = none := by
  unfold objectionAt
  rw [if_neg (by rw [hrep.owned v hv]; decide)]
  cases hstored : stored v.id with
  | none => rw [hrep.absent v hv hstored]
  | some w =>
    obtain ⟨row, hrow, huser, _⟩ := hrep.present v.id w hstored
    rw [hrow]
    simp [huser]

/-- Writing a version over the row of its register is offering it to the register. -/
theorem Represents.offer (hrep : Represents rt user versions db stored) {v : ExpenseSyncIn}
    (hv : v ∈ versions) {columns : ClientColumns} (hcolumns : v.toColumns rt = some columns)
    {new : Option Expense} {ret : Option (ℕ × Bool)}
    (houtcome : RowOutcome user now ⟨v.id, v.deviceId, columns⟩ (db.expenses.lookup v.id) new ret) :
    (∃ row w, put ExpenseSyncIn.clientRev (stored v.id) v = some w ∧ new = some row ∧
      row.userId = user ∧ w.toColumns rt = some row.client) ∧
    (ret.isSome ↔ accepts ExpenseSyncIn.clientRev (stored v.id) v = true) := by
  have hrev := ExpenseSyncIn.clientRev_of_toColumns hcolumns
  cases hstored : stored v.id with
  | none =>
    rw [hrep.absent v hv hstored] at houtcome
    obtain ⟨_, _, hnew, hret⟩ | ⟨_, _, hold, _⟩ | ⟨_, hold, _⟩ := houtcome.cases_eq
    · exact ⟨⟨_, v, by simp [put, accepts], hnew, rfl, hcolumns⟩, by simp [hret, accepts]⟩
    · cases hold
    · cases hold
  | some w =>
    obtain ⟨old, hlookup, huser, hcolumns'⟩ := hrep.present v.id w hstored
    have hrev' := ExpenseSyncIn.clientRev_of_toColumns hcolumns'
    rw [hlookup] at houtcome
    obtain ⟨_, hold, _⟩ | ⟨_, _, hold, newer, hnew, hret⟩ | ⟨_, hold, older, hnew, hret⟩ :=
      houtcome.cases_eq
    · cases hold
    · cases hold
      have hlt : w.clientRev < v.clientRev := by rw [← hrev, ← hrev']; exact newer
      exact ⟨⟨_, v, by simp [put, accepts, hlt], hnew, huser, hcolumns⟩, by simp [hret, accepts, hlt]⟩
    · cases hold
      have hle : v.clientRev ≤ w.clientRev := by rw [← hrev, ← hrev']; exact older
      exact ⟨⟨_, w, by simp [put, accepts, hle], hnew, huser, hcolumns'⟩, by simp [hret, accepts, hle]⟩

/-- An answered push offers each version of its batch to the register of its id, and answers
APPLIED when the register accepts. -/
theorem Represents.push (hrep : Represents rt user versions db stored)
    (hvalid : ∀ raw ∈ records, ∃ v ∈ versions, modelValidate rt raw = .ok v)
    (hdistinct : ((versionsOf rt records).map (·.id)).Nodup)
    (hpush : pushSync rt settings db user records now clock = some (after, response)) :
    Represents rt user versions after (receive stored (versionsOf rt records)) ∧
      ∀ id, (response.results.countP fun result ↦ result.id = id ∧ result.status = .applied) =
        match (versionsOf rt records).find? (·.id = id) with
        | none => 0
        | some v => if accepts ExpenseSyncIn.clientRev (stored id) v then 1 else 0 := by
  obtain ⟨returned, hspec⟩ := pushSync_spec hpush
  rw [classify_valid hvalid] at hspec
  have hverdict := verdict_valid hdistinct
  have huntouched (id : UUID) (hfind : (versionsOf rt records).find? (·.id = id) = none) :
      after.expenses.lookup id = db.expenses.lookup id := by
    refine (hspec.untouched id ?_).1
    rw [selected, hverdict, hfind]
    rfl
  have hoffer (id : UUID) (v : ExpenseSyncIn)
      (hfind : (versionsOf rt records).find? (·.id = id) = some v) :
      v ∈ versions ∧ (∃ row w, put ExpenseSyncIn.clientRev (stored id) v = some w ∧
        after.expenses.lookup id = some row ∧ row.userId = user ∧ w.toColumns rt = some row.client) ∧
      ((returnedFor returned id).isSome ↔ accepts ExpenseSyncIn.clientRev (stored id) v = true) := by
    have hv := mem_versions_of_mem hvalid (List.mem_of_find?_eq_some hfind)
    have hid : v.id = id := by simpa using List.find?_some hfind
    subst hid
    have hselected : selected db user ((versionsOf rt records).map .valid) v.id = some v := by
      rw [selected, hverdict, hfind]
      simp [Verdict.record?, hrep.objectionAt_eq_none hv, Option.filter_some]
    obtain ⟨columns, hcolumns, houtcome⟩ := hspec.written v.id v hselected
    exact ⟨hv, hrep.offer hv hcolumns houtcome⟩
  refine ⟨⟨fun v hv ↦ ?_, fun v hv hnone ↦ ?_, fun id w hw ↦ ?_⟩, fun id ↦ ?_⟩
  · rw [hspec.devices]
    exact hrep.owned v hv
  · unfold receive at hnone
    cases hfind : (versionsOf rt records).find? (·.id = v.id) with
    | none =>
      simp only [hfind] at hnone
      rw [huntouched v.id hfind]
      exact hrep.absent v hv hnone
    | some v' =>
      simp only [hfind] at hnone
      obtain ⟨_, ⟨_, _, hput, _⟩, _⟩ := hoffer v.id v' hfind
      rw [hput] at hnone
      cases hnone
  · unfold receive at hw
    cases hfind : (versionsOf rt records).find? (·.id = id) with
    | none =>
      simp only [hfind] at hw
      rw [huntouched id hfind]
      exact hrep.present id w hw
    | some v =>
      simp only [hfind] at hw
      obtain ⟨_, ⟨row, w', hput, hlookup, huser, hcolumns⟩, _⟩ := hoffer id v hfind
      rw [hput] at hw
      cases hw
      exact ⟨row, hlookup, huser, hcolumns⟩
  · rw [hspec.countP_applied, hverdict]
    cases hfind : (versionsOf rt records).find? (·.id = id) with
    | none => simp [Verdict.seen]
    | some v =>
      obtain ⟨hv, _, hiff⟩ := hoffer id v hfind
      have hreason : finalReason db user ((versionsOf rt records).map .valid) id = none := by
        rw [finalReason, hverdict, hfind]
        simp [Verdict.record?, Verdict.reason?, hrep.objectionAt_eq_none hv]
      simp only [Verdict.seen, resultFor, hreason, true_and]
      cases hret : returnedFor returned id with
      | none => simp [← hiff, hret]
      | some ret => simp [← hiff, hret]

/-- After any deliveries the tables hold registers that hold the newest delivered versions,
and every id was applied once for each strict running maximum. -/
theorem deliverAll_registers (settings : Settings) (deliveries : List Delivery)
    (hschedule : Schedule rt versions deliveries)
    (db : Db) (stored : UUID → Option ExpenseSyncIn) (seen : UUID → List ExpenseSyncIn)
    (hrep : Represents rt user versions db stored)
    (hholds : ∀ id, Holds ExpenseSyncIn.clientRev (stored id) (seen id)) :
    let result := deliverAll rt settings user db deliveries
    ∃ final, Represents rt user versions result.1 final ∧ ∀ id,
      Holds ExpenseSyncIn.clientRev (final id) ((delivered rt result.2 id).reverse ++ seen id) ∧
      appliedCount result.2 id = strictMaximaFrom ((seen id).map (·.clientRev))
        ((delivered rt result.2 id).map (·.clientRev)) := by
  induction deliveries generalizing db stored seen with
  | nil => exact ⟨stored, hrep, fun id ↦ ⟨hholds id, rfl⟩⟩
  | cons delivery rest ih =>
    have hrest : Schedule rt versions rest :=
      ⟨fun other hother ↦ hschedule.valid other (List.mem_cons_of_mem _ hother),
        fun other hother ↦ hschedule.distinct other (List.mem_cons_of_mem _ hother)⟩
    have hvalid := hschedule.valid delivery List.mem_cons_self
    have hdistinct := hschedule.distinct delivery List.mem_cons_self
    dsimp only
    unfold deliverAll
    cases hpush : pushSync rt settings db user delivery.records delivery.now delivery.clock with
    | none => exact ih hrest db stored seen hrep hholds
    | some out =>
      obtain ⟨after, response⟩ := out
      dsimp only
      obtain ⟨hafter, hcount⟩ := hrep.push hvalid hdistinct hpush
      -- an id of the batch is offered one version, any other id none
      have hfilter := filter_id_eq_find? hdistinct
      obtain ⟨final, hfinal, hids⟩ := ih hrest after (receive stored (versionsOf rt delivery.records))
        (fun id ↦ ((versionsOf rt delivery.records).find? (·.id = id)).toList ++ seen id) hafter
        (fun id ↦ by
          unfold receive
          cases (versionsOf rt delivery.records).find? (·.id = id) with
          | none => exact hholds id
          | some v => exact holds_put (hholds id) v)
      refine ⟨final, hfinal, fun id ↦ ?_⟩
      obtain ⟨hholds', hcount'⟩ := hids id
      have hdelivered (answered : List (Delivery × SyncPushResponse)) :
          delivered rt ((delivery, response) :: answered) id =
            ((versionsOf rt delivery.records).find? (·.id = id)).toList ++ delivered rt answered id := by
        rw [← hfilter id]
        simp [delivered]
      have happlied (answered : List (Delivery × SyncPushResponse)) :
          appliedCount ((delivery, response) :: answered) id =
            (response.results.countP fun result ↦ result.id = id ∧ result.status = .applied) +
              appliedCount answered id := by
        simp [appliedCount, List.countP_append]
      rw [hdelivered, happlied, hcount id, hcount']
      cases hfind : (versionsOf rt delivery.records).find? (·.id = id) with
      | none =>
        simp only [hfind] at hholds' ⊢
        exact ⟨by simpa using hholds', by simp⟩
      | some v =>
        simp only [hfind] at hholds' ⊢
        refine ⟨by simpa using hholds', ?_⟩
        have hiff := accepts_iff (hholds id) v
        simp [strictMaximaFrom, hiff]

theorem deliverAll_subset {deliveries : List Delivery} {answer : Delivery × SyncPushResponse}
    (h : answer ∈ (deliverAll rt settings user db deliveries).2) : answer.1 ∈ deliveries := by
  induction deliveries generalizing db with
  | nil => cases h
  | cons delivery rest ih =>
    unfold deliverAll at h
    cases hpush : pushSync rt settings db user delivery.records delivery.now delivery.clock with
    | none =>
      simp only [hpush] at h
      exact List.mem_cons_of_mem _ (ih h)
    | some out =>
      simp only [hpush] at h
      rcases List.mem_cons.mp h with rfl | h
      · exact List.mem_cons_self
      · exact List.mem_cons_of_mem _ (ih h)

theorem mem_versions_of_selected (hvalid : ∀ raw ∈ records, ∃ v ∈ versions, modelValidate rt raw = .ok v)
    {id : UUID} {v : ExpenseSyncIn} (hselected : selected db user (records.map (classify rt)) id = some v) :
    v ∈ versions := by
  obtain ⟨_, rest, hcopies⟩ := first_copy_of_selected hselected
  have hcopy : Entry.valid v ∈ copies (records.map (classify rt)) id := by
    rw [hcopies]
    exact List.mem_cons_self
  have hmem : Entry.valid v ∈ (versionsOf rt records).map .valid := by
    rw [← classify_valid hvalid]
    exact (valid_mem_copies.mp hcopy).1
  obtain ⟨w, hw, heq⟩ := List.mem_map.mp hmem
  cases heq
  exact mem_versions_of_mem hvalid hw

/-- A push of storable versions is answered when the counter has room for all of them. -/
theorem pushSync_answered (hstorable : ∀ v ∈ versions, (v.toColumns rt).isSome)
    (hvalid : ∀ raw ∈ records, ∃ v ∈ versions, modelValidate rt raw = .ok v)
    (hroom : usageCount db.usageCounters user (currentPeriod clock) + records.length ≤ integerMax) :
    (pushSync rt settings db user records now clock).isSome := by
  refine pushSync_isSome.mpr ⟨fun id v hselected ↦ ?_, Or.inr ?_⟩
  · exact hstorable v (mem_versions_of_selected hvalid hselected)
  · have hlength := freshIds_length_le db user (records.map (classify rt))
    rw [List.length_map] at hlength
    omega

/-- The greatest delivered version of an id is what its row holds in the end. -/
theorem deliverAll_newest {deliveries : List Delivery} (hversions : Pushable rt db user versions)
    (hschedule : Schedule rt versions deliveries)
    (hcomplete : Complete rt versions (deliverAll rt settings user db deliveries).2)
    {v : ExpenseSyncIn} (hv : v ∈ versions)
    (hnewest : ∀ w ∈ versions, w.id = v.id → w.clientRev ≤ v.clientRev) :
    ∃ row, (deliverAll rt settings user db deliveries).1.expenses.lookup v.id = some row ∧
      row.userId = user ∧ v.toColumns rt = some row.client := by
  have hstart : Represents rt user versions db fun _ ↦ none :=
    ⟨hversions.owned, fun w hw _ ↦ hversions.fresh w hw, fun _ _ h ↦ by cases h⟩
  obtain ⟨final, hfinal, hids⟩ := deliverAll_registers settings deliveries hschedule db
    (fun _ ↦ none) (fun _ ↦ []) hstart (fun _ ↦ holds_nil _)
  obtain ⟨answer, hanswer, hmem⟩ := hcomplete v hv
  have hdelivered : v ∈ delivered rt (deliverAll rt settings user db deliveries).2 v.id :=
    List.mem_filter.mpr ⟨List.mem_flatMap.mpr ⟨answer, hanswer, hmem⟩, by simp⟩
  have hholds := (hids v.id).1
  obtain ⟨top, htop, hle⟩ := hholds.1 v (by simpa using hdelivered)
  have hseen : top ∈ delivered rt (deliverAll rt settings user db deliveries).2 v.id := by
    simpa using hholds.2 top htop
  obtain ⟨hsome, hid⟩ := List.mem_filter.mp hseen
  obtain ⟨answer', hanswer', hmem'⟩ := List.mem_flatMap.mp hsome
  have hid : top.id = v.id := by simpa using hid
  have htopVersion : top ∈ versions :=
    mem_versions_of_mem (hschedule.valid answer'.1 (deliverAll_subset hanswer')) hmem'
  have hrev : top.clientRev = v.clientRev := le_antisymm (hnewest top htopVersion hid) hle
  obtain ⟨row, hrow, huser, hcolumns⟩ := hfinal.present v.id top htop
  exact ⟨row, hrow, huser, by rw [← hversions.payload top htopVersion v hv hid hrev, hcolumns]⟩

/-- Rows of ids that no version has are not touched. -/
theorem deliverAll_untouched {deliveries : List Delivery} (hschedule : Schedule rt versions deliveries)
    {id : UUID} (hid : ∀ v ∈ versions, v.id ≠ id) :
    (deliverAll rt settings user db deliveries).1.expenses.lookup id = db.expenses.lookup id := by
  induction deliveries generalizing db with
  | nil => rfl
  | cons delivery rest ih =>
    have hrest : Schedule rt versions rest :=
      ⟨fun other hother ↦ hschedule.valid other (List.mem_cons_of_mem _ hother),
        fun other hother ↦ hschedule.distinct other (List.mem_cons_of_mem _ hother)⟩
    unfold deliverAll
    cases hpush : pushSync rt settings db user delivery.records delivery.now delivery.clock with
    | none => exact ih hrest
    | some out =>
      obtain ⟨returned, hspec⟩ := pushSync_spec hpush
      have hselected : selected db user (delivery.records.map (classify rt)) id = none := by
        rw [Option.eq_none_iff_forall_ne_some]
        intro v hv
        exact hid v (mem_versions_of_selected (hschedule.valid delivery List.mem_cons_self) hv)
          (selected_id hv)
      calc (deliverAll rt settings user out.1 rest).1.expenses.lookup id
          = out.1.expenses.lookup id := ih hrest
        _ = db.expenses.lookup id := (hspec.untouched id hselected).1

end

section

variable (rt : Runtime) (settings : Settings) (db : Db) (user : UUID) (versions : Finset ExpenseSyncIn)
  (deliveries : List Delivery)

/-- Delivered in any order, repetition and grouping, each id ends with its newest version and
was applied once for each strict running maximum; two schedules end with the same content.
A push is left unanswered only when the counter has no room for its batch. -/
theorem deliverAll_converges (hversions : Pushable rt db user versions)
    (hschedule : Schedule rt versions deliveries)
    (hcomplete : Complete rt versions (deliverAll rt settings user db deliveries).2) :
    (∀ v ∈ versions, (∀ w ∈ versions, w.id = v.id → w.clientRev ≤ v.clientRev) →
      ∃ row, (deliverAll rt settings user db deliveries).1.expenses.lookup v.id = some row ∧
        row.userId = user ∧ v.toColumns rt = some row.client) ∧
    (∀ id, appliedCount (deliverAll rt settings user db deliveries).2 id =
      strictMaxima ((delivered rt (deliverAll rt settings user db deliveries).2 id).map (·.clientRev))) ∧
    (∀ others, Schedule rt versions others →
      Complete rt versions (deliverAll rt settings user db others).2 → ∀ id,
        ((deliverAll rt settings user db deliveries).1.expenses.lookup id).map (·.client) =
          ((deliverAll rt settings user db others).1.expenses.lookup id).map (·.client)) ∧
    (∀ before delivery later, deliveries = before ++ delivery :: later →
      usageCount (deliverAll rt settings user db before).1.usageCounters user
        (currentPeriod delivery.clock) + delivery.records.length ≤ integerMax →
      (pushSync rt settings (deliverAll rt settings user db before).1 user delivery.records delivery.now
        delivery.clock).isSome) := by
  refine ⟨fun v hv hnewest ↦ deliverAll_newest hversions hschedule hcomplete hv hnewest, fun id ↦ ?_,
    fun others hothers hcomplete' id ↦ ?_, fun before delivery later hsplit hroom ↦ ?_⟩
  · have hstart : Represents rt user versions db fun _ ↦ none :=
      ⟨hversions.owned, fun w hw _ ↦ hversions.fresh w hw, fun _ _ h ↦ by cases h⟩
    obtain ⟨_, _, hids⟩ := deliverAll_registers settings deliveries hschedule db
      (fun _ ↦ none) (fun _ ↦ []) hstart (fun _ ↦ holds_nil _)
    exact (hids id).2
  · by_cases hid : ∃ v ∈ versions, v.id = id
    · obtain ⟨v, hv, hvid⟩ := hid
      obtain ⟨newest, hmem, hmax⟩ := Finset.exists_max_image (versions.filter (·.id = id))
        ExpenseSyncIn.clientRev ⟨v, Finset.mem_filter.mpr ⟨hv, hvid⟩⟩
      obtain ⟨hnewest, rfl⟩ := Finset.mem_filter.mp hmem
      have htop (w : ExpenseSyncIn) (hw : w ∈ versions) (hsame : w.id = newest.id) :
          w.clientRev ≤ newest.clientRev := hmax w (Finset.mem_filter.mpr ⟨hw, hsame⟩)
      obtain ⟨row, hrow, _, hcolumns⟩ :=
        deliverAll_newest hversions hschedule hcomplete hnewest htop
      obtain ⟨row', hrow', _, hcolumns'⟩ :=
        deliverAll_newest hversions hothers hcomplete' hnewest htop
      rw [hrow, hrow', Option.map_some, Option.map_some, ← hcolumns, hcolumns']
    · push Not at hid
      rw [deliverAll_untouched hschedule hid, deliverAll_untouched hothers hid]
  · exact pushSync_answered hversions.storable
      (hschedule.valid delivery (by rw [hsplit]; simp)) hroom

end

/-- The record `sampleExpense` is parsed to. -/
def sampleVersion (amountOriginal : ℤ) (clientRev : ℕ) : ExpenseSyncIn where
  id := ⟨3⟩
  deviceId := ⟨2⟩
  amountOriginal := ⟨amountOriginal, 0⟩
  currencyOriginal := "USD"
  spentAt := ⟨1789000000000000, some 0⟩
  clientRev := clientRev
  category := none
  paymentMethod := none
  merchant := none
  note := none
  rawTranscript := none
  deletedAt := none

/-- The newer version arrives first and stays. -/
theorem deliverAll_converges_sample :
    ∃ row, (deliverAll .ascii sampleSettings ⟨1⟩ sampleDb
      [⟨[sampleExpense 13 2], 0, 0⟩, ⟨[sampleExpense 12 1], 0, 0⟩]).1.expenses.lookup ⟨3⟩ = some row ∧
        row.userId = ⟨1⟩ ∧ (sampleVersion 13 2).toColumns .ascii = some row.client := by
  have hfirst : modelValidate .ascii (sampleExpense 13 2) = .ok (sampleVersion 13 2) := rfl
  have hsecond : modelValidate .ascii (sampleExpense 12 1) = .ok (sampleVersion 12 1) := rfl
  have hanswered : (deliverAll .ascii sampleSettings ⟨1⟩ sampleDb
      [⟨[sampleExpense 13 2], 0, 0⟩, ⟨[sampleExpense 12 1], 0, 0⟩]).2.map
        (fun answer ↦ versionsOf .ascii answer.1.records) = [[sampleVersion 13 2], [sampleVersion 12 1]] := by
    decide +kernel
  refine (deliverAll_converges .ascii sampleSettings sampleDb ⟨1⟩ {sampleVersion 12 1, sampleVersion 13 2}
    _ ⟨?_, ?_, ?_, ?_⟩ ⟨?_, ?_⟩ ?_).1 (sampleVersion 13 2) (by decide +kernel) (by decide +kernel)
  · decide +kernel
  · decide +kernel
  · decide +kernel
  · decide +kernel
  · intro delivery hdelivery raw hraw
    simp only [List.mem_cons, List.not_mem_nil, or_false] at hdelivery
    rcases hdelivery with rfl | rfl
    · rw [List.mem_singleton.mp hraw]
      exact ⟨_, by simp, hfirst⟩
    · rw [List.mem_singleton.mp hraw]
      exact ⟨_, by simp, hsecond⟩
  · decide +kernel
  · intro v hv
    have hmem : [v] ∈ [[sampleVersion 13 2], [sampleVersion 12 1]] := by
      rcases Finset.mem_insert.mp hv with rfl | hv
      · simp
      · rw [Finset.mem_singleton.mp hv]
        simp
    rw [← hanswered] at hmem
    obtain ⟨answer, hanswer, heq⟩ := List.mem_map.mp hmem
    exact ⟨answer, hanswer, by rw [heq]; exact List.mem_singleton_self v⟩

end VoiceSpend
