import VoiceSpend.Sync.Push

/-!
# Do push responses tell the truth?

`Truthful` is what a client may conclude from the response of a successful push. It can
fail in one way only: two valid copies of one id make the loop report "duplicate id in
batch", yet the first copy stays in `parsed` and is written. `pushSync_truthful_iff` says
that this is the exact extent of the defect.
-/

namespace VoiceSpend

/-- The ids that have a row after the push and had none before it. -/
def newIds (db after : Db) : Finset UUID :=
  after.expenses.keys.toFinset \ db.expenses.keys.toFinset

/-- What every result of a response promises about the tables before and after. -/
structure Truthful (rt : Runtime) (db : Db) (user : UUID) (batch : List RawRecord) (clock : Instant)
    (after : Db) (response : SyncPushResponse) : Prop where
  /-- Every parsable id once, by first appearance. -/
  ids : response.results.map (·.id) = (batch.filterMap (recordId rt)).eraseDups
  applied : ∀ result ∈ response.results, result.status = .applied →
    ∃ row serverSeq, result.serverSeq = some serverSeq ∧
      after.expenses.lookup result.id = some row ∧ row.userId = user ∧ row.serverSeq = serverSeq ∧
      ∃ raw ∈ batch, ∃ record, modelValidate rt raw = .ok record ∧ record.id = result.id ∧
        record.toColumns rt = some row.client
  stale : ∀ result ∈ response.results, result.status = .staleIgnored →
    ∃ row, db.expenses.lookup result.id = some row ∧ after.expenses.lookup result.id = some row ∧
      (∃ raw ∈ batch, ∃ record, modelValidate rt raw = .ok record ∧ record.id = result.id) ∧
      ∀ raw ∈ batch, ∀ record, modelValidate rt raw = .ok record → record.id = result.id →
        record.clientRev ≤ row.client.clientRev
  /-- The row is unchanged, and everything the push counted is some other id. -/
  rejected : ∀ result ∈ response.results, result.status = .rejected →
    after.expenses.lookup result.id = db.expenses.lookup result.id ∧
      ∀ period, usageCount after.usageCounters user period =
        usageCount db.usageCounters user period +
          if period = currentPeriod clock then ((newIds db after).erase result.id).card else 0

/-- Writing the record, as the first of its id, would change the table. -/
def Writes (db : Db) (user : UUID) (record : ExpenseSyncIn) : Prop :=
  objectionAt db user record = none ∧
    ∀ row, db.expenses.lookup record.id = some row → row.client.clientRev < record.clientRev

/-- No id has a valid first copy that would be written and a second valid copy after it. -/
def NoWrittenDuplicate (rt : Runtime) (db : Db) (user : UUID) (batch : List RawRecord) : Prop :=
  ∀ id record rest, copies (batch.map (classify rt)) id = .valid record :: rest →
    (∃ other, Entry.valid other ∈ rest) → ¬ Writes db user record

section

variable {rt : Runtime} {settings : Settings} {db after : Db} {user : UUID} {batch : List RawRecord}
  {now clock : Instant} {response : SyncPushResponse} {returned : List Returned}

theorem mem_newIds {id : UUID} :
    id ∈ newIds db after ↔ (after.expenses.lookup id).isSome ∧ db.expenses.lookup id = none := by
  unfold newIds
  rw [Finset.mem_sdiff, List.mem_toFinset, List.mem_toFinset, ← AList.mem_keys, ← AList.mem_keys,
    AList.lookup_isSome, AList.lookup_eq_none]

/-- The new rows are the fresh ids. -/
theorem PushSpec.newIds_eq
    (h : PushSpec rt db user (batch.map (classify rt)) now clock after response returned) :
    newIds db after = (freshIds db user (batch.map (classify rt))).toFinset := by
  ext id
  rw [mem_newIds, List.mem_toFinset, ← h.insertedIds_perm.mem_iff, h.mem_insertedIds_iff]
  apply and_congr_left
  intro hnone
  cases hselected : selected db user (batch.map (classify rt)) id with
  | none => simp [(h.untouched id hselected).1, hnone]
  | some record =>
    obtain ⟨columns, _, houtcome⟩ := h.written id record hselected
    obtain ⟨_, _, hnew, _⟩ | ⟨_, _, hold, _⟩ | ⟨_, hold, _⟩ := houtcome.cases_eq
    · simp [hnew]
    · simp [hold] at hnone
    · simp [hold] at hnone

theorem PushSpec.card_newIds
    (h : PushSpec rt db user (batch.map (classify rt)) now clock after response returned) :
    (newIds db after).card = newCount returned := by
  rw [h.newIds_eq, List.toFinset_card_of_nodup freshIds_nodup, h.newCount_eq]

/-- A record that would be written leaves its id with a different row. -/
theorem RowOutcome.changes {insertion : Insertion} {old new : Option Expense} {ret : Option (ℕ × Bool)}
    (h : RowOutcome user now insertion old new ret)
    (hnewer : ∀ row, old = some row → row.client.clientRev < insertion.client.clientRev) : new ≠ old := by
  cases h with
  | inserted serverSeq => exact fun heq ↦ by cases heq
  | updated row serverSeq newer =>
    intro heq
    have hrev := congrArg (fun e : Expense ↦ e.client.clientRev) (Option.some.inj heq)
    simp only [Expense.onConflict_client] at hrev
    omega
  | stale row older => exact absurd (hnewer row rfl) (not_lt.mpr older)

/-- A rejected id keeps its row and is not counted, unless it is a written duplicate. -/
theorem PushSpec.rejected_unchanged
    (h : PushSpec rt db user (batch.map (classify rt)) now clock after response returned)
    (hsafe : NoWrittenDuplicate rt db user batch) {id : UUID} {reason : String}
    (hreason : finalReason db user (batch.map (classify rt)) id = some reason) :
    after.expenses.lookup id = db.expenses.lookup id := by
  cases hselected : selected db user (batch.map (classify rt)) id with
  | none => exact (h.untouched id hselected).1
  | some record =>
    obtain ⟨columns, hcolumns, houtcome⟩ := h.written id record hselected
    have hid := selected_id hselected
    -- selected and yet rejected: only a duplicated id is both
    obtain ⟨hrecord, hobjection⟩ : (verdict (batch.map (classify rt)) id).record? = some record ∧
        objectionAt db user record = none := by
      unfold selected at hselected
      rw [Option.filter_eq_some_iff] at hselected
      simpa using hselected
    obtain ⟨rest, hcopies⟩ := copies_of_verdict hrecord
    have hduplicate : ∃ other, Entry.valid other ∈ rest := by
      by_contra hnone
      rw [finalReason, verdict_of_copies hcopies, if_neg (mt any_record?_iff.mp hnone)] at hreason
      simp [Verdict.record?, Verdict.reason?, hobjection] at hreason
    have hnot := hsafe id record rest hcopies hduplicate
    subst hid
    have hrev := ExpenseSyncIn.clientRev_of_toColumns hcolumns
    obtain ⟨_, hold, _⟩ | ⟨row, _, hold, newer, _⟩ | ⟨row, hold, _, hnew, _⟩ := houtcome.cases_eq
    · exact absurd ⟨hobjection, fun row hrow ↦ by rw [hold] at hrow; cases hrow⟩ hnot
    · refine absurd ⟨hobjection, fun other hother ↦ ?_⟩ hnot
      rw [hold] at hother
      cases hother
      exact hrev ▸ newer
    · rw [hold, hnew]

/-- An applied id holds its record's columns under the reported sequence value. -/
theorem PushSpec.applied_row
    (h : PushSpec rt db user (batch.map (classify rt)) now clock after response returned)
    {id : UUID} {record : ExpenseSyncIn} {serverSeq : ℕ} {inserted : Bool}
    (hselected : selected db user (batch.map (classify rt)) id = some record)
    (hreturned : returnedFor returned id = some (serverSeq, inserted)) :
    ∃ row, after.expenses.lookup id = some row ∧ row.userId = user ∧ row.serverSeq = serverSeq ∧
      record.toColumns rt = some row.client := by
  obtain ⟨columns, hcolumns, houtcome⟩ := h.written id record hselected
  rw [hreturned] at houtcome
  obtain ⟨_, _, hnew, hret⟩ | ⟨row, _, hold, _, hnew, hret⟩ | ⟨_, _, _, _, hret⟩ := houtcome.cases_eq
  · cases hret
    exact ⟨_, hnew, rfl, rfl, hcolumns⟩
  · cases hret
    exact ⟨_, hnew, (row.onConflict_userId _ _).trans (owner_of_selected hselected hold), rfl, hcolumns⟩
  · cases hret

/-- An id that is not rejected has one valid record in the batch, which is selected. -/
theorem sent_of_accepted {id : UUID} (horder : id ∈ (scan (batch.map (classify rt))).order)
    (haccepted : finalReason db user (batch.map (classify rt)) id = none) :
    ∃ record, selected db user (batch.map (classify rt)) id = some record ∧
      (∃ raw ∈ batch, modelValidate rt raw = .ok record ∧ record.id = id) ∧
        ∀ raw ∈ batch, ∀ other, modelValidate rt raw = .ok other → other.id = id → other = record := by
  obtain ⟨record, hverdict, hselected⟩ :=
    selected_of_finalReason (((scan_verdict _).order id).mp horder) haccepted
  obtain ⟨rest, hcopies⟩ := copies_of_verdict (by rw [hverdict]; rfl)
  obtain ⟨hvalid, hid⟩ := valid_mem_copies.mp
    (show Entry.valid record ∈ copies _ id by rw [hcopies]; exact List.mem_cons_self)
  obtain ⟨raw, hraw, hok⟩ := valid_mem_iff.mp hvalid
  refine ⟨record, hselected, ⟨raw, hraw, hok, hid⟩, fun raw' hraw' other hother hsame ↦ ?_⟩
  have hcopy : Entry.valid other ∈ copies (batch.map (classify rt)) id :=
    valid_mem_copies.mpr ⟨valid_mem_iff.mpr ⟨raw', hraw', hother⟩, hsame⟩
  rw [hcopies, List.mem_cons] at hcopy
  rcases hcopy with heq | hrest
  · cases heq
    rfl
  · rw [verdict_of_copies hcopies, if_pos (any_record?_iff.mpr ⟨other, hrest⟩)] at hverdict
    cases hverdict

/-- An applied result speaks of the row it names. -/
theorem PushSpec.truthful_applied
    (h : PushSpec rt db user (batch.map (classify rt)) now clock after response returned)
    {result : SyncPushResult} (hmem : result ∈ response.results) (hstatus : result.status = .applied) :
    ∃ row serverSeq, result.serverSeq = some serverSeq ∧
      after.expenses.lookup result.id = some row ∧ row.userId = user ∧ row.serverSeq = serverSeq ∧
      ∃ raw ∈ batch, ∃ record, modelValidate rt raw = .ok record ∧ record.id = result.id ∧
        record.toColumns rt = some row.client := by
  obtain ⟨id, horder, hreported⟩ := h.reported hmem
  cases hreported with
  | rejected | stale => cases hstatus
  | applied serverSeq inserted accepted wrote =>
    obtain ⟨record, hselected, ⟨raw, hraw, hok, hid⟩, _⟩ := sent_of_accepted horder accepted
    obtain ⟨row, hrow, huser, hseq, hcolumns⟩ := h.applied_row hselected wrote
    exact ⟨row, serverSeq, rfl, hrow, huser, hseq, raw, hraw, record, hok, hid, hcolumns⟩

/-- A stale result speaks of a row that no record of the batch is newer than. -/
theorem PushSpec.truthful_stale
    (h : PushSpec rt db user (batch.map (classify rt)) now clock after response returned)
    {result : SyncPushResult} (hmem : result ∈ response.results) (hstatus : result.status = .staleIgnored) :
    ∃ row, db.expenses.lookup result.id = some row ∧ after.expenses.lookup result.id = some row ∧
      (∃ raw ∈ batch, ∃ record, modelValidate rt raw = .ok record ∧ record.id = result.id) ∧
      ∀ raw ∈ batch, ∀ record, modelValidate rt raw = .ok record → record.id = result.id →
        record.clientRev ≤ row.client.clientRev := by
  obtain ⟨id, horder, hreported⟩ := h.reported hmem
  cases hreported with
  | rejected | applied => cases hstatus
  | stale accepted left =>
    obtain ⟨record, hselected, ⟨raw, hraw, hok, hid⟩, honly⟩ := sent_of_accepted horder accepted
    obtain ⟨columns, hcolumns, houtcome⟩ := h.written id record hselected
    rw [left] at houtcome
    obtain ⟨_, _, _, hret⟩ | ⟨_, _, _, _, _, hret⟩ | ⟨row, hold, older, hnew, _⟩ := houtcome.cases_eq
    · cases hret
    · cases hret
    refine ⟨row, hold, hnew, ⟨raw, hraw, record, hok, hid⟩, fun raw' hraw' other hother hsame ↦ ?_⟩
    rw [honly raw' hraw' other hother hsame, ← ExpenseSyncIn.clientRev_of_toColumns hcolumns]
    exact older

/-- Without a written duplicate, a rejected id has its row and is not among the counted ones. -/
theorem PushSpec.truthful_rejected
    (h : PushSpec rt db user (batch.map (classify rt)) now clock after response returned)
    (hsafe : NoWrittenDuplicate rt db user batch) {result : SyncPushResult}
    (hmem : result ∈ response.results) (hstatus : result.status = .rejected) :
    after.expenses.lookup result.id = db.expenses.lookup result.id ∧
      ∀ period, usageCount after.usageCounters user period =
        usageCount db.usageCounters user period +
          if period = currentPeriod clock then ((newIds db after).erase result.id).card else 0 := by
  obtain ⟨id, _, hreported⟩ := h.reported hmem
  cases hreported with
  | applied | stale => cases hstatus
  | rejected reason refused =>
    have hsame := h.rejected_unchanged hsafe refused
    refine ⟨hsame, fun period ↦ ?_⟩
    have hnot : id ∉ newIds db after := by
      rw [mem_newIds, hsame]
      rintro ⟨hsome, hnone⟩
      rw [hnone] at hsome
      cases hsome
    rw [Finset.erase_eq_of_notMem hnot, h.card_newIds, usageCount_incrementUsage h.counted]
    simp

/-- A written duplicate is rejected, and yet its row changes. -/
theorem PushSpec.rejected_and_written
    (h : PushSpec rt db user (batch.map (classify rt)) now clock after response returned)
    {id : UUID} {record : ExpenseSyncIn} {rest : List Entry}
    (hcopies : copies (batch.map (classify rt)) id = .valid record :: rest)
    (hduplicate : ∃ other, Entry.valid other ∈ rest) (hwrites : Writes db user record) :
    ⟨id, .rejected, some Scan.duplicateReason, none⟩ ∈ response.results ∧
      after.expenses.lookup id ≠ db.expenses.lookup id := by
  have hverdict : verdict (batch.map (classify rt)) id = .duplicated record := by
    rw [verdict_of_copies hcopies, if_pos (any_record?_iff.mpr hduplicate)]
  have hmem : Entry.valid record ∈ copies (batch.map (classify rt)) id := by
    rw [hcopies]
    exact List.mem_cons_self
  have hid : record.id = id := (valid_mem_copies.mp hmem).2
  have hselected : selected db user (batch.map (classify rt)) id = some record := by
    simp [selected, hverdict, Verdict.record?, hwrites.1, Option.filter_some]
  have hreason : finalReason db user (batch.map (classify rt)) id = some Scan.duplicateReason := by
    simp [finalReason, hverdict, Verdict.record?, Verdict.reason?, hwrites.1]
  have horder : id ∈ (scan (batch.map (classify rt))).order :=
    ((scan_verdict _).order id).mpr (by rw [hverdict]; rfl)
  have hresult : resultFor (finalReason db user (batch.map (classify rt))) returned id ∈
      response.results := by
    rw [h.results]
    exact List.mem_map_of_mem horder
  simp only [resultFor, hreason] at hresult
  obtain ⟨columns, hcolumns, houtcome⟩ := h.written id record hselected
  have hrev := ExpenseSyncIn.clientRev_of_toColumns hcolumns
  subst hid
  exact ⟨hresult, houtcome.changes fun row hrow ↦ by rw [hrev]; exact hwrites.2 row hrow⟩

end

section

variable (rt : Runtime) (settings : Settings) (db after : Db) (user : UUID) (batch : List RawRecord)
  (now clock : Instant) (response : SyncPushResponse)

/-- The response of a push is truthful exactly when no duplicate of a written record is
reported as rejected. -/
theorem pushSync_truthful_iff
    (h : pushSync rt settings db user batch now clock = some (after, response)) :
    Truthful rt db user batch clock after response ↔ NoWrittenDuplicate rt db user batch := by
  obtain ⟨returned, hspec⟩ := pushSync_spec h
  constructor
  · intro htrue id record rest hcopies hduplicate hwrites
    obtain ⟨hresult, hchanged⟩ := hspec.rejected_and_written hcopies hduplicate hwrites
    exact hchanged (htrue.rejected _ hresult rfl).1
  · intro hsafe
    refine ⟨?_, fun _ ↦ hspec.truthful_applied, fun _ ↦ hspec.truthful_stale,
      fun _ ↦ hspec.truthful_rejected hsafe⟩
    rw [hspec.results, List.map_map, scan_order, List.filterMap_map]
    simp only [Function.comp_def, resultFor_id, List.map_id']
    rfl

end

/-- A batch in which every repeated id is stored at a revision that is not older. -/
theorem noWrittenDuplicate_of_stale {rt : Runtime} {db : Db} {user : UUID} {batch : List RawRecord}
    (h : ∀ record ∈ (batch.map (classify rt)).filterMap Entry.record?,
      (copies (batch.map (classify rt)) record.id).length ≤ 1 ∨
        ∃ row, db.expenses.lookup record.id = some row ∧ record.clientRev ≤ row.client.clientRev) :
    NoWrittenDuplicate rt db user batch := by
  rintro id record rest hcopies ⟨other, hother⟩ ⟨_, hnewer⟩
  have hmem : Entry.valid record ∈ copies (batch.map (classify rt)) id := by
    rw [hcopies]
    exact List.mem_cons_self
  obtain ⟨hentry, hid⟩ := List.mem_filter.mp hmem
  have hid : record.id = id := Option.some.inj (of_decide_eq_true hid)
  rcases h record (List.mem_filterMap.mpr ⟨_, hentry, rfl⟩) with hlength | ⟨row, hrow, hstale⟩
  · rw [hid, hcopies, List.length_cons] at hlength
    have hpos := List.length_pos_of_mem hother
    omega
  · exact absurd (hnewer row hrow) (not_lt.mpr hstale)

/-- A record of the sample user for another expense. -/
def numberedExpense (digit : String) (clientRev : ℤ) : RawRecord :=
  sampleRecord ("00000000-0000-0000-0000-00000000000" ++ digit) "00000000-0000-0000-0000-000000000002"
    12 clientRev

/-- A record without an id, one with an id and a bad revision, two stale copies of one id, a stale copy of
another one, and a new record. -/
def mixedBatch : List RawRecord :=
  [[], numberedExpense "4" (-1), sampleExpense 13 1, sampleExpense 14 1, numberedExpense "5" 1,
    numberedExpense "6" 1]

/-- Every result of a mixed batch tells the truth. -/
theorem pushSync_truthful_mixed : ∃ stored after response,
    pushSync .ascii sampleSettings stored ⟨1⟩ mixedBatch 0 0 = some (after, response) ∧
      response.results.map (fun result ↦ (result.id, result.status)) =
        [(⟨4⟩, .rejected), (⟨3⟩, .rejected), (⟨5⟩, .staleIgnored), (⟨6⟩, .applied)] ∧
      Truthful .ascii stored ⟨1⟩ mixedBatch 0 after response := by
  have hrun : ((pushSync .ascii sampleSettings sampleDb ⟨1⟩ [sampleExpense 12 2,
    numberedExpense "5" 2] 0 0).bind
      fun first ↦ (pushSync .ascii sampleSettings first.1 ⟨1⟩ mixedBatch 0 0).map fun second ↦
        ((first.1.expenses.lookup ⟨3⟩).map (·.client.clientRev),
          second.2.results.map fun result ↦ (result.id, result.status))) =
      some (some 2, [(⟨4⟩, .rejected), (⟨3⟩, .rejected), (⟨5⟩, .staleIgnored), (⟨6⟩, .applied)]) := by
    decide +kernel
  obtain ⟨⟨stored, _⟩, _, hrun⟩ := Option.bind_eq_some_iff.mp hrun
  obtain ⟨⟨after, response⟩, hpush, hfacts⟩ := Option.map_eq_some_iff.mp hrun
  obtain ⟨hstored, hresults⟩ := Prod.mk.inj hfacts
  obtain ⟨row, hrow, hrev⟩ := Option.map_eq_some_iff.mp hstored
  have hcopies : ∀ record ∈ (mixedBatch.map (classify .ascii)).filterMap Entry.record?,
      (copies (mixedBatch.map (classify .ascii)) record.id).length ≤ 1 ∨
        record.id = ⟨3⟩ ∧ record.clientRev ≤ 2 := by
    decide +kernel
  refine ⟨stored, after, response, hpush, hresults, (pushSync_truthful_iff _ _ _ _ _ _ _ _ _ hpush).mpr
    (noWrittenDuplicate_of_stale fun record hmem ↦ (hcopies record hmem).imp_right ?_)⟩
  rintro ⟨hid, hstale⟩
  exact ⟨row, hid ▸ hrow, hstale.trans_eq hrev.symm⟩

/-- Two valid copies of a new id: the id is rejected, and its first copy is stored. -/
theorem pushSync_not_truthful : ¬ ∀ (rt : Runtime) (settings : Settings) (db after : Db) (user : UUID)
    (batch : List RawRecord) (now clock : Instant) (response : SyncPushResponse),
    pushSync rt settings db user batch now clock = some (after, response) →
      Truthful rt db user batch clock after response := by
  intro htruthful
  have hrun : (pushSync .ascii sampleSettings sampleDb ⟨1⟩ [sampleExpense 12 1, sampleExpense 12 1]
      0 0).map (fun out ↦ (out.2.results, (out.1.expenses.lookup ⟨3⟩).isSome)) =
      some ([⟨⟨3⟩, .rejected, some "duplicate id in batch", none⟩], true) := by
    decide +kernel
  obtain ⟨⟨after, response⟩, hpush, hout⟩ := Option.map_eq_some_iff.mp hrun
  obtain ⟨hresults, hstored⟩ := Prod.mk.inj hout
  have htrue := htruthful _ _ _ _ _ _ _ _ _ hpush
  have hunchanged := (htrue.rejected _ (by rw [hresults]; exact List.mem_singleton_self _) rfl).1
  have hstored : (after.expenses.lookup ⟨3⟩).isSome := hstored
  rw [hunchanged] at hstored
  exact absurd hstored (by decide)

end VoiceSpend
