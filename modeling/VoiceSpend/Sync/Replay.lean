import VoiceSpend.Sync.Push

/-!
# A push of records that are all superseded

A row under every id of the batch carries the record's revision or a later one. Such a push draws
a value of the sequence for each record and does nothing else: every proposed row conflicts, none
passes the `WHERE`, nothing is returned and nothing is counted.
-/

namespace VoiceSpend

/-- Nothing of the batch is rejected, and every record is storable and superseded. -/
structure Superseded (rt : Runtime) (db : Db) (user : UUID) (entries : List Entry) : Prop where
  scanned : ∀ id ∈ (scan entries).order, (scan entries).rejects id = none
  unobjected : ∀ record ∈ (scan entries).parsed, objectionAt db user record = none
  storable : ∀ record ∈ (scan entries).parsed, (record.toColumns rt).isSome
  stored : ∀ record ∈ (scan entries).parsed, ∃ row, db.expenses.lookup record.id = some row ∧
    record.clientRev ≤ row.client.clientRev

section

variable {rt : Runtime} {settings : Settings} {db : Db} {user : UUID} {entries : List Entry}
  {batch : List RawRecord} {now clock : Instant}

/-- The upsert of superseded rows draws from the sequence only. -/
theorem foldl_upsertRow_stale (user : UUID) (now : Instant) (insertions : List Insertion) (s : UpsertState)
    (hstale : ∀ insertion ∈ insertions, ∃ row, s.expenses.lookup insertion.id = some row ∧
      insertion.client.clientRev ≤ row.client.clientRev) :
    insertions.foldl (upsertRow user now) s = { s with seq := s.seq + insertions.length } := by
  induction insertions generalizing s with
  | nil => rfl
  | cons insertion rest ih =>
    rw [List.forall_mem_cons] at hstale
    obtain ⟨⟨row, hrow, hle⟩, hrest⟩ := hstale
    have hfirst : upsertRow user now s insertion = { s with seq := s.seq + 1 } := by
      unfold upsertRow
      rw [hrow]
      exact if_neg (not_lt.mpr hle)
    have hafter := ih { s with seq := s.seq + 1 } hrest
    rw [List.foldl_cons, hfirst, hafter, List.length_cons, Nat.add_comm rest.length 1, ← Nat.add_assoc]

theorem Superseded.validRecords (h : Superseded rt db user entries) :
    validRecords db user entries = (scan entries).parsed := by
  apply List.filter_eq_self.mpr
  intro record hmem
  rw [h.unobjected record hmem]
  rfl

theorem Superseded.finalReason (h : Superseded rt db user entries) {id : UUID}
    (hmem : id ∈ (scan entries).order) : finalReason db user entries id = none := by
  have hagrees := scan_verdict entries
  unfold VoiceSpend.finalReason
  rw [← hagrees.parsed id, ← hagrees.rejects id, h.scanned id hmem, Option.or_none]
  cases hfind : (scan entries).parsed.find? (·.id = id) with
  | none => rfl
  | some record => exact h.unobjected record (List.mem_of_find?_eq_some hfind)

/-- The whole effect of pushing superseded records. -/
theorem Superseded.pushSync (h : Superseded rt db user (batch.map (classify rt))) (settings : Settings)
    (now clock : Instant) : ∃ drawn, pushSync rt settings db user batch now clock =
      some ({ db with syncSeq := db.syncSeq + drawn },
        { results := (scan (batch.map (classify rt))).order.map fun id ↦ ⟨id, .staleIgnored, none, none⟩
          serverHighWater := highWater db.expenses user
          entitlement := buildEntitlementSignal settings db.entitlements db.usageCounters user clock }) := by
  obtain ⟨hrejects, hvalid⟩ := checkOwners_spec db user (batch.map (classify rt))
  have hparsed := h.validRecords
  unfold VoiceSpend.validRecords at hparsed
  rw [hparsed] at hvalid
  obtain ⟨insertions, hinsertions⟩ :=
    Option.isSome_iff_exists.mp ((@toInsertions_isSome rt _).mpr h.storable)
  have hstale : ∀ insertion ∈ insertions, ∃ row, db.expenses.lookup insertion.id = some row ∧
      insertion.client.clientRev ≤ row.client.clientRev := by
    intro insertion hmem
    obtain ⟨record, hrecord, hcolumns, hid⟩ := of_mem_toInsertions hinsertions hmem
    rw [ExpenseSyncIn.clientRev_of_toColumns hcolumns, ← hid]
    exact h.stored record hrecord
  have hupsert := foldl_upsertRow_stale user now insertions ⟨db.expenses, db.syncSeq, []⟩ hstale
  have hresults : (scan (batch.map (classify rt))).order.map
      (resultFor (VoiceSpend.finalReason db user (batch.map (classify rt))) []) =
        (scan (batch.map (classify rt))).order.map fun id ↦ ⟨id, .staleIgnored, none, none⟩ := by
    apply List.map_congr_left
    intro id hmem
    unfold resultFor
    rw [h.finalReason hmem]
    rfl
  refine ⟨insertions.length, ?_⟩
  unfold VoiceSpend.pushSync
  simp only [hrejects, hvalid, hinsertions, Option.bind_eq_bind, Option.bind_some, bulkUpsert, hupsert]
  rw [← hresults]
  rfl

end

end VoiceSpend
