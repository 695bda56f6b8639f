import VoiceSpend.Fx.Recompute

/-!
# `recompute_amount_base` and `null_amount_base_for_user`

The two background transactions without concurrent writers. A sweep converts the rows of its
batch one after the other; an exception from a conversion or from an `UPDATE` leaves the loop
before the commit, so the whole sweep is rolled back; it is `none` here.

`SweepRow.fill` is what one row of the batch comes to, and `recomputeAmountBase_spec` says that a
completed sweep writes exactly that, row by row.
-/

namespace VoiceSpend

structure RecomputeResult where
  scanned : ℕ
  recomputed : ℕ
  stillMissing : ℕ
  deriving DecidableEq, Repr

/-- The table, the sequence and `recomputed` while the loop runs. -/
structure SweepState where
  expenses : Table UUID Expense
  seq : ℕ
  recomputed : ℕ

/-- The `UPDATE` of one row; the trigger sets `server_seq`. -/
def SweepState.update (s : SweepState) (row : SweepRow) (amountBase : Money) (now : Instant) : SweepState :=
  match s.expenses.lookup row.id with
  | none => { s with recomputed := s.recomputed + 1 }
  | some current =>
    { expenses := s.expenses.insert row.id
        { current.recomputed amountBase row.baseCurrency now with serverSeq := s.seq + 1 }
      seq := s.seq + 1
      recomputed := s.recomputed + 1 }

/-- One iteration of the loop. -/
def recomputeRow (rates : FxTable) (now : Instant) (s : SweepState) (row : SweepRow) : Option SweepState :=
  match convert rates row.amountOriginal.toRat row.currencyOriginal row.baseCurrency row.spentAt.date with
  | none => none
  | some none => some s
  | some (some amountBase) =>
    (Numeric.ofRat 18 4 amountBase).map fun stored ↦ s.update row stored now

/-- `recompute_amount_base`, with the transaction's `now()`. A negative limit raises. -/
def recomputeAmountBase (settings : Settings) (db : Db) (rates : FxTable) (userId : Option UUID)
    (limit : Option ℤ) (tie : UUID → ℕ) (now : Instant) : Option (Db × RecomputeResult) :=
  if sweepLimit settings limit < 0 then none
  else
    let rows := selectBatch db.users db.expenses userId (sweepLimit settings limit).toNat tie
    (rows.foldlM (recomputeRow rates now) ⟨db.expenses, db.syncSeq, 0⟩).map fun s ↦
      ({ db with expenses := s.expenses, syncSeq := s.seq },
        ⟨rows.length, s.recomputed, rows.length - s.recomputed⟩)

/-- The `UPDATE` of `null_amount_base_for_user`, on one row. -/
def nullRow (now : Instant) (s : Table UUID Expense × ℕ) (id : UUID) : Table UUID Expense × ℕ :=
  match s.1.lookup id with
  | none => s
  | some row => (s.1.insert id { row.nulled now with serverSeq := s.2 + 1 }, s.2 + 1)

/-- `null_amount_base_for_user`, which returns the number of rows it updated. -/
def nullAmountBaseForUser (db : Db) (user : UUID) (now : Instant) : Db × ℕ :=
  let ids := ((Table.rows db.expenses).filter fun row ↦ armed user row.2).map (·.1)
  let s := ids.foldl (nullRow now) (db.expenses, db.syncSeq)
  ({ db with expenses := s.1, syncSeq := s.2 }, ids.length)

/-! ## The batch -/

/-- The order of the sweep's query. -/
def sweepBefore (tie : UUID → ℕ) (first second : UUID × Expense) : Prop :=
  first.2.createdAt < second.2.createdAt ∨
    first.2.createdAt = second.2.createdAt ∧ tie first.1 ≤ tie second.1

instance (tie : UUID → ℕ) : DecidableRel (sweepBefore tie) := fun _ _ ↦
  inferInstanceAs (Decidable (_ ∨ _))

theorem sweepBefore_total (tie : UUID → ℕ) (first second : UUID × Expense) :
    sweepBefore tie first second ∨ sweepBefore tie second first := by
  unfold sweepBefore
  rcases lt_trichotomy first.2.createdAt second.2.createdAt with hlt | heq | hgt
  · exact .inl (.inl hlt)
  · rcases le_total (tie first.1) (tie second.1) with hle | hle
    · exact .inl (.inr ⟨heq, hle⟩)
    · exact .inr (.inr ⟨heq.symm, hle⟩)
  · exact .inr (.inl hgt)

theorem sweepBefore_trans {tie : UUID → ℕ} {first second third : UUID × Expense}
    (hfirst : sweepBefore tie first second) (hsecond : sweepBefore tie second third) :
    sweepBefore tie first third := by
  rcases hfirst with hlt | ⟨heq, hle⟩ <;> rcases hsecond with hlt' | ⟨heq', hle'⟩
  · exact .inl (hlt.trans hlt')
  · exact .inl (heq' ▸ hlt)
  · exact .inl (heq ▸ hlt')
  · exact .inr ⟨heq.trans heq', hle.trans hle'⟩

/-- The rows of the sweep's query before its `LIMIT`, in its order. -/
def sweepQueue (users : Table UUID User) (expenses : Table UUID Expense) (userId : Option UUID)
    (tie : UUID → ℕ) : List (UUID × Expense) :=
  ((Table.rows expenses).filter fun row ↦ (sweepRow? users userId row.1 row.2).isSome).insertionSort
    (sweepBefore tie)

section

variable {users : Table UUID User} {expenses : Table UUID Expense} {userId : Option UUID} {limit : ℕ}
  {tie : UUID → ℕ} {id : UUID} {row : Expense} {selected : SweepRow}

theorem selectBatch_eq (users : Table UUID User) (expenses : Table UUID Expense) (userId : Option UUID)
    (limit : ℕ) (tie : UUID → ℕ) : selectBatch users expenses userId limit tie =
      ((sweepQueue users expenses userId tie).take limit).filterMap fun row ↦
        sweepRow? users userId row.1 row.2 := rfl

/-- A row of the query carries the key and the columns of an expense. -/
theorem sweepRow?_eq_some (h : sweepRow? users userId id row = some selected) :
    row.amountBase = none ∧ row.client.deletedAt = none ∧ userId.all (· = row.userId) = true ∧
      ∃ user, users.lookup row.userId = some user ∧
        selected = ⟨id, row.client.amountOriginal, row.client.currencyOriginal, row.client.spentAt,
          user.baseCurrency⟩ := by
  unfold sweepRow? at h
  split at h
  · rename_i hwhere
    obtain ⟨user, huser, heq⟩ := Option.map_eq_some_iff.mp h
    exact ⟨hwhere.1, hwhere.2.1, hwhere.2.2, user, huser, heq.symm⟩
  · cases h

theorem sweepRow?_id (h : sweepRow? users userId id row = some selected) : selected.id = id := by
  obtain ⟨_, _, _, user, _, rfl⟩ := sweepRow?_eq_some h
  rfl

theorem mem_sweepQueue : (id, row) ∈ sweepQueue users expenses userId tie ↔
    expenses.lookup id = some row ∧ (sweepRow? users userId id row).isSome = true := by
  unfold sweepQueue
  rw [List.mem_insertionSort, List.mem_filter, Table.mem_rows]

theorem sweepQueue_sorted (users : Table UUID User) (expenses : Table UUID Expense)
    (userId : Option UUID) (tie : UUID → ℕ) :
    (sweepQueue users expenses userId tie).Pairwise (sweepBefore tie) := by
  have htotal : Std.Total (sweepBefore tie) := ⟨sweepBefore_total tie⟩
  have htrans : IsTrans (UUID × Expense) (sweepBefore tie) := ⟨fun _ _ _ ↦ sweepBefore_trans⟩
  exact List.pairwise_insertionSort _ _

theorem sweepQueue_keys_nodup (users : Table UUID User) (expenses : Table UUID Expense)
    (userId : Option UUID) (tie : UUID → ℕ) :
    ((sweepQueue users expenses userId tie).map Prod.fst).Nodup := by
  have hperm : (sweepQueue users expenses userId tie).Perm _ := List.perm_insertionSort _ _
  rw [(hperm.map Prod.fst).nodup_iff]
  exact (Table.rows_keys_nodup expenses).sublist (List.filter_sublist.map _)

/-- A selected row is an expense of the table, and in the part of the query the limit leaves. -/
theorem mem_selectBatch : selected ∈ selectBatch users expenses userId limit tie ↔
    ∃ row, (selected.id, row) ∈ (sweepQueue users expenses userId tie).take limit ∧
      sweepRow? users userId selected.id row = some selected := by
  rw [selectBatch_eq, List.mem_filterMap]
  constructor
  · rintro ⟨⟨id, row⟩, hmem, hrow⟩
    have hid := sweepRow?_id hrow
    subst hid
    exact ⟨row, hmem, hrow⟩
  · rintro ⟨row, hmem, hrow⟩
    exact ⟨_, hmem, hrow⟩

theorem lookup_of_mem_selectBatch (h : selected ∈ selectBatch users expenses userId limit tie) :
    ∃ row, expenses.lookup selected.id = some row ∧
      sweepRow? users userId selected.id row = some selected := by
  obtain ⟨row, hmem, hrow⟩ := mem_selectBatch.mp h
  exact ⟨row, (mem_sweepQueue.mp (List.mem_of_mem_take hmem)).1, hrow⟩

theorem selectBatch_nodup (users : Table UUID User) (expenses : Table UUID Expense)
    (userId : Option UUID) (limit : ℕ) (tie : UUID → ℕ) :
    ((selectBatch users expenses userId limit tie).map SweepRow.id).Nodup := by
  rw [selectBatch_eq]
  have hkeys : (((sweepQueue users expenses userId tie).take limit).map Prod.fst).Nodup :=
    (sweepQueue_keys_nodup users expenses userId tie).sublist ((List.take_sublist _ _).map _)
  generalize (sweepQueue users expenses userId tie).take limit = queue at hkeys
  induction queue with
  | nil => exact List.nodup_nil
  | cons head rest ih =>
    rw [List.map_cons, List.nodup_cons] at hkeys
    rw [List.filterMap_cons]
    cases hhead : sweepRow? users userId head.1 head.2 with
    | none => exact ih hkeys.2
    | some selected =>
      refine List.nodup_cons.mpr ⟨fun hmem ↦ hkeys.1 ?_, ih hkeys.2⟩
      obtain ⟨other, hother, hid⟩ := List.mem_map.mp hmem
      obtain ⟨⟨id, row⟩, hrow, hselected⟩ := List.mem_filterMap.mp hother
      have hsame : id = head.1 := (sweepRow?_id hselected).symm.trans (hid.trans (sweepRow?_id hhead))
      exact hsame ▸ List.mem_map_of_mem hrow

end

/-! ## What a sweep writes -/

/-- What a row of the batch comes to: outer `none` when its conversion or its `UPDATE` raises,
inner `none` when a rate is missing. -/
def SweepRow.fill (rates : FxTable) (row : SweepRow) : Option (Option Money) :=
  match convert rates row.amountOriginal.toRat row.currencyOriginal row.baseCurrency row.spentAt.date with
  | none => none
  | some none => some none
  | some (some amountBase) => (Numeric.ofRat 18 4 amountBase).map some

section

variable {rates : FxTable} {now : Instant} {s s' : SweepState} {row : SweepRow} {rows : List SweepRow}

theorem recomputeRow_eq (rates : FxTable) (now : Instant) (s : SweepState) (row : SweepRow) :
    recomputeRow rates now s row =
      (row.fill rates).map fun amountBase ↦ amountBase.elim s fun stored ↦ s.update row stored now := by
  unfold recomputeRow SweepRow.fill
  split
  · rfl
  · rfl
  · cases Numeric.ofRat 18 4 _ <;> rfl

theorem SweepState.update_other (s : SweepState) (row : SweepRow) (amountBase : Money) (now : Instant)
    {id : UUID} (hne : id ≠ row.id) :
    (s.update row amountBase now).expenses.lookup id = s.expenses.lookup id := by
  unfold SweepState.update
  split
  · rfl
  · exact AList.lookup_insert_ne hne

/-- Everything the loop can do to the table, from the rows of its batch. -/
structure Swept (rates : FxTable) (now : Instant) (rows : List SweepRow) (s s' : SweepState) : Prop where
  computed : ∀ row ∈ rows, (row.fill rates).isSome = true
  filled : ∀ row ∈ rows, ∀ stored current, row.fill rates = some (some stored) →
    s.expenses.lookup row.id = some current → ∃ seq, s.seq < seq ∧ seq ≤ s'.seq ∧
      s'.expenses.lookup row.id =
        some { current.recomputed stored row.baseCurrency now with serverSeq := seq }
  kept : ∀ id, (∀ row ∈ rows, row.id = id → row.fill rates = some none) →
    s'.expenses.lookup id = s.expenses.lookup id
  seq_le : s.seq ≤ s'.seq

theorem SweepState.le_update_seq (s : SweepState) (row : SweepRow) (amountBase : Money) (now : Instant) :
    s.seq ≤ (s.update row amountBase now).seq := by
  unfold SweepState.update
  split
  · exact le_rfl
  · exact Nat.le_succ _

/-- The loop, by induction on the batch: one iteration writes one row, and no other iteration
writes a row of the same id. -/
theorem swept_of_foldlM (hnodup : (rows.map SweepRow.id).Nodup)
    (h : rows.foldlM (recomputeRow rates now) s = some s') : Swept rates now rows s s' := by
  induction rows generalizing s with
  | nil =>
    cases h
    exact ⟨by simp, by simp, fun _ _ ↦ rfl, le_rfl⟩
  | cons row rest ih =>
    rw [List.map_cons, List.nodup_cons] at hnodup
    rw [List.foldlM_cons, recomputeRow_eq] at h
    obtain ⟨middle, hmiddle, hrest⟩ := Option.bind_eq_some_iff.mp h
    obtain ⟨amountBase, hfill, rfl⟩ := Option.map_eq_some_iff.mp hmiddle
    have hlater := ih hnodup.2 hrest
    have hother (other : SweepRow) (hmem : other ∈ rest) : other.id ≠ row.id := fun heq ↦
      hnodup.1 (heq ▸ List.mem_map_of_mem hmem)
    have hunwritten := hlater.kept row.id fun other hmem heq ↦ absurd heq (hother other hmem)
    cases amountBase with
    | none =>
      refine ⟨?_, ?_, ?_, hlater.seq_le⟩
      · rw [List.forall_mem_cons]
        exact ⟨by rw [hfill]; rfl, hlater.computed⟩
      · rw [List.forall_mem_cons]
        refine ⟨fun stored current hstored ↦ ?_, hlater.filled⟩
        rw [hfill] at hstored
        cases hstored
      · intro id hnone
        exact hlater.kept id fun other hmem ↦ hnone other (List.mem_cons_of_mem _ hmem)
    | some stored =>
      have hle := s.le_update_seq row stored now
      refine ⟨?_, ?_, ?_, hle.trans hlater.seq_le⟩
      · rw [List.forall_mem_cons]
        exact ⟨by rw [hfill]; rfl, hlater.computed⟩
      · rw [List.forall_mem_cons]
        constructor
        · intro stored' current hstored hcurrent
          rw [hfill] at hstored
          cases hstored
          have hupdate : s.update row stored now = ⟨s.expenses.insert row.id
              { current.recomputed stored row.baseCurrency now with serverSeq := s.seq + 1 },
              s.seq + 1, s.recomputed + 1⟩ := by
            unfold SweepState.update
            rw [hcurrent]
          refine ⟨s.seq + 1, Nat.lt_succ_self _, ?_, ?_⟩
          · have hseq := hlater.seq_le
            simp only [Option.elim_some, hupdate] at hseq
            exact hseq
          · rw [hunwritten]
            simp only [Option.elim_some, hupdate]
            exact AList.lookup_insert _
        · intro other hmem stored' current hstored hcurrent
          have hbefore := s.update_other row stored now (hother other hmem)
          obtain ⟨seq, hlt, hseq, hlookup⟩ := hlater.filled other hmem stored' current hstored
            (hbefore.trans hcurrent)
          exact ⟨seq, lt_of_le_of_lt hle hlt, hseq, hlookup⟩
      · intro id hnone
        have hne : id ≠ row.id := fun heq ↦ by
          have := hnone row List.mem_cons_self heq.symm
          rw [hfill] at this
          cases this
        rw [hlater.kept id fun other hmem ↦ hnone other (List.mem_cons_of_mem _ hmem)]
        exact s.update_other row stored now hne

/-- The loop completes exactly when no row of the batch raises. -/
theorem foldlM_recomputeRow_isSome (rows : List SweepRow) (s : SweepState) :
    (rows.foldlM (recomputeRow rates now) s).isSome ↔ ∀ row ∈ rows, (row.fill rates).isSome = true := by
  induction rows generalizing s with
  | nil => simp
  | cons row rest ih =>
    rw [List.foldlM_cons, List.forall_mem_cons, recomputeRow_eq]
    cases row.fill rates with
    | none => simp
    | some amountBase => simpa using ih _

end

section

variable {settings : Settings} {db after : Db} {rates : FxTable} {userId : Option UUID} {limit : Option ℤ}
  {tie : UUID → ℕ} {now : Instant} {result : RecomputeResult}

/-- A completed sweep: what it wrote, and the tables it left alone. -/
structure SweepSpec (settings : Settings) (db : Db) (rates : FxTable) (userId : Option UUID)
    (limit : Option ℤ) (tie : UUID → ℕ) (now : Instant) (after : Db) : Prop where
  limit_nonneg : 0 ≤ sweepLimit settings limit
  swept : ∃ recomputed, Swept rates now
    (selectBatch db.users db.expenses userId (sweepLimit settings limit).toNat tie)
    ⟨db.expenses, db.syncSeq, 0⟩ ⟨after.expenses, after.syncSeq, recomputed⟩
  users : after.users = db.users
  devices : after.devices = db.devices
  usageCounters : after.usageCounters = db.usageCounters
  entitlements : after.entitlements = db.entitlements

theorem recomputeAmountBase_spec
    (h : recomputeAmountBase settings db rates userId limit tie now = some (after, result)) :
    SweepSpec settings db rates userId limit tie now after := by
  unfold recomputeAmountBase at h
  split at h
  · cases h
  · rename_i hlimit
    obtain ⟨s, hs, heq⟩ := Option.map_eq_some_iff.mp h
    obtain ⟨rfl, _⟩ := Prod.mk.inj heq
    exact ⟨not_lt.mp hlimit, ⟨s.recomputed, swept_of_foldlM (selectBatch_nodup ..) hs⟩, rfl, rfl, rfl, rfl⟩

/-- A completed sweep leaves a row alone or fills it; a filled row was in the batch. -/
theorem SweepSpec.lookup_cases (h : SweepSpec settings db rates userId limit tie now after) (id : UUID) :
    after.expenses.lookup id = db.expenses.lookup id ∨
      ∃ row selected stored seq,
        selected ∈ selectBatch db.users db.expenses userId (sweepLimit settings limit).toNat tie ∧
        (db.expenses.lookup id = some row ∧ sweepRow? db.users userId id row = some selected) ∧
        selected.fill rates = some (some stored) ∧ after.expenses.lookup id =
          some { row.recomputed stored selected.baseCurrency now with serverSeq := seq } := by
  obtain ⟨recomputed, hswept⟩ := h.swept
  by_cases hin : ∃ selected ∈ selectBatch db.users db.expenses userId (sweepLimit settings limit).toNat tie,
      selected.id = id ∧ selected.fill rates ≠ some none
  · obtain ⟨selected, hmem, rfl, hfill⟩ := hin
    obtain ⟨row, hrow, hselected⟩ := lookup_of_mem_selectBatch hmem
    obtain ⟨amountBase, hsome⟩ := Option.isSome_iff_exists.mp (hswept.computed selected hmem)
    cases amountBase with
    | none => exact absurd hsome hfill
    | some stored =>
      obtain ⟨seq, _, _, hafter⟩ := hswept.filled selected hmem stored row hsome hrow
      exact .inr ⟨row, selected, stored, seq, hmem, ⟨hrow, hselected⟩, hsome, hafter⟩
  · refine .inl (hswept.kept id fun selected hmem hid ↦ ?_)
    by_contra hfill
    exact hin ⟨selected, hmem, hid, hfill⟩

/-- What a completed sweep leaves in a row of its batch. -/
theorem SweepSpec.lookup_selected (h : SweepSpec settings db rates userId limit tie now after)
    {selected : SweepRow}
    (hmem : selected ∈ selectBatch db.users db.expenses userId (sweepLimit settings limit).toNat tie) :
    ∃ row new, db.expenses.lookup selected.id = some row ∧
      sweepRow? db.users userId selected.id row = some selected ∧
        after.expenses.lookup selected.id = some new ∧ selected.fill rates = some new.amountBase := by
  obtain ⟨row, hrow, hselected⟩ := lookup_of_mem_selectBatch hmem
  obtain ⟨_, hswept⟩ := h.swept
  obtain ⟨amountBase, hfill⟩ := Option.isSome_iff_exists.mp (hswept.computed selected hmem)
  cases amountBase with
  | none =>
    have hkept := hswept.kept selected.id fun other hother hid ↦ by
      have hsame := List.inj_on_of_nodup_map (selectBatch_nodup ..) hother hmem hid
      rw [hsame, hfill]
    refine ⟨row, row, hrow, hselected, hkept.trans hrow, ?_⟩
    rw [hfill, (sweepRow?_eq_some hselected).1]
  | some stored =>
    obtain ⟨seq, _, _, hnew⟩ := hswept.filled selected hmem stored row hfill hrow
    exact ⟨row, _, hrow, hselected, hnew, hfill⟩

/-- A sweep completes exactly when its limit is not negative and no row of its batch raises. -/
theorem recomputeAmountBase_isSome :
    (recomputeAmountBase settings db rates userId limit tie now).isSome ↔ 0 ≤ sweepLimit settings limit ∧
      ∀ row ∈ selectBatch db.users db.expenses userId (sweepLimit settings limit).toNat tie,
        (row.fill rates).isSome = true := by
  unfold recomputeAmountBase
  split
  · rename_i hlimit
    simp [not_le.mpr hlimit]
  · rename_i hlimit
    rw [Option.isSome_map, foldlM_recomputeRow_isSome]
    simp [not_lt.mp hlimit]

end

end VoiceSpend
