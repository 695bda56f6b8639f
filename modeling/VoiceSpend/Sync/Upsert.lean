import Mathlib.Data.Finset.Card
import VoiceSpend.Sync.Schema

/-!
# The bulk upsert

`INSERT ... ON CONFLICT (id) DO UPDATE SET ... WHERE expenses.client_rev < excluded.client_rev
RETURNING id, server_seq, (xmax = 0)`, row by row in the order of its `VALUES` list. The
`BEFORE INSERT` trigger draws a sequence value for every proposed row before the conflict is
found; the `BEFORE UPDATE` trigger draws another one when the row is updated.

`RowOutcome` is the complete list of what the statement can do to one proposed row, and
`bulkUpsert_outcome` says that a statement with distinct ids does exactly that to each of its
rows and leaves every other row alone.
-/

namespace VoiceSpend

/-- One row of the `VALUES` list. -/
structure Insertion where
  id : UUID
  deviceId : UUID
  client : ClientColumns
  deriving DecidableEq, Repr

/-- One row of `RETURNING`. -/
structure Returned where
  id : UUID
  serverSeq : ℕ
  wasInserted : Bool
  deriving DecidableEq, Repr

namespace Expense

/-- The inserted row; `amount_base` and `currency_base` start out NULL. -/
def ofInsertion (user : UUID) (now : Instant) (insertion : Insertion) (serverSeq : ℕ) : Expense where
  userId := user
  deviceId := insertion.deviceId
  client := insertion.client
  amountBase := none
  currencyBase := none
  parseStatus := .«local»
  createdAt := now
  updatedAt := now
  serverSeq := serverSeq

/-- `amount_base_is_stale`: one of the three inputs of the conversion changes. -/
def amountBaseIsStale (row : Expense) (excluded : ClientColumns) : Bool :=
  row.client.amountOriginal ≠ excluded.amountOriginal ||
    row.client.currencyOriginal ≠ excluded.currencyOriginal ||
    row.client.spentAt ≠ excluded.spentAt

/-- `DO UPDATE SET`: the client columns, and the two base columns by `CASE`. Neither
`device_id` nor `updated_at` is in the clause. -/
def onConflict (row : Expense) (excluded : ClientColumns) (serverSeq : ℕ) : Expense :=
  { row with
    client := excluded
    amountBase := if row.amountBaseIsStale excluded then none else row.amountBase
    currencyBase := if row.amountBaseIsStale excluded then none else row.currencyBase
    serverSeq := serverSeq }

section

variable (row : Expense) (excluded : ClientColumns) (user : UUID) (now : Instant)
  (insertion : Insertion) (serverSeq : ℕ)

@[simp] theorem ofInsertion_userId : (ofInsertion user now insertion serverSeq).userId = user := rfl

@[simp] theorem ofInsertion_client :
    (ofInsertion user now insertion serverSeq).client = insertion.client := rfl

@[simp] theorem ofInsertion_serverSeq :
    (ofInsertion user now insertion serverSeq).serverSeq = serverSeq := rfl

@[simp] theorem onConflict_userId : (row.onConflict excluded serverSeq).userId = row.userId := rfl

@[simp] theorem onConflict_client : (row.onConflict excluded serverSeq).client = excluded := rfl

@[simp] theorem onConflict_serverSeq :
    (row.onConflict excluded serverSeq).serverSeq = serverSeq := rfl

end

end Expense

/-- The table, the sequence and the returned rows while the statement runs. -/
structure UpsertState where
  expenses : Table UUID Expense
  seq : ℕ
  returned : List Returned

/-- One row of the statement. -/
def upsertRow (user : UUID) (now : Instant) (s : UpsertState) (insertion : Insertion) : UpsertState :=
  let drawn := s.seq + 1
  match s.expenses.lookup insertion.id with
  | none =>
    { expenses := s.expenses.insert insertion.id (.ofInsertion user now insertion drawn)
      seq := drawn
      returned := s.returned ++ [⟨insertion.id, drawn, true⟩] }
  | some row =>
    if row.client.clientRev < insertion.client.clientRev then
      { expenses := s.expenses.insert insertion.id (row.onConflict insertion.client (drawn + 1))
        seq := drawn + 1
        returned := s.returned ++ [⟨insertion.id, drawn + 1, false⟩] }
    else { s with seq := drawn }

/-- The whole statement. -/
def bulkUpsert (user : UUID) (now : Instant) (expenses : Table UUID Expense) (seq : ℕ)
    (insertions : List Insertion) : UpsertState :=
  insertions.foldl (upsertRow user now) ⟨expenses, seq, []⟩

/-- What `RETURNING` says about one id. -/
def returnedFor (returned : List Returned) (id : UUID) : Option (ℕ × Bool) :=
  (returned.find? (·.id = id)).map fun row ↦ (row.serverSeq, row.wasInserted)

/-- Everything the statement can do to one proposed row: old row, new row, returned values. -/
inductive RowOutcome (user : UUID) (now : Instant) (insertion : Insertion) :
    Option Expense → Option Expense → Option (ℕ × Bool) → Prop
  | inserted (serverSeq : ℕ) : RowOutcome user now insertion none
      (some (.ofInsertion user now insertion serverSeq)) (some (serverSeq, true))
  | updated (row : Expense) (serverSeq : ℕ) (newer : row.client.clientRev < insertion.client.clientRev) :
      RowOutcome user now insertion (some row) (some (row.onConflict insertion.client serverSeq))
        (some (serverSeq, false))
  | stale (row : Expense) (older : insertion.client.clientRev ≤ row.client.clientRev) :
      RowOutcome user now insertion (some row) (some row) none

/-- The three cases, with the rows and the returned values as equations. -/
theorem RowOutcome.cases_eq {user : UUID} {now : Instant} {insertion : Insertion}
    {old new : Option Expense} {ret : Option (ℕ × Bool)} (h : RowOutcome user now insertion old new ret) :
    (∃ serverSeq, old = none ∧ new = some (.ofInsertion user now insertion serverSeq) ∧
      ret = some (serverSeq, true)) ∨
    (∃ row serverSeq, old = some row ∧ row.client.clientRev < insertion.client.clientRev ∧
      new = some (row.onConflict insertion.client serverSeq) ∧ ret = some (serverSeq, false)) ∨
    (∃ row, old = some row ∧ insertion.client.clientRev ≤ row.client.clientRev ∧ new = some row ∧
      ret = none) := by
  cases h with
  | inserted serverSeq => exact .inl ⟨serverSeq, rfl, rfl, rfl⟩
  | updated row serverSeq newer => exact .inr (.inl ⟨row, serverSeq, rfl, newer, rfl, rfl⟩)
  | stale row older => exact .inr (.inr ⟨row, rfl, older, rfl, rfl⟩)

theorem returnedFor_append (first second : List Returned) (id : UUID) :
    returnedFor (first ++ second) id = (returnedFor first id).or (returnedFor second id) := by
  unfold returnedFor
  rw [List.find?_append, Option.map_or]

theorem returnedFor_singleton (row : Returned) (id : UUID) :
    returnedFor [row] id = if row.id = id then some (row.serverSeq, row.wasInserted) else none := by
  unfold returnedFor
  by_cases h : row.id = id <;> simp [h]

section

variable (user : UUID) (now : Instant)

/-- One row of the statement leaves every other id alone. -/
theorem upsertRow_other (s : UpsertState) (insertion : Insertion) {id : UUID} (hne : id ≠ insertion.id) :
    (upsertRow user now s insertion).expenses.lookup id = s.expenses.lookup id ∧
      returnedFor (upsertRow user now s insertion).returned id = returnedFor s.returned id := by
  unfold upsertRow
  cases s.expenses.lookup insertion.id with
  | none =>
    refine ⟨AList.lookup_insert_ne hne, ?_⟩
    simp [returnedFor_append, returnedFor_singleton, hne.symm]
  | some row =>
    dsimp only
    split
    · refine ⟨AList.lookup_insert_ne hne, ?_⟩
      simp [returnedFor_append, returnedFor_singleton, hne.symm]
    · exact ⟨rfl, rfl⟩

/-- One row of the statement, on its own id. -/
theorem upsertRow_self (s : UpsertState) (insertion : Insertion)
    (hfresh : returnedFor s.returned insertion.id = none) :
    RowOutcome user now insertion (s.expenses.lookup insertion.id)
      ((upsertRow user now s insertion).expenses.lookup insertion.id)
      (returnedFor (upsertRow user now s insertion).returned insertion.id) := by
  unfold upsertRow
  cases hold : s.expenses.lookup insertion.id with
  | none =>
    have hreturned : returnedFor (s.returned ++ [⟨insertion.id, s.seq + 1, true⟩]) insertion.id =
        some (s.seq + 1, true) := by
      simp [returnedFor_append, returnedFor_singleton, hfresh]
    simp only [AList.lookup_insert, hreturned]
    exact .inserted _
  | some row =>
    dsimp only
    split
    · rename_i hnewer
      have hreturned : returnedFor (s.returned ++ [⟨insertion.id, s.seq + 1 + 1, false⟩]) insertion.id =
          some (s.seq + 1 + 1, false) := by
        simp [returnedFor_append, returnedFor_singleton, hfresh]
      simp only [AList.lookup_insert, hreturned]
      exact .updated row _ hnewer
    · rename_i holder
      simp only [hold, hfresh]
      exact .stale row (not_lt.mp holder)

theorem foldl_upsertRow_other (insertions : List Insertion) (s : UpsertState) {id : UUID}
    (hnot : id ∉ insertions.map Insertion.id) :
    (insertions.foldl (upsertRow user now) s).expenses.lookup id = s.expenses.lookup id ∧
      returnedFor (insertions.foldl (upsertRow user now) s).returned id = returnedFor s.returned id := by
  induction insertions generalizing s with
  | nil => exact ⟨rfl, rfl⟩
  | cons insertion rest ih =>
    rw [List.map_cons, List.mem_cons, not_or] at hnot
    have hfirst := upsertRow_other user now s insertion hnot.1
    have hrest := ih (upsertRow user now s insertion) hnot.2
    exact ⟨hrest.1.trans hfirst.1, hrest.2.trans hfirst.2⟩

theorem foldl_upsertRow_outcome (insertions : List Insertion) (s : UpsertState)
    (hnodup : (insertions.map Insertion.id).Nodup)
    (hfresh : ∀ insertion ∈ insertions, returnedFor s.returned insertion.id = none) :
    ∀ insertion ∈ insertions, RowOutcome user now insertion (s.expenses.lookup insertion.id)
      ((insertions.foldl (upsertRow user now) s).expenses.lookup insertion.id)
      (returnedFor (insertions.foldl (upsertRow user now) s).returned insertion.id) := by
  induction insertions generalizing s with
  | nil => intro insertion hmem; exact absurd hmem List.not_mem_nil
  | cons head rest ih =>
    rw [List.map_cons, List.nodup_cons] at hnodup
    intro insertion hmem
    rw [List.foldl_cons]
    rcases List.mem_cons.mp hmem with rfl | hmem
    · have hlater := foldl_upsertRow_other user now rest (upsertRow user now s insertion) hnodup.1
      rw [hlater.1, hlater.2]
      exact upsertRow_self user now s insertion (hfresh _ List.mem_cons_self)
    · have hne (other : Insertion) (hother : other ∈ rest) : other.id ≠ head.id := fun heq ↦
        hnodup.1 (heq ▸ List.mem_map_of_mem hother)
      have hfirst := upsertRow_other user now s head (hne insertion hmem)
      have hrest := ih (upsertRow user now s head) hnodup.2 (fun other hother ↦ by
        rw [(upsertRow_other user now s head (hne other hother)).2]
        exact hfresh other (List.mem_cons_of_mem _ hother)) insertion hmem
      rw [hfirst.1] at hrest
      exact hrest

end

/-- The proposed row is written: its row is absent or older. -/
def Insertion.Newer (expenses : Table UUID Expense) (insertion : Insertion) : Prop :=
  ∀ row, expenses.lookup insertion.id = some row → row.client.clientRev < insertion.client.clientRev

section

variable (user : UUID) (now : Instant)

theorem le_upsertRow_seq (s : UpsertState) (insertion : Insertion) :
    s.seq ≤ (upsertRow user now s insertion).seq := by
  unfold upsertRow
  cases s.expenses.lookup insertion.id with
  | none => exact Nat.le_succ _
  | some row =>
    dsimp only
    split
    · exact Nat.le_add_right s.seq 2
    · exact Nat.le_succ _

theorem le_foldl_upsertRow_seq (insertions : List Insertion) (s : UpsertState) :
    s.seq ≤ (insertions.foldl (upsertRow user now) s).seq := by
  induction insertions generalizing s with
  | nil => exact le_rfl
  | cons insertion rest ih => exact (le_upsertRow_seq user now s insertion).trans (ih _)

/-- A written row carries a value drawn by its own row of the statement. -/
theorem upsertRow_drawn (s : UpsertState) (insertion : Insertion) (hnewer : insertion.Newer s.expenses)
    {row : Expense} (hrow : (upsertRow user now s insertion).expenses.lookup insertion.id = some row) :
    s.seq < row.serverSeq ∧ row.serverSeq ≤ (upsertRow user now s insertion).seq := by
  unfold upsertRow at hrow ⊢
  cases hold : s.expenses.lookup insertion.id with
  | none =>
    simp only [hold, AList.lookup_insert, Option.some.injEq] at hrow ⊢
    subst hrow
    exact ⟨Nat.lt_succ_self _, le_rfl⟩
  | some old =>
    have hlt := hnewer old hold
    simp only [hold, if_pos hlt, AList.lookup_insert, Option.some.injEq] at hrow ⊢
    subst hrow
    exact ⟨Nat.lt_add_of_pos_right Nat.two_pos, le_rfl⟩

/-- The written rows carry values drawn by the statement, in the order of its `VALUES` list. -/
theorem foldl_upsertRow_sorted (insertions : List Insertion) (s : UpsertState)
    (hnodup : (insertions.map Insertion.id).Nodup) :
    (∀ insertion ∈ insertions, insertion.Newer s.expenses → ∀ row,
      (insertions.foldl (upsertRow user now) s).expenses.lookup insertion.id = some row →
        s.seq < row.serverSeq ∧ row.serverSeq ≤ (insertions.foldl (upsertRow user now) s).seq) ∧
    insertions.Pairwise fun first second ↦ first.Newer s.expenses → second.Newer s.expenses → ∀ row row',
      (insertions.foldl (upsertRow user now) s).expenses.lookup first.id = some row →
        (insertions.foldl (upsertRow user now) s).expenses.lookup second.id = some row' →
          row.serverSeq < row'.serverSeq := by
  induction insertions generalizing s with
  | nil => exact ⟨fun _ hmem ↦ absurd hmem List.not_mem_nil, .nil⟩
  | cons head rest ih =>
    rw [List.map_cons, List.nodup_cons] at hnodup
    obtain ⟨hdrawn, hsorted⟩ := ih (upsertRow user now s head) hnodup.2
    have hkept (insertion : Insertion) (hmem : insertion ∈ rest) (hnewer : insertion.Newer s.expenses) :
        insertion.Newer (upsertRow user now s head).expenses := by
      have hne : insertion.id ≠ head.id := fun heq ↦ hnodup.1 (heq ▸ List.mem_map_of_mem hmem)
      intro row hrow
      rw [(upsertRow_other user now s head hne).1] at hrow
      exact hnewer row hrow
    have hhead (row : Expense) (hnewer : head.Newer s.expenses)
        (hrow : ((head :: rest).foldl (upsertRow user now) s).expenses.lookup head.id = some row) :
        s.seq < row.serverSeq ∧ row.serverSeq ≤ (upsertRow user now s head).seq := by
      rw [List.foldl_cons, (foldl_upsertRow_other user now rest _ hnodup.1).1] at hrow
      exact upsertRow_drawn user now s head hnewer hrow
    have hfirst := le_upsertRow_seq user now s head
    have hlast := le_foldl_upsertRow_seq user now rest (upsertRow user now s head)
    rw [List.foldl_cons] at hhead ⊢
    constructor
    · intro insertion hmem hnewer row hrow
      rcases List.mem_cons.mp hmem with rfl | hmem
      · have hbounds := hhead row hnewer hrow
        exact ⟨hbounds.1, hbounds.2.trans hlast⟩
      · have hbounds := hdrawn insertion hmem (hkept insertion hmem hnewer) row hrow
        exact ⟨lt_of_le_of_lt hfirst hbounds.1, hbounds.2⟩
    · refine List.pairwise_cons.mpr ⟨?_, ?_⟩
      · intro insertion hmem hnewer hnewer' row row' hrow hrow'
        have hlower := hhead row hnewer hrow
        have hupper := hdrawn insertion hmem (hkept insertion hmem hnewer') row' hrow'
        exact lt_of_le_of_lt hlower.2 hupper.1
      · refine hsorted.imp_of_mem fun hfirst hsecond hpair hnewer hnewer' ↦ ?_
        exact hpair (hkept _ hfirst hnewer) (hkept _ hsecond hnewer')

end

variable {user : UUID} {now : Instant} {expenses : Table UUID Expense} {seq : ℕ}
  {insertions : List Insertion}

/-- A statement with distinct ids does to each proposed row one of the three things. -/
theorem bulkUpsert_outcome (hnodup : (insertions.map Insertion.id).Nodup) {insertion : Insertion}
    (hmem : insertion ∈ insertions) :
    RowOutcome user now insertion (expenses.lookup insertion.id)
      ((bulkUpsert user now expenses seq insertions).expenses.lookup insertion.id)
      (returnedFor (bulkUpsert user now expenses seq insertions).returned insertion.id) :=
  foldl_upsertRow_outcome user now insertions ⟨expenses, seq, []⟩ hnodup
    (fun _ _ ↦ rfl) insertion hmem

/-- Rows whose id is not proposed keep their version and are not returned. -/
theorem bulkUpsert_other {id : UUID} (hnot : id ∉ insertions.map Insertion.id) :
    (bulkUpsert user now expenses seq insertions).expenses.lookup id = expenses.lookup id ∧
      returnedFor (bulkUpsert user now expenses seq insertions).returned id = none :=
  foldl_upsertRow_other user now insertions ⟨expenses, seq, []⟩ hnot

/-- The ids `RETURNING` reports as inserted. -/
def insertedIds (returned : List Returned) : List UUID :=
  (returned.filter (·.wasInserted)).map (·.id)

/-- `RETURNING` reports an id at most once, among the proposed ones. -/
theorem foldl_upsertRow_returned (insertions : List Insertion) (s : UpsertState)
    (hnodup : (s.returned.map Returned.id ++ insertions.map Insertion.id).Nodup) :
    ((insertions.foldl (upsertRow user now) s).returned.map Returned.id).Nodup := by
  induction insertions generalizing s with
  | nil => simpa using hnodup
  | cons head rest ih =>
    rw [List.foldl_cons]
    apply ih
    unfold upsertRow
    have hsplit : s.returned.map Returned.id ++ (head :: rest).map Insertion.id =
        s.returned.map Returned.id ++ [head.id] ++ rest.map Insertion.id := by simp
    rw [hsplit] at hnodup
    have hshort := hnodup.sublist
      (List.Sublist.append (List.sublist_append_left _ [head.id]) (List.Sublist.refl _))
    cases s.expenses.lookup head.id with
    | none => simpa using hnodup
    | some row =>
      dsimp only
      split
      · simpa using hnodup
      · exact hshort

theorem mem_returned_iff {returned : List Returned} (hnodup : (returned.map Returned.id).Nodup)
    (row : Returned) :
    row ∈ returned ↔ returnedFor returned row.id = some (row.serverSeq, row.wasInserted) := by
  induction returned with
  | nil => simp [returnedFor]
  | cons head rest ih =>
    rw [List.map_cons, List.nodup_cons] at hnodup
    rw [show head :: rest = [head] ++ rest from rfl, returnedFor_append, returnedFor_singleton,
      List.mem_append, List.mem_singleton]
    by_cases hid : head.id = row.id
    · rw [if_pos hid, Option.some_or]
      constructor
      · rintro (rfl | hrest)
        · rfl
        · exact absurd (hid ▸ List.mem_map_of_mem hrest) hnodup.1
      · intro h
        cases row
        cases head
        simp only [Option.some.injEq, Prod.mk.injEq] at h hid
        obtain ⟨rfl, rfl⟩ := h
        subst hid
        exact Or.inl rfl
    · rw [if_neg hid, Option.none_or, ← ih hnodup.2]
      constructor
      · rintro (rfl | hrest)
        · exact absurd rfl hid
        · exact hrest
      · exact Or.inr

theorem mem_insertedIds {returned : List Returned} (hnodup : (returned.map Returned.id).Nodup)
    (id : UUID) :
    id ∈ insertedIds returned ↔ ∃ serverSeq, returnedFor returned id = some (serverSeq, true) := by
  unfold insertedIds
  rw [List.mem_map]
  constructor
  · rintro ⟨row, hrow, rfl⟩
    rw [List.mem_filter] at hrow
    refine ⟨row.serverSeq, ?_⟩
    rw [(mem_returned_iff hnodup row).mp hrow.1]
    simp only [hrow.2]
  · rintro ⟨serverSeq, h⟩
    have hmem : (⟨id, serverSeq, true⟩ : Returned) ∈ returned := (mem_returned_iff hnodup _).mpr h
    exact ⟨⟨id, serverSeq, true⟩, List.mem_filter.mpr ⟨hmem, rfl⟩, rfl⟩

end VoiceSpend
