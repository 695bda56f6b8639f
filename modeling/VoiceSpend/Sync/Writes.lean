import Mathlib.Logic.Relation
import VoiceSpend.Fx.Sweep
import VoiceSpend.Sync.Pull
import VoiceSpend.Sync.Push

/-!
# Writes of whole transactions

Seen from a pull, a committed push, sweep or invalidation is a number of row writes, each of which
stamps its row with the next value of the sequence. `RowWrites` is the reflexive and transitive closure
of one such write; every row then carries a value of its own, and a row that changed carries one
that was drawn later than all the values before.
-/

namespace VoiceSpend

/-- Every row carries a sequence value of its own, at most the value drawn last. -/
structure Stamped (expenses : Table UUID Expense) (syncSeq : ℕ) : Prop where
  distinct : DistinctSeqs expenses
  bounded : ∀ id row, expenses.lookup id = some row → row.serverSeq ≤ syncSeq

theorem Stamped.empty (syncSeq : ℕ) : Stamped ∅ syncSeq := by
  constructor
  · intro id id' row row' hrow
    rw [AList.lookup_empty] at hrow
    cases hrow
  · intro id row hrow
    rw [AList.lookup_empty] at hrow
    cases hrow

/-- One drawn value: lost, or stamped on one row. -/
inductive RowWrite : Table UUID Expense × ℕ → Table UUID Expense × ℕ → Prop
  | lost (expenses : Table UUID Expense) (seq : ℕ) : RowWrite (expenses, seq) (expenses, seq + 1)
  | stamped (expenses : Table UUID Expense) (seq : ℕ) (id : UUID) (row : Expense)
      (stamp : row.serverSeq = seq + 1) : RowWrite (expenses, seq) (expenses.insert id row, seq + 1)

/-- Any number of drawn values. -/
abbrev RowWrites := Relation.ReflTransGen RowWrite

theorem writes_lost (expenses : Table UUID Expense) (seq drawn : ℕ) :
    RowWrites (expenses, seq) (expenses, seq + drawn) := by
  induction drawn with
  | zero => exact .refl
  | succ drawn ih => exact .tail ih (.lost expenses (seq + drawn))

section

variable {before after : Table UUID Expense × ℕ} {expenses : Table UUID Expense}

theorem RowWrite.stamped_kept (h : RowWrite before after) (hbefore : Stamped before.1 before.2) :
    Stamped after.1 after.2 := by
  cases h with
  | lost expenses seq =>
    exact ⟨hbefore.distinct, fun id row hrow ↦ Nat.le_succ_of_le (hbefore.bounded id row hrow)⟩
  | stamped expenses seq id row stamp =>
    -- the new value is above every value in use
    have hold {other : UUID} {old : Expense} (hold : expenses.lookup other = some old) :
        old.serverSeq ≠ row.serverSeq := by
      have hbound : old.serverSeq ≤ seq := hbefore.bounded other old hold
      omega
    constructor
    · intro first second row₁ row₂ hfirst hsecond hseq
      rw [Table.lookup_insert_eq] at hfirst hsecond
      split at hfirst <;> split at hsecond
      · rename_i hone htwo
        exact hone.trans htwo.symm
      · cases hfirst
        exact absurd hseq.symm (hold hsecond)
      · cases hsecond
        exact absurd hseq (hold hfirst)
      · exact hbefore.distinct first second row₁ row₂ hfirst hsecond hseq
    · intro other stored hstored
      rw [Table.lookup_insert_eq] at hstored
      split at hstored
      · cases hstored
        exact stamp.le
      · exact Nat.le_succ_of_le (hbefore.bounded other stored hstored)

theorem RowWrites.stamped (h : RowWrites before after) (hbefore : Stamped before.1 before.2) :
    Stamped after.1 after.2 := by
  induction h with
  | refl => exact hbefore
  | tail _ hlast ih => exact hlast.stamped_kept ih

theorem RowWrites.seq_le (h : RowWrites before after) : before.2 ≤ after.2 := by
  induction h with
  | refl => exact le_rfl
  | tail _ hlast ih => cases hlast <;> exact Nat.le_succ_of_le ih

/-- A row after some writes is an old one, or carries a value drawn by them. -/
theorem RowWrites.old_or_later (h : RowWrites before after) {id : UUID} {row : Expense}
    (hrow : after.1.lookup id = some row) : before.1.lookup id = some row ∨ before.2 < row.serverSeq := by
  induction h with
  | refl => exact .inl hrow
  | tail hearlier hlast ih =>
    cases hlast with
    | lost expenses seq => exact ih hrow
    | stamped expenses seq other new stamp =>
      rw [Table.lookup_insert_eq] at hrow
      split at hrow
      · cases hrow
        have hle := RowWrites.seq_le hearlier
        exact .inr (by rw [stamp]; exact Nat.lt_succ_of_le hle)
      · exact ih hrow

end

/-! ## The transactions -/

section

variable {rt : Runtime} {settings : Settings} {db after : Db} {user : UUID} {now clock : Instant}

theorem upsertRow_writes (user : UUID) (now : Instant) (s : UpsertState) (insertion : Insertion) :
    RowWrites (s.expenses, s.seq)
      ((upsertRow user now s insertion).expenses, (upsertRow user now s insertion).seq) := by
  unfold upsertRow
  cases s.expenses.lookup insertion.id with
  | none => exact .single (.stamped s.expenses s.seq insertion.id _ rfl)
  | some row =>
    dsimp only
    split
    · exact .tail (.single (.lost s.expenses s.seq)) (.stamped s.expenses (s.seq + 1) insertion.id _ rfl)
    · exact .single (.lost s.expenses s.seq)

theorem foldl_upsertRow_writes (user : UUID) (now : Instant) (insertions : List Insertion) (s : UpsertState) :
    RowWrites (s.expenses, s.seq) ((insertions.foldl (upsertRow user now) s).expenses,
      (insertions.foldl (upsertRow user now) s).seq) := by
  induction insertions generalizing s with
  | nil => exact .refl
  | cons insertion rest ih => exact (upsertRow_writes user now s insertion).trans (ih _)

theorem pushSync_writes {batch : List RawRecord} {response : SyncPushResponse}
    (h : pushSync rt settings db user batch now clock = some (after, response)) :
    RowWrites (db.expenses, db.syncSeq) (after.expenses, after.syncSeq) := by
  simp only [pushSync, Option.bind_eq_bind, Option.bind_eq_some_iff, Option.pure_def] at h
  obtain ⟨insertions, _, counters, _, heq⟩ := h
  cases heq
  exact foldl_upsertRow_writes user now insertions ⟨db.expenses, db.syncSeq, []⟩

theorem SweepState.update_writes (s : SweepState) (row : SweepRow) (amountBase : Money) (now : Instant) :
    RowWrites (s.expenses, s.seq)
      ((s.update row amountBase now).expenses, (s.update row amountBase now).seq) := by
  unfold SweepState.update
  split
  · exact .refl
  · exact .single (.stamped s.expenses s.seq row.id _ rfl)

theorem foldlM_recomputeRow_writes {rates : FxTable} {rows : List SweepRow} {s s' : SweepState}
    (h : rows.foldlM (recomputeRow rates now) s = some s') :
    RowWrites (s.expenses, s.seq) (s'.expenses, s'.seq) := by
  induction rows generalizing s with
  | nil =>
    cases h
    exact .refl
  | cons row rest ih =>
    rw [List.foldlM_cons, recomputeRow_eq] at h
    obtain ⟨middle, hmiddle, hrest⟩ := Option.bind_eq_some_iff.mp h
    obtain ⟨amountBase, _, rfl⟩ := Option.map_eq_some_iff.mp hmiddle
    cases amountBase with
    | none => exact ih hrest
    | some stored => exact (s.update_writes row stored now).trans (ih hrest)

theorem recomputeAmountBase_writes {rates : FxTable} {userId : Option UUID} {limit : Option ℤ}
    {tie : UUID → ℕ} {result : RecomputeResult}
    (h : recomputeAmountBase settings db rates userId limit tie now = some (after, result)) :
    RowWrites (db.expenses, db.syncSeq) (after.expenses, after.syncSeq) := by
  unfold recomputeAmountBase at h
  split at h
  · cases h
  · obtain ⟨s, hs, heq⟩ := Option.map_eq_some_iff.mp h
    obtain ⟨rfl, _⟩ := Prod.mk.inj heq
    exact foldlM_recomputeRow_writes hs

theorem nullAmountBaseForUser_writes (db : Db) (user : UUID) (now : Instant) :
    RowWrites (db.expenses, db.syncSeq)
      ((nullAmountBaseForUser db user now).1.expenses, (nullAmountBaseForUser db user now).1.syncSeq) := by
  unfold nullAmountBaseForUser
  generalize ((Table.rows db.expenses).filter fun row ↦ armed user row.2).map Prod.fst = ids
  dsimp only
  generalize (db.expenses, db.syncSeq) = s
  induction ids generalizing s with
  | nil => exact .refl
  | cons id rest ih =>
    refine .trans ?_ (ih (nullRow now s id))
    unfold nullRow
    split
    · exact .refl
    · exact .single (.stamped s.1 s.2 id _ rfl)

end

end VoiceSpend
