import VoiceSpend.Fx.Convert
import VoiceSpend.Metering.Signal

/-!
# The recompute sweep and the invalidation of a user

What `recompute_amount_base` selects, and what it and `null_amount_base_for_user` write to one
row. The order of their statements is in the concurrent system.
-/

namespace VoiceSpend

/-- One row of the sweep's `SELECT`. -/
structure SweepRow where
  id : UUID
  amountOriginal : Money
  currencyOriginal : Text
  spentAt : Instant
  baseCurrency : Text
  deriving DecidableEq, Repr

/-- `limit or get_settings().FX_RECOMPUTE_BATCH`. -/
def sweepLimit (settings : Settings) : Option ℤ → ℤ
  | none => settings.fxRecomputeBatch
  | some limit => if limit = 0 then settings.fxRecomputeBatch else limit

/-- The join and the `WHERE` clause, on one row. -/
def sweepRow? (users : Table UUID User) (userId : Option UUID) (id : UUID) (row : Expense) :
    Option SweepRow :=
  if row.amountBase = none ∧ row.client.deletedAt = none ∧ userId.all (· = row.userId) then
    (users.lookup row.userId).map fun user ↦
      ⟨id, row.client.amountOriginal, row.client.currencyOriginal, row.client.spentAt, user.baseCurrency⟩
  else none

/-- The batch: `ORDER BY created_at LIMIT limit`. SQL leaves the order of rows created at the
same instant open; `tie` is the one the plan takes. -/
def selectBatch (users : Table UUID User) (expenses : Table UUID Expense) (userId : Option UUID) (limit : ℕ)
    (tie : UUID → ℕ) : List SweepRow :=
  let eligible := (Table.rows expenses).filter fun row ↦ (sweepRow? users userId row.1 row.2).isSome
  let ordered := eligible.insertionSort fun first second ↦
    first.2.createdAt < second.2.createdAt ∨
      first.2.createdAt = second.2.createdAt ∧ tie first.1 ≤ tie second.1
  (ordered.take limit).filterMap fun row ↦ sweepRow? users userId row.1 row.2

namespace Expense

/-- The sweep's `UPDATE`; `updated_at` follows from `onupdate`. -/
def recomputed (row : Expense) (amountBase : Money) (currencyBase : Text) (now : Instant) : Expense :=
  { row with amountBase := some amountBase, currencyBase := some currencyBase, updatedAt := now }

/-- The `UPDATE` of `null_amount_base_for_user`. -/
def nulled (row : Expense) (now : Instant) : Expense :=
  { row with amountBase := none, currencyBase := none, updatedAt := now }

/-- What the conversion of a row is a function of. -/
def inputs (row : Expense) : Money × Text × Instant :=
  (row.client.amountOriginal, row.client.currencyOriginal, row.client.spentAt)

end Expense

/-- The inputs a sweep selected. -/
def SweepRow.inputs (row : SweepRow) : Money × Text × Instant :=
  (row.amountOriginal, row.currencyOriginal, row.spentAt)

/-- The `WHERE` clause of `null_amount_base_for_user`. -/
def armed (user : UUID) (row : Expense) : Bool := row.userId = user ∧ row.amountBase ≠ none

end VoiceSpend
