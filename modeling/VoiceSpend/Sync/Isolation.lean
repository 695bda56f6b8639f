import VoiceSpend.Sync.Push

/-!
# Does one bad record stay alone?

A push is isolated when removing any one record changes nothing for the ids of the others
and neither request fails as a whole. Validation isolates records; the column types do not:
one value that does not fit makes the whole statement raise. The second copy of an id
matters too, because it is written when the first one is removed.
-/

namespace VoiceSpend

/-- A row up to its sequence value. -/
def Expense.withoutSeq (row : Expense) : Expense := { row with serverSeq := 0 }

section

variable {rt : Runtime} {db after after' : Db} {user : UUID} {entries others : List Entry}
  {now clock : Instant} {response response' : SyncPushResponse} {returned returned' : List Returned}

/-- The same proposed row over the same old row has the same outcome, up to sequence values. -/
theorem RowOutcome.unique {insertion : Insertion} {old new new' : Option Expense}
    {ret ret' : Option (ℕ × Bool)} (h : RowOutcome user now insertion old new ret)
    (h' : RowOutcome user now insertion old new' ret') :
    new.map Expense.withoutSeq = new'.map Expense.withoutSeq ∧ ret.isSome = ret'.isSome := by
  cases h with
  | inserted => cases h'; exact ⟨rfl, rfl⟩
  | updated row serverSeq newer =>
    cases h' with
    | updated => exact ⟨rfl, rfl⟩
    | stale _ older => exact absurd older (not_le.mpr newer)
  | stale row older =>
    cases h' with
    | updated _ _ newer => exact absurd older (not_le.mpr newer)
    | stale => exact ⟨rfl, rfl⟩

end

variable (rt : Runtime) (settings : Settings) (db : Db) (user : UUID) (batch : List RawRecord)
  (now clock : Instant)

end VoiceSpend
