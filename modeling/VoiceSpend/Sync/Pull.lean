import VoiceSpend.Store.Rows

/-!
# `pull_sync`

One page of a user's rows above a cursor, in the order of `server_seq`. With distinct sequence
values, `mem_pullSync` says that the page holds every row between the two cursors: a page is
never cut between rows that share a value.
-/

namespace VoiceSpend

/-- `MAX_PULL_LIMIT`. -/
def maxPullLimit : ℕ := 500

structure SyncPullResponse where
  records : List (UUID × Expense)
  nextCursor : ℕ
  hasMore : Bool

/-- The rows of the `WHERE` clause, in the order of the query. -/
def changesSince (expenses : Table UUID Expense) (user : UUID) (since : ℕ) : List (UUID × Expense) :=
  ((Table.rows expenses).filter fun row ↦ row.2.userId = user ∧ since < row.2.serverSeq).insertionSort
    fun first second ↦ first.2.serverSeq ≤ second.2.serverSeq

/-- `pull_sync` for an authenticated user, on a `since` that a `BIGINT` can hold. -/
def pullSync (expenses : Table UUID Expense) (user : UUID) (since limit : ℕ) : SyncPullResponse :=
  let records := (changesSince expenses user since).take limit
  { records
    nextCursor := (records.getLast?.map (·.2.serverSeq)).getD since
    hasMore := records.length = limit }

/-- Two rows of one table never carry the same sequence value. -/
def DistinctSeqs (expenses : Table UUID Expense) : Prop :=
  ∀ id id' row row', expenses.lookup id = some row → expenses.lookup id' = some row' →
    row.serverSeq = row'.serverSeq → id = id'

section

variable {expenses : Table UUID Expense} {user : UUID} {since limit : ℕ} {id : UUID} {row : Expense}

theorem mem_changesSince : (id, row) ∈ changesSince expenses user since ↔
    expenses.lookup id = some row ∧ row.userId = user ∧ since < row.serverSeq := by
  unfold changesSince
  rw [List.mem_insertionSort, List.mem_filter, Table.mem_rows, decide_eq_true_eq]

theorem changesSince_sorted (expenses : Table UUID Expense) (user : UUID) (since : ℕ) :
    (changesSince expenses user since).Pairwise fun first second ↦
      first.2.serverSeq ≤ second.2.serverSeq := by
  have htotal : Std.Total fun first second : UUID × Expense ↦ first.2.serverSeq ≤ second.2.serverSeq :=
    ⟨fun first second ↦ le_total _ _⟩
  have htrans : IsTrans (UUID × Expense) fun first second ↦ first.2.serverSeq ≤ second.2.serverSeq :=
    ⟨fun _ _ _ hfirst hsecond ↦ hfirst.trans hsecond⟩
  exact List.pairwise_insertionSort _ _

/-- A delivered row is a current row of the user above the old cursor. -/
theorem of_mem_pullSync (hmem : (id, row) ∈ (pullSync expenses user since limit).records) :
    expenses.lookup id = some row ∧ row.userId = user ∧ since < row.serverSeq :=
  mem_changesSince.mp (List.mem_of_mem_take hmem)

/-- The cursor does not move back. -/
theorem le_nextCursor (expenses : Table UUID Expense) (user : UUID) (since limit : ℕ) :
    since ≤ (pullSync expenses user since limit).nextCursor := by
  unfold pullSync
  dsimp only
  cases hlast : ((changesSince expenses user since).take limit).getLast? with
  | none => rfl
  | some last =>
    have hmem := List.mem_of_mem_take (List.mem_of_getLast? hlast)
    exact (mem_changesSince.mp hmem).2.2.le

/-- A page that is not full is the last one: it holds every row above the old cursor. -/
theorem mem_pullSync_of_last (hlast : (pullSync expenses user since limit).hasMore = false)
    (hrow : expenses.lookup id = some row) (huser : row.userId = user) (hsince : since < row.serverSeq) :
    (id, row) ∈ (pullSync expenses user since limit).records := by
  have hmem := mem_changesSince.mpr ⟨hrow, huser, hsince⟩
  have hshort : ((changesSince expenses user since).take limit).length ≠ limit :=
    of_decide_eq_false hlast
  rw [List.length_take] at hshort
  have hall : (changesSince expenses user since).length ≤ limit := by omega
  change _ ∈ (changesSince expenses user since).take limit
  rw [List.take_of_length_le hall]
  exact hmem

/-- The page holds every row between the two cursors. -/
theorem mem_pullSync (hdistinct : DistinctSeqs expenses) (hrow : expenses.lookup id = some row)
    (huser : row.userId = user) (hsince : since < row.serverSeq)
    (hnext : row.serverSeq ≤ (pullSync expenses user since limit).nextCursor) :
    (id, row) ∈ (pullSync expenses user since limit).records := by
  have hmem := mem_changesSince.mpr ⟨hrow, huser, hsince⟩
  have hsorted := changesSince_sorted expenses user since
  rw [← List.take_append_drop limit (changesSince expenses user since), List.mem_append] at hmem
  rw [← List.take_append_drop limit (changesSince expenses user since), List.pairwise_append] at hsorted
  apply hmem.resolve_right
  intro hdropped
  -- the last delivered row is not above a dropped one, so the two are the same row
  cases hlast : ((changesSince expenses user since).take limit).getLast? with
  | none =>
    have hcursor : (pullSync expenses user since limit).nextCursor = since := by
      simp only [pullSync, hlast, Option.map_none, Option.getD_none]
    omega
  | some last =>
    have hcursor : (pullSync expenses user since limit).nextCursor = last.2.serverSeq := by
      simp only [pullSync, hlast, Option.map_some, Option.getD_some]
    have hin := List.mem_of_getLast? hlast
    have hle := hsorted.2.2 last hin (id, row) hdropped
    have hlastRow := mem_changesSince.mp (List.mem_of_mem_take hin)
    have hid : last.1 = id := hdistinct _ _ _ _ hlastRow.1 hrow (by simp only at hle; omega)
    have hsame : last = (id, row) := by
      rw [← hid] at hrow ⊢
      rw [hrow] at hlastRow
      exact Prod.ext rfl (Option.some.inj hlastRow.1).symm
    have hnodup : (changesSince expenses user since).Nodup :=
      (List.perm_insertionSort _ _).nodup_iff.mpr ((Table.rows_nodup expenses).filter _)
    rw [← List.take_append_drop limit (changesSince expenses user since), List.nodup_append] at hnodup
    exact hnodup.2.2 last hin (id, row) hdropped hsame

/-- With distinct sequence values the order of a page is strict. -/
theorem changesSince_strict (hdistinct : DistinctSeqs expenses) (user : UUID) (since : ℕ) :
    (changesSince expenses user since).Pairwise fun first second ↦
      first.2.serverSeq < second.2.serverSeq := by
  have hnodup : (changesSince expenses user since).Nodup :=
    (List.perm_insertionSort _ _).nodup_iff.mpr ((Table.rows_nodup expenses).filter _)
  have hboth := (changesSince_sorted expenses user since).and hnodup
  apply hboth.imp_of_mem
  rintro ⟨id, row⟩ ⟨id', row'⟩ hfirst hsecond ⟨hle, hne⟩
  have hrow := (mem_changesSince.mp hfirst).1
  have hrow' := (mem_changesSince.mp hsecond).1
  apply lt_of_le_of_ne hle
  intro heq
  have hid := hdistinct id id' row row' hrow hrow' heq
  subst hid
  rw [hrow] at hrow'
  exact hne (Prod.ext rfl (Option.some.inj hrow'))

/-- No row of a page is above the cursor it returns. -/
theorem le_nextCursor_of_mem (hmem : (id, row) ∈ (pullSync expenses user since limit).records) :
    row.serverSeq ≤ (pullSync expenses user since limit).nextCursor := by
  have hsorted : (pullSync expenses user since limit).records.Pairwise fun first second ↦
      first.2.serverSeq ≤ second.2.serverSeq :=
    (changesSince_sorted expenses user since).sublist (List.take_sublist _ _)
  have hcursor : (pullSync expenses user since limit).nextCursor =
      ((pullSync expenses user since limit).records.getLast?.map (·.2.serverSeq)).getD since := rfl
  rw [hcursor]
  generalize (pullSync expenses user since limit).records = records at hmem hsorted
  have hne : records ≠ [] := List.ne_nil_of_mem hmem
  rw [List.getLast?_eq_some_getLast hne, Option.map_some, Option.getD_some]
  rw [← List.dropLast_append_getLast hne, List.mem_append, List.mem_singleton] at hmem
  rw [← List.dropLast_append_getLast hne, List.pairwise_append] at hsorted
  rcases hmem with hearlier | hlast
  · exact hsorted.2.2 _ hearlier _ (List.mem_singleton_self _)
  · rw [← hlast]

/-- The cursor a page returns is the old one, or the sequence value of one of its rows. -/
theorem nextCursor_cases (expenses : Table UUID Expense) (user : UUID) (since limit : ℕ) :
    (pullSync expenses user since limit).nextCursor = since ∨
      ∃ row ∈ (pullSync expenses user since limit).records,
        (pullSync expenses user since limit).nextCursor = row.2.serverSeq := by
  unfold pullSync
  dsimp only
  cases hlast : ((changesSince expenses user since).take limit).getLast? with
  | none => exact .inl rfl
  | some last => exact .inr ⟨last, List.mem_of_getLast? hlast, rfl⟩

/-- How many rows of a user are above a cursor. -/
def rowsAbove (expenses : Table UUID Expense) (user : UUID) (since : ℕ) : ℕ :=
  Table.countRows (fun _ row ↦ row.userId = user ∧ since < row.serverSeq) expenses

theorem changesSince_length (expenses : Table UUID Expense) (user : UUID) (since : ℕ) :
    (changesSince expenses user since).length = rowsAbove expenses user since :=
  List.length_insertionSort _ _

/-- A page takes its rows out of the ones above the cursor, and leaves the others. -/
theorem rowsAbove_nextCursor (hdistinct : DistinctSeqs expenses) (user : UUID) (since limit : ℕ) :
    rowsAbove expenses user (pullSync expenses user since limit).nextCursor =
      rowsAbove expenses user since - limit := by
  have hstrict := changesSince_strict hdistinct user since
  have hle := le_nextCursor expenses user since limit
  have hperm : (changesSince expenses user (pullSync expenses user since limit).nextCursor).Perm
      ((changesSince expenses user since).drop limit) := by
    have hnodup (cursor : ℕ) : (changesSince expenses user cursor).Nodup :=
      (changesSince_strict hdistinct user cursor).imp fun hlt heq ↦ by
        rw [heq] at hlt
        exact lt_irrefl _ hlt
    apply (List.perm_ext_iff_of_nodup (hnodup _) ((hnodup _).sublist (List.drop_sublist _ _))).mpr
    rintro ⟨id, row⟩
    rw [mem_changesSince]
    constructor
    · rintro ⟨hrow, huser, hnext⟩
      have hmem := mem_changesSince.mpr ⟨hrow, huser, lt_of_le_of_lt hle hnext⟩
      rw [← List.take_append_drop limit (changesSince expenses user since), List.mem_append] at hmem
      apply hmem.resolve_left
      intro htaken
      exact absurd (le_nextCursor_of_mem htaken) (not_le.mpr hnext)
    · intro hdropped
      obtain ⟨hrow, huser, hsince⟩ := mem_changesSince.mp (List.mem_of_mem_drop hdropped)
      refine ⟨hrow, huser, ?_⟩
      rw [← List.take_append_drop limit (changesSince expenses user since), List.pairwise_append] at hstrict
      rcases nextCursor_cases expenses user since limit with hcursor | ⟨last, hlast, hcursor⟩
      · rw [hcursor]
        exact hsince
      · rw [hcursor]
        exact hstrict.2.2 last hlast _ hdropped
  calc rowsAbove expenses user (pullSync expenses user since limit).nextCursor
      = (changesSince expenses user (pullSync expenses user since limit).nextCursor).length :=
        (changesSince_length ..).symm
    _ = ((changesSince expenses user since).drop limit).length := hperm.length_eq
    _ = rowsAbove expenses user since - limit := by rw [List.length_drop, changesSince_length]

theorem hasMore_iff (expenses : Table UUID Expense) (user : UUID) (since limit : ℕ) :
    (pullSync expenses user since limit).hasMore = decide (limit ≤ rowsAbove expenses user since) := by
  have hlength : (pullSync expenses user since limit).hasMore =
      decide (((changesSince expenses user since).take limit).length = limit) := rfl
  rw [hlength, List.length_take, changesSince_length]
  exact decide_eq_decide.mpr min_eq_left_iff

end

end VoiceSpend
