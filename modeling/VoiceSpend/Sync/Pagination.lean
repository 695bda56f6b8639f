import VoiceSpend.Library.Machine
import VoiceSpend.Sync.Writes

/-!
# Serial pagination

One client reads page after page while whole transactions of any user commit between its pages.
A row that changes moves to the end of the order, so it can be delivered again, but with a larger
sequence value. The client holds every row of its user between the cursor it started from and the
cursor it has reached, in the version it has now.
-/

namespace VoiceSpend

open Machine

/-- The committed tables and what the client has read; `pages` in the order of its calls. -/
structure PullSession where
  db : Db
  rates : FxTable
  cursor : ℕ
  pages : List SyncPullResponse

/-- The other tables change by requests that do not write `expenses`; a rolled back transaction
has drawn values of the sequence and left nothing else. -/
inductive SessionAction
  | push (user : UUID) (batch : List RawRecord) (now clock : Instant)
  | sweep (userId : Option UUID) (limit : Option ℤ) (tie : UUID → ℕ) (now : Instant)
  | nullify (user : UUID) (now : Instant)
  | rolledBack (drawn : ℕ)
  | elsewhere (users : Table UUID User) (devices : Table UUID Device) (usageCounters : UsageTable)
      (entitlements : Table UUID Entitlement) (rates : FxTable)
  | pull (limit : ℕ)

namespace PullSession

/-- A client that has read nothing since a cursor. -/
def begin (db : Db) (rates : FxTable) (since : ℕ) : PullSession := ⟨db, rates, since, []⟩

/-- The rows of all pages. -/
def delivered (s : PullSession) : List (UUID × Expense) := s.pages.flatMap (·.records)

/-- The next transaction, or the next page of `reader` with the cursor of the last one. -/
def step (rt : Runtime) (settings : Settings) (reader : UUID) (s : PullSession) :
    SessionAction → Option PullSession
  | .push user batch now clock =>
    (pushSync rt settings s.db user batch now clock).map fun out ↦ { s with db := out.1 }
  | .sweep userId limit tie now =>
    (recomputeAmountBase settings s.db s.rates userId limit tie now).map fun out ↦ { s with db := out.1 }
  | .nullify user now => some { s with db := (nullAmountBaseForUser s.db user now).1 }
  | .rolledBack drawn => some { s with db := { s.db with syncSeq := s.db.syncSeq + drawn } }
  | .elsewhere users devices usageCounters entitlements rates =>
    some { s with
      db := { s.db with users, devices, usageCounters, entitlements }
      rates }
  | .pull limit =>
    if 1 ≤ limit ∧ limit ≤ maxPullLimit then
      let page := pullSync s.db.expenses reader s.cursor limit
      some { s with cursor := page.nextCursor, pages := s.pages ++ [page] }
    else none

end PullSession

/-- What a client that started from `since` can rely on. -/
structure ExactlyOnce (rt : Runtime) (settings : Settings) (reader : UUID) (since : ℕ)
    (s : PullSession) : Prop where
  increasing : (s.delivered.map (·.2.serverSeq)).Pairwise (· < ·)
  own : ∀ row ∈ s.delivered, row.2.userId = reader
  complete : ∀ limit s' page, s.step rt settings reader (.pull limit) = some s' →
    s'.pages.getLast? = some page → page.hasMore = false → ∀ id row, s'.db.expenses.lookup id = some row →
      row.userId = reader → since < row.serverSeq → (id, row) ∈ s'.delivered

/-- Everything the client has read, against the tables as they are now. -/
structure ReadUpTo (reader : UUID) (since : ℕ) (s : PullSession) : Prop where
  stamped : Stamped s.db.expenses s.db.syncSeq
  cursor : s.cursor = since ∨ s.cursor ≤ s.db.syncSeq
  increasing : (s.delivered.map (·.2.serverSeq)).Pairwise (· < ·)
  own : ∀ row ∈ s.delivered, row.2.userId = reader
  reached : ∀ row ∈ s.delivered, row.2.serverSeq ≤ s.cursor
  held : ∀ id row, s.db.expenses.lookup id = some row → row.userId = reader → since < row.serverSeq →
    row.serverSeq ≤ s.cursor → (id, row) ∈ s.delivered

section

variable {rt : Runtime} {settings : Settings} {reader : UUID} {since : ℕ} {s s' : PullSession}
  {action : SessionAction}

/-- Every action but a pull is a number of row writes that leave the client alone. -/
theorem PullSession.step_writes (hstep : s.step rt settings reader action = some s')
    (hpull : ∀ limit, action ≠ .pull limit) :
    RowWrites (s.db.expenses, s.db.syncSeq) (s'.db.expenses, s'.db.syncSeq) ∧ s'.cursor = s.cursor ∧
      s'.pages = s.pages := by
  cases action with
  | push user batch now clock =>
    obtain ⟨out, hout, rfl⟩ := Option.map_eq_some_iff.mp hstep
    exact ⟨pushSync_writes hout, rfl, rfl⟩
  | sweep userId limit tie now =>
    obtain ⟨out, hout, rfl⟩ := Option.map_eq_some_iff.mp hstep
    exact ⟨recomputeAmountBase_writes hout, rfl, rfl⟩
  | nullify user now =>
    cases hstep
    exact ⟨nullAmountBaseForUser_writes s.db user now, rfl, rfl⟩
  | rolledBack drawn =>
    cases hstep
    exact ⟨writes_lost s.db.expenses s.db.syncSeq drawn, rfl, rfl⟩
  | elsewhere users devices usageCounters entitlements rates =>
    cases hstep
    exact ⟨.refl, rfl, rfl⟩
  | pull limit => exact absurd rfl (hpull limit)

theorem PullSession.step_pull {limit : ℕ} (hstep : s.step rt settings reader (.pull limit) = some s') :
    1 ≤ limit ∧ s' = { s with
      cursor := (pullSync s.db.expenses reader s.cursor limit).nextCursor
      pages := s.pages ++ [pullSync s.db.expenses reader s.cursor limit] } := by
  simp only [PullSession.step] at hstep
  split at hstep
  · rename_i hlimit
    cases hstep
    exact ⟨hlimit.1, rfl⟩
  · cases hstep

theorem PullSession.step_stamped (h : Stamped s.db.expenses s.db.syncSeq)
    (hstep : s.step rt settings reader action = some s') : Stamped s'.db.expenses s'.db.syncSeq := by
  by_cases hpull : ∃ limit, action = .pull limit
  · obtain ⟨limit, rfl⟩ := hpull
    rw [(PullSession.step_pull hstep).2]
    exact h
  · exact (PullSession.step_writes hstep fun limit heq ↦ hpull ⟨limit, heq⟩).1.stamped h

/-- Every table that any transactions have made from the empty one is stamped. -/
theorem PullSession.stamped_of_run {db : Db} {rates : FxTable} {ok : PullSession → SessionAction → Prop}
    {trace : List (PullSession × SessionAction)} (hempty : db.expenses = ∅)
    (hrun : Run (PullSession.step rt settings reader) ok (.begin db rates since) trace s) :
    Stamped s.db.expenses s.db.syncSeq := by
  have hstart : Stamped (PullSession.begin db rates since).db.expenses db.syncSeq := by
    rw [PullSession.begin, hempty]
    exact Stamped.empty db.syncSeq
  apply hrun.invariant (fun s ↦ Stamped s.db.expenses s.db.syncSeq) hstart
  intro s action s' hstamped _ hstep
  exact PullSession.step_stamped hstamped hstep

theorem ReadUpTo.begin {db : Db} (hstamped : Stamped db.expenses db.syncSeq) (rates : FxTable) :
    ReadUpTo reader since (.begin db rates since) where
  stamped := hstamped
  cursor := .inl rfl
  increasing := .nil
  own _ hmem := absurd hmem List.not_mem_nil
  reached _ hmem := absurd hmem List.not_mem_nil
  held _ _ _ _ hsince hcursor := absurd hsince (not_lt.mpr hcursor)

/-- A write keeps the client's copy: a row it changed is above the cursor, unless the client
started ahead of the sequence. -/
theorem ReadUpTo.writes (h : ReadUpTo reader since s)
    (hwrites : RowWrites (s.db.expenses, s.db.syncSeq) (s'.db.expenses, s'.db.syncSeq))
    (hcursor : s'.cursor = s.cursor) (hpages : s'.pages = s.pages) : ReadUpTo reader since s' := by
  have hdelivered : s'.delivered = s.delivered := by rw [PullSession.delivered, hpages, PullSession.delivered]
  constructor
  · exact hwrites.stamped h.stamped
  · rw [hcursor]
    exact h.cursor.imp_right fun hle ↦ hle.trans hwrites.seq_le
  · rw [hdelivered]
    exact h.increasing
  · rw [hdelivered]
    exact h.own
  · rw [hdelivered, hcursor]
    exact h.reached
  · intro id row hrow huser hsince hreached
    rw [hcursor] at hreached
    rw [hdelivered]
    rcases hwrites.old_or_later hrow with hold | hlater
    · exact h.held id row hold huser hsince hreached
    · rcases h.cursor with hstart | hle <;> omega

theorem PullSession.delivered_append (s : PullSession) (page : SyncPullResponse) (cursor : ℕ) :
    ({ s with cursor, pages := s.pages ++ [page] } : PullSession).delivered =
      s.delivered ++ page.records := by
  unfold PullSession.delivered
  rw [List.flatMap_append, List.flatMap_singleton]

/-- A page extends the client's copy up to the cursor it returns. -/
theorem ReadUpTo.pull (h : ReadUpTo reader since s) (limit : ℕ) :
    ReadUpTo reader since { s with
      cursor := (pullSync s.db.expenses reader s.cursor limit).nextCursor
      pages := s.pages ++ [pullSync s.db.expenses reader s.cursor limit] } := by
  have hle := le_nextCursor s.db.expenses reader s.cursor limit
  constructor
  · exact h.stamped
  · rcases nextCursor_cases s.db.expenses reader s.cursor limit with hsame | ⟨⟨id, row⟩, hmem, hlast⟩
    · dsimp only
      rw [hsame]
      exact h.cursor
    · dsimp only
      rw [hlast]
      exact .inr (h.stamped.bounded id row (of_mem_pullSync hmem).1)
  · rw [PullSession.delivered_append, List.map_append, List.pairwise_append]
    refine ⟨h.increasing, ?_, ?_⟩
    · rw [List.pairwise_map]
      exact (changesSince_strict h.stamped.distinct reader s.cursor).sublist (List.take_sublist _ _)
    · intro old hold new hnew
      obtain ⟨row, hrow, rfl⟩ := List.mem_map.mp hold
      obtain ⟨row', hrow', rfl⟩ := List.mem_map.mp hnew
      exact lt_of_le_of_lt (h.reached row hrow) (of_mem_pullSync hrow').2.2
  · rw [PullSession.delivered_append]
    intro row hmem
    rcases List.mem_append.mp hmem with hold | hnew
    · exact h.own row hold
    · exact (of_mem_pullSync hnew).2.1
  · rw [PullSession.delivered_append]
    intro row hmem
    rcases List.mem_append.mp hmem with hold | hnew
    · exact (h.reached row hold).trans hle
    · exact le_nextCursor_of_mem hnew
  · rw [PullSession.delivered_append]
    intro id row hrow huser hsince hreached
    rw [List.mem_append]
    by_cases hcursor : row.serverSeq ≤ s.cursor
    · exact .inl (h.held id row hrow huser hsince hcursor)
    · exact .inr (mem_pullSync h.stamped.distinct hrow huser (not_le.mp hcursor) hreached)

theorem ReadUpTo.step (h : ReadUpTo reader since s) (hstep : s.step rt settings reader action = some s') :
    ReadUpTo reader since s' := by
  by_cases hpull : ∃ limit, action = .pull limit
  · obtain ⟨limit, rfl⟩ := hpull
    rw [(PullSession.step_pull hstep).2]
    exact h.pull limit
  · obtain ⟨hwrites, hcursor, hpages⟩ := PullSession.step_writes hstep fun limit heq ↦ hpull ⟨limit, heq⟩
    exact h.writes hwrites hcursor hpages

/-- A page that is not full completes the client's copy. -/
theorem ReadUpTo.exactlyOnce (h : ReadUpTo reader since s) : ExactlyOnce rt settings reader since s := by
  refine ⟨h.increasing, h.own, fun limit s' page hstep hpage hlast id row hrow huser hsince ↦ ?_⟩
  obtain ⟨_, rfl⟩ := PullSession.step_pull hstep
  rw [List.getLast?_concat, Option.some.injEq] at hpage
  subst hpage
  rw [PullSession.delivered_append, List.mem_append]
  by_cases hcursor : row.serverSeq ≤ s.cursor
  · exact .inl (h.held id row hrow huser hsince hcursor)
  · exact .inr (mem_pullSync_of_last hlast hrow huser (not_le.mp hcursor))

/-- Pages of one size: all full but the last, by induction on how many are full. -/
theorem exec_pulls {limit : ℕ} (hlimit : 1 ≤ limit) (hmax : limit ≤ maxPullLimit)
    (hdistinct : DistinctSeqs s.db.expenses) :
    ∃ s', exec (PullSession.step rt settings reader) s
        (List.replicate (rowsAbove s.db.expenses reader s.cursor / limit + 1) (.pull limit)) = some s' ∧
      s'.pages.map (·.hasMore) = s.pages.map (·.hasMore) ++
        (List.replicate (rowsAbove s.db.expenses reader s.cursor / limit) true ++ [false]) := by
  generalize hfull : rowsAbove s.db.expenses reader s.cursor / limit = full
  induction full generalizing s with
  | zero =>
    have hshort : rowsAbove s.db.expenses reader s.cursor < limit :=
      (Nat.div_eq_zero_iff_lt hlimit).mp hfull
    refine ⟨_, by rw [List.replicate_one, exec, PullSession.step, if_pos ⟨hlimit, hmax⟩]; rfl, ?_⟩
    rw [List.map_append, List.map_singleton, hasMore_iff, decide_eq_false (not_le.mpr hshort)]
    rfl
  | succ full ih =>
    have hlong : limit ≤ rowsAbove s.db.expenses reader s.cursor := by
      by_contra hshort
      rw [Nat.div_eq_of_lt (not_le.mp hshort)] at hfull
      cases hfull
    have hrest : (rowsAbove s.db.expenses reader s.cursor - limit) / limit = full := by
      rw [Nat.div_eq_sub_div hlimit hlong] at hfull
      omega
    have hnext := rowsAbove_nextCursor hdistinct reader s.cursor limit
    let next : PullSession := { s with
      cursor := (pullSync s.db.expenses reader s.cursor limit).nextCursor
      pages := s.pages ++ [pullSync s.db.expenses reader s.cursor limit] }
    obtain ⟨s', hexec, hpages⟩ := ih (s := next) hdistinct (by rw [hnext, hrest])
    refine ⟨s', ?_, ?_⟩
    · rw [List.replicate_succ, exec, PullSession.step, if_pos ⟨hlimit, hmax⟩]
      exact hexec
    · rw [hpages, List.map_append, List.map_singleton, hasMore_iff, decide_eq_true hlong,
        List.append_assoc]
      rfl

end

/-- In every serial run the client reads every version at most once and in order, and a page that
is not full completes its copy; without writes, paging `n` rows by `limit` takes `n / limit + 1` calls. -/
theorem pagination_exact (rt : Runtime) (settings : Settings) (reader : UUID) (db : Db) (rates : FxTable)
    (since : ℕ) (hstamped : Stamped db.expenses db.syncSeq) :
    (∀ trace s, Run (PullSession.step rt settings reader) (fun _ _ ↦ True) (.begin db rates since) trace s →
      ExactlyOnce rt settings reader since s) ∧
    ∀ limit, 1 ≤ limit → limit ≤ maxPullLimit →
      ∃ s, exec (PullSession.step rt settings reader) (.begin db rates since)
          (List.replicate (rowsAbove db.expenses reader since / limit + 1) (.pull limit)) = some s ∧
        s.pages.map (·.hasMore) =
          List.replicate (rowsAbove db.expenses reader since / limit) true ++ [false] := by
  constructor
  · intro trace s hrun
    have hread : ReadUpTo reader since s := by
      apply hrun.invariant (ReadUpTo reader since) (ReadUpTo.begin hstamped rates)
      intro s action s' h _ hstep
      exact h.step hstep
    exact hread.exactlyOnce
  · intro limit hlimit hmax
    exact exec_pulls hlimit hmax hstamped.distinct

/-- The sample user after a push of two expenses. -/
def twoExpenses : Db :=
  ((pushSync .ascii sampleSettings sampleDb ⟨1⟩ [sampleExpense 5 1,
    sampleRecord "00000000-0000-0000-0000-000000000004" "00000000-0000-0000-0000-000000000002" 7 1]
      0 0).map Prod.fst).getD sampleDb

theorem twoExpenses_stamped : Stamped twoExpenses.expenses twoExpenses.syncSeq := by
  unfold twoExpenses
  generalize hpush : pushSync .ascii sampleSettings sampleDb ⟨1⟩ _ 0 0 = pushed
  cases pushed with
  | none => exact Stamped.empty 0
  | some out => exact (pushSync_writes hpush).stamped (Stamped.empty 0)

/-- A first sync of the sample user, one row at a time: two full pages and an empty one; and a sync in which the
row of the first page is edited before the second one, so that it comes again at the end. -/
theorem pagination_exact_sample : (∃ s,
    exec (PullSession.step .ascii sampleSettings ⟨1⟩) (.begin twoExpenses ∅ 0) (List.replicate 3 (.pull 1)) =
        some s ∧
      s.pages.map (·.hasMore) = [true, true, false] ∧ ExactlyOnce .ascii sampleSettings ⟨1⟩ 0 s) ∧
    ∃ s, s.delivered.map (fun row ↦ (row.1, row.2.client.clientRev)) = [(⟨3⟩, 1), (⟨4⟩, 1), (⟨3⟩, 2)] ∧
      ExactlyOnce .ascii sampleSettings ⟨1⟩ 0 s := by
  have hrows : rowsAbove twoExpenses.expenses ⟨1⟩ 0 = 2 := by decide +kernel
  obtain ⟨honce, hends⟩ := pagination_exact .ascii sampleSettings ⟨1⟩ twoExpenses ∅ 0 twoExpenses_stamped
  constructor
  · obtain ⟨s, hexec, hpages⟩ := hends 1 le_rfl (by decide)
    rw [hrows] at hexec hpages
    exact ⟨s, hexec, hpages, honce _ s (run_of_exec hexec)⟩
  · have hexec : (exec (PullSession.step .ascii sampleSettings ⟨1⟩) (.begin twoExpenses ∅ 0)
        [.pull 1, .push ⟨1⟩ [sampleExpense 6 2] 1 1, .pull 1, .pull 1]).map (fun s ↦
          s.delivered.map fun row ↦ (row.1, row.2.client.clientRev)) =
          some [(⟨3⟩, 1), (⟨4⟩, 1), (⟨3⟩, 2)] := by
      decide +kernel
    obtain ⟨s, hs, hdelivered⟩ := Option.map_eq_some_iff.mp hexec
    exact ⟨s, hdelivered, honce _ s (run_of_exec hs)⟩

end VoiceSpend
