import Mathlib.Data.List.ReduceOption
import VoiceSpend.Concurrency.Counting
import VoiceSpend.Concurrency.Replay
import VoiceSpend.Library.CommitOrder

/-!
# Concurrent pushes in the order of their commits

The columns that only pushes write are a store of upserts. In every interleaving of pushes, sweeps,
invalidations and aborts that store is what the committed pushes make of it one after the other, in
the order of their commits, and `RETURNING` says what it says there. So a concurrent push decides
`APPLIED` and `STALE_IGNORED` as a push without concurrent writers does.
-/

namespace VoiceSpend

open Machine

/-! ## Upserts of the pushed columns -/

/-- What no sweep and no invalidation writes. -/
structure PushedColumns where
  userId : UUID
  deviceId : UUID
  client : ClientColumns
  parseStatus : ParseStatus
  createdAt : Instant
  deriving DecidableEq, Repr

def Expense.pushed (row : Expense) : PushedColumns :=
  ⟨row.userId, row.deviceId, row.client, row.parseStatus, row.createdAt⟩

/-- One row of a push's upsert, with the user and the time of its transaction. -/
structure Upsert where
  user : UUID
  now : Instant
  insertion : Insertion
  deriving DecidableEq, Repr

/-- The upsert of one row; it answers the id and `was_inserted`, unless the row is stale. -/
def upserts : Operations UUID PushedColumns Upsert (Option (UUID × Bool)) where
  key upsert := upsert.insertion.id
  effect upsert
    | none => some ⟨upsert.user, upsert.insertion.deviceId, upsert.insertion.client, .«local», upsert.now⟩
    | some row =>
      if row.client.clientRev < upsert.insertion.client.clientRev then
        some { row with client := upsert.insertion.client }
      else some row
  answer upsert
    | none => some (upsert.insertion.id, true)
    | some row =>
      if row.client.clientRev < upsert.insertion.client.clientRev then some (upsert.insertion.id, false)
      else none

/-- A returned row without its sequence value. -/
def Returned.flag (row : Returned) : UUID × Bool := (row.id, row.wasInserted)

section

variable (user : UUID) (now : Instant) (insertion : Insertion)

theorem upsertRow_pushed (s : UpsertState) :
    coreOf Expense.pushed (upsertRow user now s insertion).expenses =
        upserts.apply (coreOf Expense.pushed s.expenses) ⟨user, now, insertion⟩ ∧
      (upsertRow user now s insertion).returned.map Returned.flag = s.returned.map Returned.flag ++
        (upserts.answer ⟨user, now, insertion⟩ (coreOf Expense.pushed s.expenses insertion.id)).toList := by
  have hinsert (row : Expense) : coreOf Expense.pushed (s.expenses.insert insertion.id row) =
      Function.update (coreOf Expense.pushed s.expenses) insertion.id (some row.pushed) := by
    funext id
    unfold coreOf
    rw [Table.lookup_insert_eq]
    by_cases hid : id = insertion.id
    · rw [hid, if_pos rfl, Function.update_self, Option.map_some]
    · rw [if_neg hid, Function.update_of_ne hid]
  have hself : coreOf Expense.pushed s.expenses insertion.id =
      (s.expenses.lookup insertion.id).map Expense.pushed := rfl
  unfold upsertRow Operations.apply
  cases hrow : s.expenses.lookup insertion.id with
  | none =>
    rw [hrow] at hself
    refine ⟨?_, ?_⟩
    · rw [hinsert]
      simp only [upserts, hself]
      rfl
    · simp only [upserts, hself, List.map_append]
      rfl
  | some row =>
    rw [hrow, Option.map_some] at hself
    dsimp only
    split
    · rename_i hnewer
      have hnewer' : row.pushed.client.clientRev < insertion.client.clientRev := hnewer
      refine ⟨?_, ?_⟩
      · rw [hinsert]
        simp only [upserts, hself, if_pos hnewer']
        rfl
      · simp only [upserts, hself, if_pos hnewer', List.map_append]
        rfl
    · rename_i hstale
      have hstale' : ¬ row.pushed.client.clientRev < insertion.client.clientRev := hstale
      refine ⟨?_, ?_⟩
      · simp only [upserts, hself, if_neg hstale']
        rw [← hself, Function.update_eq_self]
      · simp only [upserts, hself, if_neg hstale', Option.toList_none, List.append_nil]

end

/-- The bulk upsert of a push is a run of its upserts. -/
theorem bulkUpsert_pushed (user : UUID) (now : Instant) (expenses : Table UUID Expense) (seq : ℕ)
    (insertions : List Insertion) :
    coreOf Expense.pushed (bulkUpsert user now expenses seq insertions).expenses =
        upserts.run (coreOf Expense.pushed expenses) (insertions.map (⟨user, now, ·⟩)) ∧
      (bulkUpsert user now expenses seq insertions).returned.map Returned.flag =
        (upserts.answers (coreOf Expense.pushed expenses)
          (insertions.map (⟨user, now, ·⟩))).reduceOption := by
  induction insertions using List.reverseRecOn with
  | nil => exact ⟨rfl, rfl⟩
  | append_singleton front insertion ih =>
    obtain ⟨hstore, hreturned⟩ := ih
    obtain ⟨hrow, hflag⟩ := upsertRow_pushed user now insertion (bulkUpsert user now expenses seq front)
    rw [hstore] at hrow hflag
    rw [bulkUpsert, List.foldl_concat, List.map_append, List.map_singleton, Operations.run_concat,
      Operations.answers_concat, List.reduceOption_append, List.reduceOption_singleton, ← hreturned]
    exact ⟨hrow, hflag⟩

/-! ## The serial order of a run -/

/-- The row that the next statement upserts. -/
def SyncSystem.upserted (s : SyncSystem) : SyncAction → Option Upsert
  | .advance t _ =>
    match s.procs t with
    | .push ⟨user, _, _, now, .writing (insertion :: _) (some _) _⟩ => some ⟨user, now, insertion⟩
    | _ => none
  | _ => none

/-- The rows that a transaction has upserted, in the order of its statements. -/
def upsertsOf (trace : List (SyncSystem × SyncAction)) (t : ℕ) : List Upsert :=
  trace.filterMap fun entry ↦ if entry.2.actor = some t then entry.1.upserted entry.2 else none

/-- The push that this step commits, and what its upsert has returned. -/
def committedReturned : SyncSystem × SyncAction → Option (ℕ × List Returned)
  | (s, .advance t _) =>
    match s.procs t with
    | .push ⟨_, _, _, _, .committing returned _⟩ => some (t, returned)
    | _ => none
  | _ => none

/-- The committed pushes, in the order of their commits. -/
def commitOrder (trace : List (SyncSystem × SyncAction)) : List ℕ :=
  trace.filterMap fun entry ↦ (committedReturned entry).map Prod.fst

/-- The upserts of the committed pushes, one push after the other. -/
def serialUpserts (trace : List (SyncSystem × SyncAction)) : List Upsert :=
  (commitOrder trace).flatMap (upsertsOf trace)

section

variable {rt : Runtime} {settings : Settings} {s s' : SyncSystem} {t u : ℕ} {clock : Instant}
  {effect : Effect} {action : SyncAction} {trace : List (SyncSystem × SyncAction)} {ops : List Upsert}

theorem upsertsOf_snoc (trace : List (SyncSystem × SyncAction)) (s : SyncSystem) (action : SyncAction)
    (t : ℕ) : upsertsOf (trace ++ [(s, action)]) t =
      upsertsOf trace t ++ (if action.actor = some t then s.upserted action else none).toList := by
  unfold upsertsOf
  rw [List.filterMap_append, List.filterMap_cons, List.filterMap_nil]
  cases (if action.actor = some t then s.upserted action else none) <;> rfl

theorem upsertsOf_other (trace : List (SyncSystem × SyncAction)) (s : SyncSystem)
    (hactor : action.actor ≠ some t) : upsertsOf (trace ++ [(s, action)]) t = upsertsOf trace t := by
  rw [upsertsOf_snoc, if_neg hactor, Option.toList_none, List.append_nil]

theorem upsertsOf_none (trace : List (SyncSystem × SyncAction)) (hnone : s.upserted action = none) (t : ℕ) :
    upsertsOf (trace ++ [(s, action)]) t = upsertsOf trace t := by
  rw [upsertsOf_snoc, hnone, ite_self, Option.toList_none, List.append_nil]

theorem upserted_of_stage {run : PushRun} {insertion : Insertion} {todo : List Insertion} {drawn : ℕ}
    {returned : List Returned} (hrun : s.procs t = .push run)
    (hstage : run.stage = .writing (insertion :: todo) (some drawn) returned) :
    s.upserted (.advance t clock) = some ⟨run.user, run.now, insertion⟩ := by
  obtain ⟨user, scanned, rejects, now, stage⟩ := run
  subst hstage
  simp only [SyncSystem.upserted, hrun]

theorem upserted_eq_none {run : PushRun} (hrun : s.procs t = .push run)
    (hstage : ∀ insertion todo drawn returned, run.stage ≠ .writing (insertion :: todo)
      (some drawn) returned) :
    s.upserted (.advance t clock) = none := by
  unfold SyncSystem.upserted
  dsimp only
  split
  · rename_i user scanned rejects now insertion todo drawn returned heq
    cases hrun.symm.trans heq
    exact absurd rfl (hstage insertion todo drawn returned)
  · rfl

theorem upserted_of_not_push (hrun : ∀ run, s.procs t ≠ .push run) :
    s.upserted (.advance t clock) = none := by
  unfold SyncSystem.upserted
  dsimp only
  split
  · rename_i heq
    exact absurd heq (hrun _)
  · rfl

theorem committedReturned_eq_some {returned : List Returned}
    (h : committedReturned (s, action) = some (t, returned)) :
    ∃ clock run counted, action = .advance t clock ∧ s.procs t = .push run ∧
      run.stage = .committing returned counted := by
  unfold committedReturned at h
  split at h
  · rename_i other u clock heq
    cases heq
    split at h
    · rename_i user scanned rejects now returned counted hrun
      cases h
      exact ⟨clock, _, counted, rfl, hrun, rfl⟩
    · cases h
  · cases h

theorem committedReturned_of_stage {run : PushRun} {returned : List Returned} {counted : Option Instant}
    (hrun : s.procs t = .push run) (hstage : run.stage = .committing returned counted) :
    committedReturned (s, .advance t clock) = some (t, returned) := by
  obtain ⟨user, scanned, rejects, now, stage⟩ := run
  subst hstage
  simp only [committedReturned, hrun]

theorem mem_commitOrder_snoc (h : t ∈ commitOrder (trace ++ [(s, action)])) :
    t ∈ commitOrder trace ∨ ∃ returned, committedReturned (s, action) = some (t, returned) := by
  unfold commitOrder at h
  rw [List.filterMap_append, List.mem_append] at h
  refine h.imp_right fun hlast ↦ ?_
  obtain ⟨entry, hentry, hmap⟩ := List.mem_filterMap.mp hlast
  obtain ⟨⟨_, returned⟩, hreturned, rfl⟩ := Option.map_eq_some_iff.mp hmap
  rw [List.mem_singleton.mp hentry] at hreturned
  exact ⟨returned, hreturned⟩

/-! ## One transaction -/

/-- An open transaction has run its upserts on the committed rows, and returned what they answer. -/
structure Serves (expenses : Versioned UUID Expense ℕ) (t : ℕ) (ops : List Upsert)
    (returned : List Returned) : Prop where
  hasRun : HasRun upserts Expense.pushed expenses t ops
  flags : returned.map Returned.flag =
    (upserts.answers (coreOf Expense.pushed expenses.committed) ops).reduceOption

section

variable {expenses : Versioned UUID Expense ℕ} {returned : List Returned} {row : Expense}

theorem Serves.begin (hdrafts : expenses.drafts t = ∅) : Serves expenses t [] [] := ⟨.begin hdrafts, rfl⟩

/-- The answer of the next upsert is about the row its statement finds. -/
theorem Serves.flags_concat (h : Serves expenses t ops returned) {more : List Returned} (upsert : Upsert)
    (hmore : more.map Returned.flag = (upserts.answer upsert
      ((expenses.visible t upsert.insertion.id).map Expense.pushed)).toList) :
    (returned ++ more).map Returned.flag =
      (upserts.answers (coreOf Expense.pushed expenses.committed) (ops ++ [upsert])).reduceOption := by
  rw [List.map_append, h.flags, Operations.answers_concat, List.reduceOption_append,
    List.reduceOption_singleton, h.hasRun.seen_key, hmore]
  rfl

/-- A stale row is locked and not returned. -/
theorem Serves.stale (h : Serves expenses t ops returned) (upsert : Upsert)
    (hfree : expenses.Free t upsert.insertion.id) (found : expenses.visible t upsert.insertion.id = some row)
    (notNewer : ¬ row.client.clientRev < upsert.insertion.client.clientRev) :
    Serves (expenses.lock t upsert.insertion.id hfree) t (ops ++ [upsert]) returned := by
  have hstale : ¬ row.pushed.client.clientRev < upsert.insertion.client.clientRev := notNewer
  refine ⟨h.hasRun.lock_concat hfree ?_, ?_⟩
  · change upserts.effect upsert ((expenses.visible t upsert.insertion.id).map Expense.pushed) =
      (expenses.visible t upsert.insertion.id).map Expense.pushed
    rw [found, Option.map_some]
    exact if_neg hstale
  · rw [← List.append_nil returned]
    apply h.flags_concat upsert
    rw [found, Option.map_some]
    simp only [upserts, if_neg hstale, List.map_nil, Option.toList_none]

/-- An inserted or updated row is returned. -/
theorem Serves.returning (h : Serves expenses t ops returned) (upsert : Upsert)
    (hfree : expenses.Free t upsert.insertion.id) {serverSeq : ℕ} {wasInserted : Bool}
    (heffect : upserts.effect upsert ((expenses.visible t upsert.insertion.id).map Expense.pushed) =
      some row.pushed)
    (hanswer : upserts.answer upsert ((expenses.visible t upsert.insertion.id).map Expense.pushed) =
      some (upsert.insertion.id, wasInserted)) :
    Serves (expenses.write t upsert.insertion.id row hfree) t (ops ++ [upsert])
      (returned ++ [⟨upsert.insertion.id, serverSeq, wasInserted⟩]) := by
  refine ⟨h.hasRun.write_concat hfree heffect, ?_⟩
  apply h.flags_concat upsert
  rw [hanswer]
  rfl

/-- A write of other columns. -/
theorem Serves.write (h : Serves expenses t ops returned) {id : UUID} {old : Expense}
    (hfree : expenses.Free t id) (found : expenses.visible t id = some old)
    (hpushed : row.pushed = old.pushed) : Serves (expenses.write t id row hfree) t ops returned := by
  refine ⟨h.hasRun.write hfree ?_, h.flags⟩
  rw [found, Option.map_some, hpushed]

theorem Serves.lock (h : Serves expenses t ops returned) {id : UUID} (hfree : expenses.Free t id) :
    Serves (expenses.lock t id hfree) t ops returned :=
  ⟨h.hasRun.lock hfree, h.flags⟩

/-- A statement of another transaction. -/
theorem Serves.performs (h : Serves s.expenses u ops returned) (performs : Performs s t effect s')
    (hne : u ≠ t) : Serves s'.expenses u ops returned := by
  cases performs with
  | read | draw | count => exact h
  | lock id next hfree => exact ⟨h.hasRun.lock hfree, h.flags⟩
  | insert id row next hfree => exact ⟨h.hasRun.write_other hne hfree, h.flags⟩
  | update id row next hfree => exact ⟨h.hasRun.write_other hne hfree, h.flags⟩
  | rollback => exact ⟨h.hasRun.abort_other hne, h.flags⟩
  | commit next =>
    refine ⟨h.hasRun.commit_other hne, h.flags.trans ?_⟩
    congr 1
    apply Operations.answers_congr
    intro upsert hmem
    exact congrArg (Option.map _) (HasRun.lookup_commit_of_held hne (h.hasRun.locked upsert hmem)).symm

end

/-- An idle process, a sweep and an invalidation have upserted nothing. -/
@[simp] def Proc.silent : Proc → Bool
  | .idle | .sweep _ | .nullify _ => true
  | _ => false

/-- What holds of one transaction of a run. -/
structure Placed (trace : List (SyncSystem × SyncAction)) (s : SyncSystem) (t : ℕ) : Prop where
  closed : (s.procs t).running = false → s.expenses.drafts t = ∅
  silent : (s.procs t).silent = true → upsertsOf trace t = []
  serves : (s.procs t).running = true → Serves s.expenses t (upsertsOf trace t) (s.procs t).returned
  ended : t ∈ commitOrder trace → (s.procs t).running = false ∧ s.procs t ≠ .idle

theorem upsertsOf_advance {run : PushRun} {insertion : Insertion} {todo : List Insertion} {drawn : ℕ}
    {returned : List Returned} (hrun : s.procs t = .push run)
    (hstage : run.stage = .writing (insertion :: todo) (some drawn) returned) :
    upsertsOf (trace ++ [(s, .advance t clock)]) t = upsertsOf trace t ++
      [⟨run.user, run.now, insertion⟩] := by
  rw [upsertsOf_snoc, upserted_of_stage hrun hstage, SyncAction.actor, if_pos rfl]
  rfl

theorem PushRun.Steps.serves {run : PushRun} (steps : run.Steps rt s t clock effect)
    (hrun : s.procs t = .push run) (h : Serves s.expenses t (upsertsOf trace t) run.stage.returned)
    (performs : Performs s t effect s') (hrunning : (s'.procs t).running = true) :
    Serves s'.expenses t (upsertsOf (trace ++ [(s, .advance t clock)]) t) (s'.procs t).returned := by
  rw [performs.proc] at hrunning ⊢
  cases steps with
  | raised | committed => cases hrunning
  | devices | owners | drawn | written | uncounted | counted =>
    have hexpenses : s'.expenses = s.expenses := by
      cases performs
      rfl
    rw [upsertsOf_none trace (upserted_eq_none hrun (by simp [*])), hexpenses]
    simpa [*, Effect.next] using h
  | stale insertion todo drawn returned stage row found notNewer =>
    rw [upsertsOf_advance hrun stage]
    rw [stage] at h
    cases performs with
    | lock id next hfree => exact h.stale ⟨run.user, run.now, insertion⟩ hfree found notNewer
  | inserted insertion todo drawn returned stage fresh =>
    rw [upsertsOf_advance hrun stage]
    rw [stage] at h
    cases performs with
    | insert id row next hfree =>
      apply h.returning ⟨run.user, run.now, insertion⟩ hfree <;> rw [fresh] <;> rfl
  | updated insertion todo drawn returned stage row found newer =>
    have hnewer : row.pushed.client.clientRev < insertion.client.clientRev := newer
    rw [upsertsOf_advance hrun stage]
    rw [stage] at h
    cases performs with
    | update id new next hfree =>
      apply h.returning ⟨run.user, run.now, insertion⟩ hfree
      · rw [found]
        exact if_pos hnewer
      · rw [found]
        exact if_pos hnewer

theorem SweepRun.Steps.serves {run : SweepRun} (steps : run.Steps settings s t effect)
    (h : Serves s.expenses t ops []) (performs : Performs s t effect s')
    (hrunning : (s'.procs t).running = true) : Serves s'.expenses t ops (s'.procs t).returned := by
  rw [performs.proc] at hrunning ⊢
  cases steps with
  | raised | finished => cases hrunning
  | selected | sameCurrency | firstRate | noFirstRate | secondRate | noSecondRate | gone =>
    cases performs
    exact h
  | updated row amountBase todo stage stored fits current found =>
    cases performs with
    | update id new next hfree => exact h.write hfree found rfl

theorem NullifyRun.Steps.serves {run : NullifyRun} (steps : run.Steps s t effect)
    (h : Serves s.expenses t ops []) (performs : Performs s t effect s')
    (hrunning : (s'.procs t).running = true) : Serves s'.expenses t ops (s'.procs t).returned := by
  rw [performs.proc] at hrunning ⊢
  cases steps with
  | finished => cases hrunning
  | selected | gone =>
    cases performs
    exact h
  | unarmed id todo stage row found dropped =>
    cases performs with
    | lock id next hfree => exact h.lock hfree
  | nulled id todo stage row found selected =>
    cases performs with
    | update id new next hfree => exact h.write hfree found rfl

/-- A transaction that ends gives up its versions. -/
theorem Outcome.closed (h : Outcome rt settings s action s') (hactor : action.actor = some t)
    (hclosed : (s'.procs t).running = false) : s'.expenses.drafts t = ∅ := by
  have hend {effect : Effect} (performs : Performs s t effect s') (hends : effect.Ends) :
      s'.expenses.drafts t = ∅ := by
    rw [performs.proc] at hclosed
    obtain hrunning | rfl | ⟨next, rfl⟩ := hends
    · cases hclosed.symm.trans hrunning
    · cases performs
      exact Function.update_self ..
    · cases performs
      exact Function.update_self ..
  cases h with
  | started u request idle =>
    cases hactor
    rw [SyncSystem.setProc_procs] at hclosed
    cases request <;> cases hclosed
  | pushed u clock run running effect steps s' performs =>
    cases hactor
    exact hend performs steps.ends
  | swept u clock run running effect steps s' performs =>
    cases hactor
    exact hend performs steps.ends
  | nullified u clock run running effect steps s' performs =>
    cases hactor
    exact hend performs steps.ends
  | aborted u running =>
    cases hactor
    exact Function.update_self ..
  | ratesUpserted | pulled => cases hactor

/-- The step that commits a push. -/
theorem Outcome.commits (h : Outcome rt settings s action s') {returned : List Returned}
    (hreturned : committedReturned (s, action) = some (t, returned)) :
    ∃ run counted, s.procs t = .push run ∧ run.stage = .committing returned counted ∧
      s' = s.commit t (.answered run.user (run.scanned.order.map (resultFor run.rejects returned))) := by
  obtain ⟨clock, run, counted, rfl, hrun, hstage⟩ := committedReturned_eq_some hreturned
  refine ⟨run, counted, hrun, hstage, ?_⟩
  cases h with
  | pushed _ _ other running effect steps s' performs =>
    cases hrun.symm.trans running
    cases steps with
    | committed rest counted' stage =>
      cases hstage.symm.trans stage
      cases performs
      rfl
    | raised before => exact absurd hstage (before _ _)
    | devices stage | owners _ stage | drawn _ _ _ stage | inserted _ _ _ _ stage | updated _ _ _ _ stage
    | stale _ _ _ _ stage | written _ _ stage | uncounted _ stage | counted _ stage =>
      cases hstage.symm.trans stage
  | swept _ _ other running => cases hrun.symm.trans running
  | nullified _ _ other running => cases hrun.symm.trans running

/-- A step that commits no push commits nothing, or a transaction that has upserted nothing. -/
theorem Outcome.same_or_silent (h : Outcome rt settings s action s')
    (hnone : committedReturned (s, action) = none) :
    s'.expenses.committed = s.expenses.committed ∨
      ∃ t next, (s.procs t).running = true ∧ (s.procs t).silent = true ∧ s' = s.commit t next := by
  cases h with
  | pushed t clock run running effect steps s' performs =>
    cases steps with
    | committed returned counted stage =>
      cases (committedReturned_of_stage running stage).symm.trans hnone
    | raised | devices | owners | drawn | inserted | updated | stale | written | uncounted | counted =>
      exact .inl (performs.committed_same (by simp)).1
  | swept t clock run running effect steps s' performs =>
    cases steps with
    | finished =>
      cases performs
      exact .inr ⟨t, .done, by rw [running]; rfl, by rw [running]; rfl, rfl⟩
    | raised | selected | sameCurrency | firstRate | noFirstRate | secondRate | noSecondRate |
      updated | gone =>
      exact .inl (performs.committed_same (by simp)).1
  | nullified t clock run running effect steps s' performs =>
    cases steps with
    | finished =>
      cases performs
      exact .inr ⟨t, .done, by rw [running]; rfl, by rw [running]; rfl, rfl⟩
    | selected | nulled | unarmed | gone => exact .inl (performs.committed_same (by simp)).1
  | started | aborted | ratesUpserted | pulled => exact .inl rfl

theorem Outcome.not_ended (h : Outcome rt settings s action s') (hactor : action.actor = some t) :
    (s.procs t).running = true ∨ s.procs t = .idle := by
  cases h with
  | started u request idle =>
    cases hactor
    exact .inr idle
  | pushed u clock run running | swept u clock run running | nullified u clock run running =>
    cases hactor
    exact .inl (by rw [running]; rfl)
  | aborted u running =>
    cases hactor
    exact .inl running
  | ratesUpserted | pulled => cases hactor

theorem Outcome.placed_other (h : Outcome rt settings s action s') (hplaced : Placed trace s u)
    (hactor : action.actor ≠ some u) : Placed (trace ++ [(s, action)]) s' u := by
  have hsame := h.untouched hactor
  have hops := upsertsOf_other trace s hactor
  constructor
  · rw [hsame.proc, hsame.expenses]
    exact hplaced.closed
  · rw [hsame.proc, hops]
    exact hplaced.silent
  · rw [hsame.proc, hops]
    intro hrunning
    have hserves := hplaced.serves hrunning
    cases h with
    | started | ratesUpserted | pulled => exact hserves
    | pushed t clock run running effect steps s' performs =>
      exact hserves.performs performs fun heq ↦ hactor (congrArg some heq.symm)
    | swept t clock run running effect steps s' performs =>
      exact hserves.performs performs fun heq ↦ hactor (congrArg some heq.symm)
    | nullified t clock run running effect steps s' performs =>
      exact hserves.performs performs fun heq ↦ hactor (congrArg some heq.symm)
    | aborted t running => exact hserves.performs .rollback fun heq ↦ hactor (congrArg some heq.symm)
  · rw [hsame.proc]
    intro hmem
    rcases mem_commitOrder_snoc hmem with hold | ⟨returned, hreturned⟩
    · exact hplaced.ended hold
    · obtain ⟨clock, _, _, rfl, _⟩ := committedReturned_eq_some hreturned
      exact absurd rfl hactor

theorem Outcome.placed_actor (h : Outcome rt settings s action s') (hplaced : Placed trace s t)
    (hactor : action.actor = some t) : Placed (trace ++ [(s, action)]) s' t := by
  have hended : t ∈ commitOrder (trace ++ [(s, action)]) →
      (s'.procs t).running = false ∧ s'.procs t ≠ .idle := by
    intro hmem
    rcases mem_commitOrder_snoc hmem with hold | ⟨returned, hreturned⟩
    · have hclosed := hplaced.ended hold
      rcases h.not_ended hactor with hrunning | hidle
      · cases hclosed.1.symm.trans hrunning
      · exact absurd hidle hclosed.2
    · obtain ⟨run, counted, _, _, rfl⟩ := h.commits hreturned
      rw [SyncSystem.commit_procs]
      exact ⟨rfl, nofun⟩
  refine ⟨h.closed hactor, ?_, ?_, hended⟩
  · intro hsilent
    cases h with
    | started u request idle =>
      cases hactor
      rw [upsertsOf_none trace rfl]
      exact hplaced.silent (by rw [idle]; rfl)
    | pushed u clock run running effect steps s' performs =>
      cases hactor
      rw [performs.proc] at hsilent
      cases steps <;> cases hsilent
    | swept u clock run running =>
      cases hactor
      rw [upsertsOf_none trace (upserted_of_not_push fun other heq ↦ by cases running.symm.trans heq)]
      exact hplaced.silent (by rw [running]; rfl)
    | nullified u clock run running =>
      cases hactor
      rw [upsertsOf_none trace (upserted_of_not_push fun other heq ↦ by cases running.symm.trans heq)]
      exact hplaced.silent (by rw [running]; rfl)
    | aborted u running =>
      cases hactor
      rw [SyncSystem.rollback_procs] at hsilent
      cases hsilent
    | ratesUpserted | pulled => cases hactor
  · intro hrunning
    cases h with
    | started u request idle =>
      cases hactor
      have hdrafts := hplaced.closed (by rw [idle]; rfl)
      rw [upsertsOf_none trace rfl, hplaced.silent (by rw [idle]; rfl), SyncSystem.setProc_procs]
      cases request <;> exact .begin hdrafts
    | pushed u clock run running effect steps s' performs =>
      cases hactor
      have hserves := hplaced.serves (by rw [running]; rfl)
      rw [running] at hserves
      exact steps.serves running hserves performs hrunning
    | swept u clock run running effect steps s' performs =>
      cases hactor
      have hserves := hplaced.serves (by rw [running]; rfl)
      rw [running] at hserves
      rw [upsertsOf_none trace (upserted_of_not_push fun other heq ↦ by cases running.symm.trans heq)]
      exact steps.serves hserves performs hrunning
    | nullified u clock run running effect steps s' performs =>
      cases hactor
      have hserves := hplaced.serves (by rw [running]; rfl)
      rw [running] at hserves
      rw [upsertsOf_none trace (upserted_of_not_push fun other heq ↦ by cases running.symm.trans heq)]
      exact steps.serves hserves performs hrunning
    | aborted u running =>
      cases hactor
      rw [SyncSystem.rollback_procs] at hrunning
      cases hrunning
    | ratesUpserted | pulled => cases hactor

/-! ## The batch of a push -/

@[simp] def PushStage.todo : PushStage → List Insertion
  | .writing todo _ _ => todo
  | _ => []

/-- The statements after the two queries. -/
@[simp] def PushStage.upserting : PushStage → Bool
  | .devices | .owners _ => false
  | .writing .. | .counting _ | .committing .. => true

/-- The batch passes the checks of the push in the state that its second query saw. -/
structure PushRun.Checked (rt : Runtime) (run : PushRun) (t : ℕ) (insertions : List Insertion)
    (earlier : SyncSystem) : Prop where
  checked : ∃ validRecords, toInsertions rt validRecords = some insertions ∧
    checkOwners (ownedDeviceIds earlier.devices run.user (run.scanned.parsed.map (·.deviceId)))
      (existingOwners (earlier.expenses.view t) (run.scanned.parsed.map (·.id))) run.user run.scanned =
        (run.rejects, validRecords)

/-- What an open push has upserted and what it has left is its batch. -/
structure Batched (rt : Runtime) (trace : List (SyncSystem × SyncAction)) (s : SyncSystem) (t : ℕ)
    (run : PushRun) : Prop where
  owned : ∀ owned, run.stage = .owners owned →
    owned = ownedDeviceIds s.devices run.user (run.scanned.parsed.map (·.deviceId))
  unwritten : run.stage.upserting = false → upsertsOf trace t = []
  written : run.stage.upserting = true →
    ∃ insertions, (∃ entry ∈ trace, run.Checked rt t insertions entry.1) ∧
    insertions.map (Upsert.mk run.user run.now) =
      upsertsOf trace t ++ run.stage.todo.map (Upsert.mk run.user run.now)

/-- A statement that upserts nothing. -/
theorem Batched.goto {run : PushRun} (h : Batched rt trace s t run) (hnone : s.upserted action = none)
    {stage : PushStage} (hupserting : run.stage.upserting = true) (hkept : stage.upserting = true)
    (htodo : stage.todo = run.stage.todo) :
    Batched rt (trace ++ [(s, action)]) s' t { run with stage := stage } := by
  obtain ⟨insertions, ⟨entry, hmem, hchecked⟩, hall⟩ := h.written hupserting
  refine ⟨fun owned heq ↦ ?_, fun hfalse ↦ ?_, fun _ ↦ ?_⟩
  · dsimp only at heq
    rw [heq] at hkept
    cases hkept
  · cases hkept.symm.trans hfalse
  · refine ⟨insertions, ⟨entry, List.mem_append_left _ hmem, ⟨hchecked.checked⟩⟩, ?_⟩
    rw [upsertsOf_none trace hnone, hall, htodo]

/-- A statement that upserts the next row. -/
theorem Batched.next {run : PushRun} (h : Batched rt trace s t run) (hrun : s.procs t = .push run)
    {insertion : Insertion} {todo : List Insertion} {drawn : ℕ} {returned returned' : List Returned}
    (hstage : run.stage = .writing (insertion :: todo) (some drawn) returned) :
    Batched rt (trace ++ [(s, .advance t clock)]) s' t
    { run with stage := .writing todo none returned' } := by
  obtain ⟨insertions, ⟨entry, hmem, hchecked⟩, hall⟩ := h.written (by rw [hstage]; rfl)
  refine ⟨nofun, nofun, fun _ ↦ ⟨insertions, ⟨entry, List.mem_append_left _ hmem, ⟨hchecked.checked⟩⟩, ?_⟩⟩
  rw [upsertsOf_advance hrun hstage, hall, hstage]
  simp

theorem PushRun.Steps.batched {run next : PushRun} (steps : run.Steps rt s t clock effect)
    (hrun : s.procs t = .push run) (h : Batched rt trace s t run) (hnext : effect.next = .push next)
    (hdevices : s'.devices = s.devices) : Batched rt (trace ++ [(s, .advance t clock)]) s' t next := by
  cases steps with
  | raised | committed => cases hnext
  | devices stage =>
    cases hnext
    have hnone : s.upserted (.advance t clock) = none := upserted_eq_none hrun (by simp [stage])
    refine ⟨fun owned heq ↦ ?_, fun _ ↦ ?_, nofun⟩
    · cases heq
      rw [hdevices]
    · rw [upsertsOf_none trace hnone]
      exact h.unwritten (by rw [stage]; rfl)
  | owners owned stage rejects validRecords insertions checked fits =>
    cases hnext
    have hnone : s.upserted (.advance t clock) = none := upserted_eq_none hrun (by simp [stage])
    rw [h.owned owned stage] at checked
    refine ⟨nofun, nofun, fun _ ↦ ⟨insertions, ⟨_, List.mem_append_right _ (List.mem_singleton_self _),
      ⟨validRecords, fits, checked⟩⟩, ?_⟩⟩
    rw [upsertsOf_none trace hnone, h.unwritten (by rw [stage]; rfl)]
    rfl
  | drawn | written | uncounted | counted =>
    cases hnext
    refine h.goto (upserted_eq_none hrun (by simp [*])) ?_ rfl ?_ <;> simp [*]
  | stale insertion todo drawn returned stage | inserted insertion todo drawn returned stage
  | updated insertion todo drawn returned stage =>
    cases hnext
    exact h.next hrun stage

theorem Outcome.batched (h : Outcome rt settings s action s')
    (hbatched : ∀ run, s.procs t = .push run → Batched rt trace s t run) (hplaced : Placed trace s t)
    (run : PushRun) (hrun : s'.procs t = .push run) : Batched rt (trace ++ [(s, action)]) s' t run := by
  have hdevices := h.devices
  by_cases hactor : action.actor = some t
  · cases h with
    | started u request idle =>
      cases hactor
      rw [SyncSystem.setProc_procs] at hrun
      cases request with
      | push user batch now =>
        cases hrun
        refine ⟨nofun, fun _ ↦ ?_, nofun⟩
        rw [upsertsOf_none trace rfl]
        exact hplaced.silent (by rw [idle]; rfl)
      | sweep | nullify => cases hrun
    | pushed u clock old running effect steps s' performs =>
      cases hactor
      exact steps.batched running (hbatched old running) (performs.proc.symm.trans hrun) hdevices
    | swept u clock old running effect steps s' performs =>
      cases hactor
      rw [performs.proc] at hrun
      cases steps <;> cases hrun
    | nullified u clock old running effect steps s' performs =>
      cases hactor
      rw [performs.proc] at hrun
      cases steps <;> cases hrun
    | aborted u running =>
      cases hactor
      rw [SyncSystem.rollback_procs] at hrun
      cases hrun
    | ratesUpserted | pulled => cases hactor
  · have hbefore := hbatched run ((h.untouched hactor).proc.symm.trans hrun)
    have hops := upsertsOf_other trace s hactor
    refine ⟨?_, ?_, fun hupserting ↦ ?_⟩
    · rw [hdevices]
      exact hbefore.owned
    · rw [hops]
      exact hbefore.unwritten
    · obtain ⟨insertions, ⟨entry, hmem, hchecked⟩, hall⟩ := hbefore.written hupserting
      rw [hops]
      exact ⟨insertions, ⟨entry, List.mem_append_left _ hmem, hchecked⟩, hall⟩

/-! ## Every run -/

/-- The upserts of a committed push are as they were when it ended. -/
theorem Outcome.serialUpserts (h : Outcome rt settings s action s') (hplaced : ∀ t, Placed trace s t) :
    VoiceSpend.serialUpserts (trace ++ [(s, action)]) = VoiceSpend.serialUpserts trace ++
      ((committedReturned (s, action)).map Prod.fst).elim [] (upsertsOf trace) := by
  have hended {t : ℕ} (hmem : t ∈ commitOrder trace) :
      upsertsOf (trace ++ [(s, action)]) t = upsertsOf trace t := by
    apply upsertsOf_other
    intro hactor
    have hclosed := (hplaced t).ended hmem
    rcases h.not_ended hactor with hrunning | hidle
    · cases hclosed.1.symm.trans hrunning
    · exact hclosed.2 hidle
  unfold VoiceSpend.serialUpserts
  have horder : commitOrder (trace ++ [(s, action)]) =
      commitOrder trace ++ ((committedReturned (s, action)).map Prod.fst).toList := by
    unfold commitOrder
    rw [List.filterMap_append, List.filterMap_cons, List.filterMap_nil]
    cases committedReturned (s, action) <;> rfl
  rw [horder, List.flatMap_append, List.flatMap_congr fun t ↦ hended]
  congr 1
  cases hreturned : committedReturned (s, action) with
  | none => rfl
  | some push =>
    obtain ⟨clock, run, counted, rfl, hrun, hstage⟩ := committedReturned_eq_some hreturned
    rw [Option.map_some, Option.toList_some, List.flatMap_singleton,
      upsertsOf_none trace (upserted_eq_none hrun (by simp [hstage]))]
    rfl

/-- What a run from `expenses` keeps. -/
structure Serialized (rt : Runtime) (expenses : Table UUID Expense) (trace : List (SyncSystem × SyncAction))
    (s : SyncSystem) : Prop where
  placed : ∀ t, Placed trace s t
  batched : ∀ t run, s.procs t = .push run → Batched rt trace s t run
  store : coreOf Expense.pushed s.expenses.committed =
    upserts.run (coreOf Expense.pushed expenses) (serialUpserts trace)

variable {expenses : Table UUID Expense}

/-- A step makes of the pushed columns what the upserts of the push it commits make of them. -/
theorem Serialized.store_step (h : Serialized rt expenses trace s)
    (houtcome : Outcome rt settings s action s') : coreOf Expense.pushed s'.expenses.committed =
      upserts.run (coreOf Expense.pushed s.expenses.committed)
        (((committedReturned (s, action)).map Prod.fst).elim [] (upsertsOf trace)) := by
  have hcommit {t : ℕ} {next : Proc} (hrunning : (s.procs t).running = true) :
      coreOf Expense.pushed (s.commit t next).expenses.committed =
        upserts.run (coreOf Expense.pushed s.expenses.committed) (upsertsOf trace t) :=
    ((h.placed t).serves hrunning).hasRun.commit
  cases hreturned : committedReturned (s, action) with
  | some push =>
    obtain ⟨run, counted, hrun, hstage, rfl⟩ := houtcome.commits hreturned
    exact hcommit (by rw [hrun]; rfl)
  | none =>
    rcases houtcome.same_or_silent hreturned with hsame | ⟨t, next, hrunning, hsilent, rfl⟩
    · rw [hsame]
      rfl
    · rw [hcommit hrunning, (h.placed t).silent hsilent]
      rfl

theorem Serialized.snoc (h : Serialized rt expenses trace s) (houtcome : Outcome rt settings s action s') :
    Serialized rt expenses (trace ++ [(s, action)]) s' := by
  refine ⟨fun t ↦ ?_, fun t ↦ houtcome.batched (h.batched t) (h.placed t), ?_⟩
  · by_cases hactor : action.actor = some t
    · exact houtcome.placed_actor (h.placed t) hactor
    · exact houtcome.placed_other (h.placed t) hactor
  · rw [houtcome.serialUpserts h.placed, Operations.run_append, ← h.store]
    exact h.store_step houtcome

theorem serialized_of_run {users : Table UUID User} {devices : Table UUID Device} {fxRates : FxTable}
    {usage : UsageTable} {syncSeq : ℕ} {reader : UUID}
    (hrun : Run (SyncSystem.step rt settings) (fun _ _ ↦ True)
      (.ofTables users devices fxRates expenses usage syncSeq reader) trace s) :
    Serialized rt expenses trace s := by
  refine hrun.trace_invariant (Serialized rt expenses) ⟨fun t ↦ ?_, fun t run hidle ↦ (by cases hidle), rfl⟩
    fun trace s action s' h _ hstep ↦ h.snoc (SyncSystem.step_outcome hstep)
  exact ⟨fun _ ↦ rfl, fun _ ↦ rfl, nofun, nofun⟩

/-- What `RETURNING` says without the sequence values decides every status. -/
theorem resultFor_status_congr {returned returned' : List Returned}
    (h : returned.map Returned.flag = returned'.map Returned.flag) (rejects : UUID → Option String)
    (id : UUID) : (resultFor rejects returned id).status = (resultFor rejects returned' id).status := by
  have hfound (rows : List Returned) : (returnedFor rows id).isSome =
      (rows.map Returned.flag).any (·.1 = id) := by
    unfold returnedFor
    rw [Option.isSome_map, List.isSome_find?, List.any_map]
    rfl
  have hsome : (returnedFor returned id).isSome = (returnedFor returned' id).isSome := by
    rw [hfound, hfound, h]
  unfold resultFor
  cases rejects id with
  | some reason => rfl
  | none =>
    cases hreturned : returnedFor returned id <;> cases hreturned' : returnedFor returned' id <;>
      simp [hreturned, hreturned'] at hsome ⊢

/-- In every run the columns that pushes write are what the committed pushes make of the first ones, one
after the other in the order of their commits. A push that commits upserts a batch that passed its checks
in an earlier state, and its commit is that batch's upsert as one statement on the rows committed then:
the rows after it, and every status it answers. -/
theorem pushes_serializable {users : Table UUID User} {devices : Table UUID Device} {fxRates : FxTable}
    {usage : UsageTable} {syncSeq : ℕ} {reader : UUID}
    (hrun : Run (SyncSystem.step rt settings) (fun _ _ ↦ True)
      (.ofTables users devices fxRates expenses usage syncSeq reader) trace s) :
    coreOf Expense.pushed s.expenses.committed =
        upserts.run (coreOf Expense.pushed expenses) (serialUpserts trace) ∧
      ∀ before after : List (SyncSystem × SyncAction), ∀ state t clock run returned counted,
        trace = before ++ (state, .advance t clock) :: after → state.procs t = .push run →
        run.stage = .committing returned counted →
        ∃ insertions, (∃ entry ∈ before, run.Checked rt t insertions entry.1) ∧
          upsertsOf before t = insertions.map (Upsert.mk run.user run.now) ∧
          let atomic := bulkUpsert run.user run.now state.expenses.committed state.syncSeq insertions
          coreOf Expense.pushed (state.expenses.commit t).committed = coreOf Expense.pushed atomic.expenses ∧
            ∀ id, (resultFor run.rejects returned id).status =
              (resultFor run.rejects atomic.returned id).status := by
  refine ⟨(serialized_of_run hrun).store, ?_⟩
  intro before after state t clock run returned counted htrace hproc hstage
  have h := serialized_of_run (hrun.before htrace).1
  obtain ⟨insertions, hchecked, hall⟩ := (h.batched t run hproc).written (by rw [hstage]; rfl)
  simp only [hstage, PushStage.todo, List.map_nil, List.append_nil] at hall
  obtain ⟨hstore, hflags⟩ := bulkUpsert_pushed run.user run.now state.expenses.committed state.syncSeq
    insertions
  have hserves := (h.placed t).serves (by rw [hproc]; rfl)
  simp only [hproc, Proc.returned, hstage, PushStage.returned] at hserves
  rw [← hall] at hserves
  exact ⟨insertions, hchecked, hall.symm, hserves.hasRun.commit.trans hstore.symm,
    fun id ↦ resultFor_status_congr (hserves.flags.trans hflags.symm) run.rejects id⟩

/-- Two pushes of the expense `3` that both checked their batches before the first one wrote it. -/
def overlappingPushes (first second : RawRecord) : List SyncAction :=
  SyncSystem.transaction 0 (.push ⟨1⟩ [first] 0) 2 ++ SyncSystem.transaction 1 (.push ⟨1⟩ [second] 0) 3 ++
    List.replicate 5 (.advance 0 0) ++ List.replicate 4 (.advance 1 0)

theorem pushes_serializable_overlapping : ∃ trace s, commitOrder trace = [0, 1] ∧
    (serialUpserts trace).map (·.insertion.client.clientRev) = [1, 2] ∧
    coreOf Expense.pushed (s : SyncSystem).expenses.committed =
      upserts.run (coreOf Expense.pushed ∅) (serialUpserts trace) := by
  let step := SyncSystem.step .ascii sampleSettings
  let actions := overlappingPushes (sampleExpense 12 1) (sampleExpense 13 2)
  have hexec : (exec step .sample actions).isSome := by decide +kernel
  have horder : commitOrder (traceOf step .sample actions) = [0, 1] := by decide +kernel
  have hserial : (serialUpserts (traceOf step .sample actions)).map (·.insertion.client.clientRev) =
      [1, 2] := by decide +kernel
  obtain ⟨s, hs⟩ := Option.isSome_iff_exists.mp hexec
  exact ⟨_, s, horder, hserial, (pushes_serializable (run_of_exec hs)).1⟩

end

end VoiceSpend
