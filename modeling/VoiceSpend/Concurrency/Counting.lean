import VoiceSpend.Concurrency.Steps

/-!
# Metering counts every new expense exactly once

`Tally` is what holds between the versions of one open transaction and the committed tables:
the rows it will add are exactly the ones it reports as inserted, all for its user, and its
counter version is the committed counter plus their number. It survives the steps of every
other transaction, because rows with uncommitted versions are locked. At a commit it makes
both sides of the balance grow alike.
-/

namespace VoiceSpend

open Machine

/-! ## What a process has done so far -/

/-- The rows of `RETURNING` so far. -/
@[simp] def PushStage.returned : PushStage → List Returned
  | .devices | .owners _ => []
  | .writing _ _ returned | .counting returned | .committing returned _ => returned

/-- The clock of the push's counter update. -/
@[simp] def PushStage.counted : PushStage → Option Instant
  | .committing _ counted => counted
  | _ => none

/-- The next statement is the commit. -/
@[simp] def PushStage.finished : PushStage → Bool
  | .committing .. => true
  | _ => false

/-- The user of an open push. -/
@[simp] def Proc.pusher : Proc → Option UUID
  | .push run => some run.user
  | _ => none

@[simp] def Proc.returned : Proc → List Returned
  | .push run => run.stage.returned
  | _ => []

@[simp] def Proc.counted : Proc → Option Instant
  | .push run => run.stage.counted
  | _ => none

@[simp] def Proc.finished : Proc → Bool
  | .push run => run.stage.finished
  | _ => false

theorem insertedIds_append (first second : List Returned) :
    insertedIds (first ++ second) = insertedIds first ++ insertedIds second := by
  unfold insertedIds
  rw [List.filter_append, List.map_append]

theorem length_insertedIds (returned : List Returned) : (insertedIds returned).length = newCount returned :=
  List.length_map _

/-! ## The tally of one transaction -/

/-- The counter version of a transaction: none, or the committed counter plus the new rows. -/
inductive CounterDraft (usage : Versioned (UUID × Period) UsageCounter ℕ) (t : ℕ) (proc : Proc) : Prop
  | untouched (empty : usage.drafts t = ∅) (uncounted : proc.counted = none)
  | added (user : UUID) (clock now : Instant) (counter : UsageCounter) (pusher : proc.pusher = some user)
      (counted : proc.counted = some clock) (nonzero : newCount proc.returned ≠ 0)
      (draft : usage.drafts t = AList.singleton (user, currentPeriod clock) counter)
      (sum : addToCounter (usage.committed.lookup (user, currentPeriod clock)) (newCount proc.returned) now =
        some counter)

/-- The versions of one transaction against the committed tables. -/
structure Tally (expenses : Versioned UUID Expense ℕ) (usage : Versioned (UUID × Period) UsageCounter ℕ)
    (t : ℕ) (proc : Proc) : Prop where
  owner : ∀ id row, (expenses.drafts t).lookup id = some row →
    ((expenses.committed.lookup id).map Expense.userId).or proc.pusher = some row.userId
  inserted : ∀ id, id ∈ insertedIds proc.returned ↔
    id ∈ expenses.drafts t ∧ expenses.committed.lookup id = none
  nodup : (insertedIds proc.returned).Nodup
  counter : CounterDraft usage t proc
  complete : proc.finished = true → proc.counted = none → newCount proc.returned = 0

section

variable {rt : Runtime} {settings : Settings} {s s' : SyncSystem} {t u : ℕ} {clock : Instant}
  {effect : Effect} {action : SyncAction} {proc next : Proc} {expenses : Versioned UUID Expense ℕ}
  {usage : Versioned (UUID × Period) UsageCounter ℕ}

/-- The steps of other transactions keep the tally. -/
theorem Tally.untouched (h : Tally s.expenses s.usage u (s.procs u)) (hsame : Untouched u s s') :
    Tally s'.expenses s'.usage u (s'.procs u) := by
  rw [hsame.proc]
  constructor
  · intro id row hrow
    rw [hsame.expenses] at hrow
    rw [hsame.committed id (Versioned.mem_drafts_of_lookup hrow)]
    exact h.owner id row hrow
  · intro id
    rw [hsame.expenses, h.inserted id]
    constructor
    · rintro ⟨hmem, hnone⟩
      exact ⟨hmem, (hsame.committed id hmem).trans hnone⟩
    · rintro ⟨hmem, hnone⟩
      exact ⟨hmem, (hsame.committed id hmem).symm.trans hnone⟩
  · exact h.nodup
  · cases h.counter with
    | untouched empty uncounted => exact .untouched (hsame.usage.trans empty) uncounted
    | added user clock now counter pusher counted nonzero draft sum =>
      have hmem : (user, currentPeriod clock) ∈ s.usage.drafts u := by
        rw [draft]
        exact AList.mem_keys.mpr (List.mem_singleton_self _)
      refine .added user clock now counter pusher counted nonzero (hsame.usage.trans draft) ?_
      rw [hsame.counted _ hmem]
      exact sum
  · exact h.complete

/-- A statement that writes nothing and returns nothing. -/
theorem Tally.goto (h : Tally expenses usage t proc)
    (hpusher : proc.pusher = none ∨ next.pusher = proc.pusher) (hreturned : next.returned = proc.returned)
    (hproc : proc.counted = none) (hcounted : next.counted = none)
    (hcomplete : next.finished = true → newCount proc.returned = 0) : Tally expenses usage t next := by
  refine ⟨fun id row hrow ↦ ?_, ?_, ?_, ?_, fun hfinished _ ↦ hreturned ▸ hcomplete hfinished⟩
  · have howner := h.owner id row hrow
    rcases hpusher with hnone | hsame
    · rw [hnone, Option.or_none] at howner
      rw [howner, Option.some_or]
    · rw [hsame]
      exact howner
  · rw [hreturned]
    exact h.inserted
  · rw [hreturned]
    exact h.nodup
  · cases h.counter with
    | untouched empty _ => exact .untouched empty hcounted
    | added user clock now counter pusher counted =>
      rw [hproc] at counted
      cases counted

/-- A transaction that has ended has no versions. -/
theorem Tally.ended (hexpenses : expenses.drafts t = ∅) (husage : usage.drafts t = ∅)
    (hreturned : next.returned = []) (hcounted : next.counted = none) :
    Tally expenses usage t next := by
  refine ⟨fun id row hrow ↦ ?_, fun id ↦ ?_, ?_, .untouched husage hcounted, ?_⟩
  · rw [hexpenses, AList.lookup_empty] at hrow
    cases hrow
  · rw [hreturned, hexpenses]
    simp [insertedIds]
  · rw [hreturned]
    exact List.nodup_nil
  · intro _ _
    rw [hreturned]
    rfl

/-- An update keeps the owner and adds no row. -/
theorem Tally.update (h : Tally expenses usage t proc) {id : UUID} {old row : Expense}
    (hfree : expenses.Free t id) (found : expenses.visible t id = some old) (hrow : row.userId = old.userId)
    (hpusher : next.pusher = proc.pusher) (hids : insertedIds next.returned = insertedIds proc.returned)
    (hproc : proc.counted = none) (hcounted : next.counted = none)
    (hfinished : next.finished = false) :
    Tally (expenses.write t id row hfree) usage t next := by
  have hold : ((expenses.committed.lookup id).map Expense.userId).or proc.pusher = some old.userId := by
    cases hdraft : (expenses.drafts t).lookup id with
    | some draft =>
      rw [Versioned.visible_of_draft hdraft] at found
      cases found
      exact h.owner id old hdraft
    | none =>
      rw [Versioned.visible_of_lookup_drafts hdraft] at found
      rw [found, Option.map_some, Option.some_or]
  refine ⟨fun other new hnew ↦ ?_, fun other ↦ ?_, hids ▸ h.nodup, ?_, ?_⟩
  · rw [Versioned.lookup_write_drafts] at hnew
    rw [Versioned.write_committed, hpusher]
    split at hnew
    · rename_i hboth
      cases hnew
      rw [hboth.2, hrow]
      exact hold
    · exact h.owner other new hnew
  · rw [hids, h.inserted other, Versioned.write_committed, Versioned.write_drafts, Function.update_self,
      AList.mem_insert]
    constructor
    · rintro ⟨hmem, hnone⟩
      exact ⟨.inr hmem, hnone⟩
    · rintro ⟨rfl | hmem, hnone⟩
      · -- a visible row that is not committed is one of the transaction's own
        have hdraft : ((expenses.drafts t).lookup other).isSome := by
          rw [Versioned.visible, hnone, Option.or_none] at found
          rw [found]
          rfl
        exact ⟨AList.lookup_isSome.mp hdraft, hnone⟩
      · exact ⟨hmem, hnone⟩
  · cases h.counter with
    | untouched empty _ => exact .untouched empty hcounted
    | added user clock now counter pusher counted =>
      rw [hproc] at counted
      cases counted
  · intro h
    rw [hfinished] at h
    cases h

/-- An insertion adds the row it returns. -/
theorem Tally.insert (h : Tally expenses usage t proc) {id : UUID} {row : Expense} (drawn : ℕ)
    (hfree : expenses.Free t id) (fresh : expenses.visible t id = none)
    (hrow : next.pusher = some row.userId) (hpusher : next.pusher = proc.pusher)
    (hreturned : next.returned = proc.returned ++ [⟨id, drawn, true⟩])
    (hproc : proc.counted = none) (hcounted : next.counted = none)
    (hfinished : next.finished = false) :
    Tally (expenses.write t id row hfree) usage t next := by
  obtain ⟨hdraft, hcommitted⟩ := Option.or_eq_none_iff.mp fresh
  have hids : insertedIds next.returned = insertedIds proc.returned ++ [id] := by
    rw [hreturned, insertedIds_append]
    rfl
  refine ⟨fun other new hnew ↦ ?_, fun other ↦ ?_, ?_, ?_, ?_⟩
  · rw [Versioned.lookup_write_drafts] at hnew
    rw [Versioned.write_committed]
    split at hnew
    · rename_i hboth
      cases hnew
      rw [hboth.2, hcommitted, hrow]
      rfl
    · rw [hpusher]
      exact h.owner other new hnew
  · rw [hids, List.mem_append, List.mem_singleton, h.inserted other, Versioned.write_committed,
      Versioned.write_drafts, Function.update_self, AList.mem_insert]
    constructor
    · rintro (⟨hmem, hnone⟩ | rfl)
      · exact ⟨.inr hmem, hnone⟩
      · exact ⟨.inl rfl, hcommitted⟩
    · rintro ⟨rfl | hmem, hnone⟩
      · exact .inr rfl
      · exact .inl ⟨hmem, hnone⟩
  · rw [hids, List.nodup_append]
    refine ⟨h.nodup, List.nodup_singleton _, fun other hother last hlast ↦ ?_⟩
    rintro rfl
    rw [List.mem_singleton.mp hlast] at hother
    exact AList.lookup_eq_none.mp hdraft ((h.inserted id).mp hother).1
  · cases h.counter with
    | untouched empty _ => exact .untouched empty hcounted
    | added user clock now counter pusher counted =>
      rw [hproc] at counted
      cases counted
  · intro h
    rw [hfinished] at h
    cases h

/-- The statement that writes the counter. -/
theorem Tally.count {run : PushRun} (h : Tally expenses usage t (.push run)) {returned : List Returned}
    (stage : run.stage = .counting returned) (nonzero : newCount returned ≠ 0) {counter : UsageCounter}
    (hfree : usage.Free t (run.user, currentPeriod clock))
    (added : addToCounter (usage.visible t (run.user, currentPeriod clock)) (newCount returned) run.now =
      some counter) :
    Tally expenses (usage.write t (run.user, currentPeriod clock) counter hfree) t
      (.push { run with stage := .committing returned (some clock) }) := by
  have hreturned : (Proc.push run).returned = returned := by simp [stage]
  have hempty : usage.drafts t = ∅ := by
    cases h.counter with
    | untouched empty _ => exact empty
    | added user clock now counter pusher counted => simp [stage] at counted
  refine ⟨h.owner, fun id ↦ ?_, ?_, ?_, ?_⟩
  · rw [← h.inserted id, hreturned]
    rfl
  · rw [← hreturned]
    exact h.nodup
  · refine .added run.user clock run.now counter rfl rfl nonzero ?_ ?_
    · rw [Versioned.write_drafts, Function.update_self, hempty, AList.insert_empty]
    · rw [Versioned.visible_of_lookup_drafts (by rw [hempty, AList.lookup_empty])] at added
      exact added
  · intro _ h
    cases h

/-! ## One step -/

theorem Tally.lock (h : Tally expenses usage t proc) {id : UUID} (hfree : expenses.Free t id) :
    Tally (expenses.lock t id hfree) usage t proc :=
  ⟨h.owner, h.inserted, h.nodup, h.counter, h.complete⟩

/-- The end of a transaction, by commit or rollback. -/
theorem Tally.of_ended (next : Proc) (hend : effect = .rollback ∨ effect = .commit next)
    (hreturned : next.returned = []) (hcounted : next.counted = none) (performs : Performs s t effect s') :
    Tally s'.expenses s'.usage t (s'.procs t) := by
  rw [performs.proc]
  obtain rfl | rfl := hend
  · cases performs
    exact .ended (Function.update_self ..) (Function.update_self ..) rfl rfl
  · cases performs
    exact .ended (Function.update_self ..) (Function.update_self ..) hreturned hcounted

/-- Every statement of a push keeps its tally. -/
theorem PushRun.Steps.tally {run : PushRun} (steps : run.Steps rt s t clock effect)
    (h : Tally s.expenses s.usage t (.push run)) (performs : Performs s t effect s') :
    Tally s'.expenses s'.usage t (s'.procs t) := by
  have hproc := performs.proc
  cases steps with
  | raised => exact .of_ended .failed (.inl rfl) rfl rfl performs
  | committed returned counted stage => exact .of_ended _ (.inr rfl) rfl rfl performs
  | devices | owners | drawn | written =>
    cases performs
    rw [hproc]
    refine h.goto (.inr rfl) ?_ ?_ ?_ ?_ <;> simp [*, Effect.next]
  | stale insertion todo drawn returned stage row found notNewer =>
    cases performs with
    | lock id next hfree =>
      rw [hproc]
      refine (h.lock hfree).goto (.inr rfl) ?_ ?_ ?_ ?_ <;> simp [stage, Effect.next]
  | uncounted returned stage zero =>
    cases performs
    rw [hproc]
    refine h.goto (.inr rfl) ?_ ?_ ?_ ?_ <;> simp [stage, zero, Effect.next]
  | inserted insertion todo drawn returned stage fresh =>
    cases performs with
    | insert id row next hfree =>
      rw [hproc]
      refine h.insert drawn hfree fresh rfl rfl ?_ ?_ ?_ ?_ <;> simp [stage, Effect.next]
  | updated insertion todo drawn returned stage row found newer =>
    cases performs with
    | update id new next hfree =>
      rw [hproc]
      refine h.update hfree found rfl rfl ?_ ?_ ?_ ?_ <;> simp [stage, Effect.next, insertedIds]
  | counted returned stage nonzero counter added =>
    cases performs with
    | count key counter next hfree =>
      rw [hproc]
      exact h.count stage nonzero hfree added

theorem SweepRun.Steps.tally {run : SweepRun} (steps : run.Steps settings s t effect)
    (h : Tally s.expenses s.usage t (.sweep run)) (performs : Performs s t effect s') :
    Tally s'.expenses s'.usage t (s'.procs t) := by
  have hproc := performs.proc
  cases steps with
  | raised => exact .of_ended .failed (.inl rfl) rfl rfl performs
  | finished => exact .of_ended _ (.inr rfl) rfl rfl performs
  | selected | sameCurrency | firstRate | noFirstRate | secondRate | noSecondRate | gone =>
    cases performs
    rw [hproc]
    refine h.goto (.inl rfl) ?_ ?_ ?_ ?_ <;> simp [Effect.next]
  | updated row amountBase todo stage stored fits current found =>
    cases performs with
    | update id new next hfree =>
      rw [hproc]
      refine h.update hfree found rfl rfl ?_ ?_ ?_ ?_ <;> simp [Effect.next]

theorem NullifyRun.Steps.tally {run : NullifyRun} (steps : run.Steps s t effect)
    (h : Tally s.expenses s.usage t (.nullify run)) (performs : Performs s t effect s') :
    Tally s'.expenses s'.usage t (s'.procs t) := by
  have hproc := performs.proc
  cases steps with
  | finished => exact .of_ended _ (.inr rfl) rfl rfl performs
  | selected | gone =>
    cases performs
    rw [hproc]
    refine h.goto (.inl rfl) ?_ ?_ ?_ ?_ <;> simp [Effect.next]
  | unarmed id todo stage row found dropped =>
    cases performs with
    | lock id next hfree =>
      rw [hproc]
      refine (h.lock hfree).goto (.inl rfl) ?_ ?_ ?_ ?_ <;> simp [Effect.next]
  | nulled id todo stage row found selected =>
    cases performs with
    | update id new next hfree =>
      rw [hproc]
      refine h.update hfree found rfl rfl ?_ ?_ ?_ ?_ <;> simp [Effect.next]

/-- Every step keeps every tally. -/
theorem Outcome.tally (h : Outcome rt settings s action s')
    (hall : ∀ u, Tally s.expenses s.usage u (s.procs u)) (u : ℕ) :
    Tally s'.expenses s'.usage u (s'.procs u) := by
  by_cases hactor : action.actor = some u
  · cases h with
    | started t request idle =>
      cases hactor
      have h := hall u
      rw [idle] at h
      rw [SyncSystem.setProc_procs]
      refine h.goto (.inl rfl) ?_ ?_ ?_ ?_ <;> cases request <;> simp [SyncRequest.proc]
    | pushed t clock run running effect steps s' performs =>
      cases hactor
      exact steps.tally (running ▸ hall u) performs
    | swept t clock run running effect steps s' performs =>
      cases hactor
      exact steps.tally (running ▸ hall u) performs
    | nullified t clock run running effect steps s' performs =>
      cases hactor
      exact steps.tally (running ▸ hall u) performs
    | aborted t running =>
      cases hactor
      exact .of_ended .failed (.inl rfl) rfl rfl .rollback
    | ratesUpserted | pulled => cases hactor
  · exact (hall u).untouched (h.untouched hactor)

/-! ## Commits -/

/-- A commit adds the returned insertions to the rows of the push's user. -/
theorem Tally.expenseCount_view (h : Tally expenses usage t proc) (user : UUID) :
    expenseCount (expenses.view t) user = expenseCount expenses.committed user +
      if proc.pusher = some user then newCount proc.returned else 0 := by
  let new (id : UUID) (_ : Expense) : ℕ := if id ∈ insertedIds proc.returned then 1 else 0
  have hextra : ∀ id row, (expenses.drafts t).lookup id = some row →
      (if row.userId = user then 1 else 0) =
        Table.weightAt (fun _ row ↦ if row.userId = user then 1 else 0) expenses.committed id +
          if proc.pusher = some user then new id row else 0 := by
    intro id row hrow
    have howner := h.owner id row hrow
    have hmem := Versioned.mem_drafts_of_lookup hrow
    have hinserted := h.inserted id
    unfold Table.weightAt
    cases hcommitted : expenses.committed.lookup id with
    | some old =>
      rw [hcommitted, Option.map_some, Option.some_or, Option.some.injEq] at howner
      rw [hcommitted] at hinserted
      have hnot : id ∉ insertedIds proc.returned := fun hin ↦ Option.some_ne_none _ (hinserted.mp hin).2
      have hzero : new id row = 0 := if_neg hnot
      rw [hzero, ite_self, add_zero, Option.elim_some]
      dsimp only
      rw [howner]
    | none =>
      rw [hcommitted, Option.map_none, Option.none_or] at howner
      have hin := hinserted.mpr ⟨hmem, hcommitted⟩
      have hone : new id row = 1 := if_pos hin
      rw [hone, howner, Option.elim_none, zero_add]
      simp only [Option.some.injEq]
  have htotal := Table.total_union_of_extra _ _ (expenses.drafts t) expenses.committed hextra
  have hnew : Table.total new (expenses.drafts t) = newCount proc.returned := by
    rw [Table.total_indicator _ h.nodup fun id hid ↦ ((h.inserted id).mp hid).1, length_insertedIds]
  unfold expenseCount
  rw [Versioned.view, htotal]
  split
  · rw [← hnew]
  · rw [Table.total_zero]

/-- A transaction that has not counted leaves the counters alone. -/
theorem Tally.usage_view_of_uncounted (h : Tally expenses usage t proc) (huncounted : proc.counted = none) :
    usage.view t = usage.committed := by
  cases h.counter with
  | untouched empty _ => rw [Versioned.view, empty, AList.empty_union]
  | added user clock now counter pusher counted =>
    rw [huncounted] at counted
    cases counted

/-- The commit of a push adds the number of its insertions to one counter, at its clock. -/
theorem Tally.usage_view {run : PushRun} (h : Tally expenses usage t (.push run)) {returned : List Returned}
    {counted : Option Instant} (stage : run.stage = .committing returned counted) :
    ∃ clock now, (newCount returned ≠ 0 → counted = some clock) ∧
      incrementUsage usage.committed run.user (currentPeriod clock) (newCount returned) now =
        some (usage.view t) := by
  cases h.counter with
  | untouched empty uncounted =>
    have hnone : counted = none := by simpa [stage] using uncounted
    have hzero : newCount returned = 0 := by simpa [stage] using h.complete (by simp [stage]) uncounted
    refine ⟨0, 0, fun hne ↦ absurd hzero hne, ?_⟩
    rw [hzero, Versioned.view, empty, AList.empty_union]
    rfl
  | added user clock now counter pusher hcounted nonzero draft sum =>
    obtain rfl : run.user = user := Option.some.inj pusher
    have hclock : counted = some clock := by simpa [stage] using hcounted
    have hreturned : (Proc.push run).returned = returned := by simp [stage]
    refine ⟨clock, now, fun _ ↦ hclock, ?_⟩
    have hview : usage.view t = usage.committed.insert (run.user, currentPeriod clock) counter := by
      rw [Versioned.view, draft, ← AList.insert_empty, ← AList.insert_union, AList.empty_union]
    rw [hreturned] at sum nonzero
    rw [incrementUsage, if_neg nonzero, sum, Option.map_some, hview]

end

/-! ## Whole runs -/

/-- A push that commits: its user, the clock it read, and the ids it inserted. -/
structure CommittedPush where
  user : UUID
  counted : Option Instant
  inserted : List UUID
  deriving DecidableEq, Repr

/-- What it adds to one counter. -/
def CommittedPush.adds (push : CommittedPush) (user : UUID) (period : Period) : ℕ :=
  if push.user = user ∧ push.counted.map currentPeriod = some period then push.inserted.length else 0

/-- The push that this step of a run commits. -/
def committedPush : SyncSystem × SyncAction → Option CommittedPush
  | (s, .advance t _) =>
    match s.procs t with
    | .push ⟨user, _, _, _, .committing returned counted⟩ => some ⟨user, counted, insertedIds returned⟩
    | _ => none
  | _ => none

/-- The commit of a push adds its newly inserted rows, and their number to the counter of its
user at its clock; no other counter changes. -/
structure Recorded (before after : SyncSystem) (push : CommittedPush) : Prop where
  nodup : push.inserted.Nodup
  inserted : ∀ id, id ∈ push.inserted ↔
    before.expenses.committed.lookup id = none ∧ (after.expenses.committed.lookup id).isSome
  kept : ∀ id, (before.expenses.committed.lookup id).isSome → (after.expenses.committed.lookup id).isSome
  rows : ∀ user, expenseCount after.expenses.committed user =
    expenseCount before.expenses.committed user + if push.user = user then push.inserted.length else 0
  clock : push.inserted ≠ [] → push.counted.isSome
  counter : ∀ user period, usageCount after.usage.committed user period =
    usageCount before.usage.committed user period + push.adds user period
  total : ∀ user, usageTotal after.usage.committed user =
    usageTotal before.usage.committed user + if push.user = user then push.inserted.length else 0

section

variable {rt : Runtime} {settings : Settings} {s s' : SyncSystem} {action : SyncAction}
  {push : CommittedPush}

theorem committedPush_eq_some (h : committedPush (s, action) = some push) :
    ∃ t clock run returned counted, action = .advance t clock ∧ s.procs t = .push run ∧
      run.stage = .committing returned counted ∧ push = ⟨run.user, counted, insertedIds returned⟩ := by
  unfold committedPush at h
  split at h
  · rename_i other t clock heq
    cases heq
    split at h
    · rename_i user scanned rejects now returned counted hrun
      cases h
      exact ⟨t, clock, _, returned, counted, rfl, hrun, rfl, rfl⟩
    · cases h
  · cases h

theorem committedPush_of_stage {t : ℕ} {clock : Instant} {run : PushRun} {returned : List Returned}
    {counted : Option Instant} (hrun : s.procs t = .push run)
    (hstage : run.stage = .committing returned counted) :
    committedPush (s, .advance t clock) = some ⟨run.user, counted, insertedIds returned⟩ := by
  obtain ⟨user, scanned, rejects, now, stage⟩ := run
  subst hstage
  simp only [committedPush, hrun]

theorem Tally.recorded {t : ℕ} {run : PushRun} {returned : List Returned} {counted : Option Instant}
    (h : Tally s.expenses s.usage t (.push run)) (hstage : run.stage = .committing returned counted)
    (next : Proc) : Recorded s (s.commit t next) ⟨run.user, counted, insertedIds returned⟩ := by
  have hreturned : (Proc.push run).returned = returned := by simp [hstage]
  have hinserted := h.inserted
  have hrows := h.expenseCount_view
  rw [hreturned] at hinserted hrows
  obtain ⟨clock, now, hclock, hincrement⟩ := h.usage_view hstage
  have hzero : counted = none → newCount returned = 0 := fun hnone ↦ by
    by_contra hne
    rw [hnone] at hclock
    cases hclock hne
  refine ⟨hreturned ▸ h.nodup, fun id ↦ ?_, fun id hsome ↦ ?_, fun user ↦ ?_, fun hne ↦ ?_,
    fun user period ↦ ?_, fun user ↦ ?_⟩
  · rw [hinserted id]
    change _ ↔ _ ∧ ((s.expenses.commit t).committed.lookup id).isSome
    rw [Versioned.lookup_commit, Versioned.visible]
    constructor
    · rintro ⟨hmem, hnone⟩
      refine ⟨hnone, ?_⟩
      rw [Option.isSome_or, AList.lookup_isSome.mpr hmem, Bool.true_or]
    · rintro ⟨hnone, hsome⟩
      rw [hnone, Option.or_none] at hsome
      exact ⟨AList.lookup_isSome.mp hsome, hnone⟩
  · change ((s.expenses.commit t).committed.lookup id).isSome
    rw [Versioned.lookup_commit, Versioned.visible, Option.isSome_or, hsome, Bool.or_true]
  · rw [length_insertedIds]
    change expenseCount (s.expenses.view t) user = _
    rw [hrows user]
    simp
  · rw [Option.isSome_iff_ne_none]
    intro hnone
    exact hne (List.length_eq_zero_iff.mp ((length_insertedIds returned).trans (hzero hnone)))
  · unfold CommittedPush.adds
    rw [length_insertedIds]
    change usageCount (s.usage.view t) user period = _
    rw [usageCount_incrementUsage hincrement]
    congr 1
    by_cases hnew : newCount returned = 0
    · simp [hnew]
    · simp [hclock hnew, eq_comm]
  · rw [length_insertedIds]
    change usageTotal (s.usage.view t) user = _
    rw [usageTotal_incrementUsage hincrement]
    simp [eq_comm]

/-- A step that commits a push. -/
theorem Outcome.recorded (h : Outcome rt settings s action s')
    (hall : ∀ u, Tally s.expenses s.usage u (s.procs u)) (hpush : committedPush (s, action) = some push) :
    Recorded s s' push := by
  obtain ⟨t, clock, run, returned, counted, rfl, hrun, hstage, rfl⟩ := committedPush_eq_some hpush
  cases h with
  | pushed _ _ other running effect steps s' performs =>
    cases hrun.symm.trans running
    cases steps with
    | committed rest counted' stage =>
      cases hstage.symm.trans stage
      cases performs
      exact (hrun ▸ hall t).recorded hstage _
    | raised before => exact absurd hstage (before _ _)
    | devices stage | owners _ stage | drawn _ _ _ stage | inserted _ _ _ _ stage | updated _ _ _ _ stage
    | stale _ _ _ _ stage | written _ _ stage | uncounted _ stage | counted _ stage =>
      cases hstage.symm.trans stage
  | swept _ _ other running => cases hrun.symm.trans running
  | nullified _ _ other running => cases hrun.symm.trans running

/-- The counters, the number of rows of every user and the set of stored ids are as before. -/
structure Unrecorded (before after : SyncSystem) : Prop where
  usage : after.usage.committed = before.usage.committed
  rows : ∀ user, expenseCount after.expenses.committed user = expenseCount before.expenses.committed user
  stored : ∀ id, (after.expenses.committed.lookup id).isSome ↔ (before.expenses.committed.lookup id).isSome

/-- Every step but the commit of a push. -/
theorem Outcome.unrecorded (h : Outcome rt settings s action s')
    (hall : ∀ u, Tally s.expenses s.usage u (s.procs u)) (hpush : committedPush (s, action) = none) :
    Unrecorded s s' := by
  have hsame {t : ℕ} {effect : Effect} (performs : Performs s t effect s')
      (hne : ∀ next, effect ≠ .commit next) : Unrecorded s s' := by
    obtain ⟨hexpenses, husage⟩ := performs.committed_same hne
    exact ⟨husage, fun user ↦ by rw [hexpenses], fun id ↦ by rw [hexpenses]⟩
  -- sweeps and invalidations commit versions of existing rows only
  have hcommit {t : ℕ} {proc next : Proc} (h : Tally s.expenses s.usage t proc) (hpusher : proc.pusher = none)
      (hreturned : proc.returned = []) (hcounted : proc.counted = none) : Unrecorded s (s.commit t next) := by
    refine ⟨h.usage_view_of_uncounted hcounted, fun user ↦ ?_, fun id ↦ ?_⟩
    · change expenseCount (s.expenses.view t) user = _
      rw [h.expenseCount_view, hpusher, if_neg (by simp), add_zero]
    · change ((s.expenses.commit t).committed.lookup id).isSome ↔ _
      rw [Versioned.lookup_commit, Versioned.visible, Option.isSome_or, Bool.or_eq_true]
      refine ⟨fun hsome ↦ hsome.elim (fun hdraft ↦ ?_) (fun hcommitted ↦ hcommitted), .inr⟩
      rw [Option.isSome_iff_ne_none]
      intro hnone
      have hin := (h.inserted id).mpr ⟨AList.lookup_isSome.mp hdraft, hnone⟩
      rw [hreturned] at hin
      cases hin
  cases h with
  | pushed t clock run running effect steps s' performs =>
    cases steps with
    | committed returned counted stage =>
      rw [committedPush_of_stage running stage] at hpush
      cases hpush
    | raised | devices | owners | drawn | inserted | updated | stale | written | uncounted | counted =>
      exact hsame performs (by simp)
  | swept t clock run running effect steps s' performs =>
    cases steps with
    | finished =>
      cases performs
      exact hcommit (running ▸ hall t) rfl rfl rfl
    | raised | selected | sameCurrency | firstRate | noFirstRate | secondRate | noSecondRate | gone
    | updated => exact hsame performs (by simp)
  | nullified t clock run running effect steps s' performs =>
    cases steps with
    | finished =>
      cases performs
      exact hcommit (running ▸ hall t) rfl rfl rfl
    | selected | nulled | unarmed | gone => exact hsame performs (by simp)
  | started | aborted | ratesUpserted | pulled => exact ⟨rfl, fun _ ↦ rfl, fun _ ↦ .rfl⟩

/-- The counter version of a push was computed at the clock of one of its own statements. -/
def ClockRead (trace : List (SyncSystem × SyncAction)) (s : SyncSystem) (t : ℕ) : Prop :=
  ∀ run returned clock, s.procs t = .push run → run.stage = .committing returned (some clock) →
    ∃ earlier, (earlier, SyncAction.advance t clock) ∈ trace ∧
      earlier.procs t = .push { run with stage := .counting returned }

theorem Outcome.clockRead {trace : List (SyncSystem × SyncAction)} (h : Outcome rt settings s action s')
    {t : ℕ} (hread : ClockRead trace s t) : ClockRead (trace ++ [(s, action)]) s' t := by
  intro run returned clock hrun hstage
  by_cases hactor : action.actor = some t
  · cases h with
    | pushed _ now other running effect steps s' performs =>
      cases hactor
      have hnext := performs.proc.symm.trans hrun
      cases steps with
      | counted rest stage nonzero counter added =>
        cases hnext
        cases hstage
        refine ⟨s, List.mem_append_right _ (List.mem_singleton_self _), ?_⟩
        rw [running, ← stage]
      | raised | committed => cases hnext
      | devices | owners | drawn | inserted | updated | stale | written | uncounted =>
        cases hnext
        cases hstage
    | swept _ _ other running effect steps s' performs =>
      cases hactor
      have hnext := performs.proc.symm.trans hrun
      cases steps <;> cases hnext
    | nullified _ _ other running effect steps s' performs =>
      cases hactor
      have hnext := performs.proc.symm.trans hrun
      cases steps <;> cases hnext
    | started _ request idle =>
      cases hactor
      have hnext := (s.setProc_procs t (request.proc rt)).symm.trans hrun
      cases request with
      | push user batch now =>
        cases hnext
        cases hstage
      | sweep | nullify => cases hnext
    | aborted _ running =>
      cases hactor
      cases (s.rollback_procs t).symm.trans hrun
    | ratesUpserted | pulled => cases hactor
  · obtain ⟨earlier, hmem, hearlier⟩ :=
      hread run returned clock ((h.untouched hactor).proc.symm.trans hrun) hstage
    exact ⟨earlier, List.mem_append_left _ hmem, hearlier⟩

/-- Metering is exact along a run. -/
structure Metered (rt : Runtime) (settings : Settings) (trace : List (SyncSystem × SyncAction))
    (s : SyncSystem) : Prop where
  total : ∀ user, usageTotal s.usage.committed user = expenseCount s.expenses.committed user
  recorded : ∀ before action after push, (before, action) ∈ trace →
    SyncSystem.step rt settings before action = some after → committedPush (before, action) = some push →
      Recorded before after push
  clock : ∀ before t later push clock, (before, .advance t later) ∈ trace →
    committedPush (before, .advance t later) = some push → push.counted = some clock →
      ∃ earlier, ∃ run : PushRun, ∃ returned, (earlier, SyncAction.advance t clock) ∈ trace ∧
        earlier.procs t = .push { run with stage := .counting returned } ∧
        before.procs t = .push { run with stage := .committing returned (some clock) }
  once : ((trace.filterMap committedPush).flatMap (·.inserted)).Nodup ∧
    ∀ id, id ∈ (trace.filterMap committedPush).flatMap (·.inserted) ↔
      (s.expenses.committed.lookup id).isSome
  counted : ∀ user period, usageCount s.usage.committed user period =
    ((trace.filterMap committedPush).map (·.adds user period)).sum

/-- One more step of a run keeps metering exact. -/
theorem Metered.snoc {trace : List (SyncSystem × SyncAction)} (h : Metered rt settings trace s)
    (htally : ∀ u, Tally s.expenses s.usage u (s.procs u)) (hread : ∀ u, ClockRead trace s u)
    (houtcome : Outcome rt settings s action s') : Metered rt settings (trace ++ [(s, action)]) s' := by
  constructor
  · intro user
    cases hpush : committedPush (s, action) with
    | none =>
      have hunrecorded := houtcome.unrecorded htally hpush
      rw [hunrecorded.usage, hunrecorded.rows, h.total]
    | some push =>
      have hrecorded := houtcome.recorded htally hpush
      let added := if push.user = user then push.inserted.length else 0
      calc usageTotal s'.usage.committed user
          = usageTotal s.usage.committed user + added := hrecorded.total user
        _ = expenseCount s.expenses.committed user + added := by rw [h.total]
        _ = expenseCount s'.expenses.committed user := (hrecorded.rows user).symm
  · intro before other after push hmem hother hpush
    rcases List.mem_append.mp hmem with hmem | hmem
    · exact h.recorded before other after push hmem hother hpush
    · cases List.mem_singleton.mp hmem
      exact (SyncSystem.step_outcome hother).recorded htally hpush
  · intro before t later push clock hmem hpush hclock
    rcases List.mem_append.mp hmem with hmem | hmem
    · obtain ⟨earlier, run, returned, hearlier, hfacts⟩ :=
        h.clock before t later push clock hmem hpush hclock
      exact ⟨earlier, run, returned, List.mem_append_left _ hearlier, hfacts⟩
    · cases List.mem_singleton.mp hmem
      obtain ⟨_, _, run, returned, counted, heq, hproc, hstage, rfl⟩ := committedPush_eq_some hpush
      cases heq
      obtain rfl : counted = some clock := hclock
      obtain ⟨earlier, hearlier, hcounting⟩ := hread t run returned clock hproc hstage
      refine ⟨earlier, run, returned, List.mem_append_left _ hearlier, hcounting, ?_⟩
      rw [hproc, ← hstage]
  · rw [List.filterMap_append, List.flatMap_append]
    cases hpush : committedPush (s, action) with
    | none =>
      have hstored := (houtcome.unrecorded htally hpush).stored
      rw [List.filterMap_cons_none hpush, List.filterMap_nil, List.flatMap_nil, List.append_nil]
      exact ⟨h.once.1, fun id ↦ (h.once.2 id).trans (hstored id).symm⟩
    | some push =>
      have hrecorded := houtcome.recorded htally hpush
      rw [List.filterMap_cons_some hpush, List.filterMap_nil, List.flatMap_singleton]
      constructor
      · rw [List.nodup_append]
        refine ⟨h.once.1, hrecorded.nodup, fun id hid other hother heq ↦ ?_⟩
        have hnone := ((hrecorded.inserted other).mp hother).1
        rw [← heq, ← Option.isNone_iff_eq_none, ← Option.not_isSome, (h.once.2 id).mp hid] at hnone
        cases hnone
      · intro id
        rw [List.mem_append, h.once.2 id, hrecorded.inserted id]
        constructor
        · rintro (hsome | ⟨_, hsome⟩)
          · exact hrecorded.kept id hsome
          · exact hsome
        · intro hsome
          cases hbefore : s.expenses.committed.lookup id with
          | some row => exact .inl rfl
          | none => exact .inr ⟨rfl, hsome⟩
  · intro user period
    rw [List.filterMap_append]
    cases hpush : committedPush (s, action) with
    | none =>
      rw [(houtcome.unrecorded htally hpush).usage, h.counted]
      simp [hpush]
    | some push =>
      rw [(houtcome.recorded htally hpush).counter, h.counted]
      simp [hpush]

end

section

variable {rt : Runtime} {settings : Settings} {s : SyncSystem} {trace : List (SyncSystem × SyncAction)}

theorem tally_of_run (hrun : SyncSystem.FromEmpty rt settings (fun _ _ ↦ True) trace s) (t : ℕ) :
    Tally s.expenses s.usage t (s.procs t) := by
  obtain ⟨users, devices, fxRates, reader, hrun⟩ := hrun
  refine hrun.invariant (fun s ↦ ∀ u, Tally s.expenses s.usage u (s.procs u)) (fun u ↦ ?_) ?_ t
  · exact .ended rfl rfl rfl rfl
  · intro s action s' htally _ hstep
    exact (SyncSystem.step_outcome hstep).tally htally

theorem metered_of_run (hrun : SyncSystem.FromEmpty rt settings (fun _ _ ↦ True) trace s) :
    Metered rt settings trace s := by
  obtain ⟨users, devices, fxRates, reader, hrun⟩ := hrun
  have hall : (∀ u, ClockRead trace s u) ∧ Metered rt settings trace s := by
    induction hrun with
    | nil =>
      refine ⟨fun u ↦ ?_, ?_⟩
      · intro run returned clock hidle
        cases hidle
      · exact ⟨fun _ ↦ rfl, fun _ _ _ _ h ↦ absurd h List.not_mem_nil,
          fun _ _ _ _ _ h ↦ absurd h List.not_mem_nil,
          ⟨List.nodup_nil, fun id ↦ by simp [SyncSystem.initial, SyncSystem.ofTables]⟩, fun _ _ ↦ rfl⟩
    | snoc hrun _ hstep ih =>
      obtain ⟨hread, hmetered⟩ := ih
      have houtcome := SyncSystem.step_outcome hstep
      exact ⟨fun u ↦ houtcome.clockRead (hread u),
        hmetered.snoc (tally_of_run ⟨_, _, _, _, hrun⟩) hread houtcome⟩
  exact hall.2

end

end VoiceSpend
