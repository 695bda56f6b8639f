import VoiceSpend.Concurrency.Counting

/-!
# Can one user's push write another user's row?

The owner check of a push and its upsert are two statements, and the upsert's `WHERE` compares
revisions only. In a run in which no upsert meets a newer-revision row of another user,
`OwnRows` is an invariant: every version an open push has written belongs to its user.
-/

namespace VoiceSpend

open Machine

namespace SyncSystem

/-- The next statement is an upsert that updates a row of another user. -/
def overwritesForeign (s : SyncSystem) : SyncAction → Bool
  | .advance t _ =>
    match s.procs t with
    | .push ⟨user, _, _, _, .writing (insertion :: _) (some _) _⟩ =>
      (s.expenses.visible t insertion.id).any fun row ↦
        row.userId ≠ user && row.client.clientRev < insertion.client.clientRev
    | _ => false
  | _ => false

/-- The step is one of an open push of the user. -/
def PushOf (s : SyncSystem) (action : SyncAction) (user : UUID) : Prop :=
  ∃ t clock run, action = .advance t clock ∧ s.procs t = .push run ∧ run.user = user

end SyncSystem

/-- The action does not start a sweep or an invalidation. -/
def SyncAction.pushesOnly : SyncAction → Bool
  | .start _ (.sweep ..) | .start _ (.nullify ..) => false
  | _ => true

/-- Rows and counters change only through pushes of their user, and a push reports `APPLIED`
only for ids that are its user's from then on. -/
structure WritesIsolated (rt : Runtime) (settings : Settings) (trace : List (SyncSystem × SyncAction))
    (s : SyncSystem) : Prop where
  rows : ∀ before action after, (before, action) ∈ trace →
    SyncSystem.step rt settings before action = some after →
      ∀ id row, before.expenses.committed.lookup id = some row →
        after.expenses.committed.lookup id ≠ some row → before.PushOf action row.userId
  counters : ∀ before action after, (before, action) ∈ trace →
    SyncSystem.step rt settings before action = some after →
      ∀ user period, after.usage.committed.lookup (user, period) ≠
        before.usage.committed.lookup (user, period) → before.PushOf action user
  applied : ∀ t user results, s.procs t = .answered user results →
    ∀ result ∈ results, result.status = .applied →
      ∃ row, s.expenses.committed.lookup result.id = some row ∧ row.userId = user

/-- Every version of an open push belongs to its user and every returned id has a version. -/
structure OwnRows (expenses : Versioned UUID Expense ℕ) (t : ℕ) (proc : Proc) : Prop where
  idle : proc.running = false → expenses.drafts t = ∅
  rows : ∀ user id row, proc.pusher = some user → (expenses.drafts t).lookup id = some row → row.userId = user
  returned : ∀ row ∈ proc.returned, row.id ∈ expenses.drafts t

section

variable {rt : Runtime} {settings : Settings} {s s' : SyncSystem} {t u : ℕ} {clock : Instant}
  {effect : Effect} {action : SyncAction} {proc next : Proc} {expenses : Versioned UUID Expense ℕ}

theorem OwnRows.untouched (h : OwnRows s.expenses u (s.procs u)) (hsame : Untouched u s s') :
    OwnRows s'.expenses u (s'.procs u) := by
  rw [hsame.proc]
  constructor
  · rw [hsame.expenses]
    exact h.idle
  · rw [hsame.expenses]
    exact h.rows
  · rw [hsame.expenses]
    exact h.returned

theorem OwnRows.goto (h : OwnRows expenses t proc) (hpusher : next.pusher = proc.pusher)
    (hreturned : next.returned = proc.returned) (hrunning : next.running = true) :
    OwnRows expenses t next := by
  refine ⟨fun hidle ↦ ?_, ?_, ?_⟩
  · rw [hrunning] at hidle
    cases hidle
  · rw [hpusher]
    exact h.rows
  · rw [hreturned]
    exact h.returned

theorem OwnRows.lock (h : OwnRows expenses t proc) {id : UUID} (hfree : expenses.Free t id) :
    OwnRows (expenses.lock t id hfree) t proc :=
  ⟨h.idle, h.rows, h.returned⟩

theorem OwnRows.ended (hexpenses : expenses.drafts t = ∅) (hreturned : next.returned = []) :
    OwnRows expenses t next := by
  refine ⟨fun _ ↦ hexpenses, fun user id row _ hrow ↦ ?_, fun row hrow ↦ ?_⟩
  · rw [hexpenses, AList.lookup_empty] at hrow
    cases hrow
  · rw [hreturned] at hrow
    cases hrow

/-- A write of a row of the transaction's own user. -/
theorem OwnRows.write (h : OwnRows expenses t proc) {id : UUID} {row : Expense} (hfree : expenses.Free t id)
    (hrow : ∀ user, next.pusher = some user → row.userId = user) (hpusher : next.pusher = proc.pusher)
    (hreturned : ∀ other ∈ next.returned, other ∈ proc.returned ∨ other.id = id)
    (hrunning : next.running = true) : OwnRows (expenses.write t id row hfree) t next := by
  refine ⟨fun hidle ↦ ?_, fun user other new huser hnew ↦ ?_, fun other hother ↦ ?_⟩
  · rw [hrunning] at hidle
    cases hidle
  · rw [Versioned.lookup_write_drafts] at hnew
    split at hnew
    · cases hnew
      exact hrow user huser
    · rw [hpusher] at huser
      exact h.rows user other new huser hnew
  · rw [Versioned.write_drafts, Function.update_self, AList.mem_insert]
    exact (hreturned other hother).elim (fun hold ↦ .inr (h.returned other hold)) .inl

/-- An upsert that is allowed updates a row of its own user. -/
theorem SyncSystem.owner_of_newer {run : PushRun} {insertion : Insertion} {todo : List Insertion} {drawn : ℕ}
    {returned : List Returned} {row : Expense} (hok : s.overwritesForeign (.advance t clock) = false)
    (hrun : s.procs t = .push run) (stage : run.stage = .writing (insertion :: todo) (some drawn) returned)
    (found : s.expenses.visible t insertion.id = some row)
    (newer : row.client.clientRev < insertion.client.clientRev) : row.userId = run.user := by
  obtain ⟨user, scanned, rejects, now, _⟩ := run
  subst stage
  simpa [overwritesForeign, hrun, found, newer] using hok

theorem PushRun.Steps.ownRows {run : PushRun} (steps : run.Steps rt s t clock effect)
    (hrun : s.procs t = .push run) (hok : s.overwritesForeign (.advance t clock) = false)
    (h : OwnRows s.expenses t (.push run)) (performs : Performs s t effect s') :
    OwnRows s'.expenses t (s'.procs t) := by
  rw [performs.proc]
  cases steps with
  | raised | committed =>
    cases performs
    exact .ended (Function.update_self ..) rfl
  | devices | owners | drawn | written | uncounted | counted =>
    cases performs
    refine h.goto rfl ?_ rfl
    simp [*, Effect.next]
  | stale insertion todo drawn returned stage row found notNewer =>
    cases performs with
    | lock id next hfree =>
      refine (h.lock hfree).goto rfl ?_ rfl
      simp [stage, Effect.next]
  | inserted insertion todo drawn returned stage fresh =>
    cases performs with
    | insert id row next hfree =>
      refine h.write hfree (fun user huser ↦ Option.some.inj huser) rfl (fun other hother ↦ ?_) rfl
      rcases List.mem_append.mp hother with hold | hnew
      · exact .inl (by simpa [stage] using hold)
      · rw [List.mem_singleton.mp hnew]
        exact .inr rfl
  | updated insertion todo drawn returned stage row found newer =>
    have howner := SyncSystem.owner_of_newer hok hrun stage found newer
    cases performs with
    | update id new next hfree =>
      have huser (user : UUID) (heq : some run.user = some user) := howner.trans (Option.some.inj heq)
      refine h.write hfree huser rfl (fun other hother ↦ ?_) rfl
      rcases List.mem_append.mp hother with hold | hnew
      · exact .inl (by simpa [stage] using hold)
      · rw [List.mem_singleton.mp hnew]
        exact .inr rfl

theorem Outcome.ownRows (h : Outcome rt settings s action s') (hok : s.overwritesForeign action = false)
    (hall : ∀ u, OwnRows s.expenses u (s.procs u)) (u : ℕ) : OwnRows s'.expenses u (s'.procs u) := by
  by_cases hactor : action.actor = some u
  · cases h with
    | started t request idle =>
      cases hactor
      have hempty := (hall u).idle (by rw [idle]; rfl)
      rw [SyncSystem.setProc_procs]
      exact .ended hempty (by cases request <;> rfl)
    | pushed t clock run running effect steps s' performs =>
      cases hactor
      exact steps.ownRows running hok (running ▸ hall u) performs
    | swept t clock run running effect steps s' performs =>
      cases hactor
      have h := running ▸ hall u
      rw [performs.proc]
      cases steps with
      | raised | finished =>
        cases performs
        exact .ended (Function.update_self ..) rfl
      | selected | sameCurrency | firstRate | noFirstRate | secondRate | noSecondRate | gone =>
        cases performs
        exact h.goto rfl rfl rfl
      | updated row amountBase todo stage stored fits current found =>
        cases performs with
        | update id new next hfree => exact h.write hfree nofun rfl nofun rfl
    | nullified t clock run running effect steps s' performs =>
      cases hactor
      have h := running ▸ hall u
      rw [performs.proc]
      cases steps with
      | finished =>
        cases performs
        exact .ended (Function.update_self ..) rfl
      | selected | gone =>
        cases performs
        exact h.goto rfl rfl rfl
      | unarmed id todo stage row found dropped =>
        cases performs with
        | lock id next hfree => exact (h.lock hfree).goto rfl rfl rfl
      | nulled id todo stage row found selected =>
        cases performs with
        | update id new next hfree => exact h.write hfree nofun rfl nofun rfl
    | aborted t running =>
      cases hactor
      rw [SyncSystem.rollback_procs]
      exact .ended (Function.update_self ..) rfl
    | ratesUpserted | pulled => cases hactor
  · exact (hall u).untouched (h.untouched hactor)

/-- A stored row keeps its owner. -/
theorem Outcome.owner_kept (h : Outcome rt settings s action s')
    (hall : ∀ u, Tally s.expenses s.usage u (s.procs u)) {id : UUID} {row : Expense}
    (hrow : s.expenses.committed.lookup id = some row) :
    ∃ row', s'.expenses.committed.lookup id = some row' ∧ row'.userId = row.userId := by
  rcases h.commit_or_same with ⟨hsame, _⟩ | ⟨t, clock, next, _, _, rfl⟩
  · exact ⟨row, hsame ▸ hrow, rfl⟩
  · have hlookup : (s.commit t next).expenses.committed.lookup id = s.expenses.visible t id :=
      s.expenses.lookup_commit t id
    rw [hlookup]
    cases hdraft : (s.expenses.drafts t).lookup id with
    | none =>
      rw [Versioned.visible_of_lookup_drafts hdraft]
      exact ⟨row, hrow, rfl⟩
    | some new =>
      have howner := (hall t).owner id new hdraft
      rw [hrow, Option.map_some, Option.some_or] at howner
      exact ⟨new, Versioned.visible_of_draft hdraft, (Option.some.inj howner).symm⟩

/-- What a push reports as `APPLIED` it has returned. -/
theorem returned_of_applied {rejects : UUID → Option String} {returned : List Returned} {id : UUID}
    (h : (resultFor rejects returned id).status = .applied) : ∃ row ∈ returned, row.id = id := by
  unfold resultFor at h
  cases hreject : rejects id with
  | some reason => simp [hreject] at h
  | none =>
    cases hreturned : returnedFor returned id with
    | none => simp [hreject, hreturned] at h
    | some value =>
      obtain ⟨row, hfind, _⟩ := Option.map_eq_some_iff.mp hreturned
      exact ⟨row, List.mem_of_find?_eq_some hfind, by simpa using List.find?_some hfind⟩

/-- The ids an answered push reports as `APPLIED` have a row of its user. -/
def AppliedOwned (s : SyncSystem) (t : ℕ) : Prop :=
  ∀ user results, s.procs t = .answered user results → ∀ result ∈ results, result.status = .applied →
    ∃ row, s.expenses.committed.lookup result.id = some row ∧ row.userId = user

theorem OwnRows.appliedOwned {run : PushRun} {returned : List Returned} {counted : Option Instant}
    (h : OwnRows s.expenses t (.push run)) (stage : run.stage = .committing returned counted) :
    AppliedOwned
      (s.commit t (.answered run.user (run.scanned.order.map (resultFor run.rejects returned)))) t := by
  intro user results hanswered result hresult happlied
  have hproc : Proc.answered run.user (run.scanned.order.map (resultFor run.rejects returned)) =
      .answered user results := (Function.update_self ..).symm.trans hanswered
  cases hproc
  obtain ⟨id, _, rfl⟩ := List.mem_map.mp hresult
  obtain ⟨other, hother, hid⟩ := returned_of_applied happlied
  rw [resultFor_id]
  have hmem : id ∈ s.expenses.drafts t := hid ▸ h.returned other (by simpa [stage] using hother)
  obtain ⟨row, hrow⟩ := Option.isSome_iff_exists.mp (AList.lookup_isSome.mpr hmem)
  refine ⟨row, ?_, h.rows run.user id row rfl hrow⟩
  exact (s.expenses.lookup_commit t id).trans (Versioned.visible_of_draft hrow)

theorem Outcome.appliedOwned (h : Outcome rt settings s action s')
    (htally : ∀ u, Tally s.expenses s.usage u (s.procs u)) (hall : ∀ u, OwnRows s.expenses u (s.procs u))
    (happlied : ∀ u, AppliedOwned s u) (u : ℕ) : AppliedOwned s' u := by
  by_cases hactor : action.actor = some u
  · cases h with
    | pushed t clock run running effect steps s' performs =>
      cases hactor
      cases steps with
      | committed returned counted stage =>
        cases performs
        exact (running ▸ hall u).appliedOwned stage
      | raised | devices | owners | drawn | inserted | updated | stale | written | uncounted | counted =>
        intro user results hanswered
        cases performs.proc.symm.trans hanswered
    | swept t clock run running effect steps s' performs =>
      cases hactor
      intro user results hanswered
      have hnext := performs.proc.symm.trans hanswered
      cases steps <;> cases hnext
    | nullified t clock run running effect steps s' performs =>
      cases hactor
      intro user results hanswered
      have hnext := performs.proc.symm.trans hanswered
      cases steps <;> cases hnext
    | started t request idle =>
      cases hactor
      intro user results hanswered
      have hnext := (s.setProc_procs u (request.proc rt)).symm.trans hanswered
      cases request <;> cases hnext
    | aborted t running =>
      cases hactor
      intro user results hanswered
      cases (s.rollback_procs u).symm.trans hanswered
    | ratesUpserted | pulled => cases hactor
  · intro user results hanswered result hresult hstatus
    obtain ⟨row, hrow, rfl⟩ := happlied u user results ((h.untouched hactor).proc.symm.trans hanswered)
      result hresult hstatus
    exact h.owner_kept htally hrow

/-- No sweep and no invalidation is open. -/
def PushesOnly (s : SyncSystem) : Prop := ∀ t, (s.procs t).running = true → ∃ run, s.procs t = .push run

theorem Outcome.pushesOnly (h : Outcome rt settings s action s') (hok : action.pushesOnly = true)
    (hall : PushesOnly s) : PushesOnly s' := by
  intro u hrunning
  by_cases hactor : action.actor = some u
  · cases h with
    | started t request idle =>
      cases hactor
      rw [SyncSystem.setProc_procs]
      cases request with
      | push user batch now => exact ⟨_, rfl⟩
      | sweep | nullify => cases hok
    | pushed t clock run running effect steps s' performs =>
      cases hactor
      rw [performs.proc] at hrunning ⊢
      cases steps with
      | raised | committed => cases hrunning
      | devices | owners | drawn | inserted | updated | stale | written | uncounted | counted =>
        exact ⟨_, rfl⟩
    | swept t clock run running =>
      obtain ⟨other, hother⟩ := hall t (by rw [running]; rfl)
      cases running.symm.trans hother
    | nullified t clock run running =>
      obtain ⟨other, hother⟩ := hall t (by rw [running]; rfl)
      cases running.symm.trans hother
    | aborted t running =>
      cases hactor
      rw [SyncSystem.rollback_procs] at hrunning
      cases hrunning
    | ratesUpserted | pulled => cases hactor
  · rw [(h.untouched hactor).proc] at hrunning ⊢
    exact hall u hrunning

/-- A step that changes a stored row belongs to a push of its owner. -/
theorem Outcome.pushOf_of_row (h : Outcome rt settings s action s') (hpushes : PushesOnly s)
    (htally : ∀ u, Tally s.expenses s.usage u (s.procs u)) (hall : ∀ u, OwnRows s.expenses u (s.procs u))
    {id : UUID} {row : Expense} (hrow : s.expenses.committed.lookup id = some row)
    (hchange : s'.expenses.committed.lookup id ≠ some row) : s.PushOf action row.userId := by
  rcases h.commit_or_same with ⟨hsame, _⟩ | ⟨t, clock, next, rfl, hrunning, rfl⟩
  · exact absurd (hsame ▸ hrow) hchange
  · obtain ⟨run, hrun⟩ := hpushes t hrunning
    refine ⟨t, clock, run, rfl, hrun, ?_⟩
    rw [show (s.commit t next).expenses.committed.lookup id = _ from s.expenses.lookup_commit t id] at hchange
    cases hdraft : (s.expenses.drafts t).lookup id with
    | none => exact absurd ((Versioned.visible_of_lookup_drafts hdraft).trans hrow) hchange
    | some new =>
      have hkept := (htally t).owner id new hdraft
      rw [hrow, Option.map_some, Option.some_or] at hkept
      have howner := (hall t).rows run.user id new (by rw [hrun]; rfl) hdraft
      exact howner.symm.trans (Option.some.inj hkept).symm

/-- A step that changes a counter belongs to a push of its user. -/
theorem Outcome.pushOf_of_counter (h : Outcome rt settings s action s')
    (htally : ∀ u, Tally s.expenses s.usage u (s.procs u)) {user : UUID} {period : Period}
    (hchange : s'.usage.committed.lookup (user, period) ≠ s.usage.committed.lookup (user, period)) :
    s.PushOf action user := by
  rcases h.commit_or_same with ⟨_, hsame⟩ | ⟨t, clock, next, rfl, hrunning, rfl⟩
  · exact absurd (by rw [hsame]) hchange
  · rw [show (s.commit t next).usage.committed.lookup (user, period) = _ from
      s.usage.lookup_commit t (user, period)] at hchange
    cases (htally t).counter with
    | untouched empty uncounted =>
      exact absurd (Versioned.visible_of_lookup_drafts (by rw [empty, AList.lookup_empty])) hchange
    | added owner clock' now counter pusher counted nonzero draft sum =>
      have hkey : (user, period) = (owner, currentPeriod clock') := by
        by_contra hne
        refine hchange (Versioned.visible_of_lookup_drafts ?_)
        rw [draft, ← AList.insert_empty, AList.lookup_insert_ne hne, AList.lookup_empty]
      cases hkey
      cases hproc : s.procs t with
      | push run =>
        rw [hproc] at pusher
        exact ⟨t, clock, run, rfl, hproc, Option.some.inj pusher⟩
      | idle | sweep | nullify | answered | done | failed =>
        rw [hproc] at pusher
        cases pusher

end

section

variable {rt : Runtime} {settings : Settings} {s : SyncSystem} {trace : List (SyncSystem × SyncAction)}

/-- What a run of pushes keeps: the tallies, the owners of open versions, and the reports. -/
structure OwnerInvariant (s : SyncSystem) : Prop where
  tally : ∀ u, Tally s.expenses s.usage u (s.procs u)
  own : ∀ u, OwnRows s.expenses u (s.procs u)
  applied : ∀ u, AppliedOwned s u
  pushes : PushesOnly s

/-- In every run of pushes, from any tables, in which no upsert updates a row of another user,
rows and counters change only through pushes of their user. -/
theorem pushes_isolated {users : Table UUID User} {devices : Table UUID Device} {fxRates : FxTable}
    {expenses : Table UUID Expense} {usage : UsageTable} {syncSeq : ℕ} {reader : UUID}
    (hrun : Run (SyncSystem.step rt settings)
      (fun s action ↦ action.pushesOnly = true ∧ s.overwritesForeign action = false)
      (.ofTables users devices fxRates expenses usage syncSeq reader) trace s) :
    WritesIsolated rt settings trace s := by
  have hall : OwnerInvariant s ∧ WritesIsolated rt settings trace s := by
    refine hrun.trace_invariant (fun trace s ↦ OwnerInvariant s ∧ WritesIsolated rt settings trace s)
      ⟨?_, ?_⟩ ?_
    · refine ⟨fun u ↦ .ended rfl rfl rfl rfl, fun u ↦ .ended rfl rfl, fun u user results hidle ↦ ?_,
        fun u hrunning ↦ ?_⟩
      · cases hidle
      · cases hrunning
    · exact ⟨fun _ _ _ h ↦ absurd h List.not_mem_nil, fun _ _ _ h ↦ absurd h List.not_mem_nil,
        fun _ _ _ h ↦ by cases h⟩
    · rintro trace s action s' ⟨hinv, hisolated⟩ ⟨hpushes, hok⟩ hstep
      have houtcome := SyncSystem.step_outcome hstep
      have happlied := houtcome.appliedOwned hinv.tally hinv.own hinv.applied
      refine ⟨⟨houtcome.tally hinv.tally, houtcome.ownRows hok hinv.own, happlied,
        houtcome.pushesOnly hpushes hinv.pushes⟩, ?_, ?_, happlied⟩
      · intro before other after hmem hother id row hrow hchange
        rcases List.mem_append.mp hmem with hmem | hmem
        · exact hisolated.rows before other after hmem hother id row hrow hchange
        · cases List.mem_singleton.mp hmem
          exact (SyncSystem.step_outcome hother).pushOf_of_row hinv.pushes hinv.tally hinv.own hrow hchange
      · intro before other after hmem hother user period hchange
        rcases List.mem_append.mp hmem with hmem | hmem
        · exact hisolated.counters before other after hmem hother user period hchange
        · cases List.mem_singleton.mp hmem
          exact (SyncSystem.step_outcome hother).pushOf_of_counter hinv.tally hchange
  exact hall.2

end

/-- A record of the second user under the id of `sampleExpense`. -/
def foreignExpense : RawRecord :=
  sampleRecord "00000000-0000-0000-0000-000000000003" "00000000-0000-0000-0000-000000000005" 99 2

/-- The second user's push looks for owners, the first user inserts the row and commits, and the
second user's upsert then meets it; only its commit is missing. -/
def overwritingActions : List SyncAction :=
  SyncSystem.transaction 1 (.push ⟨4⟩ [foreignExpense] 0) 2 ++
    SyncSystem.transaction 0 (.push ⟨1⟩ [sampleExpense 12 1] 0) 7 ++ List.replicate 4 (.advance 1 0)

/-- The commit of the second user's push changes the first user's row. -/
theorem pushes_not_isolated : ¬ ∀ (rt : Runtime) (settings : Settings) (users : Table UUID User)
    (devices : Table UUID Device) (trace : List (SyncSystem × SyncAction)) (s : SyncSystem),
    Run (SyncSystem.step rt settings) (fun _ action ↦ action.pushesOnly = true)
      (.initial users devices ∅ ⟨1⟩) trace s → WritesIsolated rt settings trace s := by
  intro hisolated
  let pushStep (s : SyncSystem) (action : SyncAction) : Option SyncSystem :=
    if action.pushesOnly = true then SyncSystem.step .ascii sampleSettings s action else none
  have hbefore : (exec pushStep .sample overwritingActions).map (fun s ↦
      ((s.expenses.committed.lookup ⟨3⟩).map fun row ↦ (row.userId, row.client.amountOriginal.units),
        (s.procs 1).pusher)) = some (some (⟨1⟩, 120000), some ⟨4⟩) := by
    decide +kernel
  have hafter : ((exec pushStep .sample overwritingActions).bind fun s ↦
      SyncSystem.step .ascii sampleSettings s (.advance 1 0)).map
      (fun s ↦ (s.expenses.committed.lookup ⟨3⟩).map (·.client.amountOriginal.units)) =
      some (some 990000) := by
    decide +kernel
  obtain ⟨before, hexec, hfacts⟩ := Option.map_eq_some_iff.mp hbefore
  rw [hexec, Option.bind_some] at hafter
  obtain ⟨after, hstep, hamount⟩ := Option.map_eq_some_iff.mp hafter
  obtain ⟨hrow, hpusher⟩ := Prod.mk.inj hfacts
  obtain ⟨row, hlookup, hold⟩ := Option.map_eq_some_iff.mp hrow
  obtain ⟨howner, hunits⟩ := Prod.mk.inj hold
  obtain ⟨trace, hrun⟩ := exists_guarded_append .nil hexec
  have hrows := (hisolated .ascii sampleSettings _ _ _ _ (hrun.snoc rfl hstep)).rows before _ after
    (List.mem_append_right _ (List.mem_singleton_self _)) hstep ⟨3⟩ row hlookup
  obtain ⟨t, clock, run, haction, hproc, huser⟩ := hrows fun heq ↦ by
    rw [heq, Option.map_some, hunits] at hamount
    cases hamount
  cases haction
  rw [hproc] at hpusher
  rw [howner] at huser
  have hfour : run.user = ⟨4⟩ := Option.some.inj hpusher
  rw [hfour] at huser
  exact absurd huser (by decide)

/-- The same two pushes one after the other: the second one rejects its record. -/
theorem pushes_isolated_sample : ∃ trace s,
    (s.expenses.committed.lookup ⟨3⟩).map (fun row ↦ (row.userId, row.client.amountOriginal.units)) =
        some (⟨1⟩, 120000) ∧
      WritesIsolated .ascii sampleSettings trace s := by
  let guardedStep (s : SyncSystem) (action : SyncAction) : Option SyncSystem :=
    if action.pushesOnly = true ∧ s.overwritesForeign action = false then
      SyncSystem.step .ascii sampleSettings s action
    else none
  have hexec : (exec guardedStep .sample (SyncSystem.transaction 0 (.push ⟨1⟩ [sampleExpense 12 1] 0) 7 ++
      SyncSystem.transaction 1 (.push ⟨4⟩ [foreignExpense] 0) 5)).map
      (fun s ↦ (s.expenses.committed.lookup ⟨3⟩).map fun row ↦
        (row.userId, row.client.amountOriginal.units)) = some (some (⟨1⟩, 120000)) := by
    decide +kernel
  obtain ⟨s, hs, hrow⟩ := Option.map_eq_some_iff.mp hexec
  obtain ⟨trace, hrun⟩ := exists_guarded_append .nil hs
  exact ⟨trace, s, hrow, pushes_isolated hrun⟩

end VoiceSpend
