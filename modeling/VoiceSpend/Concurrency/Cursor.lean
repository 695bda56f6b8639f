import VoiceSpend.Concurrency.Steps
import VoiceSpend.Library.Sequence

/-!
# Does a pulling client miss a change?

A row's `server_seq` is drawn when the row is written and becomes visible when its transaction
commits, so a page can move the cursor past a value that is still in flight. In a run in which
no commit publishes a row at or below the client's cursor, the client has the current version
of every committed row at or below its cursor, and a last page completes its copy.

`Stamps` is the fact about the sequence this rests on: wherever a drawn value is now, it is
there only.
-/

namespace VoiceSpend

open Machine

/-! ## Where the values of the sequence are -/

/-- What the `BEFORE INSERT` trigger drew for the row that is written next. -/
@[simp] def PushStage.drawn : PushStage → Option ℕ
  | .writing _ drawn _ => drawn
  | _ => none

@[simp] def Proc.drawn : Proc → Option ℕ
  | .push run => run.stage.drawn
  | _ => none

/-- A place for a value of the sequence: a committed row, an open version, a row to be written. -/
inductive Place
  | committed (id : UUID)
  | draft (t : ℕ) (id : UUID)
  | drawn (t : ℕ)
  deriving DecidableEq

def stampAt (s : SyncSystem) : Place → Option ℕ
  | .committed id => (s.expenses.committed.lookup id).map (·.serverSeq)
  | .draft t id => ((s.expenses.drafts t).lookup id).map (·.serverSeq)
  | .drawn t => (s.procs t).drawn

/-- Every value in use was drawn, and is in one place. -/
abbrev Stamps (s : SyncSystem) : Prop := Sequence.Placed (stampAt s) s.syncSeq

section

variable {rt : Runtime} {settings : Settings} {s s' : SyncSystem} {t u : ℕ} {clock : Instant}
  {effect : Effect} {action : SyncAction} {next : Proc}

/-- A place that another process's change of state leaves alone. -/
theorem stampAt_drawn_of_ne (s s' : SyncSystem) (next : Proc)
    (hprocs : s'.procs = Function.update s.procs t next) (hu : u ≠ t) :
    stampAt s' (.drawn u) = stampAt s (.drawn u) := by
  rw [stampAt, stampAt, hprocs, Function.update_of_ne hu]

theorem stampAt_drawn_self (s s' : SyncSystem) (hprocs : s'.procs = Function.update s.procs t next)
    (hdrawn : next.drawn = none) : stampAt s' (.drawn t) = none := by
  rw [stampAt, hprocs, Function.update_self, hdrawn]

/-- A process that goes on without a drawn value leaves the others' alone. -/
theorem stampAt_drawn_kept {stamp : ℕ} (s s' : SyncSystem) (next : Proc)
    (hprocs : s'.procs = Function.update s.procs t next) (hdrawn : next.drawn = none)
    (hstamp : stampAt s' (.drawn u) = some stamp) : stampAt s (.drawn u) = some stamp := by
  by_cases hu : u = t
  · rw [hu, stampAt_drawn_self s s' hprocs hdrawn] at hstamp
    cases hstamp
  · rw [← stampAt_drawn_of_ne s s' next hprocs hu]
    exact hstamp

/-- A statement that draws nothing and writes no row. -/
theorem Stamps.goto (h : Stamps s) (hexpenses : s'.expenses.committed = s.expenses.committed)
    (hdrafts : s'.expenses.drafts = s.expenses.drafts) (hseq : s'.syncSeq = s.syncSeq)
    (hprocs : s'.procs = Function.update s.procs t next) (hdrawn : next.drawn = none) : Stamps s' := by
  unfold Stamps
  rw [hseq]
  refine h.kept fun place stamp hstamp ↦ ?_
  cases place with
  | committed id =>
    rw [stampAt, hexpenses] at hstamp
    exact hstamp
  | draft u id =>
    rw [stampAt, hdrafts] at hstamp
    exact hstamp
  | drawn u => exact stampAt_drawn_kept s s' next hprocs hdrawn hstamp

/-- The `BEFORE INSERT` trigger. -/
theorem Stamps.draw (h : Stamps s) (hdrawn : next.drawn = some (s.syncSeq + 1)) :
    Stamps ({ s with syncSeq := s.syncSeq + 1 }.setProc t next) := by
  refine h.fresh (.drawn t) ?_ fun place stamp hne hstamp ↦ ?_
  · rw [stampAt, SyncSystem.setProc_procs, hdrawn]
  · cases place with
    | committed | draft => exact hstamp
    | drawn u =>
      have hu : u ≠ t := fun heq ↦ hne (heq ▸ rfl)
      rw [stampAt_drawn_of_ne s _ next rfl hu] at hstamp
      exact hstamp

theorem stampAt_put_draft (s : SyncSystem) {id : UUID} {row : Expense} {syncSeq : ℕ}
    (hfree : s.expenses.Free t id) (u : ℕ) (other : UUID) :
    stampAt (s.put t id row syncSeq hfree next) (.draft u other) =
      if u = t ∧ other = id then some row.serverSeq else stampAt s (.draft u other) := by
  have hlookup := s.expenses.lookup_write_drafts row hfree u other
  change (((s.expenses.write t id row hfree).drafts u).lookup other).map _ = _
  rw [hlookup]
  split <;> rfl

/-- An insertion carries the value its trigger drew. -/
theorem Stamps.insert (h : Stamps s) {id : UUID} {row : Expense} (hfree : s.expenses.Free t id)
    (hproc : (s.procs t).drawn = some row.serverSeq) (hdrawn : next.drawn = none) :
    Stamps (s.put t id row s.syncSeq hfree next) := by
  have hself := stampAt_drawn_self s (s.put t id row s.syncSeq hfree next) rfl hdrawn
  let source (place : Place) : Place := if place = .draft t id then .drawn t else place
  refine h.moved source le_rfl (fun place stamp hstamp ↦ ?_) fun first second hfirst hsecond heq ↦ ?_
  · by_cases hplace : place = .draft t id
    · subst hplace
      rw [stampAt_put_draft, if_pos ⟨rfl, rfl⟩] at hstamp
      rw [show source (.draft t id) = .drawn t from if_pos rfl]
      exact hproc.trans hstamp
    · rw [show source place = place from if_neg hplace]
      cases place with
      | committed other => exact hstamp
      | draft u other =>
        rw [stampAt_put_draft, if_neg fun hboth ↦ hplace (by rw [hboth.1, hboth.2])] at hstamp
        exact hstamp
      | drawn u => exact stampAt_drawn_kept s _ next rfl hdrawn hstamp
  · -- nothing is left at the place the inserted row took its value from
    have hempty {place : Place} (hsome : (stampAt (s.put t id row s.syncSeq hfree next) place).isSome) :
        place ≠ .drawn t := fun heq ↦ by
      rw [heq, hself] at hsome
      cases hsome
    by_cases hone : first = .draft t id <;> by_cases htwo : second = .draft t id
    · exact hone.trans htwo.symm
    · rw [show source first = .drawn t from if_pos hone, show source second = second from if_neg htwo] at heq
      exact absurd heq.symm (hempty hsecond)
    · rw [show source first = first from if_neg hone, show source second = .drawn t from if_pos htwo] at heq
      exact absurd heq (hempty hfirst)
    · rwa [show source first = first from if_neg hone, show source second = second from if_neg htwo] at heq

/-- The `BEFORE UPDATE` trigger. -/
theorem Stamps.update (h : Stamps s) {id : UUID} {row : Expense} (hfree : s.expenses.Free t id)
    (hdrawn : next.drawn = none) : Stamps (s.put t id (s.stamped row) (s.syncSeq + 1) hfree next) := by
  refine h.fresh (.draft t id) ?_ fun place stamp hne hstamp ↦ ?_
  · rw [stampAt_put_draft, if_pos ⟨rfl, rfl⟩]
    rfl
  · cases place with
    | committed other => exact hstamp
    | draft u other =>
      rw [stampAt_put_draft, if_neg fun hboth ↦ hne (by rw [hboth.1, hboth.2])] at hstamp
      exact hstamp
    | drawn u => exact stampAt_drawn_kept s _ next rfl hdrawn hstamp

theorem stampAt_released_draft (s s' : SyncSystem) (t : ℕ)
    (hdrafts : s'.expenses.drafts = Function.update s.expenses.drafts t ∅) (u : ℕ)
    (id : UUID) : stampAt s' (.draft u id) = if u = t then none else stampAt s (.draft u id) := by
  rw [stampAt, hdrafts]
  by_cases hu : u = t
  · rw [if_pos hu, hu, Function.update_self, AList.lookup_empty, Option.map_none]
  · rw [if_neg hu, Function.update_of_ne hu, stampAt]

theorem Stamps.rollback (h : Stamps s) : Stamps (s.rollback t) := by
  refine h.kept fun place stamp hstamp ↦ ?_
  cases place with
  | committed id => exact hstamp
  | draft u id =>
    rw [stampAt_released_draft s _ t rfl] at hstamp
    split at hstamp
    · cases hstamp
    · exact hstamp
  | drawn u => exact stampAt_drawn_kept s _ .failed rfl rfl hstamp

/-- A commit moves the values of the transaction's versions to the committed rows. -/
theorem Stamps.commit (h : Stamps s) (hdrawn : next.drawn = none) : Stamps (s.commit t next) := by
  let source : Place → Place
    | .committed id => if id ∈ s.expenses.drafts t then .draft t id else .committed id
    | place => place
  have hdraft (u : ℕ) (id : UUID) (stamp : ℕ)
      (hstamp : stampAt (s.commit t next) (.draft u id) = some stamp) : u ≠ t := by
    rw [stampAt_released_draft s _ t rfl] at hstamp
    split at hstamp
    · cases hstamp
    · assumption
  refine h.moved source le_rfl (fun place stamp hstamp ↦ ?_) fun first second hfirst hsecond heq ↦ ?_
  · cases place with
    | committed id =>
      have hlookup : (s.commit t next).expenses.committed.lookup id = s.expenses.visible t id :=
        s.expenses.lookup_commit t id
      rw [stampAt, hlookup] at hstamp
      change stampAt s (if id ∈ s.expenses.drafts t then .draft t id else .committed id) = some stamp
      split
      · rename_i hmem
        obtain ⟨row, hrow⟩ := Option.isSome_iff_exists.mp (AList.lookup_isSome.mpr hmem)
        rw [Versioned.visible_of_draft hrow] at hstamp
        rw [stampAt, hrow]
        exact hstamp
      · rename_i hnot
        rw [Versioned.visible_of_lookup_drafts (AList.lookup_eq_none.mpr hnot)] at hstamp
        exact hstamp
    | draft u id =>
      have hu := hdraft u id stamp hstamp
      rw [stampAt_released_draft s _ t rfl, if_neg hu] at hstamp
      exact hstamp
    | drawn u => exact stampAt_drawn_kept s _ next rfl hdrawn hstamp
  · obtain ⟨firstStamp, hfirst⟩ := Option.isSome_iff_exists.mp hfirst
    obtain ⟨secondStamp, hsecond⟩ := Option.isSome_iff_exists.mp hsecond
    cases first with
    | committed id =>
      cases second with
      | committed other =>
        simp only [source] at heq
        split at heq <;> split at heq <;> cases heq <;> rfl
      | draft u other =>
        have hu := hdraft u other secondStamp hsecond
        simp only [source] at heq
        split at heq <;> cases heq
        exact absurd rfl hu
      | drawn u =>
        simp only [source] at heq
        split at heq <;> cases heq
    | draft u id =>
      have hu := hdraft u id firstStamp hfirst
      cases second with
      | committed other =>
        simp only [source] at heq
        split at heq <;> cases heq
        exact absurd rfl hu
      | draft | drawn => exact heq
    | drawn u =>
      cases second with
      | committed other =>
        simp only [source] at heq
        split at heq <;> cases heq
      | draft | drawn => exact heq

/-! ## One step -/

theorem Stamps.performs (h : Stamps s) (performs : Performs s t effect s')
    (hdraw : ∀ next, effect = .draw next → next.drawn = some (s.syncSeq + 1))
    (hinsert : ∀ id row next, effect = .insert id row next → (s.procs t).drawn = some row.serverSeq)
    (hnext : (∀ next, effect ≠ .draw next) → effect.next.drawn = none) : Stamps s' := by
  cases performs with
  | read | lock | count => exact h.goto rfl rfl rfl rfl (hnext (by simp))
  | draw next => exact h.draw (hdraw next rfl)
  | insert id row next hfree => exact h.insert hfree (hinsert id row next rfl) (hnext (by simp))
  | update id row next hfree => exact h.update hfree (hnext (by simp))
  | commit next => exact h.commit (hnext (by simp))
  | rollback => exact h.rollback

theorem PushRun.Steps.stamps {run : PushRun} (steps : run.Steps rt s t clock effect)
    (hrun : s.procs t = .push run) (h : Stamps s) (performs : Performs s t effect s') : Stamps s' := by
  refine h.performs performs (fun next heq ↦ ?_) (fun id row next heq ↦ ?_) fun hne ↦ ?_
  · cases steps <;> cases heq
    rfl
  · cases steps <;> cases heq
    simp [*]
  · cases steps with
    | drawn insertion todo returned stage => exact absurd rfl (hne _)
    | raised | devices | owners | inserted | updated | stale | written | uncounted | counted | committed =>
      rfl

theorem SweepRun.Steps.stamps {run : SweepRun} (steps : run.Steps settings s t effect) (h : Stamps s)
    (performs : Performs s t effect s') : Stamps s' := by
  refine h.performs performs (fun next heq ↦ ?_) (fun id row next heq ↦ ?_) fun _ ↦ ?_
  · cases steps <;> cases heq
  · cases steps <;> cases heq
  · cases steps <;> rfl

theorem NullifyRun.Steps.stamps {run : NullifyRun} (steps : run.Steps s t effect) (h : Stamps s)
    (performs : Performs s t effect s') : Stamps s' := by
  refine h.performs performs (fun next heq ↦ ?_) (fun id row next heq ↦ ?_) fun _ ↦ ?_
  · cases steps <;> cases heq
  · cases steps <;> cases heq
  · cases steps <;> rfl

theorem Outcome.stamps (h : Outcome rt settings s action s') (hstamps : Stamps s) : Stamps s' := by
  cases h with
  | started t request idle => exact hstamps.goto rfl rfl rfl rfl (by cases request <;> rfl)
  | pushed t clock run running effect steps s' performs => exact steps.stamps running hstamps performs
  | swept t clock run running effect steps s' performs => exact steps.stamps hstamps performs
  | nullified t clock run running effect steps s' performs => exact steps.stamps hstamps performs
  | aborted t running => exact hstamps.rollback
  | ratesUpserted | pulled =>
    exact hstamps.kept fun place stamp hstamp ↦ by cases place <;> exact hstamp

/-! ## The client -/

/-- The next statement is a commit. -/
def Proc.committing : Proc → Bool
  | .push ⟨_, _, _, _, .committing ..⟩ | .sweep ⟨_, _, _, _, .converting []⟩
  | .nullify ⟨_, _, .updating []⟩ => true
  | _ => false

/-- The step commits a row of the client's user that is not above the client's cursor. -/
def SyncSystem.commitsBehind (s : SyncSystem) : SyncAction → Bool
  | .advance t _ => (s.procs t).committing && (Table.rows (s.expenses.drafts t)).any fun row ↦
      row.2.userId = s.client.user && row.2.serverSeq ≤ s.client.cursor
  | _ => false

/-- The client has the current version of every row of its user up to its cursor. -/
def CaughtUp (s : SyncSystem) : Prop :=
  ∀ id row, s.expenses.committed.lookup id = some row → row.userId = s.client.user →
    row.serverSeq ≤ s.client.cursor → s.client.delivered.lookup id = some row

/-- The client has the current version of every row of its user. -/
def Synced (s : SyncSystem) : Prop :=
  ∀ id row, s.expenses.committed.lookup id = some row → row.userId = s.client.user →
    s.client.delivered.lookup id = some row

theorem Stamps.distinctSeqs (h : Stamps s) : DistinctSeqs s.expenses.committed := by
  intro id id' row row' hrow hrow' hseq
  have hsame := h.distinct (.committed id) (.committed id') row.serverSeq (by rw [stampAt, hrow]; rfl)
    (by rw [stampAt, hrow', hseq]; rfl)
  exact Place.committed.inj hsame

/-- The rows of a page replace the client's versions. -/
theorem SyncSystem.lookup_delivered (s : SyncSystem) (limit : ℕ) (id : UUID) :
    (s.deliver (s.nextPage limit)).client.delivered.lookup id =
      if id ∈ (s.nextPage limit).records.map Prod.fst then s.expenses.committed.lookup id
      else s.client.delivered.lookup id :=
  Table.lookup_foldl_insert s.expenses.committed _ _ (fun _ hmem ↦ (of_mem_pullSync hmem).1) id

/-- A row of the page is delivered in its current version. -/
theorem SyncSystem.delivered_of_mem {limit : ℕ} {id : UUID} {row : Expense}
    (hmem : (id, row) ∈ (s.nextPage limit).records) :
    (s.deliver (s.nextPage limit)).client.delivered.lookup id = some row := by
  rw [lookup_delivered, if_pos (List.mem_map.mpr ⟨_, hmem, rfl⟩)]
  exact (of_mem_pullSync hmem).1

/-- A version that the client has stays, unless the page brings the current one. -/
theorem SyncSystem.delivered_of_current {limit : ℕ} {id : UUID} {row : Expense}
    (hrow : s.expenses.committed.lookup id = some row)
    (hdelivered : s.client.delivered.lookup id = some row) :
    (s.deliver (s.nextPage limit)).client.delivered.lookup id = some row := by
  rw [lookup_delivered]
  split
  · exact hrow
  · exact hdelivered

theorem CaughtUp.pulled (h : CaughtUp s) (hstamps : Stamps s) (limit : ℕ) :
    CaughtUp (s.deliver (s.nextPage limit)) := by
  intro id row hrow huser hseq
  by_cases hold : row.serverSeq ≤ s.client.cursor
  · exact SyncSystem.delivered_of_current hrow (h id row hrow huser hold)
  · exact SyncSystem.delivered_of_mem (mem_pullSync hstamps.distinctSeqs hrow huser (not_le.mp hold) hseq)

/-- A page that is not full leaves nothing out. -/
theorem CaughtUp.synced (h : CaughtUp s) {limit : ℕ}
    (hlast : (s.deliver (s.nextPage limit)).client.hasMore = false) :
    Synced (s.deliver (s.nextPage limit)) := by
  intro id row hrow huser
  by_cases hold : row.serverSeq ≤ s.client.cursor
  · exact SyncSystem.delivered_of_current hrow (h id row hrow huser hold)
  · exact SyncSystem.delivered_of_mem (mem_pullSync_of_last hlast hrow huser (not_le.mp hold))

/-- A commit whose rows are above the cursor. -/
theorem CaughtUp.commit (h : CaughtUp s)
    (hok : ∀ id row, (s.expenses.drafts t).lookup id = some row → row.userId = s.client.user →
      s.client.cursor < row.serverSeq) : CaughtUp (s.commit t next) := by
  intro id row hrow huser hseq
  have hvisible : s.expenses.visible t id = some row := (s.expenses.lookup_commit t id).symm.trans hrow
  cases hdraft : (s.expenses.drafts t).lookup id with
  | some draft =>
    rw [Versioned.visible_of_draft hdraft] at hvisible
    cases hvisible
    exact absurd hseq (not_le.mpr (hok id row hdraft huser))
  | none =>
    rw [Versioned.visible_of_lookup_drafts hdraft] at hvisible
    exact h id row hvisible huser hseq

/-- What an allowed commit publishes is above the cursor. -/
theorem SyncSystem.above_of_allowed (hcommitting : (s.procs t).committing = true)
    (hok : s.commitsBehind (.advance t clock) = false) {id : UUID} {row : Expense}
    (hrow : (s.expenses.drafts t).lookup id = some row) (huser : row.userId = s.client.user) :
    s.client.cursor < row.serverSeq := by
  simp only [commitsBehind, hcommitting, Bool.true_and, List.any_eq_false] at hok
  have hnot := hok (id, row) (Table.mem_rows.mpr hrow)
  simpa [huser] using hnot

theorem Performs.caughtUp (performs : Performs s t effect s') (h : CaughtUp s)
    (hok : s.commitsBehind (.advance t clock) = false)
    (hcommit : ∀ next, effect = .commit next → (s.procs t).committing = true) : CaughtUp s' := by
  cases performs with
  | commit next =>
    have hcommitting := hcommit next rfl
    exact h.commit fun id row hrow huser ↦ SyncSystem.above_of_allowed hcommitting hok hrow huser
  | read | draw | lock | insert | update | count | rollback => exact h

theorem Outcome.caughtUp (h : Outcome rt settings s action s') (hok : s.commitsBehind action = false)
    (hstamps : Stamps s) (hcaught : CaughtUp s) : CaughtUp s' := by
  cases h with
  | pushed t clock run running effect steps s' performs =>
    refine performs.caughtUp hcaught hok fun next heq ↦ ?_
    cases steps with
    | committed returned counted stage =>
      obtain ⟨user, scanned, rejects, now, _⟩ := run
      subst stage
      rw [running]
      rfl
    | raised | devices | owners | drawn | inserted | updated | stale | written | uncounted | counted =>
      cases heq
  | swept t clock run running effect steps s' performs =>
    refine performs.caughtUp hcaught hok fun next heq ↦ ?_
    cases steps with
    | finished stage =>
      obtain ⟨userId, limit, tie, now, _⟩ := run
      subst stage
      rw [running]
      rfl
    | raised | selected | sameCurrency | firstRate | noFirstRate | secondRate | noSecondRate | gone
    | updated => cases heq
  | nullified t clock run running effect steps s' performs =>
    refine performs.caughtUp hcaught hok fun next heq ↦ ?_
    cases steps with
    | finished stage =>
      obtain ⟨user, now, _⟩ := run
      subst stage
      rw [running]
      rfl
    | selected | nulled | unarmed | gone => cases heq
  | pulled limit => exact hcaught.pulled hstamps limit
  | started | aborted | ratesUpserted => exact hcaught

/-- In every run from empty tables in which no commit publishes a row of the client's user at or
below the client's cursor, a page that is not full completes the client's copy. -/
theorem pulls_complete {trace : List (SyncSystem × SyncAction)} {limit : ℕ}
    (hrun : SyncSystem.FromEmpty rt settings (fun s action ↦ s.commitsBehind action = false) trace s)
    (hpull : SyncSystem.step rt settings s (.pull limit) = some s') (hlast : s'.client.hasMore = false) :
    Synced s' := by
  obtain ⟨users, devices, fxRates, reader, hrun⟩ := hrun
  have hinv : Stamps s ∧ CaughtUp s := by
    refine hrun.invariant (fun s ↦ Stamps s ∧ CaughtUp s) ⟨.empty (fun place ↦ ?_) _, fun id row hrow ↦ ?_⟩ ?_
    · cases place <;> rfl
    · simp [SyncSystem.initial, SyncSystem.ofTables] at hrow
    · rintro s action s' ⟨hstamps, hcaught⟩ hok hstep
      have houtcome := SyncSystem.step_outcome hstep
      exact ⟨houtcome.stamps hstamps, houtcome.caughtUp hok hstamps hcaught⟩
  have houtcome := SyncSystem.step_outcome hpull
  cases houtcome with
  | pulled limit => exact hinv.2.synced hlast

end

/-- A second record of the first user, with id `6`. -/
def otherExpense : RawRecord :=
  sampleRecord "00000000-0000-0000-0000-000000000006" "00000000-0000-0000-0000-000000000002" 5 1

/-- The push of `3` draws the value 1 and stays open while the push of `6` draws 2 and commits;
the client pulls, the first push commits, and only the last page is missing. -/
def overtakingPages : List SyncAction :=
  SyncSystem.transaction 0 (.push ⟨1⟩ [sampleExpense 12 1] 0) 4 ++
    SyncSystem.transaction 1 (.push ⟨1⟩ [otherExpense] 0) 7 ++ [.pull 200] ++
    List.replicate 3 (.advance 0 0)

/-- The last page is empty, and the client never gets the expense `3`. -/
theorem pulls_not_complete : ¬ ∀ (rt : Runtime) (settings : Settings)
    (trace : List (SyncSystem × SyncAction)) (s s' : SyncSystem) (limit : ℕ),
    SyncSystem.FromEmpty rt settings (fun _ _ ↦ True) trace s → (∀ t, (s.procs t).running = false) →
      SyncSystem.step rt settings s (.pull limit) = some s' → s'.client.hasMore = false → Synced s' := by
  intro hcomplete
  have hbefore : (exec (SyncSystem.step .ascii sampleSettings) .sample overtakingPages).map (fun s ↦
      ((s.procs 0).running, (s.procs 1).running)) = some (false, false) := by
    decide +kernel
  have hafter : ((exec (SyncSystem.step .ascii sampleSettings) .sample overtakingPages).bind fun s ↦
      SyncSystem.step .ascii sampleSettings s (.pull 200)).map (fun s ↦ (s.client.hasMore, s.client.user,
        (s.expenses.committed.lookup ⟨3⟩).map (·.userId), (s.client.delivered.lookup ⟨3⟩).isSome)) =
      some (false, ⟨1⟩, some ⟨1⟩, false) := by
    decide +kernel
  have hactors : ∀ action ∈ overtakingPages, action.actor = some 0 ∨ action.actor = some 1 ∨
      action.actor = none := by
    decide
  obtain ⟨before, hexec, hended⟩ := Option.map_eq_some_iff.mp hbefore
  rw [hexec, Option.bind_some] at hafter
  obtain ⟨after, hstep, hfacts⟩ := Option.map_eq_some_iff.mp hafter
  simp only [Prod.mk.injEq, Option.map_eq_some_iff] at hended hfacts
  obtain ⟨hlast, huser, ⟨row, hrow, howner⟩, hmissing⟩ := hfacts
  have hrun := run_of_exec hexec
  have hquiet : ∀ t, (before.procs t).running = false := by
    intro t
    by_cases hzero : t = 0
    · rw [hzero]
      exact hended.1
    by_cases hone : t = 1
    · rw [hone]
      exact hended.2
    rw [exec_proc hexec fun action hmem heq ↦ ?_]
    · rfl
    · rcases hactors action hmem with h | h | h <;> rw [h] at heq <;> cases heq
      · exact hzero rfl
      · exact hone rfl
  have hdelivered := hcomplete .ascii sampleSettings _ before after 200 ⟨_, _, _, _, hrun⟩ hquiet hstep
    hlast ⟨3⟩ row hrow (howner.trans huser.symm)
  rw [hdelivered] at hmissing
  cases hmissing

/-- Both pushes commit in the order of their values, with a page in between. -/
theorem pulls_complete_sample : ∃ s, (s.expenses.committed.lookup ⟨6⟩).isSome = true ∧ Synced s := by
  let guardedStep (s : SyncSystem) (action : SyncAction) : Option SyncSystem :=
    if s.commitsBehind action = false then SyncSystem.step .ascii sampleSettings s action else none
  have hexec : ((exec guardedStep .sample (SyncSystem.transaction 0 (.push ⟨1⟩ [sampleExpense 12 1] 0) 7 ++
      [.pull 200] ++ SyncSystem.transaction 1 (.push ⟨1⟩ [otherExpense] 0) 7)).bind fun s ↦
      (SyncSystem.step .ascii sampleSettings s (.pull 200)).map fun s' ↦ (s, s')).map (fun states ↦
        (states.2.client.hasMore, (states.2.expenses.committed.lookup ⟨6⟩).isSome)) = some (false, true) := by
    decide +kernel
  obtain ⟨⟨s, s'⟩, hstates, hfacts⟩ := Option.map_eq_some_iff.mp hexec
  obtain ⟨before, hbefore, hstep⟩ := Option.bind_eq_some_iff.mp hstates
  obtain ⟨after, hafter, heq⟩ := Option.map_eq_some_iff.mp hstep
  cases heq
  obtain ⟨hlast, hstored⟩ := Prod.mk.inj hfacts
  obtain ⟨trace, hrun⟩ := exists_guarded_append .nil hbefore
  exact ⟨s', hstored, pulls_complete ⟨_, _, _, _, hrun⟩ hafter hlast⟩

end VoiceSpend
