import VoiceSpend.Concurrency.Steps
import VoiceSpend.Fx.Sweep

/-!
# A transaction alone

`pushSync`, `recomputeAmountBase` and `nullAmountBaseForUser` describe a transaction without
concurrent writers in one piece; the concurrent system takes it statement by statement. A
transaction that runs while no other one holds a row ends with the tables, the sequence and the
results that its function computes, or rolls back when the function raises.
-/

namespace VoiceSpend

open Machine

section

variable {rt : Runtime} {settings : Settings} {s s' base : SyncSystem} {t : ℕ} {clock : Instant}
  {run : PushRun} {u : UpsertState} {insertion : Insertion} {todo : List Insertion}

/-- One statement of a push. -/
theorem PushRun.repeats (hrun : s.procs t = .push run)
    (hperform : s.perform t (run.statement rt s t clock) = some s') :
    Repeats (SyncSystem.step rt settings) (.advance t clock) s s' := by
  apply Repeats.once
  simp only [SyncSystem.step, SyncSystem.statement, hrun, Option.bind_some]
  exact hperform

/-- A push during its upsert, with the table, the sequence and the returned rows of `bulkUpsert`. -/
structure AtUpsert (base s : SyncSystem) (t : ℕ) (u : UpsertState) : Prop where
  users : s.users = base.users
  devices : s.devices = base.devices
  view : s.expenses.view t = u.expenses
  seq : s.syncSeq = u.seq
  committed : s.expenses.committed = base.expenses.committed
  usage : s.usage = base.usage
  alone : s.expenses.Alone t

/-- A version written under its lock. -/
theorem AtUpsert.put (h : AtUpsert base s t u) {id : UUID} {row : Expense} (seq : ℕ)
    (hfree : s.expenses.Free t id) (returned : List Returned) (next : Proc) :
    AtUpsert base (s.put t id row seq hfree next) t ⟨u.expenses.insert id row, seq, returned⟩ where
  users := h.users
  devices := h.devices
  view := by
    rw [← h.view]
    exact s.expenses.view_write row hfree
  seq := rfl
  committed := h.committed
  usage := h.usage
  alone := h.alone.write id row hfree

/-- One row of the upsert is two steps: the `BEFORE INSERT` trigger, and the row under its lock. -/
theorem AtUpsert.row (h : AtUpsert base s t u) (hrun : s.procs t = .push run)
    (hstage : run.stage = .writing (insertion :: todo) none u.returned) :
    ∃ s', Repeats (SyncSystem.step rt settings) (.advance t clock) s s' ∧
      AtUpsert base s' t (upsertRow run.user run.now u insertion) ∧
      s'.procs t = .push
        { run with stage := .writing todo none (upsertRow run.user run.now u insertion).returned } := by
  let drawn : PushRun := { run with stage := .writing (insertion :: todo) (some (s.syncSeq + 1)) u.returned }
  let middle : SyncSystem := { s with syncSeq := s.syncSeq + 1 }.setProc t (.push drawn)
  let goto (returned : List Returned) : Proc := .push { run with stage := .writing todo none returned }
  have hmiddle : Repeats (SyncSystem.step rt settings) (.advance t clock) s middle := by
    apply PushRun.repeats hrun
    simp only [PushRun.statement, hstage]
    rfl
  have hproc : middle.procs t = .push drawn := SyncSystem.setProc_procs ..
  have hfree : middle.expenses.Free t insertion.id := h.alone insertion.id
  have hat : AtUpsert base middle t ⟨u.expenses, s.syncSeq + 1, u.returned⟩ :=
    ⟨h.users, h.devices, h.view, rfl, h.committed, h.usage, h.alone⟩
  have hvisible : middle.expenses.visible t insertion.id = u.expenses.lookup insertion.id := by
    rw [← h.view, Versioned.lookup_view]
    rfl
  unfold upsertRow
  rw [← h.seq]
  cases hlookup : u.expenses.lookup insertion.id with
  | none =>
    let row := Expense.ofInsertion run.user run.now insertion (s.syncSeq + 1)
    let next := goto (u.returned ++ [⟨insertion.id, s.syncSeq + 1, true⟩])
    have hinsert : Repeats (SyncSystem.step rt settings) (.advance t clock) middle
        (middle.put t insertion.id row middle.syncSeq hfree next) := by
      apply PushRun.repeats hproc
      simp only [PushRun.statement, drawn, hvisible, hlookup, SyncSystem.perform, dif_pos hfree]
      rfl
    exact ⟨_, hmiddle.trans hinsert, hat.put _ hfree _ next, Function.update_self ..⟩
  | some row =>
    by_cases hnewer : row.client.clientRev < insertion.client.clientRev
    · let new := row.onConflict insertion.client (s.syncSeq + 1 + 1)
      let next := goto (u.returned ++ [⟨insertion.id, s.syncSeq + 1 + 1, false⟩])
      have hupdate : Repeats (SyncSystem.step rt settings) (.advance t clock) middle
          (middle.put t insertion.id new (s.syncSeq + 1 + 1) hfree next) := by
        apply PushRun.repeats hproc
        simp only [PushRun.statement, drawn, hvisible, hlookup, hnewer, if_true, SyncSystem.perform,
          dif_pos hfree]
        rfl
      refine ⟨_, hmiddle.trans hupdate, ?_⟩
      simp only [hnewer, if_true]
      exact ⟨hat.put _ hfree _ next, Function.update_self ..⟩
    · have hlock : Repeats (SyncSystem.step rt settings) (.advance t clock) middle
          ({ middle with expenses := middle.expenses.lock t insertion.id hfree }.setProc t
            (goto u.returned)) := by
        apply PushRun.repeats hproc
        simp only [PushRun.statement, drawn, hvisible, hlookup, hnewer, if_false, SyncSystem.perform,
          dif_pos hfree]
        rfl
      refine ⟨_, hmiddle.trans hlock, ?_⟩
      simp only [hnewer, if_false]
      exact ⟨⟨h.users, h.devices, h.view, rfl, h.committed, h.usage, h.alone.lock _ hfree⟩,
        Function.update_self ..⟩

/-- The rows of the upsert, by induction on the `VALUES` list. -/
theorem AtUpsert.rows (rt : Runtime) (settings : Settings) (clock : Instant) (h : AtUpsert base s t u)
    (hrun : s.procs t = .push run) (hstage : run.stage = .writing todo none u.returned) :
    ∃ s', Repeats (SyncSystem.step rt settings) (.advance t clock) s s' ∧
      AtUpsert base s' t (todo.foldl (upsertRow run.user run.now) u) ∧
      s'.procs t = .push
        { run with stage := .counting (todo.foldl (upsertRow run.user run.now) u).returned } := by
  induction todo generalizing s run u with
  | nil =>
    refine ⟨s.setProc t (.push { run with stage := .counting u.returned }), PushRun.repeats hrun ?_,
      ⟨h.users, h.devices, h.view, h.seq, h.committed, h.usage, h.alone⟩, SyncSystem.setProc_procs ..⟩
    simp only [PushRun.statement, hstage]
    rfl
  | cons insertion rest ih =>
    obtain ⟨middle, hfirst, hmiddle, hproc⟩ := h.row hrun hstage
    obtain ⟨s', hrest, hdone, hlast⟩ := ih hmiddle hproc rfl
    exact ⟨s', hfirst.trans hrest, hdone, hlast⟩

/-- The committed tables, beside entitlements that no push writes. -/
def SyncSystem.db (s : SyncSystem) (entitlements : Table UUID Entitlement) : Db :=
  ⟨s.users, s.devices, s.expenses.committed, s.usage.committed, entitlements, s.syncSeq⟩

/-- The counter and the commit, after the upsert. -/
theorem AtUpsert.finish (rt : Runtime) (settings : Settings) (clock : Instant) (h : AtUpsert base s t u)
    (husage : base.usage.Unheld) (hrun : s.procs t = .push run)
    (hstage : run.stage = .counting u.returned) (entitlements : Table UUID Entitlement) :
    ∃ s', Repeats (SyncSystem.step rt settings) (.advance t clock) s s' ∧
      match incrementUsage base.usage.committed run.user (currentPeriod clock) (newCount u.returned)
        run.now with
      | some counters => s'.db entitlements =
            ⟨base.users, base.devices, u.expenses, counters, entitlements, u.seq⟩ ∧
          s'.procs t = .answered run.user (run.scanned.order.map (resultFor run.rejects u.returned))
      | none => s'.expenses.committed = base.expenses.committed ∧
          s'.usage.committed = base.usage.committed ∧ s'.procs t = .failed := by
  have hview : s.usage.view t = base.usage.committed := by rw [h.usage, husage.view]
  let key := (run.user, currentPeriod clock)
  have hvisible : s.usage.visible t key = base.usage.committed.lookup key := by
    rw [← Versioned.lookup_view, hview]
  unfold incrementUsage
  by_cases hzero : newCount u.returned = 0
  · have hcounted : Repeats (SyncSystem.step rt settings) (.advance t clock) s
        (s.setProc t (.push { run with stage := .committing u.returned none })) := by
      apply PushRun.repeats hrun
      simp only [PushRun.statement, hstage, hzero, if_true]
      rfl
    refine ⟨_, hcounted.trans (PushRun.repeats (SyncSystem.setProc_procs ..) rfl), ?_⟩
    rw [if_pos hzero]
    refine ⟨?_, Function.update_self ..⟩
    change (⟨s.users, s.devices, s.expenses.view t, s.usage.view t, entitlements, s.syncSeq⟩ : Db) = _
    rw [h.users, h.devices, h.view, hview, h.seq]
  · rw [if_neg hzero]
    cases hadd : addToCounter (base.usage.committed.lookup key) (newCount u.returned) run.now with
    | none =>
      refine ⟨s.rollback t, PushRun.repeats hrun ?_, ?_⟩
      · simp only [PushRun.statement, hstage, hzero, if_false]
        simp only [key] at hvisible hadd
        rw [hvisible, hadd]
        rfl
      · refine ⟨h.committed, ?_, SyncSystem.rollback_procs ..⟩
        exact (congrArg Versioned.committed h.usage : s.usage.committed = _)
    | some counter =>
      have hfree : s.usage.Free t key := by
        rw [h.usage]
        exact husage.alone t key
      have hcounted : Repeats (SyncSystem.step rt settings) (.advance t clock) s
          ({ s with usage := s.usage.write t key counter hfree }.setProc t
            (.push { run with stage := .committing u.returned (some clock) })) := by
        apply PushRun.repeats hrun
        simp only [PushRun.statement, hstage, hzero, if_false]
        simp only [key] at hvisible hadd
        rw [hvisible, hadd]
        simp only [SyncSystem.perform]
        exact dif_pos hfree
      refine ⟨_, hcounted.trans (PushRun.repeats (SyncSystem.setProc_procs ..) rfl), ?_,
        Function.update_self ..⟩
      change (⟨s.users, s.devices, s.expenses.view t, (s.usage.write t key counter hfree).view t,
        entitlements, s.syncSeq⟩ : Db) = _
      rw [h.users, h.devices, h.view, Versioned.view_write, hview, h.seq]

/-- A push that no other transaction gets in the way of does what `pushSync` does. -/
theorem push_alone (s : SyncSystem) (hexpenses : s.expenses.Unheld) (husage : s.usage.Unheld)
    (entitlements : Table UUID Entitlement) (user : UUID) (batch : List RawRecord) (now : Instant) :
    ∃ s', Repeats (SyncSystem.step rt settings) (.advance t clock)
        (s.setProc t ((SyncRequest.push user batch now).proc rt)) s' ∧
      match pushSync rt settings (s.db entitlements) user batch now clock with
      | some (after, response) => s'.db entitlements = after ∧ s'.procs t = .answered user response.results
      | none => s'.expenses.committed = s.expenses.committed ∧ s'.usage.committed = s.usage.committed ∧
          s'.procs t = .failed := by
  let scanned := scan (batch.map (classify rt))
  let owned := ownedDeviceIds s.devices user (scanned.parsed.map (·.deviceId))
  let owners := existingOwners s.expenses.committed (scanned.parsed.map (·.id))
  let checked := checkOwners owned owners user scanned
  let first : PushRun := ⟨user, scanned, fun _ ↦ none, now, .devices⟩
  let second : PushRun := { first with stage := .owners owned }
  let s₁ := s.setProc t (.push first)
  let s₂ := s₁.setProc t (.push second)
  have hdevices : Repeats (SyncSystem.step rt settings) (.advance t clock) s₁ s₂ :=
    PushRun.repeats (SyncSystem.setProc_procs ..) rfl
  have hproc : s₂.procs t = .push second := SyncSystem.setProc_procs ..
  have hchecked : checkOwners owned (existingOwners (s₂.expenses.view t) (scanned.parsed.map (·.id))) user
      scanned = checked := by
    rw [show s₂.expenses.view t = _ from hexpenses.view t]
  have hpush : pushSync rt settings (s.db entitlements) user batch now clock =
      (toInsertions rt checked.2).bind fun insertions ↦
        let u := bulkUpsert user now s.expenses.committed s.syncSeq insertions
        (incrementUsage s.usage.committed user (currentPeriod clock) (newCount u.returned) now).bind
          fun counters ↦ some (⟨s.users, s.devices, u.expenses, counters, entitlements, u.seq⟩,
            ⟨scanned.order.map (resultFor checked.1 u.returned), highWater u.expenses user,
              buildEntitlementSignal settings entitlements counters user clock⟩) := rfl
  rw [hpush]
  cases hinsertions : toInsertions rt checked.2 with
  | none =>
    refine ⟨s₂.rollback t, hdevices.trans (PushRun.repeats hproc ?_), rfl, rfl, SyncSystem.rollback_procs ..⟩
    simp only [PushRun.statement, second, first, hchecked, hinsertions]
    rfl
  | some insertions =>
    let third : PushRun := { second with rejects := checked.1, stage := .writing insertions none [] }
    have howners : Repeats (SyncSystem.step rt settings) (.advance t clock) s₂
        (s₂.setProc t (.push third)) := by
      apply PushRun.repeats hproc
      simp only [PushRun.statement, second, first, hchecked, hinsertions]
      rfl
    have hstart : AtUpsert s (s₂.setProc t (.push third)) t ⟨s.expenses.committed, s.syncSeq, []⟩ :=
      ⟨rfl, rfl, hexpenses.view t, rfl, rfl, rfl, hexpenses.alone t⟩
    obtain ⟨s₃, hrows, hat, hcounting⟩ := hstart.rows rt settings clock (SyncSystem.setProc_procs ..) rfl
    obtain ⟨s₄, hrest, hdone⟩ := hat.finish rt settings clock husage hcounting rfl entitlements
    refine ⟨s₄, hdevices.trans (howners.trans (hrows.trans hrest)), ?_⟩
    rw [Option.bind_some]
    dsimp only [bulkUpsert]
    let upserted := insertions.foldl (upsertRow user now) ⟨s.expenses.committed, s.syncSeq, []⟩
    cases hcounters : incrementUsage s.usage.committed user (currentPeriod clock)
        (newCount upserted.returned) now with
    | none =>
      simp only [upserted] at hcounters
      simp only [third, second, first, hcounters] at hdone
      exact hdone
    | some counters =>
      simp only [upserted] at hcounters
      simp only [third, second, first, hcounters] at hdone
      exact hdone

end

/-! ## Sweeps and invalidations -/

section

variable {rt : Runtime} {settings : Settings} {s s' base : SyncSystem} {t : ℕ} {clock : Instant}
  {run : SweepRun} {u : SweepState} {selected : SweepRow} {todo : List SweepRow}
  {expenses : Table UUID Expense} {seq : ℕ}

/-- One statement of a sweep. -/
theorem SweepRun.repeats (hrun : s.procs t = .sweep run)
    (hperform : s.perform t (run.statement settings s t) = some s') :
    Repeats (SyncSystem.step rt settings) (.advance t clock) s s' := by
  apply Repeats.once
  simp only [SyncSystem.step, SyncSystem.statement, hrun, Option.bind_some]
  exact hperform

/-- A background transaction, with the table and the sequence it has come to. -/
structure AtWrites (base s : SyncSystem) (t : ℕ) (expenses : Table UUID Expense) (seq : ℕ) : Prop
    extends AtUpsert base s t ⟨expenses, seq, []⟩ where
  fxRates : s.fxRates = base.fxRates

/-- A query in between. -/
theorem AtWrites.read (h : AtWrites base s t expenses seq) (next : Proc) :
    AtWrites base (s.setProc t next) t expenses seq :=
  ⟨⟨h.users, h.devices, h.view, h.seq, h.committed, h.usage, h.alone⟩, h.fxRates⟩

/-- An update, with the trigger's value. -/
theorem AtWrites.update (h : AtWrites base s t expenses seq) {id : UUID} (row : Expense)
    (hfree : s.expenses.Free t id) (next : Proc) :
    AtWrites base (s.put t id (s.stamped row) (s.syncSeq + 1) hfree next) t
      (expenses.insert id { row with serverSeq := seq + 1 }) (seq + 1) := by
  have hseq : s.syncSeq = seq := h.seq
  have hstamped : s.stamped row = { row with serverSeq := seq + 1 } := by rw [SyncSystem.stamped, hseq]
  rw [hstamped, hseq]
  exact ⟨h.toAtUpsert.put (seq + 1) hfree [] next, h.fxRates⟩

theorem AtWrites.visible (h : AtWrites base s t expenses seq) (id : UUID) :
    s.expenses.visible t id = expenses.lookup id := by
  rw [← Versioned.lookup_view, h.view]

theorem AtWrites.commit (h : AtWrites base s t expenses seq) (husage : base.usage.Unheld) (next : Proc)
    (entitlements : Table UUID Entitlement) : (s.commit t next).db entitlements =
      ⟨base.users, base.devices, expenses, base.usage.committed, entitlements, seq⟩ := by
  change (⟨s.users, s.devices, s.expenses.view t, s.usage.view t, entitlements, s.syncSeq⟩ : Db) = _
  rw [h.users, h.devices, h.view, h.usage, husage.view, h.seq]

/-- A transaction that has ended without a trace. -/
structure RolledBack (base s : SyncSystem) (t : ℕ) : Prop where
  expenses : s.expenses.committed = base.expenses.committed
  usage : s.usage.committed = base.usage.committed
  proc : s.procs t = .failed

theorem AtWrites.rollback (h : AtWrites base s t expenses seq) : RolledBack base (s.rollback t) t where
  expenses := h.committed
  usage := (congrArg Versioned.committed h.usage : s.usage.committed = _)
  proc := SyncSystem.rollback_procs ..

/-- Where the loop of a sweep has come to. -/
def SweepRun.Reached (base s : SyncSystem) (t : ℕ) (run : SweepRun) (next : SweepStage) :
    Option SweepState → Prop
  | some u => AtWrites base s t u.expenses u.seq ∧ s.procs t = .sweep { run with stage := next }
  | none => RolledBack base s t

/-- The `UPDATE` of one row. -/
theorem AtWrites.updating (h : AtWrites base s t u.expenses u.seq) {amountBase : ℚ}
    (hrun : s.procs t = .sweep { run with stage := .updating selected amountBase todo }) :
    ∃ s', Repeats (SyncSystem.step rt settings) (.advance t clock) s s' ∧
      run.Reached base s' t (.converting todo)
        ((Numeric.ofRat 18 4 amountBase).map fun stored ↦ u.update selected stored run.now) := by
  cases hstored : Numeric.ofRat 18 4 amountBase with
  | none =>
    refine ⟨s.rollback t, SweepRun.repeats hrun ?_, h.rollback⟩
    simp only [SweepRun.statement, hstored]
    rfl
  | some stored =>
    let next : Proc := .sweep { run with stage := .converting todo }
    rw [Option.map_some]
    unfold SweepState.update
    have hvisible := h.visible selected.id
    cases hlookup : u.expenses.lookup selected.id with
    | none =>
      rw [hlookup] at hvisible
      refine ⟨s.setProc t next, SweepRun.repeats hrun ?_, h.read next, SyncSystem.setProc_procs ..⟩
      simp only [SweepRun.statement, hstored, hvisible]
      rfl
    | some current =>
      rw [hlookup] at hvisible
      let new := current.recomputed stored selected.baseCurrency run.now
      have hfree : s.expenses.Free t selected.id := h.alone selected.id
      refine ⟨s.put t selected.id (s.stamped new) (s.syncSeq + 1) hfree next, SweepRun.repeats hrun ?_,
        h.update new hfree next, Function.update_self ..⟩
      simp only [SweepRun.statement, hstored, hvisible]
      exact dif_pos hfree

/-- One iteration: the conversion's queries, and the `UPDATE` if it gives a value. -/
theorem AtWrites.iteration (h : AtWrites base s t u.expenses u.seq)
    (hrun : s.procs t = .sweep { run with stage := .converting (selected :: todo) }) :
    ∃ s', Repeats (SyncSystem.step rt settings) (.advance t clock) s s' ∧
      run.Reached base s' t (.converting todo) (recomputeRow base.fxRates run.now u selected) := by
  let goto (stage : SweepStage) : Proc := .sweep { run with stage := stage }
  have hgoto {s : SyncSystem} (hat : AtWrites base s t u.expenses u.seq) (stage : SweepStage) :
      AtWrites base (s.setProc t (goto stage)) t u.expenses u.seq ∧
        (s.setProc t (goto stage)).procs t = .sweep { run with stage := stage } :=
    ⟨hat.read _, SyncSystem.setProc_procs ..⟩
  unfold recomputeRow convert
  by_cases hsame : selected.currencyOriginal = selected.baseCurrency
  · obtain ⟨hat, hproc⟩ := hgoto h (.updating selected selected.amountOriginal.toRat todo)
    have hread : Repeats (SyncSystem.step rt settings) (.advance t clock) s
        (s.setProc t (goto (.updating selected selected.amountOriginal.toRat todo))) := by
      apply SweepRun.repeats hrun
      simp only [SweepRun.statement, hsame, if_true]
      rfl
    obtain ⟨s', hupdate, hreached⟩ := hat.updating hproc
    rw [if_pos hsame]
    exact ⟨s', hread.trans hupdate, hreached⟩
  · rw [if_neg hsame, ← h.fxRates]
    cases hfrom : ratePerUsd s.fxRates selected.currencyOriginal selected.spentAt.date with
    | none =>
      refine ⟨s.setProc t (goto (.converting todo)), SweepRun.repeats hrun ?_, hgoto h _⟩
      simp only [SweepRun.statement, hsame, if_false, hfrom]
      rfl
    | some rateFrom =>
      let middle := s.setProc t (goto (.lookingUp selected rateFrom todo))
      obtain ⟨hat, hproc⟩ : AtWrites base middle t u.expenses u.seq ∧ middle.procs t =
          .sweep { run with stage := .lookingUp selected rateFrom todo } := hgoto h _
      have hread : Repeats (SyncSystem.step rt settings) (.advance t clock) s middle := by
        apply SweepRun.repeats hrun
        simp only [SweepRun.statement, hsame, if_false, hfrom]
        rfl
      have hrates : middle.fxRates = s.fxRates := rfl
      cases hto : ratePerUsd s.fxRates selected.baseCurrency selected.spentAt.date with
      | none =>
        refine ⟨middle.setProc t (goto (.converting todo)), hread.trans (SweepRun.repeats hproc ?_),
          hgoto hat _⟩
        simp only [SweepRun.statement, hrates, hto]
        rfl
      | some rateTo =>
        dsimp only
        cases hvalue : convertAmount selected.amountOriginal.toRat rateFrom rateTo with
        | none =>
          refine ⟨middle.rollback t, hread.trans (SweepRun.repeats hproc ?_), hat.rollback⟩
          simp only [SweepRun.statement, hrates, hto, hvalue]
          rfl
        | some amountBase =>
          obtain ⟨hconverted, hupdating⟩ := hgoto hat (.updating selected amountBase todo)
          have hsecond : Repeats (SyncSystem.step rt settings) (.advance t clock) middle
              (middle.setProc t (goto (.updating selected amountBase todo))) := by
            apply SweepRun.repeats hproc
            simp only [SweepRun.statement, hrates, hto, hvalue]
            rfl
          obtain ⟨s', hupdate, hreached⟩ := hconverted.updating hupdating
          exact ⟨s', hread.trans (hsecond.trans hupdate), hreached⟩

/-- The loop, by induction on the batch. -/
theorem AtWrites.rows (rt : Runtime) (settings : Settings) (clock : Instant)
    (h : AtWrites base s t u.expenses u.seq)
    (hrun : s.procs t = .sweep { run with stage := .converting todo }) :
    ∃ s', Repeats (SyncSystem.step rt settings) (.advance t clock) s s' ∧
      run.Reached base s' t (.converting []) (todo.foldlM (recomputeRow base.fxRates run.now) u) := by
  induction todo generalizing s u with
  | nil => exact ⟨s, .refl .., h, hrun⟩
  | cons selected rest ih =>
    obtain ⟨middle, hfirst, hreached⟩ := h.iteration hrun
    rw [List.foldlM_cons]
    cases hnext : recomputeRow base.fxRates run.now u selected with
    | none =>
      rw [hnext] at hreached
      exact ⟨middle, hfirst, hreached⟩
    | some next =>
      rw [hnext] at hreached
      obtain ⟨s', hrest, hdone⟩ := ih hreached.1 hreached.2
      exact ⟨s', hfirst.trans hrest, hdone⟩

/-- A sweep that no other transaction gets in the way of does what `recomputeAmountBase` does. -/
theorem sweep_alone (s : SyncSystem) (hexpenses : s.expenses.Unheld) (husage : s.usage.Unheld)
    (entitlements : Table UUID Entitlement) (userId : Option UUID) (limit : Option ℤ) (tie : UUID → ℕ)
    (now : Instant) :
    ∃ s', Repeats (SyncSystem.step rt settings) (.advance t clock)
        (s.setProc t ((SyncRequest.sweep userId limit tie now).proc rt)) s' ∧
      match recomputeAmountBase settings (s.db entitlements) s.fxRates userId limit tie now with
      | some (after, _) => s'.db entitlements = after ∧ s'.procs t = .done
      | none => RolledBack s s' t := by
  let first : SweepRun := ⟨userId, limit, tie, now, .selecting⟩
  let s₁ := s.setProc t (.sweep first)
  have hstart : AtWrites s s₁ t s.expenses.committed s.syncSeq :=
    ⟨⟨rfl, rfl, hexpenses.view t, rfl, rfl, rfl, hexpenses.alone t⟩, rfl⟩
  have hproc : s₁.procs t = .sweep first := SyncSystem.setProc_procs ..
  by_cases hlimit : sweepLimit settings limit < 0
  · rw [recomputeAmountBase, if_pos hlimit]
    refine ⟨s₁.rollback t, SweepRun.repeats hproc ?_, hstart.rollback⟩
    simp only [SweepRun.statement, first, hlimit, if_true]
    rfl
  · let batch := selectBatch s.users s.expenses.committed userId (sweepLimit settings limit).toNat tie
    let u : SweepState := ⟨s.expenses.committed, s.syncSeq, 0⟩
    have hsweep : recomputeAmountBase settings (s.db entitlements) s.fxRates userId limit tie now =
        (batch.foldlM (recomputeRow s.fxRates now) u).map fun swept ↦
          (⟨s.users, s.devices, swept.expenses, s.usage.committed, entitlements, swept.seq⟩,
            ⟨batch.length, swept.recomputed, batch.length - swept.recomputed⟩) := if_neg hlimit
    let s₂ := s₁.setProc t (.sweep { first with stage := .converting batch })
    have hselected : Repeats (SyncSystem.step rt settings) (.advance t clock) s₁ s₂ := by
      apply SweepRun.repeats hproc
      simp only [SweepRun.statement, first, hlimit, if_false]
      rw [show s₁.expenses.view t = _ from hexpenses.view t]
      rfl
    obtain ⟨middle, hrows, hreached⟩ : ∃ s', Repeats (SyncSystem.step rt settings) (.advance t clock) s₂ s' ∧
        first.Reached s s' t (.converting []) (batch.foldlM (recomputeRow s.fxRates now) u) :=
      AtWrites.rows rt settings clock (hstart.read _) (SyncSystem.setProc_procs ..)
    rw [hsweep]
    cases hfold : batch.foldlM (recomputeRow s.fxRates now) u with
    | none =>
      rw [hfold] at hreached
      exact ⟨middle, hselected.trans hrows, hreached⟩
    | some swept =>
      rw [hfold] at hreached
      obtain ⟨hat, hlast⟩ := hreached
      exact ⟨_, hselected.trans (hrows.trans (SweepRun.repeats hlast rfl)), hat.commit husage _ entitlements,
        Function.update_self ..⟩

end

section

variable {rt : Runtime} {settings : Settings} {s s' base : SyncSystem} {t : ℕ} {clock : Instant}
  {run : NullifyRun} {expenses : Table UUID Expense} {seq : ℕ}

/-- One statement of an invalidation. -/
theorem NullifyRun.repeats (hrun : s.procs t = .nullify run)
    (hperform : s.perform t (run.statement s t) = some s') :
    Repeats (SyncSystem.step rt settings) (.advance t clock) s s' := by
  apply Repeats.once
  simp only [SyncSystem.step, SyncSystem.statement, hrun, Option.bind_some]
  exact hperform

/-- The rows of the `UPDATE`, by induction on the snapshot: each of them still meets the condition
under its lock, since no other row of the snapshot has its id. -/
theorem AtWrites.nullified (rt : Runtime) (settings : Settings) (clock : Instant) {ids : List UUID}
    (h : AtWrites base s t expenses seq) (hnodup : ids.Nodup)
    (harmed : ∀ id ∈ ids, ∃ row, expenses.lookup id = some row ∧ armed run.user row = true)
    (hrun : s.procs t = .nullify { run with stage := .updating ids }) :
    ∃ s', Repeats (SyncSystem.step rt settings) (.advance t clock) s s' ∧
      AtWrites base s' t (ids.foldl (nullRow run.now) (expenses, seq)).1
        (ids.foldl (nullRow run.now) (expenses, seq)).2 ∧
      s'.procs t = .nullify { run with stage := .updating [] } := by
  induction ids generalizing s expenses seq with
  | nil => exact ⟨s, .refl .., h, hrun⟩
  | cons id rest ih =>
    obtain ⟨hnot, hrest⟩ := List.nodup_cons.mp hnodup
    obtain ⟨row, hrow, hrowArmed⟩ := harmed id List.mem_cons_self
    let next : Proc := .nullify { run with stage := .updating rest }
    have hfree : s.expenses.Free t id := h.alone id
    have hupdate : Repeats (SyncSystem.step rt settings) (.advance t clock) s
        (s.put t id (s.stamped (row.nulled run.now)) (s.syncSeq + 1) hfree next) := by
      apply NullifyRun.repeats hrun
      simp only [NullifyRun.statement, h.visible, hrow, hrowArmed, if_true]
      exact dif_pos hfree
    have hlater : ∀ other ∈ rest, ∃ row', (expenses.insert id { row.nulled run.now with
        serverSeq := seq + 1 }).lookup other = some row' ∧ armed run.user row' = true := by
      intro other hother
      have hne : other ≠ id := fun heq ↦ hnot (heq ▸ hother)
      rw [AList.lookup_insert_ne hne]
      exact harmed other (List.mem_cons_of_mem _ hother)
    obtain ⟨s', hrepeats, hdone⟩ :=
      ih (h.update (row.nulled run.now) hfree next) hrest hlater (Function.update_self ..)
    refine ⟨s', hupdate.trans hrepeats, ?_⟩
    rw [List.foldl_cons, nullRow, hrow]
    exact hdone

/-- An invalidation that no other transaction gets in the way of does what `nullAmountBaseForUser`
does. -/
theorem nullify_alone (s : SyncSystem) (hexpenses : s.expenses.Unheld) (husage : s.usage.Unheld)
    (entitlements : Table UUID Entitlement) (user : UUID) (now : Instant) :
    ∃ s', Repeats (SyncSystem.step rt settings) (.advance t clock)
        (s.setProc t ((SyncRequest.nullify user now).proc rt)) s' ∧
      s'.db entitlements = (nullAmountBaseForUser (s.db entitlements) user now).1 ∧ s'.procs t = .done := by
  let first : NullifyRun := ⟨user, now, .selecting⟩
  let s₁ := s.setProc t (.nullify first)
  have hstart : AtWrites s s₁ t s.expenses.committed s.syncSeq :=
    ⟨⟨rfl, rfl, hexpenses.view t, rfl, rfl, rfl, hexpenses.alone t⟩, rfl⟩
  let rows := (Table.rows s.expenses.committed).filter fun row ↦ armed user row.2
  let s₂ := s₁.setProc t (.nullify { first with stage := .updating (rows.map (·.1)) })
  have hselected : Repeats (SyncSystem.step rt settings) (.advance t clock) s₁ s₂ := by
    apply NullifyRun.repeats (SyncSystem.setProc_procs ..)
    simp only [NullifyRun.statement, first]
    rw [show s₁.expenses.view t = _ from hexpenses.view t]
    rfl
  have hnodup : (rows.map (·.1)).Nodup :=
    (Table.rows_keys_nodup s.expenses.committed).sublist (List.filter_sublist.map _)
  have harmed : ∀ id ∈ rows.map (·.1), ∃ row, s.expenses.committed.lookup id = some row ∧
      armed user row = true := by
    intro id hid
    obtain ⟨row, hrow, rfl⟩ := List.mem_map.mp hid
    obtain ⟨hmem, hrowArmed⟩ := List.mem_filter.mp hrow
    exact ⟨row.2, Table.mem_rows.mp hmem, hrowArmed⟩
  obtain ⟨s₃, hrows, hat, hproc⟩ : ∃ s₃, Repeats (SyncSystem.step rt settings) (.advance t clock) s₂ s₃ ∧
      AtWrites s s₃ t ((rows.map (·.1)).foldl (nullRow now) (s.expenses.committed, s.syncSeq)).1
        ((rows.map (·.1)).foldl (nullRow now) (s.expenses.committed, s.syncSeq)).2 ∧
      s₃.procs t = .nullify { first with stage := .updating [] } :=
    AtWrites.nullified rt settings clock (hstart.read _) hnodup harmed (SyncSystem.setProc_procs ..)
  exact ⟨_, hselected.trans (hrows.trans (NullifyRun.repeats hproc rfl)), hat.commit husage _ entitlements,
    Function.update_self ..⟩

end

end VoiceSpend
