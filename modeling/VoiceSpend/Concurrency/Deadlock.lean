import Mathlib.Order.WithBot
import VoiceSpend.Concurrency.Ownership
import VoiceSpend.Library.Locking

/-!
# Can transactions wait for each other in a cycle?

An upsert locks its rows in the order of its `VALUES` list, which is the client's, and a sweep in the
order of its selection; nothing makes the two agree. Where they do, `Ranked` is an invariant: a
transaction holds only rows that rank below the ones still ahead of it, and its counter comes last.
-/

namespace VoiceSpend

open Machine

/-! ## Locks -/

/-- The row a statement needs the lock of. -/
def Effect.expense? : Effect → Option UUID
  | .lock id _ | .insert id _ _ | .update id _ _ => some id
  | .read _ | .draw _ | .count .. | .commit _ | .rollback => none

/-- The counter a statement needs the lock of. -/
def Effect.counter? : Effect → Option (UUID × Period)
  | .count key _ _ => some key
  | .lock .. | .insert .. | .update .. | .read _ | .draw _ | .commit _ | .rollback => none

namespace SyncSystem

/-- A lock that transaction `t` has. -/
def Holds (s : SyncSystem) (t : ℕ) : UUID ⊕ (UUID × Period) → Prop
  | .inl id => s.expenses.holder id = some t
  | .inr key => s.usage.holder key = some t

/-- A lock that the next statement of transaction `t` waits for. -/
def Wants (rt : Runtime) (settings : Settings) (s : SyncSystem) (t : ℕ) : UUID ⊕ (UUID × Period) → Prop
  | .inl id => ∃ clock effect, statement rt settings s t clock = some effect ∧
    effect.expense? = some id ∧
      ¬ s.expenses.Free t id
  | .inr key => ∃ clock effect, statement rt settings s t clock = some effect ∧
    effect.counter? = some key ∧
      ¬ s.usage.Free t key

/-- A cycle of transactions each waiting for a lock of the next. -/
def Deadlocked (rt : Runtime) (settings : Settings) (s : SyncSystem) : Prop :=
  Locking.Deadlock s.Holds (s.Wants rt settings)

end SyncSystem

/-! ## The rows ahead of a transaction -/

/-- The rows the process has set out to write and has not come to yet, in order. -/
def Proc.pending : Proc → List UUID
  | .push ⟨_, _, _, _, .writing todo _ _⟩ => todo.map (·.id)
  | .sweep ⟨_, _, _, _, .converting todo⟩ => todo.map (·.id)
  | .sweep ⟨_, _, _, _, .lookingUp row _ todo⟩ | .sweep ⟨_, _, _, _, .updating row _ todo⟩ =>
    row.id :: todo.map (·.id)
  | .nullify ⟨_, _, .updating todo⟩ => todo
  | _ => []

/-- The process has not chosen its rows yet, or is over. -/
def Proc.fresh : Proc → Bool
  | .push ⟨_, _, _, _, .devices⟩ | .push ⟨_, _, _, _, .owners _⟩ | .sweep ⟨_, _, _, _, .selecting⟩
  | .nullify ⟨_, _, .selecting⟩ | .idle | .answered .. | .done | .failed => true
  | _ => false

/-- Nothing is left but the commit of the push. -/
def Proc.settled : Proc → Bool
  | .push ⟨_, _, _, _, .committing ..⟩ => true
  | _ => false

/-- The ids rank higher and higher. -/
def Rising (rank : UUID → ℕ) (ids : List UUID) : Prop :=
  ids.Pairwise fun first second ↦ rank first < rank second

/-- A transaction that chooses its rows (the `VALUES` list of a push, the batch of a sweep) chooses
them in the order of the ranking. -/
def InOrder (rt : Runtime) (settings : Settings) (rank : UUID → ℕ) (s : SyncSystem) : SyncAction → Prop
  | .advance t clock => (s.procs t).fresh = true →
    ∀ effect ∈ SyncSystem.statement rt settings s t clock, Rising rank effect.next.pending
  | .start .. | .abort _ | .upsertRates .. | .pull _ => True

instance (rt : Runtime) (settings : Settings) (rank : UUID → ℕ) (s : SyncSystem) (action : SyncAction) :
    Decidable (InOrder rt settings rank s action) := by
  unfold InOrder Rising
  cases action <;> infer_instance

/-- What a statement does to the rows ahead of its process. -/
inductive Proc.Advances (proc : Proc) : Effect → Prop
  | passed (next : Proc) (ahead : next.pending.Sublist proc.pending) (going : next.fresh = proc.fresh)
      (unsettled : proc.settled = false) : Advances proc (.read next)
  | chosen (next : Proc) (fresh : proc.fresh = true) (going : next.fresh = false) : Advances proc (.read next)
  | drawn (next : Proc) (ahead : next.pending = proc.pending) (going : next.fresh = proc.fresh)
      (unsettled : proc.settled = false) : Advances proc (.draw next)
  | taken {effect : Effect} (id : UUID) (row : effect.expense? = some id)
      (ahead : proc.pending = id :: effect.next.pending) (going : effect.next.fresh = false)
      (unsettled : proc.settled = false) : Advances proc effect
  | counted (key : UUID × Period) (counter : UsageCounter) (next : Proc) (ahead : next.pending = [])
      (going : next.fresh = false) (unsettled : proc.settled = false) (settled : next.settled = true) :
      Advances proc (.count key counter next)
  | committed (next : Proc) (ended : next.running = false) : Advances proc (.commit next)
  | raised : Advances proc .rollback

variable {rt : Runtime} {settings : Settings} {rank : UUID → ℕ} {s s' : SyncSystem} {t u : ℕ}
  {clock : Instant} {effect : Effect} {action : SyncAction}

theorem PushRun.Steps.advances {run : PushRun} (h : run.Steps rt s t clock effect) :
    (Proc.push run).Advances effect := by
  obtain ⟨user, scanned, rejects, now, stage⟩ := run
  cases h with
  | raised => exact .raised
  | devices stage =>
    cases stage
    exact .passed _ (List.Sublist.refl _) rfl rfl
  | owners owned stage =>
    cases stage
    exact .chosen _ rfl rfl
  | drawn insertion todo returned stage =>
    cases stage
    exact .drawn _ rfl rfl rfl
  | inserted insertion todo drawn returned stage =>
    cases stage
    exact .taken insertion.id rfl rfl rfl rfl
  | updated insertion todo drawn returned stage =>
    cases stage
    exact .taken insertion.id rfl rfl rfl rfl
  | stale insertion todo drawn returned stage =>
    cases stage
    exact .taken insertion.id rfl rfl rfl rfl
  | written drawn returned stage =>
    cases stage
    exact .passed _ (List.Sublist.refl _) rfl rfl
  | uncounted returned stage =>
    cases stage
    exact .passed _ (List.Sublist.refl _) rfl rfl
  | counted returned stage =>
    cases stage
    exact .counted _ _ _ rfl rfl rfl rfl
  | committed => exact .committed _ rfl

theorem SweepRun.Steps.advances {run : SweepRun} (h : run.Steps settings s t effect) :
    (Proc.sweep run).Advances effect := by
  obtain ⟨userId, limit, tie, now, stage⟩ := run
  cases h with
  | raised => exact .raised
  | selected stage =>
    cases stage
    exact .chosen _ rfl rfl
  | sameCurrency row todo stage | firstRate row todo stage =>
    cases stage
    exact .passed _ (List.Sublist.refl _) rfl rfl
  | noFirstRate row todo stage =>
    cases stage
    exact .passed _ (List.sublist_cons_self _ _) rfl rfl
  | secondRate row rateFrom todo stage =>
    cases stage
    exact .passed _ (List.Sublist.refl _) rfl rfl
  | noSecondRate row rateFrom todo stage =>
    cases stage
    exact .passed _ (List.sublist_cons_self _ _) rfl rfl
  | updated row amountBase todo stage =>
    cases stage
    exact .taken row.id rfl rfl rfl rfl
  | gone row amountBase todo stage =>
    cases stage
    exact .passed _ (List.sublist_cons_self _ _) rfl rfl
  | finished => exact .committed _ rfl

theorem NullifyRun.Steps.advances {run : NullifyRun} (h : run.Steps s t effect) :
    (Proc.nullify run).Advances effect := by
  obtain ⟨user, now, stage⟩ := run
  cases h with
  | selected stage =>
    cases stage
    exact .chosen _ rfl rfl
  | nulled id todo stage | unarmed id todo stage =>
    cases stage
    exact .taken id rfl rfl rfl rfl
  | gone id todo stage =>
    cases stage
    exact .passed _ (List.sublist_cons_self _ _) rfl rfl
  | finished => exact .committed _ rfl

theorem SyncSystem.statement_advances (h : SyncSystem.statement rt settings s t clock = some effect) :
    (s.procs t).Advances effect := by
  unfold SyncSystem.statement at h
  split at h
  · rename_i run heq
    cases h
    rw [heq]
    exact (run.statement_steps rt s t clock).advances
  · rename_i run heq
    cases h
    rw [heq]
    exact (run.statement_steps settings s t).advances
  · rename_i run heq
    cases h
    rw [heq]
    exact (run.statement_steps s t).advances
  · cases h

theorem Proc.pending_of_not_running {proc : Proc} (h : proc.running = false) : proc.pending = [] := by
  cases proc with
  | push | sweep | nullify => cases h
  | idle | answered | done | failed => rfl

/-! ## The invariant -/

/-- Transaction `t` holds rows below the ones ahead of it, and a counter only when nothing is ahead. -/
structure Ranked (rank : UUID → ℕ) (s : SyncSystem) (t : ℕ) : Prop where
  ascending : Rising rank (s.procs t).pending
  below : ∀ id, s.expenses.holder id = some t → ∀ ahead ∈ (s.procs t).pending, rank id < rank ahead
  counter : ∀ key, s.usage.holder key = some t → (s.procs t).settled = true
  fresh : (s.procs t).fresh = true →
    (∀ id, s.expenses.holder id ≠ some t) ∧ ∀ key, s.usage.holder key ≠ some t

/-- A transaction that holds nothing and has no row ahead. -/
theorem Ranked.of_released (hrows : ∀ id, s.expenses.holder id ≠ some t)
    (hcounters : ∀ key, s.usage.holder key ≠ some t) (hpending : (s.procs t).pending = []) :
    Ranked rank s t where
  ascending := by
    rw [hpending]
    exact List.Pairwise.nil
  below id hheld := absurd hheld (hrows id)
  counter key hheld := absurd hheld (hcounters key)
  fresh _ := ⟨hrows, hcounters⟩

/-- A step that takes no lock for `t` and leaves its process as it is. -/
theorem Ranked.congr (h : Ranked rank s t) (hproc : s'.procs t = s.procs t)
    (hrows : ∀ id, s'.expenses.holder id = some t → s.expenses.holder id = some t)
    (hcounters : ∀ key, s'.usage.holder key = some t → s.usage.holder key = some t) :
    Ranked rank s' t where
  ascending := by
    rw [hproc]
    exact h.ascending
  below id hheld := by
    rw [hproc]
    exact h.below id (hrows id hheld)
  counter key hheld := by
    rw [hproc]
    exact h.counter key (hcounters key hheld)
  fresh hfresh := by
    rw [hproc] at hfresh
    exact ⟨fun id hheld ↦ (h.fresh hfresh).1 id (hrows id hheld),
      fun key hheld ↦ (h.fresh hfresh).2 key (hcounters key hheld)⟩

/-- A step that takes no lock for `t` and chooses no rows. -/
theorem Ranked.goOn (h : Ranked rank s t)
    (hrows : ∀ id, s'.expenses.holder id = some t → s.expenses.holder id = some t)
    (hcounters : ∀ key, s'.usage.holder key ≠ some t)
    (hahead : (s'.procs t).pending.Sublist (s.procs t).pending)
    (hgoing : (s'.procs t).fresh = (s.procs t).fresh) : Ranked rank s' t where
  ascending := h.ascending.sublist hahead
  below id hheld row hrow := h.below id (hrows id hheld) row (hahead.subset hrow)
  counter key hheld := absurd hheld (hcounters key)
  fresh hfresh := by
    rw [hgoing] at hfresh
    exact ⟨fun id hheld ↦ (h.fresh hfresh).1 id (hrows id hheld), hcounters⟩

/-- A transaction that ends holds nothing. -/
theorem Ranked.of_release {expenses : Table UUID Expense} {usage : UsageTable}
    (hexpenses : s'.expenses = s.expenses.release t expenses)
    (husage : s'.usage = s.usage.release t usage) (hpending : (s'.procs t).pending = []) :
    Ranked rank s' t := by
  refine .of_released (fun id hheld ↦ ?_) (fun key hheld ↦ ?_) hpending
  · rw [hexpenses] at hheld
    exact ((s.expenses.holder_release_eq_iff t _ t id).mp hheld).1 rfl
  · rw [husage] at hheld
    exact ((s.usage.holder_release_eq_iff t _ t key).mp hheld).1 rfl

theorem Ranked.rollback (s : SyncSystem) (t : ℕ) : Ranked rank (s.rollback t) t := by
  refine .of_release rfl rfl ?_
  rw [SyncSystem.rollback_procs]
  rfl

/-- A statement takes no lock for another transaction. -/
theorem Performs.holder_of_ne (h : Performs s t effect s') (hne : u ≠ t) :
    (∀ id, s'.expenses.holder id = some u → s.expenses.holder id = some u) ∧
      ∀ key, s'.usage.holder key = some u → s.usage.holder key = some u := by
  cases h with
  | read | draw => exact ⟨fun _ ↦ id, fun _ ↦ id⟩
  | lock id next hfree =>
    refine ⟨fun other hheld ↦ ?_, fun _ hheld ↦ hheld⟩
    exact ((s.expenses.holder_lock_eq_iff hfree u other).mp hheld).resolve_left fun hown ↦ hne hown.1
  | insert id row next hfree | update id row next hfree =>
    refine ⟨fun other hheld ↦ ?_, fun _ hheld ↦ hheld⟩
    exact ((s.expenses.holder_write_eq_iff _ hfree u other).mp hheld).resolve_left fun hown ↦ hne hown.1
  | count key counter next hfree =>
    refine ⟨fun _ hheld ↦ hheld, fun other hheld ↦ ?_⟩
    exact ((s.usage.holder_write_eq_iff _ hfree u other).mp hheld).resolve_left fun hown ↦ hne hown.1
  | commit | rollback =>
    exact ⟨fun id hheld ↦ ((s.expenses.holder_release_eq_iff t _ u id).mp hheld).2,
      fun key hheld ↦ ((s.usage.holder_release_eq_iff t _ u key).mp hheld).2⟩

/-- A row that `t` comes to hold is the one its statement is about. -/
theorem Performs.holder_of_row {id other : UUID} (h : Performs s t effect s')
    (hrow : effect.expense? = some id) (hheld : s'.expenses.holder other = some t) :
    other = id ∨ s.expenses.holder other = some t := by
  cases h with
  | read | draw | count | commit | rollback => cases hrow
  | lock _ next hfree =>
    cases hrow
    exact ((s.expenses.holder_lock_eq_iff hfree t other).mp hheld).imp_left And.right
  | insert _ row next hfree | update _ row next hfree =>
    cases hrow
    exact ((s.expenses.holder_write_eq_iff _ hfree t other).mp hheld).imp_left And.right

theorem Performs.usage_of_row {id : UUID} (h : Performs s t effect s')
    (hrow : effect.expense? = some id) : s'.usage = s.usage := by
  cases h with
  | read | draw | count | commit | rollback => cases hrow
  | lock | insert | update => rfl

/-- A statement keeps the order, if a transaction that chooses its rows chooses them in order. -/
theorem Ranked.performs (h : Ranked rank s t) (hadvances : (s.procs t).Advances effect)
    (hperforms : Performs s t effect s')
    (hchosen : (s.procs t).fresh = true → Rising rank effect.next.pending) : Ranked rank s' t := by
  have hproc := hperforms.proc
  -- a process that has not settled yet holds no counter
  have hcounters (hunsettled : (s.procs t).settled = false) (key : UUID × Period) :
      s.usage.holder key ≠ some t := fun hheld ↦ by
    rw [h.counter key hheld] at hunsettled
    cases hunsettled
  cases hadvances with
  | passed next ahead going unsettled =>
    cases hperforms
    refine h.goOn (fun _ ↦ id) (hcounters unsettled) ?_ ?_ <;> rw [hproc]
    · exact ahead
    · exact going
  | chosen next fresh going =>
    cases hperforms
    obtain ⟨hrows, hkeys⟩ := h.fresh fresh
    refine ⟨?_, fun id hheld ↦ absurd hheld (hrows id), fun key hheld ↦ absurd hheld (hkeys key),
      fun _ ↦ ⟨hrows, hkeys⟩⟩
    rw [hproc]
    exact hchosen fresh
  | drawn next ahead going unsettled =>
    cases hperforms
    refine h.goOn (fun _ ↦ id) (hcounters unsettled) ?_ ?_ <;> rw [hproc]
    · exact ahead ▸ List.Sublist.refl _
    · exact going
  | taken id row ahead going unsettled =>
    have hascending := h.ascending
    rw [ahead, Rising, List.pairwise_cons] at hascending
    refine ⟨?_, fun other hheld row' hrow' ↦ ?_, fun key hheld ↦ ?_, fun hfresh ↦ ?_⟩ <;> rw [hproc] at *
    · exact hascending.2
    · rcases hperforms.holder_of_row row hheld with rfl | hbefore
      · exact hascending.1 row' hrow'
      · exact h.below other hbefore row' (by rw [ahead]; exact List.mem_cons_of_mem _ hrow')
    · rw [hperforms.usage_of_row row] at hheld
      exact absurd hheld (hcounters unsettled key)
    · rw [going] at hfresh
      cases hfresh
  | counted key counter next ahead going unsettled settled =>
    cases hperforms
    refine ⟨?_, fun id hheld row hrow ↦ ?_, fun _ _ ↦ ?_, fun hfresh ↦ ?_⟩ <;> rw [hproc] at *
    · rw [Effect.next, ahead]
      exact List.Pairwise.nil
    · rw [Effect.next, ahead] at hrow
      cases hrow
    · exact settled
    · rw [Effect.next, going] at hfresh
      cases hfresh
  | committed next ended =>
    cases hperforms
    refine .of_release rfl rfl ?_
    rw [hproc]
    exact Proc.pending_of_not_running ended
  | raised =>
    cases hperforms
    exact Ranked.rollback s t

/-- A statement keeps the order of every other transaction. -/
theorem Ranked.performs_of_ne (h : Ranked rank s u) (hperforms : Performs s t effect s') (hne : u ≠ t) :
    Ranked rank s' u :=
  h.congr (hperforms.untouched hne).proc (hperforms.holder_of_ne hne).1 (hperforms.holder_of_ne hne).2

theorem Ranked.step (h : ∀ t, Ranked rank s t) (hok : InOrder rt settings rank s action)
    (hstep : SyncSystem.step rt settings s action = some s') (u : ℕ) : Ranked rank s' u := by
  cases action with
  | start t request =>
    obtain ⟨hidle, rfl⟩ : s.procs t = .idle ∧ s' = s.setProc t (request.proc rt) := by
      cases SyncSystem.step_outcome hstep with
      | started _ _ idle => exact ⟨idle, rfl⟩
    by_cases hu : u = t
    · obtain ⟨hrows, hkeys⟩ := (h u).fresh (by rw [hu, hidle]; rfl)
      refine .of_released hrows hkeys ?_
      rw [hu, SyncSystem.setProc_procs]
      cases request <;> rfl
    · exact (h u).performs_of_ne (.read _) hu
  | advance t clock =>
    obtain ⟨effect, heffect, hperform⟩ := Option.bind_eq_some_iff.mp hstep
    have hperforms := SyncSystem.perform_performs hperform
    by_cases hu : u = t
    · subst hu
      exact (h u).performs (SyncSystem.statement_advances heffect) hperforms
        fun hfresh ↦ hok hfresh effect heffect
    · exact (h u).performs_of_ne hperforms hu
  | abort t =>
    obtain rfl : s' = s.rollback t := by
      cases SyncSystem.step_outcome hstep with
      | aborted => rfl
    by_cases hu : u = t
    · rw [hu]
      exact Ranked.rollback s t
    · exact (h u).performs_of_ne .rollback hu
  | upsertRates quotes rateDate source =>
    cases hstep
    exact (h u).congr rfl (fun _ ↦ id) fun _ ↦ id
  | pull limit =>
    cases SyncSystem.step_outcome hstep with
    | pulled => exact (h u).congr rfl (fun _ ↦ id) fun _ ↦ id

/-- Where a lock stands in the order: the rows by the ranking, then the counters. -/
def lockRank (rank : UUID → ℕ) : UUID ⊕ (UUID × Period) → WithTop ℕ
  | .inl id => rank id
  | .inr _ => ⊤

/-- A transaction holds only locks that rank below the one it waits for. -/
theorem Ranked.lockRank_lt (h : Ranked rank s t) {held wanted : UUID ⊕ (UUID × Period)}
    (hholds : s.Holds t held) (hwants : s.Wants rt settings t wanted) :
    lockRank rank held < lockRank rank wanted := by
  have hrow : ∀ {clock effect id}, SyncSystem.statement rt settings s t clock = some effect →
      effect.expense? = some id → id ∈ (s.procs t).pending ∧ (s.procs t).settled = false := by
    intro clock effect id hstatement heffect
    cases SyncSystem.statement_advances hstatement with
    | taken other row ahead going unsettled =>
      cases row.symm.trans heffect
      exact ⟨by rw [ahead]; exact List.mem_cons_self, unsettled⟩
    | passed | chosen | drawn | counted | committed | raised => cases heffect
  have hcounter : ∀ {clock effect key}, SyncSystem.statement rt settings s t clock = some effect →
      effect.counter? = some key → (s.procs t).settled = false := by
    intro clock effect key hstatement heffect
    cases SyncSystem.statement_advances hstatement with
    | taken other row ahead going unsettled => exact unsettled
    | counted _ _ _ _ _ unsettled => exact unsettled
    | passed | chosen | drawn | committed | raised => cases heffect
  have hunsettled : (s.procs t).settled = false := by
    cases wanted with
    | inl id =>
      obtain ⟨clock, effect, hstatement, heffect, _⟩ := hwants
      exact (hrow hstatement heffect).2
    | inr key =>
      obtain ⟨clock, effect, hstatement, heffect, _⟩ := hwants
      exact hcounter hstatement heffect
  cases held with
  | inr key =>
    rw [h.counter key hholds] at hunsettled
    cases hunsettled
  | inl id =>
    cases wanted with
    | inl other =>
      obtain ⟨clock, effect, hstatement, heffect, _⟩ := hwants
      exact WithTop.coe_lt_coe.mpr (h.below id hholds other (hrow hstatement heffect).1)
    | inr key => exact WithTop.coe_lt_top (rank id)

/-- Where all transactions choose their rows in one order, no reachable state has a cycle of waits. -/
theorem pushes_not_deadlocked {users : Table UUID User} {devices : Table UUID Device}
    {fxRates : FxTable} {expenses : Table UUID Expense} {usage : UsageTable} {syncSeq : ℕ}
    {reader : UUID} {trace : List (SyncSystem × SyncAction)}
    (hrun : Run (SyncSystem.step rt settings) (InOrder rt settings rank)
      (.ofTables users devices fxRates expenses usage syncSeq reader) trace s) :
    ¬ s.Deadlocked rt settings := by
  have hstart (t : ℕ) : Ranked rank (.ofTables users devices fxRates expenses usage syncSeq reader) t :=
    .of_released (fun _ ↦ (Option.some_ne_none t).symm) (fun _ ↦ (Option.some_ne_none t).symm) rfl
  have hranked := hrun.invariant (fun s ↦ ∀ t, Ranked rank s t) hstart
    fun s action s' h hok hstep ↦ Ranked.step h hok hstep
  exact Locking.not_deadlock (lockRank rank) fun t held wanted ↦ (hranked t).lockRank_lt

/-- The expenses `3` and `6` of the first user in some revision, in either order. -/
def bothExpenses (clientRev : ℤ) (swapped : Bool) : List RawRecord :=
  let records := [sampleExpense 12 clientRev,
    sampleRecord "00000000-0000-0000-0000-000000000006" "00000000-0000-0000-0000-000000000002" 5 clientRev]
  if swapped then records.reverse else records

/-- A push creates both rows. Two pushes of the same user then write them in opposite orders, and each
has written its first row and drawn the value for its second one. -/
def crossingPushes : List SyncAction :=
  SyncSystem.transaction 0 (.push ⟨1⟩ (bothExpenses 1 false) 0) 9 ++
    SyncSystem.transaction 1 (.push ⟨1⟩ (bothExpenses 2 false) 0) 5 ++
    SyncSystem.transaction 2 (.push ⟨1⟩ (bothExpenses 2 true) 0) 5

/-- The two pushes wait for each other. -/
theorem pushes_deadlocked : ¬ ∀ (rt : Runtime) (settings : Settings) (users : Table UUID User)
    (devices : Table UUID Device) (fxRates : FxTable) (expenses : Table UUID Expense)
    (usage : UsageTable) (syncSeq : ℕ) (reader : UUID) (trace : List (SyncSystem × SyncAction))
    (s : SyncSystem),
    Run (SyncSystem.step rt settings) (fun _ action ↦ action.pushesOnly = true)
      (.ofTables users devices fxRates expenses usage syncSeq reader) trace s →
        ¬ s.Deadlocked rt settings := by
  intro hclaim
  let pushStep (s : SyncSystem) (action : SyncAction) : Option SyncSystem :=
    if action.pushesOnly = true then SyncSystem.step .ascii sampleSettings s action else none
  have hexec : (exec pushStep .sample crossingPushes).map (fun s ↦
      (s.expenses.holder ⟨3⟩, s.expenses.holder ⟨6⟩,
        (SyncSystem.statement .ascii sampleSettings s 1 0).map Effect.expense?,
        (SyncSystem.statement .ascii sampleSettings s 2 0).map Effect.expense?)) =
      some (some 1, some 2, some (some ⟨6⟩), some (some ⟨3⟩)) := by
    decide +kernel
  obtain ⟨s, hs, hfacts⟩ := Option.map_eq_some_iff.mp hexec
  simp only [Prod.mk.injEq, Option.map_eq_some_iff] at hfacts
  obtain ⟨hthree, hsix, ⟨first, hfirst, hwantsSix⟩, second, hsecond, hwantsThree⟩ := hfacts
  obtain ⟨trace, hrun⟩ := exists_guarded_append .nil hs
  have hforth : Locking.WaitsFor s.Holds (s.Wants .ascii sampleSettings) 1 2 := by
    refine ⟨.inl ⟨6⟩, ⟨0, first, hfirst, hwantsSix, ?_⟩, hsix⟩
    rw [Versioned.Free, hsix]
    decide
  have hback : Locking.WaitsFor s.Holds (s.Wants .ascii sampleSettings) 2 1 := by
    refine ⟨.inl ⟨3⟩, ⟨0, second, hsecond, hwantsThree, ?_⟩, hthree⟩
    rw [Versioned.Free, hthree]
    decide
  exact hclaim .ascii sampleSettings _ _ _ _ _ _ _ _ _ hrun ⟨1, .tail (.single hforth) hback⟩

/-- The same pushes in one order: the second one only waits for the first. -/
theorem pushes_not_deadlocked_sample : ∃ s : SyncSystem, s.expenses.holder ⟨3⟩ = some 1 ∧
    ¬ s.Deadlocked .ascii sampleSettings := by
  let rank (id : UUID) : ℕ := id.int.toNat
  let guardedStep (s : SyncSystem) (action : SyncAction) : Option SyncSystem :=
    if InOrder .ascii sampleSettings rank s action then SyncSystem.step .ascii sampleSettings s action
    else none
  have hexec : (exec guardedStep .sample (SyncSystem.transaction 0 (.push ⟨1⟩ (bothExpenses 1 false) 0) 9 ++
      SyncSystem.transaction 1 (.push ⟨1⟩ (bothExpenses 2 false) 0) 5 ++
      SyncSystem.transaction 2 (.push ⟨1⟩ (bothExpenses 2 false) 0) 3)).map (fun s ↦ s.expenses.holder ⟨3⟩) =
      some (some 1) := by
    decide +kernel
  obtain ⟨s, hs, hholder⟩ := Option.map_eq_some_iff.mp hexec
  obtain ⟨trace, hrun⟩ := exists_guarded_append .nil hs
  exact ⟨s, hholder, pushes_not_deadlocked hrun⟩

end VoiceSpend
