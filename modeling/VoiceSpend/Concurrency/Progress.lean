import Mathlib.Algebra.Order.BigOperators.Group.Finset
import VoiceSpend.Concurrency.Deadlock
import VoiceSpend.Fx.Effect

/-!
# Every transaction comes to its end

A push of `n` records takes at most `2 n + 5` statements, a sweep at most three for every row of its limit and
two more. Where the transactions have chosen their rows in one order, the ones that have chosen never block all
of each other, and the ones that have not hold no lock. So whatever state is reached, its open transactions can
all be finished, by nothing but their own statements.
-/

namespace VoiceSpend

open Machine

/-! ## Statements that are left -/

/-- How many statements a push has left at most. -/
def PushStage.work (parsed : ℕ) : PushStage → ℕ
  | .devices => 2 * parsed + 5
  | .owners _ => 2 * parsed + 4
  | .writing (_ :: todo) (some _) _ => 2 * todo.length + 4
  | .writing todo _ _ => 2 * todo.length + 3
  | .counting _ => 2
  | .committing .. => 1

def SweepStage.work (limit : ℕ) : SweepStage → ℕ
  | .selecting => 3 * limit + 2
  | .converting todo => 3 * todo.length + 1
  | .lookingUp _ _ todo => 3 * todo.length + 3
  | .updating _ _ todo => 3 * todo.length + 2

/-- An invalidation that has not found its rows counts as none. -/
def NullifyStage.work : NullifyStage → ℕ
  | .selecting => 0
  | .updating todo => todo.length + 1

def Proc.work (settings : Settings) : Proc → ℕ
  | .push run => run.stage.work run.scanned.parsed.length
  | .sweep run => run.stage.work (sweepLimit settings run.limit).toNat
  | .nullify run => run.stage.work
  | .idle | .answered .. | .done | .failed => 0

/-- An invalidation that has not found its rows. -/
def Proc.unselected : Proc → Bool
  | .nullify ⟨_, _, .selecting⟩ => true
  | _ => false

section

variable {rt : Runtime} {settings : Settings} {rank : UUID → ℕ} {s s' : SyncSystem} {t u : ℕ}
  {clock : Instant} {effect : Effect} {action : SyncAction} {trace : List (SyncSystem × SyncAction)}

theorem checkOwners_length_le (owned : List UUID) (owners : UUID → Option UUID) (user : UUID)
    (scanned : Scan) :
    (checkOwners owned owners user scanned).2.length ≤ scanned.parsed.length := by
  have hfold (records : List ExpenseSyncIn) (acc : (UUID → Option String) × List ExpenseSyncIn) :
      (records.foldl (checkOwner owned owners user) acc).2.length ≤ acc.2.length + records.length := by
    induction records generalizing acc with
    | nil => exact le_rfl
    | cons record rest ih =>
      have hone : (checkOwner owned owners user acc record).2.length ≤ acc.2.length + 1 := by
        unfold checkOwner
        split
        · exact Nat.le_succ _
        · rw [List.length_append, List.length_singleton]
      have hrest := ih (checkOwner owned owners user acc record)
      rw [List.foldl_cons, List.length_cons]
      omega
  exact (hfold scanned.parsed (scanned.rejects, [])).trans_eq (Nat.zero_add _)

theorem PushRun.Steps.work {run : PushRun} (h : run.Steps rt s t clock effect) :
    effect.next.work settings < (Proc.push run).work settings := by
  obtain ⟨user, scanned, rejects, now, stage⟩ := run
  cases h with
  | raised before =>
    cases stage with
    | writing todo drawn returned =>
      cases todo <;> cases drawn <;> simp [Effect.next, Proc.work, PushStage.work]
    | devices | owners | counting | committing => simp [Effect.next, Proc.work, PushStage.work]
  | owners owned stage rejects' validRecords insertions checked fits =>
    cases stage
    have hids := congrArg List.length (toInsertions_ids fits)
    rw [List.length_map, List.length_map] at hids
    have hle := checkOwners_length_le owned (existingOwners (s.expenses.view t) (scanned.parsed.map (·.id)))
      user scanned
    rw [show checkOwners _ _ _ _ = _ from checked] at hle
    simp only [Effect.next, Proc.work, PushStage.work]
    dsimp only at hle
    omega
  | devices stage | drawn _ _ _ stage | written _ _ stage | inserted _ _ _ _ stage | updated _ _ _ _ stage
  | stale _ _ _ _ stage | uncounted _ stage | counted _ stage | committed _ _ stage =>
    cases stage
    simp [Effect.next, Proc.work, PushStage.work]
    try omega

theorem SweepRun.Steps.work {run : SweepRun} (h : run.Steps settings s t effect) :
    effect.next.work settings < (Proc.sweep run).work settings := by
  obtain ⟨userId, limit, tie, now, stage⟩ := run
  cases h with
  | raised before =>
    cases stage <;> simp [Effect.next, Proc.work, SweepStage.work]
  | selected stage =>
    cases stage
    have hlength := selectBatch_length s.users (s.expenses.view t) userId
      (sweepLimit settings limit).toNat tie
    have htake := List.length_take_le (sweepLimit settings limit).toNat
      (sweepQueue s.users (s.expenses.view t) userId tie)
    simp only [Effect.next, Proc.work, SweepStage.work]
    omega
  | sameCurrency _ _ stage | firstRate _ _ stage | noFirstRate _ _ stage | secondRate _ _ _ stage
  | noSecondRate _ _ _ stage | updated _ _ _ stage | gone _ _ _ stage | finished stage =>
    cases stage
    simp [Effect.next, Proc.work, SweepStage.work]
    try omega

theorem NullifyRun.Steps.work {run : NullifyRun} (h : run.Steps s t effect)
    (hstage : run.stage ≠ .selecting) :
    effect.next.work settings < (Proc.nullify run).work settings := by
  obtain ⟨user, now, stage⟩ := run
  cases h with
  | selected stage => exact absurd stage hstage
  | nulled _ _ stage | unarmed _ _ stage | gone _ _ stage | finished stage =>
    cases stage
    simp [Effect.next, Proc.work, NullifyStage.work]

/-- Every statement but the search of an invalidation lowers the work. -/
theorem SyncSystem.statement_work (h : SyncSystem.statement rt settings s t clock = some effect)
    (hselected : (s.procs t).unselected = false) : effect.next.work settings < (s.procs t).work settings := by
  unfold SyncSystem.statement at h
  split at h
  · rename_i run heq
    cases h
    rw [heq]
    exact (run.statement_steps rt s t clock).work
  · rename_i run heq
    cases h
    rw [heq]
    exact (run.statement_steps settings s t).work
  · rename_i run heq
    cases h
    rw [heq] at hselected ⊢
    refine (run.statement_steps s t).work fun hstage ↦ ?_
    obtain ⟨user, now, stage⟩ := run
    cases hstage
    cases hselected
  · cases h

/-- No statement leads back to a start. -/
theorem SyncSystem.statement_next (h : SyncSystem.statement rt settings s t clock = some effect) :
    effect.next ≠ .idle ∧ effect.next.unselected = false := by
  have hpush {run : PushRun} (hsteps : run.Steps rt s t clock effect) :
      effect.next ≠ .idle ∧ effect.next.unselected = false := by
    cases hsteps <;> exact ⟨nofun, rfl⟩
  have hsweep {run : SweepRun} (hsteps : run.Steps settings s t effect) :
      effect.next ≠ .idle ∧ effect.next.unselected = false := by
    cases hsteps <;> exact ⟨nofun, rfl⟩
  have hnullify {run : NullifyRun} (hsteps : run.Steps s t effect) :
      effect.next ≠ .idle ∧ effect.next.unselected = false := by
    cases hsteps <;> exact ⟨nofun, rfl⟩
  unfold SyncSystem.statement at h
  split at h
  · cases h
    exact hpush (PushRun.statement_steps ..)
  · cases h
    exact hsweep (SweepRun.statement_steps ..)
  · cases h
    exact hnullify (NullifyRun.statement_steps ..)
  · cases h

/-! ## How many statements a transaction takes -/

@[simp] def SyncAction.advances (t : ℕ) : SyncAction → Bool
  | .advance u _ => u = t
  | .start .. | .abort _ | .upsertRates .. | .pull _ => false

/-- The statements that a transaction has taken. -/
def statementsOf (trace : List (SyncSystem × SyncAction)) (t : ℕ) : ℕ := trace.countP (·.2.advances t)

theorem statementsOf_snoc (trace : List (SyncSystem × SyncAction)) (s : SyncSystem) (action : SyncAction)
    (t : ℕ) : statementsOf (trace ++ [(s, action)]) t =
      statementsOf trace t + if action.advances t then 1 else 0 := by
  unfold statementsOf
  rw [List.countP_append, List.countP_singleton]

/-- The statements taken and the work left, against the request. -/
structure Budgeted (rt : Runtime) (settings : Settings) (trace : List (SyncSystem × SyncAction))
    (s : SyncSystem) (t : ℕ) : Prop where
  unbegun : s.procs t = .idle →
    statementsOf trace t = 0 ∧ ∀ state request, (state, SyncAction.start t request) ∉ trace
  within : ∀ state request, (state, SyncAction.start t request) ∈ trace →
    (request.proc rt).unselected = false → (s.procs t).unselected = false ∧
      statementsOf trace t + (s.procs t).work settings ≤ (request.proc rt).work settings

/-- A step after which the transaction has no more work left, statements included. -/
theorem Budgeted.goOn (h : Budgeted rt settings trace s t) (hstart : ∀ request, action ≠ .start t request)
    (hidle : s'.procs t = .idle → s.procs t = .idle ∧ action.advances t = false)
    (hwork : (s.procs t).unselected = false → (s'.procs t).unselected = false ∧
      (s'.procs t).work settings + (if action.advances t then 1 else 0) ≤ (s.procs t).work settings) :
    Budgeted rt settings (trace ++ [(s, action)]) s' t := by
  have hmem {state : SyncSystem} {request : SyncRequest}
      (hmem : (state, SyncAction.start t request) ∈ trace ++ [(s, action)]) :
        (state, .start t request) ∈ trace := by
    rcases List.mem_append.mp hmem with hmem | hmem
    · exact hmem
    · cases List.mem_singleton.mp hmem
      exact absurd rfl (hstart request)
  constructor
  · intro hafter
    obtain ⟨hbefore, hnone⟩ := hidle hafter
    obtain ⟨hcount, hfirst⟩ := h.unbegun hbefore
    rw [statementsOf_snoc, hcount, hnone]
    exact ⟨rfl, fun state request hstarted ↦ hfirst state request (hmem hstarted)⟩
  · intro state request hstarted hrequest
    obtain ⟨hselected, hwithin⟩ := h.within state request (hmem hstarted) hrequest
    obtain ⟨hselected', hless⟩ := hwork hselected
    rw [statementsOf_snoc]
    exact ⟨hselected', by omega⟩

theorem Budgeted.step (h : Budgeted rt settings trace s t)
    (hstep : SyncSystem.step rt settings s action = some s') :
    Budgeted rt settings (trace ++ [(s, action)]) s' t := by
  have houtcome := SyncSystem.step_outcome hstep
  by_cases hactor : action.actor = some t
  · cases action with
    | start u request =>
      cases hactor
      obtain ⟨hidle, rfl⟩ : s.procs t = .idle ∧ s' = s.setProc t (request.proc rt) := by
        cases houtcome with
        | started _ _ idle => exact ⟨idle, rfl⟩
      obtain ⟨hnone, hfirst⟩ := h.unbegun hidle
      refine ⟨fun hrequest ↦ ?_, fun state other hmem hselected ↦ ?_⟩
      · rw [SyncSystem.setProc_procs] at hrequest
        cases request <;> cases hrequest
      · rcases List.mem_append.mp hmem with hmem | hmem
        · exact absurd hmem (hfirst state other)
        · cases List.mem_singleton.mp hmem
          rw [statementsOf_snoc, hnone, SyncSystem.setProc_procs]
          exact ⟨hselected, by simp⟩
    | advance u clock =>
      cases hactor
      obtain ⟨effect, heffect, hperform⟩ := Option.bind_eq_some_iff.mp hstep
      obtain ⟨hnext, hselected⟩ := SyncSystem.statement_next heffect
      have hproc := (SyncSystem.perform_performs hperform).proc
      refine h.goOn nofun (fun hidle ↦ ?_) fun hbefore ↦ ?_
      · exact absurd (hproc.symm.trans hidle) hnext
      · rw [hproc, SyncAction.advances, decide_eq_true rfl, if_pos rfl]
        exact ⟨hselected, SyncSystem.statement_work heffect hbefore⟩
    | abort u =>
      cases hactor
      obtain rfl : s' = s.rollback t := by
        cases houtcome with
        | aborted => rfl
      refine h.goOn nofun (fun hidle ↦ ?_) fun _ ↦ ?_
      · rw [SyncSystem.rollback_procs] at hidle
        cases hidle
      · rw [SyncSystem.rollback_procs]
        exact ⟨rfl, Nat.zero_le _⟩
    | upsertRates | pull => cases hactor
  · have hproc := (houtcome.untouched hactor).proc
    have hadvances : action.advances t = false := by
      cases action with
      | advance u clock => exact decide_eq_false fun heq ↦ hactor (congrArg some heq)
      | start | abort | upsertRates | pull => rfl
    refine h.goOn (fun request heq ↦ hactor (by rw [heq]; rfl)) (fun hidle ↦ ?_) fun hselected ↦ ?_
    · exact ⟨hproc.symm.trans hidle, hadvances⟩
    · rw [hproc, hadvances]
      exact ⟨hselected, le_rfl⟩

/-! ## Transactions that can go on -/

theorem Proc.running_of_not_fresh {proc : Proc} (h : proc.fresh = false) : proc.running = true := by
  cases proc with
  | push | sweep | nullify => rfl
  | idle | answered | done | failed => cases h

theorem Proc.unselected_of_not_fresh {proc : Proc} (h : proc.fresh = false) : proc.unselected = false := by
  unfold Proc.unselected
  split
  · cases h
  · rfl

/-- A transaction that wants no lock takes its next statement. -/
theorem SyncSystem.exists_advance (hrunning : (s.procs t).running = true)
    (hunblocked : ∀ key, ¬ s.Wants rt settings t key) (clock : Instant) : ∃ effect s',
      SyncSystem.statement rt settings s t clock = some effect ∧ Performs s t effect s' ∧
        SyncSystem.step rt settings s (.advance t clock) = some s' := by
  obtain ⟨effect, heffect⟩ : ∃ effect, SyncSystem.statement rt settings s t clock = some effect := by
    unfold SyncSystem.statement
    cases hproc : s.procs t with
    | push | sweep | nullify => exact ⟨_, rfl⟩
    | idle | answered | done | failed =>
      rw [hproc] at hrunning
      cases hrunning
  have hrow {id : UUID} (hid : effect.expense? = some id) : s.expenses.Free t id := by
    by_contra hheld
    exact hunblocked (.inl id) ⟨clock, effect, heffect, hid, hheld⟩
  have hcounter {key : UUID × Period} (hkey : effect.counter? = some key) : s.usage.Free t key := by
    by_contra hheld
    exact hunblocked (.inr key) ⟨clock, effect, heffect, hkey, hheld⟩
  obtain ⟨s', hperform⟩ : ∃ s', s.perform t effect = some s' := by
    cases effect with
    | read | draw | commit | rollback => exact ⟨_, rfl⟩
    | lock id | insert id | update id => exact ⟨_, dif_pos (hrow rfl)⟩
    | count key => exact ⟨_, dif_pos (hcounter rfl)⟩
  exact ⟨effect, s', heffect, SyncSystem.perform_performs hperform, Option.bind_eq_some_iff.mpr
    ⟨effect, heffect, hperform⟩⟩

/-- Of the transactions that have chosen their rows one can go on. -/
theorem exists_unblocked_of_ranked (rt : Runtime) (settings : Settings) (hranked : ∀ t, Ranked rank s t)
    {opened : Finset ℕ} (hopened : ∀ t, (s.procs t).running = true → t ∈ opened)
    (hchosen : ∃ t, (s.procs t).running = true ∧ (s.procs t).fresh = false) :
    ∃ t ∈ opened, (s.procs t).fresh = false ∧ ∀ key, ¬ s.Wants rt settings t key := by
  let waiting := opened.filter fun t ↦ (s.procs t).fresh = false
  have hmem {t : ℕ} (hfresh : (s.procs t).fresh = false) : t ∈ waiting :=
    Finset.mem_filter.mpr ⟨hopened t (Proc.running_of_not_fresh hfresh), hfresh⟩
  have hheld (t : ℕ) (key : UUID ⊕ (UUID × Period)) (hwants : s.Wants rt settings t key) :
      ∃ u ∈ waiting, s.Holds u key := by
    cases key with
    | inl id =>
      obtain ⟨_, _, _, _, hlocked⟩ := hwants
      obtain ⟨u, hu⟩ := Option.ne_none_iff_exists'.mp fun hnone ↦ hlocked (.inl hnone)
      refine ⟨u, hmem ?_, hu⟩
      by_contra hfresh
      exact ((hranked u).fresh (Bool.not_eq_false _ ▸ hfresh)).1 id hu
    | inr key =>
      obtain ⟨_, _, _, _, hlocked⟩ := hwants
      obtain ⟨u, hu⟩ := Option.ne_none_iff_exists'.mp fun hnone ↦ hlocked (.inl hnone)
      refine ⟨u, hmem ?_, hu⟩
      by_contra hfresh
      exact ((hranked u).fresh (Bool.not_eq_false _ ▸ hfresh)).2 key hu
  obtain ⟨first, _, hfirst⟩ := hchosen
  have hrank (t : ℕ) (held wanted : UUID ⊕ (UUID × Period)) (hholds : s.Holds t held)
      (hwants : s.Wants rt settings t wanted) : lockRank rank held < lockRank rank wanted :=
    (hranked t).lockRank_lt hholds hwants
  obtain ⟨t, ht, hunblocked⟩ := Locking.exists_unblocked (lockRank rank) hrank ⟨first, hmem hfirst⟩
    fun t _ ↦ hheld t
  exact ⟨t, (Finset.mem_filter.mp ht).1, (Finset.mem_filter.mp ht).2, hunblocked⟩

/-- The transactions that have chosen their rows can all be finished. -/
theorem finish_chosen (rt : Runtime) (settings : Settings) (clock : Instant) {opened : Finset ℕ}
    (hranked : ∀ t, Ranked rank s t) (hopened : ∀ t, (s.procs t).running = true → t ∈ opened) :
    ∃ actions s', (∀ action ∈ actions, ∃ t, action = SyncAction.advance t clock) ∧
      exec (SyncSystem.step rt settings) s actions = some s' ∧
        ((∀ t, Ranked rank s' t) ∧ ∀ t, (s'.procs t).running = true → t ∈ opened) ∧
          ∀ t, (s'.procs t).running = true → (s'.procs t).fresh = true := by
  refine exists_exec_done (fun action ↦ ∃ t, action = SyncAction.advance t clock)
    (fun s ↦ (∀ t, Ranked rank s t) ∧ ∀ t, (s.procs t).running = true → t ∈ opened)
    (fun s ↦ ∀ t, (s.procs t).running = true → (s.procs t).fresh = true)
    (fun s ↦ ∑ t ∈ opened, (s.procs t).work settings) ?_ s ⟨hranked, hopened⟩
  rintro s ⟨hranked, hopened⟩ hchosen
  push Not at hchosen
  obtain ⟨first, hrunning, hfresh⟩ := hchosen
  obtain ⟨t, ht, hchose, hunblocked⟩ := exists_unblocked_of_ranked rt settings hranked hopened
    ⟨first, hrunning, by simpa using hfresh⟩
  obtain ⟨effect, s', heffect, hperforms, hstep⟩ :=
    SyncSystem.exists_advance (Proc.running_of_not_fresh hchose) hunblocked clock
  have hother {u : ℕ} (hu : u ≠ t) : s'.procs u = s.procs u := (hperforms.untouched hu).proc
  have hinorder : InOrder rt settings rank s (.advance t clock) := fun hfresh ↦ by
    cases hchose.symm.trans hfresh
  refine ⟨[.advance t clock], s', by simp, by rw [exec, hstep]; rfl,
    ⟨Ranked.step hranked hinorder hstep, fun u hu ↦ ?_⟩, ?_⟩
  · by_cases heq : u = t
    · rw [heq]
      exact ht
    · rw [hother heq] at hu
      exact hopened u hu
  · have hselected : (s.procs t).unselected = false := Proc.unselected_of_not_fresh hchose
    have hless := SyncSystem.statement_work heffect hselected
    rw [← hperforms.proc] at hless
    refine Finset.sum_lt_sum (fun u _ ↦ ?_) ⟨t, ht, hless⟩
    by_cases heq : u = t
    · rw [heq]
      exact hless.le
    · rw [hother heq]

/-! ## A transaction on its own -/

/-- Only transaction `t` has locks, and nothing while it is not open; the others are as they were in `start`. -/
structure Solo (start s : SyncSystem) (t : ℕ) : Prop where
  rows : ∀ id u, s.expenses.holder id = some u → u = t ∧ (s.procs t).running = true
  counters : ∀ key u, s.usage.holder key = some u → u = t ∧ (s.procs t).running = true
  others : ∀ u, u ≠ t → s.procs u = start.procs u

theorem Solo.performs {start : SyncSystem} (h : Solo start s t) (hperforms : Performs s t effect s')
    (hends : effect.Ends) : Solo start s' t := by
  have hothers (u : ℕ) (hu : u ≠ t) : s'.procs u = start.procs u :=
    ((hperforms.untouched hu).proc).trans (h.others u hu)
  have hown {u : ℕ} (hholds : (∃ id, s'.expenses.holder id = some u) ∨ ∃ key, s'.usage.holder key = some u) :
      u = t := by
    by_contra hu
    obtain ⟨hrows, hcounters⟩ := hperforms.holder_of_ne hu
    rcases hholds with ⟨id, hid⟩ | ⟨key, hkey⟩
    · exact hu (h.rows id u (hrows id hid)).1
    · exact hu (h.counters key u (hcounters key hkey)).1
  rcases hends with hopen | hended
  · rw [← hperforms.proc] at hopen
    exact ⟨fun id u hid ↦ ⟨hown (.inl ⟨id, hid⟩), hopen⟩, fun key u hkey ↦ ⟨hown (.inr ⟨key, hkey⟩), hopen⟩,
      hothers⟩
  · have hfreed : (∀ id, s'.expenses.holder id ≠ some t) ∧ ∀ key, s'.usage.holder key ≠ some t := by
      rcases hended with rfl | ⟨next, rfl⟩ <;> cases hperforms <;>
        exact ⟨fun id hid ↦ ((s.expenses.holder_release_eq_iff t _ t id).mp hid).1 rfl,
          fun key hkey ↦ ((s.usage.holder_release_eq_iff t _ t key).mp hkey).1 rfl⟩
    refine ⟨fun id u hid ↦ ?_, fun key u hkey ↦ ?_, hothers⟩
    · exact absurd (hown (.inl ⟨id, hid⟩) ▸ hid) (hfreed.1 id)
    · exact absurd (hown (.inr ⟨key, hkey⟩) ▸ hkey) (hfreed.2 key)

theorem SyncSystem.statement_ends (h : SyncSystem.statement rt settings s t clock = some effect) :
    effect.Ends := by
  unfold SyncSystem.statement at h
  split at h
  · cases h
    exact (PushRun.statement_steps ..).ends
  · cases h
    exact (SweepRun.statement_steps ..).ends
  · cases h
    exact (NullifyRun.statement_steps ..).ends
  · cases h

/-- On its own an open transaction takes its next statement. -/
theorem Solo.advance {start : SyncSystem} (rt : Runtime) (settings : Settings) (h : Solo start s t)
    (hrunning : (s.procs t).running = true) (clock : Instant) : ∃ effect s',
      SyncSystem.statement rt settings s t clock = some effect ∧ Performs s t effect s' ∧
        SyncSystem.step rt settings s (.advance t clock) = some s' ∧ Solo start s' t := by
  have hunblocked (key : UUID ⊕ (UUID × Period)) : ¬ s.Wants rt settings t key := by
    rcases key with id | key <;> rintro ⟨_, _, _, _, hlocked⟩ <;> apply hlocked
    · cases hholder : s.expenses.holder id with
      | none => exact .inl hholder
      | some u => exact .inr (hholder.trans (congrArg some (h.rows id u hholder).1))
    · cases hholder : s.usage.holder key with
      | none => exact .inl hholder
      | some u => exact .inr (hholder.trans (congrArg some (h.counters key u hholder).1))
  obtain ⟨effect, s', heffect, hperforms, hstep⟩ := SyncSystem.exists_advance hrunning hunblocked clock
  exact ⟨effect, s', heffect, hperforms, hstep, h.performs hperforms (SyncSystem.statement_ends heffect)⟩

/-- On its own an open transaction can be finished. -/
theorem Solo.finish {start : SyncSystem} (rt : Runtime) (settings : Settings) (clock : Instant)
    (h : Solo start s t) (hselected : (s.procs t).unselected = false) :
    ∃ actions s', (∀ action ∈ actions, action = SyncAction.advance t clock) ∧
      exec (SyncSystem.step rt settings) s actions = some s' ∧
        (Solo start s' t ∧ (s'.procs t).unselected = false) ∧ (s'.procs t).running = false := by
  refine exists_exec_done (· = SyncAction.advance t clock)
    (fun s ↦ Solo start s t ∧ (s.procs t).unselected = false) (fun s ↦ (s.procs t).running = false)
    (fun s ↦ (s.procs t).work settings) ?_ s ⟨h, hselected⟩
  rintro s ⟨h, hselected⟩ hrunning
  obtain ⟨effect, s', heffect, hperforms, hstep, h'⟩ :=
    h.advance rt settings (Bool.not_eq_false _ ▸ hrunning) clock
  have hless := SyncSystem.statement_work heffect hselected
  have hnext := (SyncSystem.statement_next heffect).2
  rw [← hperforms.proc] at hless hnext
  exact ⟨[.advance t clock], s', by simp, by rw [exec, hstep]; rfl, ⟨h', hnext⟩, hless⟩

/-- Transactions that have not chosen their rows can be finished one after the other. -/
theorem finish_fresh (rt : Runtime) (settings : Settings) (clock : Instant) {opened : Finset ℕ}
    (hexpenses : s.expenses.Unheld) (husage : s.usage.Unheld)
    (hopened : ∀ t, (s.procs t).running = true → t ∈ opened) :
    ∃ actions s', (∀ action ∈ actions, ∃ t, action = SyncAction.advance t clock) ∧
      exec (SyncSystem.step rt settings) s actions = some s' ∧ ∀ t, (s'.procs t).running = false := by
  suffices hfinish : ∃ actions s', (∀ action ∈ actions, ∃ t, action = SyncAction.advance t clock) ∧
      exec (SyncSystem.step rt settings) s actions = some s' ∧
        ((s'.expenses.Unheld ∧ s'.usage.Unheld) ∧ ∀ t, (s'.procs t).running = true → t ∈ opened) ∧
          ∀ t, (s'.procs t).running = false by
    obtain ⟨actions, s', hactions, hexec, _, hdone⟩ := hfinish
    exact ⟨actions, s', hactions, hexec, hdone⟩
  refine exists_exec_done (fun action ↦ ∃ t, action = SyncAction.advance t clock)
    (fun s ↦ (s.expenses.Unheld ∧ s.usage.Unheld) ∧ ∀ t, (s.procs t).running = true → t ∈ opened)
    (fun s ↦ ∀ t, (s.procs t).running = false)
      (fun s ↦ (opened.filter fun t ↦ (s.procs t).running = true).card)
    ?_ s ⟨⟨hexpenses, husage⟩, hopened⟩
  rintro s ⟨⟨hexpenses, husage⟩, hopened⟩ hopen
  push Not at hopen
  obtain ⟨t, ht⟩ := hopen
  have ht := eq_true_of_ne_false ht
  have hsolo : Solo s s t := by
    refine ⟨fun id u hid ↦ ?_, fun key u hkey ↦ ?_, fun _ _ ↦ rfl⟩
    · cases (hexpenses id).symm.trans hid
    · cases (husage key).symm.trans hkey
  -- the first statement is apart, since it may be the search of an invalidation
  obtain ⟨effect, middle, heffect, hperforms, hstep, hmiddle⟩ := hsolo.advance rt settings ht clock
  have hselected := (SyncSystem.statement_next heffect).2
  rw [← hperforms.proc] at hselected
  obtain ⟨rest, s', hrest, hexec, ⟨hend, _⟩, hended⟩ := hmiddle.finish rt settings clock hselected
  refine ⟨.advance t clock :: rest, s', ?_, ?_, ⟨⟨fun id ↦ ?_, fun key ↦ ?_⟩, fun u hu ↦ ?_⟩, ?_⟩
  · rw [List.forall_mem_cons]
    exact ⟨⟨t, rfl⟩, fun action hmem ↦ ⟨t, hrest action hmem⟩⟩
  · rw [exec, hstep, Option.bind_some, hexec]
  · by_contra hheld
    obtain ⟨u, hu⟩ := Option.ne_none_iff_exists'.mp hheld
    cases hended.symm.trans (hend.rows id u hu).2
  · by_contra hheld
    obtain ⟨u, hu⟩ := Option.ne_none_iff_exists'.mp hheld
    cases hended.symm.trans (hend.counters key u hu).2
  · by_cases heq : u = t
    · rw [heq]
      exact hopened t ht
    · rw [hend.others u heq] at hu
      exact hopened u hu
  · apply Finset.card_lt_card
    refine Finset.ssubset_iff_subset_ne.mpr ⟨fun u hu ↦ ?_, fun heq ↦ ?_⟩
    · obtain ⟨hmem, hu⟩ := Finset.mem_filter.mp hu
      by_cases heq : u = t
      · rw [heq, hended] at hu
        cases hu
      · rw [hend.others u heq] at hu
        exact Finset.mem_filter.mpr ⟨hmem, hu⟩
    · have hmem : t ∈ opened.filter fun t ↦ (s.procs t).running = true :=
        Finset.mem_filter.mpr ⟨hopened t ht, ht⟩
      rw [← heq, Finset.mem_filter, hended] at hmem
      cases hmem.2

/-- The transactions that are open have been started. -/
theorem mem_started_of_running {start : SyncSystem} {ok : SyncSystem → SyncAction → Prop}
    (hrun : Run (SyncSystem.step rt settings) ok start trace s)
    (hstart : ∀ t, (start.procs t).running = false)
    (hrunning : (s.procs t).running = true) : t ∈ (trace.filterMap (·.2.actor)).toFinset := by
  induction hrun with
  | nil => cases (hstart t).symm.trans hrunning
  | @snoc trace s s' action _ _ hstep ih =>
    rw [List.filterMap_append, List.toFinset_append, Finset.mem_union]
    by_cases hactor : action.actor = some t
    · right
      simp [hactor]
    · left
      rw [((SyncSystem.step_outcome hstep).untouched hactor).proc] at hrunning
      exact ih hrunning

theorem parsed_length_le (entries : List Entry) : (scan entries).parsed.length ≤ entries.length := by
  have hfold (entries : List Entry) (acc : Scan) :
      (entries.foldl Scan.entry acc).parsed.length ≤ acc.parsed.length + entries.length := by
    induction entries generalizing acc with
    | nil => exact le_rfl
    | cons entry rest ih =>
      have hone : (acc.entry entry).parsed.length ≤ acc.parsed.length + 1 := by
        cases entry with
        | unusable => exact Nat.le_succ _
        | invalid id reason =>
          simp only [Scan.entry]
          split <;> exact Nat.le_succ _
        | valid record =>
          simp only [Scan.entry]
          split
          · split <;> exact Nat.le_succ _
          · rw [List.length_append, List.length_singleton]
      have hrest := ih (acc.entry entry)
      rw [List.foldl_cons, List.length_cons]
      omega
  exact (hfold entries .empty).trans_eq (Nat.zero_add _)

/-- In every run a push of `n` records takes at most `2 n + 5` statements and a sweep of `n` rows at most
`3 n + 2`. Where all transactions have chosen their rows in one order, the state that is reached can be left by
statements of the open transactions alone, after which none is open. -/
theorem transactions_finish {users : Table UUID User} {devices : Table UUID Device} {fxRates : FxTable}
    {expenses : Table UUID Expense} {usage : UsageTable} {syncSeq : ℕ} {reader : UUID}
    (hrun : Run (SyncSystem.step rt settings) (fun _ _ ↦ True)
      (.ofTables users devices fxRates expenses usage syncSeq reader) trace s) :
    (∀ state t user batch now, (state, .start t (.push user batch now)) ∈ trace →
      statementsOf trace t ≤ 2 * batch.length + 5) ∧
    (∀ state t userId limit tie now, (state, .start t (.sweep userId limit tie now)) ∈ trace →
      statementsOf trace t ≤ 3 * (sweepLimit settings limit).toNat + 2) ∧
    ((∀ entry ∈ trace, InOrder rt settings rank entry.1 entry.2) → ∀ clock, ∃ actions s',
      (∀ action ∈ actions, ∃ t, action = SyncAction.advance t clock) ∧
        exec (SyncSystem.step rt settings) s actions = some s' ∧ ∀ t, (s'.procs t).running = false) := by
  have hbudgeted (t : ℕ) : Budgeted rt settings trace s t :=
    hrun.trace_invariant (fun trace s ↦ Budgeted rt settings trace s t)
      ⟨fun _ ↦ ⟨rfl, fun _ _ ↦ List.not_mem_nil⟩,
      fun _ _ hmem ↦ absurd hmem List.not_mem_nil⟩ fun _ _ _ _ h _ hstep ↦ h.step hstep
  refine ⟨fun state t user batch now hmem ↦ ?_, fun state t userId limit tie now hmem ↦ ?_,
    fun hordered clock ↦ ?_⟩
  · have hwithin := ((hbudgeted t).within state _ hmem rfl).2
    have hparsed := parsed_length_le (batch.map (classify rt))
    rw [List.length_map] at hparsed
    simp only [SyncRequest.proc, Proc.work, PushStage.work] at hwithin
    omega
  · have hwithin := ((hbudgeted t).within state _ hmem rfl).2
    simp only [SyncRequest.proc, Proc.work, SweepStage.work] at hwithin
    omega
  · have hranked := (hrun.of_forall_mem hordered).invariant (fun s ↦ ∀ t, Ranked rank s t)
      (fun t ↦ .of_released
      (fun _ ↦ (Option.some_ne_none t).symm) (fun _ ↦ (Option.some_ne_none t).symm) rfl)
      fun s action s' h hok hstep ↦ Ranked.step h hok hstep
    obtain ⟨first, middle, hfirst, hexec, ⟨hranked', hopened⟩, hfresh⟩ :=
      finish_chosen rt settings clock hranked
      fun t ↦ mem_started_of_running hrun (fun _ ↦ rfl)
    -- no transaction holds a lock now
    have hfree (t : ℕ) : (middle.procs t).fresh = true := by
      by_contra hchosen
      have hchosen := Bool.not_eq_true _ ▸ hchosen
      cases (hfresh t (Proc.running_of_not_fresh hchosen)).symm.trans hchosen
    have hexpenses : middle.expenses.Unheld := fun id ↦ by
      by_contra hheld
      obtain ⟨u, hu⟩ := Option.ne_none_iff_exists'.mp hheld
      exact ((hranked' u).fresh (hfree u)).1 id hu
    have husage : middle.usage.Unheld := fun key ↦ by
      by_contra hheld
      obtain ⟨u, hu⟩ := Option.ne_none_iff_exists'.mp hheld
      exact ((hranked' u).fresh (hfree u)).2 key hu
    obtain ⟨rest, s', hrest, hexec', hdone⟩ := finish_fresh rt settings clock hexpenses husage hopened
    refine ⟨first ++ rest, s', ?_, ?_, hdone⟩
    · exact fun action hmem ↦ (List.mem_append.mp hmem).elim (hfirst action) (hrest action)
    · rw [exec_append, hexec, Option.bind_some, hexec']

end

/-- A push that has locked the expense `3`, one that waits for it, and a sweep that has not begun. -/
theorem transactions_finish_sample : ∃ s : SyncSystem, s.expenses.holder ⟨3⟩ = some 0 ∧
    (s.procs 1).pending = [⟨3⟩] ∧ (s.procs 2).fresh = true ∧
    ∃ actions s', (∀ action ∈ actions, ∃ t, action = SyncAction.advance t 0) ∧
      exec (SyncSystem.step .ascii sampleSettings) s actions = some s' ∧
        ∀ t, (s'.procs t).running = false := by
  let rank (_ : UUID) : ℕ := 0
  let guardedStep (s : SyncSystem) (action : SyncAction) : Option SyncSystem :=
    if InOrder .ascii sampleSettings rank s action then SyncSystem.step .ascii sampleSettings s action
      else none
  have hexec : (exec guardedStep .sample (SyncSystem.transaction 0 (.push ⟨1⟩ [sampleExpense 12 1] 0) 4 ++
      SyncSystem.transaction 1 (.push ⟨1⟩ [sampleExpense 13 2] 0) 3 ++
      SyncSystem.transaction 2 (.sweep none none (fun _ ↦ 0) 0) 0)).map (fun s ↦
        (s.expenses.holder ⟨3⟩, (s.procs 1).pending, (s.procs 2).fresh)) = some (some 0, [⟨3⟩], true) := by
    decide +kernel
  obtain ⟨s, hs, hfacts⟩ := Option.map_eq_some_iff.mp hexec
  simp only [Prod.mk.injEq] at hfacts
  obtain ⟨hholder, hpending, hfresh⟩ := hfacts
  obtain ⟨trace, hrun⟩ := exists_guarded_append .nil hs
  have hall : Run (SyncSystem.step .ascii sampleSettings) (fun _ _ ↦ True) .sample trace s :=
    hrun.of_forall_mem fun _ _ ↦ trivial
  exact ⟨s, hholder, hpending, hfresh,
    (transactions_finish hall).2.2 (fun ⟨_, _⟩ hmem ↦ hrun.ok_of_mem hmem) 0⟩

end VoiceSpend
