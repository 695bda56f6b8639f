import Mathlib.Data.List.Perm.Basic
import VoiceSpend.Library.Machine
import VoiceSpend.Worker.Tasks

/-!
# Runs of the worker

In whatever order the messages are taken, and whatever the provider answers: each tick of the schedule is
attempted until an attempt succeeds, its message is lost, or the retries are used up. The queue can always be
emptied, and what `fx_rates` holds are rates that a provider quoted for their day.
-/

namespace VoiceSpend

open Machine

/-- The tick that an ingest stems from. -/
def FxTask.tick : FxTask → Option ℕ
  | .ingestDailyFx tick _ => some tick
  | .backfillFxRange .. | .recomputeAmountBase .. => none

/-- `request.retries` of a message of the tick. -/
def FxTask.retriesOf (tick : ℕ) : FxTask → Option ℕ
  | .ingestDailyFx t retries => if t = tick then some retries else none
  | .backfillFxRange .. | .recomputeAmountBase .. => none

/-- How many tasks a message leads to at most, its own among them. -/
def FxTask.work : FxTask → ℕ
  | .ingestDailyFx _ retries => maxRetries - retries + 2
  | .backfillFxRange .. | .recomputeAmountBase .. => 1

/-- The messages that a task sends. -/
def FxTask.followUps (rt : Runtime) (rates : FxTable) (env : TaskEnv) : FxTask → List FxTask
  | .ingestDailyFx tick retries =>
    if (ingestDaily rt rates env).isSome then [.recomputeAmountBase none none]
    else if retries < maxRetries then [.ingestDailyFx tick (retries + 1)]
    else []
  | .backfillFxRange .. | .recomputeAmountBase .. => []

namespace WorkerAction

/-- The message that a step takes from the queue. -/
def taken (s : Worker) : WorkerAction → Option FxTask
  | .run i _ | .lose i => s.queue[i]?
  | _ => none

/-- The messages that a step sends. -/
def sent (rt : Runtime) (s : Worker) : WorkerAction → List FxTask
  | .beat => [.ingestDailyFx s.ticks 0]
  | .callBackfill start finish => [.backfillFxRange start finish]
  | .handleBaseCurrencyChanged user _ => [.recomputeAmountBase (some user.str) none]
  | .run i env => s.queue[i]?.elim [] (·.followUps rt s.rates env)
  | _ => []

/-- The tick whose ingest a step attempts, and whether it succeeds. -/
def attempt (rt : Runtime) (s : Worker) : WorkerAction → Option (ℕ × Bool)
  | .run i env => (s.queue[i]?.bind FxTask.tick).map fun tick ↦ (tick, (ingestDaily rt s.rates env).isSome)
  | _ => none

/-- The tick whose ingest a step loses. -/
def lost (s : Worker) : WorkerAction → Option ℕ
  | .lose i => s.queue[i]?.bind FxTask.tick
  | _ => none

def beats : WorkerAction → ℕ
  | .beat => 1
  | _ => 0

def isRun : WorkerAction → Bool
  | .run .. => true
  | _ => false

/-- How many tasks a step outside the worker leads to at most. -/
def credit : WorkerAction → ℕ
  | .beat => maxRetries + 2
  | .callBackfill .. | .handleBaseCurrencyChanged .. => 1
  | _ => 0

end WorkerAction

namespace Worker

/-- The messages of a tick in the queue, by their retries. -/
def queued (s : Worker) (tick : ℕ) : List ℕ := s.queue.filterMap (·.retriesOf tick)

/-- The work that the queue stands for. -/
def work (s : Worker) : ℕ := (s.queue.map FxTask.work).sum

/-- The attempts of a tick that succeeded, or those that failed. -/
def outcomes (rt : Runtime) (trace : List (Worker × WorkerAction)) (tick : ℕ) (success : Bool) : ℕ :=
  trace.countP fun entry ↦ decide (entry.2.attempt rt entry.1 = some (tick, success))

/-- The messages of a tick that were lost. -/
def losses (trace : List (Worker × WorkerAction)) (tick : ℕ) : ℕ :=
  trace.countP fun entry ↦ decide (entry.2.lost entry.1 = some tick)

/-- The tasks that were run. -/
def executions (trace : List (Worker × WorkerAction)) : ℕ := trace.countP (·.2.isRun)

def credits (trace : List (Worker × WorkerAction)) : ℕ := (trace.map (·.2.credit)).sum

end Worker

/-- Where a tick stands, from its messages in the queue, its failed and successful attempts and its losses. -/
inductive TickStage (tick ticks : ℕ) : List ℕ → ℕ → ℕ → ℕ → Prop
  | unbegun (due : ticks ≤ tick) : TickStage tick ticks [] 0 0 0
  | pending (failures : ℕ) (begun : tick < ticks) (bound : failures ≤ maxRetries) :
      TickStage tick ticks [failures] failures 0 0
  | succeeded (failures : ℕ) (begun : tick < ticks) (bound : failures ≤ maxRetries) :
      TickStage tick ticks [] failures 1 0
  | givenUp (begun : tick < ticks) : TickStage tick ticks [] (maxRetries + 1) 0 0
  | lost (failures : ℕ) (begun : tick < ticks) (bound : failures ≤ maxRetries) :
      TickStage tick ticks [] failures 0 1

/-- The rate of a code is what a payload of the provider comes to. -/
def FXProvider.Quotes (upper : Text → Text) (provider : FXProvider) (values : Table Text Quote) (code : Text)
    (row : FxRate) : Prop :=
  row.source = some provider.providerName ∧ ∃ quotes,
    payloadRows upper provider.baseCurrency (Table.rows values) = some quotes ∧
      quotes.lookup code = some row.ratePerUsd

/-- The payload is the one for the day, or the latest one of that day. -/
def TaskEnv.Quotes (rt : Runtime) (env : TaskEnv) (key : Text × Date) (row : FxRate) : Prop :=
  ∃ values, (env.provider.fetchForDate key.2 = some values ∨
      env.latest = some values ∧ key.2 = Instant.date env.now) ∧
    env.provider.Quotes rt.upper values key.1 row

/-- The dollar is worth a dollar. -/
def DollarRates (rates : FxTable) : Prop :=
  ∀ day row, rates.lookup (("USD" : Text), day) = some row → row.ratePerUsd.toRat = 1

/-- What holds of the worker after a run from tables with nothing in the queue. -/
structure WorkerBounded (rt : Runtime) (settings : Settings) (rates : FxTable)
    (trace : List (Worker × WorkerAction)) (s : Worker) : Prop where
  attempts : ∀ tick, Worker.outcomes rt trace tick true ≤ 1 ∧
    Worker.outcomes rt trace tick true + Worker.outcomes rt trace tick false ≤ maxRetries + 1
  /-- A tick is not forgotten: unless its message was lost, it succeeded or all its attempts failed. -/
  finished : ∀ tick < s.ticks, s.queued tick = [] → Worker.losses trace tick = 0 →
    Worker.outcomes rt trace tick true = 1 ∨ Worker.outcomes rt trace tick false = maxRetries + 1
  counted : s.ingestFailures =
    trace.countP fun entry ↦ (entry.2.attempt rt entry.1).any fun outcome ↦ !outcome.2
  executed : Worker.executions trace + s.work ≤ Worker.credits trace
  /-- Nothing but the tasks themselves is needed to empty the queue, whatever they find. -/
  drains : ∀ env : ℕ → TaskEnv, ∃ n ≤ s.work, ∃ s',
    exec (Worker.step rt settings) s ((List.range n).map fun k ↦ .run 0 (env k)) = some s' ∧ s'.queue = []
  kept : ∀ entry ∈ trace, ∀ key ∈ entry.1.rates, key ∈ s.rates
  quoted : ∀ key row, s.rates.lookup key = some row → rates.lookup key = some row ∨
    ∃ entry ∈ trace, ∃ i env, entry.2 = .run i env ∧ env.Quotes rt key row
  dollars : DollarRates rates → DollarRates s.rates

section

variable {rt : Runtime} {settings : Settings} {s s' : Worker} {action : WorkerAction} {env : TaskEnv}
  {task : FxTask} {tick ticks failures successes losses : ℕ} {queued : List ℕ}
  {trace : List (Worker × WorkerAction)}

/-! ## The queue -/

@[simp] theorem Worker.take_rates (s : Worker) (i : ℕ) : (s.take i).rates = s.rates := rfl

@[simp] theorem Worker.send_queue (s : Worker) (task : FxTask) :
    (s.send task).queue = s.queue ++ [task] := rfl

theorem Worker.perform_queue (rt : Runtime) (settings : Settings) (s : Worker) (env : TaskEnv)
    (task : FxTask) :
    (s.perform rt settings env task).queue = s.queue ++ task.followUps rt s.rates env := by
  cases task with
  | ingestDailyFx tick retries =>
    simp only [Worker.perform, Worker.ingestDailyFx, FxTask.followUps]
    cases ingestDaily rt s.rates env with
    | none => by_cases hretries : retries < maxRetries <;> simp [hretries]
    | some out => rfl
  | backfillFxRange start finish => exact (List.append_nil _).symm
  | recomputeAmountBase userId limit =>
    simp only [Worker.perform, Worker.recompute, FxTask.followUps, List.append_nil]
    split <;> rfl

theorem Worker.perform_ticks (rt : Runtime) (settings : Settings) (s : Worker) (env : TaskEnv)
    (task : FxTask) :
    (s.perform rt settings env task).ticks = s.ticks := by
  cases task with
  | ingestDailyFx tick retries =>
    simp only [Worker.perform, Worker.ingestDailyFx]
    split
    · split <;> rfl
    · rfl
  | backfillFxRange start finish => rfl
  | recomputeAmountBase userId limit =>
    simp only [Worker.perform, Worker.recompute]
    split <;> rfl

/-- What a step does to the queue, in any order of its messages, and to the schedule. -/
structure Worker.Moves (rt : Runtime) (s : Worker) (action : WorkerAction) (s' : Worker)
    (rest : List FxTask) :
    Prop where
  before : s.queue.Perm ((action.taken s).toList ++ rest)
  after : s'.queue = rest ++ action.sent rt s
  ticks : s'.ticks = s.ticks + action.beats

theorem Worker.take_perm {i : ℕ} (h : s.queue[i]? = some task) : s.queue.Perm (task :: (s.take i).queue) := by
  obtain ⟨hi, rfl⟩ := List.getElem?_eq_some_iff.mp h
  exact (List.getElem_cons_eraseIdx_perm hi).symm

theorem Worker.step_moves (h : s.step rt settings action = some s') : ∃ rest, s.Moves rt action s' rest := by
  cases action with
  | beat | callBackfill =>
    cases h
    exact ⟨s.queue, .refl _, rfl, rfl⟩
  | handleBaseCurrencyChanged user now =>
    cases h
    exact ⟨s.queue, .refl _, rfl, rfl⟩
  | elsewhere =>
    cases h
    exact ⟨s.queue, .refl _, (List.append_nil _).symm, rfl⟩
  | push user batch now clock =>
    obtain ⟨_, _, rfl⟩ := Option.map_eq_some_iff.mp h
    exact ⟨s.queue, .refl _, (List.append_nil _).symm, rfl⟩
  | signUp id user =>
    simp only [Worker.step] at h
    split at h
    · cases h
    · cases h
      exact ⟨s.queue, .refl _, (List.append_nil _).symm, rfl⟩
  | setBaseCurrency user currency =>
    obtain ⟨_, _, rfl⟩ := Option.map_eq_some_iff.mp h
    exact ⟨s.queue, .refl _, (List.append_nil _).symm, rfl⟩
  | run i env =>
    obtain ⟨task, htask, rfl⟩ := Option.map_eq_some_iff.mp h
    refine ⟨(s.take i).queue, ?_, ?_, Worker.perform_ticks ..⟩
    · rw [WorkerAction.taken, htask]
      exact Worker.take_perm htask
    · rw [Worker.perform_queue, WorkerAction.sent, htask]
      rfl
  | lose i =>
    obtain ⟨task, htask, rfl⟩ := Option.map_eq_some_iff.mp h
    refine ⟨(s.take i).queue, ?_, (List.append_nil _).symm, rfl⟩
    rw [WorkerAction.taken, htask]
    exact Worker.take_perm htask

/-! ## Ticks -/

theorem Worker.Moves.queued_before {rest : List FxTask} (h : s.Moves rt action s' rest) (tick : ℕ) :
    (s.queued tick).Perm
      (((action.taken s).bind (·.retriesOf tick)).toList ++ rest.filterMap (·.retriesOf tick)) := by
  have hperm := h.before.filterMap (·.retriesOf tick)
  rw [List.filterMap_append] at hperm
  cases htaken : action.taken s with
  | none => simpa [Worker.queued, htaken] using hperm
  | some task => cases hretries : task.retriesOf tick <;> simpa [Worker.queued, htaken, hretries] using hperm

theorem Worker.Moves.queued_after {rest : List FxTask} (h : s.Moves rt action s' rest) (tick : ℕ) :
    s'.queued tick = rest.filterMap (·.retriesOf tick) ++
    (action.sent rt s).filterMap (·.retriesOf tick) := by
  rw [Worker.queued, h.after, List.filterMap_append]

theorem TickStage.perm (h : TickStage tick ticks queued failures successes losses) {other : List ℕ}
    (hperm : other.Perm queued) : TickStage tick ticks other failures successes losses := by
  have heq : other = queued := by
    cases h with
    | pending => exact List.perm_singleton.mp hperm
    | unbegun | succeeded | givenUp | lost => exact List.perm_nil.mp hperm
  rw [heq]
  exact h

/-- A message of a tick that is in the queue is the only one, and no attempt has succeeded. -/
theorem TickStage.of_queued (h : TickStage tick ticks queued failures successes losses) {retries : ℕ}
    {rest : List ℕ} (hperm : queued.Perm (retries :: rest)) : rest = [] ∧ retries = failures ∧
      tick < ticks ∧ failures ≤ maxRetries ∧ successes = 0 ∧ losses = 0 := by
  cases h with
  | pending _ begun bound =>
    have heq := List.singleton_perm.mp hperm
    injection heq with hretries hrest
    exact ⟨hrest.symm, hretries.symm, begun, bound, rfl, rfl⟩
  | unbegun | succeeded | givenUp | lost => exact absurd (List.nil_perm.mp hperm) (List.cons_ne_nil _ _)

/-- The next beat is that of another tick. -/
theorem TickStage.later (h : TickStage tick ticks queued failures successes losses) (hne : ticks ≠ tick) :
    TickStage tick (ticks + 1) queued failures successes losses := by
  cases h with
  | unbegun due => exact .unbegun (lt_of_le_of_ne due hne)
  | pending _ begun bound => exact .pending _ (Nat.lt_succ_of_lt begun) bound
  | succeeded _ begun bound => exact .succeeded _ (Nat.lt_succ_of_lt begun) bound
  | givenUp begun => exact .givenUp (Nat.lt_succ_of_lt begun)
  | lost _ begun bound => exact .lost _ (Nat.lt_succ_of_lt begun) bound

/-- A step that neither takes nor sends a message of the tick. -/
theorem Worker.Moves.queued_perm {rest : List FxTask} (h : s.Moves rt action s' rest)
    (htaken : (action.taken s).bind (·.retriesOf tick) = none)
    (hsent : (action.sent rt s).filterMap (·.retriesOf tick) = []) :
    (s'.queued tick).Perm (s.queued tick) := by
  have hbefore := h.queued_before tick
  rw [htaken, Option.toList_none, List.nil_append] at hbefore
  rw [h.queued_after, hsent, List.append_nil]
  exact hbefore.symm

/-- Nothing is known of the tick of the next beat. -/
theorem TickStage.next_beat (h : TickStage tick tick queued failures successes losses) :
    queued = [] ∧ failures = 0 ∧ successes = 0 ∧ losses = 0 := by
  cases h with
  | unbegun => exact ⟨rfl, rfl, rfl, rfl⟩
  | pending _ begun | succeeded _ begun | givenUp begun | lost _ begun => exact absurd begun (lt_irrefl _)

theorem FxTask.retriesOf_eq_some {retries : ℕ} :
    task.retriesOf tick = some retries ↔ task = .ingestDailyFx tick retries := by
  cases task with
  | ingestDailyFx t r =>
    simp only [FxTask.retriesOf]
    split
    · rename_i ht
      simp [ht]
    · rename_i ht
      simp [ht]
  | backfillFxRange | recomputeAmountBase => simp [FxTask.retriesOf]

theorem FxTask.tick_of_retriesOf (h : task.retriesOf tick = none) : task.tick ≠ some tick := by
  cases task with
  | ingestDailyFx t retries =>
    rintro heq
    simp [FxTask.retriesOf, Option.some.inj heq] at h
  | backfillFxRange | recomputeAmountBase => exact (Option.some_ne_none _).symm

/-- The messages that an ingest sends about its own tick. -/
theorem FxTask.followUps_retries (rt : Runtime) (rates : FxTable) (env : TaskEnv) (t retries : ℕ) :
    ((FxTask.ingestDailyFx t retries).followUps rt rates env).filterMap (·.retriesOf tick) =
      if t = tick ∧ (ingestDaily rt rates env).isSome = false ∧
        retries < maxRetries then [retries + 1] else [] := by
  simp only [FxTask.followUps]
  cases (ingestDaily rt rates env).isSome with
  | true => simp [FxTask.retriesOf]
  | false =>
    by_cases hretries : retries < maxRetries <;> by_cases ht : t = tick <;>
      simp [FxTask.retriesOf, hretries, ht]

/-- A task that is no ingest of the tick. -/
theorem FxTask.followUps_other (rt : Runtime) (rates : FxTable) (env : TaskEnv)
    (h : task.retriesOf tick = none) : (task.followUps rt rates env).filterMap (·.retriesOf tick) = [] := by
  cases task with
  | ingestDailyFx t retries =>
    rw [FxTask.followUps_retries, if_neg]
    rintro ⟨rfl, _⟩
    simp [FxTask.retriesOf] at h
  | backfillFxRange | recomputeAmountBase => rfl

theorem TickStage.beat (h : TickStage tick s.ticks (s.queued tick) failures successes losses) :
    TickStage tick (s.ticks + 1) (s.queued tick ++ if s.ticks = tick then [0] else []) failures successes
      losses := by
  by_cases htick : s.ticks = tick
  · rw [htick] at h
    obtain ⟨hqueued, rfl, rfl, rfl⟩ := h.next_beat
    rw [if_pos htick, hqueued, htick]
    exact .pending 0 (Nat.lt_succ_self tick) (Nat.zero_le _)
  · rw [if_neg htick, List.append_nil]
    exact h.later htick

/-- The next attempt of the tick. -/
theorem TickStage.attempt {retries : ℕ} {rest : List ℕ}
    (h : TickStage tick ticks queued failures successes losses) (hperm : queued.Perm (retries :: rest)) :
    TickStage tick ticks rest failures (successes + 1) losses ∧
      TickStage tick ticks (rest ++ if retries < maxRetries then [retries + 1] else [])
        (failures + 1) successes
        losses ∧
      TickStage tick ticks rest failures successes (losses + 1) := by
  obtain ⟨rfl, rfl, hbegun, hbound, rfl, rfl⟩ := h.of_queued hperm
  refine ⟨.succeeded retries hbegun hbound, ?_, .lost retries hbegun hbound⟩
  by_cases hretries : retries < maxRetries
  · rw [if_pos hretries]
    exact .pending (retries + 1) hbegun hretries
  · have hlast : retries = maxRetries := le_antisymm hbound (not_lt.mp hretries)
    rw [if_neg hretries, hlast]
    exact .givenUp hbegun

/-- What a step is to a tick. -/
theorem TickStage.step (h : TickStage tick s.ticks (s.queued tick) failures successes losses)
    (hstep : s.step rt settings action = some s') : TickStage tick s'.ticks (s'.queued tick)
      (failures + if action.attempt rt s = some (tick, false) then 1 else 0)
      (successes + if action.attempt rt s = some (tick, true) then 1 else 0)
      (losses + if action.lost s = some tick then 1 else 0) := by
  obtain ⟨rest, hmoves⟩ := Worker.step_moves hstep
  have hbefore := hmoves.queued_before tick
  have hafter := hmoves.queued_after tick
  rw [hmoves.ticks]
  cases action with
  | beat =>
    apply h.beat.perm
    have hsent : ([FxTask.ingestDailyFx s.ticks 0].filterMap (·.retriesOf tick)) =
        if s.ticks = tick then [0] else [] := by
      by_cases htick : s.ticks = tick <;> simp [FxTask.retriesOf, htick]
    rw [hafter, WorkerAction.sent, hsent]
    exact hbefore.symm.append_right _
  | run i env =>
    obtain ⟨task, htask, _⟩ := Option.map_eq_some_iff.mp hstep
    cases hretries : task.retriesOf tick with
    | none =>
      have hother (success : Bool) : (WorkerAction.run i env).attempt rt s ≠ some (tick, success) := by
        have htick := FxTask.tick_of_retriesOf hretries
        simp [WorkerAction.attempt, htask, htick]
      rw [if_neg (hother _), if_neg (hother _)]
      apply h.perm
      apply hmoves.queued_perm
      · rw [WorkerAction.taken, htask]
        exact hretries
      · rw [WorkerAction.sent, htask]
        exact FxTask.followUps_other rt s.rates env hretries
    | some retries =>
      obtain rfl := FxTask.retriesOf_eq_some.mp hretries
      rw [WorkerAction.taken, htask, Option.bind_some, hretries] at hbefore
      rw [WorkerAction.sent, htask, Option.elim_some, FxTask.followUps_retries] at hafter
      have hattempt : (WorkerAction.run i env).attempt rt s =
          some (tick, (ingestDaily rt s.rates env).isSome) := by
        rw [WorkerAction.attempt, htask]
        rfl
      rw [hattempt, hafter]
      obtain ⟨hsuccess, hfailure, _⟩ := h.attempt hbefore
      cases (ingestDaily rt s.rates env).isSome with
      | true => simpa [WorkerAction.lost, WorkerAction.beats] using hsuccess
      | false => simpa [WorkerAction.lost, WorkerAction.beats] using hfailure
  | lose i =>
    obtain ⟨task, htask, _⟩ := Option.map_eq_some_iff.mp hstep
    rw [WorkerAction.taken, htask, Option.bind_some] at hbefore
    replace hafter : s'.queued tick = rest.filterMap (·.retriesOf tick) := hafter.trans (List.append_nil _)
    rw [hafter]
    cases hretries : task.retriesOf tick with
    | none =>
      have hother : (WorkerAction.lose i).lost s ≠ some tick := by
        rw [WorkerAction.lost, htask]
        exact FxTask.tick_of_retriesOf hretries
      rw [hretries] at hbefore
      rw [if_neg hother]
      exact h.perm hbefore.symm
    | some retries =>
      obtain rfl := FxTask.retriesOf_eq_some.mp hretries
      rw [hretries] at hbefore
      have hlost : (WorkerAction.lose i).lost s = some tick := by
        rw [WorkerAction.lost, htask]
        rfl
      simpa [hlost, WorkerAction.attempt, WorkerAction.beats] using (h.attempt hbefore).2.2
  | _ => exact h.perm (hmoves.queued_perm rfl rfl)

theorem TickStage.bounded (h : TickStage tick ticks queued failures successes losses) :
    successes ≤ 1 ∧ successes + failures ≤ maxRetries + 1 := by
  cases h <;> omega

theorem TickStage.finished (h : TickStage tick ticks [] failures successes 0) (begun : tick < ticks) :
    successes = 1 ∨ failures = maxRetries + 1 := by
  cases h with
  | unbegun due => exact absurd begun (not_lt.mpr due)
  | succeeded => exact .inl rfl
  | givenUp => exact .inr rfl

theorem Worker.outcomes_snoc (success : Bool) : Worker.outcomes rt (trace ++ [(s, action)]) tick success =
    Worker.outcomes rt trace tick success + if action.attempt rt s = some (tick, success) then 1 else 0 := by
  simp [Worker.outcomes, List.countP_append, List.countP_singleton]

theorem Worker.losses_snoc : Worker.losses (trace ++ [(s, action)]) tick =
    Worker.losses trace tick + if action.lost s = some tick then 1 else 0 := by
  simp [Worker.losses, List.countP_append, List.countP_singleton]

/-- By induction on the run: where every tick stands. -/
theorem Worker.run_tickStage {db : Db} {rates : FxTable}
    (hrun : Run (Worker.step rt settings) (fun _ _ ↦ True) (.ofTables db rates) trace s) (tick : ℕ) :
    TickStage tick s.ticks (s.queued tick) (Worker.outcomes rt trace tick false)
      (Worker.outcomes rt trace tick true) (Worker.losses trace tick) := by
  refine hrun.trace_invariant (fun trace s ↦ TickStage tick s.ticks (s.queued tick)
    (Worker.outcomes rt trace tick false) (Worker.outcomes rt trace tick true) (Worker.losses trace tick))
    (.unbegun (Nat.zero_le tick)) fun trace s action s' h _ hstep ↦ ?_
  rw [Worker.outcomes_snoc, Worker.outcomes_snoc, Worker.losses_snoc]
  exact h.step hstep

/-! ## Work -/

theorem FxTask.followUps_work (rt : Runtime) (rates : FxTable) (env : TaskEnv) (task : FxTask) :
    1 + ((task.followUps rt rates env).map FxTask.work).sum ≤ task.work := by
  cases task with
  | ingestDailyFx tick retries =>
    simp only [FxTask.followUps, FxTask.work]
    split
    · simp only [List.map_cons, List.map_nil, List.sum_cons, List.sum_nil, FxTask.work]
      omega
    · split
      · simp only [List.map_cons, List.map_nil, List.sum_cons, List.sum_nil, FxTask.work]
        omega
      · simp only [List.map_nil, List.sum_nil]
        omega
  | backfillFxRange | recomputeAmountBase => exact le_rfl

theorem Worker.Moves.work {rest : List FxTask} (h : s.Moves rt action s' rest) :
    s'.work + (action.taken s).elim 0 FxTask.work = s.work + ((action.sent rt s).map FxTask.work).sum := by
  have hbefore : s.work = ((action.taken s).toList.map FxTask.work).sum + (rest.map FxTask.work).sum := by
    rw [Worker.work, (h.before.map FxTask.work).sum_eq, List.map_append, List.sum_append]
  have htaken : ((action.taken s).toList.map FxTask.work).sum = (action.taken s).elim 0 FxTask.work := by
    cases action.taken s <;> simp
  rw [hbefore, htaken, Worker.work, h.after, List.map_append, List.sum_append]
  omega

/-- A step of the worker uses up some of its work, any other adds what it is worth. -/
theorem Worker.step_work (hstep : s.step rt settings action = some s') :
    (if action.isRun then 1 else 0) + s'.work ≤ s.work + action.credit := by
  obtain ⟨rest, hmoves⟩ := Worker.step_moves hstep
  have hwork := hmoves.work
  cases action with
  | run i env =>
    obtain ⟨task, htask, _⟩ := Option.map_eq_some_iff.mp hstep
    have hfollow := task.followUps_work rt s.rates env
    simp only [WorkerAction.taken, WorkerAction.sent, htask, Option.elim_some] at hwork
    simp only [WorkerAction.isRun, WorkerAction.credit, if_true]
    omega
  | lose i =>
    change s'.work + _ = s.work + 0 at hwork
    change 0 + s'.work ≤ s.work + 0
    omega
  | beat =>
    change s'.work + 0 = s.work + (maxRetries + 2 + 0) at hwork
    change 0 + s'.work ≤ s.work + (maxRetries + 2)
    omega
  | callBackfill | handleBaseCurrencyChanged =>
    change s'.work + 0 = s.work + (1 + 0) at hwork
    change 0 + s'.work ≤ s.work + 1
    omega
  | push | signUp | elsewhere | setBaseCurrency =>
    change s'.work + 0 = s.work + 0 at hwork
    change 0 + s'.work ≤ s.work + 0
    omega

theorem Worker.run_executed {db : Db} {rates : FxTable}
    (hrun : Run (Worker.step rt settings) (fun _ _ ↦ True) (.ofTables db rates) trace s) :
    Worker.executions trace + s.work ≤ Worker.credits trace := by
  refine hrun.trace_invariant (fun trace s ↦ Worker.executions trace + s.work ≤ Worker.credits trace) le_rfl
    fun trace s action s' h _ hstep ↦ ?_
  have hwork := Worker.step_work hstep
  simp only [Worker.executions, Worker.credits, List.countP_append, List.countP_singleton, List.map_append,
    List.sum_append, List.map_cons, List.map_nil, List.sum_cons, List.sum_nil] at h ⊢
  omega

/-- Running the first message again and again, by induction on the work. -/
theorem Worker.exists_drained (rt : Runtime) (settings : Settings) (s : Worker) (env : ℕ → TaskEnv) :
    ∃ n ≤ s.work, ∃ s',
      exec (Worker.step rt settings) s ((List.range n).map fun k ↦ .run 0 (env k)) = some s' ∧
        s'.queue = [] := by
  induction hwork : s.work using Nat.strongRecOn generalizing s env with
  | _ work ih =>
    cases hqueue : s.queue with
    | nil => exact ⟨0, Nat.zero_le _, s, rfl, hqueue⟩
    | cons task rest =>
      have hhead : s.queue[0]? = some task := by rw [hqueue]; rfl
      have hstep : s.step rt settings (.run 0 (env 0)) =
          some ((s.take 0).perform rt settings (env 0) task) := by
        simp only [Worker.step, hhead, Option.map_some]
      have hless := Worker.step_work hstep
      simp only [WorkerAction.isRun, WorkerAction.credit, if_true] at hless
      obtain ⟨n, hn, s', hexec, hempty⟩ := ih ((s.take 0).perform rt settings (env 0) task).work (by omega) _
        (fun k ↦ env (k + 1)) rfl
      refine ⟨n + 1, by omega, s', ?_, hempty⟩
      rw [List.range_succ_eq_map, List.map_cons, List.map_map, exec, hstep]
      exact hexec

/-- `record_fx_ingest_failure` counts every attempt that fails. -/
theorem Worker.step_ingestFailures (hstep : s.step rt settings action = some s') :
    s'.ingestFailures = s.ingestFailures +
      if (action.attempt rt s).any (fun outcome ↦ !outcome.2) = true then 1 else 0 := by
  cases action with
  | beat | callBackfill | elsewhere | handleBaseCurrencyChanged =>
    cases hstep
    rfl
  | push | setBaseCurrency =>
    obtain ⟨_, _, rfl⟩ := Option.map_eq_some_iff.mp hstep
    rfl
  | lose i =>
    obtain ⟨_, _, rfl⟩ := Option.map_eq_some_iff.mp hstep
    rfl
  | signUp id user =>
    simp only [Worker.step] at hstep
    split at hstep
    · cases hstep
    · cases hstep
      rfl
  | run i env =>
    obtain ⟨task, htask, rfl⟩ := Option.map_eq_some_iff.mp hstep
    rw [WorkerAction.attempt, htask, Option.bind_some]
    cases task with
    | ingestDailyFx tick retries =>
      simp only [Worker.perform, Worker.ingestDailyFx, FxTask.tick, Option.map_some, Option.any_some,
        Worker.take_rates]
      cases ingestDaily rt s.rates env with
      | none => by_cases hretries : retries < maxRetries <;> simp [hretries, Worker.take, Worker.send]
      | some out => rfl
    | backfillFxRange => rfl
    | recomputeAmountBase userId limit =>
      simp only [Worker.perform, Worker.recompute]
      split <;> rfl

theorem Worker.run_ingestFailures {db : Db} {rates : FxTable}
    (hrun : Run (Worker.step rt settings) (fun _ _ ↦ True) (.ofTables db rates) trace s) :
    s.ingestFailures =
      trace.countP fun entry ↦ (entry.2.attempt rt entry.1).any fun outcome ↦ !outcome.2 := by
  refine hrun.trace_invariant (fun trace s ↦ s.ingestFailures =
    trace.countP fun entry ↦ (entry.2.attempt rt entry.1).any fun outcome ↦ !outcome.2) rfl
    fun trace s action s' h _ hstep ↦ ?_
  rw [List.countP_append, List.countP_singleton, ← h]
  exact Worker.step_ingestFailures hstep

/-! ## Rates -/

section

variable {upper : Text → Text} {provider : FXProvider} {values : Table Text Quote} {rates after : FxTable}
  {day finish : Date} {result : IngestResult} {results : List IngestResult}

/-- One row of `fx_rates` after an ingest of a day. -/
theorem lookup_ingested (h : ingestSnapshot upper provider rates values day = some (after, result))
    (key : Text × Date) : after.lookup key = rates.lookup key ∨
      ∃ row, after.lookup key = some row ∧ key.2 = day ∧ provider.Quotes upper values key.1 row := by
  obtain ⟨_, quotes, hquotes, rfl⟩ := ingestSnapshot_eq_some h
  obtain ⟨normalized, _, hrows⟩ := Option.bind_eq_some_iff.mp hquotes
  have hnodup := (valuesRows_eq_some_iff.mp hrows).2.2
  have hlookup := lookup_upsertRates_eq hnodup rates day key.2 provider.providerName key.1
  by_cases hday : key.2 = day
  · rw [if_pos hday] at hlookup
    cases hquote : quotes.lookup key.1 with
    | none => exact .inl (by simpa [hquote] using hlookup)
    | some rate => exact .inr ⟨_, by simpa [hquote] using hlookup, hday, rfl, quotes, hquotes, hquote⟩
  · rw [if_neg hday] at hlookup
    exact .inl hlookup

/-- One row after a backfill, which may have ended early. -/
theorem lookup_backfilled (current : Date) (rates : FxTable) (results : List IngestResult)
    (key : Text × Date) :
    (backfillFrom upper provider finish current rates results).1.lookup key = rates.lookup key ∨
      ∃ row values, (backfillFrom upper provider finish current rates results).1.lookup key = some row ∧
        provider.fetchForDate key.2 = some values ∧ provider.Quotes upper values key.1 row := by
  fun_induction backfillFrom upper provider finish current rates results with
  | case1 current rates results hle hfetch hlast ih => exact ih
  | case2 | case3 | case6 => exact .inl rfl
  | case4 current rates results hle values hfetch committed result hingest hlast ih =>
    rcases ih with hsame | hquoted
    · rw [hsame]
      rcases lookup_ingested hingest key with hold | ⟨row, hrow, rfl, hquotes⟩
      · exact .inl hold
      · exact .inr ⟨row, values, hrow, hfetch, hquotes⟩
    · exact .inr hquoted
  | case5 current rates results hle values hfetch committed result hingest hlast =>
    rcases lookup_ingested hingest key with hold | ⟨row, hrow, rfl, hquotes⟩
    · exact .inl hold
    · exact .inr ⟨row, values, hrow, hfetch, hquotes⟩

/-- Whatever the base of the provider, a payload has the dollar at one. -/
theorem FXProvider.Quotes.dollar {row : FxRate} (h : provider.Quotes upper values "USD" row) :
    row.ratePerUsd.toRat = 1 := by
  obtain ⟨_, quotes, hquotes, hrate⟩ := h
  obtain ⟨normalized, hnormalized, hrows⟩ := Option.bind_eq_some_iff.mp hquotes
  obtain ⟨_, hmapped, hnodup⟩ := valuesRows_eq_some_iff.mp hrows
  have hmem : valuesRow ("USD", 1) ∈ quotes.map some := by
    rw [← mapM_eq_some_iff.mp hmapped]
    exact List.mem_map_of_mem (Table.mem_rows.mpr (lookup_usd hnormalized))
  obtain ⟨⟨code, rate⟩, hquote, heq⟩ := List.mem_map.mp hmem
  obtain ⟨hcode, hstored⟩ := valuesRow_eq_some heq.symm
  have husd : charColumn "USD" = some "USD" := by decide
  obtain rfl : "USD" = code := Option.some.inj (husd.symm.trans hcode)
  have hsame : row.ratePerUsd = rate :=
    Option.some.inj (hrate.symm.trans (Table.lookup_of_mem_nodup hnodup hquote))
  have hscale : (1 : ℚ) = ((10 ^ 8 : ℤ) : ℚ) / 10 ^ 8 := by norm_num
  rw [hsame]
  exact Numeric.ofRat_exact hscale hstored

end

theorem lookup_ingestDaily {rates after : FxTable} {result : IngestResult}
    (h : ingestDaily rt rates env = some (after, result)) (key : Text × Date) :
    after.lookup key = rates.lookup key ∨ ∃ row, after.lookup key = some row ∧ env.Quotes rt key row := by
  obtain ⟨values, hvalues, hingest⟩ := Option.bind_eq_some_iff.mp h
  rcases lookup_ingested hingest key with hold | ⟨row, hrow, hday, hquotes⟩
  · exact .inl hold
  · exact .inr ⟨row, hrow, values, .inr ⟨hvalues, hday⟩, hquotes⟩

theorem Worker.perform_rates (rt : Runtime) (settings : Settings) (s : Worker) (env : TaskEnv) (task : FxTask)
    (key : Text × Date) : (s.perform rt settings env task).rates.lookup key = s.rates.lookup key ∨
      ∃ row, (s.perform rt settings env task).rates.lookup key = some row ∧ env.Quotes rt key row := by
  cases task with
  | ingestDailyFx tick retries =>
    simp only [Worker.perform, Worker.ingestDailyFx]
    cases hingest : ingestDaily rt s.rates env with
    | none => by_cases hretries : retries < maxRetries <;> simp [hretries, Worker.send]
    | some out => exact lookup_ingestDaily hingest key
  | backfillFxRange start finish =>
    rcases lookup_backfilled start s.rates [] key with hold | ⟨row, values, hrow, hfetch, hquotes⟩
    · exact .inl hold
    · exact .inr ⟨row, hrow, values, .inl hfetch, hquotes⟩
  | recomputeAmountBase userId limit =>
    simp only [Worker.perform, Worker.recompute]
    split <;> exact .inl rfl

/-- A row of `fx_rates` changes only by a task whose provider quotes its rate. -/
theorem Worker.step_rates (hstep : s.step rt settings action = some s') (key : Text × Date) :
    s'.rates.lookup key = s.rates.lookup key ∨ ∃ row i env, s'.rates.lookup key = some row ∧
      action = .run i env ∧ env.Quotes rt key row := by
  cases action with
  | beat | callBackfill | elsewhere | handleBaseCurrencyChanged =>
    cases hstep
    exact .inl rfl
  | push | setBaseCurrency =>
    obtain ⟨_, _, rfl⟩ := Option.map_eq_some_iff.mp hstep
    exact .inl rfl
  | lose i =>
    obtain ⟨_, _, rfl⟩ := Option.map_eq_some_iff.mp hstep
    exact .inl rfl
  | signUp id user =>
    simp only [Worker.step] at hstep
    split at hstep
    · cases hstep
    · cases hstep
      exact .inl rfl
  | run i env =>
    obtain ⟨task, _, rfl⟩ := Option.map_eq_some_iff.mp hstep
    rcases Worker.perform_rates rt settings (s.take i) env task key with hold | ⟨row, hrow, hquotes⟩
    · exact .inl hold
    · exact .inr ⟨row, i, env, hrow, rfl, hquotes⟩

theorem Worker.step_rates_kept (hstep : s.step rt settings action = some s') {key : Text × Date}
    (hkey : key ∈ s.rates) : key ∈ s'.rates := by
  rw [← AList.lookup_isSome] at hkey ⊢
  rcases Worker.step_rates hstep key with hsame | ⟨row, _, _, hrow, _⟩
  · rwa [hsame]
  · rw [hrow]
    rfl

theorem Worker.run_kept {db : Db} {rates : FxTable}
    (hrun : Run (Worker.step rt settings) (fun _ _ ↦ True) (.ofTables db rates) trace s) :
    ∀ entry ∈ trace, ∀ key ∈ entry.1.rates, key ∈ s.rates := by
  refine hrun.trace_invariant (fun trace s ↦ ∀ entry ∈ trace, ∀ key ∈ entry.1.rates, key ∈ s.rates)
    (fun _ hmem ↦ absurd hmem List.not_mem_nil) fun trace s action s' h _ hstep entry hmem key hkey ↦ ?_
  rcases List.mem_append.mp hmem with hearlier | hlast
  · exact Worker.step_rates_kept hstep (h entry hearlier key hkey)
  · rw [List.mem_singleton.mp hlast] at hkey
    exact Worker.step_rates_kept hstep hkey

theorem Worker.run_quoted {db : Db} {rates : FxTable}
    (hrun : Run (Worker.step rt settings) (fun _ _ ↦ True) (.ofTables db rates) trace s) (key : Text × Date)
    (row : FxRate) (hrow : s.rates.lookup key = some row) : rates.lookup key = some row ∨
      ∃ entry ∈ trace, ∃ i env, entry.2 = .run i env ∧ env.Quotes rt key row := by
  refine hrun.trace_invariant (fun trace s ↦ ∀ row, s.rates.lookup key = some row →
    rates.lookup key = some row ∨ ∃ entry ∈ trace, ∃ i env, entry.2 = .run i env ∧ env.Quotes rt key row)
    (fun _ hstart ↦ .inl hstart) (fun trace s action s' h _ hstep row hlater ↦ ?_) row hrow
  rcases Worker.step_rates hstep key with hsame | ⟨new, i, env, hnew, haction, hquotes⟩
  · rcases h row (hsame ▸ hlater) with hstart | ⟨entry, hmem, hentry⟩
    · exact .inl hstart
    · exact .inr ⟨entry, List.mem_append_left _ hmem, hentry⟩
  · cases hnew.symm.trans hlater
    exact .inr ⟨(s, action), List.mem_append_right _ (List.mem_singleton_self _), i, env, haction, hquotes⟩

/-! ## The worker -/

theorem worker_bounded (rt : Runtime) (settings : Settings) (db : Db) (rates : FxTable)
    (trace : List (Worker × WorkerAction)) (s : Worker)
    (hrun : Run (Worker.step rt settings) (fun _ _ ↦ True) (.ofTables db rates) trace s) :
    WorkerBounded rt settings rates trace s := by
  constructor
  · exact fun tick ↦ (Worker.run_tickStage hrun tick).bounded
  · intro tick hbegun hempty hlosses
    have hstage := Worker.run_tickStage hrun tick
    rw [hempty, hlosses] at hstage
    exact hstage.finished hbegun
  · exact Worker.run_ingestFailures hrun
  · exact Worker.run_executed hrun
  · exact Worker.exists_drained rt settings s
  · exact Worker.run_kept hrun
  · exact Worker.run_quoted hrun
  · intro hstart day row hrow
    rcases Worker.run_quoted hrun _ row hrow with hold | ⟨_, _, _, _, _, _, _, hquotes⟩
    · exact hstart day row hold
    · exact hquotes.dollar

end

/-- A provider with one rate, and a provider that cannot be reached. -/
def sampleTaskEnv (reachable : Bool) : TaskEnv where
  provider := ⟨"USD", "fixed", rfl, fun _ ↦ none⟩
  latest := if reachable then some (AList.singleton ("EUR" : Text) (.finite ⟨9, -1⟩)) else none
  tie := fun _ ↦ 0
  now := 0

/-- Two failures and a success of one tick, which then leaves a sweep in the queue. -/
theorem worker_bounded_sample : ∃ trace s, WorkerBounded .ascii sampleSettings ∅ trace s ∧
    s.ingestFailures = 2 ∧ s.queue = [.recomputeAmountBase none none] ∧
      (s.rates.lookup (("EUR" : Text), (0 : Date))).map FxRate.ratePerUsd = some ⟨90000000, by decide⟩ := by
  let actions : List WorkerAction :=
    [.beat, .run 0 (sampleTaskEnv false), .run 0 (sampleTaskEnv false), .run 0 (sampleTaskEnv true)]
  have hexec : (exec (Worker.step .ascii sampleSettings) (.ofTables sampleDb ∅) actions).map (fun s ↦
      (s.ingestFailures, s.queue, (s.rates.lookup (("EUR" : Text), (0 : Date))).map FxRate.ratePerUsd)) =
        some (2, [.recomputeAmountBase none none], some ⟨90000000, by decide⟩) := by decide +kernel
  obtain ⟨s, hs, hfacts⟩ := Option.map_eq_some_iff.mp hexec
  simp only [Prod.mk.injEq] at hfacts
  exact ⟨_, s, worker_bounded _ _ _ _ _ _ (run_of_exec hs), hfacts⟩

end VoiceSpend
