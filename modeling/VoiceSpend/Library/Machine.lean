import Mathlib.Data.List.Forall2

/-!
# Runs of a deterministic step function

A system is given by `step : σ → α → Option σ`: an action is either enabled, with one
successor, or not. Nondeterminism is the choice of the next action, so a statement about
all runs covers every interleaving. `Run` also carries a guard `ok`, a condition on the
state and the action before each step; taking `fun _ _ ↦ True` gives all runs.
-/

namespace VoiceSpend.Machine

variable {σ α : Type*}

/-- Execute actions in order; `none` as soon as one of them is not enabled. -/
def exec (step : σ → α → Option σ) : σ → List α → Option σ
  | s, [] => some s
  | s, a :: rest => (step s a).bind fun s' ↦ exec step s' rest

/-- The states an execution passes through, each with the action taken there. -/
def traceOf (step : σ → α → Option σ) : σ → List α → List (σ × α)
  | _, [] => []
  | s, a :: rest => (s, a) :: (step s a).elim [] fun s' ↦ traceOf step s' rest

/-- A run from `start` with its trace of states and actions, every step of which meets `ok`. -/
inductive Run (step : σ → α → Option σ) (ok : σ → α → Prop) (start : σ) : List (σ × α) → σ → Prop
  | nil : Run step ok start [] start
  | snoc {trace : List (σ × α)} {s s' : σ} {a : α} :
      Run step ok start trace s → ok s a → step s a = some s' →
        Run step ok start (trace ++ [(s, a)]) s'

variable {step : σ → α → Option σ} {ok weaker : σ → α → Prop} {start s s' : σ}
  {trace : List (σ × α)}

/-- What holds at the start and is kept by every guarded step holds after every run. -/
theorem Run.invariant (I : σ → Prop) (hstart : I start)
    (hstep : ∀ s a s', I s → ok s a → step s a = some s' → I s')
    (hrun : Run step ok start trace s) : I s := by
  induction hrun with
  | nil => exact hstart
  | snoc _ hok hs ih => exact hstep _ _ _ ih hok hs

/-- The same rule for a statement about the trace as well as the state. -/
theorem Run.trace_invariant (I : List (σ × α) → σ → Prop) (hstart : I [] start)
    (hstep : ∀ trace s a s', I trace s → ok s a → step s a = some s' → I (trace ++ [(s, a)]) s')
    (hrun : Run step ok start trace s) : I trace s := by
  induction hrun with
  | nil => exact hstart
  | snoc _ hok hs ih => exact hstep _ _ _ _ ih hok hs

/-- The run up to a step of its trace, and the guard of that step. -/
theorem Run.before {before after : List (σ × α)} {middle : σ} {a : α} (hrun : Run step ok start trace s)
    (htrace : trace = before ++ (middle, a) :: after) :
    Run step ok start before middle ∧ ok middle a := by
  induction hrun generalizing after with
  | nil => exact absurd htrace.symm (List.append_ne_nil_of_right_ne_nil _ (List.cons_ne_nil _ _))
  | snoc hrun hok hs ih =>
    rcases List.eq_nil_or_concat after with rfl | ⟨rest, last, rfl⟩
    · obtain ⟨rfl, heq⟩ := List.append_inj' htrace rfl
      cases heq
      exact ⟨hrun, hok⟩
    · rw [List.concat_eq_append, ← List.cons_append, ← List.append_assoc] at htrace
      exact ih (List.append_inj' htrace rfl).1

theorem Run.ok_of_mem {middle : σ} {a : α} (hrun : Run step ok start trace s)
    (hmem : (middle, a) ∈ trace) : ok middle a := by
  obtain ⟨before, after, htrace⟩ := List.append_of_mem hmem
  exact (hrun.before htrace).2

theorem Run.step_of_mem {middle : σ} {a : α} (hrun : Run step ok start trace s)
    (hmem : (middle, a) ∈ trace) : ∃ after, step middle a = some after := by
  induction hrun with
  | nil => exact absurd hmem List.not_mem_nil
  | snoc _ _ hs ih =>
    rcases List.mem_append.mp hmem with hearlier | hlast
    · exact ih hearlier
    · cases List.mem_singleton.mp hlast
      exact ⟨_, hs⟩

/-- What every step keeps holds in the end, if it holds after some step. -/
theorem Run.kept_after {P : σ → Prop} (hkept : ∀ s a s', P s → ok s a → step s a = some s' → P s')
    {middle after : σ} {a : α} (hrun : Run step ok start trace s) (hmem : (middle, a) ∈ trace)
    (hstep : step middle a = some after) (hafter : P after) : P s := by
  induction hrun with
  | nil => exact absurd hmem List.not_mem_nil
  | snoc _ hok hs ih =>
    rcases List.mem_append.mp hmem with hearlier | hlast
    · exact hkept _ _ _ (ih hearlier) hok hs
    · cases List.mem_singleton.mp hlast
      cases hstep.symm.trans hs
      exact hafter

/-- A run whose steps meet another guard as well. -/
theorem Run.of_forall_mem (hrun : Run step weaker start trace s)
    (h : ∀ entry ∈ trace, ok entry.1 entry.2) : Run step ok start trace s := by
  induction hrun with
  | nil => exact .nil
  | snoc _ _ hs ih =>
    exact .snoc (ih fun entry hmem ↦ h entry (List.mem_append_left _ hmem))
      (h _ (List.mem_append_right _ (List.mem_singleton_self _))) hs

theorem Run.append {actions : List α} (hrun : Run step (fun _ _ ↦ True) start trace s)
    (hexec : exec step s actions = some s') :
    Run step (fun _ _ ↦ True) start (trace ++ traceOf step s actions) s' := by
  induction actions generalizing s trace with
  | nil =>
    cases hexec
    rw [traceOf, List.append_nil]
    exact hrun
  | cons a rest ih =>
    obtain ⟨middle, hmiddle, hrest⟩ := Option.bind_eq_some_iff.mp hexec
    have hlonger := ih (.snoc hrun trivial hmiddle) hrest
    rw [List.append_assoc, List.singleton_append] at hlonger
    rw [traceOf, hmiddle]
    exact hlonger

/-- A successful execution is a run. -/
theorem run_of_exec {actions : List α} (hexec : exec step start actions = some s) :
    Run step (fun _ _ ↦ True) start (traceOf step start actions) s :=
  Run.append .nil hexec

theorem map_traceOf {actions : List α} (hexec : exec step s actions = some s') :
    (traceOf step s actions).map Prod.snd = actions := by
  induction actions generalizing s with
  | nil => rfl
  | cons a rest ih =>
    obtain ⟨middle, hmiddle, hrest⟩ := Option.bind_eq_some_iff.mp hexec
    rw [traceOf, hmiddle, List.map_cons]
    exact congrArg (a :: ·) (ih hrest)

/-- A successful execution of actions that all meet a condition. -/
theorem run_of_exec_of_forall {p : α → Prop} {actions : List α}
    (hexec : exec step start actions = some s) (hall : ∀ a ∈ actions, p a) :
    Run step (fun _ a ↦ p a) start (traceOf step start actions) s :=
  (run_of_exec hexec).of_forall_mem fun entry hmem ↦
    hall entry.2 (map_traceOf hexec ▸ List.mem_map_of_mem (f := Prod.snd) hmem)

/-- A run seen through a view of its states: the actions that the view shows are steps of what it
shows, and the others leave it as it is. `good` is any condition that a state has if a later one has it. -/
theorem Run.project {τ : Type*} {step' : τ → α → Option τ} {ok' : τ → α → Prop} (view : σ → τ)
    (keep : α → Bool) (good : σ → Prop)
    (hgood : ∀ s a s', ok s a → step s a = some s' → good s' → good s)
    (hkept : ∀ s a s', ok s a → step s a = some s' → good s' → keep a = true →
      ok' (view s) a ∧ step' (view s) a = some (view s'))
    (hdropped : ∀ s a s', ok s a → step s a = some s' → good s' → keep a = false → view s' = view s)
    (hrun : Run step ok start trace s) (hs : good s) : ∃ shown,
      Run step' ok' (view start) shown (view s) ∧
        shown.map Prod.snd = (trace.map Prod.snd).filter keep := by
  induction hrun with
  | nil => exact ⟨[], .nil, rfl⟩
  | @snoc trace s s' a _ hok hstep ih =>
    obtain ⟨shown, hshown, hactions⟩ := ih (hgood s a s' hok hstep hs)
    rw [List.map_append, List.map_singleton, List.filter_append, ← hactions]
    cases hkeep : keep a with
    | true =>
      obtain ⟨hok', hstep'⟩ := hkept s a s' hok hstep hs hkeep
      refine ⟨shown ++ [(view s, a)], hshown.snoc hok' hstep', ?_⟩
      rw [List.map_append, List.map_singleton, List.filter_singleton, hkeep]
      rfl
    | false =>
      rw [hdropped s a s' hok hstep hs hkeep, List.filter_singleton, hkeep]
      exact ⟨shown, hshown, (List.append_nil _).symm⟩

/-- A run followed by another system: the actions kept are steps of it as well and show the same there,
and the others change nothing that the relation is about and show nothing. -/
theorem Run.simulate {τ β : Type*} {step' : τ → α → Option τ} {ok' : τ → α → Prop} (R : σ → τ → Prop)
    (keep : α → Bool) (shows : σ → α → Option β) (shows' : τ → α → Option β) {start' : τ}
    (hstart : R start start')
    (hkept : ∀ s t a s', R s t → ok s a → step s a = some s' → keep a = true →
      ok' t a ∧ shows' t a = shows s a ∧ ∃ t', step' t a = some t' ∧ R s' t')
    (hdropped : ∀ s t a s', R s t → ok s a → step s a = some s' → keep a = false →
      shows s a = none ∧ R s' t)
    (hrun : Run step ok start trace s) : ∃ shown t, Run step' ok' start' shown t ∧ R s t ∧
      shown.map Prod.snd = (trace.map Prod.snd).filter keep ∧
      shown.filterMap (fun entry ↦ shows' entry.1 entry.2) =
        trace.filterMap fun entry ↦ shows entry.1 entry.2 := by
  induction hrun with
  | nil => exact ⟨[], start', .nil, hstart, rfl, rfl⟩
  | @snoc trace s s' a _ hok hstep ih =>
    obtain ⟨shown, t, hshown, hR, hactions, hsame⟩ := ih
    rw [List.map_append, List.map_singleton, List.filter_append, ← hactions, List.filterMap_append,
      ← hsame,
      List.filter_singleton, List.filterMap_cons, List.filterMap_nil]
    cases hkeep : keep a with
    | true =>
      obtain ⟨hok', hshows, t', hstep', hR'⟩ := hkept s t a s' hR hok hstep hkeep
      refine ⟨shown ++ [(t, a)], t', hshown.snoc hok' hstep', hR', List.map_append, ?_⟩
      rw [List.filterMap_append, List.filterMap_cons, List.filterMap_nil, hshows]
    | false =>
      obtain ⟨hshows, hR'⟩ := hdropped s t a s' hR hok hstep hkeep
      rw [hshows]
      exact ⟨shown, t, hshown, hR', (List.append_nil _).symm, (List.append_nil _).symm⟩

/-- The actions of a trace that are shown. -/
def shownActions (shown : σ → α → Bool) (trace : List (σ × α)) : List α :=
  (trace.filter fun entry ↦ shown entry.1 entry.2).map Prod.snd

theorem shownActions_snoc (shown : σ → α → Bool) (trace : List (σ × α)) (s : σ) (a : α) :
    shownActions shown (trace ++ [(s, a)]) = shownActions shown trace ++ if shown s a then [a] else [] := by
  rw [shownActions, List.filter_append, List.map_append, List.filter_singleton]
  cases shown s a <;> rfl

theorem shownActions_eq (shown : σ → α → Bool) (trace : List (σ × α)) : shownActions shown trace =
    (((trace.map Prod.snd).zip (trace.map fun entry ↦ shown entry.1 entry.2)).filter (·.2)).map Prod.fst := by
  induction trace with
  | nil => rfl
  | cons entry rest ih =>
    rw [shownActions] at ih
    rw [shownActions, List.map_cons, List.map_cons, List.zip_cons_cons, List.filter_cons, List.filter_cons]
    cases shown entry.1 entry.2 <;> simp [ih]

/-- Two runs that show corresponding actions stay related, if an action that is not shown keeps the relation
and two shown ones that correspond do. -/
theorem Run.alike {τ β : Type*} {step' : τ → β → Option τ} {ok' : τ → β → Prop} {start' t : τ}
    {trace' : List (τ × β)} (R : σ → τ → Prop) (Q : α → β → Prop) (shown : σ → α → Bool)
    (shown' : τ → β → Bool) (hstart : R start start')
    (hleft : ∀ trace s a s' t, Run step ok start trace s → step s a = some s' → shown s a = false →
      R s t → R s' t)
    (hright : ∀ trace' s t b t', Run step' ok' start' trace' t → step' t b = some t' → shown' t b = false →
      R s t → R s t')
    (hboth : ∀ trace trace' s t a b s' t', Run step ok start trace s → Run step' ok' start' trace' t →
      step s a = some s' → step' t b = some t' → shown s a = true → shown' t b = true → Q a b →
      R s t → R s' t')
    (hrun : Run step ok start trace s) (hrun' : Run step' ok' start' trace' t)
    (hsame : List.Forall₂ Q (shownActions shown trace) (shownActions shown' trace')) : R s t := by
  induction hrun generalizing t trace' with
  | nil =>
    induction hrun' with
    | nil => exact hstart
    | @snoc trace' t t' b hrun' _ hstep' ih' =>
      rw [shownActions_snoc] at hsame
      cases hshown : shown' t b with
      | false =>
        rw [hshown, if_neg Bool.false_ne_true, List.append_nil] at hsame
        exact hright _ _ _ _ _ hrun' hstep' hshown (ih' hsame)
      | true =>
        have hlength := hsame.length_eq
        simp [hshown, shownActions] at hlength
  | @snoc trace s s' a hrun _ hstep ih =>
    cases hshown : shown s a with
    | false =>
      rw [shownActions_snoc, hshown, if_neg Bool.false_ne_true, List.append_nil] at hsame
      exact hleft _ _ _ _ _ hrun hstep hshown (ih hrun' hsame)
    | true =>
      rw [shownActions_snoc, hshown, if_pos rfl] at hsame
      -- the other run ends with the corresponding action and some that it does not show
      induction hrun' with
      | nil =>
        have hlength := hsame.length_eq
        simp [shownActions] at hlength
      | @snoc trace' t t' b hrun' _ hstep' ih' =>
        rw [shownActions_snoc] at hsame
        cases hshown' : shown' t b with
        | false =>
          rw [hshown', if_neg Bool.false_ne_true, List.append_nil] at hsame
          exact hright _ _ _ _ _ hrun' hstep' hshown' (ih' hsame)
        | true =>
          rw [hshown', if_pos rfl] at hsame
          have hreversed := List.forall₂_reverse_iff.mpr hsame
          rw [List.reverse_concat', List.reverse_concat', List.forall₂_cons,
            List.forall₂_reverse_iff] at hreversed
          exact hboth _ _ _ _ _ _ _ _ hrun hrun' hstep hstep' hshown hshown' hreversed.1
            (ih hrun' hreversed.2)

theorem exec_append (first second : List α) (s : σ) :
    exec step s (first ++ second) = (exec step s first).bind fun s' ↦ exec step s' second := by
  induction first generalizing s with
  | nil => rfl
  | cons a rest ih =>
    rw [List.cons_append, exec, exec, Option.bind_assoc]
    congr 1
    funext s'
    exact ih s'

/-- The same action, again and again. -/
def Repeats (step : σ → α → Option σ) (a : α) (s s' : σ) : Prop :=
  ∃ n, exec step s (List.replicate n a) = some s'

theorem Repeats.refl (a : α) (s : σ) : Repeats step a s s := ⟨0, rfl⟩

theorem Repeats.once {a : α} (h : step s a = some s') : Repeats step a s s' := by
  refine ⟨1, ?_⟩
  rw [List.replicate_one, exec, h]
  rfl

theorem Repeats.trans {a : α} {s'' : σ} (hfirst : Repeats step a s s')
    (hsecond : Repeats step a s' s'') : Repeats step a s s'' := by
  obtain ⟨n, hn⟩ := hfirst
  obtain ⟨m, hm⟩ := hsecond
  refine ⟨n + m, ?_⟩
  rw [List.replicate_add, exec_append, hn, Option.bind_some, hm]

/-- Where every state that is not done has an execution that keeps the invariant and lowers a measure, some
execution is done. -/
theorem exists_exec_done (allowed : α → Prop) (I done : σ → Prop) (measure : σ → ℕ)
    (hprogress : ∀ s, I s → ¬ done s → ∃ actions s', (∀ a ∈ actions, allowed a) ∧
      exec step s actions = some s' ∧ I s' ∧ measure s' < measure s) (s : σ) (hs : I s) :
    ∃ actions s', (∀ a ∈ actions, allowed a) ∧ exec step s actions = some s' ∧ I s' ∧ done s' := by
  induction hmeasure : measure s using Nat.strongRecOn generalizing s with
  | _ n ih =>
    by_cases hdone : done s
    · exact ⟨[], s, nofun, rfl, hs, hdone⟩
    · obtain ⟨first, middle, hfirst, hexec, hmiddle, hless⟩ := hprogress s hs hdone
      obtain ⟨rest, s', hrest, hexec', hs', hdone'⟩ := ih _ (hmeasure ▸ hless) middle hmiddle rfl
      refine ⟨first ++ rest, s', ?_, ?_, hs', hdone'⟩
      · exact fun a hmem ↦ (List.mem_append.mp hmem).elim (hfirst a) (hrest a)
      · rw [exec_append, hexec, Option.bind_some, hexec']

/-- An execution that checks the guard before each step is a guarded run. -/
theorem exists_guarded_append [∀ s a, Decidable (ok s a)] {actions : List α}
    (hrun : Run step ok start trace s)
    (hexec : exec (fun s a ↦ if ok s a then step s a else none) s actions = some s') :
    ∃ longer, Run step ok start longer s' := by
  induction actions generalizing s trace with
  | nil =>
    cases hexec
    exact ⟨trace, hrun⟩
  | cons a rest ih =>
    obtain ⟨middle, hmiddle, hrest⟩ := Option.bind_eq_some_iff.mp hexec
    dsimp only at hmiddle
    split at hmiddle
    · rename_i hok
      exact ih (.snoc hrun hok hmiddle) hrest
    · cases hmiddle

end VoiceSpend.Machine
