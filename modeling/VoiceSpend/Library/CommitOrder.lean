import VoiceSpend.Library.ReadCommitted

/-!
# The order of commits is a serial order

An operation reads and writes one key of a store and answers what it found. A transaction that locks
the key of every operation before it runs it, and keeps its locks to its end, sees at its commit what
it would see if it ran alone there: `HasRun` says so of an open transaction, and every step of every
transaction keeps it. Rows may carry more than the store, `core` is the part the operations are about.
-/

namespace VoiceSpend

/-- Operations on the values of single keys; `none` is a key without a value. -/
structure Operations (κ σ α β : Type*) where
  key : α → κ
  effect : α → Option σ → Option σ
  answer : α → Option σ → β

namespace Operations

variable {κ σ α β : Type*} [DecidableEq κ]

def apply (ops : Operations κ σ α β) (store : κ → Option σ) (a : α) : κ → Option σ :=
  Function.update store (ops.key a) (ops.effect a (store (ops.key a)))

/-- One operation after the other. -/
def run (ops : Operations κ σ α β) (store : κ → Option σ) (as : List α) : κ → Option σ :=
  as.foldl ops.apply store

/-- What each of them answers. -/
def answers (ops : Operations κ σ α β) : (κ → Option σ) → List α → List β
  | _, [] => []
  | store, a :: rest => ops.answer a (store (ops.key a)) :: ops.answers (ops.apply store a) rest

section

variable {ops : Operations κ σ α β} {store store' : κ → Option σ} {as : List α} {a : α} {key : κ}

@[simp] theorem run_nil (ops : Operations κ σ α β) (store : κ → Option σ) : ops.run store [] = store := rfl

theorem run_append (ops : Operations κ σ α β) (store : κ → Option σ) (first second : List α) :
    ops.run store (first ++ second) = ops.run (ops.run store first) second :=
  List.foldl_append

theorem run_concat (ops : Operations κ σ α β) (store : κ → Option σ) (as : List α) (a : α) :
    ops.run store (as ++ [a]) = ops.apply (ops.run store as) a :=
  List.foldl_concat ..

theorem answers_concat (ops : Operations κ σ α β) (store : κ → Option σ) (as : List α) (a : α) :
    ops.answers store (as ++ [a]) = ops.answers store as ++
      [ops.answer a (ops.run store as (ops.key a))] := by
  induction as generalizing store with
  | nil => rfl
  | cons first rest ih => exact congrArg _ (ih (ops.apply store first))

theorem apply_of_ne (hne : key ≠ ops.key a) : ops.apply store a key = store key :=
  Function.update_of_ne hne ..

theorem apply_congr (hkey : store (ops.key a) = store' (ops.key a)) (hsame : store key = store' key) :
    ops.apply store a key = ops.apply store' a key := by
  unfold apply
  by_cases heq : key = ops.key a
  · rw [heq, Function.update_self, Function.update_self, hkey]
  · rw [Function.update_of_ne heq, Function.update_of_ne heq, hsame]

/-- A key that no operation is on keeps its value. -/
theorem run_of_forall_ne (hne : ∀ a ∈ as, key ≠ ops.key a) : ops.run store as key = store key := by
  induction as generalizing store with
  | nil => rfl
  | cons a rest ih =>
    rw [List.forall_mem_cons] at hne
    calc ops.run (ops.apply store a) rest key
        = ops.apply store a key := ih hne.2
      _ = store key := apply_of_ne hne.1

/-- A run depends on the values at its own keys only. -/
theorem run_congr (hkeys : ∀ a ∈ as, store (ops.key a) = store' (ops.key a))
    (hsame : store key = store' key) :
    ops.run store as key = ops.run store' as key := by
  induction as generalizing store store' with
  | nil => exact hsame
  | cons a rest ih =>
    rw [List.forall_mem_cons] at hkeys
    exact ih (fun b hb ↦ apply_congr hkeys.1 (hkeys.2 b hb)) (apply_congr hkeys.1 hsame)

theorem answers_congr (hkeys : ∀ a ∈ as, store (ops.key a) = store' (ops.key a)) :
    ops.answers store as = ops.answers store' as := by
  induction as generalizing store store' with
  | nil => rfl
  | cons a rest ih =>
    rw [List.forall_mem_cons] at hkeys
    rw [answers, answers, hkeys.1, ih fun b hb ↦ apply_congr hkeys.1 (hkeys.2 b hb)]

end

end Operations

/-- The part of every row that the operations are about. -/
def coreOf {κ ρ σ : Type*} [DecidableEq κ] (core : ρ → σ) (table : Table κ ρ) : κ → Option σ :=
  fun key ↦ (table.lookup key).map core

/-- An open transaction that has run the operations `as`: it holds their keys, and sees what they make of
the committed rows. -/
structure HasRun {κ ρ σ τ α β : Type*} [DecidableEq κ] (ops : Operations κ σ α β) (core : ρ → σ)
    (v : Versioned κ ρ τ) (t : τ) (as : List α) : Prop where
  locked : ∀ a ∈ as, v.holder (ops.key a) = some t
  seen : ∀ key, (v.visible t key).map core = ops.run (coreOf core v.committed) as key

namespace HasRun

variable {κ ρ σ τ α β : Type*} [DecidableEq κ] {ops : Operations κ σ α β} {core : ρ → σ}
  {v : Versioned κ ρ τ} {t u : τ} {as : List α} {a : α} {key : κ}

theorem begin (hdrafts : v.drafts t = ∅) : HasRun ops core v t [] := by
  refine ⟨nofun, fun key ↦ ?_⟩
  have hnone : (v.drafts t).lookup key = none := by rw [hdrafts, AList.lookup_empty]
  rw [Versioned.visible_of_lookup_drafts hnone]
  rfl

/-- What the next operation finds. -/
theorem seen_key (h : HasRun ops core v t as) (a : α) :
    ops.run (coreOf core v.committed) as (ops.key a) = (v.visible t (ops.key a)).map core :=
  (h.seen (ops.key a)).symm

/-- A lock shows to nobody. -/
theorem lock (h : HasRun ops core v u as) (hfree : v.Free t key) :
    HasRun ops core (v.lock t key hfree) u as :=
  ⟨fun a ha ↦ (v.holder_lock_eq_iff hfree u _).mpr (.inr (h.locked a ha)), h.seen⟩

/-- An operation that finds nothing to change only takes its lock. -/
theorem lock_concat (h : HasRun ops core v t as) (hfree : v.Free t (ops.key a))
    (hsame : ops.effect a ((v.visible t (ops.key a)).map core) = (v.visible t (ops.key a)).map core) :
    HasRun ops core (v.lock t (ops.key a) hfree) t (as ++ [a]) := by
  refine ⟨fun b hb ↦ ?_, fun key ↦ ?_⟩
  · rw [Versioned.holder_lock_eq_iff]
    rcases List.mem_append.mp hb with hold | hnew
    · exact .inr (h.locked b hold)
    · exact .inl ⟨rfl, by rw [List.mem_singleton.mp hnew]⟩
  · rw [Operations.run_concat, Operations.apply, Versioned.lock_committed, h.seen_key, hsame, ← h.seen_key,
      Function.update_eq_self]
    exact h.seen key

variable [DecidableEq τ]

/-- A write that the operations do not show. -/
theorem write (h : HasRun ops core v t as) {row : ρ} (hfree : v.Free t key)
    (hsame : (v.visible t key).map core = some (core row)) : HasRun ops core (v.write t key row hfree)
      t as := by
  refine ⟨fun a ha ↦ (v.holder_write_eq_iff row hfree t _).mpr (.inr (h.locked a ha)), fun other ↦ ?_⟩
  rw [Versioned.visible_write, Versioned.write_committed]
  split
  · rename_i hboth
    rw [Option.map_some, hboth.2, ← hsame]
    exact h.seen key
  · exact h.seen other

/-- An operation that writes its row. -/
theorem write_concat (h : HasRun ops core v t as) {row : ρ} (hfree : v.Free t (ops.key a))
    (heffect : ops.effect a ((v.visible t (ops.key a)).map core) = some (core row)) :
    HasRun ops core (v.write t (ops.key a) row hfree) t (as ++ [a]) := by
  refine ⟨fun b hb ↦ ?_, fun other ↦ ?_⟩
  · rw [Versioned.holder_write_eq_iff]
    rcases List.mem_append.mp hb with hold | hnew
    · exact .inr (h.locked b hold)
    · exact .inl ⟨rfl, by rw [List.mem_singleton.mp hnew]⟩
  · rw [Operations.run_concat, Operations.apply, Versioned.write_committed, h.seen_key, heffect,
      Versioned.visible_write]
    by_cases hother : other = ops.key a
    · rw [hother, if_pos ⟨rfl, rfl⟩, Function.update_self, Option.map_some]
    · rw [if_neg fun hboth ↦ hother hboth.2, Function.update_of_ne hother]
      exact h.seen other

/-! ## Steps of another transaction -/

theorem write_other (h : HasRun ops core v u as) (hne : u ≠ t) {row : ρ} (hfree : v.Free t key) :
    HasRun ops core (v.write t key row hfree) u as := by
  refine ⟨fun a ha ↦ ?_, fun other ↦ ?_⟩
  · rw [Versioned.holder_write_eq_iff]
    exact .inr (h.locked a ha)
  · rw [Versioned.visible_write, if_neg fun hboth ↦ hne hboth.1, Versioned.write_committed]
    exact h.seen other

theorem abort_other (h : HasRun ops core v u as) (hne : u ≠ t) : HasRun ops core (v.abort t) u as := by
  refine ⟨fun a ha ↦ ?_, fun other ↦ ?_⟩
  · exact (v.holder_release_eq_iff t _ u _).mpr ⟨hne, h.locked a ha⟩
  · rw [Versioned.visible_abort _ hne, Versioned.abort_committed]
    exact h.seen other

/-- A commit changes no row that another transaction holds. -/
theorem lookup_commit_of_held (hne : u ≠ t) (hheld : v.holder key = some u) :
    (v.commit t).committed.lookup key = v.committed.lookup key := by
  rw [Versioned.lookup_commit]
  apply Versioned.visible_of_lookup_drafts
  rw [AList.lookup_eq_none]
  intro hmem
  exact hne (Option.some.inj (hheld.symm.trans (v.held t key hmem)))

theorem commit_other (h : HasRun ops core v u as) (hne : u ≠ t) : HasRun ops core (v.commit t) u as := by
  refine ⟨fun a ha ↦ (v.holder_release_eq_iff t _ u _).mpr ⟨hne, h.locked a ha⟩, fun key ↦ ?_⟩
  have hkept {other : κ} (hheld : v.holder other = some u) :
      coreOf core (v.commit t).committed other = coreOf core v.committed other :=
    congrArg (Option.map core) (lookup_commit_of_held hne hheld)
  rw [Versioned.visible_commit _ hne]
  by_cases hheld : v.holder key = some u
  · -- the row is as it was, committed and seen
    have hvisible : v.visible t key = v.committed.lookup key :=
      ((v.lookup_commit t key).symm.trans (lookup_commit_of_held hne hheld))
    calc (((v.drafts u).lookup key).or (v.visible t key)).map core
        = (v.visible u key).map core := by rw [hvisible]; rfl
      _ = ops.run (coreOf core v.committed) as key := h.seen key
      _ = ops.run (coreOf core (v.commit t).committed) as key :=
        Operations.run_congr (fun a ha ↦ (hkept (h.locked a ha)).symm) (hkept hheld).symm
  · have hdraft : (v.drafts u).lookup key = none := by
      rw [AList.lookup_eq_none]
      exact fun hmem ↦ hheld (v.held u key hmem)
    have hkeys : ∀ a ∈ as, key ≠ ops.key a := fun a ha heq ↦ hheld (heq ▸ h.locked a ha)
    rw [hdraft, Option.none_or, Operations.run_of_forall_ne hkeys, coreOf, Versioned.lookup_commit]

/-! ## The commit -/

/-- The commit makes of the committed rows what the operations make of them. -/
theorem commit (h : HasRun ops core v t as) :
    coreOf core (v.commit t).committed = ops.run (coreOf core v.committed) as := by
  funext key
  rw [coreOf, Versioned.lookup_commit]
  exact h.seen key

end HasRun

end VoiceSpend
