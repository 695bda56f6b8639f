import Mathlib.Data.List.AList
import Mathlib.Logic.Function.Basic
import VoiceSpend.Library.Table

/-!
# Tables under READ COMMITTED

A transactional table keeps, besides its committed rows, the uncommitted row versions of
every open transaction. A transaction locks a row's key before it writes the row and keeps
the lock until it commits or aborts, so a key has at most one writer at a time. Inserting a
key that another transaction has inserted but not committed waits in the same way.

A statement of transaction `t` sees the committed rows and `t`'s own versions; nobody else
sees a version before its commit.
-/

namespace VoiceSpend

/-- A table with row locks; every uncommitted version is held by its writer. -/
structure Versioned (κ ρ τ : Type*) [DecidableEq κ] where
  committed : Table κ ρ
  holder : κ → Option τ
  drafts : τ → Table κ ρ
  held : ∀ t key, key ∈ drafts t → holder key = some t

namespace Versioned

variable {κ ρ τ : Type*} [DecidableEq κ]

theorem ext {v w : Versioned κ ρ τ} (hcommitted : v.committed = w.committed) (hholder : v.holder = w.holder)
    (hdrafts : v.drafts = w.drafts) : v = w := by
  cases v
  cases w
  cases hcommitted
  cases hholder
  cases hdrafts
  rfl

/-- A table without open transactions. -/
def ofTable (table : Table κ ρ) : Versioned κ ρ τ where
  committed := table
  holder _ := none
  drafts _ := ∅
  held _ _ h := absurd h (AList.notMem_empty _)

/-- No other transaction holds the row. -/
def Free (v : Versioned κ ρ τ) (t : τ) (key : κ) : Prop :=
  v.holder key = none ∨ v.holder key = some t

/-- The table a statement of `t` reads. -/
def view (v : Versioned κ ρ τ) (t : τ) : Table κ ρ := v.drafts t ∪ v.committed

/-- The row version a statement of `t` reads, and finds current once it holds the lock. -/
def visible (v : Versioned κ ρ τ) (t : τ) (key : κ) : Option ρ :=
  ((v.drafts t).lookup key).or (v.committed.lookup key)

theorem lookup_view (v : Versioned κ ρ τ) (t : τ) (key : κ) :
    (v.view t).lookup key = v.visible t key :=
  Table.lookup_union _ _ _

/-- Take the row lock. -/
def lock (v : Versioned κ ρ τ) (t : τ) (key : κ) (hfree : v.Free t key) : Versioned κ ρ τ where
  committed := v.committed
  holder := Function.update v.holder key (some t)
  drafts := v.drafts
  held writer other hmem := by
    have hholder := v.held writer other hmem
    by_cases hkey : other = key
    · subst hkey
      rw [Function.update_self]
      rcases hfree with h | h
      · rw [h] at hholder
        cases hholder
      · rw [← h, hholder]
    · rw [Function.update_of_ne hkey]
      exact hholder

@[simp] theorem lock_committed (v : Versioned κ ρ τ) (t : τ) (key : κ) (hfree : v.Free t key) :
    (v.lock t key hfree).committed = v.committed := rfl

@[simp] theorem lock_drafts (v : Versioned κ ρ τ) (t : τ) (key : κ) (hfree : v.Free t key) :
    (v.lock t key hfree).drafts = v.drafts := rfl

@[simp] theorem ofTable_committed (table : Table κ ρ) :
    (ofTable table : Versioned κ ρ τ).committed = table := rfl

@[simp] theorem ofTable_drafts (table : Table κ ρ) :
    (ofTable table : Versioned κ ρ τ).drafts = fun _ ↦ ∅ := rfl

/-- Two transactions never hold versions of the same row. -/
theorem draft_unique (v : Versioned κ ρ τ) {t u : τ} {key : κ} (ht : key ∈ v.drafts t)
    (hu : key ∈ v.drafts u) : t = u := by
  have h := (v.held t key ht).symm.trans (v.held u key hu)
  exact Option.some.inj h

theorem mem_drafts_of_lookup {v : Versioned κ ρ τ} {t : τ} {key : κ} {row : ρ}
    (h : (v.drafts t).lookup key = some row) : key ∈ v.drafts t :=
  AList.lookup_isSome.mp (by rw [h]; rfl)

/-- A transaction without versions sees the committed rows. -/
theorem visible_of_lookup_drafts {v : Versioned κ ρ τ} {t : τ} {key : κ}
    (h : (v.drafts t).lookup key = none) : v.visible t key = v.committed.lookup key := by
  rw [visible, h, Option.none_or]

theorem visible_of_draft {v : Versioned κ ρ τ} {t : τ} {key : κ} {row : ρ}
    (h : (v.drafts t).lookup key = some row) : v.visible t key = some row := by
  rw [visible, h, Option.some_or]

/-- No row is held by another transaction. -/
def Alone (v : Versioned κ ρ τ) (t : τ) : Prop := ∀ key, v.Free t key

theorem Alone.lock {v : Versioned κ ρ τ} {t : τ} (h : v.Alone t) (key : κ) (hfree : v.Free t key) :
    (v.lock t key hfree).Alone t := by
  intro other
  by_cases hkey : other = key
  · exact .inr (by rw [hkey]; exact Function.update_self ..)
  · have hholder : (v.lock t key hfree).holder other = v.holder other := Function.update_of_ne hkey ..
    rw [Free, hholder]
    exact h other

/-- No row is held at all. -/
def Unheld (v : Versioned κ ρ τ) : Prop := ∀ key, v.holder key = none

theorem Unheld.alone {v : Versioned κ ρ τ} (h : v.Unheld) (t : τ) : v.Alone t := fun key ↦ .inl (h key)

theorem Unheld.drafts {v : Versioned κ ρ τ} (h : v.Unheld) (t : τ) : v.drafts t = ∅ := by
  apply AList.ext
  rw [AList.empty_entries, List.eq_nil_iff_forall_not_mem]
  intro entry hentry
  have hheld := v.held t entry.1 (AList.mem_keys.mpr (List.mem_map_of_mem hentry))
  rw [h entry.1] at hheld
  cases hheld

theorem Unheld.view {v : Versioned κ ρ τ} (h : v.Unheld) (t : τ) : v.view t = v.committed := by
  rw [Versioned.view, h.drafts, AList.empty_union]

theorem holder_lock_eq_iff (v : Versioned κ ρ τ) {t : τ} {key : κ} (hfree : v.Free t key) (u : τ)
    (other : κ) :
    (v.lock t key hfree).holder other = some u ↔ (u = t ∧ other = key) ∨ v.holder other = some u := by
  change Function.update v.holder key (some t) other = some u ↔ _
  by_cases hkey : other = key
  · rw [hkey, Function.update_self, Option.some.injEq]
    constructor
    · intro h
      exact .inl ⟨h.symm, rfl⟩
    · rintro (⟨h, _⟩ | hholder)
      · exact h.symm
      · rcases hfree with h | h <;> rw [h] at hholder <;> cases hholder
        rfl
  · rw [Function.update_of_ne hkey]
    exact ⟨.inr, fun h ↦ h.resolve_left fun hown ↦ hkey hown.2⟩

variable [DecidableEq τ]

instance (v : Versioned κ ρ τ) (t : τ) (key : κ) : Decidable (v.Free t key) :=
  inferInstanceAs (Decidable (_ ∨ _))

/-- Write an uncommitted version of one row, under its lock. -/
def write (v : Versioned κ ρ τ) (t : τ) (key : κ) (row : ρ) (hfree : v.Free t key) :
    Versioned κ ρ τ where
  committed := v.committed
  holder := Function.update v.holder key (some t)
  drafts := Function.update v.drafts t ((v.drafts t).insert key row)
  held writer other hmem := by
    by_cases hwriter : writer = t
    · subst hwriter
      rw [Function.update_self, AList.mem_insert] at hmem
      by_cases hkey : other = key
      · rw [hkey, Function.update_self]
      · rw [Function.update_of_ne hkey]
        exact v.held writer other (hmem.resolve_left hkey)
    · rw [Function.update_of_ne hwriter] at hmem
      exact (v.lock t key hfree).held writer other hmem

/-- Forget the locks and the versions of `t`. -/
def release (v : Versioned κ ρ τ) (t : τ) (table : Table κ ρ) : Versioned κ ρ τ where
  committed := table
  holder key := if v.holder key = some t then none else v.holder key
  drafts := Function.update v.drafts t ∅
  held writer key hmem := by
    by_cases hwriter : writer = t
    · subst hwriter
      rw [Function.update_self] at hmem
      exact absurd hmem (AList.notMem_empty _)
    · rw [Function.update_of_ne hwriter] at hmem
      have hholder := v.held writer key hmem
      rw [if_neg (by rw [hholder]; exact fun h ↦ hwriter (Option.some.inj h)), hholder]

/-- Publish the versions of `t` and release its locks. -/
def commit (v : Versioned κ ρ τ) (t : τ) : Versioned κ ρ τ := v.release t (v.view t)

/-- Drop the versions of `t` and release its locks. -/
def abort (v : Versioned κ ρ τ) (t : τ) : Versioned κ ρ τ := v.release t v.committed

section Lemmas

variable (v : Versioned κ ρ τ) (t : τ) (key : κ) (row : ρ) (hfree : v.Free t key)

@[simp] theorem write_committed : (v.write t key row hfree).committed = v.committed := rfl

@[simp] theorem write_drafts :
    (v.write t key row hfree).drafts = Function.update v.drafts t ((v.drafts t).insert key row) := rfl

@[simp] theorem commit_committed : (v.commit t).committed = v.view t := rfl

@[simp] theorem commit_drafts : (v.commit t).drafts = Function.update v.drafts t ∅ := rfl

@[simp] theorem abort_committed : (v.abort t).committed = v.committed := rfl

@[simp] theorem abort_drafts : (v.abort t).drafts = Function.update v.drafts t ∅ := rfl

theorem lookup_commit (other : κ) : (v.commit t).committed.lookup other = v.visible t other :=
  v.lookup_view t other

end Lemmas

/-- Lookups among the versions of any transaction after a write. -/
theorem lookup_write_drafts (v : Versioned κ ρ τ) {t : τ} {key : κ} (row : ρ)
    (hfree : v.Free t key) (u : τ) (other : κ) :
    ((v.write t key row hfree).drafts u).lookup other =
      if u = t ∧ other = key then some row else (v.drafts u).lookup other := by
  rw [write_drafts]
  by_cases hu : u = t
  · subst hu
    rw [Function.update_self, Table.lookup_insert_eq]
    simp
  · rw [Function.update_of_ne hu]
    simp [hu]

/-- Lookups among the versions of any transaction after a commit or an abort of `t`. -/
theorem lookup_release_drafts (v : Versioned κ ρ τ) (t : τ) (table : Table κ ρ) (u : τ) (key : κ) :
    ((v.release t table).drafts u).lookup key = if u = t then none else (v.drafts u).lookup key := by
  change AList.lookup key (Function.update v.drafts t ∅ u) = _
  by_cases hu : u = t
  · subst hu
    rw [Function.update_self, if_pos rfl, AList.lookup_empty]
  · rw [Function.update_of_ne hu, if_neg hu]

/-- A commit leaves every row alone that another transaction has a version of. -/
theorem lookup_commit_of_mem_drafts (v : Versioned κ ρ τ) {t u : τ} {key : κ} (hne : u ≠ t)
    (hmem : key ∈ v.drafts u) : (v.commit t).committed.lookup key = v.committed.lookup key := by
  have hnot : key ∉ v.drafts t := fun h ↦ hne (v.draft_unique hmem h)
  rw [lookup_commit, visible, AList.lookup_eq_none.mpr hnot, Option.none_or]

/-- A commit changes a row only into a version of its transaction. -/
theorem lookup_commit_cases (v : Versioned κ ρ τ) (t : τ) (key : κ) :
    (v.commit t).committed.lookup key = v.committed.lookup key ∨
      ∃ draft, (v.drafts t).lookup key = some draft ∧ (v.commit t).committed.lookup key = some draft := by
  rw [lookup_commit]
  cases hdraft : (v.drafts t).lookup key with
  | none => exact .inl (visible_of_lookup_drafts hdraft)
  | some draft => exact .inr ⟨draft, rfl, visible_of_draft hdraft⟩

/-- What a transaction sees after a write. -/
theorem visible_write (v : Versioned κ ρ τ) {t : τ} {key : κ} (row : ρ) (hfree : v.Free t key) (u : τ)
    (other : κ) : (v.write t key row hfree).visible u other =
      if u = t ∧ other = key then some row else v.visible u other := by
  unfold visible
  rw [lookup_write_drafts, write_committed]
  split <;> rfl

/-- A write shows in the writer's view as an insertion. -/
theorem view_write (v : Versioned κ ρ τ) {t : τ} {key : κ} (row : ρ) (hfree : v.Free t key) :
    (v.write t key row hfree).view t = (v.view t).insert key row := by
  rw [view, view, write_drafts, Function.update_self, write_committed, AList.insert_union]

theorem Alone.write {v : Versioned κ ρ τ} {t : τ} (h : v.Alone t) (key : κ) (row : ρ) (hfree : v.Free t key) :
    (v.write t key row hfree).Alone t := h.lock key hfree

/-- What another transaction sees after a commit of `t`. -/
theorem visible_commit (v : Versioned κ ρ τ) {t u : τ} (hne : u ≠ t) (key : κ) :
    (v.commit t).visible u key = ((v.drafts u).lookup key).or (v.visible t key) := by
  rw [visible, lookup_commit, commit, lookup_release_drafts, if_neg hne]

/-- What another transaction sees after an abort of `t`. -/
theorem visible_abort (v : Versioned κ ρ τ) {t u : τ} (hne : u ≠ t) (key : κ) :
    (v.abort t).visible u key = v.visible u key := by
  rw [visible, abort_committed, abort, lookup_release_drafts, if_neg hne, visible]

/-! ## Who holds a row -/

theorem holder_write_eq_iff (v : Versioned κ ρ τ) {t : τ} {key : κ} (row : ρ) (hfree : v.Free t key) (u : τ)
    (other : κ) :
    (v.write t key row hfree).holder other = some u ↔ (u = t ∧ other = key) ∨ v.holder other = some u :=
  v.holder_lock_eq_iff hfree u other

theorem holder_release_eq_iff (v : Versioned κ ρ τ) (t : τ) (table : Table κ ρ) (u : τ) (key : κ) :
    (v.release t table).holder key = some u ↔ u ≠ t ∧ v.holder key = some u := by
  change (if v.holder key = some t then none else v.holder key) = some u ↔ _
  split
  · rename_i h
    rw [h, Option.some.injEq]
    exact iff_of_false nofun fun hboth ↦ hboth.1 hboth.2.symm
  · rename_i h
    exact ⟨fun hu ↦ ⟨fun heq ↦ h (heq ▸ hu), hu⟩, fun hboth ↦ hboth.2⟩

/-! ## Without one transaction

`v.abort t` is the table as if `t` had never written. What other transactions do there is what they do
beside `t`, and `t` itself does nothing to it before it commits. -/

theorem abort_holder (v : Versioned κ ρ τ) (t : τ) (key : κ) :
    (v.abort t).holder key = if v.holder key = some t then none else v.holder key := rfl

theorem free_abort {v : Versioned κ ρ τ} {u : τ} {key : κ} (h : v.Free u key) (t : τ) (hne : u ≠ t) :
    (v.abort t).Free u key := by
  rcases h with h | h
  · exact .inl (by rw [abort_holder, h]; rfl)
  · exact .inr (by rw [abort_holder, h, if_neg fun heq ↦ hne (Option.some.inj heq)])

theorem abort_write_self (v : Versioned κ ρ τ) {t : τ} {key : κ} (row : ρ) (hfree : v.Free t key) :
    (v.write t key row hfree).abort t = v.abort t := by
  refine ext rfl (funext fun other ↦ ?_) ?_
  · rw [abort_holder, abort_holder]
    change (if Function.update v.holder key (some t) other = some t then none
      else Function.update v.holder key (some t) other) = _
    by_cases hkey : other = key
    · rw [hkey, Function.update_self, if_pos rfl]
      rcases hfree with h | h <;> rw [h]
      · rfl
      · rw [if_pos rfl]
    · rw [Function.update_of_ne hkey]
  · rw [abort_drafts, abort_drafts, write_drafts, Function.update_idem]

theorem abort_write (v : Versioned κ ρ τ) {t u : τ} (hne : u ≠ t) {key : κ} (row : ρ) (hfree : v.Free u key) :
    (v.write u key row hfree).abort t = (v.abort t).write u key row (free_abort hfree t hne) := by
  refine ext rfl (funext fun other ↦ ?_) ?_
  · change (if Function.update v.holder key (some u) other = some t then none
      else Function.update v.holder key (some u) other) =
        Function.update (v.abort t).holder key (some u) other
    by_cases hkey : other = key
    · rw [hkey, Function.update_self, Function.update_self, if_neg fun heq ↦ hne (Option.some.inj heq)]
    · rw [Function.update_of_ne hkey, Function.update_of_ne hkey, abort_holder]
  · rw [abort_drafts, write_drafts, write_drafts, abort_drafts, Function.update_of_ne hne,
      Function.update_comm hne]

theorem release_release (v : Versioned κ ρ τ) {t u : τ} (hne : u ≠ t) (first second : Table κ ρ) :
    (v.release t first).release u second = (v.release u second).release t second := by
  refine ext rfl (funext fun key ↦ ?_) (Function.update_comm hne _ _ _).symm
  change (if (if v.holder key = some t then none else v.holder key) = some u then none
      else if v.holder key = some t then none else v.holder key) =
    if (if v.holder key = some u then none else v.holder key) = some t then none
      else if v.holder key = some u then none else v.holder key
  by_cases ht : v.holder key = some t <;> by_cases hu : v.holder key = some u <;> simp [ht, hu]

theorem abort_abort (v : Versioned κ ρ τ) {t u : τ} (hne : u ≠ t) :
    (v.abort u).abort t = (v.abort t).abort u :=
  (v.release_release hne _ _).symm

theorem abort_commit (v : Versioned κ ρ τ) {t u : τ} (hne : u ≠ t) :
    (v.commit u).abort t = (v.abort t).commit u := by
  have hview : (v.abort t).view u = v.view u := by
    rw [view, view, abort_drafts, Function.update_of_ne hne, abort_committed]
  rw [commit, commit, hview]
  exact (v.release_release hne _ _).symm

/-- The transaction holds no row and has no version of one. -/
def Released (v : Versioned κ ρ τ) (t : τ) : Prop := (∀ key, v.holder key ≠ some t) ∧ v.drafts t = ∅

theorem Released.abort_eq {v : Versioned κ ρ τ} {t : τ} (h : v.Released t) : v.abort t = v := by
  refine ext rfl (funext fun key ↦ ?_) ?_
  · rw [abort_holder, if_neg (h.1 key)]
  · rw [abort_drafts, ← h.2, Function.update_eq_self]

theorem released_release (v : Versioned κ ρ τ) (t : τ) (table : Table κ ρ) :
    (v.release t table).Released t := by
  refine ⟨fun key ↦ ?_, Function.update_self ..⟩
  change (if v.holder key = some t then none else v.holder key) ≠ some t
  split
  · exact Option.some_ne_none t ∘ Eq.symm
  · assumption

theorem Released.release {v : Versioned κ ρ τ} {t : τ} (h : v.Released t) {u : τ} (hne : t ≠ u)
    (table : Table κ ρ) : (v.release u table).Released t := by
  refine ⟨fun key ↦ ?_, (Function.update_of_ne hne ..).trans h.2⟩
  change (if v.holder key = some u then none else v.holder key) ≠ some t
  split
  · exact Option.some_ne_none t ∘ Eq.symm
  · exact h.1 key

theorem Released.write {v : Versioned κ ρ τ} {t : τ} (h : v.Released t) {u : τ} (hne : t ≠ u) {key : κ}
    (row : ρ) (hfree : v.Free u key) : (v.write u key row hfree).Released t := by
  refine ⟨fun other ↦ ?_, (Function.update_of_ne hne ..).trans h.2⟩
  change Function.update v.holder key (some u) other ≠ some t
  by_cases hkey : other = key
  · rw [hkey, Function.update_self]
    exact fun heq ↦ hne (Option.some.inj heq).symm
  · rw [Function.update_of_ne hkey]
    exact h.1 other

end Versioned

end VoiceSpend
