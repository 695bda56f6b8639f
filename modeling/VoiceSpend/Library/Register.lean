import Mathlib.Data.List.Basic
import Mathlib.Data.Finset.Max

/-!
# Registers that keep the greatest key

A last-writer-wins register stores a value with a key and accepts a new value only when its
key is strictly greater. Feeding it a list leaves a member with the greatest key, so the
final key does not depend on order or repetition, and the number of accepted values is the
number of strict running maxima.

`climb` is the history a register with a weak test (`≤`) accepts: the running maxima of a
list, ties included. Optional fields that each accepted value may carry are read off the
last member that carries one.
-/

namespace VoiceSpend.Register

variable {α κ : Type*} [LinearOrder κ]

/-- Strict acceptance: an empty register, or a greater key. -/
def accepts (key : α → κ) : Option α → α → Bool
  | none, _ => true
  | some stored, x => decide (key stored < key x)

/-- Store `x` if it is accepted. -/
def put (key : α → κ) (stored : Option α) (x : α) : Option α :=
  if accepts key stored x then some x else stored

/-- How many elements of a list exceed everything in `seen` and before them. -/
def strictMaximaFrom : List κ → List κ → ℕ
  | _, [] => 0
  | seen, x :: rest => (if ∀ y ∈ seen, y < x then 1 else 0) + strictMaximaFrom (x :: seen) rest

/-- The number of strict running maxima of a list. -/
def strictMaxima (keys : List κ) : ℕ := strictMaximaFrom [] keys

/-- The register is full once something was seen, and holds a member with the greatest key. -/
def Holds (key : α → κ) (stored : Option α) (seen : List α) : Prop :=
  (∀ x ∈ seen, ∃ top, stored = some top ∧ key x ≤ key top) ∧
    ∀ top, stored = some top → top ∈ seen

theorem holds_nil (key : α → κ) : Holds key none [] :=
  ⟨fun _ h ↦ absurd h List.not_mem_nil, fun _ h ↦ by cases h⟩

theorem accepts_iff {key : α → κ} {stored : Option α} {seen : List α} (h : Holds key stored seen)
    (x : α) : accepts key stored x = true ↔ ∀ y ∈ seen, key y < key x := by
  cases stored with
  | none =>
    have hempty : seen = [] := by
      apply List.eq_nil_iff_forall_not_mem.mpr
      intro y hy
      obtain ⟨_, htop, _⟩ := h.1 y hy
      cases htop
    subst hempty
    simp [accepts]
  | some top =>
    simp only [accepts, decide_eq_true_eq]
    constructor
    · intro hlt y hy
      obtain ⟨_, heq, hle⟩ := h.1 y hy
      cases heq
      exact hle.trans_lt hlt
    · intro hall
      exact hall top (h.2 top rfl)

/-- One step of the register keeps the greatest element seen. -/
theorem holds_put {key : α → κ} {stored : Option α} {seen : List α} (h : Holds key stored seen)
    (x : α) : Holds key (put key stored x) (x :: seen) := by
  unfold put
  split
  · rename_i hacc
    have hall := (accepts_iff h x).mp hacc
    refine ⟨fun y hy ↦ ⟨x, rfl, ?_⟩, fun top htop ↦ ?_⟩
    · rcases List.mem_cons.mp hy with rfl | hy
      · exact le_rfl
      · exact (hall y hy).le
    · cases htop
      exact List.mem_cons_self
  · rename_i hacc
    cases stored with
    | none => simp [accepts] at hacc
    | some top =>
      simp only [accepts, decide_eq_true_eq, not_lt] at hacc
      refine ⟨fun y hy ↦ ?_, fun other hother ↦ List.mem_cons_of_mem _ (h.2 other hother)⟩
      rcases List.mem_cons.mp hy with rfl | hy
      · exact ⟨top, rfl, hacc⟩
      · exact h.1 y hy

/-- The same with the seen elements in their order. -/
theorem holds_concat {key : α → κ} {stored : Option α} {seen : List α} (h : Holds key stored seen)
    (x : α) : Holds key (put key stored x) (seen ++ [x]) := by
  obtain ⟨hseen, hstored⟩ := holds_put h x
  refine ⟨fun y hy ↦ hseen y ?_, fun top htop ↦ ?_⟩
  · simpa [or_comm] using hy
  · simpa [or_comm] using hstored top htop

theorem holds_toList (key : α → κ) (stored : Option α) : Holds key stored stored.toList :=
  ⟨fun x hx ↦ ⟨x, Option.mem_toList.mp hx, le_rfl⟩, fun _ htop ↦ Option.mem_toList.mpr htop⟩

/-- Where the key decides the element, the register depends on the members only. -/
theorem Holds.unique {key : α → κ} {stored stored' : Option α} {seen seen' : List α}
    (h : Holds key stored seen) (h' : Holds key stored' seen') (hmem : ∀ x, x ∈ seen ↔ x ∈ seen')
    (hinj : ∀ x ∈ seen, ∀ y ∈ seen, key x = key y → x = y) : stored = stored' := by
  cases stored with
  | none =>
    cases stored' with
    | none => rfl
    | some top' =>
      obtain ⟨_, htop, _⟩ := h.1 top' ((hmem top').mpr (h'.2 top' rfl))
      cases htop
  | some top =>
    have htop := h.2 top rfl
    obtain ⟨top', rfl, hle⟩ := h'.1 top ((hmem top).mp htop)
    have htop' := (hmem top').mpr (h'.2 top' rfl)
    obtain ⟨_, hsame, hge⟩ := h.1 top' htop'
    cases hsame
    rw [hinj top htop top' htop' (le_antisymm hle hge)]

/-! ## Running maxima with ties -/

/-- The running maxima of a list, ties included: an element stays when no element kept
before it has a greater key. -/
def climb (key : α → κ) (xs : List α) : List α :=
  xs.foldl (fun kept x ↦ if ∀ y ∈ kept, key y ≤ key x then kept ++ [x] else kept) []

@[simp] theorem climb_nil (key : α → κ) : climb key [] = [] := rfl

@[simp] theorem climb_singleton (key : α → κ) (x : α) : climb key [x] = [x] := by
  simp [climb]

theorem climb_concat (key : α → κ) (xs : List α) (x : α) :
    climb key (xs ++ [x]) =
      if ∀ y ∈ climb key xs, key y ≤ key x then climb key xs ++ [x] else climb key xs := by
  unfold climb
  rw [List.foldl_append]
  rfl

theorem climb_subset (key : α → κ) (xs : List α) : climb key xs ⊆ xs := by
  induction xs using List.reverseRecOn with
  | nil => exact List.Subset.refl _
  | append_singleton xs x ih =>
    rw [climb_concat]
    split
    · exact List.append_subset.mpr ⟨List.subset_append_of_subset_left _ ih, by simp⟩
    · exact List.subset_append_of_subset_left _ ih

/-- The last running maximum has the greatest key of the whole list. -/
theorem climb_getLast (key : α → κ) (xs : List α) :
    ∀ x ∈ xs, ∃ top ∈ (climb key xs).getLast?, key x ≤ key top := by
  induction xs using List.reverseRecOn with
  | nil => intro x hx; exact absurd hx List.not_mem_nil
  | append_singleton xs last ih =>
    intro x hx
    rw [climb_concat]
    split
    · rename_i hall
      refine ⟨last, by simp, ?_⟩
      rcases List.mem_append.mp hx with hx | hx
      · obtain ⟨top, htop, hle⟩ := ih x hx
        exact hle.trans (hall top (List.mem_of_getLast? htop))
      · rw [List.mem_singleton.mp hx]
    · rename_i hall
      rcases List.mem_append.mp hx with hx | hx
      · exact ih x hx
      · rw [List.mem_singleton.mp hx]
        push Not at hall
        obtain ⟨y, hy, hlt⟩ := hall
        obtain ⟨top, htop, hle⟩ := ih y (climb_subset key xs hy)
        refine ⟨top, htop, ?_⟩
        calc key last
            ≤ key y := hlt.le
          _ ≤ key top := hle

/-- Comparing with the last kept element is comparing with all of them. -/
theorem forall_climb_le_iff (key : α → κ) (xs : List α) (bound : κ) :
    (∀ y ∈ climb key xs, key y ≤ bound) ↔ ∀ top ∈ (climb key xs).getLast?, key top ≤ bound := by
  constructor
  · intro h top htop
    exact h top (List.mem_of_getLast? htop)
  · intro h y hy
    obtain ⟨top, htop, hle⟩ := climb_getLast key xs y (climb_subset key xs hy)
    exact hle.trans (h top htop)

/-- The value carried by the last element that carries one. -/
def lastCarried {β : Type*} (field : α → Option β) (xs : List α) : Option β :=
  xs.foldl (fun carried x ↦ (field x).or carried) none

@[simp] theorem lastCarried_nil {β : Type*} (field : α → Option β) : lastCarried field [] = none := rfl

@[simp] theorem lastCarried_singleton {β : Type*} (field : α → Option β) (x : α) :
    lastCarried field [x] = field x :=
  Option.or_none

theorem lastCarried_concat {β : Type*} (field : α → Option β) (xs : List α) (x : α) :
    lastCarried field (xs ++ [x]) = (field x).or (lastCarried field xs) := by
  unfold lastCarried
  rw [List.foldl_append]
  rfl

theorem lastCarried_mem {β : Type*} {field : α → Option β} {xs : List α} {value : β}
    (h : lastCarried field xs = some value) : ∃ x ∈ xs, field x = some value := by
  induction xs using List.reverseRecOn with
  | nil => cases h
  | append_singleton xs x ih =>
    rw [lastCarried_concat] at h
    cases hx : field x with
    | some carried =>
      rw [hx, Option.some_or] at h
      exact ⟨x, by simp, hx.trans h⟩
    | none =>
      rw [hx, Option.none_or] at h
      obtain ⟨y, hy, hfield⟩ := ih h
      exact ⟨y, List.mem_append_left _ hy, hfield⟩

/-- A last element that carries a value decides. -/
theorem lastCarried_of_getLast? {β : Type*} {field : α → Option β} {xs : List α} {x : α} {value : β}
    (hlast : xs.getLast? = some x) (hx : field x = some value) : lastCarried field xs = some value := by
  obtain ⟨front, rfl⟩ := List.getLast?_eq_some_iff.mp hlast
  rw [lastCarried_concat, hx, Option.some_or]

/-- Elements below a kept one are not kept. -/
theorem climb_append_of_lt {key : α → κ} {xs : List α} {y : α} (hy : y ∈ climb key xs) (zs : List α)
    (hlt : ∀ z ∈ zs, key z < key y) : climb key (xs ++ zs) = climb key xs := by
  induction zs using List.reverseRecOn with
  | nil => rw [List.append_nil]
  | append_singleton zs z ih =>
    have hzs := ih fun other hother ↦ hlt other (List.mem_append_left _ hother)
    rw [← List.append_assoc, climb_concat, hzs, if_neg]
    exact fun hall ↦ absurd (hall y hy) (not_le.mpr (hlt z (by simp)))

/-- Where the key decides the element, the last running maximum depends on the members only. -/
theorem climb_getLast?_congr {key : α → κ} {xs ys : List α} (hmem : ∀ x, x ∈ xs ↔ x ∈ ys)
    (hinj : ∀ x ∈ xs, ∀ y ∈ xs, key x = key y → x = y) :
    (climb key xs).getLast? = (climb key ys).getLast? := by
  have hsame (zs : List α) (top : α) (htop : (climb key zs).getLast? = some top) : top ∈ zs :=
    climb_subset key zs (List.mem_of_getLast? htop)
  cases hxs : (climb key xs).getLast? with
  | none =>
    cases hys : (climb key ys).getLast? with
    | none => rfl
    | some top =>
      obtain ⟨other, hother, _⟩ := climb_getLast key xs top ((hmem top).mpr (hsame ys top hys))
      rw [hxs] at hother
      cases hother
  | some first =>
    have hfirst := hsame xs first hxs
    obtain ⟨second, hsecond, hle⟩ := climb_getLast key ys first ((hmem first).mp hfirst)
    have hmem' := (hmem second).mpr (hsame ys second hsecond)
    obtain ⟨top, htop, hge⟩ := climb_getLast key xs second hmem'
    rw [hxs] at htop
    cases htop
    rw [hinj first hfirst second hmem' (le_antisymm hle hge)]
    exact hsecond.symm

end VoiceSpend.Register
