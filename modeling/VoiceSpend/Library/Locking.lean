import Mathlib.Logic.Relation
import Mathlib.Order.Preorder.Finite
import Mathlib.Order.WellFounded

/-!
# Waiting for locks

Transactions hold keys and want keys. One waits for another when it wants a key that the other
holds; a deadlock is a cycle of such waits. Where every transaction holds only keys that rank below
the ones it wants, there is none, and of finitely many open transactions one can go on.
-/

namespace VoiceSpend.Locking

variable {τ κ β : Type*} {holds wants : τ → κ → Prop} {t u : τ}

/-- `t` wants a key that `u` holds. -/
def WaitsFor (holds wants : τ → κ → Prop) (t u : τ) : Prop := ∃ key, wants t key ∧ holds u key

/-- A cycle of transactions each of which waits for the next. -/
def Deadlock (holds wants : τ → κ → Prop) : Prop := ∃ t, Relation.TransGen (WaitsFor holds wants) t t

/-- Along a path of waits the wanted keys rank higher and higher. -/
theorem exists_wanted_lt [Preorder β] (rank : κ → β)
    (hrank : ∀ t held wanted, holds t held → wants t wanted → rank held < rank wanted)
    (hpath : Relation.TransGen (WaitsFor holds wants) t u) {last : κ} (hlast : wants u last) :
    ∃ first, wants t first ∧ rank first < rank last := by
  induction hpath generalizing last with
  | single hwait =>
    obtain ⟨key, hwants, hholds⟩ := hwait
    exact ⟨key, hwants, hrank _ _ _ hholds hlast⟩
  | tail _ hwait ih =>
    obtain ⟨key, hwants, hholds⟩ := hwait
    obtain ⟨first, hfirst, hless⟩ := ih hwants
    exact ⟨first, hfirst, hless.trans (hrank _ _ _ hholds hlast)⟩

/-- Locks that are taken in the order of a ranking do not deadlock. -/
theorem not_deadlock [Preorder β] [WellFoundedLT β] (rank : κ → β)
    (hrank : ∀ t held wanted, holds t held → wants t wanted → rank held < rank wanted) :
    ¬ Deadlock holds wants := by
  rintro ⟨t, hcycle⟩
  obtain ⟨key, hkey⟩ : ∃ key, wants t key := by
    obtain ⟨_, ⟨key, hkey, _⟩, _⟩ := Relation.TransGen.head'_iff.mp hcycle
    exact ⟨key, hkey⟩
  -- a wanted key of least rank still has a wanted key below it
  obtain ⟨least, hleast, hmin⟩ :=
    WellFounded.has_min (InvImage.wf rank wellFounded_lt) {key | wants t key} ⟨key, hkey⟩
  obtain ⟨first, hfirst, hless⟩ := exists_wanted_lt rank hrank hcycle hleast
  exact hmin first hfirst hless

/-- Where every wanted key is held by an open transaction, some open transaction wants nothing. -/
theorem exists_unblocked [PartialOrder β] (rank : κ → β)
    (hrank : ∀ t held wanted, holds t held → wants t wanted → rank held < rank wanted) {waiting : Finset τ}
    (hne : waiting.Nonempty)
    (hheld : ∀ t ∈ waiting, ∀ key, wants t key → ∃ u ∈ waiting, holds u key) :
    ∃ t ∈ waiting, ∀ key, ¬ wants t key := by
  by_contra hblocked
  push Not at hblocked
  obtain ⟨first, hfirst⟩ := hne
  have : Nonempty κ := (hblocked first hfirst).nonempty
  choose! key hkey using hblocked
  -- the holder of a wanted key of greatest rank wants a greater one
  obtain ⟨t, ht, hmax⟩ := waiting.exists_maximalFor (fun t ↦ rank (key t)) ⟨first, hfirst⟩
  obtain ⟨u, hu, hholds⟩ := hheld t ht (key t) (hkey t ht)
  have hless := hrank u (key t) (key u) hholds (hkey u hu)
  exact hless.not_ge (hmax hu hless.le)

end VoiceSpend.Locking
