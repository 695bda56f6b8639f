import Mathlib.Data.Set.Basic

/-!
# Computations that emit values and may raise

A computation emits values in order and then returns or raises; what it has emitted stays emitted.
`Emitting.Within` bounds the emitted values, and has one rule for each way to build a computation.
-/

namespace VoiceSpend

universe u

variable {ε : Type*} {α β : Type u}

/-- What a computation has emitted, and what it returns; `none` is an exception. -/
structure Emitting (ε : Type*) (α : Type*) where
  emitted : List ε
  result : Option α
  deriving DecidableEq, Repr

namespace Emitting

/-- Emit one value. -/
def emit (value : ε) : Emitting ε Unit := ⟨[value], some ()⟩

/-- A computation that emits nothing. -/
def ofOption (result : Option α) : Emitting ε α := ⟨[], result⟩

/-- Go on with the value of `x`, if it does not raise. -/
protected def bind (x : Emitting ε α) (f : α → Emitting ε β) : Emitting ε β :=
  match x.result with
  | none => ⟨x.emitted, none⟩
  | some value => ⟨x.emitted ++ (f value).emitted, (f value).result⟩

instance : Monad (Emitting ε) where
  pure value := ⟨[], some value⟩
  bind := Emitting.bind

@[simp] theorem result_pure (value : α) : (pure value : Emitting ε α).result = some value := rfl

@[simp] theorem result_emit (value : ε) : (emit value).result = some () := rfl

@[simp] theorem result_ofOption (result : Option α) : (ofOption result : Emitting ε α).result = result := rfl

@[simp] theorem result_bind (x : Emitting ε α) (f : α → Emitting ε β) :
    (x >>= f).result = x.result.bind fun value ↦ (f value).result := by
  change (Emitting.bind x f).result = _
  unfold Emitting.bind
  cases x.result <;> rfl

/-- Every emitted value is one of these. -/
def Within (allowed : Set ε) (x : Emitting ε α) : Prop := ∀ value ∈ x.emitted, value ∈ allowed

variable {allowed : Set ε}

theorem within_pure (value : α) : (pure value : Emitting ε α).Within allowed := fun _ h ↦ nomatch h

theorem within_ofOption (result : Option α) : (ofOption result : Emitting ε α).Within allowed :=
  fun _ h ↦ nomatch h

theorem within_emit {value : ε} (h : value ∈ allowed) : (emit value).Within allowed := by
  intro other hmem
  rwa [List.mem_singleton.mp hmem]

theorem Within.bind {x : Emitting ε α} {f : α → Emitting ε β} (hx : x.Within allowed)
    (hf : ∀ value, (f value).Within allowed) : (x >>= f).Within allowed := by
  change (Emitting.bind x f).Within allowed
  unfold Emitting.bind
  cases x.result with
  | none => exact hx
  | some value => exact List.forall_mem_append.mpr ⟨hx, hf value⟩

/-- The values of this kind tell whether the result is as described: one is emitted if it is, and none if it
is not, or if there is no result. -/
def Tells (kind : ε → Bool) (described : α → Bool) (x : Emitting ε α) : Prop :=
  x.emitted.countP kind = if x.result.any described then 1 else 0

variable {kind : ε → Bool} {described : α → Bool} {described' : β → Bool}

theorem tells_pure {value : α} (h : described value = false) :
    (pure value : Emitting ε α).Tells kind described := by
  change 0 = if described value = true then 1 else 0
  rw [h]
  rfl

/-- A value of another kind, or nothing, before the rest. -/
theorem Tells.bind {x : Emitting ε α} {f : α → Emitting ε β} (hx : x.emitted.countP kind = 0)
    (hf : ∀ value, (f value).Tells kind described') : (x >>= f).Tells kind described' := by
  change (Emitting.bind x f).Tells kind described'
  unfold Emitting.bind
  cases x.result with
  | none => exact hx
  | some value =>
    unfold Tells
    dsimp only
    rw [List.countP_append, hx, Nat.zero_add]
    exact hf value

end Emitting

end VoiceSpend
