import Mathlib.Data.Int.Log
import Mathlib.Data.Rat.Floor
import Mathlib.Tactic.FieldSimp
import Mathlib.Tactic.Linarith
import Mathlib.Tactic.Ring

/-!
# Rounding of exact rationals

The rounding rules that decimal contexts, binary floats and fixed-point columns are
specified by, as functions on exact rationals: nearest integer with ties to even or away
from zero, and the nearest number with a bounded count of significant digits.
-/

namespace VoiceSpend.Rounding

/-- Nearest integer, ties to even. -/
def halfEven (q : ℚ) : ℤ :=
  let below := ⌊q⌋
  let rest := q - below
  if rest < 1 / 2 then below
  else if 1 / 2 < rest then below + 1
  else if below % 2 = 0 then below else below + 1

/-- Nearest integer, ties away from zero. -/
def halfAway (q : ℚ) : ℤ :=
  if 0 ≤ q then ⌊q + 1 / 2⌋ else -⌊-q + 1 / 2⌋

/-- Nearest number with `digits` significant digits in `base`, ties to even. -/
def toDigits (base digits : ℕ) (q : ℚ) : ℚ :=
  if q = 0 then 0
  else
    let unit := (base : ℚ) ^ (Int.log base |q| + 1 - digits)
    halfEven (q / unit) * unit

@[simp] theorem halfAway_intCast (n : ℤ) : halfAway (n : ℚ) = n := by
  have hfloor (m : ℤ) : ⌊(m : ℚ) + 1 / 2⌋ = m := by
    rw [Int.floor_intCast_add]
    norm_num
  unfold halfAway
  split
  · exact hfloor n
  · have h := hfloor (-n)
    push_cast at h
    rw [h, neg_neg]

theorem abs_halfAway_sub_le (q : ℚ) : |(halfAway q : ℚ) - q| ≤ 1 / 2 := by
  unfold halfAway
  split
  · have hbelow := Int.floor_le (q + 1 / 2)
    have habove := Int.lt_floor_add_one (q + 1 / 2)
    rw [abs_le]
    constructor <;> linarith
  · have hbelow := Int.floor_le (-q + 1 / 2)
    have habove := Int.lt_floor_add_one (-q + 1 / 2)
    push_cast
    rw [abs_le]
    constructor <;> linarith

/-! ## Ties to even -/

theorem abs_halfEven_sub_le (q : ℚ) : |(halfEven q : ℚ) - q| ≤ 1 / 2 := by
  have hbelow := Int.floor_le q
  have habove := Int.lt_floor_add_one q
  unfold halfEven
  dsimp only
  split_ifs <;> push_cast <;> rw [abs_le] <;> constructor <;> linarith

@[simp] theorem halfEven_intCast (n : ℤ) : halfEven (n : ℚ) = n := by
  simp [halfEven]

theorem halfEven_nonneg {q : ℚ} (h : 0 ≤ q) : 0 ≤ halfEven q := by
  have hfloor : 0 ≤ ⌊q⌋ := Int.floor_nonneg.mpr h
  unfold halfEven
  dsimp only
  split_ifs <;> omega

/-- An even bound is reached from half a unit below it. -/
theorem halfEven_lt_iff {n : ℤ} (heven : n % 2 = 0) (q : ℚ) : halfEven q < n ↔ q < n - 1 / 2 := by
  have hbelow := Int.floor_le q
  have habove := Int.lt_floor_add_one q
  have hcast (m : ℤ) (h : m < n) : (m : ℚ) + 1 ≤ n := by exact_mod_cast h
  unfold halfEven
  dsimp only
  split_ifs with hless hmore heven'
  · constructor
    · intro h
      have := hcast _ h
      linarith
    · intro h
      have : (⌊q⌋ : ℚ) < n := by linarith
      exact_mod_cast this
  · constructor
    · intro h
      have := hcast _ h
      push_cast at this
      linarith
    · intro h
      have : ((⌊q⌋ + 1 : ℤ) : ℚ) < n := by
        have hnext : (⌊q⌋ : ℚ) < n - 1 := by linarith
        push_cast
        linarith
      exact_mod_cast this
  · -- a tie above an even number stays below an even bound with a whole unit to spare
    have htie : q = ⌊q⌋ + 1 / 2 := by linarith
    constructor
    · intro h
      have hnext : ⌊q⌋ + 1 < n := by omega
      have : ((⌊q⌋ + 1 : ℤ) : ℚ) < n := by exact_mod_cast hnext
      push_cast at this
      linarith
    · intro h
      have : (⌊q⌋ : ℚ) < n := by linarith
      exact_mod_cast this
  · have htie : q = ⌊q⌋ + 1 / 2 := by linarith
    constructor
    · intro h
      have : ((⌊q⌋ + 1 : ℤ) : ℚ) < n := by exact_mod_cast h
      push_cast at this
      linarith
    · intro h
      have : ((⌊q⌋ + 1 : ℤ) : ℚ) < n := by
        push_cast
        linarith
      exact_mod_cast this

theorem halfEven_neg (q : ℚ) : halfEven (-q) = -halfEven q := by
  by_cases hint : ∃ m : ℤ, q = m
  · obtain ⟨m, rfl⟩ := hint
    rw [← Int.cast_neg, halfEven_intCast, halfEven_intCast]
  · have hbelow := Int.floor_le q
    have habove := Int.lt_floor_add_one q
    have hlt : (⌊q⌋ : ℚ) < q := lt_of_le_of_ne hbelow fun h ↦ hint ⟨_, h.symm⟩
    have hfloor : ⌊-q⌋ = -⌊q⌋ - 1 := by
      rw [Int.floor_eq_iff]
      push_cast
      constructor <;> linarith
    unfold halfEven
    dsimp only
    rw [hfloor]
    push_cast
    -- each side of a half mirrors the other, and of two neighbours one is even
    rcases lt_trichotomy (q - ⌊q⌋) (1 / 2) with hless | htie | hmore
    · rw [if_neg (by linarith), if_pos (by linarith), if_pos hless]
      omega
    · rw [if_neg (by linarith), if_neg (by linarith), if_neg (show ¬ q - ⌊q⌋ < 1 / 2 by linarith),
        if_neg (show ¬ 1 / 2 < q - ⌊q⌋ by linarith)]
      split_ifs <;> omega
    · rw [if_pos (by linarith), if_neg (by linarith), if_pos hmore]
      omega

/-- The magnitude of a rounded number stays below an even bound. -/
theorem natAbs_halfEven_lt_iff {n : ℕ} (heven : n % 2 = 0) (q : ℚ) :
    (halfEven q).natAbs < n ↔ |q| < n - 1 / 2 := by
  have hcast : (n : ℤ) % 2 = 0 := by omega
  have hupper := halfEven_lt_iff hcast q
  have hlower := halfEven_lt_iff hcast (-q)
  rw [halfEven_neg] at hlower
  push_cast at hupper hlower
  rw [abs_lt, ← hupper]
  constructor
  · intro h
    exact ⟨by linarith [hlower.mp (by omega)], by omega⟩
  · rintro ⟨hneg, hpos⟩
    have := hlower.mpr (by linarith)
    omega

/-! ## Significant digits -/

/-- Rounding to a multiple of a unit moves a number by half a unit at most. -/
theorem abs_halfEven_mul_sub_le {unit : ℚ} (hunit : 0 < unit) (q : ℚ) :
    |halfEven (q / unit) * unit - q| ≤ unit / 2 := by
  calc |halfEven (q / unit) * unit - q|
      = |(halfEven (q / unit) - q / unit) * unit| := by
        congr 1
        field_simp
    _ = |(halfEven (q / unit) : ℚ) - q / unit| * unit := by rw [abs_mul, abs_of_pos hunit]
    _ ≤ 1 / 2 * unit := mul_le_mul_of_nonneg_right (abs_halfEven_sub_le _) hunit.le
    _ = unit / 2 := by ring

/-- The relative error of rounding to significant digits. -/
theorem abs_toDigits_sub_le {base digits : ℕ} (hbase : 1 < base) (q : ℚ) :
    |toDigits base digits q - q| ≤ |q| * (base : ℚ) ^ (1 - (digits : ℤ)) / 2 := by
  have hpos : (0 : ℚ) < base := by exact_mod_cast Nat.zero_lt_of_lt hbase
  unfold toDigits
  split
  · rename_i hzero
    simp [hzero]
  · rename_i hne
    have hlog := Int.zpow_log_le_self hbase (abs_pos.mpr hne)
    have hunit : (base : ℚ) ^ (Int.log base |q| + 1 - digits) ≤ |q| * (base : ℚ) ^ (1 - (digits : ℤ)) := by
      calc (base : ℚ) ^ (Int.log base |q| + 1 - digits)
          = (base : ℚ) ^ Int.log base |q| * (base : ℚ) ^ (1 - (digits : ℤ)) := by
            rw [← zpow_add₀ hpos.ne', add_sub_assoc]
        _ ≤ |q| * (base : ℚ) ^ (1 - (digits : ℤ)) :=
            mul_le_mul_of_nonneg_right hlog (zpow_pos hpos _).le
    have hround := abs_halfEven_mul_sub_le (zpow_pos hpos (Int.log base |q| + 1 - digits)) q
    dsimp only
    linarith

end VoiceSpend.Rounding
