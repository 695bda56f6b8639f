import Mathlib.Data.List.DropRight
import Mathlib.Data.Rat.Floor
import VoiceSpend.Library.Rounding

/-!
# Column types and the Python values written to them

Instants are microseconds since the Unix epoch, the resolution of both Python's `datetime`
and `timestamptz`; dates are days since the epoch. `Numeric p s` is Postgres `NUMERIC(p, s)`
as a bounded count of units of `10 ^ -s`. `Text` is Python's `str`, which need not be Unicode
text. Every conversion a driver or a column can refuse returns an `Option`.
-/

namespace VoiceSpend

/-- A 128-bit identifier. -/
structure UUID where
  int : BitVec 128
  deriving DecidableEq, Repr

/-- Microseconds since the Unix epoch, in UTC. -/
abbrev Instant := ℤ

/-- Days since the Unix epoch. -/
abbrev Date := ℤ

/-- The UTC calendar day of an instant. -/
def Instant.date (t : Instant) : Date := t / 86400000000

/-- The instants Python's `datetime` can hold: years 1 to 9999. -/
def representable (t : Instant) : Bool :=
  decide (-62135596800000000 ≤ t ∧ t ≤ 253402300799999999)

/-- The metering period `'%Y-%m'`. -/
structure Period where
  year : ℤ
  month : ℤ
  deriving DecidableEq, Repr

/-- Year and month of a day in the proleptic Gregorian calendar, counted in 400-year eras
that start on 1 March. -/
def Date.period (d : Date) : Period :=
  let shifted := d + 719468
  let era := shifted / 146097
  let dayOfEra := shifted - era * 146097
  let yearOfEra := (dayOfEra - dayOfEra / 1460 + dayOfEra / 36524 - dayOfEra / 146096) / 365
  let dayOfYear := dayOfEra - (365 * yearOfEra + yearOfEra / 4 - yearOfEra / 100)
  let marchMonth := (5 * dayOfYear + 2) / 153
  let month := if marchMonth < 10 then marchMonth + 3 else marchMonth - 9
  ⟨yearOfEra + era * 400 + (if month ≤ 2 then 1 else 0), month⟩

/-- The period of the server's clock. -/
def currentPeriod (now : Instant) : Period := (Instant.date now).period

example : currentPeriod (20708 * 86400000000 + 5) = ⟨2026, 9⟩ := by decide

/-- Postgres `NUMERIC(precision, scale)`, counted in units of `10 ^ -scale`. -/
structure Numeric (precision scale : ℕ) where
  units : ℤ
  fits : units.natAbs < 10 ^ precision
  deriving DecidableEq, Repr

namespace Numeric

variable {precision scale : ℕ}

def toRat (n : Numeric precision scale) : ℚ := n.units / 10 ^ scale

/-- The column rounds to its scale, ties away from zero, and refuses what is then too wide. -/
def ofRat (precision scale : ℕ) (q : ℚ) : Option (Numeric precision scale) :=
  let units := Rounding.halfAway (q * 10 ^ scale)
  if h : units.natAbs < 10 ^ precision then some ⟨units, h⟩ else none

/-- A value already at the column's scale is stored exactly, if it is stored at all. -/
theorem ofRat_exact {q : ℚ} {units : ℤ} (hq : q = units / 10 ^ scale) {n : Numeric precision scale}
    (h : ofRat precision scale q = some n) : n.toRat = q := by
  have hscale : ((10 : ℚ) ^ scale) ≠ 0 := by positivity
  have hunits : q * 10 ^ scale = (units : ℚ) := by
    rw [hq]
    field_simp
  unfold ofRat at h
  simp only [hunits, Rounding.halfAway_intCast] at h
  split at h
  · cases h
    exact hq.symm
  · cases h

/-- A value at the column's scale is stored exactly when its units are few enough. -/
theorem ofRat_units_isSome (precision scale : ℕ) (units : ℤ) :
    (ofRat precision scale (units / 10 ^ scale)).isSome ↔ units.natAbs < 10 ^ precision := by
  have hunits : (units : ℚ) / 10 ^ scale * 10 ^ scale = units := div_mul_cancel₀ _ (by positivity)
  unfold ofRat
  simp only [hunits, Rounding.halfAway_intCast]
  split
  · rename_i hfits
    exact iff_of_true rfl hfits
  · rename_i hwide
    exact iff_of_false Bool.false_ne_true hwide

end Numeric

/-- `NUMERIC(18, 4)`, the type of both amount columns. -/
abbrev Money := Numeric 18 4

/-- `NUMERIC(18, 8)`, the type of a stored rate. -/
abbrev Rate := Numeric 18 8

/-- A finite Python `Decimal`. -/
structure Decimal where
  coeff : ℤ
  exp : ℤ
  deriving DecidableEq, Repr

namespace Decimal

def toRat (d : Decimal) : ℚ :=
  match d.exp with
  | .ofNat n => d.coeff * 10 ^ n
  | .negSucc n => d.coeff / 10 ^ (n + 1)

/-- A decimal written to a money column. Postgres keeps at most 16383 digits after the point,
whatever the column's scale, so a longer fraction is refused before it is rounded. -/
def toMoney (d : Decimal) : Option Money :=
  if d.exp < -16383 then none else Numeric.ofRat 18 4 d.toRat

end Decimal

/-- The greatest `BIGINT`. -/
def bigintMax : ℤ := 9223372036854775807

/-- The greatest `INTEGER`. -/
def integerMax : ℕ := 2147483647

/-- A code point that Unicode keeps for one half of a surrogate pair. -/
def isSurrogate (code : Fin 0x110000) : Bool := decide (0xD800 ≤ code.val ∧ code.val ≤ 0xDFFF)

/-- The two code points are a pair, which a JSON decoder reads as one character. -/
def isSurrogatePair (first second : Fin 0x110000) : Bool :=
  decide (0xD800 ≤ first.val ∧ first.val ≤ 0xDBFF ∧ 0xDC00 ≤ second.val ∧ second.val ≤ 0xDFFF)

/-- There are surrogates among the code points, and no two of them are a pair. -/
def loneSurrogates (codes : List (Fin 0x110000)) : Bool :=
  codes.any isSurrogate && !(codes.zip codes.tail).any fun pair ↦ isSurrogatePair pair.1 pair.2

/-- A Python `str` that a JSON decoder yields: Unicode text, or code points with lone surrogates among them,
which no encoding accepts. -/
inductive Text
  | unicode (text : String)
  | surrogates (codes : List (Fin 0x110000)) (lone : loneSurrogates codes = true)
  deriving DecidableEq, Repr

instance : Coe String Text := ⟨.unicode⟩

namespace Text

/-- The code points, by which Python compares and counts. -/
def codes : Text → List ℕ
  | .unicode text => text.toList.map Char.toNat
  | .surrogates codes _ => codes.map Fin.val

def length (text : Text) : ℕ := text.codes.length

theorem length_unicode (text : String) : (Text.unicode text).length = text.length := by
  rw [length, codes, List.length_map, String.length_toList]

/-- Without the blanks at the end, which `CHAR(n)` pads with and does not compare. -/
def unpadded : Text → Text
  | .unicode text => .unicode (String.ofList (text.toList.rdropWhile (· = ' ')))
  | .surrogates codes lone => .surrogates codes lone

end Text

/-- A text column holds Unicode text without the character NUL. -/
def textFits : Text → Bool
  | .unicode text => !(text.toList.contains '\x00')
  | .surrogates .. => false

/-- A nullable text column. -/
def optionalTextFits : Option Text → Bool
  | none => true
  | some text => textFits text

/-- A value of a `CHAR(3)` column, less the blanks that pad it. Only blanks may be cut off. -/
def charColumn (code : Text) : Option Text :=
  if code.unpadded.length ≤ 3 ∧ textFits code = true then some code.unpadded else none

end VoiceSpend
