import Mathlib.Data.Int.Notation
import Mathlib.Data.List.Basic
import Mathlib.Data.Nat.Notation
import Mathlib.Tactic.SplitIfs

/-!
# JSON texts

The ASCII text of a JSON value, with every character outside of it escaped, and a reader of JSON texts.
The reader takes the text of a value off the front of whatever goes on with a delimiter, and a text holds
no line break, so values written one a line are read back line by line.
-/

namespace VoiceSpend.JsonText

/-- A reader takes a value off the front of a text. -/
abbrev Reader (α : Type*) := List Char → Option (α × List Char)

def isSpace (c : Char) : Bool := c = ' ' || c = '\n' || c = '\r' || c = '\t'

def skip (text : List Char) : List Char := text.dropWhile isSpace

def isPrintable (c : Char) : Bool := 32 ≤ c.toNat && c.toNat ≤ 126

/-! ## Scalars -/

/-- The characters of names and numbers. -/
def isTokenChar (c : Char) : Bool := c.isAlphanum || c = '+' || c = '-' || c = '.'

/-- Digits are a number if the number has these digits, so without leading zeros. -/
def readNat (digits : List Char) : Option ℕ :=
  if Nat.toDigits 10 (Nat.ofDigitChars 10 digits 0) = digits then some (Nat.ofDigitChars 10 digits 0)
  else none

def readInt (text : List Char) : Option ℤ :=
  if text.head? = some '-' then (readNat text.tail).map fun n ↦ -Int.ofNat n
  else (readNat text).map Int.ofNat

def intText (n : ℤ) : List Char :=
  if n < 0 then '-' :: Nat.toDigits 10 n.natAbs else Nat.toDigits 10 n.natAbs

def isDigits (text : List Char) : Bool := text ≠ [] && text.all Char.isDigit

/-- The grammar of numbers: a whole part, a fraction and an exponent, of which the last two may be missing. -/
def isNumber (text : List Char) : Bool :=
  let mantissa := text.takeWhile fun c ↦ c ≠ 'e' && c ≠ 'E'
  let exponent := text.dropWhile fun c ↦ c ≠ 'e' && c ≠ 'E'
  let fraction := mantissa.dropWhile fun c ↦ c ≠ '.'
  let power := exponent.tail
  (readInt (mantissa.takeWhile fun c ↦ c ≠ '.')).isSome &&
    (fraction = [] || isDigits fraction.tail) &&
    (exponent = [] ||
      isDigits (if power.head? = some '+' || power.head? = some '-' then power.tail else power))

/-- The text of a number that is no integer's. -/
structure FloatText where
  text : List Char
  token : text.all isTokenChar = true
  number : isNumber text = true
  notInt : readInt text = none
  deriving DecidableEq

/-- The values that are one token; the last two are not in the standard, and are written and read by many. -/
inductive Scalar
  | null
  | bool (value : Bool)
  | int (value : ℤ)
  | float (value : FloatText)
  | nan
  | infinity (negative : Bool)
  deriving DecidableEq

def Scalar.text : Scalar → List Char
  | .null => "null".toList
  | .bool value => if value then "true".toList else "false".toList
  | .int value => intText value
  | .float value => value.text
  | .nan => "NaN".toList
  | .infinity negative => if negative then "-Infinity".toList else "Infinity".toList

/-- The scalars that are names. -/
def names : List Scalar := [.null, .bool true, .bool false, .nan, .infinity false, .infinity true]

def readScalar (token : List Char) : Option Scalar :=
  match names.find? fun s ↦ s.text = token with
  | some s => some s
  | none =>
    if h : token.all isTokenChar = true ∧ isNumber token = true ∧ readInt token = none then
      some (.float ⟨token, h.1, h.2.1, h.2.2⟩)
    else (readInt token).map .int

theorem isDigit_of_mem_toDigits {n : ℕ} {c : Char} (h : c ∈ Nat.toDigits 10 n) : c.isDigit = true :=
  Nat.isDigit_of_mem_toDigits (by decide) (by decide) h

theorem readNat_toDigits (n : ℕ) : readNat (Nat.toDigits 10 n) = some n := by
  simp [readNat]

theorem head_toDigits_ne (n : ℕ) : (Nat.toDigits 10 n).head? ≠ some '-' := by
  intro h
  have hdigit := isDigit_of_mem_toDigits (List.mem_of_mem_head? h)
  revert hdigit
  decide

theorem readInt_intText (n : ℤ) : readInt (intText n) = some n := by
  unfold intText
  split
  · rename_i hneg
    rw [readInt, if_pos List.head?_cons, List.tail_cons, readNat_toDigits, Option.map_some, Option.some_inj,
      Int.ofNat_eq_natCast]
    omega
  · rename_i hneg
    rw [readInt, if_neg (head_toDigits_ne _), readNat_toDigits, Option.map_some, Option.some_inj,
      Int.ofNat_eq_natCast]
    omega

theorem isTokenChar_of_mem_intText {n : ℤ} {c : Char} (h : c ∈ intText n) : isTokenChar c = true := by
  have hdigits (hmem : c ∈ Nat.toDigits 10 n.natAbs) : isTokenChar c = true := by
    simp [isTokenChar, Char.isAlphanum, isDigit_of_mem_toDigits hmem]
  unfold intText at h
  split at h
  · rcases List.mem_cons.mp h with rfl | hmem
    · decide
    · exact hdigits hmem
  · exact hdigits h

theorem Scalar.isTokenChar_of_mem (s : Scalar) {c : Char} (h : c ∈ s.text) : isTokenChar c = true := by
  have hword {word : List Char} (hall : word.all isTokenChar = true) (hmem : c ∈ word) :
      isTokenChar c = true := List.all_eq_true.mp hall c hmem
  cases s with
  | null => exact hword (by decide) h
  | bool value => cases value <;> exact hword (by decide) h
  | int value => exact isTokenChar_of_mem_intText h
  | float value => exact hword value.token h
  | nan => exact hword (by decide) h
  | infinity negative => cases negative <;> exact hword (by decide) h

theorem not_number_of_mem_names : ∀ s ∈ names, readInt s.text = none ∧ isNumber s.text = false := by
  decide

theorem Scalar.readScalar_text (s : Scalar) : readScalar s.text = some s := by
  cases s with
  | null | nan => rfl
  | bool value => cases value <;> rfl
  | infinity negative => cases negative <;> rfl
  | int value =>
    have hname : names.find? (fun s ↦ s.text = intText value) = none := by
      rw [List.find?_eq_none]
      intro s hs heq
      have hnone := (not_number_of_mem_names s hs).1
      rw [of_decide_eq_true heq, readInt_intText] at hnone
      cases hnone
    have hint : ¬ ((intText value).all isTokenChar = true ∧ isNumber (intText value) = true ∧
        readInt (intText value) = none) := by
      simp [readInt_intText]
    rw [Scalar.text, readScalar, hname, dif_neg hint, readInt_intText, Option.map_some]
  | float value =>
    have hname : names.find? (fun s ↦ s.text = value.text) = none := by
      rw [List.find?_eq_none]
      intro s hs heq
      have hfalse := (not_number_of_mem_names s hs).2
      rw [of_decide_eq_true heq, value.number] at hfalse
      cases hfalse
    rw [Scalar.text, readScalar, hname]
    exact dif_pos ⟨value.token, value.number, value.notInt⟩

/-! ## Strings -/

def hexValue (c : Char) : Option ℕ :=
  if c.isDigit then some (c.toNat - 48)
  else if 97 ≤ c.toNat ∧ c.toNat ≤ 102 then some (c.toNat - 87)
  else if 65 ≤ c.toNat ∧ c.toNat ≤ 70 then some (c.toNat - 55)
  else none

def readHex : Reader ℕ
  | a :: b :: c :: d :: rest =>
    (hexValue a).bind fun a ↦ (hexValue b).bind fun b ↦ (hexValue c).bind fun c ↦ (hexValue d).map fun d ↦
      (4096 * a + 256 * b + 16 * c + d, rest)
  | _ => none

/-- One code unit of UTF-16. -/
def unitText (n : ℕ) : List Char :=
  ['\\', 'u', Nat.digitChar (n / 4096), Nat.digitChar (n / 256 % 16), Nat.digitChar (n / 16 % 16),
    Nat.digitChar (n % 16)]

def escape (c : Char) : List Char :=
  if c = '"' ∨ c = '\\' then ['\\', c]
  else if isPrintable c then [c]
  else if c = '\n' then ['\\', 'n']
  else if c = '\r' then ['\\', 'r']
  else if c = '\t' then ['\\', 't']
  else if c = '\x08' then ['\\', 'b']
  else if c = '\x0c' then ['\\', 'f']
  else if c.toNat < 0x10000 then unitText c.toNat
  else unitText (0xd800 + (c.toNat - 0x10000) / 0x400) ++ unitText (0xdc00 + (c.toNat - 0x10000) % 0x400)

def quoted (s : String) : List Char := '"' :: s.toList.flatMap escape ++ ['"']

/-- A pair of surrogates is one character, a lone one is none. -/
def readUnit (text : List Char) : Option (Char × List Char) :=
  (readHex text).bind fun (unit, rest) ↦
    if unit < 0xd800 ∨ 0xe000 ≤ unit then some (Char.ofNat unit, rest)
    else if unit < 0xdc00 ∧ rest.take 2 = ['\\', 'u'] then
      (readHex (rest.drop 2)).bind fun (low, rest) ↦
        if 0xdc00 ≤ low ∧ low < 0xe000 then
          some (Char.ofNat (0x10000 + 0x400 * (unit - 0xd800) + (low - 0xdc00)), rest)
        else none
    else none

def readEscape : Reader Char
  | [] => none
  | c :: rest =>
    if c = 'u' then readUnit rest
    else if c = '"' ∨ c = '\\' ∨ c = '/' then some (c, rest)
    else if c = 'n' then some ('\n', rest)
    else if c = 'r' then some ('\r', rest)
    else if c = 't' then some ('\t', rest)
    else if c = 'b' then some ('\x08', rest)
    else if c = 'f' then some ('\x0c', rest)
    else none

/-- A control character stands in no string. -/
def readChar : Reader Char
  | [] => none
  | c :: rest => if c = '\\' then readEscape rest else if c.toNat < 32 then none else some (c, rest)

def readChars : ℕ → Reader (List Char)
  | 0, _ => none
  | fuel + 1, text =>
    if text.head? = some '"' then some ([], text.tail)
    else (readChar text).bind fun (c, rest) ↦ (readChars fuel rest).map fun (cs, rest) ↦ (c :: cs, rest)

/-- What follows an opening quote. -/
def readString (text : List Char) : Option (String × List Char) :=
  (readChars text.length text).map fun (cs, rest) ↦ (String.ofList cs, rest)

theorem hexValue_digitChar : ∀ d < 16, hexValue (Nat.digitChar d) = some d := by
  decide

theorem isPrintable_digitChar : ∀ d < 16, isPrintable (Nat.digitChar d) = true := by
  decide

theorem readHex_unitText {n : ℕ} (h : n < 0x10000) (rest : List Char) :
    readHex ((unitText n).drop 2 ++ rest) = some (n, rest) := by
  have hfirst := hexValue_digitChar (n / 4096) (by omega)
  have hsecond := hexValue_digitChar (n / 256 % 16) (by omega)
  have hthird := hexValue_digitChar (n / 16 % 16) (by omega)
  have hfourth := hexValue_digitChar (n % 16) (by omega)
  have hsum : 4096 * (n / 4096) + 256 * (n / 256 % 16) + 16 * (n / 16 % 16) + n % 16 = n := by omega
  simp only [unitText, List.drop_succ_cons, List.drop_zero, List.cons_append, List.nil_append, readHex,
    hfirst, hsecond, hthird, hfourth, Option.bind_some, Option.map_some, hsum]

theorem isPrintable_of_mem_unitText {n : ℕ} (h : n < 0x10000) {c : Char} (hmem : c ∈ unitText n) :
    isPrintable c = true := by
  simp only [unitText, List.mem_cons, List.not_mem_nil, or_false] at hmem
  rcases hmem with rfl | rfl | rfl | rfl | rfl | rfl
  · decide
  · decide
  all_goals exact isPrintable_digitChar _ (by omega)

theorem toNat_valid (c : Char) : c.toNat < 0xd800 ∨ 0xe000 ≤ c.toNat ∧ c.toNat < 0x110000 := by
  have hvalid : c.toNat < 0xd800 ∨ 0xdfff < c.toNat ∧ c.toNat < 0x110000 := c.valid
  omega

/-- A reader reads back what was written for a character. -/
theorem readChar_escape (c : Char) (rest : List Char) : readChar (escape c ++ rest) = some (c, rest) := by
  have hvalid := toNat_valid c
  unfold escape
  split_ifs with hquoted hprintable hn hr ht hb hf hbasic
  · rcases hquoted with rfl | rfl <;> rfl
  · have hne : c ≠ '\\' := fun heq ↦ hquoted (.inr heq)
    have hlow : ¬ c.toNat < 32 := by
      simp only [isPrintable, Bool.and_eq_true, decide_eq_true_eq] at hprintable
      omega
    rw [List.singleton_append, readChar, if_neg hne, if_neg hlow]
  · rw [hn]
    rfl
  · rw [hr]
    rfl
  · rw [ht]
    rfl
  · rw [hb]
    rfl
  · rw [hf]
    rfl
  · have hread : readChar (unitText c.toNat ++ rest) = readUnit ((unitText c.toNat).drop 2 ++ rest) := rfl
    rw [hread, readUnit, readHex_unitText hbasic, Option.bind_some]
    simp only
    rw [if_pos (by omega), Char.ofNat_toNat]
  · have hhigh : 0xd800 + (c.toNat - 0x10000) / 0x400 < 0xdc00 := by omega
    have hlow : 0xdc00 + (c.toNat - 0x10000) % 0x400 < 0xe000 := by omega
    generalize hunit : 0xd800 + (c.toNat - 0x10000) / 0x400 = unit at hhigh
    generalize hunit' : 0xdc00 + (c.toNat - 0x10000) % 0x400 = unit' at hlow
    have hread : readChar (unitText unit ++ unitText unit' ++ rest) =
        readUnit ((unitText unit).drop 2 ++ (unitText unit' ++ rest)) := rfl
    have hsecond : readHex ((unitText unit' ++ rest).drop 2) = some (unit', rest) :=
      readHex_unitText (by omega) rest
    rw [hread, readUnit, readHex_unitText (by omega), Option.bind_some]
    simp only
    rw [if_neg (by omega), if_pos ⟨hhigh, rfl⟩, hsecond, Option.bind_some]
    simp only
    have hchar : 0x10000 + 0x400 * (unit - 0xd800) + (unit' - 0xdc00) = c.toNat := by omega
    rw [if_pos (by omega), hchar, Char.ofNat_toNat]

theorem escape_ne_nil (c : Char) : escape c ≠ [] := by
  unfold escape unitText
  split_ifs <;> simp

/-- No escaped character begins with a quote. -/
theorem head_escape (c : Char) (rest : List Char) : (escape c ++ rest).head? ≠ some '"' := by
  unfold escape unitText
  split_ifs with hquoted <;> simp
  exact fun heq ↦ hquoted (.inl heq)

theorem isPrintable_of_mem_escape {c d : Char} (h : d ∈ escape c) : isPrintable d = true := by
  have hvalid := toNat_valid c
  have hword {word : List Char} (hall : word.all isPrintable = true) (hmem : d ∈ word) :
      isPrintable d = true := List.all_eq_true.mp hall d hmem
  unfold escape at h
  split_ifs at h with hquoted hprintable hn hr ht hb hf hbasic
  · rcases hquoted with rfl | rfl
    · exact hword (by decide) h
    · exact hword (by decide) h
  · rw [List.mem_singleton.mp h]
    exact hprintable
  · exact hword (by decide) h
  · exact hword (by decide) h
  · exact hword (by decide) h
  · exact hword (by decide) h
  · exact hword (by decide) h
  · exact isPrintable_of_mem_unitText hbasic h
  · rcases List.mem_append.mp h with h | h
    · exact isPrintable_of_mem_unitText (by omega) h
    · exact isPrintable_of_mem_unitText (by omega) h

theorem readChars_escaped (cs : List Char) (rest : List Char) {fuel : ℕ} (hfuel : cs.length < fuel) :
    readChars fuel (cs.flatMap escape ++ '"' :: rest) = some (cs, rest) := by
  induction cs generalizing fuel with
  | nil =>
    obtain ⟨fuel, rfl⟩ := Nat.exists_eq_succ_of_ne_zero (Nat.ne_of_gt hfuel)
    rfl
  | cons c cs ih =>
    obtain ⟨fuel, rfl⟩ := Nat.exists_eq_succ_of_ne_zero (Nat.ne_of_gt (Nat.zero_lt_of_lt hfuel))
    rw [List.flatMap_cons, List.append_assoc, readChars, if_neg (head_escape c _), readChar_escape,
      Option.bind_some]
    simp only
    rw [ih (Nat.lt_of_succ_lt_succ hfuel), Option.map_some]

theorem length_le_escaped (cs : List Char) : cs.length ≤ (cs.flatMap escape).length := by
  induction cs with
  | nil => exact Nat.le_refl _
  | cons c cs ih =>
    have hpos := List.length_pos_iff.mpr (escape_ne_nil c)
    rw [List.flatMap_cons, List.length_append, List.length_cons]
    omega

theorem readString_escaped (s : String) (rest : List Char) :
    readString (s.toList.flatMap escape ++ '"' :: rest) = some (s, rest) := by
  have hlength := length_le_escaped s.toList
  rw [readString, readChars_escaped _ _ (by rw [List.length_append, List.length_cons]; omega),
    Option.map_some]
  simp only [String.ofList_toList]

theorem isPrintable_of_mem_quoted {s : String} {c : Char} (h : c ∈ quoted s) : isPrintable c = true := by
  rw [quoted, List.cons_append, List.mem_cons, List.mem_append, List.mem_singleton, List.mem_flatMap] at h
  rcases h with rfl | ⟨_, _, hmem⟩ | rfl
  · decide
  · exact isPrintable_of_mem_escape hmem
  · decide

/-! ## Values -/

inductive Value
  | scalar (value : Scalar)
  | string (value : String)
  | array (items : List Value)
  | object (members : List (String × Value))

/-- What holds of the parts holds of the whole. -/
@[elab_as_elim]
theorem Value.induct {P : Value → Prop} (scalar : ∀ value, P (.scalar value))
    (string : ∀ value, P (.string value)) (array : ∀ items, (∀ item ∈ items, P item) → P (.array items))
    (object : ∀ members, (∀ member ∈ members, P member.2) → P (.object members)) (value : Value) :
    P value := by
  apply @Value.rec P (fun items ↦ ∀ item ∈ items, P item) (fun members ↦ ∀ member ∈ members, P member.2)
    (fun member ↦ P member.2) scalar string array object
  · exact fun _ hmem ↦ absurd hmem List.not_mem_nil
  · exact fun item items hitem hitems ↦ List.forall_mem_cons.mpr ⟨hitem, hitems⟩
  · exact fun _ hmem ↦ absurd hmem List.not_mem_nil
  · exact fun member members hmember hmembers ↦ List.forall_mem_cons.mpr ⟨hmember, hmembers⟩
  · exact fun _ _ hvalue ↦ hvalue

/-- Texts between brackets. -/
def enclosed (opener closer : Char) (texts : List (List Char)) : List Char :=
  opener :: [',', ' '].intercalate texts ++ [closer]

def memberText (key : String) (text : List Char) : List Char := quoted key ++ ':' :: ' ' :: text

mutual

/-- The text of a value. -/
def Value.text : Value → List Char
  | .scalar value => value.text
  | .string value => quoted value
  | .array items => enclosed '[' ']' (itemTexts items)
  | .object members => enclosed '{' '}' (memberTexts members)

def itemTexts : List Value → List (List Char)
  | [] => []
  | item :: items => item.text :: itemTexts items

def memberTexts : List (String × Value) → List (List Char)
  | [] => []
  | (key, value) :: members => memberText key value.text :: memberTexts members

end

theorem itemTexts_eq (items : List Value) : itemTexts items = items.map Value.text := by
  induction items with
  | nil => rfl
  | cons item items ih => rw [itemTexts, ih, List.map_cons]

theorem memberTexts_eq (members : List (String × Value)) :
    memberTexts members = members.map fun member ↦ memberText member.1 member.2.text := by
  induction members with
  | nil => rfl
  | cons member members ih => rw [memberTexts, ih, List.map_cons]

/-! ## The reader -/

/-- The items up to a closing bracket, at least one. -/
def readItems {α : Type*} (closer : Char) (item : Reader α) : ℕ → Reader (List α)
  | 0, _ => none
  | fuel + 1, text =>
    (item text).bind fun (first, rest) ↦
      if (skip rest).head? = some closer then some ([first], (skip rest).tail)
      else if (skip rest).head? = some ',' then
        (readItems closer item fuel (skip (skip rest).tail)).map fun (items, rest) ↦ (first :: items, rest)
      else none

/-- What follows an opening bracket. -/
def readEnclosed {α : Type*} (closer : Char) (item : Reader α) (text : List Char) :
    Option (List α × List Char) :=
  if (skip text).head? = some closer then some ([], (skip text).tail)
  else readItems closer item text.length (skip text)

def readMember {α : Type*} (value : Reader α) (text : List Char) : Option ((String × α) × List Char) :=
  if text.head? = some '"' then
    (readString text.tail).bind fun (key, rest) ↦
      if (skip rest).head? = some ':' then
        (value (skip (skip rest).tail)).map fun (value, rest) ↦ ((key, value), rest)
      else none
  else none

/-- A reader of values that are nested less deep than the fuel. -/
def readValue : ℕ → Reader Value
  | 0, _ => none
  | fuel + 1, text =>
    if text.head? = some '"' then
      (readString text.tail).map fun (value, rest) ↦ (.string value, rest)
    else if text.head? = some '[' then
      (readEnclosed ']' (readValue fuel) text.tail).map fun (items, rest) ↦ (.array items, rest)
    else if text.head? = some '{' then
      (readEnclosed '}' (readMember (readValue fuel)) text.tail).map fun (members, rest) ↦
        (.object members, rest)
    else
      (readScalar (text.takeWhile isTokenChar)).map fun value ↦ (.scalar value, text.dropWhile isTokenChar)

/-- The value of a whole text. -/
def loads (text : List Char) : Option Value :=
  (readValue text.length (skip text)).bind fun (value, rest) ↦ if skip rest = [] then some value else none

/-! ## Reading back -/

/-- What may follow a value. -/
def Delimited (rest : List Char) : Prop := ∀ c, rest.head? = some c → isTokenChar c = false

/-- A value's text begins with a character that is no space and closes nothing. -/
def isStart (c : Char) : Bool := !isSpace c && c ≠ ']' && c ≠ '}'

/-- A reader takes the text off the front of all that may follow it, as the value. -/
structure ReadsBack {α : Type*} (read : Reader α) (text : List Char) (a : α) : Prop where
  start : ∃ c tail, text = c :: tail ∧ isStart c = true
  reads : ∀ rest, Delimited rest → read (text ++ rest) = some (a, rest)

/-- The brackets that close. -/
def IsCloser (c : Char) : Prop := c = ']' ∨ c = '}'

theorem delimited_cons {c : Char} (h : isTokenChar c = false) (rest : List Char) : Delimited (c :: rest) := by
  intro d hd
  cases hd
  exact h

theorem skip_cons {c : Char} (h : isSpace c = false) (rest : List Char) : skip (c :: rest) = c :: rest := by
  rw [skip, List.dropWhile_cons_of_neg (by simp [h])]

section

variable {α : Type*} {read : Reader α} {text : List Char} {a : α}

theorem ReadsBack.skip (h : ReadsBack read text a) (rest : List Char) :
    skip (text ++ rest) = text ++ rest := by
  obtain ⟨c, tail, rfl, hstart⟩ := h.start
  have hspace : isSpace c = false := by
    simp only [isStart, Bool.and_eq_true, Bool.not_eq_true'] at hstart
    exact hstart.1.1
  exact skip_cons hspace (tail ++ rest)

theorem ReadsBack.head_ne (h : ReadsBack read text a) {closer : Char} (hcloser : IsCloser closer)
    (rest : List Char) : (text ++ rest).head? ≠ some closer := by
  obtain ⟨c, tail, rfl, hstart⟩ := h.start
  intro heq
  cases heq
  rcases hcloser with rfl | rfl <;> exact absurd hstart (by decide)

theorem ReadsBack.length_pos (h : ReadsBack read text a) : 0 < text.length := by
  obtain ⟨c, tail, rfl, _⟩ := h.start
  exact Nat.succ_pos _

theorem IsCloser.delimits {closer : Char} (h : IsCloser closer) :
    isTokenChar closer = false ∧ isSpace closer = false ∧ closer ≠ ',' := by
  rcases h with rfl | rfl <;> decide

theorem skip_space_cons {c : Char} (h : isSpace c = true) (rest : List Char) :
    skip (c :: rest) = skip rest := by
  rw [skip, List.dropWhile_cons_of_pos h]
  rfl

/-- Joined texts begin with the first one. -/
theorem intercalate_cons_eq (first : List Char) (texts : List (List Char)) :
    ∃ tail, [',', ' '].intercalate (first :: texts) = first ++ tail := by
  cases texts with
  | nil => exact ⟨[], by rw [List.intercalate_singleton, List.append_nil]⟩
  | cons next texts => exact ⟨_, by rw [List.intercalate_cons_cons, List.append_assoc]⟩

/-- The items of a sequence are read back if each one is. -/
theorem readItems_texts {texts : α → List Char} {closer : Char} (hcloser : IsCloser closer) {item : α}
    {items : List α} (h : ∀ a ∈ item :: items, ReadsBack read (texts a) a) (rest : List Char) {fuel : ℕ}
    (hfuel : items.length < fuel) :
    readItems closer read fuel ([',', ' '].intercalate ((item :: items).map texts) ++ closer :: rest) =
      some (item :: items, rest) := by
  obtain ⟨htoken, hspace, hcomma⟩ := hcloser.delimits
  induction items generalizing item fuel with
  | nil =>
    obtain ⟨fuel, rfl⟩ := Nat.exists_eq_succ_of_ne_zero (Nat.ne_of_gt hfuel)
    have hitem := (h item List.mem_cons_self).reads (closer :: rest) (delimited_cons htoken rest)
    rw [List.map_cons, List.map_nil, List.intercalate_singleton, readItems, hitem, Option.bind_some]
    simp only [skip_cons hspace, List.head?_cons, if_true, List.tail_cons]
  | cons next items ih =>
    obtain ⟨fuel, rfl⟩ := Nat.exists_eq_succ_of_ne_zero (Nat.ne_of_gt (Nat.zero_lt_of_lt hfuel))
    have hmore := ih (fun a hmem ↦ h a (List.mem_cons_of_mem _ hmem)) (Nat.lt_of_succ_lt_succ hfuel)
    have hnext := h next (List.mem_cons_of_mem _ List.mem_cons_self)
    generalize hrest : [',', ' '].intercalate ((next :: items).map texts) ++ closer :: rest = more at hmore
    have hskip : skip more = more := by
      obtain ⟨tail, htail⟩ := intercalate_cons_eq (texts next) (items.map texts)
      rw [← hrest, List.map_cons, htail, List.append_assoc]
      exact hnext.skip _
    have hjoined : [',', ' '].intercalate ((item :: next :: items).map texts) ++ closer :: rest =
        texts item ++ ',' :: ' ' :: more := by
      rw [← hrest, List.map_cons, List.map_cons, List.intercalate_cons_cons]
      simp only [List.append_assoc, List.cons_append, List.nil_append]
    have hitem := (h item List.mem_cons_self).reads (',' :: ' ' :: more) (delimited_cons (by decide) _)
    have hnot : some ',' ≠ some closer := fun heq ↦ hcomma (Option.some.inj heq).symm
    rw [hjoined, readItems, hitem, Option.bind_some]
    simp only [skip_cons (show isSpace ',' = false by decide),
      skip_space_cons (show isSpace ' ' = true by decide), List.head?_cons, List.tail_cons, if_true]
    rw [if_neg hnot, hskip, hmore, Option.map_some]

theorem length_le_intercalate {texts : List (List Char)} (h : ∀ text ∈ texts, 0 < text.length) :
    texts.length ≤ ([',', ' '].intercalate texts).length := by
  induction texts with
  | nil => exact Nat.zero_le _
  | cons first texts ih =>
    have hfirst := h first List.mem_cons_self
    cases texts with
    | nil => rwa [List.intercalate_singleton, List.length_singleton]
    | cons next texts =>
      have hmore := ih fun text hmem ↦ h text (List.mem_cons_of_mem _ hmem)
      rw [List.intercalate_cons_cons, List.length_append, List.length_append, List.length_cons]
      omega

theorem length_mem_le_intercalate {texts : List (List Char)} {text : List Char} (h : text ∈ texts) :
    text.length ≤ ([',', ' '].intercalate texts).length := by
  induction texts with
  | nil => cases h
  | cons first texts ih =>
    obtain ⟨tail, htail⟩ := intercalate_cons_eq first texts
    rcases List.mem_cons.mp h with rfl | h
    · rw [htail, List.length_append]
      omega
    · rw [List.intercalate_cons_of_ne_nil (List.ne_nil_of_mem h), List.length_append]
      exact Nat.le_trans (ih h) (Nat.le_add_left _ _)

/-- So is what stands between brackets. -/
theorem readEnclosed_texts {texts : α → List Char} {closer : Char} (hcloser : IsCloser closer)
    {items : List α} (h : ∀ a ∈ items, ReadsBack read (texts a) a) (rest : List Char) :
    readEnclosed closer read ([',', ' '].intercalate (items.map texts) ++ closer :: rest) =
      some (items, rest) := by
  obtain ⟨_, hspace, _⟩ := hcloser.delimits
  cases items with
  | nil =>
    rw [List.map_nil, List.intercalate_nil, List.nil_append, readEnclosed, skip_cons hspace,
      if_pos List.head?_cons, List.tail_cons]
  | cons item items =>
    have hitem := h item List.mem_cons_self
    have hfuel : items.length <
        ([',', ' '].intercalate ((item :: items).map texts) ++ closer :: rest).length := by
      have hlength := length_le_intercalate fun text (hmem : text ∈ (item :: items).map texts) ↦ by
        obtain ⟨a, ha, rfl⟩ := List.mem_map.mp hmem
        exact (h a ha).length_pos
      rw [List.length_map, List.length_cons] at hlength
      rw [List.length_append]
      omega
    have hread := readItems_texts hcloser h rest hfuel
    obtain ⟨tail, htail⟩ := intercalate_cons_eq (texts item) (items.map texts)
    rw [List.map_cons, htail, List.append_assoc] at hread ⊢
    rw [readEnclosed, hitem.skip, if_neg (hitem.head_ne hcloser _), hread]

theorem ReadsBack.member (h : ReadsBack read text a) (key : String) :
    ReadsBack (readMember read) (memberText key text) (key, a) where
  start := ⟨_, _, rfl, by decide⟩
  reads rest hrest := by
    have htext : memberText key text ++ rest =
        '"' :: (key.toList.flatMap escape ++ '"' :: ':' :: ' ' :: (text ++ rest)) := by
      simp only [memberText, quoted, List.cons_append, List.append_assoc, List.nil_append]
    rw [htext, readMember, if_pos List.head?_cons, List.tail_cons, readString_escaped, Option.bind_some]
    simp only [skip_cons (show isSpace ':' = false by decide),
      skip_space_cons (show isSpace ' ' = true by decide), List.head?_cons, List.tail_cons, if_true]
    rw [h.skip, h.reads rest hrest, Option.map_some]

end

theorem isStart_of_isTokenChar {c : Char} (h : isTokenChar c = true) :
    isStart c = true ∧ c ≠ '"' ∧ c ≠ '[' ∧ c ≠ '{' := by
  have hne {d : Char} (hd : isTokenChar d = false) : c ≠ d := by
    rintro rfl
    rw [h] at hd
    cases hd
  have hspace : isSpace c = false := by
    simp only [isSpace, Bool.or_eq_false_iff, decide_eq_false_iff_not]
    exact ⟨⟨⟨hne (by decide), hne (by decide)⟩, hne (by decide)⟩, hne (by decide)⟩
  refine ⟨?_, hne (by decide), hne (by decide), hne (by decide)⟩
  simp [isStart, hspace, hne (show isTokenChar ']' = false by decide),
    hne (show isTokenChar '}' = false by decide)]

theorem Scalar.text_ne_nil (s : Scalar) : s.text ≠ [] := by
  intro hnil
  have hnone : readScalar [] = none := by decide
  have hread := s.readScalar_text
  rw [hnil, hnone] at hread
  cases hread

theorem Scalar.readsBack (s : Scalar) (fuel : ℕ) : ReadsBack (readValue (fuel + 1)) s.text (.scalar s) := by
  obtain ⟨c, tail, htext⟩ := List.exists_cons_of_ne_nil s.text_ne_nil
  have htoken : isTokenChar c = true := s.isTokenChar_of_mem (htext ▸ List.mem_cons_self)
  obtain ⟨hstart, hquote, hbracket, hbrace⟩ := isStart_of_isTokenChar htoken
  refine ⟨⟨c, tail, htext, hstart⟩, fun rest hrest ↦ ?_⟩
  have hhead : (s.text ++ rest).head? = some c := by rw [htext, List.cons_append, List.head?_cons]
  have hall : ∀ d ∈ s.text, isTokenChar d = true := fun d hmem ↦ s.isTokenChar_of_mem hmem
  have htake : rest.takeWhile isTokenChar = [] ∧ rest.dropWhile isTokenChar = rest := by
    cases rest with
    | nil => exact ⟨rfl, rfl⟩
    | cons d rest =>
      have hd := hrest d rfl
      simp [hd]
  have hne {d : Char} (h : c ≠ d) : some c ≠ some d := fun heq ↦ h (Option.some.inj heq)
  rw [readValue, hhead, if_neg (hne hquote), if_neg (hne hbracket), if_neg (hne hbrace),
    List.takeWhile_append_of_pos hall, List.dropWhile_append_of_pos hall, htake.1, htake.2, List.append_nil,
    s.readScalar_text, Option.map_some]

/-- A reader with enough fuel reads back the text of a value. -/
theorem Value.readsBack (value : Value) :
    ∀ fuel, value.text.length ≤ fuel → ReadsBack (readValue fuel) value.text value := by
  induction value using Value.induct with
  | scalar s =>
    intro fuel hfuel
    have hpos := List.length_pos_iff.mpr s.text_ne_nil
    obtain ⟨fuel, rfl⟩ : ∃ k, fuel = k + 1 := Nat.exists_eq_add_of_le' (Nat.le_trans hpos hfuel)
    exact s.readsBack fuel
  | string s =>
    intro fuel hfuel
    rw [Value.text, quoted, List.cons_append, List.length_cons] at hfuel
    obtain ⟨fuel, rfl⟩ : ∃ k, fuel = k + 1 := Nat.exists_eq_add_of_le' (by omega)
    refine ⟨⟨_, _, rfl, by decide⟩, fun rest _ ↦ ?_⟩
    have htext : (Value.string s).text ++ rest = '"' :: (s.toList.flatMap escape ++ '"' :: rest) := by
      simp only [Value.text, quoted, List.cons_append, List.append_assoc, List.nil_append]
    rw [htext, readValue, if_pos List.head?_cons, List.tail_cons, readString_escaped, Option.map_some]
  | array items ih =>
    intro fuel hfuel
    rw [Value.text, itemTexts_eq, enclosed, List.cons_append, List.length_cons, List.length_append] at hfuel
    obtain ⟨fuel, rfl⟩ : ∃ k, fuel = k + 1 := Nat.exists_eq_add_of_le' (by omega)
    have hitems : ∀ item ∈ items, ReadsBack (readValue fuel) item.text item := by
      intro item hmem
      have hle := length_mem_le_intercalate (List.mem_map_of_mem (f := Value.text) hmem)
      exact ih item hmem fuel (by omega)
    refine ⟨⟨_, _, by rw [Value.text, enclosed, List.cons_append], by decide⟩, fun rest _ ↦ ?_⟩
    have htext : (Value.array items).text ++ rest =
        '[' :: ([',', ' '].intercalate (items.map Value.text) ++ ']' :: rest) := by
      simp only [Value.text, itemTexts_eq, enclosed, List.cons_append, List.append_assoc, List.nil_append]
    rw [htext, readValue, List.head?_cons, if_neg (by decide), if_pos rfl, List.tail_cons,
      readEnclosed_texts (.inl rfl) hitems, Option.map_some]
  | object members ih =>
    intro fuel hfuel
    rw [Value.text, memberTexts_eq, enclosed, List.cons_append, List.length_cons, List.length_append] at hfuel
    obtain ⟨fuel, rfl⟩ : ∃ k, fuel = k + 1 := Nat.exists_eq_add_of_le' (by omega)
    have hmembers : ∀ member ∈ members,
        ReadsBack (readMember (readValue fuel)) (memberText member.1 member.2.text) member := by
      intro member hmem
      have hle := length_mem_le_intercalate
        (List.mem_map_of_mem (f := fun member ↦ memberText member.1 member.2.text) hmem)
      rw [memberText, List.length_append, List.length_cons, List.length_cons] at hle
      exact (ih member hmem fuel (by omega)).member member.1
    refine ⟨⟨_, _, by rw [Value.text, enclosed, List.cons_append], by decide⟩, fun rest _ ↦ ?_⟩
    have htext : (Value.object members).text ++ rest = '{' :: ([',', ' '].intercalate
        (members.map fun member ↦ memberText member.1 member.2.text) ++ '}' :: rest) := by
      simp only [Value.text, memberTexts_eq, enclosed, List.cons_append, List.append_assoc, List.nil_append]
    rw [htext, readValue, List.head?_cons, if_neg (by decide), if_neg (by decide), if_pos rfl, List.tail_cons,
      readEnclosed_texts (.inr rfl) hmembers, Option.map_some]

/-- Every value is read back from its text. -/
theorem loads_text (value : Value) : loads value.text = some value := by
  have h := value.readsBack value.text.length (Nat.le_refl _)
  have hskip := h.skip []
  have hread := h.reads [] fun c hc ↦ by cases hc
  rw [List.append_nil] at hskip hread
  rw [loads, hskip, hread, Option.bind_some]
  rfl

/-! ## Lines -/

theorem isPrintable_of_isTokenChar {c : Char} (h : isTokenChar c = true) : isPrintable c = true := by
  have hbetween {low high : UInt32} (hrange : low ≤ c.val ∧ c.val ≤ high) (hlow : 43 ≤ low.toNat)
      (hhigh : high.toNat ≤ 122) : 43 ≤ c.toNat ∧ c.toNat ≤ 122 :=
    ⟨Nat.le_trans hlow (UInt32.le_iff_toNat_le.mp hrange.1),
      Nat.le_trans (UInt32.le_iff_toNat_le.mp hrange.2) hhigh⟩
  have hboth {low high : UInt32} (hrange : (decide (low ≤ c.val) && decide (c.val ≤ high)) = true) :
      low ≤ c.val ∧ c.val ≤ high := by
    rwa [Bool.and_eq_true, decide_eq_true_eq, decide_eq_true_eq] at hrange
  have hbounds : 43 ≤ c.toNat ∧ c.toNat ≤ 122 := by
    simp only [isTokenChar, Char.isAlphanum, Bool.or_eq_true, decide_eq_true_eq] at h
    rcases h with (((hletter | hdigit) | rfl) | rfl) | rfl
    · rcases Bool.or_eq_true_iff.mp hletter with hupper | hlower
      · exact hbetween (of_decide_eq_true hupper) (by decide) (by decide)
      · exact hbetween (hboth hlower) (by decide) (by decide)
    · exact hbetween (hboth hdigit) (by decide) (by decide)
    all_goals decide
  simp only [isPrintable, Bool.and_eq_true, decide_eq_true_eq]
  omega

theorem mem_intercalate {texts : List (List Char)} {c : Char} (h : c ∈ [',', ' '].intercalate texts) :
    c = ',' ∨ c = ' ' ∨ ∃ text ∈ texts, c ∈ text := by
  induction texts with
  | nil => cases h
  | cons first texts ih =>
    cases texts with
    | nil =>
      rw [List.intercalate_singleton] at h
      exact .inr (.inr ⟨first, List.mem_cons_self, h⟩)
    | cons next texts =>
      rw [List.intercalate_cons_cons, List.mem_append, List.mem_append, List.mem_cons,
        List.mem_singleton] at h
      rcases h with (hfirst | hcomma | hspace) | hmore
      · exact .inr (.inr ⟨first, List.mem_cons_self, hfirst⟩)
      · exact .inl hcomma
      · exact .inr (.inl hspace)
      · refine (ih hmore).imp_right (Or.imp_right ?_)
        rintro ⟨text, htext, hmem⟩
        exact ⟨text, List.mem_cons_of_mem _ htext, hmem⟩

theorem isPrintable_of_mem_enclosed {opener closer : Char} {texts : List (List Char)} {c : Char}
    (hopener : isPrintable opener = true) (hcloser : isPrintable closer = true)
    (h : ∀ text ∈ texts, ∀ c ∈ text, isPrintable c = true) (hmem : c ∈ enclosed opener closer texts) :
    isPrintable c = true := by
  rw [enclosed, List.cons_append, List.mem_cons, List.mem_append, List.mem_singleton] at hmem
  rcases hmem with rfl | hmem | rfl
  · exact hopener
  · rcases mem_intercalate hmem with rfl | rfl | ⟨text, htext, hmem⟩
    · decide
    · decide
    · exact h text htext c hmem
  · exact hcloser

/-- A text holds printable ASCII characters only. -/
theorem Value.isPrintable_of_mem (value : Value) : ∀ c ∈ value.text, isPrintable c = true := by
  induction value using Value.induct with
  | scalar s => exact fun c hmem ↦ isPrintable_of_isTokenChar (s.isTokenChar_of_mem hmem)
  | string s => exact fun c hmem ↦ isPrintable_of_mem_quoted hmem
  | array items ih =>
    intro c hmem
    rw [Value.text, itemTexts_eq] at hmem
    refine isPrintable_of_mem_enclosed (by decide) (by decide) (fun text htext ↦ ?_) hmem
    obtain ⟨item, hitem, rfl⟩ := List.mem_map.mp htext
    exact ih item hitem
  | object members ih =>
    intro c hmem
    rw [Value.text, memberTexts_eq] at hmem
    refine isPrintable_of_mem_enclosed (by decide) (by decide) (fun text htext d hd ↦ ?_) hmem
    obtain ⟨member, hmember, rfl⟩ := List.mem_map.mp htext
    rw [memberText, List.mem_append, List.mem_cons, List.mem_cons] at hd
    rcases hd with hd | rfl | rfl | hd
    · exact isPrintable_of_mem_quoted hd
    · decide
    · decide
    · exact ih member hmember d hd

/-- Values, one a line. -/
def lines (values : List Value) : List Char := values.flatMap fun value ↦ value.text ++ ['\n']

/-- What a reader of lines makes of each line; what follows the last line break is no line. -/
def readLines (text : List Char) : List (Option Value) := ((text.splitOn '\n').dropLast).map loads

theorem lines_append (first second : List Value) : lines (first ++ second) = lines first ++ lines second :=
  List.flatMap_append

theorem isPrintable_of_mem_lines {values : List Value} {c : Char} (h : c ∈ lines values) :
    c = '\n' ∨ isPrintable c = true := by
  obtain ⟨value, _, hmem⟩ := List.mem_flatMap.mp h
  rcases List.mem_append.mp hmem with hmem | hmem
  · exact .inr (value.isPrintable_of_mem c hmem)
  · exact .inl (List.mem_singleton.mp hmem)

theorem splitOn_lines (values : List Value) :
    (lines values).splitOn '\n' = values.map Value.text ++ [[]] := by
  induction values with
  | nil => rfl
  | cons value values ih =>
    have hnot : '\n' ∉ value.text := fun hmem ↦ by
      have hprintable := value.isPrintable_of_mem _ hmem
      revert hprintable
      decide
    have hlines : lines (value :: values) = value.text ++ '\n' :: lines values := by
      rw [lines, List.flatMap_cons, List.append_assoc, List.singleton_append]
      rfl
    rw [hlines, List.splitOn_append_cons_self_of_not_mem hnot, ih, List.map_cons, List.cons_append]

/-- Values written one a line are read back line by line. -/
theorem readLines_lines (values : List Value) : readLines (lines values) = values.map some := by
  rw [readLines, splitOn_lines, List.dropLast_concat, List.map_map]
  exact List.map_congr_left fun value _ ↦ loads_text value

end VoiceSpend.JsonText
