import VoiceSpend.Store.Rows

/-!
# Push records: validation and column conversion

`ExpenseSyncIn` is the pydantic schema of one pushed record. Its fields, their order, the
length and range bounds and the currency normaliser are the schema's; how pydantic and
Python parse one scalar is a parameter, `Runtime`, so every result here holds for any such
parsers. `toColumns` is the second, independent gate: what the driver and the column types
make of a validated record when it is written, or `none` when one value does not fit.
-/

namespace VoiceSpend

/-- A decoded JSON value; a float is kept as its text. -/
inductive Json
  | null
  | bool (value : Bool)
  | int (value : ℤ)
  | float (text : String)
  | str (value : Text)
  | arr (items : List Json)
  | obj (fields : List (Text × Json))

/-- A JSON object with distinct keys. -/
abbrev RawRecord := List (Text × Json)

/-- A Python `datetime`: its wall-clock reading in microseconds and, unless it is naive, its
offset from UTC. -/
structure DateTime where
  wall : ℤ
  utcOffset : Option ℤ
  deriving DecidableEq, Repr

/-- Scalar parsing by Python and pydantic. A field parser returns the value or the message of
its error; `uuid` is Python's `UUID(text)`, with `none` for `ValueError`; `localInstant` is
how the server's time zone reads a naive datetime; `indexable` is whether an entry of the text, which
the server may compress, fits a B-tree page, as the at most 2600 bytes of 650 characters do. -/
structure Runtime where
  strip : Text → Text
  upper : Text → Text
  str : Json → Text
  uuid : Text → Option UUID
  parseUuid : Json → Except String UUID
  parseDecimal : Json → Except String Decimal
  parseStr : Json → Except String Text
  parseDatetime : Json → Except String DateTime
  parseInt : Json → Except String ℤ
  localInstant : ℤ → Option Instant
  indexable : Text → Bool
  indexable_short : ∀ text : Text, text.length ≤ 650 → indexable text = true

structure ErrorDetail where
  loc : List String
  msg : String
  deriving DecidableEq, Repr

/-- One client-supplied record in a push batch. -/
structure ExpenseSyncIn where
  id : UUID
  deviceId : UUID
  amountOriginal : Decimal
  currencyOriginal : Text
  spentAt : DateTime
  clientRev : ℕ
  category : Option Text
  paymentMethod : Option Text
  merchant : Option Text
  note : Option Text
  rawTranscript : Option Text
  deletedAt : Option DateTime
  deriving DecidableEq, Repr

/-! ## Validation -/

def located {α : Type} (name : String) : Except String α → Except ErrorDetail α
  | .ok value => .ok value
  | .error msg => .error ⟨[name], msg⟩

/-- A field without a default. -/
def required {α : Type} (parse : Json → Except String α) (raw : RawRecord) (name : String) :
    Except ErrorDetail α :=
  match raw.lookup (.unicode name) with
  | none => .error ⟨[name], "Field required"⟩
  | some value => located name (parse value)

/-- A field `T | None = None`. -/
def optional {α : Type} (parse : Json → Except String α) (raw : RawRecord) (name : String) :
    Except ErrorDetail (Option α) :=
  match raw.lookup (.unicode name) with
  | none => .ok none
  | some .null => .ok none
  | some value => located name ((parse value).map some)

/-- `normalize_currency_code`. -/
def normalizeCurrencyCode (rt : Runtime) (value : Text) : Except String Text :=
  let value := rt.upper (rt.strip value)
  if value.length ≠ 3 then .error "Value error, currency code must be exactly 3 letters (ISO-4217)"
  else .ok value

/-- `currency_original`: a string of three characters, which pydantic counts in Unicode text only, then
the field validator. -/
def parseCurrency (rt : Runtime) (value : Json) : Except String Text := do
  match ← rt.parseStr value with
  | .surrogates .. => .error "Input should be a valid string, unable to parse raw data as a unicode string"
  | .unicode text =>
    if text.length < 3 then .error "String should have at least 3 characters"
    else if 3 < text.length then .error "String should have at most 3 characters"
    else normalizeCurrencyCode rt text

/-- `client_rev`: an integer with `ge=0`. -/
def parseClientRev (rt : Runtime) (value : Json) : Except String ℕ := do
  let n ← rt.parseInt value
  if n < 0 then .error "Input should be greater than or equal to 0" else .ok n.toNat

def errorsOf {α : Type} : Except ErrorDetail α → List ErrorDetail
  | .ok _ => []
  | .error detail => [detail]

/-- `ExpenseSyncIn.model_validate`: all fields are tried and all errors reported, in field order. -/
def modelValidate (rt : Runtime) (raw : RawRecord) : Except (List ErrorDetail) ExpenseSyncIn :=
  let id := required rt.parseUuid raw "id"
  let deviceId := required rt.parseUuid raw "device_id"
  let amountOriginal := required rt.parseDecimal raw "amount_original"
  let currencyOriginal := required (parseCurrency rt) raw "currency_original"
  let spentAt := required rt.parseDatetime raw "spent_at"
  let clientRev := required (parseClientRev rt) raw "client_rev"
  let category := optional rt.parseStr raw "category"
  let paymentMethod := optional rt.parseStr raw "payment_method"
  let merchant := optional rt.parseStr raw "merchant"
  let note := optional rt.parseStr raw "note"
  let rawTranscript := optional rt.parseStr raw "raw_transcript"
  let deletedAt := optional rt.parseDatetime raw "deleted_at"
  let record : Except ErrorDetail ExpenseSyncIn := do
    return ⟨← id, ← deviceId, ← amountOriginal, ← currencyOriginal, ← spentAt, ← clientRev,
      ← category, ← paymentMethod, ← merchant, ← note, ← rawTranscript, ← deletedAt⟩
  match record with
  | .ok record => .ok record
  | .error _ => .error (errorsOf id ++ errorsOf deviceId ++ errorsOf amountOriginal ++
      errorsOf currencyOriginal ++ errorsOf spentAt ++ errorsOf clientRev ++ errorsOf category ++
      errorsOf paymentMethod ++ errorsOf merchant ++ errorsOf note ++ errorsOf rawTranscript ++
      errorsOf deletedAt)

/-- `_first_error_reason`. -/
def firstErrorReason : List ErrorDetail → String
  | [] => "invalid record"
  | first :: _ =>
    let loc := ".".intercalate first.loc
    if loc = "" then first.msg else loc ++ ": " ++ first.msg

/-! ## Writing a record to its columns -/

/-- A datetime written to a `timestamptz` column: the driver converts it to UTC, which fails
outside years 1 to 9999. -/
def DateTime.instant (rt : Runtime) (d : DateTime) : Option Instant :=
  match d.utcOffset with
  | some offset => if representable (d.wall - offset) then some (d.wall - offset) else none
  | none => rt.localInstant d.wall

def optionalInstant (rt : Runtime) : Option DateTime → Option (Option Instant)
  | none => some none
  | some d => (d.instant rt).map some

namespace ExpenseSyncIn

/-- Every text of a record fits its column. -/
def textsFit (r : ExpenseSyncIn) : Bool :=
  textFits r.currencyOriginal && optionalTextFits r.category && optionalTextFits r.paymentMethod &&
    optionalTextFits r.merchant && optionalTextFits r.note && optionalTextFits r.rawTranscript

/-- The client columns a record is stored as, or `none` when the statement raises. -/
def toColumns (rt : Runtime) (r : ExpenseSyncIn) : Option ClientColumns := do
  let amountOriginal ← r.amountOriginal.toMoney
  let spentAt ← r.spentAt.instant rt
  let deletedAt ← optionalInstant rt r.deletedAt
  guard ((r.clientRev : ℤ) ≤ bigintMax ∧ r.textsFit)
  return ⟨amountOriginal, r.currencyOriginal, r.category, r.paymentMethod, r.merchant, r.note,
    spentAt, r.clientRev, r.rawTranscript, deletedAt⟩

/-- The columns keep the record's revision. -/
theorem clientRev_of_toColumns {rt : Runtime} {r : ExpenseSyncIn} {columns : ClientColumns}
    (h : r.toColumns rt = some columns) : columns.clientRev = r.clientRev := by
  simp only [toColumns, Option.bind_eq_bind, Option.bind_eq_some_iff, Option.pure_def] at h
  obtain ⟨_, _, _, _, _, _, _, _, hcolumns⟩ := h
  cases hcolumns
  rfl

end ExpenseSyncIn

/-! ## A concrete runtime

It reads ASCII text, integers and hyphenated or plain hexadecimal identifiers, and refuses
every other spelling; on what it reads it agrees with Python and pydantic. -/

namespace Runtime

def hexDigit (c : Char) : Option ℕ :=
  if '0' ≤ c ∧ c ≤ '9' then some (c.toNat - 48)
  else if 'a' ≤ c ∧ c ≤ 'f' then some (c.toNat - 87)
  else if 'A' ≤ c ∧ c ≤ 'F' then some (c.toNat - 55)
  else none

def hexUuid : Text → Option UUID
  | .surrogates .. => none
  | .unicode text =>
    let digits := text.toList.filter (· ≠ '-')
    if digits.length = 32 then
      (digits.foldlM (fun value c ↦ (hexDigit c).map (16 * value + ·)) 0).map
        fun value ↦ ⟨BitVec.ofNat 128 value⟩
    else none

/-- A function of ASCII text, which leaves all other text alone. -/
def mapText (f : String → String) : Text → Text
  | .unicode text => .unicode (f text)
  | .surrogates codes lone => .surrogates codes lone

def ascii : Runtime where
  strip := mapText fun s ↦ String.ofList ((s.toList.dropWhile (· = ' ')).reverse.dropWhile (· = ' ')).reverse
  upper := mapText fun s ↦ String.ofList (s.toList.map Char.toUpper)
  str
    | .str s => s
    | _ => ""
  uuid := hexUuid
  parseUuid
    | .str s => (hexUuid s).elim (.error "Input should be a valid UUID") .ok
    | _ => .error "UUID input should be a string, bytes or UUID object"
  parseDecimal
    | .int n => .ok ⟨n, 0⟩
    | _ => .error "Input should be a valid decimal"
  parseStr
    | .str s => .ok s
    | _ => .error "Input should be a valid string"
  parseDatetime
    | .int seconds => .ok ⟨seconds * 1000000, some 0⟩
    | _ => .error "Input should be a valid datetime"
  parseInt
    | .int n => .ok n
    | _ => .error "Input should be a valid integer"
  localInstant wall := if representable wall then some wall else none
  indexable text := decide (text.length ≤ 650)
  indexable_short _ := decide_eq_true

end Runtime

/-- A JSON record with the required fields only. -/
def sampleRecord (id deviceId : String) (amountOriginal clientRev : ℤ) : RawRecord :=
  [("id", .str id), ("device_id", .str deviceId), ("amount_original", .int amountOriginal),
    ("currency_original", .str "usd"), ("spent_at", .int 1789000000), ("client_rev", .int clientRev)]

end VoiceSpend
