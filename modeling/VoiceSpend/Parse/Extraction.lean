import VoiceSpend.Fx.Overflow
import VoiceSpend.Metering.Signal
import VoiceSpend.Sync.Schema

/-!
# From a model's output to a response

The post-processing of the parse pipeline: what a provider returned is untrusted, `RawExtraction` is
what its schema lets through, and `_to_response` turns it into the `ExtractionOut` a client sees. A
float field of the schema lets infinities through; a `Decimal` field of the response does not.
An exception that escapes is the outer `none`.
-/

namespace VoiceSpend

/-! ## Floats -/

/-- A finite Python `float`, by the digits of its `repr`. -/
structure FloatRepr where
  decimal : Decimal
  digits : decimal.coeff.natAbs < 10 ^ 17
  exp_ge : -324 ≤ decimal.exp
  exp_le : decimal.exp ≤ 308
  deriving DecidableEq, Repr

/-- A Python `float`. -/
inductive PyFloat
  | finite (shortest : FloatRepr)
  | infinity (negative : Bool)
  | nan
  deriving DecidableEq, Repr

/-- The value of a Python `Decimal`. -/
inductive DecimalValue
  | finite (value : ℚ)
  | infinity (negative : Bool)
  | nan
  deriving DecidableEq, Repr

namespace PyFloat

/-- `x >= bound`; a NaN compares false with everything. -/
def atLeast (bound : ℚ) : PyFloat → Bool
  | .finite shortest => decide (bound ≤ shortest.decimal.toRat)
  | .infinity negative => !negative
  | .nan => false

/-- `x <= bound`. -/
def atMost (bound : ℚ) : PyFloat → Bool
  | .finite shortest => decide (shortest.decimal.toRat ≤ bound)
  | .infinity negative => negative
  | .nan => false

/-- `Decimal(str(x))`, as far as arithmetic sees it. -/
def value : PyFloat → DecimalValue
  | .finite shortest => .finite shortest.decimal.toRat
  | .infinity negative => .infinity negative
  | .nan => .nan

/-- The finite `Decimal(str(x))`. -/
def finite? : PyFloat → Option Decimal
  | .finite shortest => some shortest.decimal
  | .infinity _ | .nan => none

end PyFloat

def DecimalValue.finite? : DecimalValue → Option ℚ
  | .finite value => some value
  | .infinity _ | .nan => none

/-! ## Schemas -/

/-- What a provider may return: pydantic takes an amount from zero on, and a confidence from zero to one. -/
structure RawExtraction where
  amount : Option PyFloat
  currency : Option Text
  category : Option Text
  paymentMethod : Option Text
  merchant : Option Text
  spentAt : Option Text
  confidence : PyFloat
  amount_ge : ∀ value, amount = some value → value.atLeast 0 = true
  confidence_ge : confidence.atLeast 0 = true
  confidence_le : confidence.atMost 1 = true

structure ExtractionResult where
  raw : Option RawExtraction
  error : Option String
  promptTokens : Option ℤ
  completionTokens : Option ℤ

structure ExtractionOut where
  amountOriginal : Option Decimal
  currencyOriginal : Option Text
  amountBase : Option ℚ
  currencyBase : Option Text
  category : Option Text
  categoryIsKnown : Bool
  paymentMethod : Option Text
  merchant : Option Text
  spentAt : DateTime
  confidence : PyFloat
  confidence_ge : confidence.atLeast 0 = true
  confidence_le : confidence.atMost 1 = true
  deriving DecidableEq

/-- `ParseStatusLiteral`. -/
inductive ParseStatusLiteral
  | ok
  | lowConfidence
  | failed
  | quotaExceeded
  deriving DecidableEq, Repr

structure ParseResponse where
  status : ParseStatusLiteral
  extraction : Option ExtractionOut
  traceId : Option String
  entitlement : EntitlementSignal

/-- The settings of the parse endpoints. -/
structure ParseSettings where
  parseMaxTextLength : ℕ
  maxAudioBytes : ℕ
  confidenceOkThreshold : ℚ
  confidenceLowThreshold : ℚ

/-- The defaults. -/
def sampleParseSettings : ParseSettings where
  parseMaxTextLength := 500
  maxAudioBytes := 5 * 1024 * 1024
  confidenceOkThreshold := 3 / 4
  confidenceLowThreshold := 2 / 5

/-- Python's text predicates and `datetime.fromisoformat`, with `none` for `ValueError`. No surrogate is a
letter, so that `isalpha` is asked of Unicode text only. -/
structure ParseRuntime extends Runtime where
  isAlpha : String → Bool
  casefold : Text → Text
  fromIsoformat : Text → Option DateTime

/-- ASCII text, and no spelling of a date. -/
def ParseRuntime.ascii : ParseRuntime where
  toRuntime := .ascii
  isAlpha s := !s.isEmpty && s.toList.all Char.isAlpha
  casefold := Runtime.mapText fun s ↦ String.ofList (s.toList.map Char.toLower)
  fromIsoformat _ := none

/-! ## Post-processing -/

/-- `normalize_currency_code_or_none`. -/
def normalizeCurrencyCodeOrNone (rt : ParseRuntime) : Option Text → Option Text
  | none => none
  | some value =>
    match rt.upper (rt.strip value) with
    | .surrogates .. => none
    | .unicode normalized =>
      if normalized.length ≠ 3 ∨ rt.isAlpha normalized = false then none else some (.unicode normalized)

/-- `_match_category`. -/
def matchCategory (rt : ParseRuntime) (rawCategory : Option Text) (known : List Text) :
    Option Text × Bool :=
  match rawCategory with
  | none => (none, false)
  | some category =>
    match known.find? fun name ↦ rt.casefold name = rt.casefold category with
    | some name => (some name, true)
    | none => (some category, false)

/-- `_parse_spent_at`; a naive time is read in the zone of the reference time. -/
def parseSpentAt (rt : ParseRuntime) (rawSpentAt : Option Text) (referenceTime : DateTime) : DateTime :=
  match rawSpentAt.bind rt.fromIsoformat with
  | none => referenceTime
  | some parsed =>
    match parsed.utcOffset with
    | some _ => parsed
    | none => { parsed with utcOffset := some (referenceTime.utcOffset.getD 0) }

/-- `datetime.date()`: the calendar day of the wall clock. -/
def DateTime.date (d : DateTime) : Date := Instant.date d.wall

/-- `(amount * ratio).quantize(_QUANTIZE)` of an amount that is not finite: an infinity has no digits to
quantize, a NaN is its own result. -/
def quantizeSpecial : DecimalValue → Option DecimalValue
  | .nan => some .nan
  | .finite _ | .infinity _ => none

/-- `convert`, on any amount. -/
def convertDecimal (rates : FxTable) (amount : DecimalValue) (fromCurrency toCurrency : Text)
    (asOf : Date) : Option (Option DecimalValue) :=
  match amount with
  | .finite value => (convert rates value fromCurrency toCurrency asOf).map (·.map .finite)
  | special =>
    if fromCurrency = toCurrency then some (some special)
    else match ratePerUsd rates fromCurrency asOf with
      | none => some none
      | some rateFrom =>
        match ratePerUsd rates toCurrency asOf with
        | none => some none
        | some _ => if rateFrom = 0 then none else (quantizeSpecial special).map some

/-- A field `Decimal | None`: a value that is not finite raises a `ValidationError`. -/
def decimalField {α β : Type} (finite? : α → Option β) : Option α → Option (Option β)
  | none => some none
  | some value => (finite? value).map some

/-- `amount_base` before it is validated. -/
def convertAmountOriginal (rates : FxTable) (baseCurrency : Text) (asOf : Date) :
    Option PyFloat → Option Text → Option (Option DecimalValue)
  | some amount, some currency => convertDecimal rates amount.value currency baseCurrency asOf
  | _, _ => some none

/-- `_build_extraction_out`. -/
def buildExtractionOut (rt : ParseRuntime) (rates : FxTable) (baseCurrency : Text)
    (knownCategories : List Text) (referenceTime : DateTime) (raw : RawExtraction) :
    Option ExtractionOut := do
  let currencyOriginal := normalizeCurrencyCodeOrNone rt raw.currency
  let spentAt := parseSpentAt rt raw.spentAt referenceTime
  let category := matchCategory rt raw.category knownCategories
  let converted ← convertAmountOriginal rates baseCurrency spentAt.date raw.amount currencyOriginal
  let amountOriginal ← decimalField PyFloat.finite? raw.amount
  let amountBase ← decimalField DecimalValue.finite? converted
  return {
    amountOriginal := amountOriginal
    currencyOriginal := currencyOriginal
    amountBase := amountBase
    currencyBase := some baseCurrency
    category := category.1
    categoryIsKnown := category.2
    paymentMethod := raw.paymentMethod
    merchant := raw.merchant
    spentAt := spentAt
    confidence := raw.confidence
    confidence_ge := raw.confidence_ge
    confidence_le := raw.confidence_le }

/-- The status a confidence stands for. -/
def confidenceStatus (settings : ParseSettings) (confidence : PyFloat) : ParseStatusLiteral :=
  if confidence.atLeast settings.confidenceOkThreshold then .ok
  else if confidence.atLeast settings.confidenceLowThreshold then .lowConfidence
  else .failed

/-- `_to_response`. -/
def toResponse (rt : ParseRuntime) (settings : ParseSettings) (rates : FxTable) (baseCurrency : Text)
    (knownCategories : List Text) (referenceTime : DateTime) (outcome : ExtractionResult) :
    Option (ParseStatusLiteral × Option ExtractionOut) :=
  match outcome.raw with
  | none => some (.failed, none)
  | some raw =>
    if confidenceStatus settings raw.confidence = .failed then some (.failed, none)
    else (buildExtractionOut rt rates baseCurrency knownCategories referenceTime raw).map fun extraction ↦
      (confidenceStatus settings raw.confidence, some extraction)

end VoiceSpend
