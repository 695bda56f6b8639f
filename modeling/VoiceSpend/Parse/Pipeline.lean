import VoiceSpend.Parse.Extraction

/-!
# Does parsing ever raise?

`_run_extraction` turns every failure of the provider into the status `failed`, but what follows the
provider's call is outside its `try`: the metrics refuse a negative number of tokens, the response
refuses an amount that is not finite, and a converted amount of more than 28 digits cannot be quantized.
`Displayable` is the exact condition on the extraction, `TokensCounted` the one on the usage numbers; on
everything else the pipeline answers, and answers well-formed.

`Counter.inc` of the metrics library is a parameter; it is known by its documentation.
-/

namespace VoiceSpend

/-! ## The pipeline -/

structure ExtractionContext where
  baseCurrency : Text
  knownCategories : List Text
  referenceTime : DateTime

/-- How an awaited call of a provider ends. -/
inductive Awaited (α : Type)
  | returned (value : α)
  | raised (message : String)
  | timedOut

/-- A provider, configured with a model. -/
structure LLMExtractor where
  providerName : String
  modelName : String
  extract : Text → ExtractionContext → Awaited ExtractionResult

/-- The result of the call, whatever happened to it; a `TimeoutError` has no text. -/
def Awaited.extraction : Awaited ExtractionResult → ExtractionResult
  | .returned result => result
  | .raised message => ⟨none, some message, none, none⟩
  | .timedOut => ⟨none, some "", none, none⟩

/-- `categories`, as far as the prompt reads it. -/
structure Category where
  name : Text
  isSystem : Bool
  deriving DecidableEq, Repr

/-- `_known_category_names`. -/
def knownCategoryNames (categories : List Category) : List Text :=
  (categories.filter (·.isSystem)).map (·.name)

/-- What the extractor comes to on a request's text. -/
def LLMExtractor.outcome (extractor : LLMExtractor) (categories : List Category) (user : User)
    (text : Text) (referenceTime : DateTime) : ExtractionResult :=
  (extractor.extract text ⟨user.baseCurrency, knownCategoryNames categories, referenceTime⟩).extraction

/-- The least integer that has no `float`. -/
def floatLimit : ℤ := 2 ^ 1024 - 2 ^ 970

/-- What is documented of `Counter.inc`: it refuses a negative amount, and adds any other one to a
`float`. -/
def PrometheusCounter (inc : ℚ → Bool) : Prop :=
  ∀ amount, inc amount = true ↔ 0 ≤ amount ∧ amount < floatLimit

structure ModelPricing where
  inputPer1kUsd : ℚ
  outputPer1kUsd : ℚ

/-- `_PRICING`. -/
def pricing : List ((String × String) × ModelPricing) :=
  [(("anthropic", "claude-3-5-haiku-20241022"), ⟨0.0008, 0.004⟩),
    (("anthropic", "claude-3-5-sonnet-20241022"), ⟨0.003, 0.015⟩),
    (("gemini", "gemini-1.5-flash"), ⟨0.000075, 0.0003⟩),
    (("gemini", "gemini-2.0-flash"), ⟨0.0001, 0.0004⟩)]

/-- `tokens / 1000`, or `none` for `OverflowError`. -/
def perThousand (tokens : ℤ) : Option ℚ :=
  if (floatLimit : ℚ) ≤ |(tokens : ℚ) / 1000| then none else some (tokens / 1000)

/-- `estimate_cost_usd`, before it is rounded to a float; the inner `none` is an unknown cost. -/
def estimateCostUsd (provider model : String) : Option ℤ → Option ℤ → Option (Option ℚ)
  | some promptTokens, some completionTokens =>
    match pricing.lookup (provider, model) with
    | none => some none
    | some price => do
      let input ← perThousand promptTokens
      let output ← perThousand completionTokens
      return some (input * price.inputPer1kUsd + output * price.outputPer1kUsd)
  | _, _ => some none

/-- `record_parse_tokens`. -/
def recordParseTokens (inc : ℚ → Bool) : Option ℤ → Option Unit
  | none => some ()
  | some count => if count = 0 then some () else if inc count then some () else none

/-- `record_parse_cost`, on a known cost. -/
def recordParseCost (inc : ℚ → Bool) : Option ℚ → Option Unit
  | none => some ()
  | some cost => if 0 < cost then (if inc cost then some () else none) else some ()

/-- `_run_extraction`. -/
def runExtraction (rt : ParseRuntime) (inc : ℚ → Bool) (settings : ParseSettings)
    (categories : List Category) (rates : FxTable) (user : User) (text : Text) (referenceTime : DateTime)
    (extractor : LLMExtractor) (traceId : Option String) (entitlement : EntitlementSignal) :
    Option ParseResponse := do
  let outcome := extractor.outcome categories user text referenceTime
  let costUsd ← estimateCostUsd extractor.providerName extractor.modelName outcome.promptTokens
    outcome.completionTokens
  recordParseTokens inc outcome.promptTokens
  recordParseTokens inc outcome.completionTokens
  recordParseCost inc costUsd
  let answer ← toResponse rt settings rates user.baseCurrency (knownCategoryNames categories)
    referenceTime outcome
  return ⟨answer.1, answer.2, traceId, entitlement⟩

/-! ## When it answers -/

/-- The provider's token counts are missing, or numbers a counter can add. -/
def TokensCounted (outcome : ExtractionResult) : Prop :=
  ∀ count, outcome.promptTokens = some count ∨ outcome.completionTokens = some count →
    0 ≤ count ∧ count < floatLimit

/-- The amount is missing or finite; if it is converted, the product has at most 28 digits. -/
def Displayable (rt : ParseRuntime) (rates : FxTable) (baseCurrency : Text) (referenceTime : DateTime)
    (raw : RawExtraction) : Prop :=
  ∀ amount, raw.amount = some amount → ∃ shortest, amount = .finite shortest ∧
    ∀ currency, normalizeCurrencyCodeOrNone rt raw.currency = some currency → currency ≠ baseCurrency →
      ∀ rateFrom rateTo,
        ratePerUsd rates currency (parseSpentAt rt raw.spentAt referenceTime).date = some rateFrom →
          ratePerUsd rates baseCurrency (parseSpentAt rt raw.spentAt referenceTime).date = some rateTo →
            |decimalProduct shortest.decimal.toRat rateFrom rateTo| < 10 ^ 24 - 1 / 20000

/-- A response is present with the statuses that promise one, and its fields are well-formed. -/
structure ParseResponse.WellFormed (response : ParseResponse) : Prop where
  present : response.extraction.isSome ↔ response.status = .ok ∨ response.status = .lowConfidence
  amount : ∀ extraction amount, response.extraction = some extraction →
    extraction.amountOriginal = some amount → 0 ≤ amount.toRat
  currency : ∀ extraction currency, response.extraction = some extraction →
    extraction.currencyOriginal = some currency → currency.length = 3
  base : ∀ extraction, response.extraction = some extraction →
    extraction.amountOriginal = none ∨ extraction.currencyOriginal = none → extraction.amountBase = none

section

variable {rt : ParseRuntime} {inc : ℚ → Bool} {settings : ParseSettings} {rates : FxTable}
  {baseCurrency : Text} {knownCategories : List Text} {referenceTime : DateTime} {raw : RawExtraction}
  {outcome : ExtractionResult} {extraction : ExtractionOut}

/-! ### Conversion -/

theorem quantize_isSome (q : ℚ) : (quantize q).isSome ↔ |q| < 10 ^ 24 - 1 / 20000 := by
  have hunits := @Rounding.natAbs_halfEven_lt_iff (10 ^ decimalPrecision) (by norm_num [decimalPrecision])
    (q * 10 ^ 4)
  have hcast : (((10 ^ decimalPrecision : ℕ) : ℚ)) = 10 ^ 28 := by norm_num [decimalPrecision]
  rw [hcast, abs_mul, abs_of_pos (show (0 : ℚ) < 10 ^ 4 by norm_num)] at hunits
  have hquantize : (quantize q).isSome ↔ (Rounding.halfEven (q * 10 ^ 4)).natAbs < 10 ^ decimalPrecision := by
    unfold quantize
    dsimp only
    split
    · rename_i hfits
      exact iff_of_true rfl hfits
    · rename_i hwide
      exact iff_of_false Bool.false_ne_true hwide
  rw [hquantize, hunits]
  constructor <;> intro h <;> linarith

/-- With positive rates a conversion completes unless its product has too many digits. -/
theorem convert_isSome (hrates : PositiveRates rates) (amount : ℚ) (fromCurrency toCurrency : Text)
    (asOf : Date) : (convert rates amount fromCurrency toCurrency asOf).isSome ↔
      (fromCurrency ≠ toCurrency → ∀ rateFrom rateTo, ratePerUsd rates fromCurrency asOf = some rateFrom →
        ratePerUsd rates toCurrency asOf = some rateTo →
          |decimalProduct amount rateFrom rateTo| < 10 ^ 24 - 1 / 20000) := by
  unfold convert
  by_cases hsame : fromCurrency = toCurrency
  · simp [hsame]
  · rw [if_neg hsame]
    cases hfrom : ratePerUsd rates fromCurrency asOf with
    | none => simp
    | some rateFrom =>
      cases hto : ratePerUsd rates toCurrency asOf with
      | none => simp
      | some rateTo =>
        dsimp only
        rw [Option.isSome_map, convertAmount_eq amount rateTo (hrates.ratePerUsd_pos hfrom).ne',
          quantize_isSome]
        constructor
        · rintro h _ _ _ ⟨⟩ ⟨⟩
          exact h
        · intro h
          exact h hsame rateFrom rateTo rfl rfl

/-! ### The extraction -/

/-- The fields of a built extraction that were computed. -/
structure Built (rt : ParseRuntime) (rates : FxTable) (baseCurrency : Text) (referenceTime : DateTime)
    (raw : RawExtraction) (extraction : ExtractionOut) : Prop where
  amount : decimalField PyFloat.finite? raw.amount = some extraction.amountOriginal
  currency : extraction.currencyOriginal = normalizeCurrencyCodeOrNone rt raw.currency
  spentAt : extraction.spentAt = parseSpentAt rt raw.spentAt referenceTime
  base : (convertAmountOriginal rates baseCurrency extraction.spentAt.date raw.amount
    extraction.currencyOriginal).bind (decimalField DecimalValue.finite?) = some extraction.amountBase

theorem buildExtractionOut_built
    (h : buildExtractionOut rt rates baseCurrency knownCategories referenceTime raw = some extraction) :
    Built rt rates baseCurrency referenceTime raw extraction := by
  unfold buildExtractionOut at h
  simp only [Option.bind_eq_bind, Option.bind_eq_some_iff, Option.pure_def, Option.some.injEq] at h
  obtain ⟨converted, hconverted, amountOriginal, hamount, amountBase, hbase, rfl⟩ := h
  exact ⟨hamount, rfl, rfl, by rw [hconverted]; exact hbase⟩

/-- Building raises exactly when a step of it does. -/
theorem buildExtractionOut_isSome :
    (buildExtractionOut rt rates baseCurrency knownCategories referenceTime raw).isSome ↔
      (decimalField PyFloat.finite? raw.amount).isSome ∧
        ((convertAmountOriginal rates baseCurrency (parseSpentAt rt raw.spentAt referenceTime).date raw.amount
          (normalizeCurrencyCodeOrNone rt raw.currency)).bind
            (decimalField DecimalValue.finite?)).isSome := by
  unfold buildExtractionOut
  dsimp only
  cases convertAmountOriginal rates baseCurrency (parseSpentAt rt raw.spentAt referenceTime).date raw.amount
      (normalizeCurrencyCodeOrNone rt raw.currency) with
  | none => simp
  | some converted =>
    cases decimalField PyFloat.finite? raw.amount with
    | none => simp
    | some amountOriginal =>
      cases hbase : decimalField DecimalValue.finite? converted <;> simp [hbase]

/-- The value of a conversion of a finite amount passes the field it is put in. -/
theorem convertDecimal_finite (rates : FxTable) (amount : ℚ) (fromCurrency toCurrency : Text)
    (asOf : Date) :
    (convertDecimal rates (.finite amount) fromCurrency toCurrency asOf).bind
      (decimalField DecimalValue.finite?) = convert rates amount fromCurrency toCurrency asOf := by
  change ((convert rates amount fromCurrency toCurrency asOf).map (·.map DecimalValue.finite)).bind _ = _
  rcases convert rates amount fromCurrency toCurrency asOf with _ | _ | value <;> rfl

/-- The exact condition under which an extraction can be shown. -/
theorem buildExtractionOut_isSome_iff (hrates : PositiveRates rates) (raw : RawExtraction) :
    (buildExtractionOut rt rates baseCurrency knownCategories referenceTime raw).isSome ↔
      Displayable rt rates baseCurrency referenceTime raw := by
  rw [buildExtractionOut_isSome]
  unfold Displayable
  generalize (parseSpentAt rt raw.spentAt referenceTime).date = asOf
  generalize normalizeCurrencyCodeOrNone rt raw.currency = currency
  cases raw.amount with
  | none => simp [decimalField, convertAmountOriginal]
  | some amount =>
    cases amount with
    | infinity negative => simp [decimalField, PyFloat.finite?]
    | nan => simp [decimalField, PyFloat.finite?]
    | finite shortest =>
      have hfinite : (decimalField PyFloat.finite? (some (.finite shortest))).isSome = true := rfl
      cases currency with
      | none =>
        refine iff_of_true ⟨hfinite, rfl⟩ fun _ h ↦ ⟨shortest, (Option.some.inj h).symm, ?_⟩
        rintro code ⟨⟩
      | some code =>
        have hconvert : (convertAmountOriginal rates baseCurrency asOf (some (.finite shortest))
            (some code)).bind (decimalField DecimalValue.finite?) =
              convert rates shortest.decimal.toRat code baseCurrency asOf :=
          convertDecimal_finite rates shortest.decimal.toRat code baseCurrency asOf
        rw [hconvert, convert_isSome hrates]
        simp [hfinite]

/-- A shown extraction has the fields it promises. -/
theorem Built.amount_nonneg (h : Built rt rates baseCurrency referenceTime raw extraction) {amount : Decimal}
    (hamount : extraction.amountOriginal = some amount) : 0 ≤ amount.toRat := by
  have hfield := h.amount
  have haccepted := raw.amount_ge
  rw [hamount] at hfield
  cases hraw : raw.amount with
  | none =>
    rw [hraw] at hfield
    cases hfield
  | some value =>
    rw [hraw] at hfield
    obtain ⟨decimal, hdecimal, heq⟩ := Option.map_eq_some_iff.mp hfield
    cases heq
    have hge := haccepted value hraw
    cases value with
    | finite shortest =>
      cases hdecimal
      exact of_decide_eq_true hge
    | infinity negative => cases hdecimal
    | nan => cases hdecimal

theorem length_of_normalizeCurrencyCodeOrNone {value : Option Text} {code : Text}
    (h : normalizeCurrencyCodeOrNone rt value = some code) : code.length = 3 := by
  cases value with
  | none => cases h
  | some value =>
    dsimp only [normalizeCurrencyCodeOrNone] at h
    split at h
    · cases h
    · rename_i normalized _
      rw [Option.ite_none_left_eq_some, Option.some.injEq, not_or, not_not] at h
      obtain ⟨⟨hlength, _⟩, rfl⟩ := h
      rw [Text.length_unicode, hlength]

theorem Built.base_none (h : Built rt rates baseCurrency referenceTime raw extraction)
    (hmissing : extraction.amountOriginal = none ∨ extraction.currencyOriginal = none) :
    extraction.amountBase = none := by
  have hbase := h.base
  have hunconverted : convertAmountOriginal rates baseCurrency extraction.spentAt.date raw.amount
      extraction.currencyOriginal = some none := by
    rcases hmissing with hamount | hcurrency
    · have hfield := h.amount
      rw [hamount] at hfield
      cases hraw : raw.amount with
      | none => rfl
      | some value =>
        rw [hraw] at hfield
        obtain ⟨decimal, _, heq⟩ := Option.map_eq_some_iff.mp hfield
        cases heq
    · rw [hcurrency]
      cases raw.amount <;> rfl
  rw [hunconverted] at hbase
  exact (Option.some.inj hbase).symm

/-! ### The response -/

theorem confidenceStatus_cases (settings : ParseSettings) (confidence : PyFloat) :
    confidenceStatus settings confidence = .ok ∨ confidenceStatus settings confidence = .lowConfidence ∨
      confidenceStatus settings confidence = .failed := by
  unfold confidenceStatus
  split
  · exact .inl rfl
  · split
    · exact .inr (.inl rfl)
    · exact .inr (.inr rfl)

/-- Everything that `_to_response` returns. -/
theorem toResponse_cases {answer : ParseStatusLiteral × Option ExtractionOut}
    (h : toResponse rt settings rates baseCurrency knownCategories referenceTime outcome = some answer) :
    answer = (.failed, none) ∨ ∃ raw status extraction, answer = (status, some extraction) ∧
      (status = .ok ∨ status = .lowConfidence) ∧
        Built rt rates baseCurrency referenceTime raw extraction := by
  unfold toResponse at h
  split at h
  · exact .inl (Option.some.inj h).symm
  · rename_i raw _
    split at h
    · exact .inl (Option.some.inj h).symm
    · rename_i hanswered
      obtain ⟨extraction, hextraction, rfl⟩ := Option.map_eq_some_iff.mp h
      refine .inr ⟨raw, _, extraction, rfl, ?_, buildExtractionOut_built hextraction⟩
      rcases confidenceStatus_cases settings raw.confidence with hok | hlow | hfailed
      · exact .inl hok
      · exact .inr hlow
      · exact absurd hfailed hanswered

theorem toResponse_isSome_iff (hrates : PositiveRates rates) (settings : ParseSettings)
    (outcome : ExtractionResult) :
    (toResponse rt settings rates baseCurrency knownCategories referenceTime outcome).isSome ↔
      ∀ raw, outcome.raw = some raw → confidenceStatus settings raw.confidence ≠ .failed →
        Displayable rt rates baseCurrency referenceTime raw := by
  unfold toResponse
  cases outcome.raw with
  | none => simp
  | some raw =>
    dsimp only
    split
    · rename_i hfailed
      simp [hfailed]
    · rename_i hanswered
      rw [Option.isSome_map, buildExtractionOut_isSome_iff hrates]
      constructor
      · rintro h _ ⟨⟩ _
        exact h
      · intro h
        exact h raw rfl hanswered

/-- What `_to_response` returns is well-formed. -/
theorem wellFormed_of_toResponse {answer : ParseStatusLiteral × Option ExtractionOut}
    (h : toResponse rt settings rates baseCurrency knownCategories referenceTime outcome = some answer)
    (traceId : Option String) (entitlement : EntitlementSignal) :
    (ParseResponse.mk answer.1 answer.2 traceId entitlement).WellFormed := by
  rcases toResponse_cases h with rfl | ⟨raw, status, extraction, rfl, hstatus, hbuilt⟩
  · constructor <;> simp
  · constructor
    · exact iff_of_true rfl hstatus
    · rintro _ amount ⟨⟩ hamount
      exact hbuilt.amount_nonneg hamount
    · rintro _ currency ⟨⟩ hcurrency
      exact length_of_normalizeCurrencyCodeOrNone (hbuilt.currency.symm.trans hcurrency)
    · rintro _ ⟨⟩ hmissing
      exact hbuilt.base_none hmissing

/-! ### The metrics -/

theorem floatLimit_pos : 0 < floatLimit :=
  sub_pos.mpr (pow_lt_pow_right₀ (by norm_num) (by norm_num))

theorem recordParseTokens_isSome (hinc : PrometheusCounter inc) (count : Option ℤ) :
    (recordParseTokens inc count).isSome ↔ ∀ n, count = some n → 0 ≤ n ∧ n < floatLimit := by
  cases count with
  | none => simp [recordParseTokens]
  | some n =>
    have hcounter : inc n = true ↔ 0 ≤ n ∧ n < floatLimit := by
      rw [hinc]
      norm_cast
    unfold recordParseTokens
    by_cases hzero : n = 0
    · simp [hzero, floatLimit_pos]
    · by_cases haccepted : inc n = true
      · simpa [hzero, haccepted] using hcounter.mp haccepted
      · simpa [hzero, haccepted] using mt hcounter.mpr haccepted

/-- No price is negative, and a thousand tokens cost less than a dollar. -/
theorem pricing_bounds {key : String × String} {price : ModelPricing} (h : pricing.lookup key = some price) :
    0 ≤ price.inputPer1kUsd ∧ 0 ≤ price.outputPer1kUsd ∧ price.inputPer1kUsd + price.outputPer1kUsd ≤ 1 := by
  have hall : ∀ entry ∈ pricing, 0 ≤ entry.2.inputPer1kUsd ∧ 0 ≤ entry.2.outputPer1kUsd ∧
      entry.2.inputPer1kUsd + entry.2.outputPer1kUsd ≤ 1 := by
    decide +kernel
  obtain ⟨before, after, hlist, _⟩ := List.lookup_eq_some_iff.mp h
  exact hall (key, price) (by rw [hlist]; simp)

theorem perThousand_of_counted {count : ℤ} (hnonneg : 0 ≤ count) (hless : count < floatLimit) :
    perThousand count = some ((count : ℚ) / 1000) := by
  have hcast : (0 : ℚ) ≤ count ∧ (count : ℚ) < floatLimit := by exact_mod_cast And.intro hnonneg hless
  unfold perThousand
  rw [abs_of_nonneg (by linarith), if_neg (by linarith)]

/-- The cost of counted tokens can be computed and counted. -/
theorem recordParseCost_of_counted (hinc : PrometheusCounter inc) (provider model : String)
    (hcounted : TokensCounted outcome) :
    ((estimateCostUsd provider model outcome.promptTokens outcome.completionTokens).bind
      (recordParseCost inc)).isSome := by
  unfold estimateCostUsd
  split
  · rename_i promptTokens completionTokens hprompt hcompletion
    obtain ⟨hpromptNonneg, hpromptLess⟩ := hcounted promptTokens (.inl hprompt)
    obtain ⟨hcompletionNonneg, hcompletionLess⟩ := hcounted completionTokens (.inr hcompletion)
    split
    · rfl
    · rename_i price hprice
      obtain ⟨hinput, houtput, hsum⟩ := pricing_bounds hprice
      rw [perThousand_of_counted hpromptNonneg hpromptLess,
        perThousand_of_counted hcompletionNonneg hcompletionLess]
      have hp : (0 : ℚ) ≤ promptTokens ∧ (promptTokens : ℚ) < floatLimit := by
        exact_mod_cast And.intro hpromptNonneg hpromptLess
      have hc : (0 : ℚ) ≤ completionTokens ∧ (completionTokens : ℚ) < floatLimit := by
        exact_mod_cast And.intro hcompletionNonneg hcompletionLess
      have hlimit : (0 : ℚ) < floatLimit := by exact_mod_cast floatLimit_pos
      have haccepted := hinc (promptTokens / 1000 * price.inputPer1kUsd +
        completionTokens / 1000 * price.outputPer1kUsd)
      generalize (floatLimit : ℚ) = limit at hp hc hlimit haccepted
      simp only [Option.bind_eq_bind, Option.bind_some, Option.pure_def, recordParseCost]
      split
      · rename_i hpositive
        have hless : (promptTokens / 1000 * price.inputPer1kUsd +
            completionTokens / 1000 * price.outputPer1kUsd : ℚ) < limit := by
          calc (promptTokens / 1000 * price.inputPer1kUsd +
                completionTokens / 1000 * price.outputPer1kUsd : ℚ)
              ≤ limit / 1000 * price.inputPer1kUsd + limit / 1000 * price.outputPer1kUsd := by
                gcongr <;> linarith
            _ = limit / 1000 * (price.inputPer1kUsd + price.outputPer1kUsd) := by ring
            _ ≤ limit / 1000 * 1 := by gcongr
            _ < limit := by linarith
        rw [if_pos (haccepted.mpr ⟨hpositive.le, hless⟩)]
        rfl
      · rfl
  · rfl

end

section

variable {rt : ParseRuntime} {inc : ℚ → Bool} {settings : ParseSettings} {categories : List Category}
  {rates : FxTable} {user : User} {text : Text} {referenceTime : DateTime} {extractor : LLMExtractor}
  {traceId : Option String} {entitlement : EntitlementSignal} {response : ParseResponse}

/-- The pipeline answers exactly when the metrics and the post-processing do. -/
theorem runExtraction_isSome_iff (hinc : PrometheusCounter inc) :
    (runExtraction rt inc settings categories rates user text referenceTime extractor traceId
      entitlement).isSome ↔
      TokensCounted (extractor.outcome categories user text referenceTime) ∧
        (toResponse rt settings rates user.baseCurrency (knownCategoryNames categories) referenceTime
          (extractor.outcome categories user text referenceTime)).isSome := by
  unfold runExtraction
  dsimp only
  generalize extractor.outcome categories user text referenceTime = outcome
  have hprompt := recordParseTokens_isSome hinc outcome.promptTokens
  have hcompletion := recordParseTokens_isSome hinc outcome.completionTokens
  have hboth : TokensCounted outcome ↔ (recordParseTokens inc outcome.promptTokens).isSome ∧
      (recordParseTokens inc outcome.completionTokens).isSome := by
    rw [hprompt, hcompletion]
    constructor
    · intro h
      exact ⟨fun n hn ↦ h n (.inl hn), fun n hn ↦ h n (.inr hn)⟩
    · rintro ⟨hfirst, hsecond⟩ n (hn | hn)
      · exact hfirst n hn
      · exact hsecond n hn
  by_cases hcounted : TokensCounted outcome
  · have hcost := recordParseCost_of_counted hinc extractor.providerName extractor.modelName hcounted
    obtain ⟨hfirst, hsecond⟩ := hboth.mp hcounted
    obtain ⟨⟨⟩, hfirst⟩ := Option.isSome_iff_exists.mp hfirst
    obtain ⟨⟨⟩, hsecond⟩ := Option.isSome_iff_exists.mp hsecond
    obtain ⟨⟨⟩, hcost⟩ := Option.isSome_iff_exists.mp hcost
    obtain ⟨costUsd, hestimate, hrecord⟩ := Option.bind_eq_some_iff.mp hcost
    rw [hestimate, hfirst, hsecond]
    simp only [hrecord, hcounted, Option.bind_eq_bind, Option.bind_some, true_and]
    cases toResponse rt settings rates user.baseCurrency (knownCategoryNames categories) referenceTime
      outcome <;> rfl
  · refine iff_of_false ?_ fun h ↦ hcounted h.1
    rw [hboth, not_and_or, Option.not_isSome_iff_eq_none, Option.not_isSome_iff_eq_none] at hcounted
    cases estimateCostUsd extractor.providerName extractor.modelName outcome.promptTokens
        outcome.completionTokens with
    | none => simp
    | some costUsd =>
      rcases hcounted with hnone | hnone
      · simp [hnone]
      · cases recordParseTokens inc outcome.promptTokens <;> simp [hnone]

/-- A response carries the answer of `_to_response`. -/
theorem toResponse_of_runExtraction (h : runExtraction rt inc settings categories rates user text
    referenceTime extractor traceId entitlement = some response) :
    toResponse rt settings rates user.baseCurrency (knownCategoryNames categories) referenceTime
        (extractor.outcome categories user text referenceTime) = some (response.status, response.extraction) ∧
      response = ⟨response.status, response.extraction, traceId, entitlement⟩ := by
  unfold runExtraction at h
  simp only [Option.bind_eq_bind, Option.bind_eq_some_iff, Option.pure_def, Option.some.injEq] at h
  obtain ⟨_, _, _, _, _, _, _, _, answer, hanswer, rfl⟩ := h
  exact ⟨hanswer, rfl⟩

/-- An answer is well-formed. -/
theorem runExtraction_wellFormed (h : runExtraction rt inc settings categories rates user text referenceTime
    extractor traceId entitlement = some response) : response.WellFormed := by
  obtain ⟨hanswer, heq⟩ := toResponse_of_runExtraction h
  rw [heq]
  exact wellFormed_of_toResponse hanswer traceId entitlement

/-- Extraction never answers `quota_exceeded`. -/
theorem status_of_runExtraction (h : runExtraction rt inc settings categories rates user text referenceTime
    extractor traceId entitlement = some response) : response.status ≠ .quotaExceeded := by
  rcases toResponse_cases (toResponse_of_runExtraction h).1 with heq | ⟨_, status, _, heq, hstatus, _⟩
  · rw [(Prod.mk.inj heq).1]
    simp
  · rw [(Prod.mk.inj heq).1]
    rcases hstatus with rfl | rfl <;> simp

end

/-- Parsing answers, with a well-formed response, exactly when the token counts can be counted and an
extraction that is confident enough can be displayed. -/
theorem parsing_answers_iff (rt : ParseRuntime) (inc : ℚ → Bool) (settings : ParseSettings)
    (categories : List Category) (rates : FxTable) (user : User) (text : Text) (referenceTime : DateTime)
    (extractor : LLMExtractor) (traceId : Option String) (entitlement : EntitlementSignal)
    (hinc : PrometheusCounter inc) (hrates : PositiveRates rates) :
    (∃ response, runExtraction rt inc settings categories rates user text referenceTime extractor traceId
        entitlement = some response ∧ response.WellFormed) ↔
      TokensCounted (extractor.outcome categories user text referenceTime) ∧
        ∀ raw, (extractor.outcome categories user text referenceTime).raw = some raw →
          confidenceStatus settings raw.confidence ≠ .failed →
            Displayable rt rates user.baseCurrency referenceTime raw := by
  have hanswers := @runExtraction_isSome_iff rt inc settings categories rates user text referenceTime
    extractor traceId entitlement hinc
  rw [toResponse_isSome_iff hrates] at hanswers
  rw [← hanswers]
  constructor
  · rintro ⟨response, hresponse, _⟩
    rw [hresponse]
    rfl
  · intro hsome
    obtain ⟨response, hresponse⟩ := Option.isSome_iff_exists.mp hsome
    exact ⟨response, hresponse, runExtraction_wellFormed hresponse⟩

/-! ## An infinite amount -/

/-- The metrics library, on its documentation. -/
def documentedCounter (amount : ℚ) : Bool := decide (0 ≤ amount ∧ amount < floatLimit)

theorem documentedCounter_prometheus : PrometheusCounter documentedCounter := fun _ ↦ decide_eq_true_iff

/-- The confidence 0.9. -/
def confident : PyFloat := .finite ⟨⟨9, -1⟩, by decide, by decide, by decide⟩

theorem confident_ge : confident.atLeast 0 = true := by decide +kernel

theorem confident_le : confident.atMost 1 = true := by decide +kernel

/-- An extraction of some dollars. -/
def dollars (amount : PyFloat) (haccepted : amount.atLeast 0 = true) : RawExtraction where
  amount := some amount
  currency := some "usd"
  category := none
  paymentMethod := none
  merchant := none
  spentAt := none
  confidence := confident
  amount_ge := by
    rintro _ ⟨⟩
    exact haccepted
  confidence_ge := confident_ge
  confidence_le := confident_le

/-- A model that extracts the same from every text. -/
def constantExtractor (raw : RawExtraction) : LLMExtractor where
  providerName := "anthropic"
  modelName := "claude-3-5-haiku-20241022"
  extract _ _ := .returned ⟨some raw, none, some 10, some 5⟩

/-- A user on the free tier. -/
def freeSignal : EntitlementSignal := ⟨.free, .active, ⟨2026, 9⟩, 0, some 20, false⟩

/-- An infinite amount passes the schema of the extraction and is refused by the one of the response. -/
theorem parsing_raises : ¬ ∀ (rt : ParseRuntime) (inc : ℚ → Bool) (settings : ParseSettings)
    (categories : List Category) (rates : FxTable) (user : User) (text : Text) (referenceTime : DateTime)
    (extractor : LLMExtractor) (traceId : Option String) (entitlement : EntitlementSignal),
    PrometheusCounter inc → PositiveRates rates →
      ∃ response, runExtraction rt inc settings categories rates user text referenceTime extractor traceId
        entitlement = some response ∧ response.WellFormed := by
  intro hanswers
  obtain ⟨response, hresponse, _⟩ := hanswers .ascii documentedCounter sampleParseSettings [] dinarRates
    ⟨"USD"⟩ "coffee" ⟨0, some 0⟩ (constantExtractor (dollars (.infinity false) rfl)) none freeSignal
    documentedCounter_prometheus dinarRates_positive
  have hraises : (runExtraction .ascii documentedCounter sampleParseSettings [] dinarRates ⟨"USD"⟩ "coffee"
      ⟨0, some 0⟩ (constantExtractor (dollars (.infinity false) rfl)) none freeSignal).isSome = false := by
    decide +kernel
  rw [hresponse] at hraises
  cases hraises

/-- Four dollars and a half are displayed. -/
theorem parsing_answers_iff_sample : ∃ response, runExtraction .ascii documentedCounter sampleParseSettings
    [] dinarRates ⟨"USD"⟩ "coffee" ⟨0, some 0⟩
    (constantExtractor (dollars (.finite ⟨⟨45, -1⟩, by decide, by decide, by decide⟩)
      (by decide +kernel))) none
    freeSignal = some response ∧ response.WellFormed := by
  refine (parsing_answers_iff .ascii documentedCounter sampleParseSettings [] dinarRates ⟨"USD"⟩ "coffee"
    ⟨0, some 0⟩ _ none freeSignal documentedCounter_prometheus dinarRates_positive).mpr ⟨?_, ?_⟩
  · rintro count (⟨⟨⟩⟩ | ⟨⟨⟩⟩) <;> decide +kernel
  · rintro _ ⟨⟩ _ amount ⟨⟩
    refine ⟨_, rfl, fun currency hcurrency hne ↦ ?_⟩
    have husd : normalizeCurrencyCodeOrNone .ascii (some "usd") = some "USD" := by decide +kernel
    cases husd.symm.trans hcurrency
    exact absurd rfl hne

end VoiceSpend
