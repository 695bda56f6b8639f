import VoiceSpend.Store.Rows

/-!
# Currency conversion

`convert` pivots through USD with the latest rates known on the day. It runs two queries, so
its arithmetic is a function of its own, `convertAmount`, on the two rates that were read.
Two codes are the same to a query if they are so without the blanks at their end. The arithmetic is
Python's `Decimal`: 28 significant digits, ties to even; a division by zero and a quotient too wide to
quantize raise, which is the outer `none`.
-/

namespace VoiceSpend

/-- The rows of the currency on or before the day, the latest first. -/
def knownRates (rates : FxTable) (currencyCode : Text) (asOf : Date) : List ((Text × Date) × FxRate) :=
  ((Table.rows rates).filter fun row ↦ row.1.1 = currencyCode.unpadded ∧ row.1.2 ≤ asOf).insertionSort
    fun first second ↦ second.1.2 ≤ first.1.2

/-- `_rate_per_usd`. -/
def ratePerUsd (rates : FxTable) (currencyCode : Text) (asOf : Date) : Option ℚ :=
  if currencyCode = "USD" then some 1
  else (knownRates rates currencyCode asOf).head?.map fun row ↦ row.2.ratePerUsd.toRat

/-- Significant digits of the default decimal context. -/
def decimalPrecision : ℕ := 28

/-- A `Decimal` quantized to four digits after the point, or `none` for `InvalidOperation`. -/
def quantize (q : ℚ) : Option ℚ :=
  let units := Rounding.halfEven (q * 10 ^ 4)
  if units.natAbs < 10 ^ decimalPrecision then some (units / 10 ^ 4) else none

/-- `(amount * (rate_to / rate_from)).quantize(_QUANTIZE)`. -/
def convertAmount (amount rateFrom rateTo : ℚ) : Option ℚ :=
  if rateFrom = 0 then none
  else
    let ratio := Rounding.toDigits 10 decimalPrecision (rateTo / rateFrom)
    quantize (Rounding.toDigits 10 decimalPrecision (amount * ratio))

/-- `convert`: outer `none` when the arithmetic raises, inner `none` when a rate is missing. -/
def convert (rates : FxTable) (amount : ℚ) (fromCurrency toCurrency : Text) (asOf : Date) :
    Option (Option ℚ) :=
  if fromCurrency = toCurrency then some (some amount)
  else match ratePerUsd rates fromCurrency asOf with
    | none => some none
    | some rateFrom =>
      match ratePerUsd rates toCurrency asOf with
      | none => some none
      | some rateTo => (convertAmount amount rateFrom rateTo).map some

/-- `upsert_rates`, one statement and its commit. -/
def upsertRates (rates : FxTable) (quotes : List (Text × Rate)) (rateDate : Date) (source : String) :
    FxTable :=
  quotes.foldl (fun table quote ↦ table.insert (quote.1, rateDate) ⟨quote.2, some source⟩) rates

theorem mem_knownRates {rates : FxTable} {currencyCode : Text} {asOf rateDate : Date} {code : Text}
    {row : FxRate} : ((code, rateDate), row) ∈ knownRates rates currencyCode asOf ↔
      rates.lookup (code, rateDate) = some row ∧ code = currencyCode.unpadded ∧ rateDate ≤ asOf := by
  unfold knownRates
  rw [List.mem_insertionSort, List.mem_filter, Table.mem_rows, decide_eq_true_eq]

/-- A rate is one stored for the currency on a day not after `asOf`, and no stored rate of the
currency is later. -/
theorem ratePerUsd_latest {rates : FxTable} {currencyCode : Text} {asOf : Date} {rate : ℚ}
    (hcode : currencyCode ≠ "USD") (h : ratePerUsd rates currencyCode asOf = some rate) :
    ∃ rateDate row, rates.lookup (currencyCode.unpadded, rateDate) = some row ∧ row.ratePerUsd.toRat = rate ∧
      rateDate ≤ asOf ∧
        ∀ other, other ≤ asOf → (rates.lookup (currencyCode.unpadded, other)).isSome → other ≤ rateDate := by
  unfold ratePerUsd at h
  rw [if_neg hcode] at h
  obtain ⟨⟨⟨code, rateDate⟩, row⟩, hhead, rfl⟩ := Option.map_eq_some_iff.mp h
  obtain ⟨hrow, rfl, hdate⟩ := mem_knownRates.mp (List.mem_of_head? hhead)
  refine ⟨rateDate, row, hrow, rfl, hdate, fun other hother hsome ↦ ?_⟩
  obtain ⟨otherRow, hotherRow⟩ := Option.isSome_iff_exists.mp hsome
  have hknown := mem_knownRates.mpr ⟨hotherRow, rfl, hother⟩
  have htotal : Std.Total fun first second : (Text × Date) × FxRate ↦ second.1.2 ≤ first.1.2 :=
    ⟨fun first second ↦ le_total _ _⟩
  have htrans : IsTrans ((Text × Date) × FxRate) fun first second ↦ second.1.2 ≤ first.1.2 :=
    ⟨fun _ _ _ hfirst hsecond ↦ hsecond.trans hfirst⟩
  have hsorted : (knownRates rates currencyCode asOf).Pairwise fun first second ↦ second.1.2 ≤ first.1.2 :=
    List.pairwise_insertionSort _ _
  obtain ⟨rest, hlist⟩ := List.head?_eq_some_iff.mp hhead
  rw [hlist] at hknown hsorted
  rcases List.mem_cons.mp hknown with heq | hrest
  · cases heq
    exact le_rfl
  · exact (List.pairwise_cons.mp hsorted).1 _ hrest

theorem quantize_eq_some {q value : ℚ} (h : quantize q = some value) :
    value = Rounding.halfEven (q * 10 ^ 4) / 10 ^ 4 := by
  unfold quantize at h
  dsimp only at h
  split at h
  · exact (Option.some.inj h).symm
  · cases h

/-- A conversion between two currencies has read both rates. -/
theorem rates_of_convert {rates : FxTable} {amount value : ℚ} {fromCurrency toCurrency : Text}
    {asOf : Date} (hne : fromCurrency ≠ toCurrency)
    (h : convert rates amount fromCurrency toCurrency asOf = some (some value)) :
    ∃ rateFrom rateTo, ratePerUsd rates fromCurrency asOf = some rateFrom ∧
      ratePerUsd rates toCurrency asOf = some rateTo ∧ convertAmount amount rateFrom rateTo = some value := by
  unfold convert at h
  rw [if_neg hne] at h
  split at h
  · cases h
  · rename_i rateFrom hfrom
    split at h
    · cases h
    · rename_i rateTo hto
      obtain ⟨result, hresult, heq⟩ := Option.map_eq_some_iff.mp h
      cases heq
      exact ⟨rateFrom, rateTo, hfrom, hto, hresult⟩

/-- A converted amount has four digits after the point, so a money column stores it exactly. -/
theorem convert_scale {rates : FxTable} {amount : Money} {fromCurrency toCurrency : Text} {asOf : Date}
    {value : ℚ} (h : convert rates amount.toRat fromCurrency toCurrency asOf = some (some value)) :
    ∃ units : ℤ, value = units / 10 ^ 4 := by
  by_cases hsame : fromCurrency = toCurrency
  · rw [convert, if_pos hsame] at h
    exact ⟨amount.units, (Option.some.inj (Option.some.inj h)).symm⟩
  · obtain ⟨rateFrom, rateTo, _, _, hvalue⟩ := rates_of_convert hsame h
    unfold convertAmount at hvalue
    split at hvalue
    · cases hvalue
    · exact ⟨_, quantize_eq_some hvalue⟩

/-- The stored value of a converted amount is the converted amount. -/
theorem toRat_of_convert {rates : FxTable} {amount stored : Money} {fromCurrency toCurrency : Text}
    {asOf : Date} {value : ℚ}
    (h : convert rates amount.toRat fromCurrency toCurrency asOf = some (some value))
    (hstored : Numeric.ofRat 18 4 value = some stored) : stored.toRat = value := by
  obtain ⟨units, hunits⟩ := convert_scale h
  exact Numeric.ofRat_exact hunits hstored

/-- With the first rate unchanged, the second query completes the conversion. -/
theorem convert_of_rates {rates : FxTable} {amount rateFrom rateTo value : ℚ}
    {fromCurrency toCurrency : Text} {asOf : Date} (hne : fromCurrency ≠ toCurrency)
    (hfrom : ratePerUsd rates fromCurrency asOf = some rateFrom)
    (hto : ratePerUsd rates toCurrency asOf = some rateTo)
    (hvalue : convertAmount amount rateFrom rateTo = some value) :
    convert rates amount fromCurrency toCurrency asOf = some (some value) := by
  unfold convert
  rw [if_neg hne, hfrom, hto]
  simp only [hvalue, Option.map_some]

/-- One of the two rates of a conversion is not known on the day. -/
def RateMissing (rates : FxTable) (fromCurrency toCurrency : Text) (asOf : Date) : Prop :=
  ratePerUsd rates fromCurrency asOf = none ∨ ratePerUsd rates toCurrency asOf = none

theorem RateMissing.not_known {rates : FxTable} {fromCurrency toCurrency : Text} {asOf : Date}
    {rateFrom rateTo : ℚ}
    (h : RateMissing rates fromCurrency toCurrency asOf) :
    ¬ (ratePerUsd rates fromCurrency asOf = some rateFrom ∧
      ratePerUsd rates toCurrency asOf = some rateTo) := by
  rintro ⟨hfrom, hto⟩
  rcases h with hnone | hnone
  · cases hnone.symm.trans hfrom
  · cases hnone.symm.trans hto

/-- A conversion that finds no rate. -/
theorem convert_none_iff {rates : FxTable} {amount : ℚ} {fromCurrency toCurrency : Text}
    (hne : fromCurrency ≠ toCurrency) (asOf : Date) :
    convert rates amount fromCurrency toCurrency asOf = some none ↔
      RateMissing rates fromCurrency toCurrency asOf := by
  unfold convert RateMissing
  rw [if_neg hne]
  cases ratePerUsd rates fromCurrency asOf with
  | none => simp
  | some rateFrom =>
    cases ratePerUsd rates toCurrency asOf with
    | none => simp
    | some rateTo => simp

/-- A rate is the same on two days with no rate of the currency between them. -/
theorem ratePerUsd_eq_of_no_rate_between {rates : FxTable} {code : Text} {first second : Date}
    (h : ∀ rateDate, (rates.lookup (code.unpadded, rateDate)).isSome →
      (rateDate ≤ first ↔ rateDate ≤ second)) :
    ratePerUsd rates code first = ratePerUsd rates code second := by
  have hrows : (Table.rows rates).filter (fun row ↦ row.1.1 = code.unpadded ∧ row.1.2 ≤ first) =
      (Table.rows rates).filter fun row ↦ row.1.1 = code.unpadded ∧ row.1.2 ≤ second := by
    apply List.filter_congr
    rintro ⟨⟨other, rateDate⟩, row⟩ hmem
    have hsome : (rates.lookup (other, rateDate)).isSome := by
      rw [Table.mem_rows.mp hmem]
      rfl
    rw [decide_eq_decide]
    constructor
    · rintro ⟨rfl, hle⟩
      exact ⟨rfl, (h rateDate hsome).mp hle⟩
    · rintro ⟨rfl, hle⟩
      exact ⟨rfl, (h rateDate hsome).mpr hle⟩
  unfold ratePerUsd knownRates
  rw [hrows]

/-- Two days convert alike when no rate of either currency lies between them. -/
theorem convert_eq_of_no_rate_between {rates : FxTable} {fromCurrency toCurrency : Text}
    {first second : Date} (amount : ℚ)
    (hbetween : ∀ code rateDate, code = fromCurrency ∨ code = toCurrency →
      (rates.lookup (code.unpadded, rateDate)).isSome → (rateDate ≤ first ↔ rateDate ≤ second)) :
    convert rates amount fromCurrency toCurrency first =
      convert rates amount fromCurrency toCurrency second := by
  have hfrom := ratePerUsd_eq_of_no_rate_between fun rateDate ↦ hbetween fromCurrency rateDate (.inl rfl)
  have hto := ratePerUsd_eq_of_no_rate_between fun rateDate ↦ hbetween toCurrency rateDate (.inr rfl)
  unfold convert
  rw [hfrom, hto]

end VoiceSpend
