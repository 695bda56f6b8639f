import VoiceSpend.Fx.Ingest
import VoiceSpend.Fx.Overflow

/-!
# The error of a cross rate

A conversion between two currencies of one snapshot is off from the quotient of their quotes by
what four roundings add: the 28-digit division by the USD leg and the eighth decimal of the stored
rates, the 28-digit ratio and product, and the fourth decimal of the result. The base currency of
the payload cancels.
-/

namespace VoiceSpend

/-- The quote of a code; when the payload is quoted against USD, one dollar is one dollar. -/
def quoted (upper : Text → Text) (baseCurrency : Text) (values : List (Text × Quote))
    (code : Text) : ℚ :=
  if upper baseCurrency = "USD" ∧ code = "USD" then 1
  else ((values.lookup code).bind Quote.finite?).getD 0

/-- The exact rate per dollar. -/
def exactRate (upper : Text → Text) (baseCurrency : Text) (values : List (Text × Quote))
    (code : Text) : ℚ :=
  quoted upper baseCurrency values code / quoted upper baseCurrency values "USD"

/-! ## One stored rate -/

theorem abs_div_sub_le {rounded exact : ℚ} (places : ℕ)
    (h : rounded = Rounding.halfEven (exact * 10 ^ places) / 10 ^ places) :
    |rounded - exact| ≤ 1 / 2 / 10 ^ places := by
  have hscale : (0 : ℚ) < 10 ^ places := by positivity
  have hround := Rounding.abs_halfEven_sub_le (exact * 10 ^ places)
  calc |rounded - exact|
      = |(Rounding.halfEven (exact * 10 ^ places) - exact * 10 ^ places) / 10 ^ places| := by
        rw [h, sub_div, mul_div_cancel_right₀ _ hscale.ne']
    _ = |(Rounding.halfEven (exact * 10 ^ places) : ℚ) - exact * 10 ^ places| / 10 ^ places := by
        rw [abs_div, abs_of_pos hscale]
    _ ≤ 1 / 2 / 10 ^ places := div_le_div_of_nonneg_right hround hscale.le

/-- Rounding to the 28 digits of the context moves a number by less than `10 ^ -27` of itself. -/
theorem abs_decimal_sub_le (q : ℚ) :
    |Rounding.toDigits 10 decimalPrecision q - q| ≤ |q| * (1 / 10 ^ 27) := by
  have hround := @Rounding.abs_toDigits_sub_le 10 decimalPrecision (by norm_num) q
  have hexp : ((10 : ℕ) : ℚ) ^ (1 - ((decimalPrecision : ℕ) : ℤ)) = 1 / 10 ^ 27 := by
    norm_num [decimalPrecision]
  rw [hexp] at hround
  have hnonneg : 0 ≤ |q| * (1 / 10 ^ 27) := by positivity
  linarith

theorem decimalTiny_pos : 0 < decimalTiny := zpow_pos (by norm_num) _

theorem decimalTiny_le : decimalTiny ≤ 1 / 10 ^ 17 := by
  calc decimalTiny ≤ (10 : ℚ) ^ (-17 : ℤ) := zpow_le_zpow_right₀ (by norm_num) (by norm_num)
    _ = 1 / 10 ^ 17 := by norm_num

/-- A quotient of at most `10 ^ 10` is off by less than `10 ^ -17`. -/
theorem abs_decimalQuotient_sub_le {value divisor quotient : ℚ}
    (h : decimalQuotient value divisor = some quotient) (hbound : |value / divisor| ≤ 10 ^ 10) :
    |quotient - value / divisor| ≤ 1 / 10 ^ 17 := by
  obtain ⟨_, hquotient⟩ := Option.ite_none_left_eq_some.mp h
  rw [← Option.some.inj hquotient]
  split
  · have hround := Rounding.abs_halfEven_mul_sub_le decimalTiny_pos (value / divisor)
    have htiny := decimalTiny_le
    have hpos := decimalTiny_pos
    linarith
  · have hround := abs_decimal_sub_le (value / divisor)
    linarith

section

variable {upper : Text → Text} {baseCurrency : Text} {values : List (Text × Quote)}
  {normalized : Table Text ℚ} {code : Text} {rate : ℚ}

/-- The quotes of a well-formed payload: finite, positive, under distinct upper-case codes, with a
USD leg unless USD is the base. -/
structure Payload (upper : Text → Text) (baseCurrency : Text) (values : List (Text × Quote)) :
    Prop where
  nodup : (values.map Prod.fst).Nodup
  upperCase : ∀ entry ∈ values, upper entry.1 = entry.1
  positive : ∀ entry ∈ values, ∃ value : Decimal, entry.2 = .finite value ∧ 0 < value.toRat
  usd : upper baseCurrency ≠ "USD" → ("USD" : Text) ∈ values.map Prod.fst

theorem Payload.lookup (h : Payload upper baseCurrency values) (hcode : code ∈ values.map Prod.fst) :
    ∃ value : Decimal, values.lookup code = some (.finite value) ∧ 0 < value.toRat := by
  obtain ⟨entry, hentry, rfl⟩ := List.mem_map.mp hcode
  obtain ⟨value, hvalue, hpos⟩ := h.positive entry hentry
  exact ⟨value, hvalue ▸ Table.lookup_of_mem_nodup h.nodup hentry, hpos⟩

/-- Every quote of the payload, and the one of USD, is positive. -/
theorem Payload.quoted_pos (h : Payload upper baseCurrency values)
    (hcode : code ∈ values.map Prod.fst ∨ code = "USD") : 0 < quoted upper baseCurrency values code := by
  unfold quoted
  split
  · exact one_pos
  · rename_i hother
    have hmem : code ∈ values.map Prod.fst := by
      rcases hcode with hmem | rfl
      · exact hmem
      · exact h.usd fun hbase ↦ hother ⟨hbase, rfl⟩
    obtain ⟨value, hvalue, hpos⟩ := h.lookup hmem
    rw [hvalue]
    exact hpos

theorem Payload.exactRate_pos (h : Payload upper baseCurrency values)
    (hcode : code ∈ values.map Prod.fst ∨ code = "USD") : 0 < exactRate upper baseCurrency values code :=
  div_pos (h.quoted_pos hcode) (h.quoted_pos (.inr rfl))

theorem quoted_of_ne (hcode : code ≠ "USD") :
    quoted upper baseCurrency values code = ((values.lookup code).bind Quote.finite?).getD 0 :=
  if_neg fun h ↦ hcode h.2

/-- A stored rate is off by the division and its eighth decimal. -/
theorem Payload.abs_rate_sub_le (h : Payload upper baseCurrency values)
    (hrate : Normalized upper baseCurrency values code rate)
    (hbound : exactRate upper baseCurrency values code ≤ 10 ^ 10) :
    |rate - exactRate upper baseCurrency values code| ≤ 51 / 10 ^ 10 := by
  cases hrate with
  | dollar usd one =>
    have hself : exactRate upper baseCurrency values "USD" = 1 := div_self (h.quoted_pos (.inr rfl)).ne'
    rw [usd, one, hself]
    norm_num
  | passed other base entry mem key exact pos finite quantized =>
    rw [h.upperCase entry mem] at key
    subst key
    have hexact : exactRate upper baseCurrency values entry.1 = exact := by
      rw [exactRate, quoted_of_ne other, Table.lookup_of_mem_nodup h.nodup mem, Option.bind_some, finite,
        Option.getD_some, quoted, if_pos ⟨base, rfl⟩, div_one]
    have hround := abs_div_sub_le 8 (quantizeRate_eq_some quantized)
    rw [hexact]
    exact hround.trans (by norm_num)
  | divided other base entry mem key usdValue exact exactPos leg quotient quantized =>
    rw [h.upperCase entry mem] at key
    subst key
    obtain ⟨value, hvalue, _⟩ := h.positive entry mem
    obtain ⟨dollars, hdollars, _⟩ := h.lookup (h.usd base)
    have husd : usdValue = dollars.toRat := by
      simp only [usdLeg, hdollars] at leg
      exact (Option.some.inj (Option.ite_none_right_eq_some.mp leg).2).symm
    have hexact : exactRate upper baseCurrency values entry.1 = value.toRat / usdValue := by
      rw [exactRate, quoted_of_ne other, Table.lookup_of_mem_nodup h.nodup mem, quoted,
        if_neg fun heq ↦ base heq.1, hdollars, hvalue, husd]
      rfl
    have hpos : 0 < exactRate upper baseCurrency values entry.1 :=
      h.exactRate_pos (.inl (List.mem_map_of_mem mem))
    rw [hexact] at hpos hbound ⊢
    rw [hvalue] at quotient
    obtain ⟨rounded, hrounded, heq⟩ := Option.map_eq_some_iff.mp quotient
    cases heq
    have hdivided := abs_decimalQuotient_sub_le hrounded (by rw [abs_of_pos hpos]; exact hbound)
    have hround := abs_div_sub_le 8 (quantizeRate_eq_some quantized)
    calc |rate - value.toRat / usdValue|
        ≤ |rate - exact| + |exact - value.toRat / usdValue| := abs_sub_le _ _ _
      _ ≤ 1 / 2 / 10 ^ 8 + 1 / 10 ^ 17 := add_le_add hround hdivided
      _ ≤ 51 / 10 ^ 10 := by norm_num

end

/-! ## One conversion -/

/-- The two 28-digit operations of a conversion. -/
theorem abs_decimalProduct_sub_le (amount rateFrom rateTo : ℚ) :
    |decimalProduct amount rateFrom rateTo - amount * (rateTo / rateFrom)| ≤
      1 / 10 ^ 25 * |amount| * |rateTo / rateFrom| := by
  unfold decimalProduct
  generalize rateTo / rateFrom = exact
  have hratio := abs_decimal_sub_le exact
  generalize Rounding.toDigits 10 decimalPrecision exact = ratio at hratio ⊢
  have hproduct := abs_decimal_sub_le (amount * ratio)
  have hsize : |ratio| ≤ 2 * |exact| := by
    have htriangle := abs_sub_abs_le_abs_sub ratio exact
    have hpos := abs_nonneg exact
    linarith
  have hamount := abs_nonneg amount
  calc |Rounding.toDigits 10 decimalPrecision (amount * ratio) - amount * exact|
      ≤ |Rounding.toDigits 10 decimalPrecision (amount * ratio) - amount * ratio| +
          |amount * ratio - amount * exact| := abs_sub_le _ _ _
    _ ≤ |amount| * |ratio| * (1 / 10 ^ 27) + |amount| * |ratio - exact| := by
        rw [← mul_sub, abs_mul amount (ratio - exact), ← abs_mul amount ratio]
        exact add_le_add hproduct le_rfl
    _ ≤ |amount| * (2 * |exact|) * (1 / 10 ^ 27) + |amount| * (|exact| * (1 / 10 ^ 27)) := by
        gcongr
    _ ≤ 1 / 10 ^ 25 * |amount| * |exact| := by
        have hnonneg := mul_nonneg hamount (abs_nonneg exact)
        linarith

/-- A quotient of two rates that are each off by `error`. -/
theorem abs_quotient_sub_le {exactFrom exactTo storedFrom storedTo error : ℚ} (hfrom : 0 < exactFrom)
    (hto : 0 < exactTo) (hstored : 0 < storedFrom) (herrorFrom : |storedFrom - exactFrom| ≤ error)
    (herrorTo : |storedTo - exactTo| ≤ error) :
    |storedTo / storedFrom - exactTo / exactFrom| ≤
      error * (exactFrom + exactTo) / (exactFrom * storedFrom) := by
  have hpos := mul_pos hfrom hstored
  have hdifference : storedTo / storedFrom - exactTo / exactFrom =
      ((storedTo - exactTo) * exactFrom - exactTo * (storedFrom - exactFrom)) / (exactFrom * storedFrom) := by
    field_simp
    ring
  rw [hdifference, abs_div, abs_of_pos hpos]
  apply div_le_div_of_nonneg_right _ hpos.le
  calc |(storedTo - exactTo) * exactFrom - exactTo * (storedFrom - exactFrom)|
      ≤ |(storedTo - exactTo) * exactFrom| + |exactTo * (storedFrom - exactFrom)| := abs_sub _ _
    _ = |storedTo - exactTo| * exactFrom + exactTo * |storedFrom - exactFrom| := by
        rw [abs_mul, abs_mul, abs_of_pos hfrom, abs_of_pos hto]
    _ ≤ error * exactFrom + exactTo * error := by gcongr
    _ = error * (exactFrom + exactTo) := by ring

/-- Converting between two codes of the only stored snapshot multiplies by the quotient of their
quotes, up to the four roundings; the payload's base currency does not matter. -/
theorem cross_rate (upper : Text → Text) (provider : FXProvider) (values : Table Text Quote)
    (hpayload : Payload upper provider.baseCurrency (Table.rows values)) (normalized : Table Text ℚ)
    (hnormalized : normalizeToUsdPivot upper provider.baseCurrency (Table.rows values) = some normalized)
    (rateDate : Date) (table : FxTable) (result : IngestResult)
    (hingest : ingestSnapshot upper provider ∅ values rateDate = some (table, result))
    (fromCurrency toCurrency : Text) (hne : fromCurrency ≠ toCurrency)
    (hfrom : fromCurrency ∈ (Table.rows values).map Prod.fst ∨ fromCurrency = "USD")
    (hto : toCurrency ∈ (Table.rows values).map Prod.fst ∨ toCurrency = "USD")
    (hfromBound : exactRate upper provider.baseCurrency (Table.rows values) fromCurrency ≤ 10 ^ 10)
    (htoBound : exactRate upper provider.baseCurrency (Table.rows values) toCurrency ≤ 10 ^ 10)
    (rateFrom rateTo : ℚ) (hrateFrom : normalized.lookup fromCurrency = some rateFrom)
    (hrateTo : normalized.lookup toCurrency = some rateTo) (hpositive : 0 < rateFrom)
    (asOf : Date) (amount value : ℚ)
    (hvalue : convert table amount fromCurrency toCurrency asOf = some (some value)) :
    |value - amount * quoted upper provider.baseCurrency (Table.rows values) toCurrency /
        quoted upper provider.baseCurrency (Table.rows values) fromCurrency| ≤ 5 / 10 ^ 5 +
      |amount| * (51 / 10 ^ 10) * (exactRate upper provider.baseCurrency (Table.rows values) fromCurrency +
          exactRate upper provider.baseCurrency (Table.rows values) toCurrency) /
        (exactRate upper provider.baseCurrency (Table.rows values) fromCurrency * rateFrom) +
      1 / 10 ^ 25 * |amount| * rateTo / rateFrom := by
  obtain ⟨usedFrom, usedTo, husedFrom, husedTo, hconverted⟩ := rates_of_convert hne hvalue
  rw [ratePerUsd_of_ingest hingest hnormalized hrateFrom husedFrom,
    ratePerUsd_of_ingest hingest hnormalized hrateTo husedTo] at hconverted
  have hquotient : amount * quoted upper provider.baseCurrency (Table.rows values) toCurrency /
      quoted upper provider.baseCurrency (Table.rows values) fromCurrency =
        amount * (exactRate upper provider.baseCurrency (Table.rows values) toCurrency /
          exactRate upper provider.baseCurrency (Table.rows values) fromCurrency) := by
    have husd : 0 < quoted upper provider.baseCurrency (Table.rows values) "USD" :=
      hpayload.quoted_pos (.inr rfl)
    rw [exactRate, exactRate, div_div_div_cancel_right₀ husd.ne', mul_div_assoc]
  rw [hquotient]
  have hpositiveFrom := hpayload.exactRate_pos hfrom
  have hpositiveTo := hpayload.exactRate_pos hto
  have herrorFrom := hpayload.abs_rate_sub_le (lookup_normalized hnormalized hrateFrom) hfromBound
  have herrorTo := hpayload.abs_rate_sub_le (lookup_normalized hnormalized hrateTo) htoBound
  generalize exactRate upper provider.baseCurrency (Table.rows values) fromCurrency = exactFrom at *
  generalize exactRate upper provider.baseCurrency (Table.rows values) toCurrency = exactTo at *
  have hproduct := abs_decimalProduct_sub_le amount rateFrom rateTo
  have hrates := abs_quotient_sub_le hpositiveFrom hpositiveTo hpositive herrorFrom herrorTo
  rw [convertAmount_eq amount rateTo hpositive.ne'] at hconverted
  have hresult := abs_div_sub_le 4 (quantize_eq_some hconverted)
  have hratio : |rateTo / rateFrom| = rateTo / rateFrom :=
    abs_of_nonneg (div_nonneg (lookup_normalized hnormalized hrateTo).nonneg hpositive.le)
  rw [hratio] at hproduct
  have hscaled : |amount * (rateTo / rateFrom) - amount * (exactTo / exactFrom)| ≤
      |amount| * (51 / 10 ^ 10 * (exactFrom + exactTo) / (exactFrom * rateFrom)) := by
    rw [← mul_sub, abs_mul]
    exact mul_le_mul_of_nonneg_left hrates (abs_nonneg amount)
  calc |value - amount * (exactTo / exactFrom)|
      ≤ |value - decimalProduct amount rateFrom rateTo| +
          |decimalProduct amount rateFrom rateTo - amount * (exactTo / exactFrom)| := abs_sub_le _ _ _
    _ ≤ |value - decimalProduct amount rateFrom rateTo| +
          (|decimalProduct amount rateFrom rateTo - amount * (rateTo / rateFrom)| +
            |amount * (rateTo / rateFrom) - amount * (exactTo / exactFrom)|) :=
        add_le_add le_rfl (abs_sub_le _ _ _)
    _ ≤ 1 / 2 / 10 ^ 4 + (1 / 10 ^ 25 * |amount| * (rateTo / rateFrom) +
          |amount| * (51 / 10 ^ 10 * (exactFrom + exactTo) / (exactFrom * rateFrom))) :=
        add_le_add hresult (add_le_add hproduct hscaled)
    _ = 5 / 10 ^ 5 + |amount| * (51 / 10 ^ 10) * (exactFrom + exactTo) / (exactFrom * rateFrom) +
          1 / 10 ^ 25 * |amount| * rateTo / rateFrom := by ring

/-- Euros, rupees and dollars for a euro. -/
def euroQuotes : Table Text Quote :=
  ((AList.singleton ("USD" : Text) (Quote.finite ⟨108, -2⟩)).insert ("EUR" : Text)
    (Quote.finite ⟨1, 0⟩)).insert
    ("PKR" : Text) (Quote.finite ⟨3005, -1⟩)

/-- A provider that quotes against the euro. -/
def euroProvider : FXProvider := .sample "EUR" fun _ ↦ some euroQuotes

theorem euroQuotes_payload : Payload id "EUR" (Table.rows euroQuotes) where
  nodup := by decide
  upperCase := fun _ _ ↦ rfl
  positive := by
    have hrows : Table.rows euroQuotes =
        [(.unicode "PKR", .finite ⟨3005, -1⟩), (.unicode "EUR", .finite ⟨1, 0⟩),
          (.unicode "USD", .finite ⟨108, -2⟩)] := rfl
    intro entry hentry
    rw [hrows] at hentry
    simp only [List.mem_cons, List.not_mem_nil, or_false] at hentry
    rcases hentry with rfl | rfl | rfl <;> exact ⟨_, rfl, by decide +kernel⟩
  usd := fun _ ↦ by decide

/-- A hundred euros at 300.5 rupees a euro, through the dollar. -/
theorem cross_rate_sample : ∃ table result, ingestSnapshot id euroProvider ∅ euroQuotes 0 =
    some (table, result) ∧
    convert table 100 "EUR" "PKR" 0 = some (some 30049.9999) ∧
    |30049.9999 - 100 * quoted id "EUR" (Table.rows euroQuotes) "PKR" /
        quoted id "EUR" (Table.rows euroQuotes) "EUR"| ≤
      5 / 10 ^ 5 +
      |100| * (51 / 10 ^ 10) * (exactRate id "EUR" (Table.rows euroQuotes) "EUR" +
          exactRate id "EUR" (Table.rows euroQuotes) "PKR") /
        (exactRate id "EUR" (Table.rows euroQuotes) "EUR" * 0.92592593) +
      1 / 10 ^ 25 * |100| * 278.24074074 / 0.92592593 := by
  have hrates : (normalizeToUsdPivot id "EUR" (Table.rows euroQuotes)).map
      (fun normalized ↦ (normalized.lookup ("EUR" : Text), normalized.lookup ("PKR" : Text))) =
        some (some 0.92592593, some 278.24074074) := by
    decide +kernel
  obtain ⟨normalized, hnormalized, hstored⟩ := Option.map_eq_some_iff.mp hrates
  obtain ⟨heuro, hrupee⟩ := Prod.mk.inj hstored
  have hconvert : (ingestSnapshot id euroProvider ∅ euroQuotes 0).bind (convert ·.1 100 "EUR" "PKR" 0) =
      some (some 30049.9999) := by
    decide +kernel
  obtain ⟨⟨table, result⟩, htable, hvalue⟩ := Option.bind_eq_some_iff.mp hconvert
  refine ⟨table, result, htable, hvalue, ?_⟩
  exact cross_rate id euroProvider euroQuotes euroQuotes_payload normalized hnormalized 0 table result htable
    "EUR" "PKR" (by decide) (.inl (by decide)) (.inl (by decide)) (by decide +kernel) (by decide +kernel)
    0.92592593 278.24074074 heuro hrupee (by norm_num) 0 100 30049.9999 hvalue

end VoiceSpend
