import Mathlib.Tactic.Positivity
import VoiceSpend.Fx.Convert

/-!
# FX ingestion

`normalize_to_usd_pivot` turns a provider's payload into rates per dollar, and `ingest_snapshot`
stores them for one day. The payload's numbers are Python's `Decimal`, not all of them finite; the
arithmetic is the default context's, which traps overflow, invalid operations and divisions by
zero. All rates of a day are written in one statement, whose codes are compared as `CHAR(3)` compares
them: two rows under one code are refused like a value that does not fit. A raised exception is the
outer `none`.
-/

namespace VoiceSpend

/-- A `Decimal` of a payload. -/
inductive Quote
  | finite (value : Decimal)
  | infinity (negative : Bool)
  | nan (signaling : Bool)
  deriving DecidableEq, Repr

/-- The value, if `is_finite()`. -/
def Quote.finite? : Quote → Option ℚ
  | .finite value => some value.toRat
  | .infinity _ | .nan _ => none

/-- The least distance of two numbers of the default context, below the exponent `-999999`. -/
def decimalTiny : ℚ := 10 ^ (-1000026 : ℤ)

/-- A quotient in the default context, or `none` for `Overflow`. -/
def decimalQuotient (value divisor : ℚ) : Option ℚ :=
  let exact := value / divisor
  let quotient :=
    if Int.log 10 |exact| < -999999 then Rounding.halfEven (exact / decimalTiny) * decimalTiny
    else Rounding.toDigits 10 decimalPrecision exact
  if 999999 < Int.log 10 |quotient| then none else some quotient

/-- `value / usd_value`; the inner `none` is a quotient that is not finite. A signaling NaN raises. -/
def Quote.divide (usdValue : ℚ) : Quote → Option (Option ℚ)
  | .finite value => (decimalQuotient value.toRat usdValue).map some
  | .infinity _ => some none
  | .nan signaling => if signaling then none else some none

/-- A rate quantized to eight digits after the point, or `none` for `InvalidOperation`. -/
def quantizeRate (rate : ℚ) : Option ℚ :=
  let units := Rounding.halfEven (rate * 10 ^ 8)
  if units.natAbs < 10 ^ decimalPrecision then some (units / 10 ^ 8) else none

/-- The payload's USD leg, if it can be divided by. -/
def usdLeg (values : List (Text × Quote)) : Option ℚ :=
  match values.lookup ("USD" : Text) with
  | some (.finite value) => if 0 < value.toRat then some value.toRat else none
  | _ => none

/-- `candidates`; the inner `none` is a rate that is not finite. -/
def candidateRates (upper : Text → Text) (baseCurrency : Text) (values : List (Text × Quote)) :
    Option (List (Text × Option ℚ)) :=
  if upper baseCurrency = "USD" then some (values.map fun entry ↦ (entry.1, entry.2.finite?))
  else match usdLeg values with
    | none => some []
    | some usdValue => values.mapM fun entry ↦ (entry.2.divide usdValue).map fun rate ↦ (entry.1, rate)

/-- One iteration of the loop that fills `normalized`. -/
def normalizeEntry (upper : Text → Text) (normalized : Table Text ℚ)
    (entry : Text × Option ℚ) : Option (Table Text ℚ) :=
  match entry.2 with
  | none => some normalized
  | some rate =>
    if rate ≤ 0 then some normalized
    else (quantizeRate rate).map fun quantized ↦ normalized.insert (upper entry.1) quantized

/-- `normalize_to_usd_pivot`, where `upper` is `str.upper`. -/
def normalizeToUsdPivot (upper : Text → Text) (baseCurrency : Text)
    (values : List (Text × Quote)) : Option (Table Text ℚ) := do
  let rates ← candidateRates upper baseCurrency values
  let normalized ← rates.foldlM (normalizeEntry upper) ∅
  return normalized.insert ("USD" : Text) 1

/-- How many arguments the driver sends with a statement at most. -/
def argumentLimit : ℕ := 32767

/-- A row of the `VALUES` list of `upsert_rates`, as its columns store it. -/
def valuesRow (entry : Text × ℚ) : Option (Text × Rate) := do
  let code ← charColumn entry.1
  let rate ← Numeric.ofRat 18 8 entry.2
  return (code, rate)

/-- The rows of the statement of `upsert_rates`, whose arguments are four columns and an id each. -/
def valuesRows (normalized : Table Text ℚ) : Option (List (Text × Rate)) :=
  if 5 * (Table.rows normalized).length ≤ argumentLimit then
    ((Table.rows normalized).mapM valuesRow).filter fun quotes ↦ decide (quotes.map Prod.fst).Nodup
  else none

/-- The rows `ingest_snapshot` writes for a payload, or `none` where it raises. -/
def payloadRows (upper : Text → Text) (baseCurrency : Text) (values : List (Text × Quote)) :
    Option (List (Text × Rate)) :=
  (normalizeToUsdPivot upper baseCurrency values).bind valuesRows

/-- An `FXProvider`; its name is a constant that the column `source` can hold. `none` is a date for which
`fetch_for_date` raises. -/
structure FXProvider where
  baseCurrency : Text
  providerName : String
  named : textFits providerName = true
  fetchForDate : Date → Option (Table Text Quote)

def FXProvider.sample (baseCurrency : Text) (fetchForDate : Date → Option (Table Text Quote)) : FXProvider :=
  ⟨baseCurrency, "sample", rfl, fetchForDate⟩

/-- What `ingest_snapshot` reports of one date. -/
structure IngestResult where
  rateDate : Date
  currenciesWritten : ℕ
  skipped : List Text
  deriving DecidableEq, Repr

/-- `ingest_snapshot`. -/
def ingestSnapshot (upper : Text → Text) (provider : FXProvider) (rates : FxTable)
    (values : Table Text Quote) (rateDate : Date) : Option (FxTable × IngestResult) := do
  let normalized ← normalizeToUsdPivot upper provider.baseCurrency (Table.rows values)
  let originalCodes := ((Table.rows values).map fun entry ↦ upper entry.1).dedup
  let skipped := (originalCodes.filter fun code ↦ (normalized.lookup code).isNone).insertionSort
    fun first second ↦ first.codes ≤ second.codes
  let quotes ← valuesRows normalized
  return (upsertRates rates quotes rateDate provider.providerName,
    ⟨rateDate, (Table.rows normalized).length, skipped⟩)

/-! ## What is normalized -/

section

variable {upper : Text → Text} {baseCurrency : Text} {values : List (Text × Quote)}
  {normalized : Table Text ℚ} {code : Text} {rate : ℚ}

theorem quantizeRate_eq_some {rate quantized : ℚ} (h : quantizeRate rate = some quantized) :
    quantized = Rounding.halfEven (rate * 10 ^ 8) / 10 ^ 8 := by
  unfold quantizeRate at h
  dsimp only at h
  split at h
  · exact (Option.some.inj h).symm
  · cases h

/-- A rate the loop has stored was there before or is a positive one of its entries, quantized. -/
theorem foldlM_normalizeEntry_lookup {entries : List (Text × Option ℚ)} {start : Table Text ℚ}
    (h : entries.foldlM (normalizeEntry upper) start = some normalized)
    (hlookup : normalized.lookup code = some rate) :
    start.lookup code = some rate ∨ ∃ entry ∈ entries, upper entry.1 = code ∧
      ∃ exact, entry.2 = some exact ∧ 0 < exact ∧ quantizeRate exact = some rate := by
  induction entries generalizing start with
  | nil =>
    cases h
    exact .inl hlookup
  | cons entry rest ih =>
    rw [List.foldlM_cons] at h
    obtain ⟨middle, hmiddle, hrest⟩ := Option.bind_eq_some_iff.mp h
    rcases ih hrest with hbefore | ⟨other, hother, hfound⟩
    · unfold normalizeEntry at hmiddle
      split at hmiddle
      · cases hmiddle
        exact .inl hbefore
      · rename_i exact hexact
        split at hmiddle
        · cases hmiddle
          exact .inl hbefore
        · rename_i hpos
          obtain ⟨quantized, hquantized, rfl⟩ := Option.map_eq_some_iff.mp hmiddle
          rw [Table.lookup_insert_eq] at hbefore
          split at hbefore
          · rename_i hcode
            cases hbefore
            exact .inr ⟨entry, List.mem_cons_self, hcode.symm, exact, hexact, not_le.mp hpos, hquantized⟩
          · exact .inl hbefore
    · exact .inr ⟨other, List.mem_cons_of_mem _ hother, hfound⟩

theorem mem_of_mapM_divide {entries : List (Text × Quote)} {usdValue : ℚ} {rates : List (Text × Option ℚ)}
    (h : (entries.mapM fun entry ↦ (entry.2.divide usdValue).map fun rate ↦ (entry.1, rate)) = some rates)
    {candidate : Text × Option ℚ} (hmem : candidate ∈ rates) :
    ∃ entry ∈ entries, entry.1 = candidate.1 ∧ entry.2.divide usdValue = some candidate.2 := by
  induction entries generalizing rates with
  | nil =>
    simp only [List.mapM_nil, Option.pure_def, Option.some.injEq] at h
    subst h
    exact absurd hmem List.not_mem_nil
  | cons entry rest ih =>
    simp only [List.mapM_cons, Option.bind_eq_bind, Option.bind_eq_some_iff, Option.pure_def] at h
    obtain ⟨first, hfirst, others, hothers, heq⟩ := h
    cases heq
    obtain ⟨quotient, hquotient, rfl⟩ := Option.map_eq_some_iff.mp hfirst
    rcases List.mem_cons.mp hmem with rfl | hlater
    · exact ⟨entry, List.mem_cons_self, rfl, hquotient⟩
    · obtain ⟨other, hother, hfound⟩ := ih hothers hlater
      exact ⟨other, List.mem_cons_of_mem _ hother, hfound⟩

/-- Where a normalized rate comes from. -/
inductive Normalized (upper : Text → Text) (baseCurrency : Text) (values : List (Text × Quote))
    (code : Text) (rate : ℚ) : Prop
  | dollar (usd : code = "USD") (one : rate = 1)
  | passed (other : code ≠ "USD") (base : upper baseCurrency = "USD") (entry : Text × Quote)
      (mem : entry ∈ values) (key : upper entry.1 = code) (exact : ℚ) (pos : 0 < exact)
      (finite : entry.2.finite? = some exact) (quantized : quantizeRate exact = some rate)
  | divided (other : code ≠ "USD") (base : upper baseCurrency ≠ "USD") (entry : Text × Quote)
      (mem : entry ∈ values) (key : upper entry.1 = code) (usdValue exact : ℚ)
      (pos : 0 < exact) (leg : usdLeg values = some usdValue)
      (quotient : entry.2.divide usdValue = some (some exact)) (quantized : quantizeRate exact = some rate)

theorem lookup_normalized (h : normalizeToUsdPivot upper baseCurrency values = some normalized)
    (hlookup : normalized.lookup code = some rate) : Normalized upper baseCurrency values code rate := by
  simp only [normalizeToUsdPivot, Option.bind_eq_bind, Option.bind_eq_some_iff, Option.pure_def] at h
  obtain ⟨rates, hrates, filled, hfilled, heq⟩ := h
  cases heq
  rw [Table.lookup_insert_eq] at hlookup
  split at hlookup
  · rename_i hcode
    exact .dollar hcode (Option.some.inj hlookup).symm
  · rename_i hcode
    rcases foldlM_normalizeEntry_lookup hfilled hlookup with
      hempty | ⟨candidate, hmem, hkey, exact, hexact, hpos, hquantized⟩
    · rw [AList.lookup_empty] at hempty
      cases hempty
    · unfold candidateRates at hrates
      split at hrates
      · rename_i hbase
        cases hrates
        obtain ⟨entry, hentry, rfl⟩ := List.mem_map.mp hmem
        exact .passed hcode hbase entry hentry hkey exact hpos hexact hquantized
      · rename_i hbase
        split at hrates
        · cases hrates
          exact absurd hmem List.not_mem_nil
        · rename_i usdValue hleg
          obtain ⟨entry, hentry, hname, hquotient⟩ := mem_of_mapM_divide hrates hmem
          rw [hexact] at hquotient
          exact .divided hcode hbase entry hentry (hname ▸ hkey) usdValue exact hpos hleg hquotient hquantized

theorem Normalized.scale (h : Normalized upper baseCurrency values code rate) :
    ∃ units : ℤ, rate = units / 10 ^ 8 := by
  cases h with
  | dollar usd one => exact ⟨10 ^ 8, by rw [one]; norm_num⟩
  | passed other base entry mem key exact pos finite quantized => exact ⟨_, quantizeRate_eq_some quantized⟩
  | divided other base entry mem key usdValue exact pos leg quotient quantized =>
    exact ⟨_, quantizeRate_eq_some quantized⟩

theorem Normalized.nonneg (h : Normalized upper baseCurrency values code rate) : 0 ≤ rate := by
  have hround {exact : ℚ} (hpos : 0 < exact) (hquantized : quantizeRate exact = some rate) : 0 ≤ rate := by
    have hunits := Rounding.halfEven_nonneg (q := exact * 10 ^ 8) (by positivity)
    rw [quantizeRate_eq_some hquantized]
    exact div_nonneg (by exact_mod_cast hunits) (by positivity)
  cases h with
  | dollar usd one => rw [one]; norm_num
  | passed other base entry mem key exact pos finite quantized => exact hround pos quantized
  | divided other base entry mem key usdValue exact pos leg quotient quantized => exact hround pos quantized

/-- The stored USD rate is one. -/
theorem lookup_usd (h : normalizeToUsdPivot upper baseCurrency values = some normalized) :
    normalized.lookup ("USD" : Text) = some 1 := by
  simp only [normalizeToUsdPivot, Option.bind_eq_bind, Option.bind_eq_some_iff, Option.pure_def] at h
  obtain ⟨_, _, filled, _, heq⟩ := h
  cases heq
  exact AList.lookup_insert _

end

/-! ## What is stored -/

/-- A list whose entries are all converted, one for one. -/
theorem mapM_eq_some_iff {α β : Type*} {f : α → Option β} {entries : List α} {images : List β} :
    entries.mapM f = some images ↔ entries.map f = images.map some := by
  induction entries generalizing images with
  | nil => cases images <;> simp
  | cons entry rest ih =>
    simp only [List.mapM_cons, Option.bind_eq_bind, Option.bind_eq_some_iff, Option.pure_def, ih]
    cases images with
    | nil => simp
    | cons image others =>
      constructor
      · rintro ⟨_, hentry, _, hrest, heq⟩
        cases heq
        rw [List.map_cons, List.map_cons, hentry, hrest]
      · intro h
        obtain ⟨hentry, hrest⟩ := List.cons.inj h
        exact ⟨image, hentry, others, hrest, rfl⟩

theorem mapM_isSome_iff {α β : Type*} {f : α → Option β} {entries : List α} :
    (entries.mapM f).isSome ↔ ∀ entry ∈ entries, (f entry).isSome := by
  induction entries with
  | nil => simp
  | cons entry rest ih =>
    rw [List.forall_mem_cons, ← ih, List.mapM_cons]
    cases f entry <;> cases rest.mapM f <;> simp

theorem valuesRow_eq_some {entry : Text × ℚ} {row : Text × Rate} (h : valuesRow entry = some row) :
    charColumn entry.1 = some row.1 ∧ Numeric.ofRat 18 8 entry.2 = some row.2 := by
  simp only [valuesRow, Option.bind_eq_bind, Option.bind_eq_some_iff, Option.pure_def] at h
  obtain ⟨code, hcode, rate, hrate, heq⟩ := h
  cases heq
  exact ⟨hcode, hrate⟩

theorem valuesRow_isSome_iff {entry : Text × ℚ} : (valuesRow entry).isSome ↔
    (charColumn entry.1).isSome ∧ (Numeric.ofRat 18 8 entry.2).isSome := by
  unfold valuesRow
  cases charColumn entry.1 <;> cases Numeric.ofRat 18 8 entry.2 <;> simp

/-- The keys of the statement's rows. -/
theorem map_some_keys {entries : List (Text × ℚ)} {quotes : List (Text × Rate)}
    (h : entries.mapM valuesRow = some quotes) :
    (quotes.map Prod.fst).map some = (entries.map Prod.fst).map charColumn := by
  have hrows := mapM_eq_some_iff.mp h
  have hkeys : (entries.map valuesRow).map (Option.map Prod.fst) =
      entries.map fun entry ↦ charColumn entry.1 := by
    rw [List.map_map]
    apply List.map_congr_left
    intro entry hmem
    obtain ⟨row, hrow⟩ := Option.isSome_iff_exists.mp
      (mapM_isSome_iff.mp (Option.isSome_iff_exists.mpr ⟨_, h⟩) entry hmem)
    rw [Function.comp_apply, hrow, Option.map_some, (valuesRow_eq_some hrow).1]
  calc (quotes.map Prod.fst).map some
      = (quotes.map some).map (Option.map Prod.fst) := by simp
    _ = (entries.map valuesRow).map (Option.map Prod.fst) := by rw [hrows]
    _ = entries.map fun entry ↦ charColumn entry.1 := hkeys
    _ = (entries.map Prod.fst).map charColumn := by simp

theorem valuesRows_eq_some_iff {normalized : Table Text ℚ} {quotes : List (Text × Rate)} :
    valuesRows normalized = some quotes ↔ 5 * (Table.rows normalized).length ≤ argumentLimit ∧
      (Table.rows normalized).mapM valuesRow = some quotes ∧ (quotes.map Prod.fst).Nodup := by
  unfold valuesRows
  split
  · rename_i hfew
    rw [Option.filter_eq_some_iff, decide_eq_true_eq]
    exact (and_iff_right hfew).symm
  · rename_i hmany
    exact iff_of_false (Option.some_ne_none _).symm fun h ↦ hmany h.1

theorem valuesRows_isSome_iff {normalized : Table Text ℚ} : (valuesRows normalized).isSome ↔
    5 * (Table.rows normalized).length ≤ argumentLimit ∧
      (∀ row ∈ Table.rows normalized, (valuesRow row).isSome) ∧
        (((Table.rows normalized).map Prod.fst).map charColumn).Nodup := by
  rw [← mapM_isSome_iff, Option.isSome_iff_exists, Option.isSome_iff_exists]
  have hnodup {quotes : List (Text × Rate)} (h : (Table.rows normalized).mapM valuesRow = some quotes) :
      (((Table.rows normalized).map Prod.fst).map charColumn).Nodup ↔ (quotes.map Prod.fst).Nodup := by
    rw [← map_some_keys h, List.nodup_map_iff (Option.some_injective _)]
  constructor
  · rintro ⟨quotes, hquotes⟩
    obtain ⟨hfew, hrows, hkeys⟩ := valuesRows_eq_some_iff.mp hquotes
    exact ⟨hfew, ⟨quotes, hrows⟩, (hnodup hrows).mpr hkeys⟩
  · rintro ⟨hfew, ⟨quotes, hrows⟩, hkeys⟩
    exact ⟨quotes, valuesRows_eq_some_iff.mpr ⟨hfew, hrows, (hnodup hrows).mp hkeys⟩⟩

theorem lookup_upsertRates_eq {quotes : List (Text × Rate)} (hnodup : (quotes.map Prod.fst).Nodup)
    (start : FxTable) (rateDate day : Date) (source : String) (code : Text) :
    (upsertRates start quotes rateDate source).lookup (code, day) =
      if day = rateDate then
        ((quotes.lookup code).map fun rate ↦ ⟨rate, some source⟩).or (start.lookup (code, day))
      else start.lookup (code, day) := by
  unfold upsertRates
  induction quotes generalizing start with
  | nil => simp
  | cons quote rest ih =>
    rw [List.map_cons, List.nodup_cons] at hnodup
    rw [List.foldl_cons, ih hnodup.2, Table.lookup_insert_eq, List.lookup_cons]
    by_cases hday : day = rateDate
    · subst hday
      rw [if_pos rfl, if_pos rfl]
      by_cases hcode : code = quote.1
      · subst hcode
        have hrest : rest.lookup quote.1 = none :=
          List.lookup_eq_none_iff.mpr fun row hrow ↦ by
            have hne : quote.1 ≠ row.1 := fun heq ↦ hnodup.1 (heq ▸ List.mem_map_of_mem hrow)
            simpa using hne
        simp [hrest]
      · have hbeq : (code == quote.1) = false := by simpa using hcode
        have hkey : (code, day) ≠ (quote.1, day) := fun heq ↦ hcode (Prod.mk.inj heq).1
        rw [if_neg hkey, hbeq]
    · have hkey : (code, day) ≠ (quote.1, rateDate) := fun heq ↦ hday (Prod.mk.inj heq).2
      rw [if_neg hday, if_neg hday, if_neg hkey]

section

variable {upper : Text → Text} {provider : FXProvider} {rates after : FxTable} {values : Table Text Quote}
  {normalized : Table Text ℚ} {day : Date} {result : IngestResult}

theorem ingestSnapshot_eq_some
    (h : ingestSnapshot upper provider rates values day = some (after, result)) :
    result.rateDate = day ∧ ∃ quotes,
      payloadRows upper provider.baseCurrency (Table.rows values) = some quotes ∧
        after = upsertRates rates quotes day provider.providerName := by
  simp only [ingestSnapshot, Option.bind_eq_bind, Option.bind_eq_some_iff, Option.pure_def] at h
  obtain ⟨normalized, hnormalized, quotes, hquotes, heq⟩ := h
  cases heq
  exact ⟨rfl, quotes, by rw [payloadRows, hnormalized, Option.bind_some, hquotes], rfl⟩

/-- The row of a normalized code is written under the code without the blanks at its end. -/
theorem lookup_values {quotes : List (Text × Rate)} (h : valuesRows normalized = some quotes) {code : Text}
    {rate : ℚ} (hlookup : normalized.lookup code = some rate) :
    ∃ stored, quotes.lookup code.unpadded = some stored ∧ Numeric.ofRat 18 8 rate = some stored := by
  obtain ⟨_, hmapped, hnodup⟩ := valuesRows_eq_some_iff.mp h
  have hmem : valuesRow (code, rate) ∈ quotes.map some := by
    rw [← mapM_eq_some_iff.mp hmapped]
    exact List.mem_map_of_mem (Table.mem_rows.mpr hlookup)
  obtain ⟨⟨key, stored⟩, hquote, heq⟩ := List.mem_map.mp hmem
  obtain ⟨hcode, hstored⟩ := valuesRow_eq_some heq.symm
  obtain ⟨_, hkey⟩ := Option.ite_none_right_eq_some.mp hcode
  cases Option.some.inj hkey
  exact ⟨stored, Table.lookup_of_mem_nodup hnodup hquote, hstored⟩

/-- In a table that holds only one snapshot, the rate of a normalized code is its normalized rate, which a
rate column stores exactly. -/
theorem ratePerUsd_of_ingest (h : ingestSnapshot upper provider ∅ values day = some (after, result))
    (hnormalized : normalizeToUsdPivot upper provider.baseCurrency (Table.rows values) = some normalized)
    {code : Text} {rate stored : ℚ} {asOf : Date} (hlookup : normalized.lookup code = some rate)
    (hrate : ratePerUsd after code asOf = some stored) : stored = rate := by
  by_cases hcode : code = "USD"
  · rw [hcode, lookup_usd hnormalized] at hlookup
    rw [ratePerUsd, if_pos hcode] at hrate
    exact (Option.some.inj hrate).symm.trans (Option.some.inj hlookup)
  · obtain ⟨_, quotes, hquotes, rfl⟩ := ingestSnapshot_eq_some h
    rw [payloadRows, hnormalized, Option.bind_some] at hquotes
    obtain ⟨column, hcolumn, hfits⟩ := lookup_values hquotes hlookup
    obtain ⟨other, row, hrow, rfl, _, _⟩ := ratePerUsd_latest hcode hrate
    rw [lookup_upsertRates_eq (valuesRows_eq_some_iff.mp hquotes).2.2, AList.lookup_empty, hcolumn] at hrow
    split at hrow
    · cases hrow
      obtain ⟨units, hunits⟩ := (lookup_normalized hnormalized hlookup).scale
      exact Numeric.ofRat_exact hunits hfits
    · cases hrow

end

end VoiceSpend
