import VoiceSpend.Fx.Normalize

/-!
# Which payloads can be stored

`upsert_rates` writes all rates of a day in one statement, so one that its columns refuse keeps the
others out.
-/

namespace VoiceSpend

/-- A payload whose rates can be computed, and stored in one statement. -/
structure StorablePayload (upper : Text → Text) (baseCurrency : Text) (values : List (Text × Quote)) :
    Prop where
  computed : ∀ entry ∈ values, ∃ rate, quoteRate upper baseCurrency (usdLeg values) entry.2 = some rate ∧
    ∀ exact ∈ rate, exact < 10 ^ 20 - 1 / 200000000
  coded : ∀ code ∈ writtenCodes upper baseCurrency values, (charColumn code).isSome
  /-- No two of the codes are the same but for blanks at the end. -/
  apart : ((writtenCodes upper baseCurrency values).map charColumn).Nodup
  narrow : ∀ code ∈ writtenCodes upper baseCurrency values, code ≠ "USD" →
    ∀ rate ∈ lastRate upper baseCurrency values code, rate < 10 ^ 10 - 1 / 200000000
  few : 5 * (writtenCodes upper baseCurrency values).length ≤ argumentLimit

/-- Where a row of a payload comes from. -/
theorem mem_payloadRows {upper : Text → Text} {baseCurrency : Text} {values : List (Text × Quote)}
    {quotes : List (Text × Rate)} (h : payloadRows upper baseCurrency values = some quotes)
    {row : Text × Rate} (hmem : row ∈ quotes) :
    ∃ code ∈ writtenCodes upper baseCurrency values, charColumn code = some row.1 := by
  obtain ⟨normalized, hnormalized, hrows⟩ := Option.bind_eq_some_iff.mp h
  have hkeys := map_some_keys (valuesRows_eq_some_iff.mp hrows).2.1
  have hkey : some row.1 ∈ (quotes.map Prod.fst).map some :=
    List.mem_map_of_mem (List.mem_map_of_mem hmem)
  rw [hkeys] at hkey
  obtain ⟨code, hcode, hcolumn⟩ := List.mem_map.mp hkey
  exact ⟨code, (codes_perm hnormalized).subset hcode, hcolumn⟩

section

variable {upper : Text → Text} {baseCurrency : Text} {values : List (Text × Quote)}
  {normalized : Table Text ℚ}

theorem ofRat_roundedRate_isSome_iff {rate : ℚ} (hpos : 0 < rate) :
    (Numeric.ofRat 18 8 (roundedRate rate)).isSome ↔ rate < 10 ^ 10 - 1 / 200000000 := by
  have hunits : 0 ≤ Rounding.halfEven (rate * 10 ^ 8) := Rounding.halfEven_nonneg (by positivity)
  rw [← roundedRate_lt_iff, roundedRate_lt_iff_units, roundedRate, Numeric.ofRat_units_isSome]
  omega

theorem lastRate_pos {code : Text} {rate : ℚ} (h : lastRate upper baseCurrency values code = some rate) :
    0 < rate := by
  obtain ⟨entry, _, hentry⟩ := List.exists_of_findSome?_eq_some h
  split at hentry
  · exact of_decide_eq_true (Option.filter_eq_some_iff.mp hentry).2
  · cases hentry

/-- The rate of a written code fits its column exactly when it is narrow enough. -/
theorem ofRat_normalized_isSome_iff (h : normalizeToUsdPivot upper baseCurrency values = some normalized)
    {code : Text} {value : ℚ} (hvalue : normalized.lookup code = some value) :
    (Numeric.ofRat 18 8 value).isSome ↔
      (code ≠ "USD" → ∀ rate ∈ lastRate upper baseCurrency values code, rate < 10 ^ 10 - 1 / 200000000) := by
  by_cases hcode : code = "USD"
  · rw [hcode, lookup_usd h] at hvalue
    cases hvalue
    exact iff_of_true (by decide +kernel) fun hne ↦ absurd hcode hne
  · rw [lookup_normalized_last h hcode] at hvalue
    obtain ⟨rate, hrate, rfl⟩ := Option.map_eq_some_iff.mp hvalue
    rw [ofRat_roundedRate_isSome_iff (lastRate_pos hrate), hrate]
    simp [hcode]

/-- A payload is stored without an exception exactly when it is storable. -/
theorem payloadRows_isSome_iff :
    (payloadRows upper baseCurrency values).isSome ↔ StorablePayload upper baseCurrency values := by
  have hcomputed : (normalizeToUsdPivot upper baseCurrency values).isSome ↔ ∀ entry ∈ values,
      ∃ rate, quoteRate upper baseCurrency (usdLeg values) entry.2 = some rate ∧
        ∀ exact ∈ rate, exact < 10 ^ 20 - 1 / 200000000 := by
    rw [normalizeToUsdPivot_isSome]
    exact forall₂_congr fun _ _ ↦ entryRate_isSome_iff
  cases hnormalized : normalizeToUsdPivot upper baseCurrency values with
  | none =>
    rw [hnormalized] at hcomputed
    refine iff_of_false (by simp [payloadRows, hnormalized]) fun h ↦ ?_
    exact Bool.false_ne_true (hcomputed.mpr h.computed)
  | some normalized =>
    rw [hnormalized] at hcomputed
    have hperm := codes_perm hnormalized
    have hlength : (Table.rows normalized).length = (writtenCodes upper baseCurrency values).length := by
      rw [← hperm.length_eq, List.length_map]
    have hrow (row : Text × ℚ) (hmem : row ∈ Table.rows normalized) : (valuesRow row).isSome ↔
        (charColumn row.1).isSome ∧ (row.1 ≠ "USD" →
          ∀ rate ∈ lastRate upper baseCurrency values row.1, rate < 10 ^ 10 - 1 / 200000000) := by
      rw [valuesRow_isSome_iff, ofRat_normalized_isSome_iff hnormalized (Table.mem_rows.mp hmem)]
    have hcode {code : Text} (hmem : code ∈ writtenCodes upper baseCurrency values) :
        ∃ row ∈ Table.rows normalized, row.1 = code := List.mem_map.mp (hperm.symm.subset hmem)
    rw [payloadRows, hnormalized, Option.bind_some, valuesRows_isSome_iff, hlength,
      (hperm.map charColumn).nodup_iff]
    constructor
    · rintro ⟨hfew, hrows, hapart⟩
      refine ⟨hcomputed.mp rfl, fun code hmem ↦ ?_, hapart, fun code hmem ↦ ?_, hfew⟩
      · obtain ⟨row, hentry, rfl⟩ := hcode hmem
        exact ((hrow row hentry).mp (hrows row hentry)).1
      · obtain ⟨row, hentry, rfl⟩ := hcode hmem
        exact ((hrow row hentry).mp (hrows row hentry)).2
    · intro h
      refine ⟨h.few, fun row hentry ↦ (hrow row hentry).mpr ?_, h.apart⟩
      have hwritten := hperm.subset (List.mem_map_of_mem hentry)
      exact ⟨h.coded _ hwritten, h.narrow _ hwritten⟩

end

end VoiceSpend
