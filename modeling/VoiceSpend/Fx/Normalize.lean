import VoiceSpend.Fx.Ingest

/-!
# Normalized rates

The loop of `normalize_to_usd_pivot`, entry by entry: it skips a rate that is not finite or not
positive before it is quantized, and of several entries under one upper-case code the last one that is
not skipped counts.
-/

namespace VoiceSpend

/-- The rate the code computes from a quote; the inner `none` is one that is not finite. -/
def quoteRate (upper : Text → Text) (baseCurrency : Text) (leg : Option ℚ) (quote : Quote) :
    Option (Option ℚ) :=
  if upper baseCurrency = "USD" then some quote.finite?
  else leg.elim (some none) quote.divide

/-- A rate to eight decimals. -/
def roundedRate (rate : ℚ) : ℚ := Rounding.halfEven (rate * 10 ^ 8) / 10 ^ 8

/-- The rate of an entry, if the loop does not skip it. -/
def keptRate (upper : Text → Text) (baseCurrency : Text) (leg : Option ℚ)
    (entry : Text × Quote) : Option ℚ :=
  (quoteRate upper baseCurrency leg entry.2).join.filter fun rate ↦ decide (0 < rate)

/-- The rate of the last entry of a code that is not skipped. -/
def lastRate (upper : Text → Text) (baseCurrency : Text) (values : List (Text × Quote))
    (code : Text) : Option ℚ :=
  values.reverse.findSome? fun entry ↦
    if upper entry.1 = code then keptRate upper baseCurrency (usdLeg values) entry else none

/-- The upper-case codes of the entries that are not skipped, and the dollar's. -/
def writtenCodes (upper : Text → Text) (baseCurrency : Text) (values : List (Text × Quote)) :
    List Text :=
  (("USD" : Text) :: (values.filter fun entry ↦
    (keptRate upper baseCurrency (usdLeg values) entry).isSome).map fun entry ↦ upper entry.1).dedup

section

variable {upper : Text → Text} {baseCurrency : Text} {values : List (Text × Quote)}
  {leg : Option ℚ} {normalized : Table Text ℚ} {entry : Text × Quote} {code : Text}

/-! ## Bounds of a rounded rate -/

theorem roundedRate_lt_iff_units (rate : ℚ) :
    roundedRate rate < 10 ^ 10 ↔ Rounding.halfEven (rate * 10 ^ 8) < 10 ^ 18 := by
  have hwidth : (10 : ℚ) ^ 10 * 10 ^ 8 = ((10 ^ 18 : ℤ) : ℚ) := by norm_num
  unfold roundedRate
  rw [div_lt_iff₀ (by norm_num), hwidth, Int.cast_lt]

theorem roundedRate_lt_iff (rate : ℚ) :
    roundedRate rate < 10 ^ 10 ↔ rate < 10 ^ 10 - 1 / 200000000 := by
  have hunits := Rounding.halfEven_lt_iff (n := 10 ^ 18) rfl (rate * 10 ^ 8)
  rw [roundedRate_lt_iff_units, hunits]
  push_cast
  constructor <;> intro h <;> linarith

/-- A positive rate can be quantized in the context up to twenty digits before the point. -/
theorem quantizeRate_isSome_iff {rate : ℚ} (hpos : 0 < rate) :
    (quantizeRate rate).isSome ↔ rate < 10 ^ 20 - 1 / 200000000 := by
  have hunits := Rounding.natAbs_halfEven_lt_iff (n := 10 ^ decimalPrecision) rfl (rate * 10 ^ 8)
  have hsome : (quantizeRate rate).isSome ↔
      (Rounding.halfEven (rate * 10 ^ 8)).natAbs < 10 ^ decimalPrecision := by
    unfold quantizeRate
    dsimp only
    split
    · rename_i h
      exact iff_of_true rfl h
    · rename_i h
      exact iff_of_false Bool.false_ne_true h
  rw [hsome, hunits, abs_of_pos (by positivity), decimalPrecision]
  push_cast
  constructor <;> intro h <;> linarith

theorem quantizeRate_eq {rate : ℚ} (hpos : 0 < rate) (hless : rate < 10 ^ 20 - 1 / 200000000) :
    quantizeRate rate = some (roundedRate rate) := by
  obtain ⟨quantized, hquantized⟩ :=
    Option.isSome_iff_exists.mp ((quantizeRate_isSome_iff hpos).mpr hless)
  rw [hquantized, quantizeRate_eq_some hquantized]
  rfl

/-- What the loop inserts for an entry; the outer `none` is an exception. -/
def entryRate (upper : Text → Text) (baseCurrency : Text) (leg : Option ℚ)
    (entry : Text × Quote) : Option (Option ℚ) :=
  (quoteRate upper baseCurrency leg entry.2).bind fun rate ↦
    match rate with
    | none => some none
    | some exact => if exact ≤ 0 then some none else (quantizeRate exact).map some

/-- An entry under its upper-case code. -/
def upperEntry (upper : Text → Text) (entry : Text × Quote) : Text × Quote :=
  (upper entry.1, entry.2)

theorem entryRate_upperEntry : entryRate upper baseCurrency leg (upperEntry upper entry) =
    entryRate upper baseCurrency leg entry := rfl

theorem normalizeEntry_eq (normalized : Table Text ℚ) (rate : Option ℚ)
    (hquote : quoteRate upper baseCurrency leg entry.2 = some rate) :
    normalizeEntry upper normalized (entry.1, rate) =
      Table.insertEntry (entryRate upper baseCurrency leg) normalized (upperEntry upper entry) := by
  unfold normalizeEntry Table.insertEntry
  rw [entryRate_upperEntry, entryRate, hquote, Option.bind_some]
  cases rate with
  | none => rfl
  | some exact =>
    dsimp only
    split
    · rfl
    · rw [Option.map_map]
      rfl

/-- Computing all rates first and then filling the table is one loop over the entries. -/
theorem mapM_foldlM_normalizeEntry (start : Table Text ℚ) :
    ((values.mapM fun entry ↦ (quoteRate upper baseCurrency leg entry.2).map fun rate ↦ (entry.1, rate)).bind
        fun rates ↦ rates.foldlM (normalizeEntry upper) start) =
      (values.map (upperEntry upper)).foldlM
        (Table.insertEntry (entryRate upper baseCurrency leg)) start := by
  induction values generalizing start with
  | nil => rfl
  | cons entry rest ih =>
    simp only [List.mapM_cons, List.map_cons, List.foldlM_cons, Option.bind_eq_bind, Option.pure_def]
    cases hquote : quoteRate upper baseCurrency leg entry.2 with
    | none => simp [Table.insertEntry, entryRate, upperEntry, hquote]
    | some rate =>
      rw [← normalizeEntry_eq start rate hquote]
      simp only [Option.map_some, Option.bind_some, Option.bind_assoc, List.foldlM_cons,
        Option.bind_eq_bind]
      cases normalizeEntry upper start (entry.1, rate) with
      | none => simp
      | some middle => exact ih middle

theorem foldlM_normalizeEntry_none (codes : List Text) (start : Table Text ℚ) :
    (codes.map fun code ↦ (code, none)).foldlM (normalizeEntry upper) start = some start := by
  induction codes with
  | nil => rfl
  | cons code rest ih => exact ih

/-- `normalize_to_usd_pivot` as one loop. -/
theorem normalizeToUsdPivot_eq : normalizeToUsdPivot upper baseCurrency values =
    ((values.map (upperEntry upper)).foldlM
      (Table.insertEntry (entryRate upper baseCurrency (usdLeg values))) ∅).map
        fun filled ↦ filled.insert ("USD" : Text) 1 := by
  have hnormalize : normalizeToUsdPivot upper baseCurrency values =
      ((candidateRates upper baseCurrency values).bind fun rates ↦
        rates.foldlM (normalizeEntry upper) ∅).map fun filled ↦ filled.insert ("USD" : Text) 1 := by
    rw [Option.map_bind]
    unfold normalizeToUsdPivot
    simp only [Option.bind_eq_bind, Option.pure_def, Function.comp_def, Option.map_eq_bind]
  have htotal (rateOf : Text × Quote → Option ℚ) :
      (values.mapM fun entry ↦ (some (rateOf entry)).map fun rate ↦ (entry.1, rate)) =
        some (values.map fun entry ↦ (entry.1, rateOf entry)) :=
    List.mapM_pure
  rw [hnormalize, ← mapM_foldlM_normalizeEntry]
  unfold candidateRates quoteRate
  by_cases hbase : upper baseCurrency = "USD"
  · simp only [if_pos hbase]
    rw [htotal]
  · simp only [if_neg hbase]
    cases usdLeg values with
    | none =>
      -- no leg to divide by: no candidates, or candidates that are all skipped
      simp only [Option.elim_none]
      rw [htotal, Option.bind_some, Option.bind_some]
      have hnone := @foldlM_normalizeEntry_none upper (values.map Prod.fst) ∅
      rw [List.map_map] at hnone
      exact congrArg _ hnone.symm
    | some usdValue => rfl

theorem normalizeToUsdPivot_isSome : (normalizeToUsdPivot upper baseCurrency values).isSome ↔
    ∀ entry ∈ values, (entryRate upper baseCurrency (usdLeg values) entry).isSome := by
  rw [normalizeToUsdPivot_eq, Option.isSome_map, Table.foldlM_insertEntry_isSome, List.forall_mem_map]
  rfl

theorem entryRate_of_quote {exact : ℚ}
    (hquote : quoteRate upper baseCurrency leg entry.2 = some (some exact)) :
    entryRate upper baseCurrency leg entry =
      if exact ≤ 0 then some none else (quantizeRate exact).map some := by
  rw [entryRate, hquote, Option.bind_some]

/-! ## The last entry of a code -/

theorem entryRate_isSome_iff : (entryRate upper baseCurrency leg entry).isSome ↔
    ∃ rate, quoteRate upper baseCurrency leg entry.2 = some rate ∧
      ∀ exact ∈ rate, exact < 10 ^ 20 - 1 / 200000000 := by
  cases hquote : quoteRate upper baseCurrency leg entry.2 with
  | none => simp [entryRate, hquote]
  | some rate =>
    cases rate with
    | none => simp [entryRate, hquote]
    | some exact =>
      rw [entryRate_of_quote hquote]
      rcases le_or_gt exact 0 with hneg | hpos
      · rw [if_pos hneg]
        refine iff_of_true rfl ⟨some exact, rfl, ?_⟩
        rintro _ ⟨⟩
        linarith
      · rw [if_neg (not_le.mpr hpos), Option.isSome_map, quantizeRate_isSome_iff hpos]
        simp

theorem entryRate_eq_keptRate (h : (entryRate upper baseCurrency leg entry).isSome) :
    entryRate upper baseCurrency leg entry =
      some ((keptRate upper baseCurrency leg entry).map roundedRate) := by
  obtain ⟨rate, hquote, hless⟩ := entryRate_isSome_iff.mp h
  rw [keptRate, hquote, Option.join_some]
  cases rate with
  | none => rw [entryRate, hquote, Option.bind_some, Option.filter_none, Option.map_none]
  | some exact =>
    rw [entryRate_of_quote hquote]
    rcases le_or_gt exact 0 with hneg | hpos
    · simp [hneg]
    · rw [if_neg (not_le.mpr hpos), quantizeRate_eq hpos (hless exact rfl)]
      simp [hpos]

/-- The normalized rate of a code. -/
theorem lookup_normalized_last (h : normalizeToUsdPivot upper baseCurrency values = some normalized)
    (hcode : code ≠ "USD") :
    normalized.lookup code = (lastRate upper baseCurrency values code).map roundedRate := by
  have hrates := normalizeToUsdPivot_isSome.mp (Option.isSome_iff_exists.mpr ⟨_, h⟩)
  rw [normalizeToUsdPivot_eq] at h
  obtain ⟨filled, hfilled, rfl⟩ := Option.map_eq_some_iff.mp h
  have hkept : ∀ entry ∈ values.map (upperEntry upper), entryRate upper baseCurrency (usdLeg values) entry =
      some ((keptRate upper baseCurrency (usdLeg values) entry).map roundedRate) := by
    intro entry hmem
    obtain ⟨original, horiginal, rfl⟩ := List.mem_map.mp hmem
    exact entryRate_eq_keptRate (hrates original horiginal)
  rw [Table.lookup_insert_eq, if_neg hcode, Table.lookup_foldlM_insertEntry_last hfilled hkept,
    AList.lookup_empty, Option.or_none, lastRate, List.map_findSome?, ← List.map_reverse,
    List.findSome?_map]
  congr 1
  funext entry
  exact (apply_ite (Option.map roundedRate) (upper entry.1 = code) _ none).symm

theorem mem_writtenCodes : code ∈ writtenCodes upper baseCurrency values ↔
    code = "USD" ∨ (lastRate upper baseCurrency values code).isSome := by
  unfold writtenCodes lastRate
  rw [List.mem_dedup, List.mem_cons, List.findSome?_isSome_iff]
  apply or_congr Iff.rfl
  constructor
  · intro h
    obtain ⟨entry, hentry, rfl⟩ := List.mem_map.mp h
    obtain ⟨hmem, hkept⟩ := List.mem_filter.mp hentry
    exact ⟨entry, List.mem_reverse.mpr hmem, by rw [if_pos rfl]; exact hkept⟩
  · rintro ⟨entry, hmem, hkept⟩
    split at hkept
    · rename_i hcode
      exact List.mem_map.mpr ⟨entry, List.mem_filter.mpr ⟨List.mem_reverse.mp hmem, hkept⟩, hcode⟩
    · cases hkept

/-- The keys of the normalized rates. -/
theorem codes_perm (h : normalizeToUsdPivot upper baseCurrency values = some normalized) :
    ((Table.rows normalized).map Prod.fst).Perm (writtenCodes upper baseCurrency values) := by
  refine (List.perm_ext_iff_of_nodup (Table.rows_keys_nodup normalized) (List.nodup_dedup _)).mpr
    fun code ↦ ?_
  have hkey : code ∈ (Table.rows normalized).map Prod.fst ↔ (normalized.lookup code).isSome := by
    rw [List.mem_map, Option.isSome_iff_exists]
    constructor
    · rintro ⟨row, hrow, rfl⟩
      exact ⟨row.2, Table.mem_rows.mp hrow⟩
    · rintro ⟨rate, hrate⟩
      exact ⟨(code, rate), Table.mem_rows.mpr hrate, rfl⟩
  refine hkey.trans (Iff.trans ?_ mem_writtenCodes.symm)
  by_cases hcode : code = "USD"
  · rw [hcode, lookup_usd h]
    exact iff_of_true rfl (.inl rfl)
  · rw [lookup_normalized_last h hcode, Option.isSome_map]
    exact (or_iff_right hcode).symm

end

end VoiceSpend
