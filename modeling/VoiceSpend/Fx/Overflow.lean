import VoiceSpend.Fx.Backlog

/-!
# Can one expense abort a sweep?

The sweep handles a missing rate, but not a conversion that leaves the 28-digit context or the
`NUMERIC(18, 4)` column: either one raises out of the loop, and nothing of the sweep is kept. With
positive rates a row is safe exactly when the 28-digit product of its amount and the ratio of its
rates stays below the largest stored amount by half a unit; a sweep survives exactly when every row
of its batch is safe.
-/

namespace VoiceSpend

/-- Every stored rate is positive. -/
def PositiveRates (rates : FxTable) : Prop :=
  ∀ key row, rates.lookup key = some row → 0 < row.ratePerUsd.toRat

/-- `amount * (rate_to / rate_from)` in the 28-digit context. -/
def decimalProduct (amount rateFrom rateTo : ℚ) : ℚ :=
  Rounding.toDigits 10 decimalPrecision
    (amount * Rounding.toDigits 10 decimalPrecision (rateTo / rateFrom))

/-- The converted amount of a row rounds to one that fits `NUMERIC(18, 4)`. -/
def SweepRow.Safe (rates : FxTable) (row : SweepRow) : Prop :=
  row.currencyOriginal = row.baseCurrency ∨
    ∀ rateFrom rateTo, ratePerUsd rates row.currencyOriginal row.spentAt.date = some rateFrom →
      ratePerUsd rates row.baseCurrency row.spentAt.date = some rateTo →
        |decimalProduct row.amountOriginal.toRat rateFrom rateTo| < 10 ^ 14 - 1 / 20000

/-- The sweep completes; a row that cannot be computed or stored stays NULL, and every other row
of its batch that can be converted is filled. -/
def SweepSurvives (settings : Settings) (rates : FxTable) (db : Db) (userId : Option UUID)
    (limit : Option ℤ) (tie : UUID → ℕ) (now : Instant) : Prop :=
  ∃ after result, recomputeAmountBase settings db rates userId limit tie now = some (after, result) ∧
    ∀ selected ∈ selectBatch db.users db.expenses userId (sweepLimit settings limit).toNat tie,
      ∃ row, after.expenses.lookup selected.id = some row ∧ row.amountBase = (selected.fill rates).join

section

variable {settings : Settings} {rates : FxTable} {db : Db} {userId : Option UUID} {limit : Option ℤ}
  {tie : UUID → ℕ} {now : Instant}

theorem PositiveRates.ratePerUsd_pos (h : PositiveRates rates) {code : Text} {asOf : Date} {rate : ℚ}
    (hrate : ratePerUsd rates code asOf = some rate) : 0 < rate := by
  by_cases hcode : code = "USD"
  · rw [ratePerUsd, if_pos hcode] at hrate
    cases hrate
    exact one_pos
  · obtain ⟨_, row, hrow, rfl, _⟩ := ratePerUsd_latest hcode hrate
    exact h _ row hrow

theorem convertAmount_eq (amount rateTo : ℚ) {rateFrom : ℚ} (hfrom : rateFrom ≠ 0) :
    convertAmount amount rateFrom rateTo = quantize (decimalProduct amount rateFrom rateTo) := by
  rw [convertAmount, if_neg hfrom]
  rfl

/-- An amount can be computed and stored exactly when its 28-digit product is small enough. -/
theorem convertAmount_fits_iff (amount rateTo : ℚ) {rateFrom : ℚ} (hfrom : rateFrom ≠ 0) :
    ((convertAmount amount rateFrom rateTo).bind (Numeric.ofRat 18 4)).isSome ↔
      |decimalProduct amount rateFrom rateTo| < 10 ^ 14 - 1 / 20000 := by
  have hconvert := convertAmount_eq amount rateTo hfrom
  generalize decimalProduct amount rateFrom rateTo = product at hconvert ⊢
  let units := Rounding.halfEven (product * 10 ^ 4)
  have hunits : ((convertAmount amount rateFrom rateTo).bind (Numeric.ofRat 18 4)).isSome ↔
      units.natAbs < 10 ^ 18 := by
    rw [hconvert, quantize]
    split
    · exact Numeric.ofRat_units_isSome 18 4 units
    · rename_i hwide
      have hless : ¬ units.natAbs < 10 ^ 18 := fun h ↦ hwide (lt_trans h (by norm_num [decimalPrecision]))
      exact iff_of_false Bool.false_ne_true hless
  rw [hunits, Rounding.natAbs_halfEven_lt_iff (by norm_num), abs_mul]
  push_cast
  rw [abs_of_pos (show (0 : ℚ) < 10 ^ 4 by norm_num)]
  constructor <;> intro h <;> linarith

/-- A row that divides by no zero is filled or left exactly when it is safe. -/
theorem SweepRow.fill_isSome_iff_of_nonzero (row : SweepRow)
    (hnonzero : row.currencyOriginal ≠ row.baseCurrency → ∀ rateFrom rateTo,
      ratePerUsd rates row.currencyOriginal row.spentAt.date = some rateFrom →
        ratePerUsd rates row.baseCurrency row.spentAt.date = some rateTo → rateFrom ≠ 0) :
    (row.fill rates).isSome ↔ row.Safe rates := by
  unfold SweepRow.fill SweepRow.Safe convert
  by_cases hsame : row.currencyOriginal = row.baseCurrency
  · have hstored := (Numeric.ofRat_units_isSome 18 4 row.amountOriginal.units).mpr row.amountOriginal.fits
    simp only [hsame, if_true, Option.isSome_map, true_or, iff_true]
    exact hstored
  · rw [if_neg hsame]
    cases hfrom : ratePerUsd rates row.currencyOriginal row.spentAt.date with
    | none => simp
    | some rateFrom =>
      cases hto : ratePerUsd rates row.baseCurrency row.spentAt.date with
      | none => simp
      | some rateTo =>
        have hfits := convertAmount_fits_iff row.amountOriginal.toRat rateTo
          (hnonzero hsame rateFrom rateTo hfrom hto)
        simp only
        have hall : (∀ rateFrom' rateTo', some rateFrom = some rateFrom' → some rateTo = some rateTo' →
            |decimalProduct row.amountOriginal.toRat rateFrom' rateTo'| < 10 ^ 14 - 1 / 20000) ↔
              |decimalProduct row.amountOriginal.toRat rateFrom rateTo| < 10 ^ 14 - 1 / 20000 := by
          constructor
          · intro h
            exact h rateFrom rateTo rfl rfl
          · rintro h _ _ ⟨⟩ ⟨⟩
            exact h
        rw [hall, ← hfits, or_iff_right hsame]
        generalize convertAmount row.amountOriginal.toRat rateFrom rateTo = converted
        cases converted with
        | none => rfl
        | some value =>
          dsimp only [Option.map_some, Option.bind_some]
          rw [Option.isSome_map]

theorem SweepRow.fill_isSome_iff (hrates : PositiveRates rates) (row : SweepRow) :
    (row.fill rates).isSome ↔ row.Safe rates :=
  row.fill_isSome_iff_of_nonzero fun _ _ _ hfrom _ ↦ (hrates.ratePerUsd_pos hfrom).ne'

/-- A sweep survives exactly when its limit is not negative and every row of its batch is safe. -/
theorem sweepSurvives_iff (settings : Settings) (rates : FxTable) (db : Db) (userId : Option UUID)
    (limit : Option ℤ) (tie : UUID → ℕ) (now : Instant) (hrates : PositiveRates rates) :
    SweepSurvives settings rates db userId limit tie now ↔ 0 ≤ sweepLimit settings limit ∧
      ∀ selected ∈ selectBatch db.users db.expenses userId (sweepLimit settings limit).toNat tie,
        selected.Safe rates := by
  have hcompletes := @recomputeAmountBase_isSome settings db rates userId limit tie now
  constructor
  · rintro ⟨after, result, hafter, _⟩
    obtain ⟨hlimit, hfill⟩ := hcompletes.mp (by rw [hafter]; rfl)
    exact ⟨hlimit, fun selected hmem ↦ (selected.fill_isSome_iff hrates).mp (hfill selected hmem)⟩
  · rintro ⟨hlimit, hsafe⟩
    obtain ⟨⟨after, result⟩, hafter⟩ := Option.isSome_iff_exists.mp (hcompletes.mpr ⟨hlimit,
      fun selected hmem ↦ (selected.fill_isSome_iff hrates).mpr (hsafe selected hmem)⟩)
    refine ⟨after, result, hafter, fun selected hmem ↦ ?_⟩
    obtain ⟨_, new, _, _, hnew, hfill⟩ := (recomputeAmountBase_spec hafter).lookup_selected hmem
    refine ⟨new, hnew, ?_⟩
    rw [hfill]
    rfl

end

/-! ## An aborted sweep -/

/-- 0.3 dinars for a dollar, from the epoch on. -/
def dinarRates : FxTable := AList.singleton (("KWD" : Text), (0 : Date)) ⟨⟨30000000, by decide⟩, none⟩

theorem dinarRates_positive : PositiveRates dinarRates := by
  intro key row hrow
  have hmem := Table.mem_rows.mpr hrow
  rw [show Table.rows dinarRates = [((("KWD" : Text), (0 : Date)), ⟨⟨30000000, by decide⟩, none⟩)] from rfl,
    List.mem_singleton] at hmem
  cases hmem
  decide +kernel

/-- A user of dollars with a dinar expense of some ten-thousandths and a dollar expense. -/
def dinarDb (units : Money) : Db where
  users := AList.singleton ⟨1⟩ ⟨"USD"⟩
  devices := AList.singleton ⟨2⟩ ⟨⟨1⟩⟩
  expenses := (AList.singleton ⟨10⟩ { unconverted "KWD" 0 with
    client := { (unconverted "KWD" 0).client with amountOriginal := units } }).insert
      ⟨11⟩ (unconverted "USD" 1)
  usageCounters := ∅
  entitlements := ∅
  syncSeq := 0

/-- The largest amount a client can store, in dinars, is more dollars than the column holds. -/
theorem sweep_not_survives : ¬ ∀ (settings : Settings) (rates : FxTable) (db : Db) (userId : Option UUID)
    (limit : Option ℤ) (tie : UUID → ℕ) (now : Instant), PositiveRates rates → 0 ≤ sweepLimit settings limit →
      SweepSurvives settings rates db userId limit tie now := by
  intro hsurvives
  obtain ⟨after, result, hafter, _⟩ := hsurvives sampleSettings dinarRates
    (dinarDb ⟨999999999999999999, by decide⟩) none none (fun _ ↦ 0) 0 dinarRates_positive (by decide)
  have hraises : (recomputeAmountBase sampleSettings (dinarDb ⟨999999999999999999, by decide⟩) dinarRates none
      none (fun _ ↦ 0) 0).isSome = false := by
    decide +kernel
  rw [hafter] at hraises
  cases hraises

/-- Twelve dinars are forty dollars. -/
theorem sweepSurvives_iff_sample : SweepSurvives sampleSettings dinarRates (dinarDb ⟨120000, by decide⟩) none
    none (fun _ ↦ 0) 0 := by
  refine (sweepSurvives_iff sampleSettings dinarRates (dinarDb ⟨120000, by decide⟩) none none (fun _ ↦ 0) 0
    dinarRates_positive).mpr ⟨by decide, ?_⟩
  have hbatch : selectBatch (dinarDb ⟨120000, by decide⟩).users (dinarDb ⟨120000, by decide⟩).expenses none
      (sweepLimit sampleSettings none).toNat (fun _ ↦ 0) =
        [⟨⟨10⟩, ⟨120000, by decide⟩, "KWD", 0, "USD"⟩, ⟨⟨11⟩, ⟨120000, by decide⟩, "USD", 0, "USD"⟩] := by
    decide +kernel
  rw [hbatch, List.forall_mem_cons, List.forall_mem_singleton]
  refine ⟨.inr fun rateFrom rateTo hfrom hto ↦ ?_, .inl rfl⟩
  have hdinar : ratePerUsd dinarRates "KWD" (Instant.date 0) = some (3 / 10) := by decide +kernel
  have hdollar : ratePerUsd dinarRates "USD" (Instant.date 0) = some 1 := rfl
  cases hfrom.symm.trans hdinar
  cases hto.symm.trans hdollar
  decide +kernel

end VoiceSpend
