import VoiceSpend.Parse.Pipeline
import VoiceSpend.Sync.Stepwise
import VoiceSpend.Sync.Truthful

/-!
# The displayed and the stored base amount

The parse response shows an amount converted on the day of its `spent_at` as the model wrote it; the
sweep converts the pushed row on the day of the `timestamptz` it reads back, which is the UTC day. Both
use `convert`, so they come to the same exactly when the rates of the two days do.
-/

namespace VoiceSpend

/-- On both days a rate is missing, or the 28-digit products with the rates of the two days round to the
same ten-thousandths. -/
def SameConversion (rates : FxTable) (amount : ℚ) (fromCurrency toCurrency : Text)
    (first second : Date) : Prop :=
  (RateMissing rates fromCurrency toCurrency first ∧ RateMissing rates fromCurrency toCurrency second) ∨
    ∃ rateFrom rateTo rateFrom' rateTo',
      (ratePerUsd rates fromCurrency first = some rateFrom ∧
        ratePerUsd rates toCurrency first = some rateTo) ∧
      (ratePerUsd rates fromCurrency second = some rateFrom' ∧
        ratePerUsd rates toCurrency second = some rateTo') ∧
      Rounding.halfEven (decimalProduct amount rateFrom rateTo * 10 ^ 4) =
        Rounding.halfEven (decimalProduct amount rateFrom' rateTo' * 10 ^ 4)

/-- A client pushes the amount, the currency and the time of an extraction as they were displayed, and the
push writes them. -/
structure PushedUnchanged (rt : Runtime) (settings : Settings) (db : Db) (user : UUID)
    (batch : List RawRecord) (now clock : Instant) (extraction : ExtractionOut) (record : ExpenseSyncIn)
    (pushed : Db) : Prop where
  pushed : ∃ response, pushSync rt settings db user batch now clock = some (pushed, response) ∧
    Applied response.results record.id
  selected : selected db user (batch.map (classify rt)) record.id = some record
  amount : extraction.amountOriginal = some record.amountOriginal
  currency : extraction.currencyOriginal = some record.currencyOriginal
  spentAt : extraction.spentAt = record.spentAt

/-- A sweep completes with the row of the id in its batch. -/
def Processed (settings : Settings) (rates : FxTable) (db : Db) (userId : Option UUID) (limit : Option ℤ)
    (tie : UUID → ℕ) (now : Instant) (id : UUID) (swept : Db) : Prop :=
  (∃ result, recomputeAmountBase settings db rates userId limit tie now = some (swept, result)) ∧
    ∃ selected ∈ selectBatch db.users db.expenses userId (sweepLimit settings limit).toNat tie,
      selected.id = id

section

variable {rates : FxTable} {amount : ℚ} {fromCurrency toCurrency : Text} {first second : Date}

/-! ## Two days -/

/-- A conversion that completes rounds the product of the rates of its day. -/
theorem rounded_of_convert {asOf : Date} {value : ℚ} (hne : fromCurrency ≠ toCurrency)
    (h : convert rates amount fromCurrency toCurrency asOf = some (some value)) :
    ∃ rateFrom rateTo, (ratePerUsd rates fromCurrency asOf = some rateFrom ∧
      ratePerUsd rates toCurrency asOf = some rateTo) ∧
      value = Rounding.halfEven (decimalProduct amount rateFrom rateTo * 10 ^ 4) / 10 ^ 4 := by
  obtain ⟨rateFrom, rateTo, hfrom, hto, hvalue⟩ := rates_of_convert hne h
  refine ⟨rateFrom, rateTo, ⟨hfrom, hto⟩, ?_⟩
  have hnonzero : rateFrom ≠ 0 := by
    intro hzero
    rw [convertAmount, if_pos hzero] at hvalue
    cases hvalue
  rw [convertAmount_eq amount rateTo hnonzero] at hvalue
  exact quantize_eq_some hvalue

theorem known_of_convert {asOf : Date} {value : ℚ} (hne : fromCurrency ≠ toCurrency)
    (h : convert rates amount fromCurrency toCurrency asOf = some (some value)) :
    ¬ RateMissing rates fromCurrency toCurrency asOf := by
  rw [← @convert_none_iff rates amount fromCurrency toCurrency hne asOf, h]
  simp

/-- Where neither conversion raises, the two days agree exactly under `SameConversion`. -/
theorem convert_eq_iff {displayed stored : Option ℚ} (hne : fromCurrency ≠ toCurrency)
    (hfirst : convert rates amount fromCurrency toCurrency first = some displayed)
    (hsecond : convert rates amount fromCurrency toCurrency second = some stored) :
    stored = displayed ↔ SameConversion rates amount fromCurrency toCurrency first second := by
  unfold SameConversion
  cases displayed with
  | none =>
    have hmissing := (convert_none_iff hne first).mp hfirst
    cases stored with
    | none => exact iff_of_true rfl (.inl ⟨hmissing, (convert_none_iff hne second).mp hsecond⟩)
    | some value =>
      refine iff_of_false (by simp) ?_
      rintro (⟨_, hnone⟩ | ⟨_, _, _, _, hrates, _⟩)
      · exact known_of_convert hne hsecond hnone
      · exact hmissing.not_known hrates
  | some shown =>
    obtain ⟨rateFrom, rateTo, hrates, hshown⟩ := rounded_of_convert hne hfirst
    cases stored with
    | none =>
      have hmissing := (convert_none_iff hne second).mp hsecond
      refine iff_of_false (by simp) ?_
      rintro (⟨hnone, _⟩ | ⟨_, _, _, _, _, hrates, _⟩)
      · exact known_of_convert hne hfirst hnone
      · exact hmissing.not_known hrates
    | some value =>
      obtain ⟨rateFrom', rateTo', hrates', hvalue⟩ := rounded_of_convert hne hsecond
      rw [Option.some.injEq, hshown, hvalue, div_left_inj' (by norm_num), Int.cast_inj]
      constructor
      · intro heq
        exact .inr ⟨rateFrom, rateTo, rateFrom', rateTo', hrates, hrates', heq.symm⟩
      · rintro (⟨hnone, _⟩ | ⟨_, _, _, _, ⟨hfrom, hto⟩, ⟨hfrom', hto'⟩, heq⟩)
        · exact absurd hnone (known_of_convert hne hfirst)
        · cases hrates.1.symm.trans hfrom
          cases hrates.2.symm.trans hto
          cases hrates'.1.symm.trans hfrom'
          cases hrates'.2.symm.trans hto'
          exact heq.symm

end

/-! ## The two paths -/

section

variable {rt : ParseRuntime} {parseSettings : ParseSettings} {settings : Settings} {rates : FxTable}
  {baseCurrency : Text} {knownCategories : List Text} {referenceTime : DateTime}
  {outcome : ExtractionResult} {status : ParseStatusLiteral} {extraction : ExtractionOut}
  {db pushed later swept : Db} {user : UUID} {batch : List RawRecord} {now clock sweepTime : Instant}
  {record : ExpenseSyncIn} {userId : Option UUID} {limit : Option ℤ} {tie : UUID → ℕ}

/-- The displayed amount is the conversion on the day of the displayed time. -/
theorem displayed_convert {amount : Decimal} {currency : Text}
    (h : toResponse rt parseSettings rates baseCurrency knownCategories referenceTime outcome =
      some (status, some extraction))
    (hamount : extraction.amountOriginal = some amount)
    (hcurrency : extraction.currencyOriginal = some currency) :
    convert rates amount.toRat currency baseCurrency extraction.spentAt.date =
      some extraction.amountBase := by
  obtain ⟨raw, hbuilt⟩ : ∃ raw, Built rt rates baseCurrency referenceTime raw extraction := by
    rcases toResponse_cases h with heq | ⟨raw, _, _, heq, _, hbuilt⟩
    · cases heq
    · cases heq
      exact ⟨raw, hbuilt⟩
  have hbase := hbuilt.base
  have hfield := hbuilt.amount
  rw [hcurrency] at hbase
  rw [hamount] at hfield
  cases hraw : raw.amount with
  | none =>
    rw [hraw] at hfield
    cases hfield
  | some value =>
    rw [hraw] at hfield hbase
    obtain ⟨decimal, hdecimal, heq⟩ := Option.map_eq_some_iff.mp hfield
    cases heq
    cases value with
    | finite shortest =>
      cases hdecimal
      exact (convertDecimal_finite ..).symm.trans hbase
    | infinity negative => cases hdecimal
    | nan => cases hdecimal

/-- The stored row of a push that was applied. -/
theorem PushedUnchanged.row
    (h : PushedUnchanged rt.toRuntime settings db user batch now clock extraction record pushed) :
    ∃ row, pushed.expenses.lookup record.id = some row ∧ row.userId = user ∧
      record.toColumns rt.toRuntime = some row.client := by
  obtain ⟨response, hpush, result, hresult, hid, hstatus⟩ := h.pushed
  obtain ⟨returned, hspec⟩ := pushSync_spec hpush
  obtain ⟨id, _, hreported⟩ := hspec.reported hresult
  cases hreported with
  | rejected | stale => cases hstatus
  | applied serverSeq inserted accepted wrote =>
    cases hid
    obtain ⟨row, hrow, howner, _, hcolumns⟩ := hspec.applied_row h.selected wrote
    exact ⟨row, hrow, howner, hcolumns⟩

/-- The columns a conversion reads, from the record they were stored from. -/
theorem ExpenseSyncIn.inputs_of_toColumns {rt : Runtime} {columns : ClientColumns}
    (h : record.toColumns rt = some columns) : record.amountOriginal.toMoney = some columns.amountOriginal ∧
      columns.currencyOriginal = record.currencyOriginal ∧
        record.spentAt.instant rt = some columns.spentAt := by
  simp only [ExpenseSyncIn.toColumns, Option.bind_eq_bind, Option.bind_eq_some_iff, Option.pure_def] at h
  obtain ⟨amountOriginal, hamount, spentAt, hspentAt, _, _, _, _, hcolumns⟩ := h
  cases hcolumns
  exact ⟨hamount, rfl, hspentAt⟩

/-- An amount that fits the column exactly is stored exactly. -/
theorem Decimal.toRat_of_toMoney {amount : Decimal} {money stored : Money}
    (hexact : money.toRat = amount.toRat) (h : amount.toMoney = some stored) :
    stored.toRat = amount.toRat := by
  unfold Decimal.toMoney at h
  split at h
  · cases h
  · have hunits : amount.toRat = money.units / 10 ^ 4 := hexact.symm
    exact Numeric.ofRat_exact hunits h

/-- A sweep leaves the converted amount of every row of its batch, or NULL where a rate is missing. -/
theorem Processed.stored {id : UUID} {row : Expense}
    (h : Processed settings rates later userId limit tie sweepTime id swept)
    (hrow : later.expenses.lookup id = some row)
    (hbase : later.users.lookup row.userId = some ⟨baseCurrency⟩) :
    convert rates row.client.amountOriginal.toRat row.client.currencyOriginal baseCurrency
      row.client.spentAt.date =
        some (((swept.expenses.lookup id).bind (·.amountBase)).map Numeric.toRat) := by
  obtain ⟨⟨result, hsweep⟩, selected, hmem, rfl⟩ := h
  obtain ⟨other, new, hother, hselected, hnew, hfill⟩ :=
    (recomputeAmountBase_spec hsweep).lookup_selected hmem
  cases hrow.symm.trans hother
  obtain ⟨_, _, _, owner, howner, heq⟩ := sweepRow?_eq_some hselected
  cases hbase.symm.trans howner
  rw [hnew, Option.bind_some]
  unfold SweepRow.fill at hfill
  rw [heq] at hfill
  dsimp only at hfill
  split at hfill
  · cases hfill
  · rename_i hmissing
    rw [hmissing, ← Option.some.inj hfill]
    rfl
  · rename_i value hvalue
    obtain ⟨stored, hstored, hsome⟩ := Option.map_eq_some_iff.mp hfill
    rw [hvalue, ← hsome, Option.map_some, toRat_of_convert hvalue hstored]

/-- The two conversions: the displayed one on the local day, the stored one on the UTC day. -/
theorem displayed_and_stored {money : Money} {spentAt : Instant}
    (hshown : toResponse rt parseSettings rates baseCurrency knownCategories referenceTime outcome =
      some (status, some extraction))
    (hpushed : PushedUnchanged rt.toRuntime settings db user batch now clock extraction record pushed)
    (hexact : money.toRat = record.amountOriginal.toRat)
    (hspentAt : record.spentAt.instant rt.toRuntime = some spentAt)
    (hkept : (later.expenses.lookup record.id).map (fun row ↦ (row.userId, row.inputs)) =
      (pushed.expenses.lookup record.id).map fun row ↦ (row.userId, row.inputs))
    (hbase : later.users.lookup user = some ⟨baseCurrency⟩)
    (hprocessed : Processed settings rates later userId limit tie sweepTime record.id swept) :
    convert rates record.amountOriginal.toRat record.currencyOriginal baseCurrency extraction.spentAt.date =
        some extraction.amountBase ∧
      convert rates record.amountOriginal.toRat record.currencyOriginal baseCurrency spentAt.date =
        some (((swept.expenses.lookup record.id).bind (·.amountBase)).map Numeric.toRat) := by
  refine ⟨displayed_convert hshown hpushed.amount hpushed.currency, ?_⟩
  obtain ⟨row, hrow, howner, hcolumns⟩ := hpushed.row
  obtain ⟨hamount, hcurrency, hinstant⟩ := ExpenseSyncIn.inputs_of_toColumns hcolumns
  cases hinstant.symm.trans hspentAt
  rw [hrow, Option.map_some] at hkept
  obtain ⟨current, hcurrent, hinputs⟩ := Option.map_eq_some_iff.mp hkept
  simp only [Expense.inputs, Prod.mk.injEq] at hinputs
  obtain ⟨hsameOwner, hsameAmount, hsameCurrency, hsameTime⟩ := hinputs
  have hstored := hprocessed.stored hcurrent (by rw [hsameOwner, howner]; exact hbase)
  rw [hsameAmount, hsameCurrency, hsameTime, hcurrency, Decimal.toRat_of_toMoney hexact hamount] at hstored
  exact hstored

end

/-- A displayed base amount and the one a sweep stores for the pushed record are the same exactly when
nothing is converted or the rates of the local day and of the UTC day come to the same; so they are when no
rate of either currency is dated between the two days. -/
theorem displayed_agrees_iff (rt : ParseRuntime) (parseSettings : ParseSettings) (settings : Settings)
    (rates : FxTable) (baseCurrency : Text) (knownCategories : List Text) (referenceTime : DateTime)
    (outcome : ExtractionResult) (status : ParseStatusLiteral) (extraction : ExtractionOut)
    (hshown : toResponse rt parseSettings rates baseCurrency knownCategories referenceTime outcome =
      some (status, some extraction))
    (db pushed : Db) (user : UUID) (batch : List RawRecord) (now clock : Instant) (record : ExpenseSyncIn)
    (hpushed : PushedUnchanged rt.toRuntime settings db user batch now clock extraction record pushed)
    (money : Money) (hexact : money.toRat = record.amountOriginal.toRat)
    (spentAt : Instant) (hspentAt : record.spentAt.instant rt.toRuntime = some spentAt)
    (later swept : Db) (userId : Option UUID) (limit : Option ℤ) (tie : UUID → ℕ) (sweepTime : Instant)
    (hkept : (later.expenses.lookup record.id).map (fun row ↦ (row.userId, row.inputs)) =
      (pushed.expenses.lookup record.id).map fun row ↦ (row.userId, row.inputs))
    (hbase : later.users.lookup user = some ⟨baseCurrency⟩)
    (hprocessed : Processed settings rates later userId limit tie sweepTime record.id swept) :
    (((swept.expenses.lookup record.id).bind (·.amountBase)).map Numeric.toRat = extraction.amountBase ↔
      record.currencyOriginal = baseCurrency ∨ SameConversion rates record.amountOriginal.toRat
        record.currencyOriginal baseCurrency extraction.spentAt.date spentAt.date) ∧
    ((∀ code rateDate, code = record.currencyOriginal ∨ code = baseCurrency →
        (rates.lookup (code.unpadded, rateDate)).isSome →
          (rateDate ≤ extraction.spentAt.date ↔ rateDate ≤ Instant.date spentAt)) →
      ((swept.expenses.lookup record.id).bind (·.amountBase)).map Numeric.toRat = extraction.amountBase) := by
  obtain ⟨hdisplayed, hstored⟩ :=
    displayed_and_stored hshown hpushed hexact hspentAt hkept hbase hprocessed
  generalize ((swept.expenses.lookup record.id).bind (·.amountBase)).map Numeric.toRat = stored at hstored ⊢
  constructor
  · by_cases hsame : record.currencyOriginal = baseCurrency
    · have hunconverted (asOf : Date) : convert rates record.amountOriginal.toRat record.currencyOriginal
          baseCurrency asOf = some (some record.amountOriginal.toRat) := by
        rw [convert, if_pos hsame]
      have hfirst := (hunconverted _).symm.trans hdisplayed
      have hsecond := (hunconverted _).symm.trans hstored
      exact iff_of_true (Option.some.inj (hsecond.symm.trans hfirst)) (.inl hsame)
    · rw [or_iff_right hsame]
      exact convert_eq_iff hsame hdisplayed hstored
  · intro hbetween
    have hconvert := convert_eq_of_no_rate_between record.amountOriginal.toRat hbetween
    exact Option.some.inj (hstored.symm.trans (hconvert.symm.trans hdisplayed))

/-! ## An expense after midnight -/

/-- Two in the morning of the second of January 1970, five hours ahead of UTC. -/
def afterMidnight : DateTime := ⟨93600000000, some 18000000000⟩

/-- A runtime that also reads that time, and the amount of ten in the digits of a float. -/
def aheadRuntime : ParseRuntime := { ParseRuntime.ascii with
  parseDecimal := fun
    | .str "10.0" => .ok ⟨100, -1⟩
    | json => Runtime.ascii.parseDecimal json
  parseDatetime := fun
    | .str "1970-01-02T02:00:00+05:00" => .ok afterMidnight
    | json => Runtime.ascii.parseDatetime json }

/-- Two euros for a dollar on the first of January 1970, and some from the second on. -/
def twoDays (euros : Rate) : FxTable :=
  (AList.singleton (("EUR" : Text), (0 : Date)) (FxRate.mk ⟨200000000, by decide⟩ none)).insert ("EUR", 1)
    ⟨euros, none⟩

/-- Ten euros, spent at the reference time. -/
def tenEuros : RawExtraction where
  amount := some (.finite ⟨⟨100, -1⟩, by decide, by decide, by decide⟩)
  currency := some "EUR"
  category := none
  paymentMethod := none
  merchant := none
  spentAt := none
  confidence := confident
  amount_ge := by
    rintro _ ⟨⟩
    decide +kernel
  confidence_ge := confident_ge
  confidence_le := confident_le

/-- What is displayed of them to a user of dollars. -/
def tenEurosShown (amountBase : ℚ) : ExtractionOut where
  amountOriginal := some ⟨100, -1⟩
  currencyOriginal := some "EUR"
  amountBase := some amountBase
  currencyBase := some "USD"
  category := none
  categoryIsKnown := false
  paymentMethod := none
  merchant := none
  spentAt := afterMidnight
  confidence := confident
  confidence_ge := confident_ge
  confidence_le := confident_le

/-- The record a client pushes for them. -/
def tenEurosRaw : RawRecord :=
  [("id", .str "00000000-0000-0000-0000-000000000003"),
    ("device_id", .str "00000000-0000-0000-0000-000000000002"), ("amount_original", .str "10.0"),
    ("currency_original", .str "EUR"), ("spent_at", .str "1970-01-02T02:00:00+05:00"), ("client_rev", .int 1)]

/-- The same, validated. -/
def tenEurosRecord : ExpenseSyncIn :=
  ⟨⟨3⟩, ⟨2⟩, ⟨100, -1⟩, "EUR", afterMidnight, 1, none, none, none, none, none, none⟩

/-- The sample tables after the push. -/
def tenEurosDb : Db :=
  ((pushSync aheadRuntime.toRuntime sampleSettings sampleDb ⟨1⟩ [tenEurosRaw] 0 0).map (·.1)).getD sampleDb

/-- The tables after a sweep. -/
def tenEurosSwept (rates : FxTable) : Db :=
  ((recomputeAmountBase sampleSettings tenEurosDb rates none none (fun _ ↦ 0) 0).map (·.1)).getD tenEurosDb

theorem tenEuros_pushed (amountBase : ℚ) : PushedUnchanged aheadRuntime.toRuntime sampleSettings sampleDb ⟨1⟩
    [tenEurosRaw] 0 0 (tenEurosShown amountBase) tenEurosRecord tenEurosDb where
  pushed := by
    have hresults : (pushSync aheadRuntime.toRuntime sampleSettings sampleDb ⟨1⟩ [tenEurosRaw] 0 0).map
        (fun out ↦ out.2.results.map fun result ↦ (result.id, result.status)) = some [(⟨3⟩, .applied)] := by
      decide +kernel
    obtain ⟨⟨after, response⟩, hpush, hresults⟩ := Option.map_eq_some_iff.mp hresults
    refine ⟨response, ?_, ?_⟩
    · rw [tenEurosDb, hpush]
      rfl
    · obtain ⟨result, hresult, heq⟩ := List.mem_map.mp
        (show (⟨3⟩, .applied) ∈ response.results.map fun result ↦ (result.id, result.status) by
          rw [hresults]; exact List.mem_singleton_self _)
      exact ⟨result, hresult, congrArg Prod.fst heq, congrArg Prod.snd heq⟩
  selected := by
    have hvalid : modelValidate aheadRuntime.toRuntime tenEurosRaw = .ok tenEurosRecord := by decide +kernel
    have hclassify : classify aheadRuntime.toRuntime tenEurosRaw = .valid tenEurosRecord := by
      unfold classify
      rw [hvalid]
    rw [List.map_singleton, hclassify]
    decide +kernel
  amount := rfl
  currency := rfl
  spentAt := rfl

/-- A sweep of the pushed row. -/
theorem tenEuros_processed (rates : FxTable)
    (hcompletes : (recomputeAmountBase sampleSettings tenEurosDb rates none none (fun _ ↦ 0) 0).isSome) :
    Processed sampleSettings rates tenEurosDb none none (fun _ ↦ 0) 0 ⟨3⟩ (tenEurosSwept rates) := by
  obtain ⟨⟨swept, result⟩, hswept⟩ := Option.isSome_iff_exists.mp hcompletes
  refine ⟨⟨result, ?_⟩, ?_⟩
  · rw [tenEurosSwept, hswept]
    rfl
  · have hbatch : ⟨3⟩ ∈ (selectBatch tenEurosDb.users tenEurosDb.expenses none
        (sweepLimit sampleSettings none).toNat fun _ ↦ 0).map (·.id) := by
      decide +kernel
    exact List.mem_map.mp hbatch

/-- At four euros a dollar on the second, two dollars and a half are displayed and five are stored. -/
theorem displayed_disagrees : ¬ ∀ (rt : ParseRuntime) (parseSettings : ParseSettings) (settings : Settings)
    (rates : FxTable) (baseCurrency : Text) (knownCategories : List Text) (referenceTime : DateTime)
    (outcome : ExtractionResult) (status : ParseStatusLiteral) (extraction : ExtractionOut),
    toResponse rt parseSettings rates baseCurrency knownCategories referenceTime outcome =
      some (status, some extraction) →
    ∀ (db pushed : Db) (user : UUID) (batch : List RawRecord) (now clock : Instant) (record : ExpenseSyncIn),
    PushedUnchanged rt.toRuntime settings db user batch now clock extraction record pushed →
    ∀ (money : Money), money.toRat = record.amountOriginal.toRat →
    ∀ (userId : Option UUID) (limit : Option ℤ) (tie : UUID → ℕ) (sweepTime : Instant) (swept : Db),
    pushed.users.lookup user = some ⟨baseCurrency⟩ →
    Processed settings rates pushed userId limit tie sweepTime record.id swept →
      ((swept.expenses.lookup record.id).bind (·.amountBase)).map Numeric.toRat = extraction.amountBase := by
  intro hagrees
  have hsame := hagrees aheadRuntime sampleParseSettings sampleSettings (twoDays ⟨400000000, by decide⟩) "USD"
    [] afterMidnight ⟨some tenEuros, none, none, none⟩ .ok (tenEurosShown (5 / 2)) (by decide +kernel)
    sampleDb tenEurosDb ⟨1⟩ [tenEurosRaw] 0 0 tenEurosRecord (tenEuros_pushed _) ⟨100000, by decide⟩
    (by decide +kernel) none none (fun _ ↦ 0) 0 _ (by decide +kernel)
    (tenEuros_processed _ (by decide +kernel))
  have hstored : ((tenEurosSwept (twoDays ⟨400000000, by decide⟩)).expenses.lookup ⟨3⟩).bind (·.amountBase) =
      some ⟨50000, by decide⟩ := by
    decide +kernel
  rw [show tenEurosRecord.id = ⟨3⟩ from rfl, hstored] at hsame
  revert hsame
  decide +kernel

/-- With the same rate on both days, five dollars are displayed and stored. -/
theorem displayed_agrees_iff_sample :
    (((tenEurosSwept (twoDays ⟨200000000, by decide⟩)).expenses.lookup ⟨3⟩).bind (·.amountBase)).map
      Numeric.toRat = (tenEurosShown 5).amountBase := by
  refine (displayed_agrees_iff aheadRuntime sampleParseSettings sampleSettings
    (twoDays ⟨200000000, by decide⟩) "USD" [] afterMidnight ⟨some tenEuros, none, none, none⟩ .ok
    (tenEurosShown 5) (by decide +kernel) sampleDb tenEurosDb ⟨1⟩ [tenEurosRaw] 0 0 tenEurosRecord
    (tenEuros_pushed _) ⟨100000, by decide⟩ (by decide +kernel) 75600000000 (by decide +kernel) tenEurosDb _
    none none (fun _ ↦ 0) 0 rfl (by decide +kernel) (tenEuros_processed _ (by decide +kernel))).1.mpr
      (.inr ?_)
  refine .inr ⟨2, 1, 2, 1, ⟨?_, rfl⟩, ⟨?_, rfl⟩, rfl⟩ <;> decide +kernel

end VoiceSpend
