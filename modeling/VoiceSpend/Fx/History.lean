import VoiceSpend.Fx.Ingest
import VoiceSpend.Library.AsOf

/-!
# Conversions and later snapshots

A conversion on a day reads, for each currency but the dollar, the entry in force on that day. So a
snapshot of a later day does not show, and one of an earlier day shows only where no other rate of
the currency lies between.
-/

namespace VoiceSpend

open AsOf

/-- One payload of a provider, as `ingest_snapshot` is called with it. -/
structure Snapshot where
  provider : FXProvider
  values : Table Text Quote
  rateDate : Date

/-- The rates table after a call of `ingest_snapshot`; one that raises writes nothing. -/
def afterIngest (upper : Text → Text) (rates : FxTable) (snapshot : Snapshot) : FxTable :=
  (ingestSnapshot upper snapshot.provider rates snapshot.values snapshot.rateDate).elim rates Prod.fst

/-- The snapshot writes a rate under the code. -/
def Snapshot.Writes (upper : Text → Text) (snapshot : Snapshot) (code : Text) : Prop :=
  ∃ quotes, payloadRows upper snapshot.provider.baseCurrency (Table.rows snapshot.values) = some quotes ∧
    code ∈ quotes.map Prod.fst

/-- The rates of one currency, by day. -/
def rateHistory (rates : FxTable) (code : Text) : Date → Option FxRate :=
  fun day ↦ rates.lookup (code, day)

/-- What a snapshot may change about conversions. Codes are those of the query, without blanks at the end. -/
structure KeepsConversions (upper : Text → Text) (before : FxTable) (snapshot : Snapshot)
    (after : FxTable) : Prop where
  earlier : ∀ amount fromCurrency toCurrency asOf, asOf < snapshot.rateDate →
    convert after amount fromCurrency toCurrency asOf =
      convert before amount fromCurrency toCurrency asOf
  later : ∀ amount fromCurrency toCurrency asOf, snapshot.rateDate ≤ asOf →
    convert after amount fromCurrency toCurrency asOf ≠ convert before amount fromCurrency toCurrency asOf →
      ∃ code, (code = fromCurrency ∨ code = toCurrency) ∧ code ≠ "USD" ∧
        snapshot.Writes upper code.unpadded ∧
          ∀ day, snapshot.rateDate < day → day ≤ asOf → before.lookup (code.unpadded, day) = none

/-- The rate a conversion uses: the dollar's own, or the one of the greatest date not after the day. -/
def UsesRate (rates : FxTable) (code : Text) (asOf : Date) (rate : ℚ) : Prop :=
  code = "USD" ∧ rate = 1 ∨ code ≠ "USD" ∧
    ∃ day row, InForce (rateHistory rates code.unpadded) asOf day row ∧ row.ratePerUsd.toRat = rate

/-- What a conversion is, from the dates of the stored rates. -/
structure ConvertsByDate (rates : FxTable) : Prop where
  missing : ∀ amount fromCurrency toCurrency asOf,
    convert rates amount fromCurrency toCurrency asOf = some none ↔ fromCurrency ≠ toCurrency ∧
      ∃ code, (code = fromCurrency ∨ code = toCurrency) ∧ code ≠ "USD" ∧
        ∀ day, day ≤ asOf → rates.lookup (code.unpadded, day) = none
  same : ∀ amount currency asOf, convert rates amount currency currency asOf = some (some amount)
  found : ∀ amount fromCurrency toCurrency asOf, fromCurrency ≠ toCurrency →
    convert rates amount fromCurrency toCurrency asOf ≠ some none →
      ∃ rateFrom rateTo, UsesRate rates fromCurrency asOf rateFrom ∧
        UsesRate rates toCurrency asOf rateTo ∧
        convert rates amount fromCurrency toCurrency asOf =
          (convertAmount amount rateFrom rateTo).map some

section

variable {rates before after : FxTable} {code : Text} {asOf : Date} {rate : ℚ}

/-! ## One rate -/

theorem ratePerUsd_eq_some_iff :
    ratePerUsd rates code asOf = some rate ↔ UsesRate rates code asOf rate := by
  unfold UsesRate
  by_cases hcode : code = "USD"
  · simp [ratePerUsd, hcode, eq_comm]
  · have hlatest {value : ℚ} (h : ratePerUsd rates code asOf = some value) :
        ∃ day row, InForce (rateHistory rates code.unpadded) asOf day row ∧ row.ratePerUsd.toRat = value := by
      obtain ⟨day, row, hrow, hvalue, hday, hlast⟩ := ratePerUsd_latest hcode h
      exact ⟨day, row, ⟨hrow, hday, hlast⟩, hvalue⟩
    simp only [hcode, false_and, false_or, ne_eq, not_false_eq_true, true_and]
    constructor
    · exact hlatest
    · rintro ⟨day, row, hforce, rfl⟩
      cases hrate : ratePerUsd rates code asOf with
      | none =>
        have hmem := mem_knownRates.mpr ⟨hforce.entered, rfl, hforce.not_after⟩
        rw [ratePerUsd, if_neg hcode, Option.map_eq_none_iff, List.head?_eq_none_iff] at hrate
        rw [hrate] at hmem
        exact absurd hmem List.not_mem_nil
      | some value =>
        obtain ⟨day', row', hforce', rfl⟩ := hlatest hrate
        rw [(hforce'.unique hforce).2]

theorem ratePerUsd_eq_none_iff :
    ratePerUsd rates code asOf = none ↔
      code ≠ "USD" ∧ ∀ day, day ≤ asOf → rates.lookup (code.unpadded, day) = none := by
  by_cases hcode : code = "USD"
  · simp [ratePerUsd, hcode]
  · rw [ratePerUsd, if_neg hcode, Option.map_eq_none_iff, List.head?_eq_none_iff]
    constructor
    · intro hnone
      refine ⟨hcode, fun day hday ↦ Option.eq_none_iff_forall_ne_some.mpr fun row hrow ↦ ?_⟩
      have hmem := mem_knownRates.mpr ⟨hrow, rfl, hday⟩
      rw [hnone] at hmem
      exact absurd hmem List.not_mem_nil
    · rintro ⟨_, hnone⟩
      rw [List.eq_nil_iff_forall_not_mem]
      rintro ⟨⟨other, day⟩, row⟩ hmem
      obtain ⟨hrow, rfl, hday⟩ := mem_knownRates.mp hmem
      cases (hnone day hday).symm.trans hrow

/-- Tables with the same entry in force give the same rate. -/
theorem ratePerUsd_congr (h : ∀ day row, InForce (rateHistory after code.unpadded) asOf day row ↔
      InForce (rateHistory before code.unpadded) asOf day row) :
    ratePerUsd after code asOf = ratePerUsd before code asOf := by
  apply Option.ext
  intro rate
  rw [ratePerUsd_eq_some_iff, ratePerUsd_eq_some_iff]
  simp only [UsesRate, h]

end

/-! ## One snapshot -/

/-- An upsert leaves other days and other codes alone. -/
theorem lookup_upsertRates_other {quotes : List (Text × Rate)} {start : FxTable} {rateDate day : Date}
    {source : String} {code : Text} (h : day = rateDate → code ∉ quotes.map Prod.fst) :
    (upsertRates start quotes rateDate source).lookup (code, day) = start.lookup (code, day) := by
  unfold upsertRates
  induction quotes generalizing start with
  | nil => rfl
  | cons quote rest ih =>
    have hne : (code, day) ≠ (quote.1, rateDate) := by
      intro heq
      obtain ⟨hcode, hday⟩ := Prod.mk.inj heq
      exact h hday (by rw [hcode]; exact List.mem_cons_self)
    rw [List.foldl_cons, ih fun hday hmem ↦ h hday (List.mem_cons_of_mem _ hmem)]
    exact AList.lookup_insert_ne hne

section

variable {upper : Text → Text} {before after : FxTable} {snapshot : Snapshot} {result : IngestResult}

/-- A completed ingest changes rates of the snapshot's codes on the snapshot's day only. -/
theorem ingestSnapshot_other (h : ingestSnapshot upper snapshot.provider before snapshot.values
      snapshot.rateDate = some (after, result)) {code : Text} {day : Date}
    (hother : day = snapshot.rateDate → ¬ snapshot.Writes upper code) :
    after.lookup (code, day) = before.lookup (code, day) := by
  obtain ⟨_, quotes, hquotes, rfl⟩ := ingestSnapshot_eq_some h
  exact lookup_upsertRates_other fun hday hmem ↦ hother hday ⟨quotes, hquotes, hmem⟩

/-- A rate that differs after an ingest is one of the snapshot, with no other in between. -/
theorem ratePerUsd_changed (h : ingestSnapshot upper snapshot.provider before snapshot.values
      snapshot.rateDate = some (after, result)) {code : Text} {asOf : Date}
    (hchanged : ratePerUsd after code asOf ≠ ratePerUsd before code asOf) :
    code ≠ "USD" ∧ snapshot.Writes upper code.unpadded ∧ snapshot.rateDate ≤ asOf ∧
      ∀ day, snapshot.rateDate < day → day ≤ asOf → before.lookup (code.unpadded, day) = none := by
  have hsame (day : Date) (hday : day ≠ snapshot.rateDate) :
      rateHistory after code.unpadded day = rateHistory before code.unpadded day :=
    ingestSnapshot_other h fun heq ↦ absurd heq hday
  refine ⟨fun hcode ↦ hchanged ?_, ?_, ?_, ?_⟩
  · rw [ratePerUsd, ratePerUsd, if_pos hcode, if_pos hcode]
  · by_contra hnot
    have hall : rateHistory after code.unpadded = rateHistory before code.unpadded :=
      funext fun day ↦ ingestSnapshot_other h fun _ ↦ hnot
    exact hchanged (ratePerUsd_congr fun day row ↦ by rw [hall])
  · by_contra hlater
    have hbefore (day : Date) (hday : day ≤ asOf) :
        rateHistory after code.unpadded day = rateHistory before code.unpadded day :=
      hsame day fun heq ↦ hlater (heq ▸ hday)
    refine hchanged (ratePerUsd_congr fun day row ↦ ⟨fun hforce ↦ ?_, fun hforce ↦ ?_⟩)
    · exact hforce.congr fun other hother ↦ (hbefore other hother).symm
    · exact hforce.congr hbefore
  · intro between hafter hbetween
    by_contra hsome
    exact hchanged (ratePerUsd_congr fun day row ↦ inForce_iff_of_entry_between hafter hbetween
      (Option.isSome_iff_ne_none.mpr hsome) hsame)

theorem keepsConversions_of_ingest (h : ingestSnapshot upper snapshot.provider before snapshot.values
      snapshot.rateDate = some (after, result)) : KeepsConversions upper before snapshot after := by
  have hconvert {amount : ℚ} {fromCurrency toCurrency : Text} {asOf : Date}
      (hne : convert after amount fromCurrency toCurrency asOf ≠
        convert before amount fromCurrency toCurrency asOf) :
      ∃ code, (code = fromCurrency ∨ code = toCurrency) ∧
        ratePerUsd after code asOf ≠ ratePerUsd before code asOf := by
    by_contra hnone
    push Not at hnone
    apply hne
    rw [convert, convert, hnone fromCurrency (.inl rfl), hnone toCurrency (.inr rfl)]
  constructor
  · intro amount fromCurrency toCurrency asOf hbefore
    by_contra hne
    obtain ⟨code, _, hchanged⟩ := hconvert hne
    obtain ⟨_, _, hle, _⟩ := ratePerUsd_changed h hchanged
    exact absurd hle (not_le.mpr hbefore)
  · intro amount fromCurrency toCurrency asOf _ hne
    obtain ⟨code, hcode, hchanged⟩ := hconvert hne
    obtain ⟨husd, hwrites, _, hgap⟩ := ratePerUsd_changed h hchanged
    exact ⟨code, hcode, husd, hwrites, hgap⟩

end

/-! ## Any table -/

theorem convertsByDate (rates : FxTable) : ConvertsByDate rates := by
  have hmissing (amount : ℚ) {fromCurrency toCurrency : Text} (hne : fromCurrency ≠ toCurrency)
      (asOf : Date) : convert rates amount fromCurrency toCurrency asOf = some none ↔
        RateMissing rates fromCurrency toCurrency asOf := convert_none_iff hne asOf
  refine ⟨fun amount fromCurrency toCurrency asOf ↦ ?_, fun amount currency asOf ↦ ?_,
    fun amount fromCurrency toCurrency asOf hne hfound ↦ ?_⟩
  · by_cases hsame : fromCurrency = toCurrency
    · simp [convert, hsame]
    · rw [hmissing amount hsame asOf, RateMissing, ratePerUsd_eq_none_iff, ratePerUsd_eq_none_iff]
      simp only [ne_eq, hsame, not_false_eq_true, true_and, or_and_right, exists_or, exists_eq_left]
  · rw [convert, if_pos rfl]
  · rw [ne_eq, hmissing amount hne asOf, RateMissing, not_or] at hfound
    obtain ⟨rateFrom, hfrom⟩ := Option.ne_none_iff_exists'.mp hfound.1
    obtain ⟨rateTo, hto⟩ := Option.ne_none_iff_exists'.mp hfound.2
    refine ⟨rateFrom, rateTo, ratePerUsd_eq_some_iff.mp hfrom, ratePerUsd_eq_some_iff.mp hto, ?_⟩
    rw [convert, if_neg hne, hfrom, hto]

/-- A snapshot changes no conversion on an earlier day, nor one on a later day that another rate
is nearer to; and after any ingests a conversion uses the rates in force on its day. -/
theorem ingest_keeps_conversions (upper : Text → Text) (rates after : FxTable) (snapshot : Snapshot)
    (result : IngestResult)
    (h : ingestSnapshot upper snapshot.provider rates snapshot.values snapshot.rateDate =
      some (after, result)) :
    KeepsConversions upper rates snapshot after ∧
      ∀ history : List Snapshot, ConvertsByDate (history.foldl (afterIngest upper) rates) :=
  ⟨keepsConversions_of_ingest h, fun _ ↦ convertsByDate _⟩

/-- Two euros for a dollar, on the fifth day. -/
def euroSnapshot : Snapshot where
  provider := .sample "USD" fun _ ↦ none
  values := AList.singleton "EUR" (.finite ⟨2, 0⟩)
  rateDate := 5

theorem ingest_keeps_conversions_sample : ∃ after,
    ratePerUsd after "EUR" 6 = some 2 ∧ KeepsConversions id ∅ euroSnapshot after := by
  have hrate : (ingestSnapshot id euroSnapshot.provider ∅ euroSnapshot.values euroSnapshot.rateDate).bind
      (fun ingested ↦ ratePerUsd ingested.1 "EUR" 6) = some 2 := by
    decide +kernel
  obtain ⟨⟨after, result⟩, hafter, htwo⟩ := Option.bind_eq_some_iff.mp hrate
  exact ⟨after, htwo, (ingest_keeps_conversions id ∅ after euroSnapshot result hafter).1⟩

end VoiceSpend
