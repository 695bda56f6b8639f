import VoiceSpend.Fx.Storable
import VoiceSpend.Library.Overlay

/-!
# Backfills

`backfill_range` asks the provider for one date after another and ingests what it gets. A fetch that
raises is passed over, but the fetch is all that its `try` covers: a payload that cannot be
normalized or stored ends the run, and so does the increment on the last date there is. Every date
is committed on its own, so the dates before stay written.
-/

namespace VoiceSpend

open Overlay

/-- `date.max`, the end of the year 9999. -/
def dateMax : Date := 2932896

theorem remaining_lt {finish current : ℤ} (h : current ≤ finish) :
    (finish + 1 - (current + 1)).toNat < (finish + 1 - current).toNat := by
  omega

/-- The loop of `backfill_range`: the rates it leaves, and the results, or `none` if it raises. -/
def backfillFrom (upper : Text → Text) (provider : FXProvider) (finish current : Date) (rates : FxTable)
    (results : List IngestResult) : FxTable × Option (List IngestResult) :=
  if current ≤ finish then
    match provider.fetchForDate current with
    | none =>
      if current < dateMax then backfillFrom upper provider finish (current + 1) rates results
      else (rates, none)
    | some values =>
      match ingestSnapshot upper provider rates values current with
      | none => (rates, none)
      | some (committed, result) =>
        if current < dateMax then
          backfillFrom upper provider finish (current + 1) committed (results ++ [result])
        else (committed, none)
  else (rates, some results)
termination_by (finish + 1 - current).toNat
decreasing_by all_goals exact remaining_lt ‹_›

/-- `backfill_range`. -/
def backfillRange (upper : Text → Text) (provider : FXProvider) (start finish : Date)
    (rates : FxTable) : FxTable × Option (List IngestResult) :=
  backfillFrom upper provider finish start rates []

/-- The rates after several backfills. -/
def backfills (upper : Text → Text) (provider : FXProvider) (rates : FxTable)
    (ranges : List (Date × Date)) : FxTable :=
  ranges.foldl (fun rates range ↦ (backfillRange upper provider range.1 range.2 rates).1) rates

/-! ## What a backfill is for -/

/-- The row the provider has for a code and a date. -/
def FXProvider.row (upper : Text → Text) (provider : FXProvider) (key : Text × Date) :
    Option FxRate := do
  let values ← provider.fetchForDate key.2
  let quotes ← payloadRows upper provider.baseCurrency (Table.rows values)
  let rate ← quotes.lookup key.1
  return ⟨rate, some provider.providerName⟩

/-- The keys of a range of dates. -/
def keysBetween (start finish : Date) : Set (Text × Date) := {key | start ≤ key.2 ∧ key.2 ≤ finish}

/-- The results are those of the dates that could be fetched, in their order. -/
structure Listed (provider : FXProvider) (start finish : Date) (results : List IngestResult) : Prop where
  fetched : ∀ day, day ∈ results.map IngestResult.rateDate ↔
    start ≤ day ∧ day ≤ finish ∧ (provider.fetchForDate day).isSome
  ordered : (results.map IngestResult.rateDate).Pairwise (· < ·)

/-- Backfills of ranges that cover `start` to `finish` do what one of the whole range does. -/
structure Composes (upper : Text → Text) (provider : FXProvider) (rates : FxTable)
    (start finish : Date) (ranges : List (Date × Date)) : Prop where
  returns : ∀ first last, (∀ day, first ≤ day → day ≤ last → start ≤ day ∧ day ≤ finish) →
    ∀ table, ∃ results, (backfillRange upper provider first last table).2 = some results ∧
      Listed provider first last results
  same : ∀ key, (backfills upper provider rates ranges).lookup key =
    (backfillRange upper provider start finish rates).1.lookup key
  again : ∀ first last, (∀ day, first ≤ day → day ≤ last → start ≤ day ∧ day ≤ finish) →
    ∀ key, (backfillRange upper provider first last (backfills upper provider rates ranges)).1.lookup key =
      (backfills upper provider rates ranges).lookup key
  outside : ∀ code day, ¬ (start ≤ day ∧ day ≤ finish) →
    (backfills upper provider rates ranges).lookup (code, day) = rates.lookup (code, day)
  failed : ∀ code day, provider.fetchForDate day = none →
    (backfills upper provider rates ranges).lookup (code, day) = rates.lookup (code, day)
  absent : ∀ (code : Text) day values, provider.fetchForDate day = some values → code ≠ "USD" →
    (∀ entry ∈ Table.rows values, charColumn (upper entry.1) ≠ some code) →
      (backfills upper provider rates ranges).lookup (code, day) = rates.lookup (code, day)

section

variable {upper : Text → Text} {provider : FXProvider} {rates after : FxTable}
  {values : Table Text Quote} {start finish current day : Date} {results : List IngestResult}
  {result : IngestResult}

/-! ## One date -/

theorem ingestSnapshot_isSome_iff : (ingestSnapshot upper provider rates values day).isSome ↔
    StorablePayload upper provider.baseCurrency (Table.rows values) := by
  rw [← payloadRows_isSome_iff, payloadRows, ingestSnapshot]
  cases normalizeToUsdPivot upper provider.baseCurrency (Table.rows values) with
  | none => rfl
  | some normalized =>
    simp only [Option.bind_eq_bind, Option.bind_some]
    cases valuesRows normalized <;> rfl

/-- One date's ingest refreshes that date from the provider. -/
theorem lookup_ingestSnapshot (hfetch : provider.fetchForDate day = some values)
    (h : ingestSnapshot upper provider rates values day = some (after, result)) :
    (fun key ↦ after.lookup key) =
      overlay (provider.row upper) (keysBetween day day) fun key ↦ rates.lookup key := by
  obtain ⟨_, quotes, hquotes, rfl⟩ := ingestSnapshot_eq_some h
  obtain ⟨normalized, _, hrows⟩ := Option.bind_eq_some_iff.mp hquotes
  obtain ⟨_, _, hnodup⟩ := valuesRows_eq_some_iff.mp hrows
  apply funext
  rintro ⟨code, other⟩
  rw [lookup_upsertRates_eq hnodup]
  by_cases hday : other = day
  · subst hday
    have hrow : provider.row upper (code, other) =
        (quotes.lookup code).map fun rate ↦ ⟨rate, some provider.providerName⟩ := by
      simp only [FXProvider.row, hfetch, hquotes, Option.bind_eq_bind, Option.bind_some, Option.pure_def,
        Option.map_eq_bind, Function.comp_def]
    have hmem : (code, other) ∈ keysBetween other other := ⟨le_rfl, le_rfl⟩
    rw [if_pos rfl, overlay_of_mem hmem, hrow]
  · rw [if_neg hday, overlay_of_not_mem fun hmem ↦ hday (le_antisymm hmem.2 hmem.1)]

/-! ## The loop -/

/-- What holds on all days of a range holds on its first and on the others. -/
theorem forall_days_iff {p : Date → Prop} (h : current ≤ finish) :
    (∀ day, current ≤ day → day ≤ finish → p day) ↔
      p current ∧ ∀ day, current + 1 ≤ day → day ≤ finish → p day := by
  constructor
  · intro hall
    exact ⟨hall current le_rfl h, fun day hlow hhigh ↦ hall day ((lt_add_one current).le.trans hlow) hhigh⟩
  · rintro ⟨hfirst, hrest⟩ day hlow hhigh
    rcases hlow.eq_or_lt with rfl | hlater
    · exact hfirst
    · exact hrest day hlater hhigh

/-- The increment is safe on every date of a range but the last day. -/
theorem before_dateMax_iff (hle : current ≤ finish) (hlast : current < dateMax) :
    (current + 1 ≤ finish → finish < dateMax) ↔ (current ≤ finish → finish < dateMax) := by
  constructor
  · intro h _
    rcases hle.eq_or_lt with rfl | hlater
    · exact hlast
    · exact h hlater
  · exact fun h _ ↦ h hle

/-- The loop returns exactly when no payload raises and no date is the last there is. -/
theorem backfillFrom_isSome_iff : (backfillFrom upper provider finish current rates results).2.isSome ↔
    (current ≤ finish → finish < dateMax) ∧ ∀ day, current ≤ day → day ≤ finish →
      ∀ values, provider.fetchForDate day = some values →
        StorablePayload upper provider.baseCurrency (Table.rows values) := by
  fun_induction backfillFrom upper provider finish current rates results with
  | case1 current rates results hle hfetch hlast ih =>
    rw [ih, forall_days_iff hle, before_dateMax_iff hle hlast]
    simp [hfetch]
  | case2 current rates results hle hfetch hlast =>
    exact iff_of_false Bool.false_ne_true fun h ↦ hlast (hle.trans_lt (h.1 hle))
  | case3 current rates results hle values hfetch hingest =>
    refine iff_of_false Bool.false_ne_true fun h ↦ ?_
    have hsome : (ingestSnapshot upper provider rates values current).isSome :=
      ingestSnapshot_isSome_iff.mpr (h.2 current le_rfl hle values hfetch)
    rw [hingest] at hsome
    exact Bool.false_ne_true hsome
  | case4 current rates results hle values hfetch committed result hingest hlast ih =>
    have hstorable := ingestSnapshot_isSome_iff.mp (Option.isSome_iff_exists.mpr ⟨_, hingest⟩)
    rw [ih, forall_days_iff hle, before_dateMax_iff hle hlast]
    simp [hfetch, hstorable]
  | case5 current rates results hle values hfetch committed result hingest hlast =>
    exact iff_of_false Bool.false_ne_true fun h ↦ hlast (hle.trans_lt (h.1 hle))
  | case6 current rates results hgt =>
    exact iff_of_true rfl ⟨fun hle ↦ absurd hle hgt, fun day hlow hhigh ↦ absurd (hlow.trans hhigh) hgt⟩

theorem keysBetween_first (h : current ≤ finish) :
    keysBetween current current ∪ keysBetween (current + 1) finish = keysBetween current finish := by
  apply Set.ext
  rintro ⟨code, day⟩
  constructor
  · rintro (⟨hlow, hhigh⟩ | ⟨hlow, hhigh⟩)
    · exact ⟨hlow, hhigh.trans h⟩
    · exact ⟨(lt_add_one current).le.trans hlow, hhigh⟩
  · rintro ⟨hlow, hhigh⟩
    rcases (show current ≤ day from hlow).eq_or_lt with rfl | hlater
    · exact .inl ⟨le_rfl, le_rfl⟩
    · exact .inr ⟨hlater, hhigh⟩

theorem row_of_failed {code : Text} (h : provider.fetchForDate day = none) :
    provider.row upper (code, day) = none := by
  simp [FXProvider.row, h]

theorem Listed.nil (h : ¬ current ≤ finish) : Listed provider current finish [] := by
  refine ⟨fun day ↦ iff_of_false List.not_mem_nil ?_, List.Pairwise.nil⟩
  rintro ⟨hlow, hhigh, _⟩
  exact h (hlow.trans hhigh)

theorem Listed.failed (h : Listed provider (current + 1) finish results)
    (hfetch : provider.fetchForDate current = none) : Listed provider current finish results := by
  refine ⟨fun day ↦ (h.fetched day).trans ⟨?_, ?_⟩, h.ordered⟩
  · rintro ⟨hlow, hhigh, hsome⟩
    exact ⟨(lt_add_one current).le.trans hlow, hhigh, hsome⟩
  · rintro ⟨hlow, hhigh, hsome⟩
    have hne : current ≠ day := by
      rintro rfl
      rw [hfetch] at hsome
      cases hsome
    exact ⟨lt_of_le_of_ne hlow hne, hhigh, hsome⟩

theorem Listed.cons (h : Listed provider (current + 1) finish results) (hle : current ≤ finish)
    (hfetch : provider.fetchForDate current = some values) (hdate : result.rateDate = current) :
    Listed provider current finish (result :: results) := by
  have hlater (day : Date) (hday : day ∈ results.map IngestResult.rateDate) : current < day :=
    ((h.fetched day).mp hday).1
  constructor
  · intro day
    rw [List.map_cons, List.mem_cons, h.fetched, hdate]
    constructor
    · rintro (rfl | ⟨hlow, hhigh, hsome⟩)
      · exact ⟨le_rfl, hle, by rw [hfetch]; rfl⟩
      · exact ⟨(lt_add_one current).le.trans hlow, hhigh, hsome⟩
    · rintro ⟨hlow, hhigh, hsome⟩
      rcases hlow.eq_or_lt with rfl | hless
      · exact .inl rfl
      · exact .inr ⟨hless, hhigh, hsome⟩
  · rw [List.map_cons, List.pairwise_cons, hdate]
    exact ⟨hlater, h.ordered⟩

/-- A loop that returns has refreshed its days, and lists those it could fetch. -/
theorem backfillFrom_eq_some {listed : List IngestResult}
    (h : (backfillFrom upper provider finish current rates results).2 = some listed) :
    (fun key ↦ (backfillFrom upper provider finish current rates results).1.lookup key) =
        overlay (provider.row upper) (keysBetween current finish) (fun key ↦ rates.lookup key) ∧
      ∃ more, listed = results ++ more ∧ Listed provider current finish more := by
  fun_induction backfillFrom upper provider finish current rates results with
  | case1 current rates results hle hfetch hlast ih =>
    obtain ⟨hrates, more, hmore, hlisted⟩ := ih h
    have hday : overlay (provider.row upper) (keysBetween current current) (fun key ↦ rates.lookup key) =
        fun key ↦ rates.lookup key := by
      apply funext
      rintro ⟨code, day⟩
      by_cases hmem : (code, day) ∈ keysBetween current current
      · have heq : day = current := le_antisymm hmem.2 hmem.1
        exact overlay_of_source_none (row_of_failed (heq ▸ hfetch))
      · exact overlay_of_not_mem hmem
    rw [← hday, overlay_overlay, keysBetween_first hle] at hrates
    exact ⟨hrates, more, hmore, hlisted.failed hfetch⟩
  | case2 | case3 | case5 => cases h
  | case4 current rates results hle values hfetch committed result hingest hlast ih =>
    obtain ⟨hrates, more, rfl, hlisted⟩ := ih h
    rw [lookup_ingestSnapshot hfetch hingest, overlay_overlay, keysBetween_first hle] at hrates
    refine ⟨hrates, result :: more, ?_, hlisted.cons hle hfetch (ingestSnapshot_eq_some hingest).1⟩
    rw [List.append_assoc, List.singleton_append]
  | case6 current rates results hgt =>
    cases h
    have hempty : keysBetween current finish = ∅ :=
      Set.eq_empty_iff_forall_notMem.mpr fun key hmem ↦ hgt (hmem.1.trans hmem.2)
    rw [hempty, overlay_empty]
    exact ⟨rfl, [], (List.append_nil _).symm, .nil hgt⟩

/-! ## Several backfills -/

/-- Of the dates of a range no payload raises. -/
def FXProvider.Clean (upper : Text → Text) (provider : FXProvider) (start finish : Date) : Prop :=
  ∀ day, start ≤ day → day ≤ finish → ∀ values, provider.fetchForDate day = some values →
    (payloadRows upper provider.baseCurrency (Table.rows values)).isSome

/-- A backfill inside a clean range returns, and refreshes its days. -/
theorem backfillRange_of_clean (hclean : provider.Clean upper start finish) (hlast : finish < dateMax)
    {first last : Date} (hinside : ∀ day, first ≤ day → day ≤ last → start ≤ day ∧ day ≤ finish)
    (table : FxTable) :
    (∃ results, (backfillRange upper provider first last table).2 = some results ∧
        Listed provider first last results) ∧
      (fun key ↦ (backfillRange upper provider first last table).1.lookup key) =
        overlay (provider.row upper) (keysBetween first last) fun key ↦ table.lookup key := by
  have hreturns : (backfillRange upper provider first last table).2.isSome := by
    refine backfillFrom_isSome_iff.mpr ⟨fun hle ↦ (hinside last hle le_rfl).2.trans_lt hlast, ?_⟩
    intro day hlow hhigh values hfetch
    obtain ⟨hstart, hfinish⟩ := hinside day hlow hhigh
    exact payloadRows_isSome_iff.mp (hclean day hstart hfinish values hfetch)
  obtain ⟨listed, hlisted⟩ := Option.isSome_iff_exists.mp hreturns
  obtain ⟨hrates, more, heq, hmore⟩ := backfillFrom_eq_some hlisted
  rw [List.nil_append] at heq
  exact ⟨⟨listed, hlisted, heq ▸ hmore⟩, hrates⟩

theorem backfills_of_clean (hclean : provider.Clean upper start finish) (hlast : finish < dateMax)
    (ranges : List (Date × Date)) (hinside : ∀ range ∈ ranges, ∀ day, range.1 ≤ day → day ≤ range.2 →
      start ≤ day ∧ day ≤ finish) (rates : FxTable) :
    (fun key ↦ (backfills upper provider rates ranges).lookup key) =
      overlay (provider.row upper) (⋃ range ∈ ranges, keysBetween range.1 range.2)
        fun key ↦ rates.lookup key := by
  rw [← foldl_overlay]
  unfold backfills
  induction ranges generalizing rates with
  | nil => rfl
  | cons range rest ih =>
    rw [List.forall_mem_cons] at hinside
    rw [List.foldl_cons, List.foldl_cons, ih hinside.2,
      (backfillRange_of_clean hclean hlast hinside.1 rates).2]

/-- A code that no entry of the payload is stored under has no row. -/
theorem row_of_absent {code : Text} (hfetch : provider.fetchForDate day = some values)
    (husd : code ≠ "USD") (hnone : ∀ entry ∈ Table.rows values, charColumn (upper entry.1) ≠ some code) :
    provider.row upper (code, day) = none := by
  unfold FXProvider.row
  rw [hfetch, Option.bind_eq_bind, Option.bind_some]
  cases hquotes : payloadRows upper provider.baseCurrency (Table.rows values) with
  | none => rfl
  | some quotes =>
    have hlookup : quotes.lookup code = none := by
      by_contra hsome
      obtain ⟨rate, hrate⟩ := Option.ne_none_iff_exists'.mp hsome
      obtain ⟨front, back, heq, _⟩ := List.lookup_eq_some_iff.mp hrate
      have hmem : (code, rate) ∈ quotes := by
        rw [heq]
        exact List.mem_append_right _ List.mem_cons_self
      obtain ⟨name, hname, hcolumn⟩ := mem_payloadRows hquotes hmem
      rcases mem_writtenCodes.mp hname with rfl | hlast
      · have hdollar : charColumn "USD" = some "USD" := by decide
        exact husd (Option.some.inj (hcolumn.symm.trans hdollar))
      · obtain ⟨last, hlast⟩ := Option.isSome_iff_exists.mp hlast
        obtain ⟨entry, hentry, hkept⟩ := List.exists_of_findSome?_eq_some hlast
        split at hkept
        · rename_i hupper
          exact hnone entry (List.mem_reverse.mp hentry) (hupper ▸ hcolumn)
        · cases hkept
    rw [Option.bind_eq_bind, Option.bind_some, hlookup]
    rfl

theorem composes_of_clean (hclean : provider.Clean upper start finish) (hlast : finish < dateMax)
    {ranges : List (Date × Date)} (hcover : ∀ day, (∃ range ∈ ranges, range.1 ≤ day ∧ day ≤ range.2) ↔
      start ≤ day ∧ day ≤ finish) : Composes upper provider rates start finish ranges := by
  have hunion : ⋃ range ∈ ranges, keysBetween range.1 range.2 = keysBetween start finish := by
    apply Set.ext
    rintro ⟨code, day⟩
    simp only [Set.mem_iUnion, exists_prop]
    exact hcover day
  have hafter : (fun key ↦ (backfills upper provider rates ranges).lookup key) =
      overlay (provider.row upper) (keysBetween start finish) fun key ↦ rates.lookup key := by
    rw [← hunion]
    exact backfills_of_clean hclean hlast ranges
      (fun range hrange day hlow hhigh ↦ (hcover day).mp ⟨range, hrange, hlow, hhigh⟩) rates
  have hkey (key : Text × Date) : (backfills upper provider rates ranges).lookup key =
      overlay (provider.row upper) (keysBetween start finish) (fun key ↦ rates.lookup key) key :=
    congrFun hafter key
  constructor
  case returns =>
    intro first last hinside table
    exact (backfillRange_of_clean hclean hlast hinside table).1
  case same =>
    intro key
    rw [hkey]
    exact (congrFun (backfillRange_of_clean hclean hlast (fun _ ↦ And.intro) rates).2 key).symm
  case again =>
    intro first last hinside key
    have hsubset : keysBetween first last ⊆ keysBetween start finish :=
      fun other hother ↦ hinside other.2 hother.1 hother.2
    have hrates := (backfillRange_of_clean hclean hlast hinside (backfills upper provider rates ranges)).2
    rw [hafter, overlay_of_subset hsubset, ← hafter] at hrates
    exact congrFun hrates key
  case outside =>
    intro code day hout
    have hnot : (code, day) ∉ keysBetween start finish := hout
    rw [hkey, overlay_of_not_mem hnot]
  case failed =>
    intro code day hfetch
    rw [hkey, overlay_of_source_none (row_of_failed hfetch)]
  case absent =>
    intro code day values hfetch husd hnone
    rw [hkey, overlay_of_source_none (row_of_absent hfetch husd hnone)]

end

/-! ## One backfill -/

/-- A provider that has one quote on the first day, and raises on the others. -/
def oneDay (value : Decimal) : FXProvider :=
  .sample "USD" fun day ↦ if day = 0 then some (AList.singleton ("EUR" : Text) (.finite value)) else none

theorem fetchForDate_oneDay {value : Decimal} {day : Date} {values : Table Text Quote}
    (h : (oneDay value).fetchForDate day = some values) :
    values = AList.singleton ("EUR" : Text) (.finite value) := by
  unfold oneDay FXProvider.sample at h
  dsimp only at h
  split at h
  · exact (Option.some.inj h).symm
  · cases h

/-- While a provider's answers stay the same and can be stored, backfills of ranges that cover a range,
in any order, do what one backfill of it does, and doing any again changes nothing. -/
theorem backfills_compose (upper : Text → Text) (provider : FXProvider) (rates : FxTable) {a b c : Date}
    (hab : a ≤ b) (hbc : b < c) (hc : c < dateMax) (hclean : provider.Clean upper a c) :
    Composes upper provider rates a c [(a, b), (b + 1, c)] ∧
      ∀ ranges : List (Date × Date), (∀ day, (∃ range ∈ ranges, range.1 ≤ day ∧ day ≤ range.2) ↔
        a ≤ day ∧ day ≤ c) → Composes upper provider rates a c ranges := by
  refine ⟨composes_of_clean hclean hc fun day ↦ ?_, fun ranges hcover ↦ composes_of_clean hclean hc hcover⟩
  simp only [List.mem_cons, List.not_mem_nil, or_false, exists_eq_or_imp, exists_eq_left]
  constructor
  · rintro (⟨hlow, hhigh⟩ | ⟨hlow, hhigh⟩)
    · exact ⟨hlow, hhigh.trans hbc.le⟩
    · exact ⟨(hab.trans (lt_add_one b).le).trans hlow, hhigh⟩
  · rintro ⟨hlow, hhigh⟩
    rcases le_or_gt day b with hle | hgt
    · exact .inl ⟨hlow, hle⟩
    · exact .inr ⟨hgt, hhigh⟩

theorem backfills_compose_sample : Composes id (oneDay ⟨9, -1⟩) ∅ 0 2 [(0, 1), (2, 2)] ∧
    Composes id (oneDay ⟨9, -1⟩) ∅ 0 2 [(1, 2), (0, 1)] := by
  have hclean : (oneDay ⟨9, -1⟩).Clean id 0 2 := by
    intro day _ _ values h
    rw [fetchForDate_oneDay h]
    decide +kernel
  obtain ⟨hsplit, hcovered⟩ := backfills_compose id (oneDay ⟨9, -1⟩) ∅ (by decide : (0 : Date) ≤ 1)
    (by decide : (1 : Date) < 2) (by decide) hclean
  refine ⟨hsplit, hcovered _ fun day ↦ ?_⟩
  simp only [List.mem_cons, List.not_mem_nil, or_false, exists_eq_or_imp, exists_eq_left]
  constructor
  · rintro (⟨hlow, hhigh⟩ | ⟨hlow, hhigh⟩)
    · exact ⟨(by decide : (0 : Date) ≤ 1).trans hlow, hhigh⟩
    · exact ⟨hlow, hhigh.trans (by decide)⟩
  · rintro ⟨hlow, hhigh⟩
    rcases le_or_gt day 1 with hle | hgt
    · exact .inr ⟨hlow, hle⟩
    · exact .inl ⟨hgt.le, hhigh⟩

end VoiceSpend
