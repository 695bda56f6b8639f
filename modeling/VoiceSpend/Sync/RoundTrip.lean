import VoiceSpend.Sync.Pull
import VoiceSpend.Sync.Truthful

/-!
# Is what was pushed what is pulled?

A validated value passes through its column and the output schema before another device reads it.
Every client field comes back as it was sent, with one exception: `NUMERIC(18, 4)` rounds an amount
with more than four decimals, and no error says so.
-/

namespace VoiceSpend

/-- The instant of a timezone-aware datetime. -/
def DateTime.utc (d : DateTime) : Option Instant := d.utcOffset.map (d.wall - ·)

/-- Every datetime of the record is timezone-aware. -/
def ExpenseSyncIn.Aware (record : ExpenseSyncIn) : Prop :=
  record.spentAt.utcOffset ≠ none ∧ ∀ d ∈ record.deletedAt, d.utcOffset ≠ none

/-- A pulled row has the values of the validated record, where an amount is kept as `amount` says. -/
structure PulledAs (amount : ℚ → ℚ) (record : ExpenseSyncIn) (row : Expense) : Prop where
  amountOriginal : row.client.amountOriginal.toRat = amount record.amountOriginal.toRat
  currencyOriginal : row.client.currencyOriginal = record.currencyOriginal
  spentAt : record.spentAt.utc = some row.client.spentAt
  category : row.client.category = record.category
  paymentMethod : row.client.paymentMethod = record.paymentMethod
  merchant : row.client.merchant = record.merchant
  note : row.client.note = record.note
  rawTranscript : row.client.rawTranscript = record.rawTranscript
  clientRev : row.client.clientRev = record.clientRev
  deletedAt : record.deletedAt.map DateTime.utc = row.client.deletedAt.map some

/-- The record is among the changes above the cursor, and every page that has it has its values. -/
structure ReturnedAs (amount : ℚ → ℚ) (record : ExpenseSyncIn) (expenses : Table UUID Expense)
    (user : UUID) (since : ℕ) : Prop where
  changed : ∃ row, (record.id, row) ∈ changesSince expenses user since
  pulled : ∀ limit row, (record.id, row) ∈ (pullSync expenses user since limit).records →
    PulledAs amount record row

/-- An amount in ten-thousandths, ties away from zero. -/
def roundMoney (amount : ℚ) : ℚ := Rounding.halfAway (amount * 10 ^ 4) / 10 ^ 4

section

variable {rt : Runtime} {record : ExpenseSyncIn} {columns : ClientColumns}

/-! ## The columns -/

theorem toRat_toMoney {amount : Decimal} {money : Money} (h : amount.toMoney = some money) :
    money.toRat = roundMoney amount.toRat := by
  unfold Decimal.toMoney at h
  split at h
  · cases h
  · unfold Numeric.ofRat at h
    dsimp only at h
    split at h
    · cases h
      rfl
    · cases h

theorem roundMoney_eq_iff (amount : ℚ) :
    roundMoney amount = amount ↔ ∃ units : ℤ, amount * 10 ^ 4 = units := by
  have hscale : ((10 : ℚ) ^ 4) ≠ 0 := by norm_num
  unfold roundMoney
  rw [div_eq_iff hscale]
  constructor
  · intro h
    exact ⟨_, h.symm⟩
  · rintro ⟨units, hunits⟩
    rw [hunits, Rounding.halfAway_intCast]

theorem abs_roundMoney_sub_le (amount : ℚ) : |roundMoney amount - amount| ≤ 1 / 20000 := by
  have hround := Rounding.abs_halfAway_sub_le (amount * 10 ^ 4)
  unfold roundMoney
  rw [abs_le] at hround ⊢
  constructor <;> linarith

theorem DateTime.utc_of_instant {d : DateTime} {instant : Instant} (haware : d.utcOffset ≠ none)
    (h : d.instant rt = some instant) : d.utc = some instant := by
  obtain ⟨offset, hoffset⟩ := Option.ne_none_iff_exists'.mp haware
  unfold DateTime.instant at h
  rw [hoffset] at h
  dsimp only at h
  split at h
  · rw [DateTime.utc, hoffset]
    exact h
  · cases h

/-- What the columns make of a timezone-aware record. -/
theorem ExpenseSyncIn.pulledAs_of_toColumns (haware : record.Aware) {row : Expense}
    (h : record.toColumns rt = some row.client) : PulledAs roundMoney record row := by
  simp only [toColumns, Option.bind_eq_bind, Option.bind_eq_some_iff, Option.pure_def] at h
  obtain ⟨money, hmoney, spentAt, hspentAt, deletedAt, hdeletedAt, _, _, hcolumns⟩ := h
  have hclient := Option.some.inj hcolumns
  have hdeleted : record.deletedAt.map DateTime.utc = deletedAt.map some := by
    cases hd : record.deletedAt with
    | none =>
      rw [hd] at hdeletedAt
      cases hdeletedAt
      rfl
    | some d =>
      rw [hd] at hdeletedAt
      obtain ⟨instant, hinstant, rfl⟩ := Option.map_eq_some_iff.mp hdeletedAt
      rw [Option.map_some, DateTime.utc_of_instant (haware.2 d hd) hinstant]
      rfl
  constructor <;> rw [← hclient]
  case amountOriginal => exact toRat_toMoney hmoney
  case spentAt => exact DateTime.utc_of_instant haware.1 hspentAt
  case deletedAt => exact hdeleted

end

/-! ## The round trip -/

/-- A pushed record is pulled as it was sent, its amount to four decimals. -/
theorem pushed_is_pulled (rt : Runtime) (settings : Settings) (db after : Db) (user : UUID)
    (batch : List RawRecord) (now clock : Instant) (response : SyncPushResponse)
    (hpush : pushSync rt settings db user batch now clock = some (after, response)) (raw : RawRecord)
    (hraw : raw ∈ batch) (record : ExpenseSyncIn) (hok : modelValidate rt raw = .ok record)
    (haware : record.Aware) (result : SyncPushResult) (hresult : result ∈ response.results)
    (hid : result.id = record.id) (happlied : result.status = .applied) (seq : ℕ)
    (hseq : result.serverSeq = some seq) (expenses : Table UUID Expense)
    (hlater : expenses.lookup record.id = after.expenses.lookup record.id) (since : ℕ)
    (hsince : since < seq) :
    ReturnedAs roundMoney record expenses user since ∧
      |roundMoney record.amountOriginal.toRat - record.amountOriginal.toRat| ≤ 1 / 20000 ∧
      (roundMoney record.amountOriginal.toRat = record.amountOriginal.toRat ↔
        ∃ units : ℤ, record.amountOriginal.toRat * 10 ^ 4 = units) := by
  obtain ⟨returned, hspec⟩ := pushSync_spec hpush
  obtain ⟨row, hrow, huser, hrowSeq, hcolumns⟩ : ∃ row, expenses.lookup record.id = some row ∧
      row.userId = user ∧ row.serverSeq = seq ∧ record.toColumns rt = some row.client := by
    obtain ⟨id, horder, hreported⟩ := hspec.reported hresult
    cases hreported with
    | rejected | stale => cases happlied
    | applied serverSeq inserted accepted wrote =>
      obtain ⟨sent, hselected, _, honly⟩ := sent_of_accepted horder accepted
      cases honly raw hraw record hok hid.symm
      obtain ⟨row, hrow, huser, hrowSeq, hcolumns⟩ := hspec.applied_row hselected wrote
      cases hseq
      exact ⟨row, hlater.trans (hid ▸ hrow), huser, hrowSeq, hcolumns⟩
  refine ⟨⟨⟨row, mem_changesSince.mpr ⟨hrow, huser, hrowSeq ▸ hsince⟩⟩, fun limit pulled hpulled ↦ ?_⟩,
    abs_roundMoney_sub_le _, roundMoney_eq_iff _⟩
  have hsame := (of_mem_pullSync hpulled).1
  cases hrow.symm.trans hsame
  exact ExpenseSyncIn.pulledAs_of_toColumns haware hcolumns

/-! ## Two amounts -/

/-- Decimal digits with at most one point among them. -/
def digits? (text : List Char) : Option Decimal :=
  let whole := text.takeWhile (· ≠ '.')
  let fraction := (text.dropWhile (· ≠ '.')).drop 1
  if whole ++ fraction = [] then none
  else ((whole ++ fraction).foldlM (fun (value : ℕ) (c : Char) ↦
    if c.isDigit then some (10 * value + (c.toNat - 48)) else none) 0).map fun value ↦
      ⟨value, -fraction.length⟩

/-- The ASCII runtime, which reads an amount from a text as well. -/
def Runtime.pointed : Runtime :=
  { Runtime.ascii with
    parseDecimal := fun
      | .str (.unicode text) => (digits? text.toList).elim (.error "Input should be a valid decimal") .ok
      | json => Runtime.ascii.parseDecimal json }

/-- The sample expense with an amount from a text. -/
def pricedExpense (amount : String) : RawRecord :=
  (sampleExpense 0 1).map fun field ↦
    if field.1 = Text.unicode "amount_original" then (field.1, Json.str amount) else field

/-- What the sample expense is validated to. -/
def pricedRecord (amount : Decimal) : ExpenseSyncIn where
  id := ⟨3⟩
  deviceId := ⟨2⟩
  amountOriginal := amount
  currencyOriginal := "USD"
  spentAt := ⟨1789000000000000, some 0⟩
  clientRev := 1
  category := none
  paymentMethod := none
  merchant := none
  note := none
  rawTranscript := none
  deletedAt := none

theorem pricedRecord_aware (amount : Decimal) : (pricedRecord amount).Aware :=
  ⟨Option.some_ne_none 0, fun _ h ↦ by cases h⟩

/-- A fifth decimal is lost, and the push says applied. -/
theorem pushed_not_pulled : ¬ ∀ (rt : Runtime) (settings : Settings) (db after : Db) (user : UUID)
    (batch : List RawRecord) (now clock : Instant) (response : SyncPushResponse),
    pushSync rt settings db user batch now clock = some (after, response) → ∀ raw ∈ batch, ∀ record,
      modelValidate rt raw = .ok record → record.Aware →
        ∀ result ∈ response.results, result.id = record.id →
        result.status = .applied → ∀ seq, result.serverSeq = some seq → ∀ expenses : Table UUID Expense,
          expenses.lookup record.id = after.expenses.lookup record.id → ∀ since < seq,
            ReturnedAs id record expenses user since := by
  intro hpulled
  have hrun : (pushSync .pointed sampleSettings sampleDb ⟨1⟩ [pricedExpense "1.23456"] 0 0).map
      (fun out ↦ (out.2.results, (pullSync out.1.expenses ⟨1⟩ 0 200).records.map fun row ↦
        (row.1, row.2.client.amountOriginal.units))) =
      some ([⟨⟨3⟩, .applied, none, some 1⟩], [(⟨3⟩, 12346)]) := by
    decide +kernel
  obtain ⟨⟨after, response⟩, hpush, hout⟩ := Option.map_eq_some_iff.mp hrun
  obtain ⟨hresults, hpage⟩ := Prod.mk.inj hout
  have hok : modelValidate .pointed (pricedExpense "1.23456") = .ok (pricedRecord ⟨123456, -5⟩) := by
    rfl
  have hresult : (⟨⟨3⟩, .applied, none, some 1⟩ : SyncPushResult) ∈ response.results := by
    rw [hresults]
    exact List.mem_singleton_self _
  have hreturned := hpulled _ _ _ _ _ _ _ _ _ hpush _ (List.mem_singleton_self _) _ hok (pricedRecord_aware _)
    _ hresult rfl rfl 1 rfl after.expenses rfl 0 (by decide)
  have hunits : (⟨3⟩, 12346) ∈ (pullSync after.expenses ⟨1⟩ 0 200).records.map fun row ↦
      (row.1, row.2.client.amountOriginal.units) := by
    rw [hpage]
    exact List.mem_singleton_self _
  obtain ⟨⟨id, row⟩, hrow, heq⟩ := List.mem_map.mp hunits
  obtain ⟨rfl, hamount⟩ := Prod.mk.inj heq
  have hexact := (hreturned.pulled 200 row hrow).amountOriginal
  have hamount : row.client.amountOriginal.units = 12346 := hamount
  rw [Numeric.toRat, hamount] at hexact
  exact absurd hexact (by decide +kernel)

/-- Four decimals come back. -/
theorem pushed_is_pulled_sample : ∃ after response,
    pushSync .pointed sampleSettings sampleDb ⟨1⟩ [pricedExpense "1.2345"] 0 0 = some (after, response) ∧
      ReturnedAs roundMoney (pricedRecord ⟨12345, -4⟩) after.expenses ⟨1⟩ 0 ∧
      roundMoney (pricedRecord ⟨12345, -4⟩).amountOriginal.toRat =
        (pricedRecord ⟨12345, -4⟩).amountOriginal.toRat := by
  have hrun : (pushSync .pointed sampleSettings sampleDb ⟨1⟩ [pricedExpense "1.2345"] 0 0).map
      (fun out ↦ out.2.results) = some [⟨⟨3⟩, .applied, none, some 1⟩] := by
    decide +kernel
  obtain ⟨⟨after, response⟩, hpush, hresults⟩ := Option.map_eq_some_iff.mp hrun
  have hresult : (⟨⟨3⟩, .applied, none, some 1⟩ : SyncPushResult) ∈ response.results := by
    rw [hresults]
    exact List.mem_singleton_self _
  obtain ⟨hreturned, _, hexact⟩ := pushed_is_pulled _ _ _ _ _ _ _ _ _ hpush (pricedExpense "1.2345")
    (List.mem_singleton_self _) (pricedRecord ⟨12345, -4⟩) rfl (pricedRecord_aware _) _ hresult rfl rfl 1 rfl
    after.expenses rfl 0 (by decide)
  exact ⟨after, response, hpush, hreturned, hexact.mpr ⟨12345, by decide +kernel⟩⟩

end VoiceSpend
