import VoiceSpend.Library.Rounding
import VoiceSpend.Metering.Signal
import VoiceSpend.Sync.Schema

/-!
# RevenueCat events

The parsed event, the credentials check in front of the handler, and the state change an
event of a handled type makes. An exception is `none`: `fromtimestamp` refuses a date outside
years 1 to 9999, the driver a timestamp wider than `BIGINT`, `compare_digest` a text that is
not ASCII.
-/

namespace VoiceSpend

structure RevenueCatEvent where
  id : Text
  type : Text
  appUserId : Text
  eventTimestampMs : ℤ
  productId : Option Text
  store : Option Text
  expirationAtMs : Option ℤ
  deriving DecidableEq, Repr

/-- `_EVENT_STATE`. -/
def eventState : List (Text × (Tier × EntitlementStatus)) :=
  [("INITIAL_PURCHASE", (.pro, .active)),
    ("RENEWAL", (.pro, .active)),
    ("PRODUCT_CHANGE", (.pro, .active)),
    ("UNCANCELLATION", (.pro, .active)),
    ("CANCELLATION", (.pro, .cancelled)),
    ("BILLING_ISSUE", (.pro, .inGrace)),
    ("EXPIRATION", (.free, .expired))]

/-- `_STORE_MAP`. -/
def storeMap : List (Text × Store) :=
  [("APP_STORE", .appStore), ("MAC_APP_STORE", .appStore), ("PLAY_STORE", .playStore), ("STRIPE", .stripe)]

/-- `_verify_auth`: `some true` lets the request through, `some false` is a 401. -/
def verifyAuth (settings : Settings) (authorization : Option String) : Option Bool :=
  match authorization with
  | none => some false
  | some text =>
    if settings.revenuecatWebhookAuth = "" then some false
    else if text.toList.all Char.isAscii && settings.revenuecatWebhookAuth.toList.all Char.isAscii then
      some (decide (text = settings.revenuecatWebhookAuth))
    else none

/-- `_resolve_store`. -/
def resolveStore (rt : Runtime) (rawStore : Option Text) : Option Store :=
  rawStore.bind fun raw ↦ storeMap.lookup (rt.upper raw)

/-- `datetime.fromtimestamp(ms / 1000, tz=UTC)`: the quotient is the nearest double, its
fraction is scaled to microseconds as a double and rounded half to even. -/
def fromTimestampMs (ms : ℤ) : Option Instant :=
  let seconds := Rounding.toDigits 2 53 ((ms : ℚ) / 1000)
  let whole : ℤ := if 0 ≤ seconds then ⌊seconds⌋ else ⌈seconds⌉
  let micros := Rounding.halfEven (Rounding.toDigits 2 53 ((seconds - whole) * 1000000))
  let instant := whole * 1000000 + micros
  if representable instant then some instant else none

/-- `_resolve_period_end`. -/
def resolvePeriodEnd : Option ℤ → Option (Option Instant)
  | none => some none
  | some ms => (fromTimestampMs ms).map some

example : fromTimestampMs 1789000000123 = some 1789000000123000 := by decide +kernel

/-- The values of the upsert on `entitlements`. -/
structure EntitlementChange where
  tier : Tier
  status : EntitlementStatus
  productId : Option Text
  store : Option Store
  revenuecatAppUserId : Text
  currentPeriodEnd : Option Instant
  lastEventTsMs : ℤ
  deriving DecidableEq, Repr

/-- The change an event of a handled type makes. The texts need no check: the audit row
that holds them was inserted first. -/
def entitlementChange (rt : Runtime) (event : RevenueCatEvent) (tier : Tier)
    (status : EntitlementStatus) : Option EntitlementChange := do
  let periodEnd ← resolvePeriodEnd event.expirationAtMs
  guard (-bigintMax - 1 ≤ event.eventTimestampMs ∧ event.eventTimestampMs ≤ bigintMax)
  return ⟨tier, status, event.productId, resolveStore rt event.store, event.appUserId, periodEnd,
    event.eventTimestampMs⟩

/-- `INSERT ... ON CONFLICT (user_id) DO UPDATE`: an optional column is overwritten only by
a value. -/
def EntitlementChange.upsert (change : EntitlementChange) (existing : Option Entitlement)
    (now : Instant) : Entitlement :=
  match existing with
  | none =>
    { tier := change.tier
      status := change.status
      productId := change.productId
      store := change.store
      revenuecatAppUserId := some change.revenuecatAppUserId
      currentPeriodEnd := change.currentPeriodEnd
      lastEventTsMs := some change.lastEventTsMs
      createdAt := now
      updatedAt := now }
  | some row =>
    { row with
      tier := change.tier
      status := change.status
      productId := change.productId.or row.productId
      store := change.store.or row.store
      revenuecatAppUserId := some change.revenuecatAppUserId
      currentPeriodEnd := change.currentPeriodEnd.or row.currentPeriodEnd
      lastEventTsMs := some change.lastEventTsMs
      updatedAt := now }

/-- The columns that events determine. -/
structure EntitlementContent where
  tier : Tier
  status : EntitlementStatus
  productId : Option Text
  store : Option Store
  currentPeriodEnd : Option Instant
  lastEventTsMs : Option ℤ
  deriving DecidableEq, Repr

def Entitlement.content (row : Entitlement) : EntitlementContent :=
  ⟨row.tier, row.status, row.productId, row.store, row.currentPeriodEnd, row.lastEventTsMs⟩

/-- The event is older than the last one that changed the row. -/
def isStale (existing : Option Entitlement) (eventTimestampMs : ℤ) : Bool :=
  (existing.bind (·.lastEventTsMs)).any fun last ↦ decide (eventTimestampMs < last)

section

variable (change : EntitlementChange) (existing : Option Entitlement) (now : Instant)

@[simp] theorem EntitlementChange.upsert_tier : (change.upsert existing now).tier = change.tier := by
  cases existing <;> rfl

@[simp] theorem EntitlementChange.upsert_status : (change.upsert existing now).status = change.status := by
  cases existing <;> rfl

@[simp] theorem EntitlementChange.upsert_lastEventTsMs :
    (change.upsert existing now).lastEventTsMs = some change.lastEventTsMs := by
  cases existing <;> rfl

theorem EntitlementChange.upsert_productId : (change.upsert existing now).productId =
    change.productId.or (existing.bind (·.productId)) := by
  cases existing <;> simp [upsert]

theorem EntitlementChange.upsert_store : (change.upsert existing now).store =
    change.store.or (existing.bind (·.store)) := by
  cases existing <;> simp [upsert]

theorem EntitlementChange.upsert_currentPeriodEnd : (change.upsert existing now).currentPeriodEnd =
    change.currentPeriodEnd.or (existing.bind (·.currentPeriodEnd)) := by
  cases existing <;> simp [upsert]

end

end VoiceSpend
