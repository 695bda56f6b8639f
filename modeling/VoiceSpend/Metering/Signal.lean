import VoiceSpend.Store.Rows

/-!
# Effective entitlements and the usage signal

The resolver decides what a stored `entitlements` row means at a given time; the signal
combines it with the current period's usage counter.
-/

namespace VoiceSpend

structure Settings where
  freeMonthlyLogQuota : ℤ
  revenuecatWebhookAuth : String
  fxRecomputeBatch : ℤ

/-- The default quota and batch, with a webhook secret set. -/
def sampleSettings : Settings where
  freeMonthlyLogQuota := 20
  revenuecatWebhookAuth := "secret"
  fxRecomputeBatch := 500

structure EffectiveEntitlement where
  tier : Tier
  status : EntitlementStatus
  isPro : Bool
  deriving DecidableEq, Repr

/-- `_ACCESS_RETAINING_STATUSES`. -/
def retainsAccess : EntitlementStatus → Bool
  | .active | .inGrace | .cancelled => true
  | .expired => false

/-- `resolve_entitlement`, on the user's row or its absence. -/
def resolveEntitlement (row : Option Entitlement) (now : Instant) : EffectiveEntitlement :=
  match row with
  | none => ⟨.free, .active, false⟩
  | some entitlement =>
    let periodNotLapsed := match entitlement.currentPeriodEnd with
      | none => true
      | some periodEnd => decide (periodEnd > now)
    ⟨entitlement.tier, entitlement.status,
      decide (entitlement.tier = .pro) && retainsAccess entitlement.status && periodNotLapsed⟩

structure EntitlementSignal where
  tier : Tier
  status : EntitlementStatus
  period : Period
  used : ℕ
  quota : Option ℤ
  overQuota : Bool
  deriving DecidableEq, Repr

/-- `build_entitlement_signal` after its two queries. -/
def signalOf (settings : Settings) (effective : EffectiveEntitlement) (period : Period) (used : ℕ) :
    EntitlementSignal :=
  if effective.isPro then ⟨effective.tier, effective.status, period, used, none, false⟩
  else ⟨effective.tier, effective.status, period, used, some settings.freeMonthlyLogQuota,
    decide ((used : ℤ) ≥ settings.freeMonthlyLogQuota)⟩

/-- `build_entitlement_signal`, where nothing changes between the queries. -/
def buildEntitlementSignal (settings : Settings) (entitlements : Table UUID Entitlement)
    (counters : UsageTable) (user : UUID) (now : Instant) : EntitlementSignal :=
  signalOf settings (resolveEntitlement (entitlements.lookup user) now) (currentPeriod now)
    (usageCount counters user (currentPeriod now))

end VoiceSpend
