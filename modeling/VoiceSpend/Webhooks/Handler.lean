import VoiceSpend.Library.Register
import VoiceSpend.Webhooks.Event

/-!
# `revenuecat_webhook`

The handler without concurrent runs, and serial histories of deliveries. A delivery whose
handler raises is rolled back. `recordedEvents` are the events a history inserted audit
rows for; `Tracks` ties the three tables to them: an entitlements row reflects the running
maxima (`climb`) of the user's effective recorded events.
-/

namespace VoiceSpend

open Register

/-- `processed_webhook_events`, keyed by event id. -/
structure ProcessedWebhookEvent where
  eventType : Text
  receivedAt : Instant
  rawPayload : RevenueCatEvent
  deriving DecidableEq, Repr

/-- The committed tables the handler reads and writes. -/
structure Billing where
  users : Table UUID User
  processedWebhookEvents : Table Text ProcessedWebhookEvent
  entitlements : Table UUID Entitlement

/-- The body of a 200 response, or the 401. -/
inductive WebhookResponse
  | invalidCredentials
  | alreadyProcessed
  | ignoredUnmappedUser
  | ignoredStaleEvent
  | ignoredUnhandledEventType
  | processed
  deriving DecidableEq, Repr

/-- The audit row, with the whole payload as JSONB, can hold the event's texts, and its primary key the id. -/
def RevenueCatEvent.textsFit (rt : Runtime) (event : RevenueCatEvent) : Bool :=
  textFits event.id && rt.indexable event.id && textFits event.type && textFits event.appUserId &&
    optionalTextFits event.productId && optionalTextFits event.store

/-- The user an event is about: `app_user_id` is the id of a stored user. -/
def mappedUser (rt : Runtime) (users : Table UUID User) (event : RevenueCatEvent) : Option UUID :=
  (rt.uuid event.appUserId).filter fun user ↦ (users.lookup user).isSome

/-- The event is about this user and its type is in `_EVENT_STATE`. -/
def handledFor (rt : Runtime) (users : Table UUID User) (user : UUID) (event : RevenueCatEvent) : Bool :=
  decide (mappedUser rt users event = some user) && (eventState.lookup event.type).isSome

/-- The handler behind the credentials check. -/
def handleEvent (rt : Runtime) (db : Billing) (event : RevenueCatEvent) (now : Instant) :
    Option (Billing × WebhookResponse) := do
  guard (event.textsFit rt = true)
  if (db.processedWebhookEvents.lookup event.id).isSome then
    return (db, .alreadyProcessed)
  let recorded := { db with
    processedWebhookEvents := db.processedWebhookEvents.insert event.id ⟨event.type, now, event⟩ }
  match mappedUser rt db.users event with
  | none => return (recorded, .ignoredUnmappedUser)
  | some user =>
    let entitlement := db.entitlements.lookup user
    if isStale entitlement event.eventTimestampMs then
      return (recorded, .ignoredStaleEvent)
    match eventState.lookup event.type with
    | none => return (recorded, .ignoredUnhandledEventType)
    | some (tier, status) =>
      let change ← entitlementChange rt event tier status
      return ({ recorded with entitlements := db.entitlements.insert user (change.upsert entitlement now) },
        .processed)

/-- `revenuecat_webhook`; `none` is a 500. -/
def revenuecatWebhook (rt : Runtime) (settings : Settings) (db : Billing) (authorization : Option String)
    (event : RevenueCatEvent) (now : Instant) : Option (Billing × WebhookResponse) := do
  if ← verifyAuth settings authorization then handleEvent rt db event now
  else return (db, .invalidCredentials)

/-- One delivery of an event. -/
structure WebhookDelivery where
  event : RevenueCatEvent
  now : Instant

/-- The tables after a delivery; an exception rolls back. -/
def deliverEvent (rt : Runtime) (settings : Settings) (authorization : Option String) (db : Billing)
    (delivery : WebhookDelivery) : Billing :=
  ((revenuecatWebhook rt settings db authorization delivery.event delivery.now).map Prod.fst).getD db

def deliverEvents (rt : Runtime) (settings : Settings) (authorization : Option String) (db : Billing)
    (history : List WebhookDelivery) : Billing :=
  history.foldl (deliverEvent rt settings authorization) db

/-- The delivery inserted an audit row. -/
def inserts (rt : Runtime) (settings : Settings) (authorization : Option String) (db : Billing)
    (delivery : WebhookDelivery) : Bool :=
  (db.processedWebhookEvents.lookup delivery.event.id).isNone &&
    ((deliverEvent rt settings authorization db delivery).processedWebhookEvents.lookup
      delivery.event.id).isSome

/-- The events a history inserted audit rows for, in order. -/
def recordedEvents (rt : Runtime) (settings : Settings) (authorization : Option String) :
    Billing → List WebhookDelivery → List RevenueCatEvent
  | _, [] => []
  | db, delivery :: rest =>
    (if inserts rt settings authorization db delivery then [delivery.event] else []) ++
      recordedEvents rt settings authorization (deliverEvent rt settings authorization db delivery) rest

/-! ## One delivery -/

/-- The state change of an event, if its type is handled and its values fit their columns. -/
def changeOf (rt : Runtime) (event : RevenueCatEvent) : Option EntitlementChange :=
  (eventState.lookup event.type).bind fun state ↦ entitlementChange rt event state.1 state.2

/-- The period end an event carries. -/
def periodEndOf (event : RevenueCatEvent) : Option Instant := (resolvePeriodEnd event.expirationAtMs).join

/-- What a change copies from its event. -/
theorem changeOf_fields {rt : Runtime} {event : RevenueCatEvent} {change : EntitlementChange}
    (h : changeOf rt event = some change) :
    eventState.lookup event.type = some (change.tier, change.status) ∧
      change.lastEventTsMs = event.eventTimestampMs ∧ change.productId = event.productId ∧
      change.store = resolveStore rt event.store ∧ change.currentPeriodEnd = periodEndOf event := by
  obtain ⟨⟨tier, status⟩, hstate, hchange⟩ := Option.bind_eq_some_iff.mp h
  simp only [entitlementChange, Option.bind_eq_bind, Option.bind_eq_some_iff, Option.pure_def] at hchange
  obtain ⟨periodEnd, hperiod, _, _, heq⟩ := hchange
  cases heq
  exact ⟨hstate, rfl, rfl, rfl, by rw [periodEndOf, hperiod]; rfl⟩

/-- What the handler can do to the three tables when it does not raise. -/
inductive HandlerOutcome (rt : Runtime) (db : Billing) (event : RevenueCatEvent) (now : Instant) :
    Billing → Prop
  | duplicate (known : (db.processedWebhookEvents.lookup event.id).isSome) :
      HandlerOutcome rt db event now db
  /-- recorded, without a state change for any user -/
  | ignored (fresh : db.processedWebhookEvents.lookup event.id = none) (fits : event.textsFit rt = true)
      (reason : ∀ user, mappedUser rt db.users event = some user → (changeOf rt event).isSome →
        isStale (db.entitlements.lookup user) event.eventTimestampMs = true) :
      HandlerOutcome rt db event now { db with
        processedWebhookEvents := db.processedWebhookEvents.insert event.id ⟨event.type, now, event⟩ }
  | applied (user : UUID) (change : EntitlementChange)
      (fresh : db.processedWebhookEvents.lookup event.id = none) (fits : event.textsFit rt = true)
      (mapped : mappedUser rt db.users event = some user) (change_eq : changeOf rt event = some change)
      (current : isStale (db.entitlements.lookup user) event.eventTimestampMs = false) :
      HandlerOutcome rt db event now
        { users := db.users
          processedWebhookEvents := db.processedWebhookEvents.insert event.id ⟨event.type, now, event⟩
          entitlements :=
            db.entitlements.insert user (change.upsert (db.entitlements.lookup user) now) }

theorem handleEvent_outcome {rt : Runtime} {db after : Billing} {event : RevenueCatEvent} {now : Instant}
    {response : WebhookResponse} (h : handleEvent rt db event now = some (after, response)) :
    HandlerOutcome rt db event now after := by
  unfold handleEvent at h
  simp only [Option.bind_eq_bind, Option.bind_eq_some_iff, Option.pure_def] at h
  obtain ⟨_, hguard, h⟩ := h
  have hfits : event.textsFit rt = true := by
    by_contra hnot
    simp [guard, hnot] at hguard
  split at h
  · rename_i hknown
    cases h
    exact .duplicate hknown
  · rename_i hunknown
    have hfresh : db.processedWebhookEvents.lookup event.id = none := by simpa using hunknown
    cases hmapped : mappedUser rt db.users event with
    | none =>
      simp only [hmapped] at h
      cases h
      exact .ignored hfresh hfits fun user huser ↦ by rw [hmapped] at huser; cases huser
    | some user =>
      simp only [hmapped] at h
      cases hstale : isStale (db.entitlements.lookup user) event.eventTimestampMs with
      | true =>
        simp only [hstale, if_true] at h
        cases h
        exact .ignored hfresh hfits fun other hother _ ↦ by
          rw [hmapped] at hother
          cases hother
          exact hstale
      | false =>
        simp only [hstale, Bool.false_eq_true, if_false] at h
        cases hstate : eventState.lookup event.type with
        | none =>
          simp only [hstate] at h
          cases h
          exact .ignored hfresh hfits fun other _ hsome ↦ by simp [changeOf, hstate] at hsome
        | some state =>
          obtain ⟨tier, status⟩ := state
          simp only [hstate, Option.bind_eq_some_iff] at h
          obtain ⟨change, hchange, heq⟩ := h
          cases heq
          exact .applied user change hfresh hfits hmapped (by simp [changeOf, hstate, hchange]) hstale

/-- The handler raises for two reasons only. -/
theorem handleEvent_eq_none {rt : Runtime} {db : Billing} {event : RevenueCatEvent} {now : Instant}
    (h : handleEvent rt db event now = none) :
    event.textsFit rt = false ∨ ∃ user, mappedUser rt db.users event = some user ∧
      isStale (db.entitlements.lookup user) event.eventTimestampMs = false ∧
      (eventState.lookup event.type).isSome ∧ changeOf rt event = none := by
  by_contra hnot
  rw [not_or] at hnot
  obtain ⟨hfits, hnone⟩ := hnot
  have hfits : event.textsFit rt = true := by simpa using hfits
  unfold handleEvent at h
  simp only [guard, hfits, if_true, Option.bind_eq_bind, Option.pure_def, Option.bind_some] at h
  split at h
  · cases h
  · cases hmapped : mappedUser rt db.users event with
    | none =>
      simp only [hmapped] at h
      cases h
    | some user =>
      simp only [hmapped] at h
      split at h
      · cases h
      · rename_i hstale
        cases hstate : eventState.lookup event.type with
        | none =>
          simp only [hstate] at h
          cases h
        | some state =>
          simp only [hstate, Option.bind_eq_none_iff] at h
          refine hnone ⟨user, hmapped, by simpa using hstale, by rw [hstate]; rfl, ?_⟩
          rw [changeOf, hstate, Option.bind_some, Option.eq_none_iff_forall_ne_some]
          intro change hchange
          cases h change hchange

/-! ## A sample -/

/-- A renewal for the user `1`. -/
def sampleEvent (id : Text) (eventTimestampMs : ℤ) (productId : Option Text) : RevenueCatEvent where
  id := id
  type := "RENEWAL"
  appUserId := "00000000-0000-0000-0000-000000000001"
  eventTimestampMs := eventTimestampMs
  productId := productId
  store := none
  expirationAtMs := none

def sampleUsers : Table UUID User := AList.singleton ⟨1⟩ ⟨"USD"⟩

end VoiceSpend
