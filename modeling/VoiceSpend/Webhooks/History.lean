import VoiceSpend.Webhooks.Handler

/-!
# What a serial history of webhooks means

`Reflects` is the meaning of one entitlements row: the state of the last applied event, and
for each optional column the last value an applied event carried. `deliverEvents_tracks`
shows that every history keeps the tables in this relation to the events it recorded.
-/

namespace VoiceSpend

open Register

/-- The event can change the row of this user. -/
def effective (rt : Runtime) (users : Table UUID User) (user : UUID) (event : RevenueCatEvent) : Bool :=
  event.textsFit rt && decide (mappedUser rt users event = some user) && (changeOf rt event).isSome

/-- The events that change the row of a user: effective, not older than the row at the start,
and not older than an applied event before them. -/
def appliedEvents (rt : Runtime) (users : Table UUID User) (start : Option Entitlement) (user : UUID)
    (recorded : List RevenueCatEvent) : List RevenueCatEvent :=
  climb RevenueCatEvent.eventTimestampMs (recorded.filter fun event ↦
    effective rt users user event && !isStale start event.eventTimestampMs)

/-- The row that `start` becomes when these events are applied to it. -/
structure Reflects (rt : Runtime) (start : Option Entitlement) (applied : List RevenueCatEvent)
    (row : Option Entitlement) : Prop where
  unchanged : applied = [] → row = start
  last : ∀ event, applied.getLast? = some event → ∃ entitlement, row = some entitlement ∧
    eventState.lookup event.type = some (entitlement.tier, entitlement.status) ∧
    entitlement.lastEventTsMs = some event.eventTimestampMs
  productId : row.bind (·.productId) =
    (lastCarried (·.productId) applied).or (start.bind (·.productId))
  store : row.bind (·.store) =
    (lastCarried (fun event ↦ resolveStore rt event.store) applied).or (start.bind (·.store))
  currentPeriodEnd : row.bind (·.currentPeriodEnd) =
    (lastCarried periodEndOf applied).or (start.bind (·.currentPeriodEnd))

theorem isStale_mono {start : Option Entitlement} {earlier later : ℤ} (hle : earlier ≤ later)
    (h : isStale start earlier = false) : isStale start later = false := by
  unfold isStale at h ⊢
  cases hlast : start.bind (·.lastEventTsMs) with
  | none => rfl
  | some last =>
    rw [hlast, Option.any_some, decide_eq_false_iff_not, not_lt] at h
    rw [Option.any_some, decide_eq_false_iff_not, not_lt]
    exact h.trans hle

section

variable {rt : Runtime} {users : Table UUID User} {start row : Option Entitlement} {user : UUID}
  {applied recorded : List RevenueCatEvent} {event : RevenueCatEvent} {change : EntitlementChange}

theorem reflects_nil : Reflects rt start [] start :=
  ⟨fun _ ↦ rfl, fun _ h ↦ (by cases h), by simp, by simp, by simp⟩

/-- Upserting an event's change applies the event. -/
theorem Reflects.upsert (h : Reflects rt start applied row) (hchange : changeOf rt event = some change)
    (now : Instant) : Reflects rt start (applied ++ [event]) (some (change.upsert row now)) := by
  obtain ⟨hstate, hts, hproduct, hstore, hperiod⟩ := changeOf_fields hchange
  refine ⟨fun hnil ↦ by simp at hnil, fun other hother ↦ ?_, ?_, ?_, ?_⟩
  · rw [List.getLast?_concat] at hother
    cases hother
    exact ⟨_, rfl, by simpa using hstate, by simp [hts]⟩
  · rw [lastCarried_concat, Option.bind_some, change.upsert_productId, h.productId, hproduct,
      Option.or_assoc]
  · rw [lastCarried_concat, Option.bind_some, change.upsert_store, h.store, hstore, Option.or_assoc]
  · rw [lastCarried_concat, Option.bind_some, change.upsert_currentPeriodEnd, h.currentPeriodEnd,
      hperiod, Option.or_assoc]

/-- One more recorded event is applied exactly when it is effective and the row is not newer. -/
theorem appliedEvents_concat
    (h : Reflects rt start (appliedEvents rt users start user recorded) row) :
    appliedEvents rt users start user (recorded ++ [event]) =
      if effective rt users user event = true ∧ isStale row event.eventTimestampMs = false then
        appliedEvents rt users start user recorded ++ [event]
      else appliedEvents rt users start user recorded := by
  unfold appliedEvents at h ⊢
  rw [List.filter_append]
  generalize hxs : recorded.filter (fun event ↦
    effective rt users user event && !isStale start event.eventTimestampMs) = xs at h ⊢
  by_cases heffective : effective rt users user event = true
  · cases hclimb : (climb RevenueCatEvent.eventTimestampMs xs).getLast? with
    | none =>
      -- nothing applied yet: the row is the one at the start
      have hnil := List.getLast?_eq_none_iff.mp hclimb
      rw [h.unchanged hnil]
      cases hstale : isStale start event.eventTimestampMs with
      | true => simp [heffective, hstale]
      | false =>
        rw [show List.filter _ [event] = [event] by simp [heffective, hstale], climb_concat, hnil]
        simp [heffective]
    | some last =>
      obtain ⟨entitlement, hrow, _, hts⟩ := h.last last hclimb
      have hstale : isStale row event.eventTimestampMs = false ↔
          last.eventTimestampMs ≤ event.eventTimestampMs := by
        simp [isStale, hrow, hts]
      have hall := forall_climb_le_iff RevenueCatEvent.eventTimestampMs xs event.eventTimestampMs
      rw [hclimb] at hall
      have hmem : last ∈ xs := climb_subset _ _ (List.mem_of_getLast? hclimb)
      have hstart : isStale start last.eventTimestampMs = false := by
        rw [← hxs, List.mem_filter, Bool.and_eq_true, Bool.not_eq_true'] at hmem
        exact hmem.2.2
      by_cases hle : last.eventTimestampMs ≤ event.eventTimestampMs
      · rw [show List.filter _ [event] = [event] by simp [heffective, isStale_mono hle hstart],
          climb_concat, if_pos (hall.mpr fun top htop ↦ by cases htop; exact hle),
          if_pos ⟨heffective, hstale.mpr hle⟩]
      · rw [if_neg fun hboth ↦ hle (hstale.mp hboth.2)]
        cases hfilter : isStale start event.eventTimestampMs with
        | true => simp [hfilter]
        | false =>
          rw [show List.filter _ [event] = [event] by simp [heffective, hfilter], climb_concat,
            if_neg fun hkeep ↦ hle (hall.mp hkeep last rfl)]
  · simp [heffective]

end

/-- The columns of an audit row that a delivery determines. -/
def ProcessedWebhookEvent.content (row : ProcessedWebhookEvent) : Text × RevenueCatEvent :=
  (row.eventType, row.rawPayload)

/-- The tables after a history that started from `start` and recorded these events. -/
structure Tracks (rt : Runtime) (start : Billing) (recorded : List RevenueCatEvent) (db : Billing) :
    Prop where
  users : db.users = start.users
  audit : ∀ id, (db.processedWebhookEvents.lookup id).map ProcessedWebhookEvent.content =
    ((start.processedWebhookEvents.lookup id).map ProcessedWebhookEvent.content).or
      ((recorded.find? (·.id = id)).map fun event ↦ (event.type, event))
  nodup : (recorded.map (·.id)).Nodup
  texts : ∀ event ∈ recorded, event.textsFit rt = true
  rows : ∀ user, Reflects rt (start.entitlements.lookup user)
    (appliedEvents rt start.users (start.entitlements.lookup user) user recorded)
    (db.entitlements.lookup user)

section

variable {rt : Runtime} {settings : Settings} {authorization : Option String} {start db after : Billing}
  {recorded : List RevenueCatEvent} {event : RevenueCatEvent} {now : Instant}

theorem tracks_start : Tracks rt start [] start :=
  ⟨rfl, fun id ↦ by simp, List.nodup_nil, fun _ h ↦ absurd h List.not_mem_nil, fun _ ↦ reflects_nil⟩

/-- An id without an audit row is neither old nor recorded. -/
theorem Tracks.unknown_iff (h : Tracks rt start recorded db) (id : Text) :
    db.processedWebhookEvents.lookup id = none ↔
      start.processedWebhookEvents.lookup id = none ∧ id ∉ recorded.map (·.id) := by
  have haudit := h.audit id
  rw [← Option.map_eq_none_iff (f := ProcessedWebhookEvent.content), haudit, Option.or_eq_none_iff,
    Option.map_eq_none_iff, Option.map_eq_none_iff, List.find?_eq_none, List.mem_map]
  simp

/-- Inserting an audit row records its event. -/
theorem Tracks.audit_insert (h : Tracks rt start recorded db)
    (hfresh : db.processedWebhookEvents.lookup event.id = none) (id : Text) :
    ((db.processedWebhookEvents.insert event.id ⟨event.type, now, event⟩).lookup id).map
        ProcessedWebhookEvent.content =
      ((start.processedWebhookEvents.lookup id).map ProcessedWebhookEvent.content).or
        (((recorded ++ [event]).find? (·.id = id)).map fun event ↦ (event.type, event)) := by
  obtain ⟨hstart, hnot⟩ := (h.unknown_iff event.id).mp hfresh
  rw [Table.lookup_insert_eq, List.find?_append]
  by_cases hid : id = event.id
  · subst hid
    have hfind : recorded.find? (·.id = event.id) = none := by
      rw [List.find?_eq_none]
      intro other hother heq
      exact hnot (List.mem_map.mpr ⟨other, hother, of_decide_eq_true heq⟩)
    simp [hstart, hfind, ProcessedWebhookEvent.content]
  · rw [if_neg hid, h.audit id]
    simp [Ne.symm hid]

/-- A recorded event changes no row of a user it is not effective or not current for. -/
theorem Tracks.rows_ignored (h : Tracks rt start recorded db) (user : UUID)
    (hignored : effective rt start.users user event = true →
      isStale (db.entitlements.lookup user) event.eventTimestampMs = true) :
    Reflects rt (start.entitlements.lookup user)
      (appliedEvents rt start.users (start.entitlements.lookup user) user (recorded ++ [event]))
      (db.entitlements.lookup user) := by
  rw [appliedEvents_concat (h.rows user), if_neg]
  · exact h.rows user
  · rintro ⟨heffective, hcurrent⟩
    rw [hignored heffective] at hcurrent
    cases hcurrent

/-- The handler keeps the relation, with its event recorded when the audit row is new. -/
theorem Tracks.step (h : Tracks rt start recorded db) (houtcome : HandlerOutcome rt db event now after) :
    Tracks rt start (recorded ++
      if db.processedWebhookEvents.lookup event.id = none then [event] else []) after := by
  have hnodup (hfresh : db.processedWebhookEvents.lookup event.id = none) :
      ((recorded ++ [event]).map (·.id)).Nodup := by
    rw [List.map_append, List.map_singleton, ← List.concat_eq_append]
    exact h.nodup.concat ((h.unknown_iff event.id).mp hfresh).2
  have htexts (hfits : event.textsFit rt = true) :
      ∀ other ∈ recorded ++ [event], other.textsFit rt = true := by
    intro other hother
    rcases List.mem_append.mp hother with hother | hother
    · exact h.texts other hother
    · rw [List.mem_singleton.mp hother]
      exact hfits
  cases houtcome with
  | duplicate known =>
    rw [if_neg (by rw [← Option.isNone_iff_eq_none, Option.isNone_eq_false_iff.mpr known]; decide),
      List.append_nil]
    exact h
  | ignored fresh fits reason =>
    rw [if_pos fresh]
    refine ⟨h.users, h.audit_insert fresh, hnodup fresh, htexts fits, fun user ↦ ?_⟩
    refine h.rows_ignored user fun heffective ↦ ?_
    rw [effective, Bool.and_eq_true, Bool.and_eq_true, decide_eq_true_eq] at heffective
    exact reason user (by rw [h.users]; exact heffective.1.2) heffective.2
  | applied user change fresh fits mapped change_eq current =>
    rw [if_pos fresh]
    refine ⟨h.users, h.audit_insert fresh, hnodup fresh, htexts fits, fun other ↦ ?_⟩
    rw [Table.lookup_insert_eq]
    by_cases hother : other = user
    · subst hother
      have heffective : effective rt start.users other event = true := by
        rw [effective, fits, ← h.users, mapped, change_eq]
        simp
      rw [if_pos rfl, appliedEvents_concat (h.rows other), if_pos ⟨heffective, current⟩]
      exact (h.rows other).upsert change_eq now
    · rw [if_neg hother]
      refine h.rows_ignored other fun heffective ↦ ?_
      rw [effective, Bool.and_eq_true, Bool.and_eq_true, decide_eq_true_eq, ← h.users, mapped] at heffective
      exact absurd (Option.some.inj heffective.1.2).symm hother

/-- A delivery with valid credentials either leaves the tables alone or is a handler run. -/
theorem deliverEvent_cases (rt : Runtime) (db : Billing)
    (hauth : verifyAuth settings authorization = some true) (delivery : WebhookDelivery) :
    (handleEvent rt db delivery.event delivery.now = none ∧
      deliverEvent rt settings authorization db delivery = db) ∨
    HandlerOutcome rt db delivery.event delivery.now
      (deliverEvent rt settings authorization db delivery) := by
  unfold deliverEvent revenuecatWebhook
  simp only [hauth, Option.bind_eq_bind, Option.bind_some, if_true]
  cases hhandle : handleEvent rt db delivery.event delivery.now with
  | none => exact Or.inl ⟨rfl, rfl⟩
  | some out => exact Or.inr (handleEvent_outcome hhandle)

/-- A handler run inserts an audit row exactly when the id had none. -/
theorem HandlerOutcome.lookup_isSome (h : HandlerOutcome rt db event now after) :
    (after.processedWebhookEvents.lookup event.id).isSome := by
  cases h with
  | duplicate known => exact known
  | ignored => simp [AList.lookup_insert]
  | applied => simp [AList.lookup_insert]

theorem Tracks.deliver (hauth : verifyAuth settings authorization = some true)
    (h : Tracks rt start recorded db) (delivery : WebhookDelivery) :
    Tracks rt start (recorded ++
        if inserts rt settings authorization db delivery then [delivery.event] else [])
      (deliverEvent rt settings authorization db delivery) := by
  rcases deliverEvent_cases rt db hauth delivery with ⟨_, hsame⟩ | houtcome
  · rw [inserts, hsame]
    cases db.processedWebhookEvents.lookup delivery.event.id <;> simpa using h
  · have hstep := h.step houtcome
    rw [inserts, houtcome.lookup_isSome]
    cases hlookup : db.processedWebhookEvents.lookup delivery.event.id <;>
      simpa [hlookup] using hstep

/-- Every history keeps the tables in relation to the events it recorded. -/
theorem Tracks.deliverAll (hauth : verifyAuth settings authorization = some true)
    (history : List WebhookDelivery) (h : Tracks rt start recorded db) :
    Tracks rt start (recorded ++ recordedEvents rt settings authorization db history)
      (deliverEvents rt settings authorization db history) := by
  induction history generalizing db recorded with
  | nil => simpa [recordedEvents, deliverEvents] using h
  | cons delivery rest ih =>
    have hrest := ih (h.deliver hauth delivery)
    rw [List.append_assoc] at hrest
    exact hrest

/-- The events of a history in two parts. -/
theorem recordedEvents_append (db : Billing) (first second : List WebhookDelivery) :
    recordedEvents rt settings authorization db (first ++ second) =
      recordedEvents rt settings authorization db first ++
        recordedEvents rt settings authorization
          (deliverEvents rt settings authorization db first) second := by
  induction first generalizing db with
  | nil => rfl
  | cons delivery rest ih =>
    rw [List.cons_append, recordedEvents, recordedEvents, ih, List.append_assoc]
    rfl

theorem recordedEvents_singleton (db : Billing) (delivery : WebhookDelivery) :
    recordedEvents rt settings authorization db [delivery] =
      if inserts rt settings authorization db delivery then [delivery.event] else [] :=
  List.append_nil _

theorem mem_of_mem_recordedEvents {db : Billing} {history : List WebhookDelivery}
    {event : RevenueCatEvent} (h : event ∈ recordedEvents rt settings authorization db history) :
    event ∈ history.map (·.event) := by
  induction history generalizing db with
  | nil => cases h
  | cons delivery rest ih =>
    rcases List.mem_append.mp h with h | h
    · split at h
      · rw [List.mem_singleton.mp h]
        exact List.mem_cons_self
      · cases h
    · exact List.mem_cons_of_mem _ (ih h)

/-- An effective event without an audit row is recorded when it is delivered. -/
theorem inserts_of_effective (hauth : verifyAuth settings authorization = some true) (user : UUID)
    {delivery : WebhookDelivery} (heffective : effective rt db.users user delivery.event = true)
    (hfresh : db.processedWebhookEvents.lookup delivery.event.id = none) :
    inserts rt settings authorization db delivery = true := by
  rw [effective, Bool.and_eq_true, Bool.and_eq_true] at heffective
  rcases deliverEvent_cases rt db hauth delivery with ⟨hnone, _⟩ | houtcome
  · rcases handleEvent_eq_none hnone with hnot | ⟨_, _, _, _, hchange⟩
    · rw [heffective.1.1] at hnot
      cases hnot
    · rw [hchange] at heffective
      cases heffective.2
  · simp [inserts, hfresh, houtcome.lookup_isSome]

theorem deliverEvents_tracks (rt : Runtime) (start : Billing)
    (hauth : verifyAuth settings authorization = some true) (history : List WebhookDelivery) :
    Tracks rt start (recordedEvents rt settings authorization start history)
      (deliverEvents rt settings authorization start history) := by
  have hstart : Tracks rt start [] start := tracks_start
  simpa using hstart.deliverAll hauth history

end

end VoiceSpend
