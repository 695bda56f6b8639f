import VoiceSpend.Webhooks.History

/-!
# Does delivery order matter?

The state columns do not depend on the order of delivery: they are those of the newest
effective event. An optional column keeps its value when an applied event carries none, so
it remembers older events that happened to arrive in order; `deliverEvents_order` says
exactly when it does not depend on the order.
-/

namespace VoiceSpend

open Register

/-- Distinct events of one user, none of them recorded yet. -/
structure EventSet (rt : Runtime) (start : Billing) (user : UUID) (events : Finset RevenueCatEvent) :
    Prop where
  ids : ∀ event ∈ events, ∀ other ∈ events, event.id = other.id → event = other
  timestamps : ∀ event ∈ events, ∀ other ∈ events,
    event.eventTimestampMs = other.eventTimestampMs → event = other
  mapped : ∀ event ∈ events, mappedUser rt start.users event = some user
  fresh : ∀ event ∈ events, start.processedWebhookEvents.lookup event.id = none

/-- The history delivers exactly these events, each at least once. -/
def Delivers (events : Finset RevenueCatEvent) (history : List WebhookDelivery) : Prop :=
  ∀ event, event ∈ history.map (·.event) ↔ event ∈ events

/-- The event can be applied to the row at the start. -/
def applicable (rt : Runtime) (start : Billing) (user : UUID) (event : RevenueCatEvent) : Bool :=
  effective rt start.users user event && !isStale (start.entitlements.lookup user) event.eventTimestampMs

/-- The applicable events of a set. -/
def candidates (rt : Runtime) (start : Billing) (user : UUID) (events : Finset RevenueCatEvent) :
    Finset RevenueCatEvent :=
  events.filter fun event ↦ applicable rt start user event = true

/-- The event is the newest of the set. -/
def IsNewest (events : Finset RevenueCatEvent) (newest : RevenueCatEvent) : Prop :=
  newest ∈ events ∧ ∀ event ∈ events, event.eventTimestampMs ≤ newest.eventTimestampMs

/-- The newest event carries the field, or no event carries a value other than the initial one. -/
def Settled {β : Type} (events : Finset RevenueCatEvent) (field : RevenueCatEvent → Option β)
    (initial : Option β) : Prop :=
  (∃ newest, IsNewest events newest ∧ (field newest).isSome) ∨
    ∀ event ∈ events, ∀ value, field event = some value → initial = some value

/-- The columns of the state machine. -/
def Entitlement.state (row : Entitlement) : Tier × EntitlementStatus × Option ℤ :=
  (row.tier, row.status, row.lastEventTsMs)

section

variable {rt : Runtime} {settings : Settings} {authorization : Option String} {start : Billing}
  {user : UUID} {events : Finset RevenueCatEvent} {history history' : List WebhookDelivery}

theorem mem_candidates {event : RevenueCatEvent} :
    event ∈ candidates rt start user events ↔ event ∈ events ∧ applicable rt start user event = true := by
  rw [candidates, Finset.mem_filter]

theorem effective_of_mem_candidates {event : RevenueCatEvent}
    (h : event ∈ candidates rt start user events) : effective rt start.users user event = true := by
  have happlicable := (mem_candidates.mp h).2
  rw [applicable, Bool.and_eq_true] at happlicable
  exact happlicable.1

/-- A delivered effective event is recorded. -/
theorem mem_recordedEvents_of_effective (hauth : verifyAuth settings authorization = some true)
    (hset : EventSet rt start user events) (hdelivers : Delivers events history)
    {event : RevenueCatEvent} (hevent : event ∈ events)
    (heffective : effective rt start.users user event = true) :
    event ∈ recordedEvents rt settings authorization start history := by
  obtain ⟨delivery, hdelivery, rfl⟩ := List.mem_map.mp ((hdelivers event).mpr hevent)
  obtain ⟨before, later, rfl⟩ := List.append_of_mem hdelivery
  have hbefore := deliverEvents_tracks rt start hauth before
  rw [recordedEvents_append, ← List.singleton_append, recordedEvents_append, recordedEvents_singleton,
    ← List.append_assoc]
  apply List.mem_append_left
  by_cases hknown : delivery.event.id ∈ (recordedEvents rt settings authorization start before).map (·.id)
  · obtain ⟨other, hother, hid⟩ := List.mem_map.mp hknown
    have hmem : other ∈ events := by
      rw [← hdelivers, List.map_append]
      exact List.mem_append_left _ (mem_of_mem_recordedEvents hother)
    rw [← hset.ids other hmem delivery.event hevent hid]
    exact List.mem_append_left _ hother
  · have hfresh := (hbefore.unknown_iff delivery.event.id).mpr ⟨hset.fresh _ hevent, hknown⟩
    rw [← hbefore.users] at heffective
    rw [inserts_of_effective hauth user heffective hfresh]
    simp

/-- Every history that delivers the set considers the same events for the row. -/
theorem mem_considered (hauth : verifyAuth settings authorization = some true)
    (hset : EventSet rt start user events) (hdelivers : Delivers events history)
    (event : RevenueCatEvent) :
    event ∈ (recordedEvents rt settings authorization start history).filter (applicable rt start user) ↔
      event ∈ candidates rt start user events := by
  rw [List.mem_filter, mem_candidates]
  constructor
  · rintro ⟨hrecorded, happlicable⟩
    exact ⟨(hdelivers event).mp (mem_of_mem_recordedEvents hrecorded), happlicable⟩
  · rintro ⟨hevent, happlicable⟩
    exact ⟨mem_recordedEvents_of_effective hauth hset hdelivers hevent
      (effective_of_mem_candidates (mem_candidates.mpr ⟨hevent, happlicable⟩)), happlicable⟩

/-- The events applied by a history. -/
def appliedBy (rt : Runtime) (settings : Settings) (authorization : Option String) (start : Billing)
    (user : UUID) (history : List WebhookDelivery) : List RevenueCatEvent :=
  climb RevenueCatEvent.eventTimestampMs
    ((recordedEvents rt settings authorization start history).filter (applicable rt start user))

/-- The row after a history. -/
theorem reflects_appliedBy (rt : Runtime) (hauth : verifyAuth settings authorization = some true)
    (start : Billing) (user : UUID) (history : List WebhookDelivery) :
    Reflects rt (start.entitlements.lookup user) (appliedBy rt settings authorization start user history)
      ((deliverEvents rt settings authorization start history).entitlements.lookup user) :=
  (deliverEvents_tracks rt start hauth history).rows user

/-- The last applied event is the newest candidate. -/
theorem isNewest_of_getLast? (hauth : verifyAuth settings authorization = some true)
    (hset : EventSet rt start user events) (hdelivers : Delivers events history) {last : RevenueCatEvent}
    (hlast : (appliedBy rt settings authorization start user history).getLast? = some last) :
    IsNewest (candidates rt start user events) last := by
  have hmem (event : RevenueCatEvent) := mem_considered hauth hset hdelivers event
  refine ⟨(hmem last).mp (climb_subset _ _ (List.mem_of_getLast? hlast)), fun event hevent ↦ ?_⟩
  obtain ⟨top, htop, hle⟩ := climb_getLast RevenueCatEvent.eventTimestampMs _ event ((hmem event).mpr hevent)
  have hsame : some last = some top := hlast.symm.trans htop
  cases hsame
  exact hle

theorem exists_getLast? (hauth : verifyAuth settings authorization = some true)
    (hset : EventSet rt start user events) (hdelivers : Delivers events history)
    {event : RevenueCatEvent} (hevent : event ∈ candidates rt start user events) :
    ∃ last, (appliedBy rt settings authorization start user history).getLast? = some last := by
  obtain ⟨top, htop, _⟩ := climb_getLast RevenueCatEvent.eventTimestampMs _ event
    ((mem_considered hauth hset hdelivers event).mpr hevent)
  exact ⟨top, htop⟩

theorem IsNewest.unique (hset : EventSet rt start user events) {first second : RevenueCatEvent}
    (hfirst : IsNewest (candidates rt start user events) first)
    (hsecond : IsNewest (candidates rt start user events) second) : first = second :=
  hset.timestamps first (mem_candidates.mp hfirst.1).1 second (mem_candidates.mp hsecond.1).1
    (le_antisymm (hsecond.2 first hfirst.1) (hfirst.2 second hsecond.1))

/-- The state columns after two histories of the same events. -/
theorem state_order (hauth : verifyAuth settings authorization = some true)
    (hset : EventSet rt start user events) (hdelivers : Delivers events history)
    (hdelivers' : Delivers events history') :
    ((deliverEvents rt settings authorization start history).entitlements.lookup user).map
        Entitlement.state =
      ((deliverEvents rt settings authorization start history').entitlements.lookup user).map
        Entitlement.state := by
  have hrow := reflects_appliedBy rt hauth start user history
  have hrow' := reflects_appliedBy rt hauth start user history'
  have hlast : (appliedBy rt settings authorization start user history).getLast? =
      (appliedBy rt settings authorization start user history').getLast? := by
    apply climb_getLast?_congr
    · intro event
      rw [mem_considered hauth hset hdelivers, mem_considered hauth hset hdelivers']
    · intro event hevent other hother
      exact hset.timestamps event (mem_candidates.mp ((mem_considered hauth hset hdelivers _).mp hevent)).1
        other (mem_candidates.mp ((mem_considered hauth hset hdelivers _).mp hother)).1
  cases happlied : (appliedBy rt settings authorization start user history).getLast? with
  | none =>
    rw [happlied] at hlast
    rw [hrow.unchanged (List.getLast?_eq_none_iff.mp happlied),
      hrow'.unchanged (List.getLast?_eq_none_iff.mp hlast.symm)]
  | some last =>
    rw [happlied] at hlast
    obtain ⟨entitlement, heq, hstate, hts⟩ := hrow.last last happlied
    obtain ⟨entitlement', heq', hstate', hts'⟩ := hrow'.last last hlast.symm
    rw [hstate, Option.some.injEq, Prod.mk.injEq] at hstate'
    rw [heq, heq', Option.map_some, Option.map_some, Entitlement.state, Entitlement.state, hts, hts',
      hstate'.1, hstate'.2]

/-- The value of an optional column after a history. -/
def carriedBy {β : Type} (rt : Runtime) (settings : Settings) (authorization : Option String)
    (start : Billing) (user : UUID) (field : RevenueCatEvent → Option β) (initial : Option β)
    (history : List WebhookDelivery) : Option β :=
  (lastCarried field (appliedBy rt settings authorization start user history)).or initial

/-- A settled field has one value after every history. -/
theorem carriedBy_of_settled {β : Type} {field : RevenueCatEvent → Option β} {initial : Option β}
    (hauth : verifyAuth settings authorization = some true) (hset : EventSet rt start user events)
    (hsettled : Settled (candidates rt start user events) field initial) :
    ∃ value, ∀ history, Delivers events history →
      carriedBy rt settings authorization start user field initial history = value := by
  rcases hsettled with ⟨newest, hnewest, hcarries⟩ | hinitial
  · obtain ⟨value, hvalue⟩ := Option.isSome_iff_exists.mp hcarries
    refine ⟨some value, fun history hdelivers ↦ ?_⟩
    obtain ⟨last, hlast⟩ := exists_getLast? hauth hset hdelivers hnewest.1
    rw [hnewest.unique hset (isNewest_of_getLast? hauth hset hdelivers hlast)] at hvalue
    rw [carriedBy, lastCarried_of_getLast? hlast hvalue, Option.some_or]
  · refine ⟨initial, fun history hdelivers ↦ ?_⟩
    unfold carriedBy
    cases hcarried : lastCarried field (appliedBy rt settings authorization start user history) with
    | none => rw [Option.none_or]
    | some value =>
      obtain ⟨event, hevent, hfield⟩ := lastCarried_mem hcarried
      rw [Option.some_or]
      exact (hinitial event ((mem_considered hauth hset hdelivers event).mp
        (climb_subset _ _ hevent)) value hfield).symm

/-- Two candidates delivered first are both recorded. -/
theorem recordedEvents_pair (settings : Settings) (hauth : verifyAuth settings authorization = some true)
    (hset : EventSet rt start user events) {first second : RevenueCatEvent}
    (hfirst : first ∈ candidates rt start user events) (hsecond : second ∈ candidates rt start user events)
    (hne : first ≠ second) (rest : List WebhookDelivery) :
    ∃ others, recordedEvents rt settings authorization start (⟨first, 0⟩ :: ⟨second, 0⟩ :: rest) =
      first :: second :: others := by
  obtain ⟨hfirstMem, _⟩ := mem_candidates.mp hfirst
  obtain ⟨hsecondMem, _⟩ := mem_candidates.mp hsecond
  have hinserts : inserts rt settings authorization start ⟨first, 0⟩ = true :=
    inserts_of_effective hauth user (effective_of_mem_candidates hfirst) (hset.fresh first hfirstMem)
  have htracks : Tracks rt start [first] (deliverEvent rt settings authorization start ⟨first, 0⟩) := by
    have hdeliver := (tracks_start : Tracks rt start [] start).deliver hauth ⟨first, 0⟩
    rwa [hinserts, if_pos rfl, List.nil_append] at hdeliver
  have hinserts' : inserts rt settings authorization
      (deliverEvent rt settings authorization start ⟨first, 0⟩) ⟨second, 0⟩ = true := by
    refine inserts_of_effective hauth user ?_ ?_
    · rw [htracks.users]
      exact effective_of_mem_candidates hsecond
    · rw [htracks.unknown_iff]
      refine ⟨hset.fresh second hsecondMem, fun hid ↦ hne ?_⟩
      rw [List.map_singleton, List.mem_singleton] at hid
      exact hset.ids first hfirstMem second hsecondMem hid.symm
  rw [recordedEvents, recordedEvents, hinserts, hinserts']
  exact ⟨_, rfl⟩

/-- Delivering the newest candidate first or second applies it last. -/
theorem appliedBy_of_recorded (front : List RevenueCatEvent) {others : List RevenueCatEvent}
    {newest : RevenueCatEvent} (hauth : verifyAuth settings authorization = some true)
    (hset : EventSet rt start user events) (hdelivers : Delivers events history)
    (hnewest : IsNewest (candidates rt start user events) newest)
    (hrecorded : recordedEvents rt settings authorization start history = front ++ newest :: others) :
    appliedBy rt settings authorization start user history =
      climb RevenueCatEvent.eventTimestampMs (front.filter (applicable rt start user) ++ [newest]) := by
  have hnodup := (deliverEvents_tracks rt start hauth history).nodup
  have happlicable := (mem_candidates.mp hnewest.1).2
  unfold appliedBy
  rw [hrecorded, List.filter_append, List.filter_cons_of_pos happlicable, ← List.singleton_append,
    ← List.append_assoc]
  have hfront (event : RevenueCatEvent) (hevent : event ∈ front.filter (applicable rt start user)) :
      event.eventTimestampMs ≤ newest.eventTimestampMs := by
    refine hnewest.2 event ((mem_considered hauth hset hdelivers event).mp ?_)
    rw [hrecorded, List.filter_append]
    exact List.mem_append_left _ hevent
  refine climb_append_of_lt (y := newest) ?_ _ fun event hevent ↦ ?_
  · rw [climb_concat, if_pos fun event hevent ↦ hfront event (climb_subset _ _ hevent)]
    simp
  · have hcandidate := (mem_considered hauth hset hdelivers event).mp (by
      rw [hrecorded, List.filter_append, List.filter_cons_of_pos happlicable]
      exact List.mem_append_right _ (List.mem_cons_of_mem _ hevent))
    refine lt_of_le_of_ne (hnewest.2 event hcandidate) fun hsame ↦ ?_
    have heq := hset.timestamps event (mem_candidates.mp hcandidate).1 newest
      (mem_candidates.mp hnewest.1).1 hsame
    subst heq
    rw [hrecorded, List.map_append, List.map_cons, List.nodup_append] at hnodup
    exact (List.nodup_cons.mp hnodup.2.1).1 (List.mem_map_of_mem (List.mem_filter.mp hevent).1)

/-- A field with one value after every history is settled. -/
theorem settled_of_carriedBy {β : Type} {field : RevenueCatEvent → Option β} {initial : Option β}
    (hauth : verifyAuth settings authorization = some true) (hset : EventSet rt start user events)
    (hsame : ∀ history history', Delivers events history → Delivers events history' →
      carriedBy rt settings authorization start user field initial history =
        carriedBy rt settings authorization start user field initial history') :
    Settled (candidates rt start user events) field initial := by
  by_contra hnot
  rw [Settled, not_or] at hnot
  obtain ⟨hnewestNone, hother⟩ := hnot
  push Not at hother
  obtain ⟨event, hevent, value, hfield, hinitial⟩ := hother
  obtain ⟨newest, hmem, hmax⟩ := Finset.exists_max_image (candidates rt start user events)
    RevenueCatEvent.eventTimestampMs ⟨event, hevent⟩
  have hnewest : IsNewest (candidates rt start user events) newest := ⟨hmem, hmax⟩
  have hnone : field newest = none := by
    by_contra hsome
    exact hnewestNone ⟨newest, hnewest, Option.isSome_iff_ne_none.mpr hsome⟩
  have hne : event ≠ newest := fun heq ↦ by
    rw [heq, hnone] at hfield
    cases hfield
  -- the carrier in order before the newest event, or stale after it
  let rest : List WebhookDelivery := events.toList.map fun event ↦ ⟨event, 0⟩
  have hdelivers (first second : RevenueCatEvent) (hfirst : first ∈ events) (hsecond : second ∈ events) :
      Delivers events (⟨first, 0⟩ :: ⟨second, 0⟩ :: rest) := by
    intro other
    have hrest : rest.map (·.event) = events.toList := by
      rw [List.map_map]
      exact List.map_id _
    rw [List.map_cons, List.map_cons, hrest, List.mem_cons, List.mem_cons, Finset.mem_toList]
    constructor
    · rintro (rfl | rfl | hmem)
      · exact hfirst
      · exact hsecond
      · exact hmem
    · exact fun hmem ↦ Or.inr (Or.inr hmem)
  have heventMem := (mem_candidates.mp hevent).1
  have hnewestMem := (mem_candidates.mp hmem).1
  obtain ⟨others, hordered⟩ := recordedEvents_pair settings hauth hset hevent hmem hne rest
  obtain ⟨others', hreversed⟩ :=
    recordedEvents_pair settings hauth hset hmem hevent (Ne.symm hne) rest
  have happlied := appliedBy_of_recorded [event] hauth hset
    (hdelivers event newest heventMem hnewestMem) hnewest hordered
  have happlied' := appliedBy_of_recorded [] hauth hset
    (hdelivers newest event hnewestMem heventMem) hnewest hreversed
  have hclimb : climb RevenueCatEvent.eventTimestampMs
      ([event].filter (applicable rt start user) ++ [newest]) = [event, newest] := by
    rw [List.filter_cons_of_pos (mem_candidates.mp hevent).2]
    rw [List.filter_nil, climb_concat, climb_singleton, if_pos (by simpa using hnewest.2 event hevent)]
    rfl
  have heq := hsame _ _ (hdelivers event newest heventMem hnewestMem)
    (hdelivers newest event hnewestMem heventMem)
  rw [carriedBy, carriedBy, happlied, happlied', hclimb] at heq
  rw [List.filter_nil, List.nil_append, climb_singleton, lastCarried_singleton, hnone, Option.none_or,
    show [event, newest] = [event] ++ [newest] from rfl, lastCarried_concat, lastCarried_singleton, hnone,
    hfield, Option.none_or, Option.some_or] at heq
  exact hinitial heq.symm

/-- The resolved access of a row without the pro tier. -/
theorem isPro_of_tier_free {row : Option Entitlement} {now : Instant}
    (hfree : ∀ entitlement, row = some entitlement → entitlement.tier = .free) :
    (resolveEntitlement row now).isPro = false := by
  cases row with
  | none => rfl
  | some entitlement => simp [resolveEntitlement, hfree entitlement rfl]

/-- Access depends on the state columns and the period end. -/
theorem isPro_congr {row row' : Option Entitlement} (now : Instant)
    (hstate : row.map Entitlement.state = row'.map Entitlement.state)
    (hperiod : row.bind (·.currentPeriodEnd) = row'.bind (·.currentPeriodEnd)) :
    (resolveEntitlement row now).isPro = (resolveEntitlement row' now).isPro := by
  cases row with
  | none =>
    cases row' with
    | none => rfl
    | some entitlement' => cases hstate
  | some entitlement =>
    cases row' with
    | none => cases hstate
    | some entitlement' =>
      simp only [Option.map_some, Option.some.injEq, Entitlement.state, Prod.mk.injEq] at hstate
      simp only [Option.bind_some] at hperiod
      simp only [resolveEntitlement, hstate.1, hstate.2.1, hperiod]

end

section

variable (rt : Runtime) (settings : Settings) (authorization : Option String) (start : Billing)
  (user : UUID) (events : Finset RevenueCatEvent)

/-- The user's row after a history. -/
def rowAfter (history : List WebhookDelivery) : Option Entitlement :=
  (deliverEvents rt settings authorization start history).entitlements.lookup user

/-- A column does not depend on the order of delivery. -/
def OrderFree {β : Type} (column : Entitlement → Option β) : Prop :=
  ∀ history history', Delivers events history → Delivers events history' →
    (rowAfter rt settings authorization start user history).bind column =
      (rowAfter rt settings authorization start user history').bind column

variable {rt settings authorization start user events} in
/-- A column that carries a field over is independent of order exactly when the field is settled. -/
theorem orderFree_iff {β : Type} {column : Entitlement → Option β} {field : RevenueCatEvent → Option β}
    (hauth : verifyAuth settings authorization = some true) (hset : EventSet rt start user events)
    (hcolumn : ∀ history, (rowAfter rt settings authorization start user history).bind column =
      carriedBy rt settings authorization start user field
        ((start.entitlements.lookup user).bind column) history) :
    OrderFree rt settings authorization start user events column ↔
      Settled (candidates rt start user events) field ((start.entitlements.lookup user).bind column) := by
  unfold OrderFree
  simp only [hcolumn]
  constructor
  · exact settled_of_carriedBy hauth hset
  · intro hsettled history history' hdelivers hdelivers'
    obtain ⟨value, hvalue⟩ := carriedBy_of_settled hauth hset hsettled
    rw [hvalue history hdelivers, hvalue history' hdelivers']

/-- Tier, status and watermark never depend on the order of delivery; an optional column does
not exactly when its field is settled; access does not when the period end does not, or when
the newest event takes the pro tier away. -/
theorem deliverEvents_order (hauth : verifyAuth settings authorization = some true)
    (hset : EventSet rt start user events) :
    (∀ history history', Delivers events history → Delivers events history' →
      (rowAfter rt settings authorization start user history).map Entitlement.state =
        (rowAfter rt settings authorization start user history').map Entitlement.state) ∧
    (OrderFree rt settings authorization start user events (·.productId) ↔
      Settled (candidates rt start user events) (·.productId)
        ((start.entitlements.lookup user).bind (·.productId))) ∧
    (OrderFree rt settings authorization start user events (·.store) ↔
      Settled (candidates rt start user events) (fun event ↦ resolveStore rt event.store)
        ((start.entitlements.lookup user).bind (·.store))) ∧
    (OrderFree rt settings authorization start user events (·.currentPeriodEnd) ↔
      Settled (candidates rt start user events) periodEndOf
        ((start.entitlements.lookup user).bind (·.currentPeriodEnd))) ∧
    ((Settled (candidates rt start user events) periodEndOf
        ((start.entitlements.lookup user).bind (·.currentPeriodEnd)) ∨
      ∃ newest, IsNewest (candidates rt start user events) newest ∧ newest.type = "EXPIRATION") →
      ∀ history history', Delivers events history → Delivers events history' → ∀ now,
        (resolveEntitlement (rowAfter rt settings authorization start user history) now).isPro =
          (resolveEntitlement (rowAfter rt settings authorization start user history') now).isPro) := by
  have hperiod : OrderFree rt settings authorization start user events (·.currentPeriodEnd) ↔
      Settled (candidates rt start user events) periodEndOf
        ((start.entitlements.lookup user).bind (·.currentPeriodEnd)) :=
    orderFree_iff hauth hset fun history ↦ (reflects_appliedBy rt hauth start user history).currentPeriodEnd
  refine ⟨fun history history' ↦ state_order hauth hset, orderFree_iff hauth hset fun history ↦
    (reflects_appliedBy rt hauth start user history).productId, orderFree_iff hauth hset fun history ↦
    (reflects_appliedBy rt hauth start user history).store, hperiod, ?_⟩
  rintro (hsettled | ⟨newest, hnewest, htype⟩) history history' hdelivers hdelivers' now
  · exact isPro_congr now (state_order hauth hset hdelivers hdelivers')
      (hperiod.mpr hsettled history history' hdelivers hdelivers')
  · have hfree (history : List WebhookDelivery) (hdelivers : Delivers events history) :
        (resolveEntitlement (rowAfter rt settings authorization start user history) now).isPro = false := by
      apply isPro_of_tier_free
      intro entitlement hrow
      obtain ⟨last, hlast⟩ := exists_getLast? hauth hset hdelivers hnewest.1
      have hreflects := reflects_appliedBy rt hauth start user history
      obtain ⟨entitlement', hrow', hstate, _⟩ := hreflects.last last hlast
      have hsame : some entitlement = some entitlement' := hrow.symm.trans hrow'
      cases hsame
      rw [← hnewest.unique hset (isNewest_of_getLast? hauth hset hdelivers hlast), htype] at hstate
      have hlookup : eventState.lookup ("EXPIRATION" : Text) = some (.free, .expired) := by decide
      rw [hlookup, Option.some.injEq, Prod.mk.injEq] at hstate
      exact hstate.1.symm
    rw [hfree history hdelivers, hfree history' hdelivers']

end

/-- The second of two renewals names no product. -/
def sampleEvents : Finset RevenueCatEvent := {sampleEvent "a" 1 (some "monthly"), sampleEvent "b" 2 none}

theorem sampleEvents_eventSet : EventSet .ascii ⟨sampleUsers, ∅, ∅⟩ ⟨1⟩ sampleEvents :=
  ⟨by decide, by decide, by decide, by decide⟩

theorem sampleEvents_delivers {first second : RevenueCatEvent}
    (h : ∀ event, event = first ∨ event = second ↔ event ∈ sampleEvents) :
    Delivers sampleEvents [⟨first, 0⟩, ⟨second, 0⟩] := by
  intro event
  rw [← h]
  simp

theorem sampleEvents_candidates : candidates .ascii ⟨sampleUsers, ∅, ∅⟩ ⟨1⟩ sampleEvents = sampleEvents := by
  decide +kernel

/-- No renewal carries the field. -/
theorem sampleEvents_settled {β : Type} {field : RevenueCatEvent → Option β}
    (h : ∀ event ∈ sampleEvents, field event = none) :
    Settled (candidates .ascii ⟨sampleUsers, ∅, ∅⟩ ⟨1⟩ sampleEvents) field none := by
  rw [sampleEvents_candidates]
  refine .inr fun event hmem value hvalue ↦ ?_
  rw [h event hmem] at hvalue
  cases hvalue

/-- The newer renewal carries no product, and the older one does. -/
theorem sampleEvents_not_settled :
    ¬ Settled (candidates .ascii ⟨sampleUsers, ∅, ∅⟩ ⟨1⟩ sampleEvents) (·.productId) none := by
  rw [sampleEvents_candidates]
  rintro (⟨newest, ⟨hmem, hnewest⟩, hcarried⟩ | hinitial)
  · have hall : ∀ event ∈ sampleEvents, event.productId.isSome → ∃ other ∈ sampleEvents,
        event.eventTimestampMs < other.eventTimestampMs := by decide
    obtain ⟨other, hother, hlater⟩ := hall newest hmem hcarried
    exact absurd (hnewest other hother) (not_le.mpr hlater)
  · cases hinitial (sampleEvent "a" 1 (some "monthly")) (by decide) "monthly" rfl

/-- Of two renewals in any order, state, store, period end and access are the same; the product is not. -/
theorem deliverEvents_order_sample :
    (rowAfter .ascii sampleSettings (some "secret") ⟨sampleUsers, ∅, ∅⟩ ⟨1⟩
        [⟨sampleEvent "a" 1 (some "monthly"), 0⟩, ⟨sampleEvent "b" 2 none, 0⟩]).map Entitlement.state =
      (rowAfter .ascii sampleSettings (some "secret") ⟨sampleUsers, ∅, ∅⟩ ⟨1⟩
        [⟨sampleEvent "b" 2 none, 0⟩, ⟨sampleEvent "a" 1 (some "monthly"), 0⟩]).map Entitlement.state ∧
    ¬ OrderFree .ascii sampleSettings (some "secret") ⟨sampleUsers, ∅, ∅⟩ ⟨1⟩ sampleEvents (·.productId) ∧
    OrderFree .ascii sampleSettings (some "secret") ⟨sampleUsers, ∅, ∅⟩ ⟨1⟩ sampleEvents (·.store) ∧
    OrderFree .ascii sampleSettings (some "secret") ⟨sampleUsers, ∅, ∅⟩ ⟨1⟩ sampleEvents
    (·.currentPeriodEnd) ∧
    ∀ now, (resolveEntitlement (rowAfter .ascii sampleSettings (some "secret") ⟨sampleUsers, ∅, ∅⟩ ⟨1⟩
        [⟨sampleEvent "a" 1 (some "monthly"), 0⟩, ⟨sampleEvent "b" 2 none, 0⟩]) now).isPro =
      (resolveEntitlement (rowAfter .ascii sampleSettings (some "secret") ⟨sampleUsers, ∅, ∅⟩ ⟨1⟩
        [⟨sampleEvent "b" 2 none, 0⟩, ⟨sampleEvent "a" 1 (some "monthly"), 0⟩]) now).isPro := by
  have hforth : Delivers sampleEvents [⟨sampleEvent "a" 1 (some "monthly"), 0⟩,
    ⟨sampleEvent "b" 2 none, 0⟩] :=
    sampleEvents_delivers fun event ↦ by simp [sampleEvents]
  have hback : Delivers sampleEvents [⟨sampleEvent "b" 2 none, 0⟩, ⟨sampleEvent "a" 1 (some "monthly"), 0⟩] :=
    sampleEvents_delivers fun event ↦ by simp [sampleEvents, or_comm]
  obtain ⟨hstate, hproduct, hstore, hperiod, haccess⟩ :=
    deliverEvents_order .ascii sampleSettings (some "secret")
    ⟨sampleUsers, ∅, ∅⟩ ⟨1⟩ sampleEvents (by decide) sampleEvents_eventSet
  have hunchanged : Settled (candidates .ascii ⟨sampleUsers, ∅, ∅⟩ ⟨1⟩ sampleEvents) periodEndOf none :=
    sampleEvents_settled (by decide)
  exact ⟨hstate _ _ hforth hback, mt hproduct.mp sampleEvents_not_settled,
    hstore.mpr (sampleEvents_settled (by decide)), hperiod.mpr hunchanged,
    haccess (.inl hunchanged) _ _ hforth hback⟩

/-- The product remembered depends on the order: the older renewal is stale after the newer one. -/
theorem deliverEvents_order_matters : ¬ ∀ (rt : Runtime) (settings : Settings)
    (authorization : Option String) (start : Billing) (user : UUID) (events : Finset RevenueCatEvent),
    verifyAuth settings authorization = some true → EventSet rt start user events →
      ∀ history history', Delivers events history → Delivers events history' →
        (rowAfter rt settings authorization start user history).map Entitlement.content =
          (rowAfter rt settings authorization start user history').map Entitlement.content := by
  intro hfree
  have heq := hfree .ascii sampleSettings (some "secret") ⟨sampleUsers, ∅, ∅⟩ ⟨1⟩ sampleEvents
    (by decide) sampleEvents_eventSet
    [⟨sampleEvent "a" 1 (some "monthly"), 0⟩, ⟨sampleEvent "b" 2 none, 0⟩]
    [⟨sampleEvent "b" 2 none, 0⟩, ⟨sampleEvent "a" 1 (some "monthly"), 0⟩]
    (sampleEvents_delivers fun event ↦ by simp [sampleEvents])
    (sampleEvents_delivers fun event ↦ by simp [sampleEvents, or_comm])
  revert heq
  decide

end VoiceSpend
