import VoiceSpend.Parse.Endpoints

/-!
# The quota gates the paid calls, and nothing else

`Followed` is what holds of one request along a run: every call it made comes after the query that counted,
and that query alone decided whether it was answered `quota_exceeded` or let through. The counter it read is
the sum of what the pushes before it inserted, which no step lowers; so once it has reached the quota it
stays there, and only a push that inserts new rows moves it.
-/

namespace VoiceSpend

open Machine

/-! ## One request -/

/-- The request has not reached the gate. -/
@[simp] def ParseProc.waiting : ParseProc → Bool
  | .idle | .resolving _ | .counting _ _ => true
  | _ => false

/-- The gate let the request through. -/
@[simp] def Released (request : ParseRequest) : ParseProc → Prop
  | .listening other _ | .extracting other _ _ _ _ | .raised other => other = request
  | .answered other reply => other = request ∧ reply.status? ≠ some .quotaExceeded
  | .idle | .resolving _ | .counting _ _ => False

/-- The first query of a request resolved the entitlement. -/
def Resolved (trace : List (ParseSystem × ParseAction)) (r : ℕ) (request : ParseRequest)
    (effective : EffectiveEntitlement) : Prop :=
  ∃ resolved earlier, (resolved, ParseAction.resolve r earlier) ∈ trace ∧
    effective = resolveEntitlement (resolved.entitlements.lookup request.user) earlier

/-- The second query of a request has been made. -/
def Counted (trace : List (ParseSystem × ParseAction)) (r : ℕ) : Prop :=
  ∃ counted clock, (counted, ParseAction.count r clock) ∈ trace

/-- What the second query of a request decided. -/
def Decided (s : ParseSystem) (r : ℕ) (request : ParseRequest) (entitlement : EntitlementSignal) : Prop :=
  if entitlement.overQuota then
    s.requests r = .answered request (request.reply ⟨.quotaExceeded, none, none, entitlement⟩) ∧
      ∀ provider, ⟨r, provider⟩ ∉ s.calls
  else Released request (s.requests r)

/-- The history of one request, as far as the gate is concerned. -/
structure Followed (env : ParseEnv) (trace : List (ParseSystem × ParseAction)) (s : ParseSystem) (r : ℕ) :
    Prop where
  uncalled : (s.requests r).waiting = true → ∀ provider, ⟨r, provider⟩ ∉ s.calls
  resolved : ∀ request effective, s.requests r = .counting request effective →
    Resolved trace r request effective
  called : ∀ provider, ⟨r, provider⟩ ∈ s.calls → Counted trace r
  listening : ∀ request entitlement, s.requests r = .listening request entitlement → Counted trace r
  decided : ∀ counted clock, (counted, ParseAction.count r clock) ∈ trace → ∃ request effective,
    Resolved trace r request effective ∧
      Decided s r request (counted.signal env.settings request effective clock)

/-- Everything an action can do to the requests. -/
inductive ParseOutcome (env : ParseEnv) (s : ParseSystem) : ParseAction → ParseSystem → Prop
  | synced (action : SyncAction) (sync : SyncSystem)
      (step : SyncSystem.step env.rt.toRuntime env.settings s.sync action = some sync) :
      ParseOutcome env s (.sync action) { s with sync := sync }
  | entitled (user : UUID) (row : Entitlement) :
      ParseOutcome env s (.entitle user row) { s with entitlements := s.entitlements.insert user row }
  | received (r : ℕ) (request : ParseRequest) (limited : Option HttpError) (idle : s.requests r = .idle) :
      ParseOutcome env s (.receive r request limited)
        (s.proceed r (admission env.parseSettings request limited, none))
  | resolved (r : ℕ) (clock : Instant) (request : ParseRequest)
      (resolving : s.requests r = .resolving request) :
      ParseOutcome env s (.resolve r clock) (s.proceed r
        (.counting request (resolveEntitlement (s.entitlements.lookup request.user) clock), none))
  | counted (r : ℕ) (clock : Instant) (request : ParseRequest) (effective : EffectiveEntitlement)
      (counting : s.requests r = .counting request effective) :
      ParseOutcome env s (.count r clock)
        (s.proceed r (gate request (s.signal env.settings request effective clock) clock))
  | heard (r : ℕ) (clock : Instant) (traceId : Option String) (heard : Awaited Text)
      (request : ParseRequest) (entitlement : EntitlementSignal)
      (listening : s.requests r = .listening request entitlement) :
      ParseOutcome env s (.hear r clock traceId heard)
        (s.proceed r (transcribed request entitlement clock traceId heard))
  | extracted (r : ℕ) (traceId : Option String) (outcome : Awaited ExtractionResult) (request : ParseRequest)
      (text : Text) (transcript : Option Text) (referenceTime : DateTime)
      (entitlement : EntitlementSignal) (user : User)
      (extracting : s.requests r = .extracting request text transcript referenceTime entitlement) :
      ParseOutcome env s (.extract r traceId outcome) (s.proceed r
        (extracted env s.categories s.sync.fxRates user request text transcript referenceTime entitlement
          traceId outcome, none))

section

variable {env : ParseEnv} {trace : List (ParseSystem × ParseAction)} {s s' : ParseSystem} {r u : ℕ}
  {action : ParseAction} {next : ParseProc × Option Provider} {request : ParseRequest}

theorem ParseSystem.step_outcome (h : ParseSystem.step env s action = some s') :
    ParseOutcome env s action s' := by
  unfold ParseSystem.step at h
  split at h
  · obtain ⟨sync, hsync, rfl⟩ := Option.map_eq_some_iff.mp h
    exact .synced _ sync hsync
  · cases h
    exact .entitled _ _
  · split at h
    · cases h
      exact .received _ _ _ (by assumption)
    · cases h
  · split at h
    · cases h
      exact .resolved _ _ _ (by assumption)
    · cases h
  · split at h
    · cases h
      exact .counted _ _ _ _ (by assumption)
    · cases h
  · split at h
    · cases h
      exact .heard _ _ _ _ _ _ (by assumption)
    · cases h
  · split at h
    · obtain ⟨user, _, rfl⟩ := Option.map_eq_some_iff.mp h
      exact .extracted _ _ _ _ _ _ _ _ user (by assumption)
    · cases h

@[simp] theorem proceed_requests (s : ParseSystem) (r : ℕ) (next : ParseProc × Option Provider) :
    (s.proceed r next).requests r = next.1 := Function.update_self ..

theorem proceed_requests_of_ne (s : ParseSystem) (next : ParseProc × Option Provider) (hne : u ≠ r) :
    (s.proceed r next).requests u = s.requests u := Function.update_of_ne hne ..

theorem mem_proceed_calls (provider : Provider) : ⟨u, provider⟩ ∈ (s.proceed r next).calls ↔
    ⟨u, provider⟩ ∈ s.calls ∨ u = r ∧ next.2 = some provider := by
  change _ ∈ s.calls ++ (next.2.map (ProviderCall.mk r)).toList ↔ _
  rw [List.mem_append]
  apply or_congr Iff.rfl
  cases next.2 <;> simp [eq_comm]

theorem Resolved.snoc {effective : EffectiveEntitlement} (h : Resolved trace r request effective)
    (step : ParseSystem × ParseAction) : Resolved (trace ++ [step]) r request effective := by
  obtain ⟨resolved, earlier, hmem, heq⟩ := h
  exact ⟨resolved, earlier, List.mem_append_left _ hmem, heq⟩

theorem Counted.snoc (h : Counted trace r) (step : ParseSystem × ParseAction) :
    Counted (trace ++ [step]) r := by
  obtain ⟨counted, clock, hmem⟩ := h
  exact ⟨counted, clock, List.mem_append_left _ hmem⟩

/-- A step that is not the second query of the request. -/
theorem mem_of_mem_snoc {counted : ParseSystem} {clock : Instant} (hne : ∀ clock, action ≠ .count r clock)
    (hmem : (counted, ParseAction.count r clock) ∈ trace ++ [(s, action)]) :
    (counted, ParseAction.count r clock) ∈ trace := by
  rcases List.mem_append.mp hmem with hmem | hmem
  · exact hmem
  · cases List.mem_singleton.mp hmem
    exact absurd rfl (hne clock)

/-- The steps of others keep the history of a request. -/
theorem Followed.other (h : Followed env trace s r) (hne : ∀ clock, action ≠ .count r clock)
    (hrequest : s'.requests r = s.requests r)
    (hcalls : ∀ provider, ⟨r, provider⟩ ∈ s'.calls ↔ ⟨r, provider⟩ ∈ s.calls) :
    Followed env (trace ++ [(s, action)]) s' r := by
  constructor
  · intro hwaiting provider hmem
    rw [hrequest] at hwaiting
    exact h.uncalled hwaiting provider ((hcalls provider).mp hmem)
  · intro request effective hcounting
    exact (h.resolved request effective (hrequest.symm.trans hcounting)).snoc _
  · intro provider hmem
    exact (h.called provider ((hcalls provider).mp hmem)).snoc _
  · intro request entitlement hlistening
    exact (h.listening request entitlement (hrequest.symm.trans hlistening)).snoc _
  · intro counted clock hmem
    obtain ⟨request, effective, hresolved, hdecided⟩ := h.decided counted clock (mem_of_mem_snoc hne hmem)
    refine ⟨request, effective, hresolved.snoc _, ?_⟩
    unfold Decided at hdecided ⊢
    rw [hrequest]
    split at hdecided
    · rename_i hover
      rw [if_pos hover]
      exact ⟨hdecided.1, fun provider hmem ↦ hdecided.2 provider ((hcalls provider).mp hmem)⟩
    · rename_i hunder
      rw [if_neg hunder]
      exact hdecided

/-- A step of the request itself, before or after its second query. -/
theorem Followed.advance (h : Followed env trace s r) (hne : ∀ clock, action ≠ .count r clock)
    (hopen : ∀ request reply, s.requests r ≠ .answered request reply)
    (hreleased : ∀ request, Released request (s.requests r) → Released request next.1)
    (hwaiting : next.1.waiting = true → (s.requests r).waiting = true ∧ next.2 = none)
    (hresolved : ∀ request effective, next.1 = .counting request effective →
      Resolved (trace ++ [(s, action)]) r request effective)
    (hcalled : ∀ provider, next.2 = some provider → Counted trace r)
    (hlistening : ∀ request entitlement, next.1 ≠ .listening request entitlement) :
    Followed env (trace ++ [(s, action)]) (s.proceed r next) r := by
  constructor
  · intro hnext provider hmem
    rw [proceed_requests] at hnext
    obtain ⟨hbefore, hnone⟩ := hwaiting hnext
    rcases (mem_proceed_calls provider).mp hmem with hold | ⟨_, hsome⟩
    · exact h.uncalled hbefore provider hold
    · rw [hnone] at hsome
      cases hsome
  · intro request effective hcounting
    exact hresolved request effective ((proceed_requests ..).symm.trans hcounting)
  · intro provider hmem
    rcases (mem_proceed_calls provider).mp hmem with hold | ⟨_, hsome⟩
    · exact (h.called provider hold).snoc _
    · exact (hcalled provider hsome).snoc _
  · intro request entitlement hnext
    exact absurd ((proceed_requests ..).symm.trans hnext) (hlistening request entitlement)
  · intro counted clock hmem
    obtain ⟨request, effective, hearlier, hdecided⟩ := h.decided counted clock (mem_of_mem_snoc hne hmem)
    refine ⟨request, effective, hearlier.snoc _, ?_⟩
    unfold Decided at hdecided ⊢
    split at hdecided
    · exact absurd hdecided.1 (hopen _ _)
    · rename_i hunder
      rw [if_neg hunder, proceed_requests]
      exact hreleased request hdecided

/-! ## The stages -/

theorem admission_cases (settings : ParseSettings) (request : ParseRequest) (limited : Option HttpError) :
    admission settings request limited = .resolving request ∨
      ∃ error, admission settings request limited = .answered request (.refused error) := by
  unfold admission
  split
  · exact .inr ⟨_, rfl⟩
  · split
    · split
      · exact .inr ⟨_, rfl⟩
      · exact .inl rfl
    · split
      · exact .inr ⟨_, rfl⟩
      · exact .inl rfl

theorem gate_waiting (request : ParseRequest) (entitlement : EntitlementSignal) (clock : Instant) :
    (gate request entitlement clock).1.waiting = false := by
  unfold gate
  split
  · rfl
  · split <;> rfl

theorem gate_released {entitlement : EntitlementSignal} (clock : Instant)
    (h : entitlement.overQuota = false) :
    Released request (gate request entitlement clock).1 := by
  unfold gate
  rw [h, if_neg Bool.false_ne_true]
  split <;> rfl

theorem transcribed_released (request : ParseRequest) (entitlement : EntitlementSignal) (clock : Instant)
    (traceId : Option String) (heard : Awaited Text) :
    Released request (transcribed request entitlement clock traceId heard).1 := by
  cases heard <;> simp [transcribed, ParseReply.status?]

theorem extracted_released (env : ParseEnv) (categories : List Category) (rates : FxTable) (user : User)
    (request : ParseRequest) (text : Text) (transcript : Option Text) (referenceTime : DateTime)
    (entitlement : EntitlementSignal) (traceId : Option String) (outcome : Awaited ExtractionResult) :
    Released request (extracted env categories rates user request text transcript referenceTime entitlement
      traceId outcome) := by
  unfold extracted
  split
  · rfl
  · rename_i response hresponse
    have hstatus := status_of_runExtraction hresponse
    cases transcript <;> simpa [ParseReply.status?] using hstatus

/-- A released request is not one that waits. -/
theorem Released.not_waiting {proc : ParseProc} (h : Released request proc) : proc.waiting = false := by
  cases proc with
  | idle | resolving | counting => cases h
  | listening | extracting | answered | raised => rfl

/-- A step of a released request releases it again. -/
theorem Followed.released (h : Followed env trace s r) (hne : ∀ clock, action ≠ .count r clock)
    (hopen : ∀ request reply, s.requests r ≠ .answered request reply)
    (hbefore : ∀ other, Released other (s.requests r) → other = request)
    (hreleased : Released request next.1) (hcalled : ∀ provider, next.2 = some provider → Counted trace r)
    (hlistening : ∀ request entitlement, next.1 ≠ .listening request entitlement) :
    Followed env (trace ++ [(s, action)]) (s.proceed r next) r := by
  refine h.advance hne hopen ?_ ?_ ?_ hcalled hlistening
  · intro other hother
    rw [hbefore other hother]
    exact hreleased
  · intro hwaiting
    rw [hreleased.not_waiting] at hwaiting
    cases hwaiting
  · intro other effective hcounting
    rw [hcounting] at hreleased
    cases hreleased

/-- The second query decides, once. -/
theorem Followed.counted {effective : EffectiveEntitlement} (h : Followed env trace s r)
    (counting : s.requests r = .counting request effective) (clock : Instant) :
    Followed env (trace ++ [(s, .count r clock)])
      (s.proceed r (gate request (s.signal env.settings request effective clock) clock)) r := by
  have hhere : (s, ParseAction.count r clock) ∈ trace ++ [(s, .count r clock)] :=
    List.mem_append_right _ (List.mem_singleton_self _)
  have hwaiting := gate_waiting request (s.signal env.settings request effective clock) clock
  constructor
  · intro hnext
    rw [proceed_requests, hwaiting] at hnext
    cases hnext
  · intro other later hcounting
    rw [proceed_requests] at hcounting
    rw [hcounting] at hwaiting
    cases hwaiting
  · intro _ _
    exact ⟨s, clock, hhere⟩
  · intro _ _ _
    exact ⟨s, clock, hhere⟩
  · intro counted earlier hmem
    rcases List.mem_append.mp hmem with hmem | hmem
    · -- an earlier second query would have decided already
      obtain ⟨other, later, _, hdecided⟩ := h.decided counted earlier hmem
      unfold Decided at hdecided
      rw [counting] at hdecided
      split at hdecided
      · cases hdecided.1
      · cases hdecided
    · cases List.mem_singleton.mp hmem
      refine ⟨request, effective, (h.resolved request effective counting).snoc _, ?_⟩
      have huncalled := h.uncalled (by rw [counting]; rfl)
      unfold Decided
      generalize s.signal env.settings request effective clock = entitlement
      split
      · rename_i hover
        have hgate : gate request entitlement clock =
            (.answered request (request.reply ⟨.quotaExceeded, none, none, entitlement⟩), none) := by
          rw [gate, if_pos hover]
        rw [proceed_requests, hgate]
        refine ⟨rfl, fun provider hcall ↦ ?_⟩
        rcases (mem_proceed_calls provider).mp hcall with hold | ⟨_, hsome⟩
        · exact huncalled provider hold
        · cases hsome
      · rename_i hunder
        rw [proceed_requests]
        exact gate_released clock (Bool.eq_false_iff.mpr hunder)

/-- Every step keeps every history. -/
theorem ParseOutcome.followed (h : ParseOutcome env s action s') (hall : ∀ u, Followed env trace s u)
    (u : ℕ) : Followed env (trace ++ [(s, action)]) s' u := by
  have hother {r : ℕ} {next : ParseProc × Option Provider} (hne : u ≠ r)
      (hrequest : action.request? = some r) : Followed env (trace ++ [(s, action)]) (s.proceed r next) u := by
    refine (hall u).other (fun clock heq ↦ ?_) (proceed_requests_of_ne s next hne) fun provider ↦ ?_
    · rw [heq] at hrequest
      exact hne (Option.some.inj hrequest)
    · rw [mem_proceed_calls]
      exact or_iff_left fun heq ↦ hne heq.1
  cases h with
  | synced sync => exact (hall u).other (by simp) rfl fun _ ↦ .rfl
  | entitled => exact (hall u).other (by simp) rfl fun _ ↦ .rfl
  | received r request limited idle =>
    by_cases hu : u = r
    · subst hu
      refine (hall u).advance (by simp) (by simp [idle]) (by simp [idle]) (by simp [idle]) ?_ (by simp) ?_
      · intro other effective hcounting
        rcases admission_cases env.parseSettings request limited with heq | ⟨error, heq⟩ <;>
          cases heq.symm.trans hcounting
      · intro other entitlement hlistening
        rcases admission_cases env.parseSettings request limited with heq | ⟨error, heq⟩ <;>
          cases heq.symm.trans hlistening
    · exact hother hu rfl
  | resolved r clock request resolving =>
    by_cases hu : u = r
    · subst hu
      refine (hall u).advance (by simp) (by simp [resolving]) (by simp [resolving]) (by simp [resolving]) ?_
        (by simp) (by simp)
      rintro other effective ⟨⟩
      exact ⟨s, clock, List.mem_append_right _ (List.mem_singleton_self _), rfl⟩
    · exact hother hu rfl
  | counted r clock request effective counting =>
    by_cases hu : u = r
    · subst hu
      exact (hall u).counted counting clock
    · exact hother hu rfl
  | heard r clock traceId heard request entitlement listening =>
    by_cases hu : u = r
    · subst hu
      refine (hall u).released (by simp) (by simp [listening]) ?_
        (transcribed_released request entitlement clock traceId heard) ?_ ?_
      · intro other hother
        rw [listening] at hother
        exact hother.symm
      · intro _ _
        exact (hall u).listening request entitlement listening
      · intro other signal
        cases heard <;> simp [transcribed]
    · exact hother hu rfl
  | extracted r traceId outcome request text transcript referenceTime entitlement user extracting =>
    by_cases hu : u = r
    · subst hu
      have hreleased := extracted_released env s.categories s.sync.fxRates user request text transcript
        referenceTime entitlement traceId outcome
      refine (hall u).released (by simp) (by simp [extracting]) ?_ hreleased (by simp) ?_
      · intro other hother
        rw [extracting] at hother
        exact hother.symm
      · intro other signal hlistening
        dsimp only at hlistening
        unfold VoiceSpend.extracted at hlistening
        split at hlistening
        · cases hlistening
        · split at hlistening <;> cases hlistening
    · exact hother hu rfl

/-! ## The counter -/

/-- The push that this step of a run commits. -/
def committedIn : ParseSystem × ParseAction → Option CommittedPush
  | (s, .sync action) => committedPush (s.sync, action)
  | _ => none

/-- How many of the user's expenses a run counts in a period. -/
def countedExpenses (trace : List (ParseSystem × ParseAction)) (user : UUID) (period : Period) : ℕ :=
  ((trace.filterMap committedIn).map (·.adds user period)).sum

theorem countedExpenses_append (first second : List (ParseSystem × ParseAction)) (user : UUID)
    (period : Period) : countedExpenses (first ++ second) user period =
      countedExpenses first user period + countedExpenses second user period := by
  unfold countedExpenses
  rw [List.filterMap_append, List.map_append, List.sum_append]

/-- The counters are what they were at first, and what the run counted. -/
structure Balanced (usage : UsageTable) (trace : List (ParseSystem × ParseAction)) (s : ParseSystem) :
    Prop where
  tally : ∀ t, Tally s.sync.expenses s.sync.usage t (s.sync.procs t)
  counted : ∀ user period, usageCount s.sync.usage.committed user period =
    usageCount usage user period + countedExpenses trace user period

theorem ParseOutcome.balanced {usage : UsageTable} (h : ParseOutcome env s action s')
    (hbalanced : Balanced usage trace s) : Balanced usage (trace ++ [(s, action)]) s' := by
  have hsame (hnone : committedIn (s, action) = none) (hsync : s'.sync = s.sync) :
      Balanced usage (trace ++ [(s, action)]) s' := by
    constructor
    · rw [hsync]
      exact hbalanced.tally
    · intro user period
      rw [hsync, hbalanced.counted, countedExpenses_append]
      simp [countedExpenses, hnone]
  cases h with
  | synced action sync step =>
    have houtcome := SyncSystem.step_outcome step
    refine ⟨houtcome.tally hbalanced.tally, fun user period ↦ ?_⟩
    rw [countedExpenses_append, ← Nat.add_assoc, ← hbalanced.counted]
    cases hpush : committedPush (s.sync, action) with
    | none =>
      have hunrecorded := houtcome.unrecorded hbalanced.tally hpush
      rw [hunrecorded.usage]
      simp [countedExpenses, committedIn, hpush]
    | some push =>
      have hrecorded := houtcome.recorded hbalanced.tally hpush
      rw [hrecorded.counter]
      simp [countedExpenses, committedIn, hpush]
  | entitled => exact hsame rfl rfl
  | received => exact hsame rfl rfl
  | resolved => exact hsame rfl rfl
  | counted => exact hsame rfl rfl
  | heard => exact hsame rfl rfl
  | extracted => exact hsame rfl rfl

end

/-! ## Pushes -/

/-- Apart from whether the counter has room, a push does not look at the counters and entitlements. -/
theorem pushSync_results (rt : Runtime) (settings : Settings) (db : Db) (user : UUID) (batch : List RawRecord)
    (now clock : Instant)
    (hroom : usageCount db.usageCounters user (currentPeriod clock) + batch.length ≤ integerMax) :
    (pushSync rt settings db user batch now clock).map (fun out ↦ (out.2.results, out.1.expenses)) =
      (toInsertions rt (validRecords db user (batch.map (classify rt)))).map fun insertions ↦
        ((scan (batch.map (classify rt))).order.map (resultFor (finalReason db user (batch.map (classify rt)))
          (bulkUpsert user now db.expenses db.syncSeq insertions).returned),
        (bulkUpsert user now db.expenses db.syncSeq insertions).expenses) := by
  obtain ⟨hrejects, hvalid⟩ := checkOwners_spec db user (batch.map (classify rt))
  unfold pushSync
  simp only [hrejects, hvalid]
  change Option.map _ (Option.bind (toInsertions rt (validRecords db user (batch.map (classify rt)))) _) = _
  cases hinsertions : toInsertions rt (validRecords db user (batch.map (classify rt))) with
  | none => rfl
  | some insertions =>
    have hcount := (writeSpec_of_toInsertions now hinsertions).newCount_eq
    have hfew := freshIds_length_le db user (batch.map (classify rt))
    rw [List.length_map] at hfew
    obtain ⟨counters, hcounters⟩ := Option.isSome_iff_exists.mp
      ((incrementUsage_isSome db.usageCounters user (currentPeriod clock)
        (newCount (bulkUpsert user now db.expenses db.syncSeq insertions).returned) now).mpr
          (.inr (by omega)))
    rw [Option.bind_some, hcounters]
    rfl

/-! ## Runs -/

/-- The user has no effective pro access at any step of the period. -/
def NoProAccess (user : UUID) (period : Period) (s : ParseSystem) (action : ParseAction) : Prop :=
  ∀ clock, action.clock? = some clock → currentPeriod clock = period →
    (resolveEntitlement (s.entitlements.lookup user) clock).isPro = false

/-- Both readings of the clock that make up the request's signal fall in the period. -/
def RequestIn (trace : List (ParseSystem × ParseAction)) (r : ℕ) (period : Period) : Prop :=
  ∀ s clock, (s, ParseAction.resolve r clock) ∈ trace ∨ (s, ParseAction.count r clock) ∈ trace →
    currentPeriod clock = period

theorem signalOf_overQuota {settings : Settings} {effective : EffectiveEntitlement} {period : Period}
    {used : ℕ} (hfree : effective.isPro = false) :
    (signalOf settings effective period used).overQuota = true ↔
      settings.freeMonthlyLogQuota ≤ used := by
  unfold signalOf
  rw [hfree, if_neg Bool.false_ne_true]
  exact decide_eq_true_iff

section

variable {env : ParseEnv} {sync : SyncSystem} {entitlements : Table UUID Entitlement}
  {categories : List Category} {usage : UsageTable} {user : UUID} {period : Period}
  {trace : List (ParseSystem × ParseAction)} {s : ParseSystem}

theorem followed_of_run {ok : ParseSystem → ParseAction → Prop}
    (hrun : Run (ParseSystem.step env) ok (.ofTables sync entitlements categories) trace s) (r : ℕ) :
    Followed env trace s r := by
  have hall : ∀ r, Followed env trace s r := by
    refine hrun.trace_invariant (fun trace s ↦ ∀ r, Followed env trace s r) (fun r ↦ ?_) ?_
    · constructor <;> simp [ParseSystem.ofTables]
    · intro trace s action s' hall _ hstep
      exact (ParseSystem.step_outcome hstep).followed hall
  exact hall r

theorem balanced_of_run {ok : ParseSystem → ParseAction → Prop}
    (htally : ∀ t, Tally sync.expenses sync.usage t (sync.procs t))
    (hrun : Run (ParseSystem.step env) ok (.ofTables sync entitlements categories) trace s) :
    Balanced sync.usage.committed trace s := by
  refine hrun.trace_invariant (Balanced sync.usage.committed) ⟨htally, fun _ _ ↦ rfl⟩ ?_
  intro trace s action s' hbalanced _ hstep
  exact (ParseSystem.step_outcome hstep).balanced hbalanced

theorem Decided.user_eq {r : ℕ} {request : ParseRequest} {entitlement : EntitlementSignal}
    (h : Decided s r request entitlement) (huser : s.RequestedBy r user) : request.user = user := by
  obtain ⟨other, hother, hsame⟩ := huser
  unfold Decided at h
  split at h
  · rw [h.1] at hother
    cases hother
    exact hsame
  · generalize s.requests r = proc at hother h
    cases proc with
    | idle | resolving | counting => cases h
    | listening | extracting | raised =>
      cases hother
      cases h
      exact hsame
    | answered =>
      cases hother
      cases h.1
      exact hsame

/-- At the second query of a request in the period, the gate is a comparison with the quota. -/
theorem gated_of_run {r : ℕ} {counted : ParseSystem} {clock : Instant}
    (hrun : Run (ParseSystem.step env) (NoProAccess user period)
      (.ofTables sync entitlements categories) trace s)
    (hmem : (counted, ParseAction.count r clock) ∈ trace) (huser : s.RequestedBy r user)
    (hperiod : RequestIn trace r period) : ∃ request entitlement, Decided s r request entitlement ∧
      (entitlement.overQuota = true ↔
        env.settings.freeMonthlyLogQuota ≤ usageCount counted.sync.usage.committed user period) := by
  obtain ⟨request, effective, ⟨resolved, earlier, hresolve, heffective⟩, hdecided⟩ :=
    (followed_of_run hrun r).decided counted clock hmem
  have hrequest := hdecided.user_eq huser
  have hfree := hrun.ok_of_mem hresolve earlier rfl (hperiod resolved earlier (.inl hresolve))
  have hcount := hperiod counted clock (.inr hmem)
  subst hrequest
  refine ⟨request, _, hdecided, ?_⟩
  unfold ParseSystem.signal
  rw [signalOf_overQuota (by rw [heffective]; exact hfree), hcount]

theorem Decided.exceeded {r : ℕ} {request : ParseRequest} {entitlement : EntitlementSignal}
    (h : Decided s r request entitlement) (hover : entitlement.overQuota = true) :
    s.Exceeded r ∧ ∀ provider, ⟨r, provider⟩ ∉ s.calls := by
  unfold Decided at h
  rw [if_pos hover] at h
  refine ⟨?_, h.2⟩
  unfold ParseSystem.Exceeded ParseRequest.reply at *
  rw [h.1]
  split <;> rfl

theorem Decided.overQuota_of_exceeded {r : ℕ} {request : ParseRequest} {entitlement : EntitlementSignal}
    (h : Decided s r request entitlement) (hexceeded : s.Exceeded r) : entitlement.overQuota = true := by
  by_contra hunder
  unfold Decided at h
  unfold ParseSystem.Exceeded at hexceeded
  rw [if_neg hunder] at h
  generalize s.requests r = proc at h hexceeded
  cases proc with
  | answered other reply => exact h.2 hexceeded
  | idle | resolving | counting | listening | extracting | raised => cases hexceeded

end

/-- In a period in which the user has no pro access, a provider is called only for a request that found
fewer than the quota of the user's expenses counted; after a request that was answered `quota_exceeded`
every later one is, without a call; and pushes do not depend on counters or entitlements. -/
theorem quota_gates (env : ParseEnv) (users : Table UUID User) (devices : Table UUID Device)
    (fxRates : FxTable) (expenses : Table UUID Expense) (usage : UsageTable) (syncSeq : ℕ) (reader : UUID)
    (entitlements : Table UUID Entitlement) (categories : List Category) (user : UUID) (period : Period)
    (trace : List (ParseSystem × ParseAction)) (s : ParseSystem)
    (hrun : Run (ParseSystem.step env) (NoProAccess user period)
      (.ofTables (.ofTables users devices fxRates expenses usage syncSeq reader) entitlements categories)
      trace s) :
    (∀ r provider, ⟨r, provider⟩ ∈ s.calls → s.RequestedBy r user → RequestIn trace r period →
      ∃ before counted clock after, trace = before ++ (counted, ParseAction.count r clock) :: after ∧
        ((usageCount usage user period + countedExpenses before user period : ℕ) : ℤ) <
          env.settings.freeMonthlyLogQuota) ∧
    (∀ r later before counted clock after, trace = before ++ (counted, ParseAction.count r clock) :: after →
      s.Exceeded r → s.RequestedBy r user → RequestIn trace r period →
        (∃ recounted clock', (recounted, ParseAction.count later clock') ∈ after) →
          s.RequestedBy later user → RequestIn trace later period →
            s.Exceeded later ∧ ∀ provider, ⟨later, provider⟩ ∉ s.calls) ∧
    ∀ (settings : Settings) (db : Db) (counters : UsageTable) (entitlements' : Table UUID Entitlement)
      (pusher : UUID) (batch : List RawRecord) (now clock : Instant),
      usageCount db.usageCounters pusher (currentPeriod clock) + batch.length ≤ integerMax →
        usageCount counters pusher (currentPeriod clock) + batch.length ≤ integerMax →
          (pushSync env.rt.toRuntime settings
              { db with usageCounters := counters, entitlements := entitlements' }
              pusher batch now clock).map (fun out ↦ (out.2.results, out.1.expenses)) =
            (pushSync env.rt.toRuntime settings db pusher batch now clock).map
              fun out ↦ (out.2.results, out.1.expenses) := by
  have hcounted {before after : List (ParseSystem × ParseAction)} {counted : ParseSystem}
      {action : ParseAction}
      (htrace : trace = before ++ (counted, action) :: after) :
      usageCount counted.sync.usage.committed user period =
        usageCount usage user period + countedExpenses before user period :=
    (balanced_of_run (fun _ ↦ .ended rfl rfl rfl rfl) (hrun.before htrace).1).counted user period
  refine ⟨?_, ?_, ?_⟩
  · intro r provider hcall huser hperiod
    obtain ⟨counted, clock, hmem⟩ := (followed_of_run hrun r).called provider hcall
    obtain ⟨request, entitlement, hdecided, hover⟩ := gated_of_run hrun hmem huser hperiod
    obtain ⟨before, after, htrace⟩ := List.append_of_mem hmem
    refine ⟨before, counted, clock, after, htrace, ?_⟩
    rw [← hcounted htrace]
    by_contra hquota
    exact (hdecided.exceeded (hover.mpr (not_lt.mp hquota))).2 provider hcall
  · intro r later before counted clock after htrace hexceeded huser hperiod hlater huser' hperiod'
    obtain ⟨recounted, clock', hmem⟩ := hlater
    obtain ⟨between, rest, hafter⟩ := List.append_of_mem hmem
    have htrace' : trace = (before ++ (counted, .count r clock) :: between) ++
        (recounted, .count later clock') :: rest := by
      rw [htrace, hafter, List.append_assoc, List.cons_append]
    have hfirst : (counted, .count r clock) ∈ trace := by
      rw [htrace]
      exact List.mem_append_right _ List.mem_cons_self
    have hsecond : (recounted, .count later clock') ∈ trace := by
      rw [htrace']
      exact List.mem_append_right _ List.mem_cons_self
    obtain ⟨_, _, hdecided, hover⟩ := gated_of_run hrun hfirst huser hperiod
    obtain ⟨_, _, hdecided', hover'⟩ := gated_of_run hrun hsecond huser' hperiod'
    have hreached := hover.mp (hdecided.overQuota_of_exceeded hexceeded)
    refine hdecided'.exceeded (hover'.mpr ?_)
    rw [hcounted htrace] at hreached
    rw [hcounted htrace', countedExpenses_append]
    omega
  · intro settings db counters entitlements' pusher batch now clock hroom hroom'
    rw [pushSync_results env.rt.toRuntime settings db pusher batch now clock hroom]
    exact pushSync_results env.rt.toRuntime settings
      { db with usageCounters := counters, entitlements := entitlements' } pusher batch now clock hroom'

/-- A quota of one expense a month. -/
def sampleEnv : ParseEnv where
  rt := .ascii
  inc := documentedCounter
  settings := { sampleSettings with freeMonthlyLogQuota := 1 }
  parseSettings := sampleParseSettings
  providerName := "anthropic"
  modelName := "claude-3-5-haiku-20241022"

/-- A request of the first sample user up to its gate. -/
def parseRequest (r : ℕ) : List ParseAction :=
  [.receive r ⟨⟨1⟩, .parse "coffee", none⟩ none, .resolve r 0, .count r 0]

/-- A parsed request, the push of an expense, and another request. -/
def quotaActions : List ParseAction :=
  parseRequest 0 ++ .extract 0 none (.returned ⟨none, some "malformed", none, none⟩) ::
    (SyncSystem.transaction 0 (.push ⟨1⟩ [sampleExpense 12 1] 0) 7).map .sync ++ parseRequest 1

/-- The sample tables of the sync system, and no entitlement. -/
def ParseSystem.sample : ParseSystem := .ofTables .sample ∅ []

instance (user : UUID) (period : Period) (s : ParseSystem) (action : ParseAction) :
    Decidable (NoProAccess user period s action) :=
  inferInstanceAs (Decidable (∀ clock ∈ action.clock?, currentPeriod clock = period →
    (resolveEntitlement (s.entitlements.lookup user) clock).isPro = false))

/-- The first request calls the LLM, the second one does not. -/
theorem quota_gates_sample : ∃ trace, ∃ s : ParseSystem, s.calls = [⟨0, .llm⟩] ∧ s.Exceeded 1 ∧
      ∃ before counted clock after, trace = before ++ (counted, ParseAction.count 0 clock) :: after ∧
        ((usageCount ∅ ⟨1⟩ (currentPeriod 0) + countedExpenses before ⟨1⟩ (currentPeriod 0) : ℕ) : ℤ) <
          1 := by
  let step := ParseSystem.step sampleEnv
  have hexec : (exec step .sample quotaActions).map (fun s ↦ (s.calls, (s.requests 1).status?,
      (s.requests 0).request?.map (·.user))) = some ([⟨0, .llm⟩], some .quotaExceeded, some ⟨1⟩) := by
    decide +kernel
  obtain ⟨s, hs, hfacts⟩ := Option.map_eq_some_iff.mp hexec
  simp only [Prod.mk.injEq] at hfacts
  obtain ⟨hcalls, hexceeded, huser⟩ := hfacts
  obtain ⟨request, hrequest, hone⟩ := Option.map_eq_some_iff.mp huser
  have hfree : ∀ entry ∈ traceOf step .sample quotaActions,
      NoProAccess ⟨1⟩ (currentPeriod 0) entry.1 entry.2 := by
    decide +kernel
  have hperiod : ∀ entry ∈ traceOf step .sample quotaActions, ∀ clock ∈ entry.2.clock?,
      currentPeriod clock = currentPeriod 0 := by
    decide +kernel
  refine ⟨traceOf step .sample quotaActions, s, hcalls, hexceeded, ?_⟩
  refine (quota_gates sampleEnv _ _ _ _ _ _ _ _ _ ⟨1⟩ (currentPeriod 0) _ s
    ((run_of_exec hs).of_forall_mem hfree)).1 0 .llm ?_ ⟨request, hrequest, hone⟩ ?_
  · rw [hcalls]
    exact List.mem_singleton_self _
  · rintro earlier clock (hmem | hmem)
    · exact hperiod _ hmem clock rfl
    · exact hperiod _ hmem clock rfl

end VoiceSpend
