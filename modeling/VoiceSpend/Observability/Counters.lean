import VoiceSpend.Library.Census
import VoiceSpend.Observability.Cardinality
import VoiceSpend.Parse.Quota
import VoiceSpend.Webhooks.ExactlyOnce

/-!
# What the counters count

The counters of a server against its requests and its tables, after any run. A parse request that is answered
with a status is counted under it once, a rejected one as rate limited, an answered delivery under its type and
outcome, and the new expenses and stored events are the rows that the tables have gained.
-/

namespace VoiceSpend

open Emitting Machine

def MetricSample.isRateLimited : MetricSample → Bool
  | .rateLimited _ => true
  | _ => false

/-- A delivery of an event of this type that has a row of its own. -/
def MetricSample.stores (type : Text) : MetricSample → Bool
  | .webhookEvents eventType outcome => decide (eventType = type) && outcome ≠ "duplicate"
  | _ => false

/-- The request was answered 429. -/
def LimiterProc.rejected : LimiterProc → Bool
  | .answered (.raised exception) => exception.retryAfter.isSome
  | _ => false

/-- The run was answered about an event of this type, with this outcome. -/
def HandlerState.told (type : Text) (outcome : String) : HandlerState → Bool
  | .answered event response => decide (event.type = type) && response.outcome = some outcome
  | _ => false

/-- What `record_sync_push_new` adds at a step. -/
def newExpenses : Server × ServerAction → ℕ
  | (s, .parse (.sync action)) => (committedPush (s.parse.sync, action)).elim 0 (·.inserted.length)
  | _ => 0

/-- What the counters say after a run. -/
structure CountersTrue (env : MetricsEnv) (expenses : Table UUID Expense) (billing : Billing)
    (trace : List (Server × ServerAction)) (s : Server) : Prop where
  parsed : ∀ status : ParseStatusLiteral,
    (s.recorded.count (.parseRequests env.providerName env.modelName status.value) : ℕ∞) =
      census s.parse.requests fun proc ↦ proc.status? = some status
  limited : (s.recorded.countP MetricSample.isRateLimited : ℕ∞) =
    census s.limiter.procs fun proc ↦ proc.rejected = true
  delivered : ∀ type outcome, (s.recorded.count (.webhookEvents type outcome) : ℕ∞) =
    census s.webhooks.runs fun state ↦ state.told type outcome = true
  stored : ∀ type, Table.countRows (fun _ row ↦ row.eventType = type) s.webhooks.audit.committed =
    Table.countRows (fun _ row ↦ row.eventType = type) billing.processedWebhookEvents +
      s.recorded.countP (MetricSample.stores type)
  pushed : s.parse.sync.expenses.committed.keys.length = expenses.keys.length + (trace.map newExpenses).sum

section

variable {env : MetricsEnv}

/-! ## Parse requests -/

theorem ParseStatusLiteral.value_inj : ∀ first second : ParseStatusLiteral,
    first.value = second.value → first = second := by
  decide

/-- The counter of a status. -/
def countsParse (env : MetricsEnv) (status : ParseStatusLiteral) (sample : MetricSample) : Bool :=
  sample == .parseRequests env.providerName env.modelName status.value

theorem countsParse_iff {status other : ParseStatusLiteral} :
    countsParse env status (.parseRequests env.providerName env.modelName other.value) = true ↔
      other = status := by
  rw [countsParse, beq_iff_eq, MetricSample.parseRequests.injEq]
  exact ⟨fun h ↦ ParseStatusLiteral.value_inj other status h.2.2, fun h ↦ ⟨rfl, rfl, congrArg _ h⟩⟩

namespace Metered

theorem tells_status (status answered : ParseStatusLiteral) {α : Type} (value : α) (described : α → Bool)
    (h : described value = decide (answered = status)) :
    (emit (.parseRequests env.providerName env.modelName answered.value) >>= fun _ ↦
      (pure value : Emitting MetricSample α)).Tells (countsParse env status) described := by
  change List.countP _ [_] = if described value = true then 1 else 0
  rw [List.countP_singleton, h]
  simp only [countsParse_iff, decide_eq_true_eq]

theorem countP_recordParseTokens (status : ParseStatusLiteral) (inc : ℚ → Bool) (kind : String)
    (count : Option ℤ) : (recordParseTokens inc env.providerName env.modelName kind count).emitted.countP
      (countsParse env status) = 0 := by
  cases count with
  | none => rfl
  | some count =>
    unfold recordParseTokens
    dsimp only
    split <;> rfl

theorem countP_recordParseCost (status : ParseStatusLiteral) (inc : ℚ → Bool) (cost : Option ℚ) :
    (recordParseCost inc env.providerName env.modelName cost).emitted.countP
    (countsParse env status) = 0 := by
  cases cost with
  | none => rfl
  | some cost =>
    unfold recordParseCost
    dsimp only
    split <;> rfl

variable (env) in
/-- `_run_extraction` counts the status it answers. -/
theorem runExtraction_tells (status : ParseStatusLiteral) (categories : List Category) (rates : FxTable)
    (user : User) (text : Text) (referenceTime : DateTime)
    (extract : Text → ExtractionContext → Awaited ExtractionResult) (traceId : Option String)
    (entitlement : EntitlementSignal) :
    (runExtraction env.rt env.inc env.parseSettings categories rates user text referenceTime
      ⟨env.providerName, env.modelName, extract⟩ traceId entitlement).Tells (countsParse env status)
        fun response ↦ decide (response.status = status) := by
  unfold runExtraction
  apply Tells.bind rfl
  intro _
  apply Tells.bind rfl
  intro costUsd
  apply Tells.bind (countP_recordParseTokens ..)
  intro _
  apply Tells.bind (countP_recordParseTokens ..)
  intro _
  apply Tells.bind (countP_recordParseCost ..)
  intro _
  apply Tells.bind rfl
  intro answer
  apply Tells.bind rfl
  intro _
  exact tells_status status answer.1 _ _ rfl

variable (env) in
/-- The gate counts a request over quota. -/
theorem gate_tells (status : ParseStatusLiteral) (request : ParseRequest) (entitlement : EntitlementSignal)
    (clock : Instant) : (gate env.toParseEnv request entitlement clock).Tells (countsParse env status)
      fun next ↦ decide (next.1.status? = some status) := by
  cases hover : entitlement.overQuota with
  | true =>
    have hgate : gate env.toParseEnv request entitlement clock =
        (emit (.parseRequests env.providerName env.modelName ParseStatusLiteral.quotaExceeded.value)
          >>= fun _ ↦
          pure (VoiceSpend.gate request entitlement clock)) := by
      unfold gate
      rw [hover]
      rfl
    rw [hgate]
    refine tells_status status .quotaExceeded _ _ ?_
    rw [VoiceSpend.gate, if_pos hover]
    cases hinput : request.input <;> simp [ParseRequest.reply, hinput, ParseProc.status?, ParseReply.status?]
  | false =>
    have hgate : gate env.toParseEnv request entitlement clock =
        pure (VoiceSpend.gate request entitlement clock) := by
      unfold gate
      rw [hover]
      rfl
    rw [hgate]
    apply tells_pure
    rw [VoiceSpend.gate, if_neg (by simp [hover])]
    split <;> rfl

variable (env) in
/-- A failed transcription is counted. -/
theorem transcribed_tells (status : ParseStatusLiteral) (request : ParseRequest)
    (entitlement : EntitlementSignal) (clock : Instant) (traceId : Option String) (heard : Awaited Text) :
    (transcribed env.toParseEnv env.sttProviderName request entitlement clock traceId heard).Tells
      (countsParse env status) fun next ↦ decide (next.1.status? = some status) := by
  unfold transcribed
  apply Tells.bind rfl
  intro _
  cases heard with
  | returned transcript => exact tells_pure rfl
  | raised | timedOut =>
    refine tells_status status .failed _ _ ?_
    simp [VoiceSpend.transcribed, ParseProc.status?, ParseReply.status?]

end Metered

section

variable {s s' : ParseSystem} {action : ParseAction} {status : ParseStatusLiteral}

/-- The requests with a status, after a step of one that had none, which records that many samples. -/
theorem census_proceed {r : ℕ} {next : ParseProc × Option Provider} {c : ℕ}
    (hbefore : (s.requests r).status? = none) (hcount : c = if next.1.status? = some status then 1 else 0) :
    census (s.proceed r next).requests (fun proc ↦ proc.status? = some status) =
      census s.requests (fun proc ↦ proc.status? = some status) + (c : ℕ∞) := by
  have hnot : ¬ (s.requests r).status? = some status := by
    rw [hbefore]
    exact nofun
  rw [hcount, Nat.cast_ite, Nat.cast_one, Nat.cast_zero]
  exact census_update hnot

theorem countP_pushed (status : ParseStatusLiteral) (results : List SyncPushResult) (count : ℕ) :
    (Metered.pushed results count).countP (countsParse env status) = 0 := by
  rw [List.countP_eq_zero]
  intro sample hmem
  rcases List.mem_append.mp hmem with hmem | hmem
  · obtain ⟨_, _, rfl⟩ := List.mem_map.mp hmem
    simp [countsParse]
  · split at hmem
    · cases hmem
    · rw [List.mem_singleton.mp hmem]
      simp [countsParse]

theorem admission_status (settings : ParseSettings) (request : ParseRequest) (limited : Option HttpError) :
    (admission settings request limited).status? = none := by
  rcases admission_cases settings request limited with heq | ⟨error, heq⟩ <;> rw [heq] <;> rfl

/-- The status of a request after its LLM call is that of the response. -/
theorem extracted_status (env : ParseEnv) (categories : List Category) (rates : FxTable) (user : User)
    (request : ParseRequest) (text : Text) (transcript : Option Text) (referenceTime : DateTime)
    (entitlement : EntitlementSignal) (traceId : Option String) (outcome : Awaited ExtractionResult) :
    (extracted env categories rates user request text transcript referenceTime entitlement traceId
      outcome).status? = (runExtraction env.rt env.inc env.parseSettings categories rates user text
        referenceTime
        ⟨env.providerName, env.modelName, fun _ _ ↦ outcome⟩ traceId entitlement).map (·.status) := by
  unfold extracted
  cases runExtraction env.rt env.inc env.parseSettings categories rates user text referenceTime
    ⟨env.providerName, env.modelName, fun _ _ ↦ outcome⟩ traceId entitlement with
  | none => rfl
  | some response => cases transcript <;> rfl

theorem ParseSystem.parsed_step (hstep : ParseSystem.step env.toParseEnv s action = some s') :
    census s'.requests (fun proc ↦ proc.status? = some status) =
      census s.requests (fun proc ↦ proc.status? = some status) +
        ((s.samples env action).countP (countsParse env status) : ℕ∞) := by
  cases action with
  | sync action =>
    obtain ⟨sync, _, rfl⟩ := Option.map_eq_some_iff.mp hstep
    have hnone : (s.samples env (.sync action)).countP (countsParse env status) = 0 := by
      cases action with
      | advance t clock =>
        unfold ParseSystem.samples SyncSystem.samples
        dsimp only
        split
        · exact countP_pushed ..
        · rfl
      | start | abort | upsertRates | pull => rfl
    rw [hnone, Nat.cast_zero, add_zero]
  | entitle user row =>
    cases hstep
    exact (add_zero _).symm
  | receive r request limited =>
    simp only [ParseSystem.step] at hstep
    split at hstep
    · rename_i hidle
      cases hstep
      exact census_proceed (c := 0) (by rw [hidle]; rfl) (by rw [admission_status]; rfl)
    · cases hstep
  | resolve r clock =>
    simp only [ParseSystem.step] at hstep
    split at hstep
    · rename_i request hresolving
      cases hstep
      exact census_proceed (c := 0) (by rw [hresolving]; rfl) rfl
    · cases hstep
  | count r clock =>
    simp only [ParseSystem.step] at hstep
    split at hstep
    · rename_i request effective hcounting
      cases hstep
      apply census_proceed (by rw [hcounting]; rfl)
      have htells := Metered.gate_tells env status request (s.signal env.settings request effective clock)
        clock
      rw [Tells, Metered.result_gate] at htells
      simp only [ParseSystem.samples, hcounting]
      simpa using htells
    · cases hstep
  | hear r clock traceId heard =>
    simp only [ParseSystem.step] at hstep
    split at hstep
    · rename_i request entitlement hlistening
      cases hstep
      apply census_proceed (by rw [hlistening]; rfl)
      have htells := Metered.transcribed_tells env status request entitlement clock traceId heard
      rw [Tells, Metered.result_transcribed] at htells
      simp only [ParseSystem.samples, hlistening]
      simpa using htells
    · cases hstep
  | extract r traceId outcome =>
    simp only [ParseSystem.step] at hstep
    split at hstep
    · rename_i request text transcript referenceTime entitlement hextracting
      obtain ⟨user, huser, rfl⟩ := Option.map_eq_some_iff.mp hstep
      apply census_proceed (by rw [hextracting]; rfl)
      have htells := Metered.runExtraction_tells env status s.categories s.sync.fxRates user text
        referenceTime (fun _ _ ↦ outcome) traceId entitlement
      rw [Tells, Metered.result_runExtraction] at htells
      have hfound : (s.requests r).request?.bind (fun request ↦ s.sync.users.lookup request.user) =
          some user := by
        rw [hextracting]
        exact huser
      simp only [ParseSystem.samples, hfound]
      simp only [hextracting]
      rw [htells, extracted_status]
      generalize runExtraction env.rt env.inc env.parseSettings s.categories s.sync.fxRates user text
        referenceTime ⟨env.providerName, env.modelName, fun _ _ ↦ outcome⟩ traceId entitlement = response
      cases response <;> simp
    · cases hstep

end

/-! ## The rate limiter -/

/-- The last loop counts what it rejects. -/
theorem Metered.answer_tells (endpoint : String) (decisions : List Decision) :
    (Metered.answer endpoint decisions).Tells MetricSample.isRateLimited
      fun answer ↦ (LimiterProc.answered answer).rejected := by
  unfold Metered.answer
  split
  · exact tells_pure rfl
  · rfl

section

variable {s s' : LimiterSystem} {action : LimiterAction} {limits : RateLimitSettings}
    {devices : Table UUID Device}
  {rt : Runtime}

theorem LimiterSystem.limited_step (endpoint : String)
    (hstep : LimiterSystem.step rt limits devices s action = some s') :
    census s'.procs (fun proc ↦ proc.rejected = true) = census s.procs (fun proc ↦ proc.rejected = true) +
      ((s.samples endpoint action).countP MetricSample.isRateLimited : ℕ∞) := by
  have hupdate {request : RequestId} {next : LimiterProc} {count : ℕ}
      (hbefore : (s.procs request).rejected = false)
        (hcount : count = if next.rejected = true then 1 else 0) :
      census (Function.update s.procs request next) (fun proc ↦ proc.rejected = true) =
        census s.procs (fun proc ↦ proc.rejected = true) + (count : ℕ∞) := by
    rw [hcount, Nat.cast_ite, Nat.cast_one, Nat.cast_zero]
    exact census_update (by rw [hbefore]; exact Bool.false_ne_true)
  cases LimiterSystem.step_outcome hstep with
  | arrived request rawDeviceId idle => exact hupdate (by rw [idle]; rfl) rfl
  | elapsed ms => exact (add_zero _).symm
  | failed request run running =>
    refine hupdate (by rw [running]; rfl) ?_
    simp only [LimiterSystem.samples, running]
    cases limits.rateLimitFailOpen <;> rfl
  | counted request scope window todo decisions running redis count ttlMs told =>
    refine hupdate (by rw [running]; rfl) ?_
    cases todo with
    | nil =>
      simp only [LimiterSystem.samples, running, told]
      have htells := Metered.answer_tells endpoint (decisions ++ [⟨count, ttlMs, window.limit⟩])
      rw [Tells, Metered.result_answer] at htells
      exact htells
    | cons first rest =>
      simp only [LimiterSystem.samples, running]
      rfl

end

/-! ## Deliveries -/

namespace WebhookSystem

variable {rt : Runtime} {s s' : WebhookSystem} {action : WebhookAction} {t : ℕ} {run : HandlerRun}
  {response : WebhookResponse}

/-- What a step does that commits no run. -/
structure Uncommitted (s : WebhookSystem) (action : WebhookAction) (s' : WebhookSystem) : Prop where
  samples : s.samples action = []
  audit : s'.audit.committed = s.audit.committed
  runs : ∃ t state, s'.runs = Function.update s.runs t state ∧
    (∀ event response, s.runs t ≠ .answered event response) ∧
      ∀ event response, state ≠ .answered event response

theorem step_committed_or (hstep : step rt s action = some s') :
    (∃ t run response, action = .advance t ∧ s.runs t = .running run ∧ run.stage = .committing response ∧
      s' = s.commit t run response) ∨ s.Uncommitted action s' := by
  by_cases hcommit : ∃ t run response, action = .advance t ∧ s.runs t = .running run ∧
      run.stage = .committing response
  · obtain ⟨t, run, response, rfl, running, stage⟩ := hcommit
    simp only [step, running, statement, stage, Option.some.injEq] at hstep
    exact .inl ⟨t, run, response, rfl, running, stage, hstep.symm⟩
  · refine .inr ⟨?_, ?_, ?_⟩
    · cases action with
      | deliver | abort => rfl
      | advance t =>
        unfold WebhookSystem.samples
        dsimp only
        split
        · rename_i event now response running
          exact absurd ⟨t, _, response, rfl, running, rfl⟩ hcommit
        · rfl
    · cases step_outcome hstep with
      | committed running response stage => exact absurd ⟨_, _, response, rfl, running, stage⟩ hcommit
      | delivered | rolledBack | known | recorded | unmapped | mapped | decided | upserted => rfl
    · cases step_outcome hstep with
      | committed running response stage => exact absurd ⟨_, _, response, rfl, running, stage⟩ hcommit
      | delivered idle => exact ⟨_, _, rfl, by simp [idle], by simp⟩
      | rolledBack running | known running | recorded running | unmapped running | mapped running
      | decided running | upserted running => exact ⟨_, _, rfl, by simp [running], by simp⟩

/-- The responses that the handler gives behind the check of the credentials. -/
def Authorized (s : WebhookSystem) : Prop :=
  ∀ t run, s.runs t = .running run → run.stage ≠ .committing .invalidCredentials

theorem Outcome.authorized (h : Outcome rt s action s') :
    ∃ t state, s'.runs = Function.update s.runs t state ∧
    ∀ run, state = .running run → run.stage ≠ .committing .invalidCredentials := by
  cases h with
  | delivered | known | recorded | unmapped | mapped | upserted =>
    refine ⟨_, _, rfl, fun run heq ↦ ?_⟩
    cases heq
    exact nofun
  | rolledBack | committed =>
    refine ⟨_, _, rfl, fun run heq ↦ ?_⟩
    cases heq
  | decided running user stage next decides =>
    refine ⟨_, _, rfl, fun run heq ↦ ?_⟩
    cases heq
    rcases decision_cases decides with ⟨rfl, _⟩ | ⟨rfl, _⟩ | ⟨change, rfl, _⟩ <;> exact nofun

theorem Authorized.step (h : Authorized s) (hstep : step rt s action = some s') : Authorized s' := by
  obtain ⟨t, state, hruns, hstate⟩ := (step_outcome hstep).authorized
  intro u run hrun
  rw [hruns, Function.update_apply] at hrun
  split at hrun
  · exact hstate run hrun
  · exact h u run hrun

theorem samples_commit (running : s.runs t = .running run) (stage : run.stage = .committing response) :
    s.samples (.advance t) = (response.outcome.map (.webhookEvents run.event.type)).toList := by
  cases run
  cases stage
  simp only [WebhookSystem.samples, running]

theorem delivered_step (hstep : step rt s action = some s') (type : Text) (outcome : String) :
    census s'.runs (fun state ↦ state.told type outcome = true) =
      census s.runs (fun state ↦ state.told type outcome = true) +
        ((s.samples action).count (.webhookEvents type outcome) : ℕ∞) := by
  rcases step_committed_or hstep with ⟨t, run, response, rfl, running, stage, rfl⟩ | hsilent
  · have hbefore : ¬ (s.runs t).told type outcome = true := by
      rw [running]
      exact Bool.false_ne_true
    rw [samples_commit running stage]
    refine (census_update hbefore).trans (congrArg _ ?_)
    cases houtcome : response.outcome with
    | none => simp [HandlerState.told, houtcome]
    | some told => simp [HandlerState.told, houtcome, List.count_singleton]
  · obtain ⟨t, state, hruns, hbefore, hafter⟩ := hsilent.runs
    have hnot (state : HandlerState) (hstate : ∀ event response, state ≠ .answered event response) :
        ¬ state.told type outcome = true := by
      cases state with
      | answered event response => exact absurd rfl (hstate event response)
      | idle | running | failed => exact Bool.false_ne_true
    rw [hsilent.samples, hruns, census_update (hnot _ hbefore), if_neg (hnot _ hafter)]
    rfl

theorem countP_stores (hknown : response ≠ .alreadyProcessed) (hauthorized : response ≠ .invalidCredentials)
    (event : RevenueCatEvent) (type : Text) :
    (response.outcome.map (.webhookEvents event.type)).toList.countP (MetricSample.stores type) =
      if decide (event.type = type) = true then 1 else 0 := by
  have hsample (outcome : String) (hother : outcome ≠ "duplicate") :
      [MetricSample.webhookEvents event.type outcome].countP (MetricSample.stores type) =
        if decide (event.type = type) = true then 1 else 0 := by
    simp [List.countP_singleton, MetricSample.stores, hother]
  cases response with
  | invalidCredentials => exact absurd rfl hauthorized
  | alreadyProcessed => exact absurd rfl hknown
  | ignoredUnmappedUser | ignoredUnhandledEventType => exact hsample "unmatched" (by decide)
  | ignoredStaleEvent => exact hsample "stale" (by decide)
  | processed => exact hsample "applied" (by decide)

/-- A stored event is counted under an outcome other than `duplicate`. -/
theorem stored_step {start : Billing} (hexclusive : Exclusive rt start s) (hauthorized : Authorized s)
    (hstep : step rt s action = some s') (type : Text) :
    Table.countRows (fun _ row ↦ decide (row.eventType = type)) s'.audit.committed =
      Table.countRows (fun _ row ↦ decide (row.eventType = type)) s.audit.committed +
        (s.samples action).countP (MetricSample.stores type) := by
  rcases step_committed_or hstep with ⟨t, run, response, rfl, running, stage, rfl⟩ | hsilent
  · have hwhole := hexclusive.commitsWhole running stage
    rw [samples_commit running stage]
    by_cases hknown : response = .alreadyProcessed
    · subst hknown
      rw [Table.countRows_congr _ fun id ↦ (hwhole.audit id).trans (if_neg fun h ↦ h.2 rfl)]
      simp [WebhookResponse.outcome, MetricSample.stores]
    · have hinserted (id : Text) : (s.commit t run response).audit.committed.lookup id =
          if id = run.event.id then some run.auditRow else s.audit.committed.lookup id := by
        rw [hwhole.audit id]
        simp only [ne_eq, hknown, not_false_eq_true, and_true]
      rw [Table.countRows_of_insert _ (hwhole.fresh hknown) hinserted]
      congr 1
      refine (countP_stores hknown (fun heq ↦ ?_) run.event type).symm
      exact hauthorized t run running (stage.trans (congrArg _ heq))
  · rw [hsilent.samples, hsilent.audit]
    rfl

end WebhookSystem

/-! ## Pushes -/

theorem SyncSystem.pushed_step {rt : Runtime} {settings : Settings} {s s' : SyncSystem} {action : SyncAction}
    (htally : ∀ u, Tally s.expenses s.usage u (s.procs u))
    (hstep : SyncSystem.step rt settings s action = some s') :
    s'.expenses.committed.keys.length =
      s.expenses.committed.keys.length + (committedPush (s, action)).elim 0 (·.inserted.length) := by
  have houtcome := SyncSystem.step_outcome hstep
  cases hpush : committedPush (s, action) with
  | none =>
    refine Table.length_keys_of_inserted List.nodup_nil (fun id ↦ ?_)
      (fun _ hmem ↦ absurd hmem List.not_mem_nil)
    rw [← AList.lookup_isSome, ← AList.lookup_isSome, (houtcome.unrecorded htally hpush).stored id]
    simp
  | some push =>
    have hrecorded := houtcome.recorded htally hpush
    apply Table.length_keys_of_inserted hrecorded.nodup
    · intro id
      rw [← AList.lookup_isSome, ← AList.lookup_isSome, hrecorded.inserted id]
      refine ⟨fun hsome ↦ ?_, fun h ↦ h.elim And.right (hrecorded.kept id)⟩
      cases hbefore : s.expenses.committed.lookup id with
      | none => exact .inl ⟨rfl, hsome⟩
      | some row => exact .inr rfl
    · intro id hmem
      rw [← AList.lookup_eq_none]
      exact ((hrecorded.inserted id).mp hmem).1

/-! ## The parts of the server -/

/-- Which part of the server records a sample. -/
inductive ServerPart
  | http
  | parse
  | limiter
  | webhook

def MetricSample.part : MetricSample → ServerPart
  | .httpRequestDuration _ => .http
  | .parseRequests .. | .parseLatency .. | .parseLlmCostUsd .. | .parseTokens .. | .syncPushRecords _
  | .syncPushNew => .parse
  | .rateLimited _ | .rateLimiterRedisErrors => .limiter
  | .webhookEvents .. => .webhook

/-- The samples of a part. -/
def ServerPart.own (part : ServerPart) : Set MetricSample := {sample | sample.part = part}

theorem mem_own {sample : MetricSample} {part : ServerPart} (h : sample.part = part) : sample ∈ part.own := h

/-- Samples of one part are not of a kind of another. -/
theorem countP_of_part {samples : List MetricSample} {kind : MetricSample → Bool} {own other : ServerPart}
    (hsamples : ∀ sample ∈ samples, sample ∈ other.own) (hkind : ∀ sample, kind sample = true →
      sample ∈ own.own)
    (hne : own ≠ other) : samples.countP kind = 0 := by
  rw [List.countP_eq_zero]
  intro sample hmem htrue
  exact hne ((hkind sample htrue).symm.trans (hsamples sample hmem))

theorem HttpSystem.part_samples (s : HttpSystem) (action : HttpAction) :
    ∀ sample ∈ s.samples action, sample ∈ ServerPart.http.own := by
  intro sample hmem
  unfold HttpSystem.samples at hmem
  split at hmem
  · split at hmem
    · obtain ⟨_, _, rfl⟩ := Option.map_eq_some_iff.mp (Option.mem_toList.mp hmem)
      exact mem_own rfl
    · cases hmem
  · cases hmem

theorem LimiterSystem.part_samples (s : LimiterSystem) (endpoint : String) (action : LimiterAction) :
    ∀ sample ∈ s.samples endpoint action, sample ∈ ServerPart.limiter.own := by
  have hanswer (decisions : List Decision) :
      (Metered.answer endpoint decisions).Within ServerPart.limiter.own := by
    unfold Metered.answer
    split
    · exact within_pure _
    · exact (within_emit (mem_own rfl)).bind fun _ ↦ within_pure _
  intro sample hmem
  unfold LimiterSystem.samples at hmem
  split at hmem
  · split at hmem
    · exact hanswer _ sample hmem
    · cases hmem
  · split at hmem
    · cases List.mem_singleton.mp hmem
      exact mem_own rfl
    · cases hmem
  · cases hmem
  · cases hmem

theorem WebhookSystem.part_samples (s : WebhookSystem) (action : WebhookAction) :
    ∀ sample ∈ s.samples action, sample ∈ ServerPart.webhook.own := by
  intro sample hmem
  unfold WebhookSystem.samples at hmem
  split at hmem
  · split at hmem
    · obtain ⟨_, _, rfl⟩ := Option.map_eq_some_iff.mp (Option.mem_toList.mp hmem)
      exact mem_own rfl
    · cases hmem
  · cases hmem

namespace Metered

theorem part_pushed (results : List SyncPushResult) (newCount : ℕ) :
    ∀ sample ∈ pushed results newCount, sample ∈ ServerPart.parse.own := by
  refine List.forall_mem_append.mpr ⟨fun sample hmem ↦ ?_, fun sample hmem ↦ ?_⟩
  · obtain ⟨_, _, rfl⟩ := List.mem_map.mp hmem
    exact mem_own rfl
  · split at hmem
    · cases hmem
    · cases List.mem_singleton.mp hmem
      exact mem_own rfl

theorem part_runExtraction (categories : List Category) (rates : FxTable) (user : User) (text : Text)
    (referenceTime : DateTime) (extractor : LLMExtractor) (traceId : Option String)
    (entitlement : EntitlementSignal) :
    (runExtraction env.rt env.inc env.parseSettings categories rates user text referenceTime extractor traceId
      entitlement).Within ServerPart.parse.own := by
  unfold runExtraction
  refine (within_emit (mem_own rfl)).bind fun _ ↦ (within_ofOption _).bind fun costUsd ↦ ?_
  refine (recordParseTokens_within (mem_own rfl)).bind fun _ ↦
    (recordParseTokens_within (mem_own rfl)).bind fun _ ↦ ?_
  refine (recordParseCost_within (mem_own rfl)).bind fun _ ↦ (within_ofOption _).bind fun answer ↦ ?_
  exact (within_emit (mem_own rfl)).bind fun _ ↦ (within_emit (mem_own rfl)).bind fun _ ↦ within_pure _

end Metered

variable (env) in
theorem ParseSystem.part_samples (s : ParseSystem) (action : ParseAction) :
    ∀ sample ∈ s.samples env action, sample ∈ ServerPart.parse.own := by
  cases action with
  | sync action =>
    cases action with
    | advance t clock =>
      unfold ParseSystem.samples SyncSystem.samples
      dsimp only
      split
      · exact Metered.part_pushed _ _
      · exact List.forall_mem_nil _
    | start | abort | upsertRates | pull => exact List.forall_mem_nil _
  | count r clock =>
    unfold ParseSystem.samples
    dsimp only
    split
    · unfold Metered.gate
      split
      · exact (within_emit (mem_own rfl)).bind fun _ ↦ within_pure _
      · exact within_pure _
    · exact List.forall_mem_nil _
  | hear r clock traceId heard =>
    unfold ParseSystem.samples
    dsimp only
    split
    · unfold Metered.transcribed
      refine (within_emit (mem_own rfl)).bind fun _ ↦ ?_
      cases heard with
      | returned => exact (within_pure _).bind fun _ ↦ within_pure _
      | raised | timedOut => exact (within_emit (mem_own rfl)).bind fun _ ↦ within_pure _
    · exact List.forall_mem_nil _
  | extract r traceId outcome =>
    unfold ParseSystem.samples
    dsimp only
    split
    · exact Metered.part_runExtraction _ _ _ _ _ _ _ _
    · exact List.forall_mem_nil _
  | entitle | receive | resolve => exact List.forall_mem_nil _

theorem own_of_countsParse {status : ParseStatusLiteral} (sample : MetricSample)
    (h : countsParse env status sample = true) : sample ∈ ServerPart.parse.own := by
  rw [beq_iff_eq.mp h]
  exact mem_own rfl

theorem own_of_isRateLimited (sample : MetricSample) (h : sample.isRateLimited = true) :
    sample ∈ ServerPart.limiter.own := by
  cases sample <;> first | exact mem_own rfl | cases h

theorem own_of_webhookEvents {type : Text} {outcome : String} (sample : MetricSample)
    (h : (sample == .webhookEvents type outcome) = true) : sample ∈ ServerPart.webhook.own := by
  rw [beq_iff_eq.mp h]
  exact mem_own rfl

theorem own_of_stores {type : Text} (sample : MetricSample) (h : sample.stores type = true) :
    sample ∈ ServerPart.webhook.own := by
  cases sample <;> first | exact mem_own rfl | cases h

/-! ## Every run -/

section

variable {expenses : Table UUID Expense} {billing : Billing} {s s' : Server} {action : ServerAction}
  {trace : List (Server × ServerAction)} {samples : List MetricSample}

theorem CountersTrue.snoc (h : CountersTrue env expenses billing trace s)
    (hrecorded : s'.recorded = s.recorded ++ samples)
    (hparsed : ∀ status, census s'.parse.requests (fun proc ↦ proc.status? = some status) =
      census s.parse.requests (fun proc ↦ proc.status? = some status) +
        (samples.countP (countsParse env status) : ℕ∞))
    (hlimited : census s'.limiter.procs (fun proc ↦ proc.rejected = true) =
      census s.limiter.procs (fun proc ↦ proc.rejected = true) +
        (samples.countP MetricSample.isRateLimited : ℕ∞))
    (hdelivered : ∀ type outcome, census s'.webhooks.runs (fun state ↦ state.told type outcome = true) =
      census s.webhooks.runs (fun state ↦ state.told type outcome = true) +
        (samples.count (.webhookEvents type outcome) : ℕ∞))
    (hstored : ∀ type, Table.countRows (fun _ row ↦ row.eventType = type) s'.webhooks.audit.committed =
      Table.countRows (fun _ row ↦ row.eventType = type) s.webhooks.audit.committed +
        samples.countP (MetricSample.stores type))
    (hpushed : s'.parse.sync.expenses.committed.keys.length =
      s.parse.sync.expenses.committed.keys.length + newExpenses (s, action)) :
    CountersTrue env expenses billing (trace ++ [(s, action)]) s' := by
  constructor
  · intro status
    have hcount : s'.recorded.count (.parseRequests env.providerName env.modelName status.value) =
        s.recorded.count (.parseRequests env.providerName env.modelName status.value) +
          samples.countP (countsParse env status) := by
      rw [hrecorded, List.count_append]
      rfl
    rw [hparsed, hcount, Nat.cast_add, h.parsed]
  · rw [hlimited, hrecorded, List.countP_append, Nat.cast_add, h.limited]
  · intro type outcome
    rw [hdelivered, hrecorded, List.count_append, Nat.cast_add, h.delivered]
  · intro type
    rw [hstored, hrecorded, List.countP_append, h.stored, Nat.add_assoc]
  · rw [hpushed, h.pushed, List.map_append, List.map_singleton, List.sum_append, List.sum_singleton,
      Nat.add_assoc]

/-- What the counters rest on. -/
structure Server.Sound (rt : Runtime) (billing : Billing) (s : Server) : Prop where
  tally : ∀ u, Tally s.parse.sync.expenses s.parse.sync.usage u (s.parse.sync.procs u)
  exclusive : WebhookSystem.Exclusive rt billing s.webhooks
  authorized : WebhookSystem.Authorized s.webhooks

theorem Server.Sound.step {rt : Runtime} (h : s.Sound rt billing) (hrt : rt = env.rt.toRuntime)
    (hstep : Server.step env s action = some s') : s'.Sound rt billing := by
  subst hrt
  cases action with
  | http action =>
    obtain ⟨_, hstep⟩ := Option.ite_none_right_eq_some.mp hstep
    obtain ⟨http, _, rfl⟩ := Option.map_eq_some_iff.mp hstep
    exact ⟨h.tally, h.exclusive, h.authorized⟩
  | parse action =>
    obtain ⟨parse, hparse, rfl⟩ := Option.map_eq_some_iff.mp hstep
    refine ⟨?_, h.exclusive, h.authorized⟩
    cases ParseSystem.step_outcome hparse with
    | synced action sync step => exact (SyncSystem.step_outcome step).tally h.tally
    | entitled | received | resolved | counted | heard | extracted => exact h.tally
  | limiter route action =>
    obtain ⟨_, hstep⟩ := Option.ite_none_right_eq_some.mp hstep
    obtain ⟨limiter, _, rfl⟩ := Option.map_eq_some_iff.mp hstep
    exact ⟨h.tally, h.exclusive, h.authorized⟩
  | webhook action =>
    obtain ⟨webhooks, hwebhooks, rfl⟩ := Option.map_eq_some_iff.mp hstep
    exact ⟨h.tally, h.exclusive.keep hwebhooks, h.authorized.step hwebhooks⟩

theorem CountersTrue.step (h : CountersTrue env expenses billing trace s)
    (hsound : s.Sound env.rt.toRuntime billing) (hstep : Server.step env s action = some s') :
    CountersTrue env expenses billing (trace ++ [(s, action)]) s' := by
  -- the counters of the parts that do not move
  have hsame {kind : MetricSample → Bool} {own other : ServerPart} {samples : List MetricSample} (count : ℕ∞)
      (hsamples : ∀ sample ∈ samples, sample ∈ other.own) (hkind : ∀ sample, kind sample = true →
        sample ∈ own.own)
      (hne : own ≠ other) : count = count + (samples.countP kind : ℕ∞) := by
    rw [countP_of_part hsamples hkind hne, Nat.cast_zero, add_zero]
  have hsame' {kind : MetricSample → Bool} {own other : ServerPart} {samples : List MetricSample} (count : ℕ)
      (hsamples : ∀ sample ∈ samples, sample ∈ other.own) (hkind : ∀ sample, kind sample = true →
        sample ∈ own.own)
      (hne : own ≠ other) : count = count + samples.countP kind := by
    rw [countP_of_part hsamples hkind hne, add_zero]
  cases action with
  | http action =>
    obtain ⟨_, hstep⟩ := Option.ite_none_right_eq_some.mp hstep
    obtain ⟨http, _, rfl⟩ := Option.map_eq_some_iff.mp hstep
    have hown := s.http.part_samples action
    exact h.snoc rfl (fun status ↦ hsame _ hown own_of_countsParse nofun)
      (hsame _ hown own_of_isRateLimited nofun)
      (fun type outcome ↦ hsame _ hown own_of_webhookEvents nofun)
        (fun type ↦ hsame' _ hown own_of_stores nofun) rfl
  | parse action =>
    obtain ⟨parse, hparse, rfl⟩ := Option.map_eq_some_iff.mp hstep
    have hown := s.parse.part_samples env action
    refine h.snoc rfl (fun status ↦ ParseSystem.parsed_step hparse) (hsame _ hown own_of_isRateLimited nofun)
      (fun type outcome ↦ hsame _ hown own_of_webhookEvents nofun)
        (fun type ↦ hsame' _ hown own_of_stores nofun) ?_
    cases ParseSystem.step_outcome hparse with
    | synced action sync step => exact SyncSystem.pushed_step hsound.tally step
    | entitled | received | resolved | counted | heard | extracted => rfl
  | limiter route action =>
    obtain ⟨_, hstep⟩ := Option.ite_none_right_eq_some.mp hstep
    obtain ⟨limiter, hlimiter, rfl⟩ := Option.map_eq_some_iff.mp hstep
    have hown := s.limiter.part_samples (endpointLabel (env.rootPath ++ route.path)) action
    exact h.snoc rfl (fun status ↦ hsame _ hown own_of_countsParse nofun)
      (LimiterSystem.limited_step _ hlimiter)
      (fun type outcome ↦ hsame _ hown own_of_webhookEvents nofun)
        (fun type ↦ hsame' _ hown own_of_stores nofun) rfl
  | webhook action =>
    obtain ⟨webhooks, hwebhooks, rfl⟩ := Option.map_eq_some_iff.mp hstep
    have hown := s.webhooks.part_samples action
    exact h.snoc rfl (fun status ↦ hsame _ hown own_of_countsParse nofun)
      (hsame _ hown own_of_isRateLimited nofun)
      (WebhookSystem.delivered_step hwebhooks)
        (WebhookSystem.stored_step hsound.exclusive hsound.authorized hwebhooks)
      rfl

end

/-- In every run of the whole server: the parse requests answered with each status, the rate limited requests
and the deliveries answered with each outcome are as many as their counters say, and the events and expenses
that were stored are as many as the counters of new ones say. -/
theorem counters_true (env : MetricsEnv) (contexts : ℕ → Option ContextVars) (users : Table UUID User)
    (devices : Table UUID Device) (fxRates : FxTable) (expenses : Table UUID Expense) (usage : UsageTable)
    (syncSeq : ℕ) (reader : UUID) (entitlements : Table UUID Entitlement) (categories : List Category)
    (redis : Redis) (billing : Billing) (trace : List (Server × ServerAction)) (s : Server)
    (hrun : Run (Server.step env) (fun _ _ ↦ True) (.ofTables contexts
      (.ofTables users devices fxRates expenses usage syncSeq reader) entitlements categories redis
        billing) trace s) :
    CountersTrue env expenses billing trace s := by
  have hboth := hrun.trace_invariant (fun trace s ↦ CountersTrue env expenses billing trace s ∧
    s.Sound env.rt.toRuntime billing) ⟨?_, ?_⟩ fun trace s action s' h _ hstep ↦
      ⟨h.1.step h.2 hstep, h.2.step rfl hstep⟩
  · exact hboth.1
  · constructor
    · intro status
      exact (census_eq_zero fun r ↦ nofun).symm
    · exact (census_eq_zero fun r ↦ nofun).symm
    · intro type outcome
      exact (census_eq_zero fun r ↦ nofun).symm
    · exact fun _ ↦ rfl
    · rfl
  · refine ⟨fun _ ↦ .ended rfl rfl rfl rfl, WebhookSystem.exclusive_start .., fun t run hidle ↦ ?_⟩
    cases hidle

end

/-- A push of one expense, a delivery and its repetition, and a parse request whose output is malformed. -/
theorem counters_true_sample : ∃ trace s,
    CountersTrue .sample ∅ ⟨sampleUsers, ∅, ∅⟩ trace s ∧ s.parse.sync.expenses.committed.keys.length = 1 ∧
      s.recorded.count (.webhookEvents "RENEWAL" "applied") = 1 ∧
      s.recorded.count (.webhookEvents "RENEWAL" "duplicate") = 1 ∧
      s.recorded.count (.parseRequests "anthropic" "claude-3-5-haiku-20241022" "failed") = 1 := by
  let start : Server := .ofTables (fun _ ↦ none) .sample ∅ [] ⟨0, fun _ ↦ none⟩ ⟨sampleUsers, ∅, ∅⟩
  let deliver (t : ℕ) : List ServerAction :=
    .webhook (.deliver t (sampleEvent "e1" 1 none) 0) :: List.replicate (5 - 3 * t) (.webhook (.advance t))
  let actions : List ServerAction :=
    (SyncSystem.transaction 0 (.push ⟨1⟩ [sampleExpense 12 1] 0) 7).map (.parse ∘ .sync) ++
      deliver 0 ++ deliver 1 ++
      (parseRequest 0 ++ [ParseAction.extract 0 none
        (.returned ⟨none, some "malformed", none, none⟩)]).map .parse
  have hexec : (exec (Server.step .sample) start actions).map (fun s ↦
      (s.parse.sync.expenses.committed.keys.length, s.recorded.count (.webhookEvents "RENEWAL" "applied"),
        s.recorded.count (.webhookEvents "RENEWAL" "duplicate"),
        s.recorded.count (.parseRequests "anthropic" "claude-3-5-haiku-20241022" "failed"))) =
          some (1, 1, 1, 1) := by
    decide +kernel
  obtain ⟨s, hs, hfacts⟩ := Option.map_eq_some_iff.mp hexec
  simp only [Prod.mk.injEq] at hfacts
  obtain ⟨hrows, happlied, hduplicate, hfailed⟩ := hfacts
  exact ⟨_, s, counters_true .sample _ _ _ _ ∅ _ _ _ _ _ _ _ _ s (run_of_exec hs), hrows, happlied,
    hduplicate,
    hfailed⟩

end VoiceSpend
