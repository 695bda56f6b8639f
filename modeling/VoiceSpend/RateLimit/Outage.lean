import VoiceSpend.RateLimit.Bounds

/-!
# The rate limiter while Redis fails

A `RedisError` reaches a request before the script of its next hit has run, or after: then the counter is
incremented and the reply is lost. The request is answered at once, by the configured choice between an
admission and 503. Every such run is, for Redis and for all other requests, a run without errors in which the
failing requests stop in the middle, so every key keeps its TTL and the limits hold for the requests that were
told their counts.
-/

namespace VoiceSpend

open Machine

/-- What a request is answered on a `RedisError`. -/
def RateLimitSettings.onRedisError (settings : RateLimitSettings) : LimiterAnswer :=
  if settings.rateLimitFailOpen then .admitted else .raised .limiterUnavailable

/-- `replyLost` is a `RedisError` after the script of the next hit has run. -/
inductive OutageAction
  | regular (action : LimiterAction)
  | replyLost (request : RequestId)

/-- The request that a step fails. -/
def OutageAction.failing : OutageAction → Option RequestId
  | .regular (.redisError request) | .replyLost request => some request
  | .regular _ => none

/-- What the step does to Redis. -/
def OutageAction.calmed : OutageAction → Option LimiterAction
  | .regular (.redisError _) => none
  | .regular action => some action
  | .replyLost request => some (.advance request)

def LimiterSystem.outageStep (rt : Runtime) (settings : RateLimitSettings) (devices : Table UUID Device)
    (s : LimiterSystem) : OutageAction → Option LimiterSystem
  | .regular action => s.step rt settings devices action
  | .replyLost request =>
    match s.procs request with
    | .limiting ⟨scope, window :: _, _⟩ =>
      some ({ s with redis := (hit s.redis (rateLimitKey scope window.seconds) window.seconds).1 }.setProc
        request (.answered settings.onRedisError))
    | _ => none

/-- The requests that have failed. -/
def failedRequests (trace : List (LimiterSystem × OutageAction)) : List RequestId :=
  trace.filterMap (·.2.failing)

/-- The steps without the errors. -/
def calmedTrace (trace : List (LimiterSystem × OutageAction)) : List (LimiterSystem × LimiterAction) :=
  trace.filterMap fun entry ↦ entry.2.calmed.map (entry.1, ·)

/-- What the limiter promises about one window of one scope while Redis fails. -/
structure OutageKept (settings : RateLimitSettings) (trace : List (LimiterSystem × OutageAction))
    (s : LimiterSystem) (scope : String) (window : Window) : Prop where
  ttl : ∀ counter, s.redis.get (rateLimitKey scope window.seconds) = some counter →
    0 < s.redis.pttl (rateLimitKey scope window.seconds) ∧
      s.redis.pttl (rateLimitKey scope window.seconds) ≤ window.ms ∧
      ∃ born, CreatedAt (calmedTrace trace) (rateLimitKey scope window.seconds) born ∧
        counter.expiresAt = some (born + window.ms)
  life : ∀ born, CreatedAt (calmedTrace trace) (rateLimitKey scope window.seconds) born →
    (((admittedHits (calmedTrace trace) s (rateLimitKey scope window.seconds) born (born + window.ms)).filter
      (·.1 ∉ failedRequests trace)).length : ℤ) ≤ window.limit
  interval : ∀ start,
    (((admittedHits (calmedTrace trace) s (rateLimitKey scope window.seconds) start
      (start + window.ms)).filter
      (·.1 ∉ failedRequests trace)).length : ℤ) ≤ 2 * window.limit
  failed : ∀ request ∈ failedRequests trace, s.procs request = .answered settings.onRedisError
  unavailable : ∀ request, s.procs request = .answered (.raised .limiterUnavailable) →
    request ∈ failedRequests trace
  closed : settings.rateLimitFailOpen = false → ∀ start stop,
    (admittedHits (calmedTrace trace) s (rateLimitKey scope window.seconds) start stop).filter
      (·.1 ∉ failedRequests trace) =
        admittedHits (calmedTrace trace) s (rateLimitKey scope window.seconds) start stop

/-! ## The run without errors -/

/-- The system without the errors: the same Redis, and the same requests but the failed ones. -/
structure Calm (settings : RateLimitSettings) (failed : List RequestId) (s t : LimiterSystem) : Prop where
  redis : t.redis = s.redis
  procs : ∀ request, request ∉ failed → t.procs request = s.procs request
  failed : ∀ request ∈ failed, s.procs request = .answered settings.onRedisError

section

variable {rt : Runtime} {settings : RateLimitSettings} {devices : Table UUID Device}
  {s s' t t' : LimiterSystem} {action : LimiterAction} {failed : List RequestId} {request : RequestId}

theorem Calm.not_failed (h : Calm settings failed s t)
    (hproc : s.procs request ≠ .answered settings.onRedisError) : request ∉ failed :=
  fun hmem ↦ hproc (h.failed request hmem)

/-- The same change of one request that has not failed. -/
theorem Calm.setProc (h : Calm settings failed s t) {next : LimiterProc} (hrequest : request ∉ failed)
    (hredis : t'.redis = s'.redis) (hs : s'.procs = Function.update s.procs request next)
    (ht : t'.procs = Function.update t.procs request next) : Calm settings failed s' t' := by
  refine ⟨hredis, fun other hother ↦ ?_, fun other hother ↦ ?_⟩
  · rw [hs, ht, Function.update_apply, Function.update_apply, h.procs other hother]
  · have hne : other ≠ request := by
      rintro rfl
      exact hrequest hother
    rw [hs, Function.update_of_ne hne]
    exact h.failed other hother

/-- A request fails. -/
theorem Calm.fail (h : Calm settings failed s t) (hredis : t'.redis = s'.redis)
    (hs : s'.procs = Function.update s.procs request (.answered settings.onRedisError))
    (ht : ∀ other, other ≠ request → t'.procs other = t.procs other) :
    Calm settings (failed ++ [request]) s' t' := by
  refine ⟨hredis, fun other hother ↦ ?_, fun other hother ↦ ?_⟩
  · rw [List.mem_append, not_or, List.mem_singleton] at hother
    rw [hs, Function.update_of_ne hother.2, ht other hother.2]
    exact h.procs other hother.1
  · rw [hs, Function.update_apply]
    rw [List.mem_append, List.mem_singleton] at hother
    split
    · rfl
    · rename_i hne
      exact h.failed other (hother.resolve_right hne)

/-- A step without an error is a step of the other system. -/
theorem Calm.step (h : Calm settings failed s t) (houtcome : LimiterOutcome rt settings devices s action s')
    (herror : action.errorFree = true) : ∃ t', LimiterSystem.step rt settings devices t action = some t' ∧
      t.hitBy action = s.hitBy action ∧ Calm settings failed s' t' := by
  cases houtcome with
  | arrived request rawDeviceId idle =>
    have hrequest : request ∉ failed := h.not_failed (by rw [idle]; simp)
    have hproc := (h.procs request hrequest).trans idle
    have hstep : LimiterSystem.step rt settings devices t (.arrive request rawDeviceId) =
        some (t.setProc request
          (.limiting ⟨resolveScope rt devices request.user rawDeviceId, windows settings, []⟩)) := by
      simp only [LimiterSystem.step, hproc]
    exact ⟨_, hstep, rfl, h.setProc hrequest h.redis rfl rfl⟩
  | counted request scope window todo decisions running redis count ttlMs told =>
    have hrequest : request ∉ failed := h.not_failed (by rw [running]; simp)
    have hproc := (h.procs request hrequest).trans running
    rw [← h.redis] at told
    have hstep : LimiterSystem.step rt settings devices t (.advance request) =
        some ({ t with redis := redis }.setProc request
          (LimiterRun.next ⟨scope, window :: todo, decisions⟩ todo ⟨count, ttlMs, window.limit⟩)) := by
      simp only [LimiterSystem.step, hproc, told]
    refine ⟨_, hstep, ?_, h.setProc hrequest rfl rfl rfl⟩
    simp only [LimiterSystem.hitBy, hproc, running, h.redis]
  | failed => cases herror
  | elapsed ms => exact ⟨_, rfl, rfl, by rw [h.redis], h.procs, h.failed⟩

/-- The errors of a run taken away. -/
structure CalmRun (rt : Runtime) (settings : RateLimitSettings) (devices : Table UUID Device) (now : ℕ)
    (trace : List (LimiterSystem × OutageAction)) (s : LimiterSystem)
    (shown : List (LimiterSystem × LimiterAction)) (t : LimiterSystem) : Prop where
  run : Run (LimiterSystem.step rt settings devices) (fun _ action ↦ action.errorFree = true) (.initial now)
    shown t
  calm : Calm settings (failedRequests trace) s t
  hits : ∀ key, hitsOn shown key = hitsOn (calmedTrace trace) key
  created : ∀ key born, CreatedAt shown key born ↔ CreatedAt (calmedTrace trace) key born

variable {now : ℕ} {trace : List (LimiterSystem × OutageAction)} {outage : OutageAction}
  {shown : List (LimiterSystem × LimiterAction)}

theorem failedRequests_concat : failedRequests (trace ++ [(s, outage)]) =
    failedRequests trace ++ outage.failing.toList := by
  unfold failedRequests
  rw [List.filterMap_append, List.filterMap_cons, List.filterMap_nil]
  cases outage.failing <;> rfl

theorem calmedTrace_concat : calmedTrace (trace ++ [(s, outage)]) =
    calmedTrace trace ++ (outage.calmed.map (s, ·)).toList := by
  unfold calmedTrace
  rw [List.filterMap_append, List.filterMap_cons, List.filterMap_nil]
  cases outage.calmed <;> rfl

/-- One more step that both systems take. -/
theorem CalmRun.snoc (h : CalmRun rt settings devices now trace s shown t)
    (hcalmed : outage.calmed = some action)
    (herror : action.errorFree = true) (hstep : LimiterSystem.step rt settings devices t action = some t')
    (hhit : t.hitBy action = s.hitBy action)
    (hcalm : Calm settings (failedRequests trace ++ outage.failing.toList) s' t') :
    CalmRun rt settings devices now (trace ++ [(s, outage)]) s' (shown ++ [(t, action)]) t' := by
  have htrace : calmedTrace (trace ++ [(s, outage)]) = calmedTrace trace ++ [(s, action)] := by
    rw [calmedTrace_concat, hcalmed]
    rfl
  refine ⟨h.run.snoc herror hstep, ?_, fun key ↦ ?_, fun key born ↦ ?_⟩
  · rw [failedRequests_concat]
    exact hcalm
  · rw [htrace, hitsOn_concat, hitsOn_concat, h.hits, hhit]
  · rw [htrace, createdAt_concat, createdAt_concat, h.created, hhit, h.calm.redis]

theorem CalmRun.step (h : CalmRun rt settings devices now trace s shown t)
    (hstep : LimiterSystem.outageStep rt settings devices s outage = some s') :
    ∃ shown' t', CalmRun rt settings devices now (trace ++ [(s, outage)]) s' shown' t' := by
  cases outage with
  | replyLost request =>
    simp only [LimiterSystem.outageStep] at hstep
    split at hstep
    · rename_i scope window todo decisions running
      cases hstep
      have hrequest : request ∉ failedRequests trace := h.calm.not_failed (by rw [running]; exact nofun)
      have hproc := (h.calm.procs request hrequest).trans running
      let told := hit t.redis (rateLimitKey scope window.seconds) window.seconds
      have hstep : LimiterSystem.step rt settings devices t (.advance request) =
          some ({ t with redis := told.1 }.setProc request (LimiterRun.next ⟨scope, window :: todo, decisions⟩
            todo ⟨told.2.1, told.2.2, window.limit⟩)) := by
        simp only [LimiterSystem.step, hproc]
        rfl
      refine ⟨_, _, h.snoc rfl rfl hstep ?_ ?_⟩
      · simp only [LimiterSystem.hitBy, hproc, running, h.calm.redis]
      · refine h.calm.fail ?_ rfl fun other hne ↦ LimiterSystem.setProc_procs_of_ne _ _ hne
        change told.1 = _
        rw [← h.calm.redis]
        rfl
    · cases hstep
  | regular action =>
    have houtcome := LimiterSystem.step_outcome hstep
    by_cases herror : action.errorFree = true
    · obtain ⟨t', hstep', hhit, hcalm⟩ := h.calm.step houtcome herror
      have hregular : (OutageAction.regular action).calmed = some action ∧
          (OutageAction.regular action).failing = none := by
        cases action with
        | arrive | advance | elapse => exact ⟨rfl, rfl⟩
        | redisError => cases herror
      refine ⟨_, _, h.snoc hregular.1 herror hstep' hhit ?_⟩
      rw [hregular.2, Option.toList_none, List.append_nil]
      exact hcalm
    · cases houtcome with
      | arrived | counted | elapsed => exact absurd rfl herror
      | failed request run running =>
        -- the other system does not take this step
        have htrace : calmedTrace (trace ++ [(s, .regular (.redisError request))]) = calmedTrace trace := by
          rw [calmedTrace_concat]
          exact List.append_nil _
        refine ⟨shown, t, h.run, ?_, fun key ↦ ?_, fun key born ↦ ?_⟩
        · rw [failedRequests_concat]
          exact h.calm.fail h.calm.redis rfl fun _ _ ↦ rfl
        · rw [htrace, h.hits]
        · rw [htrace, h.created]

theorem calmRun_of_run (hrun : Run (LimiterSystem.outageStep rt settings devices) (fun _ _ ↦ True)
    (.initial now) trace s) : ∃ shown t, CalmRun rt settings devices now trace s shown t := by
  refine hrun.trace_invariant (fun trace s ↦ ∃ shown t, CalmRun rt settings devices now trace s shown t)
    ⟨[], .initial now, .nil, ⟨rfl, fun _ _ ↦ rfl, nofun⟩, fun _ ↦ rfl, fun _ _ ↦ Iff.rfl⟩ ?_
  rintro trace s outage s' ⟨shown, t, h⟩ - hstep
  exact h.step hstep

/-- Nothing but an error is answered 503. -/
theorem LimiterOutcome.not_unavailable (houtcome : LimiterOutcome rt settings devices s action s')
    (herror : action.errorFree = true)
    (h : ∀ request, s.procs request ≠ .answered (.raised .limiterUnavailable)) (request : RequestId) :
    s'.procs request ≠ .answered (.raised .limiterUnavailable) := by
  have hother {other : RequestId} {next : LimiterProc}
      (hnext : next ≠ .answered (.raised .limiterUnavailable)) :
      Function.update s.procs other next request ≠ .answered (.raised .limiterUnavailable) := by
    rw [Function.update_apply]
    split
    · exact hnext
    · exact h request
  cases houtcome with
  | arrived => exact hother nofun
  | failed => cases herror
  | elapsed => exact h request
  | counted other scope window todo decisions running redis count ttlMs told =>
    refine hother ?_
    cases todo with
    | cons => exact nofun
    | nil =>
      intro heq
      have hanswer := LimiterProc.answered.inj heq
      unfold answer at hanswer
      split at hanswer
      · cases hanswer
      · cases congrArg HttpException.statusCode (LimiterAnswer.raised.inj hanswer)

/-- The admitted requests that did not fail are admitted without the errors. -/
theorem CalmRun.admitted_le (h : CalmRun rt settings devices now trace s shown t) (key : String)
    (start stop : ℕ) :
    ((admittedHits (calmedTrace trace) s key start stop).filter (·.1 ∉ failedRequests trace)).length ≤
      (admittedHits shown t key start stop).length := by
  unfold admittedHits
  rw [h.hits, List.filter_filter]
  apply List.Sublist.length_le
  apply List.monotone_filter_right
  intro made hmade
  simp only [Bool.and_eq_true, decide_eq_true_eq] at hmade ⊢
  exact ⟨hmade.2.1, by rw [h.calm.procs made.1 hmade.1]; exact hmade.2.2⟩

/-- The limits of one window of one scope, in a run without errors. -/
theorem windowKept_of_run {shown : List (LimiterSystem × LimiterAction)}
    (hminute : 1 ≤ settings.parseRateLimit)
    (hdaily : 1 ≤ settings.parseRateLimitDaily)
    (hrun : Run (LimiterSystem.step rt settings devices) (fun _ action ↦ action.errorFree = true)
      (.initial now)
      shown t) {scope : String} {window : Window} (hwindow : window ∈ windows settings) :
    WindowKept shown t scope window := by
  have hinv := hrun.trace_invariant (LimiterInv rt settings devices) (limiterInv_initial now)
    fun trace s action s' h herror hstep ↦ h.step herror (LimiterSystem.step_outcome hstep)
  obtain ⟨hits, hcounted⟩ := hinv.counted scope window hwindow
  apply hcounted.windowKept (windows_seconds_bounds hwindow).1
  rw [windows, List.mem_pair] at hwindow
  rcases hwindow with rfl | rfl
  · exact hminute
  · exact hdaily

/-- While Redis fails, every key keeps its TTL, the requests that were told their counts are within the
limits, and each failed request has the configured answer; where that is 503, the limits bound all
admissions. -/
theorem limits_kept_in_outage (hminute : 1 ≤ settings.parseRateLimit)
    (hdaily : 1 ≤ settings.parseRateLimitDaily)
    (hrun : Run (LimiterSystem.outageStep rt settings devices) (fun _ _ ↦ True) (.initial now) trace s)
    (scope : String) (window : Window) (hwindow : window ∈ windows settings) :
    OutageKept settings trace s scope window := by
  obtain ⟨shown, t, h⟩ := calmRun_of_run hrun
  have hkept : WindowKept shown t scope window := windowKept_of_run hminute hdaily h.run hwindow
  constructor
  · intro counter hcounter
    rw [← h.calm.redis] at hcounter ⊢
    obtain ⟨hpos, hle, born, hborn, hexpires⟩ := hkept.ttl counter hcounter
    exact ⟨hpos, hle, born, (h.created _ born).mp hborn, hexpires⟩
  · intro born hborn
    exact le_trans (by exact_mod_cast h.admitted_le _ _ _) (hkept.life born ((h.created _ born).mpr hborn))
  · intro start
    exact le_trans (by exact_mod_cast h.admitted_le _ _ _) (hkept.interval start)
  · exact h.calm.failed
  · intro request hproc
    by_contra hrequest
    refine h.run.invariant (fun t ↦ ∀ request, t.procs request ≠ .answered (.raised .limiterUnavailable))
      (fun _ hidle ↦ by cases hidle) (fun _ _ _ hnone herror hstep ↦
        (LimiterSystem.step_outcome hstep).not_unavailable herror hnone) request ?_
    rw [h.calm.procs request hrequest]
    exact hproc
  · intro hclosed start stop
    rw [List.filter_eq_self]
    intro made hmade
    rw [decide_eq_true_eq]
    intro hfailed
    have hadmitted := (List.mem_filter.mp hmade).2
    rw [h.calm.failed made.1 hfailed, RateLimitSettings.onRedisError, hclosed] at hadmitted
    simp [LimiterProc.admitted] at hadmitted

/-- The second of three requests of a minute fails after its first hit and is let through; the third one is
over the limit. -/
theorem limits_kept_in_outage_sample : ∃ trace s, (s.procs ⟨⟨1⟩, 1⟩).answer? = some .admitted ∧
    (s.procs ⟨⟨1⟩, 2⟩).answer? = some (.raised (.rateLimited 60)) ∧ failedRequests trace = [⟨⟨1⟩, 1⟩] ∧
      OutageKept sampleLimits trace s ("user:" ++ UUID.str ⟨1⟩) ⟨60, 1⟩ := by
  let request (n : ℕ) (rest : List OutageAction) : List OutageAction :=
    .regular (.arrive ⟨⟨1⟩, n⟩ none) :: rest
  let hits (n : ℕ) : List OutageAction := [.regular (.advance ⟨⟨1⟩, n⟩), .regular (.advance ⟨⟨1⟩, n⟩)]
  let actions := request 0 (hits 0) ++ request 1 [.replyLost ⟨⟨1⟩, 1⟩] ++ request 2 (hits 2)
  have hexec : (exec (LimiterSystem.outageStep .ascii sampleLimits ∅) (.initial 0) actions).map (fun s ↦
      ((s.procs ⟨⟨1⟩, 1⟩).answer?, (s.procs ⟨⟨1⟩, 2⟩).answer?)) =
        some (some .admitted, some (.raised (.rateLimited 60))) := by
    decide +kernel
  obtain ⟨s, hs, hanswers⟩ := Option.map_eq_some_iff.mp hexec
  obtain ⟨hsecond, hthird⟩ := Prod.mk.inj hanswers
  have hfailed : failedRequests (traceOf (LimiterSystem.outageStep .ascii sampleLimits ∅)
    (.initial 0) actions) =
      [⟨⟨1⟩, 1⟩] := by
    decide +kernel
  exact ⟨_, s, hsecond, hthird, hfailed,
    limits_kept_in_outage le_rfl le_rfl (run_of_exec hs) _ _ List.mem_cons_self⟩

end

end VoiceSpend
