import VoiceSpend.RateLimit.Limiter

/-!
# One user's requests beside those of others

A scope is the user's own name or one of the user's own devices, whatever the header says, so two users
never share a key. The decisions about one user's requests are those of the run in which all requests of
other users are left out and time passes as before.
-/

namespace VoiceSpend

open Machine

/-! ## Scopes of a user -/

/-- The scopes a request of the user can resolve to. -/
inductive ScopeOf (devices : Table UUID Device) (user : UUID) : String → Prop
  | user : ScopeOf devices user ("user:" ++ user.str)
  | device (id : UUID) (device : Device) (stored : devices.lookup id = some device)
      (own : device.userId = user) : ScopeOf devices user ("device:" ++ id.str)

theorem resolveScope_scopeOf (rt : Runtime) (devices : Table UUID Device) (user : UUID)
    (rawDeviceId : Option String) :
    ScopeOf devices user (resolveScope rt devices user rawDeviceId) := by
  unfold resolveScope
  split
  · exact .user
  · rename_i deviceId _
    split
    · rename_i howned
      cases hstored : devices.lookup deviceId with
      | none =>
        rw [hstored] at howned
        cases howned
      | some device =>
        rw [hstored] at howned
        exact .device deviceId device hstored (of_decide_eq_true howned)
    · exact .user

/-- Two users share no scope. -/
theorem ScopeOf.user_eq {devices : Table UUID Device} {first second : UUID} {scope : String}
    (h : ScopeOf devices first scope) (h' : ScopeOf devices second scope) : first = second := by
  have hcancel {start first second : String} (h : start ++ first = start ++ second) :
      first = second := by
    have hlist := congrArg String.toList h
    rw [String.toList_append, String.toList_append] at hlist
    exact String.toList_inj.mp (List.append_cancel_left hlist)
  have hkinds {name id : String} (h : "user:" ++ name = "device:" ++ id) : False := by
    have hlist := congrArg String.toList h
    rw [String.toList_append, String.toList_append] at hlist
    cases hlist
  generalize hscope : scope = other at h'
  cases h with
  | user =>
    cases h' with
    | user => exact UUID.str_inj (hcancel hscope)
    | device => exact (hkinds hscope).elim
  | device id device stored own =>
    cases h' with
    | user => exact (hkinds hscope.symm).elim
    | device id' device' stored' own' =>
      cases UUID.str_inj (hcancel hscope)
      cases stored.symm.trans stored'
      exact own.symm.trans own'

/-! ## Without the others -/

def LimiterAction.actor : LimiterAction → Option RequestId
  | .arrive request _ | .advance request | .redisError request => some request
  | .elapse _ => none

/-- The action belongs to a request of the user, or is the passing of time. -/
def LimiterAction.concerns (user : UUID) (action : LimiterAction) : Bool :=
  action.actor.all (·.user = user)

/-- The answer a step gives to a request of the user, with its time. -/
def LimiterSystem.decisionBy (rt : Runtime) (settings : RateLimitSettings) (devices : Table UUID Device)
    (user : UUID) (s : LimiterSystem) (action : LimiterAction) :
    Option (ℕ × RequestId × LimiterAnswer) :=
  (action.actor.filter (·.user = user)).bind fun request ↦
    (LimiterSystem.step rt settings devices s action).bind fun s' ↦
      (s'.procs request).answer?.map fun answer ↦ (s.redis.now, request, answer)

/-- The decisions about the user's requests in a run. -/
def decisionsFor (rt : Runtime) (settings : RateLimitSettings) (devices : Table UUID Device)
    (user : UUID) (trace : List (LimiterSystem × LimiterAction)) :
    List (ℕ × RequestId × LimiterAnswer) :=
  trace.filterMap fun entry ↦ entry.1.decisionBy rt settings devices user entry.2

section

variable {rt : Runtime} {settings : RateLimitSettings} {devices : Table UUID Device} {user : UUID}
  {s s' t : LimiterSystem} {action : LimiterAction} {trace : List (LimiterSystem × LimiterAction)}

/-- Every request limits a scope of its own user. -/
def Scoped (devices : Table UUID Device) (s : LimiterSystem) : Prop :=
  ∀ request run, s.procs request = .limiting run → ScopeOf devices request.user run.scope

theorem Scoped.step (h : Scoped devices s) (houtcome : LimiterOutcome rt settings devices s action s') :
    Scoped devices s' := by
  intro request run hrun
  rcases houtcome.limiting hrun with
    hbefore | ⟨rawDeviceId, rfl⟩ | ⟨_, before, _, _, _, hbefore, _, _, _, hrun⟩
  · exact h request run hbefore
  · exact resolveScope_scopeOf rt devices request.user rawDeviceId
  · rw [hrun]
    exact h request before hbefore

/-- The system without the others has the same clock, the same counters of the user's scopes and the
user's requests in the same state. -/
structure AgreesOn (settings : RateLimitSettings) (devices : Table UUID Device) (user : UUID)
    (s t : LimiterSystem) : Prop where
  now : t.redis.now = s.redis.now
  keys : ∀ scope, ScopeOf devices user scope → ∀ window ∈ windows settings,
    t.redis.keys (rateLimitKey scope window.seconds) = s.redis.keys (rateLimitKey scope window.seconds)
  procs : ∀ request, request.user = user → t.procs request = s.procs request
  way : OnTheWay settings s
  own : Scoped devices s

/-- A step of another user's request. -/
theorem AgreesOn.dropped (h : AgreesOn settings devices user s t)
    (houtcome : LimiterOutcome rt settings devices s action s')
    (hother : action.concerns user = false) : AgreesOn settings devices user s' t := by
  have hwhole := houtcome
  have hprocs {request : RequestId} (hne : request.user ≠ user) (next : LimiterProc) (own : RequestId)
      (hown : own.user = user) : t.procs own = Function.update s.procs request next own := by
    rw [h.procs own hown, Function.update_of_ne]
    rintro rfl
    exact hne hown
  cases houtcome with
  | arrived request rawDeviceId idle =>
    exact ⟨h.now, h.keys, hprocs (of_decide_eq_false hother) _, h.way.step hwhole, h.own.step hwhole⟩
  | failed request run running =>
    exact ⟨h.now, h.keys, hprocs (of_decide_eq_false hother) _, h.way.step hwhole, h.own.step hwhole⟩
  | elapsed ms => cases hother
  | counted request scope window todo decisions running redis count ttlMs told =>
    have hne : request.user ≠ user := of_decide_eq_false hother
    have hwindow := (h.way request _ running).2.subset List.mem_cons_self
    have hscope := h.own request _ running
    obtain ⟨counter, _, htold⟩ :=
      exists_hit_eq_set s.redis (rateLimitKey scope window.seconds) window.seconds
    cases told.symm.trans htold
    refine ⟨h.now, fun own hown window' hwindow' ↦ ?_, hprocs hne _, h.way.step hwhole, h.own.step hwhole⟩
    rw [h.keys own hown window' hwindow']
    refine (Function.update_of_ne (fun heq ↦ hne ?_) ..).symm
    obtain ⟨rfl, _⟩ := rateLimitKey_inj hwindow' hwindow heq
    exact hscope.user_eq hown

theorem LimiterSystem.decisionBy_dropped (hother : action.concerns user = false) :
    s.decisionBy rt settings devices user action = none := by
  have hnone : action.actor.filter (·.user = user) = none := by
    unfold LimiterAction.concerns at hother
    cases hactor : action.actor with
    | none => rfl
    | some request =>
      rw [hactor, Option.all_some] at hother
      rw [Option.filter_some, hother]
      rfl
  rw [decisionBy, hnone, Option.bind_none]

/-- A step of one of the user's own requests, or of time. -/
theorem AgreesOn.kept (h : AgreesOn settings devices user s t)
    (houtcome : LimiterOutcome rt settings devices s action s') (hown : action.concerns user = true)
    (herror : action.errorFree = true) :
    ∃ t', LimiterSystem.step rt settings devices t action = some t' ∧
    AgreesOn settings devices user s' t' := by
  have hwhole := houtcome
  have hprocs (request : RequestId) (next : LimiterProc) (own : RequestId) (hown : own.user = user) :
      Function.update t.procs request next own = Function.update s.procs request next own := by
    by_cases heq : own = request
    · rw [heq, Function.update_self, Function.update_self]
    · rw [Function.update_of_ne heq, Function.update_of_ne heq, h.procs own hown]
  cases houtcome with
  | failed => cases herror
  | elapsed ms =>
    refine ⟨_, rfl, ?_, h.keys, h.procs, h.way.step hwhole, h.own.step hwhole⟩
    dsimp only
    rw [h.now]
  | arrived request rawDeviceId idle =>
    have huser : request.user = user := of_decide_eq_true hown
    refine ⟨t.setProc request _, ?_, h.now, h.keys, hprocs request _, h.way.step hwhole,
      h.own.step hwhole⟩
    simp only [LimiterSystem.step, h.procs request huser, idle]
  | counted request scope window todo decisions running redis count ttlMs told =>
    have huser : request.user = user := of_decide_eq_true hown
    have hwindow := (h.way request _ running).2.subset List.mem_cons_self
    have hscope := huser ▸ h.own request _ running
    obtain ⟨counter, _, htold, htold'⟩ :=
      hit_local window.seconds h.now (h.keys scope hscope window hwindow)
    cases told.symm.trans htold
    refine ⟨({ t with redis := t.redis.set (rateLimitKey scope window.seconds) counter } :
      LimiterSystem).setProc request _, ?_, h.now, fun own hown window' hwindow' ↦ ?_,
      hprocs request _, h.way.step hwhole, h.own.step hwhole⟩
    · simp only [LimiterSystem.step, h.procs request huser, running]
      rw [htold']
    · rw [LimiterSystem.setProc, LimiterSystem.setProc, Redis.set_keys, Redis.set_keys,
        h.keys own hown window' hwindow']

/-- The same decision, at the same time. -/
theorem AgreesOn.decisionBy_eq (h : AgreesOn settings devices user s t)
    (hstep : LimiterSystem.step rt settings devices s action = some s')
    (hown : action.concerns user = true) (herror : action.errorFree = true) :
    t.decisionBy rt settings devices user action = s.decisionBy rt settings devices user action := by
  obtain ⟨t', hstep', hafter⟩ := h.kept (LimiterSystem.step_outcome hstep) hown herror
  rw [LimiterSystem.decisionBy, LimiterSystem.decisionBy, hstep, hstep', h.now]
  apply Option.bind_congr
  intro request hrequest
  have huser := of_decide_eq_true (Option.filter_eq_some_iff.mp hrequest).2
  rw [Option.bind_some, Option.bind_some, hafter.procs request huser]

/-- In the run without the requests of other users, the user's requests get the same decisions at the
same times. -/
theorem decisions_unaffected {redis : Redis} (user : UUID)
    (hrun : Run (LimiterSystem.step rt settings devices) (fun _ action ↦ action.errorFree = true)
      (.ofRedis redis) trace s) : ∃ alone t,
        Run (LimiterSystem.step rt settings devices) (fun _ action ↦ action.errorFree = true)
          (.ofRedis redis) alone t ∧
        alone.map Prod.snd = (trace.map Prod.snd).filter (·.concerns user) ∧
        decisionsFor rt settings devices user alone = decisionsFor rt settings devices user trace ∧
        ∀ request, request.user = user → t.procs request = s.procs request := by
  have hstart : AgreesOn settings devices user (.ofRedis redis) (.ofRedis redis) :=
    ⟨rfl, fun _ _ _ _ ↦ rfl, fun _ _ ↦ rfl, (fun _ _ hrun ↦ nomatch hrun), (fun _ _ hrun ↦ nomatch hrun)⟩
  have hkept (s t : LimiterSystem) (action : LimiterAction) (s' : LimiterSystem)
      (h : AgreesOn settings devices user s t) (herror : action.errorFree = true)
      (hstep : LimiterSystem.step rt settings devices s action = some s')
      (hown : action.concerns user = true) :
      action.errorFree = true ∧
        t.decisionBy rt settings devices user action = s.decisionBy rt settings devices user action ∧
          ∃ t', LimiterSystem.step rt settings devices t action = some t' ∧
            AgreesOn settings devices user s' t' :=
    ⟨herror, h.decisionBy_eq hstep hown herror, h.kept (LimiterSystem.step_outcome hstep) hown herror⟩
  obtain ⟨alone, t, halone, hagrees, hactions, hdecisions⟩ :=
    Run.simulate (AgreesOn settings devices user)
    (·.concerns user) (LimiterSystem.decisionBy rt settings devices user)
    (LimiterSystem.decisionBy rt settings devices user) hstart hkept
    (fun s t action s' h _ hstep hother ↦ ⟨LimiterSystem.decisionBy_dropped hother,
      h.dropped (LimiterSystem.step_outcome hstep) hother⟩) hrun
  exact ⟨alone, t, halone, hactions, hdecisions, hagrees.procs⟩

end

/-- User `1` with the device `2`; user `4` names that device and comes in between. -/
def crowdedRequests : List LimiterAction :=
  let header := some "00000000-0000-0000-0000-000000000002"
  [.arrive ⟨⟨1⟩, 0⟩ header, .advance ⟨⟨1⟩, 0⟩, .arrive ⟨⟨4⟩, 0⟩ header, .advance ⟨⟨4⟩, 0⟩,
    .advance ⟨⟨4⟩, 0⟩,
    .advance ⟨⟨1⟩, 0⟩, .elapse 1500, .arrive ⟨⟨1⟩, 1⟩ header, .advance ⟨⟨1⟩, 1⟩, .advance ⟨⟨1⟩, 1⟩]

theorem decisions_unaffected_sample : ∃ alone trace,
    alone.map Prod.snd = crowdedRequests.filter (·.concerns ⟨1⟩) ∧
      decisionsFor .ascii ⟨1, 2, true⟩ (AList.singleton ⟨2⟩ ⟨⟨1⟩⟩) ⟨1⟩ alone =
        decisionsFor .ascii ⟨1, 2, true⟩ (AList.singleton ⟨2⟩ ⟨⟨1⟩⟩) ⟨1⟩ trace ∧
      decisionsFor .ascii ⟨1, 2, true⟩ (AList.singleton ⟨2⟩ ⟨⟨1⟩⟩) ⟨1⟩ trace =
        [(0, ⟨⟨1⟩, 0⟩, .admitted), (1500, ⟨⟨1⟩, 1⟩, .raised (.rateLimited 59))] := by
  have hexec : (exec (LimiterSystem.step .ascii ⟨1, 2, true⟩ (AList.singleton ⟨2⟩ ⟨⟨1⟩⟩)) (.initial 0)
      crowdedRequests).isSome := by
    decide +kernel
  obtain ⟨s, hs⟩ := Option.isSome_iff_exists.mp hexec
  have hrun := run_of_exec_of_forall hs (by decide : ∀ action ∈ crowdedRequests, action.errorFree = true)
  obtain ⟨alone, _, _, halone, hsame, _⟩ := decisions_unaffected ⟨1⟩ hrun
  rw [map_traceOf hs] at halone
  refine ⟨alone, _, halone, hsame, ?_⟩
  decide +kernel

end VoiceSpend
