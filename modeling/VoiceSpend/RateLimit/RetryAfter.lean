import VoiceSpend.RateLimit.Bounds

/-!
# Is the Retry-After header honest?

The header is the remaining time of the first exceeded window, rounded up to seconds; admission needs room
in both windows. A retry finds on each key what the rejected request left there, if the key lasts that long
(`Redis.standing`), so a retry that waits as told is always admitted exactly when both keys leave room by
then (`RoomAfter`).
-/

namespace VoiceSpend

open FixedWindow Machine

/-! ## A retry of its own -/

/-- What the key counts at a later time, if nothing hits it before. -/
def Redis.standing (redis : Redis) (key : String) (time : ℕ) : ℕ :=
  ({ redis with now := time }.get key).elim 0 (·.count)

/-- From here on only time passes, requests of other scopes go on, and the retry arrives at `resume` or
later and makes its hits. -/
def quiet (rt : Runtime) (devices : Table UUID Device) (scope : String) (retry : RequestId) (resume : ℕ)
    (s : LimiterSystem) : LimiterAction → Bool
  | .arrive request rawDeviceId =>
    if request = retry then
      resume ≤ s.redis.now ∧ resolveScope rt devices request.user rawDeviceId = scope
    else resolveScope rt devices request.user rawDeviceId ≠ scope
  | .advance request =>
    request = retry ||
      match s.procs request with
      | .limiting run => run.scope ≠ scope
      | _ => true
  | .redisError _ => false
  | .elapse _ => true

section

variable {rt : Runtime} {settings : RateLimitSettings} {devices : Table UUID Device}
  {s s' start : LimiterSystem} {action : LimiterAction} {trace : List (LimiterSystem × LimiterAction)}
  {scope key : String} {window : Window} {request retry : RequestId} {resume time : ℕ} {redis : Redis}

theorem Redis.standing_antitone (redis : Redis) (key : String) {later : ℕ} (hle : time ≤ later) :
    redis.standing key later ≤ redis.standing key time := by
  unfold Redis.standing Redis.get
  cases redis.keys key with
  | none => exact le_rfl
  | some counter =>
    rw [Option.filter_some, Option.filter_some]
    dsimp only
    cases hexpires : counter.expiresAt with
    | none => exact le_rfl
    | some expiresAt =>
      rw [Option.all_some, Option.all_some]
      by_cases halive : later < expiresAt
      · rw [decide_eq_true halive, decide_eq_true (hle.trans_lt halive)]
      · rw [decide_eq_false halive]
        exact Nat.zero_le _

theorem Redis.standing_congr {other : Redis} (hkey : other.keys key = redis.keys key) :
    other.standing key time = redis.standing key time := by
  have hget : ({ other with now := time } : Redis).get key =
      ({ redis with now := time } : Redis).get key :=
    Redis.get_congr rfl hkey
  rw [standing, standing, hget]

/-- A hit is told one more than what the key stands at. -/
theorem hit_count (windowSeconds : ℕ) :
    (hit redis key windowSeconds).2.1 = redis.standing key redis.now + 1 := by
  unfold hit Redis.incr Redis.standing
  cases redis.get key <;> rfl

/-- What a retry was told in one window, at some time from `resume` on. -/
def ToldSince (start : LimiterSystem) (scope : String) (resume now : ℕ) (window : Window)
    (decision : Decision) : Prop :=
  decision.limit = window.limit ∧ ∃ time, resume ≤ time ∧ time ≤ now ∧
    decision.count = start.redis.standing (rateLimitKey scope window.seconds) time + 1

/-- The way of the retry since the rejection. -/
inductive Retrying (settings : RateLimitSettings) (start : LimiterSystem) (scope : String) (retry : RequestId)
    (resume : ℕ) (s : LimiterSystem) : Prop
  | waiting (idle : s.procs retry = .idle)
      (same : ∀ window ∈ windows settings, s.redis.keys (rateLimitKey scope window.seconds) =
        start.redis.keys (rateLimitKey scope window.seconds)) : Retrying settings start scope retry resume s
  | limiting (done todo : List Window) (decisions : List Decision)
      (running : s.procs retry = .limiting ⟨scope, todo, decisions⟩) (all : done ++ todo = windows settings)
      (since : resume ≤ s.redis.now)
      (same : ∀ window ∈ todo, s.redis.keys (rateLimitKey scope window.seconds) =
        start.redis.keys (rateLimitKey scope window.seconds))
      (told : List.Forall₂ (ToldSince start scope resume s.redis.now) done decisions) :
      Retrying settings start scope retry resume s
  | answered (decisions : List Decision) (ended : s.procs retry = .answered (answer decisions))
      (told : List.Forall₂ (ToldSince start scope resume s.redis.now) (windows settings) decisions) :
      Retrying settings start scope retry resume s

theorem ToldSince.mono {now later : ℕ} (hle : now ≤ later) (decision : Decision)
    (h : ToldSince start scope resume now window decision) :
    ToldSince start scope resume later window decision := by
  obtain ⟨hlimit, time, hsince, hnow, hcount⟩ := h
  exact ⟨hlimit, time, hsince, hnow.trans hle, hcount⟩

/-- A step that is not the retry's, and that hits no key of its scope. -/
theorem Retrying.of_same (h : Retrying settings start scope retry resume s)
    (hproc : s'.procs retry = s.procs retry) (hnow : s.redis.now ≤ s'.redis.now)
    (hkeys : ∀ window ∈ windows settings, s'.redis.keys (rateLimitKey scope window.seconds) =
      s.redis.keys (rateLimitKey scope window.seconds)) : Retrying settings start scope retry resume s' := by
  cases h with
  | waiting idle same =>
    exact .waiting (hproc.trans idle) fun window hwindow ↦
      (hkeys window hwindow).trans (same window hwindow)
  | limiting done todo decisions running all since same told =>
    refine .limiting done todo decisions (hproc.trans running) all (since.trans hnow)
      (fun window hwindow ↦ ?_)
      (told.imp fun window decision ↦ ToldSince.mono hnow decision)
    have hmem : window ∈ windows settings := all ▸ List.mem_append_right done hwindow
    exact (hkeys window hmem).trans (same window hwindow)
  | answered decisions ended told =>
    exact .answered decisions (hproc.trans ended)
      (told.imp fun window decision ↦ ToldSince.mono hnow decision)

theorem Retrying.step (h : Retrying settings start scope retry resume s) (hway : OnTheWay settings s)
    (houtcome : LimiterOutcome rt settings devices s action s')
    (hquiet : quiet rt devices scope retry resume s action = true) :
    Retrying settings start scope retry resume s' := by
  have hnow := houtcome.now_le
  cases houtcome with
  | failed => cases hquiet
  | elapsed ms => exact h.of_same rfl hnow fun _ _ ↦ rfl
  | arrived other rawDeviceId idle =>
    by_cases hretry : other = retry
    · subst hretry
      rw [quiet, if_pos rfl] at hquiet
      obtain ⟨hsince, hscope⟩ := of_decide_eq_true hquiet
      cases h with
      | waiting _ same =>
        refine .limiting [] (windows settings) [] ?_ rfl hsince same .nil
        rw [LimiterSystem.setProc_procs, hscope]
      | limiting done todo decisions running => cases idle.symm.trans running
      | answered decisions ended => cases idle.symm.trans ended
    · exact h.of_same (LimiterSystem.setProc_procs_of_ne _ _ (Ne.symm hretry)) hnow fun _ _ ↦ rfl
  | counted other scope' window rest decisions running redis count ttlMs told =>
    obtain ⟨_, hsuffix⟩ := hway other _ running
    have hwindow := hsuffix.subset (List.mem_cons_self (a := window) (l := rest))
    obtain ⟨counter, _, hset⟩ :=
      exists_hit_eq_set s.redis (rateLimitKey scope' window.seconds) window.seconds
    have hcount : count = s.redis.standing (rateLimitKey scope' window.seconds) s.redis.now + 1 := by
      rw [← hit_count window.seconds, told]
    cases told.symm.trans hset
    by_cases hretry : other = retry
    · subst hretry
      cases h with
      | waiting idle => cases idle.symm.trans running
      | answered decisions ended => cases ended.symm.trans running
      | limiting done todo decisions' running' all since same hdone =>
        cases running'.symm.trans running
        have hnew : List.Forall₂ (ToldSince start scope resume s.redis.now) (done ++ [window])
            (decisions ++ [⟨count, ttlMs, window.limit⟩]) := by
          refine List.rel_append hdone (.cons ⟨rfl, s.redis.now, since, le_rfl, ?_⟩ .nil)
          rw [hcount, Redis.standing_congr (same window List.mem_cons_self)]
        rw [← List.singleton_append, ← List.append_assoc] at all
        cases rest with
        | nil =>
          rw [List.append_nil] at all
          refine .answered (decisions ++ [⟨count, ttlMs, window.limit⟩])
            (LimiterSystem.setProc_procs _ _ _) ?_
          rw [← all]
          exact hnew
        | cons first rest =>
          refine .limiting (done ++ [window]) (first :: rest) _
            (LimiterSystem.setProc_procs _ _ _) all since
            (fun other hother ↦ ?_) hnew
          rw [← same other (List.mem_cons_of_mem _ hother)]
          refine Function.update_of_ne (fun heq ↦ ?_) ..
          obtain ⟨_, rfl⟩ := rateLimitKey_inj (hsuffix.subset (List.mem_cons_of_mem _ hother)) hwindow heq
          exact (List.nodup_cons.mp (hsuffix.sublist.nodup (windows_nodup settings))).1 hother
    · have hscope : scope' ≠ scope := by
        simp only [quiet, running, hretry, decide_false, Bool.false_or] at hquiet
        exact of_decide_eq_true hquiet
      refine h.of_same (LimiterSystem.setProc_procs_of_ne _ _ (Ne.symm hretry)) hnow fun window' hwindow' ↦ ?_
      refine Function.update_of_ne (fun heq ↦ hscope ?_) ..
      exact (rateLimitKey_inj hwindow' hwindow heq).1.symm

theorem exists_of_forall₂ {α β : Type*} {R : α → β → Prop} {l : List α} {l' : List β}
    (h : List.Forall₂ R l l') {a : α} (hmem : a ∈ l) : ∃ b ∈ l', R a b := by
  induction h with
  | nil => cases hmem
  | cons hfirst _ ih =>
    rcases List.mem_cons.mp hmem with rfl | hmem
    · exact ⟨_, List.mem_cons_self, hfirst⟩
    · obtain ⟨b, hb, hR⟩ := ih hmem
      exact ⟨b, List.mem_cons_of_mem _ hb, hR⟩

/-- A retry that makes its two hits at `resume`. -/
theorem exists_retry (hfresh : start.procs retry = .idle) (rawDeviceId : Option String)
    (hscope : resolveScope rt devices retry.user rawDeviceId = scope)
    (hresume : start.redis.now ≤ resume) :
    ∃ later s answer, Run (LimiterSystem.step rt settings devices)
        (fun s action ↦ quiet rt devices scope retry resume s action = true) start later s ∧
      s.redis.now = resume ∧ s.procs retry = .answered answer := by
  let waited : LimiterSystem := { start with redis := { start.redis with now := resume } }
  have helapse :
      LimiterSystem.step rt settings devices start (.elapse (resume - start.redis.now)) = some waited := by
    simp only [LimiterSystem.step, waited, Nat.add_sub_cancel' hresume]
  let arrived := waited.setProc retry (.limiting ⟨scope, windows settings, []⟩)
  have harrive :
      LimiterSystem.step rt settings devices waited (.arrive retry rawDeviceId) = some arrived := by
    simp only [LimiterSystem.step, waited, hfresh, hscope, arrived]
  have harrived : arrived.procs retry = .limiting ⟨scope, windows settings, []⟩ :=
    LimiterSystem.setProc_procs _ _ _
  obtain ⟨middle, first, hfirst, hnow, hmiddle⟩ :=
    LimiterSystem.step_advance rt settings devices harrived
  obtain ⟨last, second, hsecond, hnow', hlast⟩ := LimiterSystem.step_advance rt settings devices hmiddle
  have hquiet (s : LimiterSystem) : quiet rt devices scope retry resume s (.advance retry) = true := by
    simp [quiet]
  have hlate : quiet rt devices scope retry resume waited (.arrive retry rawDeviceId) = true := by
    rw [quiet, if_pos rfl]
    exact decide_eq_true ⟨le_rfl, hscope⟩
  have hrun : Run (LimiterSystem.step rt settings devices)
      (fun s action ↦ quiet rt devices scope retry resume s action = true) start _ last :=
    .snoc (.snoc (.snoc (.snoc .nil rfl helapse) hlate harrive) (hquiet arrived) hfirst)
      (hquiet middle) hsecond
  exact ⟨_, last, _, hrun, hnow'.trans hnow, hlast⟩

/-- A retry is always admitted exactly when every window leaves room for it at `resume`. -/
theorem retry_admitted_iff (hway : OnTheWay settings start) (hfresh : start.procs retry = .idle)
    (rawDeviceId : Option String) (hscope : resolveScope rt devices retry.user rawDeviceId = scope)
    (hresume : start.redis.now ≤ resume) :
    (∀ later s, Run (LimiterSystem.step rt settings devices)
        (fun s action ↦ quiet rt devices scope retry resume s action = true) start later s →
      ∀ answer, s.procs retry = .answered answer → answer = .admitted) ↔
    ∀ window ∈ windows settings,
      (start.redis.standing (rateLimitKey scope window.seconds) resume : ℤ) + 1 ≤ window.limit := by
  have hinvariant {later : List (LimiterSystem × LimiterAction)} {s : LimiterSystem}
      (hrun : Run (LimiterSystem.step rt settings devices)
        (fun s action ↦ quiet rt devices scope retry resume s action = true) start later s) :
      OnTheWay settings s ∧ Retrying settings start scope retry resume s :=
    hrun.invariant (fun s ↦ OnTheWay settings s ∧ Retrying settings start scope retry resume s)
      ⟨hway, .waiting hfresh fun _ _ ↦ rfl⟩ fun s action s' h hquiet hstep ↦
        ⟨h.1.step (LimiterSystem.step_outcome hstep),
          h.2.step h.1 (LimiterSystem.step_outcome hstep) hquiet⟩
  constructor
  · intro hadmitted window hwindow
    obtain ⟨later, s, answer, hrun, hnow, hanswer⟩ := exists_retry hfresh rawDeviceId hscope hresume
    cases hadmitted later s hrun answer hanswer
    cases (hinvariant hrun).2 with
    | waiting idle => cases idle.symm.trans hanswer
    | limiting done todo decisions running => cases running.symm.trans hanswer
    | answered decisions ended told =>
      have hall := answer_eq_admitted_iff.mp (LimiterProc.answered.inj (ended.symm.trans hanswer))
      obtain ⟨decision, hmem, hlimit, time, hsince, hbefore, hcount⟩ := exists_of_forall₂ told hwindow
      have hroom := hall decision hmem
      cases hsince.antisymm (hnow ▸ hbefore)
      rw [hlimit, hcount] at hroom
      exact_mod_cast hroom
  · intro hroom later s hrun answer hanswer
    cases (hinvariant hrun).2 with
    | waiting idle => cases idle.symm.trans hanswer
    | limiting done todo decisions running => cases running.symm.trans hanswer
    | answered decisions ended told =>
      cases ended.symm.trans hanswer
      rw [answer_eq_admitted_iff]
      intro decision hmem
      obtain ⟨window, hwindow, hlimit, time, hsince, _, hcount⟩ := exists_of_forall₂ told.flip hmem
      have hstands := start.redis.standing_antitone (rateLimitKey scope window.seconds) hsince
      have hless := hroom window hwindow
      omega

/-! ## What the header says -/

/-- The remaining time of the first window a request exceeds; `run` is about to hit the daily window. -/
def exceededTtl (s : LimiterSystem) (run : LimiterRun) : ℤ :=
  match run.decisions.find? fun decision ↦ decision.limit < decision.count with
  | some decision => decision.ttlMs
  | none => s.redis.pttl (rateLimitKey run.scope 86400)

/-- The minute leaves room for one more hit and the day for two, or their keys end within the remaining
time of the first exceeded window, rounded up to seconds. -/
def RoomAfter (settings : RateLimitSettings) (s : LimiterSystem) (run : LimiterRun) : Prop :=
  let resume := s.redis.now + 1000 * ((exceededTtl s run + 999) / 1000).toNat
  (∀ counter, s.redis.get (rateLimitKey run.scope 60) = some counter →
    counter.expiresAt.all (· ≤ resume) ∨ (counter.count : ℤ) + 1 ≤ settings.parseRateLimit) ∧
  (∀ counter, s.redis.get (rateLimitKey run.scope 86400) = some counter →
    counter.expiresAt.all (· ≤ resume) ∨ (counter.count : ℤ) + 2 ≤ settings.parseRateLimitDaily) ∧
  (s.redis.get (rateLimitKey run.scope 86400) = none → 2 ≤ settings.parseRateLimitDaily)

/-- The windows a request has hit, each with its limit and a TTL within its length. -/
def WindowsDecided (settings : RateLimitSettings) (s : LimiterSystem) : Prop :=
  ∀ request run, s.procs request = .limiting run → ∃ done, done ++ run.todo = windows settings ∧
    List.Forall₂ (fun window decision ↦ decision.limit = window.limit ∧ 0 < decision.ttlMs ∧
      decision.ttlMs ≤ window.ms) done run.decisions

theorem WindowsDecided.step (h : WindowsDecided settings s)
    (hcounted : ∀ scope, ∀ window ∈ windows settings, ∃ hits, KeyHistory trace s scope window hits)
    (houtcome : LimiterOutcome rt settings devices s action s') : WindowsDecided settings s' := by
  intro request run hrun
  rcases houtcome.limiting hrun with
    hbefore | ⟨_, rfl⟩ | ⟨window, before, redis, count, ttlMs, hbefore, htold, htodo, _, heq⟩
  · exact h request run hbefore
  · exact ⟨[], rfl, .nil⟩
  · obtain ⟨done, hall, hdone⟩ := h request before hbefore
    rw [htodo] at hall
    have hwindow : window ∈ windows settings := hall ▸ List.mem_append_right done List.mem_cons_self
    have hseconds := (windows_seconds_bounds hwindow).1
    obtain ⟨hits, hhistory⟩ := hcounted before.scope window hwindow
    obtain ⟨new, _, htime, hlonger, hnew, _⟩ := hhistory.exists_hit hseconds request
    cases htold.symm.trans hnew
    have halive := hlonger.alive (Window.ms_pos hseconds)
      (List.mem_append_right hits (List.mem_singleton_self new))
    refine ⟨done ++ [window], ?_, ?_⟩
    · rw [← hall, List.append_assoc]
      rfl
    · rw [heq]
      refine List.rel_append hdone (.cons ⟨rfl, ?_, ?_⟩ .nil)
      · dsimp only
        omega
      · dsimp only
        omega

/-- What a rejected request had been told, and what its last hit told it. -/
theorem rejected_spec {run : LimiterRun} {exception : HttpException}
    (hdecided : WindowsDecided settings s)
    (hstep : LimiterSystem.step rt settings devices s (.advance request) = some s')
    (hrunning : s.procs request = .limiting run)
    (hrejected : s'.procs request = .answered (.raised exception)) :
    ∃ told count ttlMs, run.decisions = [told] ∧ told.limit = settings.parseRateLimit ∧
      (0 < told.ttlMs ∧ told.ttlMs ≤ 60 * 1000) ∧
      hit s.redis (rateLimitKey run.scope 86400) 86400 = (s'.redis, count, ttlMs) ∧
      answer [told, ⟨count, ttlMs, settings.parseRateLimitDaily⟩] = .raised exception := by
  cases LimiterSystem.step_outcome hstep with
  | counted _ scope window todo decisions running redis count ttlMs told =>
    cases hrunning.symm.trans running
    rw [LimiterSystem.setProc_procs] at hrejected
    cases todo with
    | cons first rest => cases hrejected
    | nil =>
      obtain ⟨done, hall, hdone⟩ := hdecided request _ running
      have hsplit : done ++ [window] =
          [⟨60, settings.parseRateLimit⟩] ++ [⟨86400, settings.parseRateLimitDaily⟩] := hall
      obtain ⟨rfl, heq⟩ := List.append_inj' hsplit rfl
      cases heq
      obtain ⟨first, rest, hfirst, hrest, rfl⟩ := List.forall₂_cons_left_iff.mp hdone
      cases hrest
      exact ⟨first, count, ttlMs, rfl, hfirst.1, hfirst.2, told, LimiterProc.answered.inj hrejected⟩

theorem Redis.standing_of_keys {count expiresAt : ℕ}
    (hkey : redis.keys key = some ⟨count, some expiresAt⟩) (time : ℕ) :
    redis.standing key time = if time < expiresAt then count else 0 := by
  rw [standing, get]
  dsimp only
  rw [hkey, Option.filter_some, Option.all_some]
  by_cases halive : time < expiresAt
  · rw [decide_eq_true halive, if_pos rfl, if_pos halive]
    rfl
  · rw [decide_eq_false halive, if_neg halive]
    rfl

/-- A key leaves room at a later time if it has ended by then or counts low enough now. -/
theorem KeyHistory.standing_lt_iff {hits : List (Hit RequestId)} {limit : ℤ}
    (h : KeyHistory trace s scope window hits) (hlater : s.redis.now ≤ resume)
    (hlimit : 1 ≤ limit) :
    (s.redis.standing (rateLimitKey scope window.seconds) resume : ℤ) + 1 ≤ limit ↔
      ∀ counter, s.redis.get (rateLimitKey scope window.seconds) = some counter →
        counter.expiresAt.all (· ≤ resume) ∨ (counter.count : ℤ) + 1 ≤ limit := by
  rcases h.get with ⟨habsent, hended⟩ | ⟨last, hlast, halive, hpresent⟩
  · refine iff_of_true ?_ fun counter hcounter ↦ ?_
    · have hzero : s.redis.standing (rateLimitKey scope window.seconds) resume = 0 := by
        have hle := s.redis.standing_antitone (rateLimitKey scope window.seconds) hlater
        have hnone : s.redis.standing (rateLimitKey scope window.seconds) s.redis.now = 0 := by
          rw [Redis.standing, habsent]
          rfl
        omega
      rw [hzero]
      omega
    · rw [habsent] at hcounter
      cases hcounter
  · have hkey := (Option.filter_eq_some_iff.mp hpresent).1
    rw [Redis.standing_of_keys hkey, hpresent]
    simp only [Option.some.injEq, forall_eq', Option.all_some, decide_eq_true_eq]
    split
    · rename_i hbefore
      exact (or_iff_right (not_le.mpr hbefore)).symm
    · rename_i hafter
      exact iff_of_true (by omega) (.inl (not_lt.mp hafter))

/-- The rejected request has hit its day, and the header is over by the time the day ends, if this hit was
the first of the day. -/
theorem KeyHistory.standing_after_hit_iff {hits : List (Hit RequestId)} {limit ttlMs : ℤ} {count : ℕ}
    (h : KeyHistory trace s scope window hits) (hseconds : 0 < window.seconds) (hlimit : 1 ≤ limit)
    (htold : hit s.redis (rateLimitKey scope window.seconds) window.seconds = (redis, count, ttlMs))
    (hday : s.redis.get (rateLimitKey scope window.seconds) = none → resume < s.redis.now + window.ms) :
    (redis.standing (rateLimitKey scope window.seconds) resume : ℤ) + 1 ≤ limit ↔
      (∀ counter, s.redis.get (rateLimitKey scope window.seconds) = some counter →
        counter.expiresAt.all (· ≤ resume) ∨ (counter.count : ℤ) + 2 ≤ limit) ∧
      (s.redis.get (rateLimitKey scope window.seconds) = none → 2 ≤ limit) := by
  rcases h.get with ⟨habsent, _⟩ | ⟨last, hlast, halive, hpresent⟩
  · cases htold.symm.trans (hit_of_absent habsent hseconds)
    have halive : resume < s.redis.now + window.seconds * 1000 := hday habsent
    rw [Redis.standing_of_keys (Function.update_self ..), if_pos halive, habsent]
    simp
  · cases htold.symm.trans (h.hit_of_alive hseconds hlast hpresent)
    rw [Redis.standing_of_keys (Function.update_self ..), hpresent]
    simp only [Option.some.injEq, forall_eq', Option.all_some, decide_eq_true_eq, reduceCtorEq,
      false_implies, and_true]
    split
    · rename_i hbefore
      rw [or_iff_right (not_le.mpr hbefore)]
      push_cast
      omega
    · rename_i hafter
      exact iff_of_true (by omega) (.inl (not_lt.mp hafter))

/-- The seconds of the header are the remaining time of the first exceeded window, and at most a minute
if the day was hit for the first time. -/
theorem retryAfter_eq {run : LimiterRun} {told : Decision} {count : ℕ} {ttlMs retryAfter : ℤ}
    {hits : List (Hit RequestId)} (h : KeyHistory trace s run.scope window hits)
    (hwindow : window.seconds = 86400) (hdaily : 1 ≤ window.limit) (hrun : run.decisions = [told])
    (htold : 0 < told.ttlMs ∧ told.ttlMs ≤ 60 * 1000)
    (hhit : hit s.redis (rateLimitKey run.scope window.seconds) window.seconds = (redis, count, ttlMs))
    (hanswer : answer [told, ⟨count, ttlMs, window.limit⟩] = .raised (.rateLimited retryAfter)) :
    retryAfter = (exceededTtl s run + 999) / 1000 ∧ 1 ≤ retryAfter ∧
      (s.redis.get (rateLimitKey run.scope window.seconds) = none → retryAfter ≤ 60) := by
  by_cases hminute : told.limit < told.count
  · simp only [answer, List.find?_cons, decide_eq_true hminute, LimiterAnswer.raised.injEq,
      HttpException.rateLimited, HttpException.mk.injEq, true_and, Option.some.injEq] at hanswer
    simp only [exceededTtl, hrun, List.find?_cons, decide_eq_true hminute]
    omega
  · by_cases hday : window.limit < count
    · simp only [answer, List.find?_cons, decide_eq_false hminute, decide_eq_true hday,
        LimiterAnswer.raised.injEq,
        HttpException.rateLimited, HttpException.mk.injEq, true_and, Option.some.injEq] at hanswer
      simp only [exceededTtl, hrun, List.find?_cons, decide_eq_false hminute, List.find?_nil]
      rcases h.get with ⟨habsent, _⟩ | ⟨last, hlast, halive, hpresent⟩
      · cases hhit.symm.trans (hit_of_absent habsent (by omega))
        omega
      · cases hhit.symm.trans (h.hit_of_alive (by omega) hlast hpresent)
        rw [hwindow] at hpresent
        simp only [hwindow, Redis.pttl, hpresent, reduceCtorEq, false_implies, and_true]
        omega
    · simp only [answer, List.find?_cons, decide_eq_false hminute, decide_eq_false hday, List.find?_nil,
        reduceCtorEq] at hanswer

/-- A retry that waits as the header says is always admitted exactly when the other counters leave room. -/
theorem retryAfter_honest_iff {now : ℕ} {run : LimiterRun} {retryAfter : ℤ}
    {rawDeviceId : Option String} (hminute : 1 ≤ settings.parseRateLimit)
    (hdaily : 1 ≤ settings.parseRateLimitDaily)
    (hrun : Run (LimiterSystem.step rt settings devices) (fun _ action ↦ action.errorFree = true)
      (.initial now) trace s)
    (hrunning : s.procs request = .limiting run)
    (hstep : LimiterSystem.step rt settings devices s (.advance request) = some s')
    (hrejected : s'.procs request = .answered (.raised (.rateLimited retryAfter)))
    (hfresh : s'.procs retry = .idle)
    (hscope : resolveScope rt devices retry.user rawDeviceId = run.scope) :
    (∀ later t, Run (LimiterSystem.step rt settings devices)
        (fun t action ↦
          quiet rt devices run.scope retry (s'.redis.now + 1000 * retryAfter.toNat) t action = true)
        s' later t →
      ∀ answer, t.procs retry = .answered answer → answer = .admitted) ↔ RoomAfter settings s run := by
  obtain ⟨hinv, hdecided⟩ := hrun.trace_invariant
    (fun trace s ↦ LimiterInv rt settings devices trace s ∧ WindowsDecided settings s)
    ⟨limiterInv_initial now, fun _ _ hrun ↦ nomatch hrun⟩ fun trace s action s' h herror hstep ↦
      ⟨h.1.step herror (LimiterSystem.step_outcome hstep),
        h.2.step h.1.counted (LimiterSystem.step_outcome hstep)⟩
  obtain ⟨told, count, ttlMs, hdecisions, hlimit, httl, hhit, hanswer⟩ :=
    rejected_spec hdecided hstep hrunning hrejected
  let minute : Window := ⟨60, settings.parseRateLimit⟩
  let day : Window := ⟨86400, settings.parseRateLimitDaily⟩
  have hminuteMem : minute ∈ windows settings := List.mem_cons_self
  have hdayMem : day ∈ windows settings := List.mem_cons_of_mem _ List.mem_cons_self
  obtain ⟨_, hminutes⟩ := hinv.counted run.scope minute hminuteMem
  obtain ⟨_, hdays⟩ := hinv.counted run.scope day hdayMem
  obtain ⟨hseconds, hpos, hsixty⟩ := retryAfter_eq hdays rfl hdaily hdecisions httl hhit hanswer
  obtain ⟨counter, _, hset⟩ := exists_hit_eq_set s.redis (rateLimitKey run.scope 86400) 86400
  have hredis : s'.redis = s.redis.set (rateLimitKey run.scope 86400) counter :=
    congrArg Prod.fst (hhit.symm.trans hset)
  have hnow : s'.redis.now = s.redis.now := by
    rw [hredis]
    rfl
  have hother : s'.redis.keys (rateLimitKey run.scope 60) =
      s.redis.keys (rateLimitKey run.scope 60) := by
    rw [hredis]
    refine Function.update_of_ne (fun heq ↦ ?_) ..
    have hlengths : 60 = 86400 := congrArg Window.seconds (rateLimitKey_inj hminuteMem hdayMem heq).2
    omega
  rw [retry_admitted_iff (hinv.way.step (LimiterSystem.step_outcome hstep)) hfresh rawDeviceId hscope
    (Nat.le_add_right _ _), hnow]
  have hminuteRoom :=
    hminutes.standing_lt_iff (Nat.le_add_right s.redis.now (1000 * retryAfter.toNat)) hminute
  rw [← Redis.standing_congr hother] at hminuteRoom
  have hlong (habsent : s.redis.get (rateLimitKey run.scope day.seconds) = none) :
      s.redis.now + 1000 * retryAfter.toNat < s.redis.now + day.ms := by
    have hshort := hsixty habsent
    have hms : day.ms = 86400 * 1000 := rfl
    omega
  have hdayRoom := hdays.standing_after_hit_iff (Nat.zero_lt_succ 86399) hdaily hhit hlong
  unfold RoomAfter
  rw [← hseconds]
  simp only [windows, List.forall_mem_cons, List.not_mem_nil, false_implies, implies_true, and_true]
  exact and_congr hminuteRoom hdayRoom

end

/-- The request of a user after a first one, up to its last hit. -/
def secondRequest : List LimiterAction :=
  [.arrive ⟨⟨1⟩, 0⟩ none, .advance ⟨⟨1⟩, 0⟩, .advance ⟨⟨1⟩, 0⟩, .arrive ⟨⟨1⟩, 1⟩ none,
    .advance ⟨⟨1⟩, 1⟩]

/-- Where the second request is then, one request a minute being allowed. -/
def secondRun (daily : ℤ) : LimiterRun :=
  ⟨"user:00000000-0000-0000-0000-000000000001", [⟨86400, daily⟩], [⟨2, 60000, 1⟩]⟩

/-- The second request is told to wait for the minute; a retry then fails for the day. -/
theorem retryAfter_not_honest :
    ¬ ∀ (rt : Runtime) (settings : RateLimitSettings) (devices : Table UUID Device)
    (now : ℕ) (trace later : List (LimiterSystem × LimiterAction)) (s s' t : LimiterSystem)
    (request retry : RequestId) (rawDeviceId : Option String) (run : LimiterRun) (retryAfter : ℤ)
    (answer : LimiterAnswer),
    1 ≤ settings.parseRateLimit → 1 ≤ settings.parseRateLimitDaily →
      Run (LimiterSystem.step rt settings devices) (fun _ action ↦ action.errorFree = true)
          (.initial now) trace s →
        s.procs request = .limiting run →
          LimiterSystem.step rt settings devices s (.advance request) = some s' →
            s'.procs request = .answered (.raised (.rateLimited retryAfter)) → s'.procs retry = .idle →
              resolveScope rt devices retry.user rawDeviceId = run.scope →
                Run (LimiterSystem.step rt settings devices) (fun t action ↦ quiet rt devices run.scope retry
                  (s'.redis.now + 1000 * retryAfter.toNat) t action = true) s' later t →
                  t.procs retry = .answered answer → answer = .admitted := by
  intro hclaim
  let step := LimiterSystem.step .ascii sampleLimits ∅
  let quietStep (s : LimiterSystem) (action : LimiterAction) : Option LimiterSystem :=
    if quiet .ascii ∅ (secondRun 1).scope ⟨⟨1⟩, 2⟩ 60000 s action = true then step s action else none
  have hexec : ((exec step (.initial 0) secondRequest).bind fun s ↦ (step s (.advance ⟨⟨1⟩, 1⟩)).bind fun s' ↦
      (exec quietStep s' [.elapse 60000, .arrive ⟨⟨1⟩, 2⟩ none, .advance ⟨⟨1⟩, 2⟩, .advance ⟨⟨1⟩, 2⟩]).map
        fun t ↦ (s, s', t)).map (fun states ↦ (states.1.procs ⟨⟨1⟩, 1⟩, states.2.1.redis.now,
          states.2.1.procs ⟨⟨1⟩, 1⟩, states.2.1.procs ⟨⟨1⟩, 2⟩, states.2.2.procs ⟨⟨1⟩, 2⟩)) =
      some (.limiting (secondRun 1), 0, .answered (.raised (.rateLimited 60)), .idle,
        .answered (.raised (.rateLimited 86340))) := by
    decide +kernel
  obtain ⟨⟨s, s', t⟩, hstates, hfacts⟩ := Option.map_eq_some_iff.mp hexec
  obtain ⟨before, hbefore, hrest⟩ := Option.bind_eq_some_iff.mp hstates
  obtain ⟨after, hstep, hlater⟩ := Option.bind_eq_some_iff.mp hrest
  obtain ⟨last, hlast, heq⟩ := Option.map_eq_some_iff.mp hlater
  cases heq
  simp only [Prod.mk.injEq] at hfacts
  obtain ⟨hrunning, hnow, hrejected, hfresh, hretried⟩ := hfacts
  have herrors : ∀ action ∈ secondRequest, action.errorFree = true := by decide
  obtain ⟨later, hrun⟩ := exists_guarded_append .nil hlast
  have hresume : s'.redis.now + 1000 * (60 : ℤ).toNat = 60000 := by
    rw [hnow]
    rfl
  rw [← hresume] at hrun
  have hscope : resolveScope .ascii ∅ ⟨1⟩ none = (secondRun 1).scope := by decide +kernel
  have hadmitted := hclaim .ascii sampleLimits ∅ 0 _ later s s' t ⟨⟨1⟩, 1⟩ ⟨⟨1⟩, 2⟩ none
    (secondRun 1) 60 _ le_rfl le_rfl
    (run_of_exec_of_forall hbefore herrors) hrunning hstep hrejected hfresh hscope hrun hretried
  cases hadmitted

/-- With three requests a day, a retry after the minute is admitted. -/
theorem retryAfter_honest_sample : ∃ s : LimiterSystem,
    s.procs ⟨⟨1⟩, 1⟩ = .answered (.raised (.rateLimited 60)) ∧
      ∀ later t, Run (LimiterSystem.step .ascii ⟨1, 3, true⟩ ∅) (fun t action ↦
          quiet .ascii ∅ (secondRun 3).scope ⟨⟨1⟩, 2⟩ (s.redis.now + 1000 * (60 : ℤ).toNat) t action =
            true) s later t →
        ∀ answer, t.procs ⟨⟨1⟩, 2⟩ = .answered answer → answer = .admitted := by
  let step := LimiterSystem.step .ascii ⟨1, 3, true⟩ ∅
  have hexec : ((exec step (.initial 0) secondRequest).bind fun s ↦ (step s (.advance ⟨⟨1⟩, 1⟩)).map fun s' ↦
      (s, s')).map (fun states ↦ ((states.1.procs ⟨⟨1⟩, 1⟩, states.1.redis.now,
        states.1.redis.get (rateLimitKey (secondRun 3).scope 60),
        states.1.redis.get (rateLimitKey (secondRun 3).scope 86400)),
        states.2.procs ⟨⟨1⟩, 1⟩, states.2.procs ⟨⟨1⟩, 2⟩)) =
      some ((.limiting (secondRun 3), 0, some ⟨2, some 60000⟩, some ⟨1, some 86400000⟩),
        .answered (.raised (.rateLimited 60)), .idle) := by
    decide +kernel
  obtain ⟨⟨s, s'⟩, hstates, hfacts⟩ := Option.map_eq_some_iff.mp hexec
  obtain ⟨before, hbefore, hrest⟩ := Option.bind_eq_some_iff.mp hstates
  obtain ⟨after, hstep, heq⟩ := Option.map_eq_some_iff.mp hrest
  cases heq
  simp only [Prod.mk.injEq] at hfacts
  obtain ⟨⟨hrunning, hnow, hminute, hday⟩, hrejected, hfresh⟩ := hfacts
  have herrors : ∀ action ∈ secondRequest, action.errorFree = true := by decide
  have hscope : resolveScope .ascii ∅ ⟨1⟩ none = (secondRun 3).scope := by decide +kernel
  refine ⟨s', hrejected, (retryAfter_honest_iff le_rfl (by decide)
    (run_of_exec_of_forall hbefore herrors) hrunning hstep hrejected hfresh hscope).mpr ?_⟩
  have httl : exceededTtl s (secondRun 3) = 60000 := rfl
  rw [RoomAfter, httl, hnow, hminute, hday]
  simp

end VoiceSpend
