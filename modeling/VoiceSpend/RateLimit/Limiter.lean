import VoiceSpend.Library.Machine
import VoiceSpend.Sync.Schema

/-!
# The rate limiter of the parse endpoints

Requests of any users, each of which hits the counter of its minute and then the counter of its day.
The Lua script is atomic, so the hits of concurrent requests interleave and time passes between them.
Redis removes a key exactly when its TTL ends; clocks are in milliseconds.
-/

namespace VoiceSpend

/-! ## Redis -/

/-- A counter and the time at which its key is removed, if it has a TTL. -/
structure RedisCounter where
  count : ℕ
  expiresAt : Option ℕ
  deriving DecidableEq, Repr

structure Redis where
  now : ℕ
  keys : String → Option RedisCounter

namespace Redis

/-- A key is gone from the moment its TTL ends. -/
def get (redis : Redis) (key : String) : Option RedisCounter :=
  (redis.keys key).filter fun counter ↦ counter.expiresAt.all (redis.now < ·)

def set (redis : Redis) (key : String) (counter : RedisCounter) : Redis :=
  { redis with keys := Function.update redis.keys key (some counter) }

/-- `INCR`. -/
def incr (redis : Redis) (key : String) : Redis × ℕ :=
  match redis.get key with
  | none => (redis.set key ⟨1, none⟩, 1)
  | some counter => (redis.set key { counter with count := counter.count + 1 }, counter.count + 1)

/-- `PEXPIRE`. -/
def pexpire (redis : Redis) (key : String) (ms : ℕ) : Redis :=
  match redis.get key with
  | none => redis
  | some counter => redis.set key { counter with expiresAt := some (redis.now + ms) }

/-- `PTTL`: -2 without a key, -1 without a TTL. -/
def pttl (redis : Redis) (key : String) : ℤ :=
  match redis.get key with
  | none => -2
  | some ⟨_, none⟩ => -1
  | some ⟨_, some expiresAt⟩ => expiresAt - redis.now

end Redis

/-- `hit`: the count after the increment and the remaining TTL. -/
def hit (redis : Redis) (key : String) (windowSeconds : ℕ) : Redis × ℕ × ℤ :=
  let (redis, current) := redis.incr key
  let redis := if current = 1 then redis.pexpire key (windowSeconds * 1000) else redis
  (redis, current, redis.pttl key)

/-! ## Scopes and keys -/

/-- The digits of a UUID, lower case, the last one first. -/
def UUID.hex (id : UUID) : List Char :=
  (List.range 32).map fun i ↦ Nat.digitChar (id.int.toNat / 16 ^ i % 16)

/-- `str(uuid)`. -/
def UUID.str (id : UUID) : String :=
  let digits := id.hex.reverse
  String.ofList (digits.take 8 ++ '-' :: (digits.drop 8).take 4 ++ '-' :: (digits.drop 12).take 4 ++
    '-' :: (digits.drop 16).take 4 ++ '-' :: digits.drop 20)

/-- `_resolve_scope`; a missing header is `none`, and an empty one counts as missing. -/
def resolveScope (rt : Runtime) (devices : Table UUID Device) (user : UUID)
    (rawDeviceId : Option String) : String :=
  match (rawDeviceId.filter (· ≠ "")).bind fun raw ↦ rt.uuid raw with
  | none => "user:" ++ user.str
  | some deviceId =>
    if (devices.lookup deviceId).any (·.userId = user) then "device:" ++ deviceId.str
    else "user:" ++ user.str

def rateLimitKey (scope : String) (windowSeconds : ℕ) : String :=
  "rl:parse:" ++ scope ++ ":" ++ toString windowSeconds

/-! ## Requests -/

/-- The settings the limiter reads. -/
structure RateLimitSettings where
  parseRateLimit : ℤ
  parseRateLimitDaily : ℤ
  rateLimitFailOpen : Bool

structure Window where
  seconds : ℕ
  limit : ℤ
  deriving DecidableEq, Repr

/-- The windows of `enforce_parse_rate_limit`, in the order in which they are hit. -/
def windows (settings : RateLimitSettings) : List Window :=
  [⟨60, settings.parseRateLimit⟩, ⟨86400, settings.parseRateLimitDaily⟩]

/-- What one window said. -/
structure Decision where
  count : ℕ
  ttlMs : ℤ
  limit : ℤ
  deriving DecidableEq, Repr

structure HttpException where
  statusCode : ℕ
  detail : String
  retryAfter : Option ℤ
  deriving DecidableEq, Repr

def HttpException.rateLimited (retryAfter : ℤ) : HttpException :=
  ⟨429, "rate limit exceeded, slow down", some retryAfter⟩

def HttpException.limiterUnavailable : HttpException :=
  ⟨503, "rate limiter temporarily unavailable", none⟩

inductive LimiterAnswer
  | admitted
  | raised (exception : HttpException)
  deriving DecidableEq, Repr

/-- The last loop of `enforce_parse_rate_limit`: the first exceeded window answers. -/
def answer (decisions : List Decision) : LimiterAnswer :=
  match decisions.find? fun decision ↦ decision.limit < decision.count with
  | none => .admitted
  | some decision => .raised (.rateLimited (max 1 ((decision.ttlMs + 999) / 1000)))

/-- The user's request with that number. -/
structure RequestId where
  user : UUID
  number : ℕ
  deriving DecidableEq, Repr

/-- A request with the windows it has still to hit. -/
structure LimiterRun where
  scope : String
  todo : List Window
  decisions : List Decision
  deriving DecidableEq, Repr

inductive LimiterProc
  | idle
  | limiting (run : LimiterRun)
  | answered (answer : LimiterAnswer)
  deriving DecidableEq, Repr

def LimiterProc.answer? : LimiterProc → Option LimiterAnswer
  | .answered answer => some answer
  | .idle | .limiting _ => none

/-- The request after its hit on the next window; after the last one it answers at once. -/
def LimiterRun.next (run : LimiterRun) (todo : List Window) (decision : Decision) : LimiterProc :=
  match todo with
  | [] => .answered (answer (run.decisions ++ [decision]))
  | _ :: _ => .limiting { run with todo := todo, decisions := run.decisions ++ [decision] }

structure LimiterSystem where
  redis : Redis
  procs : RequestId → LimiterProc

/-- `arrive` has resolved its scope; `redisError` is a `RedisError` in place of the next hit. -/
inductive LimiterAction
  | arrive (request : RequestId) (rawDeviceId : Option String)
  | advance (request : RequestId)
  | redisError (request : RequestId)
  | elapse (ms : ℕ)

namespace LimiterSystem

def setProc (s : LimiterSystem) (request : RequestId) (next : LimiterProc) : LimiterSystem :=
  { s with procs := Function.update s.procs request next }

@[simp] theorem setProc_procs (s : LimiterSystem) (request : RequestId) (next : LimiterProc) :
    (s.setProc request next).procs request = next := Function.update_self ..

theorem setProc_procs_of_ne {request other : RequestId} (s : LimiterSystem) (next : LimiterProc)
    (hne : request ≠ other) : (s.setProc other next).procs request = s.procs request :=
  Function.update_of_ne hne ..

def step (rt : Runtime) (settings : RateLimitSettings) (devices : Table UUID Device)
    (s : LimiterSystem) :
    LimiterAction → Option LimiterSystem
  | .arrive request rawDeviceId =>
    match s.procs request with
    | .idle => some (s.setProc request
        (.limiting ⟨resolveScope rt devices request.user rawDeviceId, windows settings, []⟩))
    | _ => none
  | .advance request =>
    match s.procs request with
    | .limiting ⟨scope, window :: todo, decisions⟩ =>
      let (redis, count, ttlMs) := hit s.redis (rateLimitKey scope window.seconds) window.seconds
      some ({ s with redis := redis }.setProc request
        (LimiterRun.next ⟨scope, window :: todo, decisions⟩ todo ⟨count, ttlMs, window.limit⟩))
    | _ => none
  | .redisError request =>
    match s.procs request with
    | .limiting _ => some (s.setProc request (.answered
        (if settings.rateLimitFailOpen then .admitted else .raised .limiterUnavailable)))
    | _ => none
  | .elapse ms => some { s with redis := { s.redis with now := s.redis.now + ms } }

/-- No request yet. -/
def ofRedis (redis : Redis) : LimiterSystem where
  redis := redis
  procs _ := .idle

/-- No key and no request yet. -/
def initial (now : ℕ) : LimiterSystem := ofRedis ⟨now, fun _ ↦ none⟩

end LimiterSystem

/-- No step is a Redis error. -/
def LimiterAction.errorFree : LimiterAction → Bool
  | .redisError _ => false
  | .arrive .. | .advance _ | .elapse _ => true

/-! ## Steps -/

section

variable {rt : Runtime} {settings : RateLimitSettings} {devices : Table UUID Device}
  {s s' : LimiterSystem}
  {action : LimiterAction}

/-- Everything an action can do. -/
inductive LimiterOutcome (rt : Runtime) (settings : RateLimitSettings) (devices : Table UUID Device)
    (s : LimiterSystem) : LimiterAction → LimiterSystem → Prop
  | arrived (request : RequestId) (rawDeviceId : Option String) (idle : s.procs request = .idle) :
      LimiterOutcome rt settings devices s (.arrive request rawDeviceId) (s.setProc request
        (.limiting ⟨resolveScope rt devices request.user rawDeviceId, windows settings, []⟩))
  | counted (request : RequestId) (scope : String) (window : Window) (todo : List Window)
      (decisions : List Decision) (running : s.procs request = .limiting ⟨scope, window :: todo, decisions⟩)
      (redis : Redis) (count : ℕ) (ttlMs : ℤ)
      (told : hit s.redis (rateLimitKey scope window.seconds) window.seconds = (redis, count, ttlMs)) :
      LimiterOutcome rt settings devices s (.advance request) ({ s with redis := redis }.setProc request
        (LimiterRun.next ⟨scope, window :: todo, decisions⟩ todo ⟨count, ttlMs, window.limit⟩))
  | failed (request : RequestId) (run : LimiterRun) (running : s.procs request = .limiting run) :
      LimiterOutcome rt settings devices s (.redisError request) (s.setProc request (.answered
        (if settings.rateLimitFailOpen then .admitted else .raised .limiterUnavailable)))
  | elapsed (ms : ℕ) : LimiterOutcome rt settings devices s (.elapse ms)
      { s with redis := { s.redis with now := s.redis.now + ms } }

theorem LimiterSystem.step_outcome (h : LimiterSystem.step rt settings devices s action = some s') :
    LimiterOutcome rt settings devices s action s' := by
  cases action with
  | arrive request rawDeviceId =>
    simp only [step] at h
    split at h
    · rename_i idle
      cases h
      exact .arrived request rawDeviceId idle
    · cases h
  | advance request =>
    simp only [step] at h
    split at h
    · rename_i scope window todo decisions running
      cases h
      exact .counted request scope window todo decisions running _ _ _ rfl
    · cases h
  | redisError request =>
    simp only [step] at h
    split at h
    · rename_i run running
      cases h
      exact .failed request run running
    · cases h
  | elapse ms =>
    cases h
    exact .elapsed ms

/-- The requests are somewhere on their way through the windows. -/
def OnTheWay (settings : RateLimitSettings) (s : LimiterSystem) : Prop :=
  ∀ request run, s.procs request = .limiting run → run.todo ≠ [] ∧ run.todo <:+ windows settings

/-- A request that is limiting after a step was so before, has just arrived, or has hit its next window. -/
theorem LimiterOutcome.limiting (h : LimiterOutcome rt settings devices s action s')
    {request : RequestId} {run : LimiterRun} (hrun : s'.procs request = .limiting run) :
    s.procs request = .limiting run ∨
      (∃ rawDeviceId, run = ⟨resolveScope rt devices request.user rawDeviceId, windows settings, []⟩) ∨
      ∃ window before redis count ttlMs, s.procs request = .limiting before ∧
        hit s.redis (rateLimitKey before.scope window.seconds) window.seconds = (redis, count, ttlMs) ∧
        before.todo = window :: run.todo ∧ run.todo ≠ [] ∧
        run = ⟨before.scope, run.todo, before.decisions ++ [⟨count, ttlMs, window.limit⟩]⟩ := by
  have hother {other : RequestId} {next : LimiterProc} {s' : LimiterSystem}
      (hrun : (s'.setProc other next).procs request = .limiting run) (hprocs : s'.procs = s.procs) :
      (request = other ∧ next = .limiting run) ∨ s.procs request = .limiting run := by
    by_cases heq : request = other
    · rw [heq, LimiterSystem.setProc_procs] at hrun
      exact .inl ⟨heq, hrun⟩
    · rw [LimiterSystem.setProc_procs_of_ne _ _ heq, hprocs] at hrun
      exact .inr hrun
  cases h with
  | arrived other rawDeviceId idle =>
    rcases hother hrun rfl with ⟨rfl, heq⟩ | hbefore
    · cases heq
      exact .inr (.inl ⟨rawDeviceId, rfl⟩)
    · exact .inl hbefore
  | counted other scope window todo decisions running redis count ttlMs told =>
    rcases hother hrun rfl with ⟨rfl, heq⟩ | hbefore
    · cases todo with
      | nil => cases heq
      | cons first rest =>
        cases heq
        exact .inr (.inr ⟨window, _, redis, count, ttlMs, running, told, rfl, List.cons_ne_nil _ _, rfl⟩)
    · exact .inl hbefore
  | failed other run' running =>
    rcases hother hrun rfl with ⟨rfl, heq⟩ | hbefore
    · cases heq
    · exact .inl hbefore
  | elapsed ms => exact .inl hrun

theorem OnTheWay.step (h : OnTheWay settings s)
    (houtcome : LimiterOutcome rt settings devices s action s') : OnTheWay settings s' := by
  intro request run hrun
  rcases houtcome.limiting hrun with
    hbefore | ⟨_, rfl⟩ | ⟨window, before, _, _, _, hbefore, _, htodo, hne, _⟩
  · exact h request run hbefore
  · exact ⟨List.cons_ne_nil _ _, List.suffix_refl _⟩
  · have hsuffix := (h request before hbefore).2
    rw [htodo] at hsuffix
    exact ⟨hne, (List.suffix_cons _ _).trans hsuffix⟩

end

/-! ## One hit -/

namespace Redis

variable {redis other : Redis} {key : String} {counter : RedisCounter}

@[simp] theorem set_now : (redis.set key counter).now = redis.now := rfl

@[simp] theorem set_keys (name : String) : (redis.set key counter).keys name =
    if name = key then some counter else redis.keys name := Function.update_apply ..

@[simp] theorem set_set (later : RedisCounter) :
    (redis.set key counter).set key later = redis.set key later := by
  rw [set, set, set, Function.update_idem]

theorem get_set (halive : counter.expiresAt.all (redis.now < ·)) :
    (redis.set key counter).get key = some counter := by
  rw [get, set_keys, if_pos rfl, set_now, Option.filter_some, halive]
  rfl

theorem get_congr (hnow : other.now = redis.now) (hkey : other.keys key = redis.keys key) :
    other.get key = redis.get key := by
  rw [get, get, hnow, hkey]

end Redis

section

variable {redis other : Redis} {key : String} {windowSeconds count expiresAt : ℕ}

/-- The first hit gives the key its TTL. -/
theorem hit_of_absent (habsent : redis.get key = none) (hwindow : 0 < windowSeconds) :
    hit redis key windowSeconds =
      (redis.set key ⟨1, some (redis.now + windowSeconds * 1000)⟩, 1, ↑(windowSeconds * 1000)) := by
  have hborn : (redis.set key ⟨1, none⟩).get key = some ⟨1, none⟩ := Redis.get_set rfl
  have halive : redis.now < redis.now + windowSeconds * 1000 := by omega
  have hkept : (redis.set key ⟨1, some (redis.now + windowSeconds * 1000)⟩).get key =
      some ⟨1, some (redis.now + windowSeconds * 1000)⟩ := Redis.get_set (decide_eq_true halive)
  simp only [hit, Redis.incr, habsent, if_true, Redis.pexpire, hborn, Redis.set_now, Redis.set_set,
    Redis.pttl, hkept]
  rw [Nat.cast_add, add_sub_cancel_left]

/-- A later hit keeps the TTL. -/
theorem hit_of_present (hpresent : redis.get key = some ⟨count, some expiresAt⟩) (hcount : 1 ≤ count) :
    hit redis key windowSeconds =
      (redis.set key ⟨count + 1, some expiresAt⟩, count + 1, (expiresAt : ℤ) - redis.now) := by
  have halive : redis.now < expiresAt := of_decide_eq_true (Option.filter_eq_some_iff.mp hpresent).2
  have hkept : (redis.set key ⟨count + 1, some expiresAt⟩).get key = some ⟨count + 1, some expiresAt⟩ :=
    Redis.get_set (decide_eq_true halive)
  have hlater : count + 1 ≠ 1 := by omega
  simp only [hit, Redis.incr, hpresent, hlater, if_false, Redis.pttl, hkept, Redis.set_now]

/-- A hit reads and writes its own key only. -/
theorem hit_local (windowSeconds : ℕ) (hnow : other.now = redis.now)
    (hkey : other.keys key = redis.keys key) :
    ∃ counter told, hit redis key windowSeconds = (redis.set key counter, told) ∧
      hit other key windowSeconds = (other.set key counter, told) := by
  -- both have set the same counter
  have hset (counter : RedisCounter) :
      (other.set key counter).get key = (redis.set key counter).get key := by
    apply Redis.get_congr
    · exact hnow
    · rw [Redis.set_keys, Redis.set_keys, if_pos rfl, if_pos rfl]
  have hpttl (counter : RedisCounter) :
      (other.set key counter).pttl key = (redis.set key counter).pttl key := by
    rw [Redis.pttl, Redis.pttl, hset, Redis.set_now, Redis.set_now, hnow]
  have hpexpire (counter : RedisCounter) (ms : ℕ) : ∃ later,
      (redis.set key counter).pexpire key ms = redis.set key later ∧
        (other.set key counter).pexpire key ms = other.set key later := by
    rw [Redis.pexpire, Redis.pexpire, hset]
    cases (redis.set key counter).get key with
    | none => exact ⟨counter, rfl, rfl⟩
    | some found =>
      refine ⟨⟨found.count, some (redis.now + ms)⟩, Redis.set_set _, ?_⟩
      rw [Redis.set_now, hnow]
      exact Redis.set_set _
  obtain ⟨counter, current, hincr, hincr'⟩ : ∃ counter current,
      redis.incr key = (redis.set key counter, current) ∧
        other.incr key = (other.set key counter, current) := by
    rw [Redis.incr, Redis.incr, Redis.get_congr hnow hkey]
    cases redis.get key with
    | none => exact ⟨_, _, rfl, rfl⟩
    | some found => exact ⟨_, _, rfl, rfl⟩
  rw [hit, hit, hincr, hincr']
  dsimp only
  split
  · obtain ⟨later, hlater, hlater'⟩ := hpexpire counter (windowSeconds * 1000)
    rw [hlater, hlater', hpttl]
    exact ⟨later, _, rfl, rfl⟩
  · rw [hpttl]
    exact ⟨counter, _, rfl, rfl⟩

theorem exists_hit_eq_set (redis : Redis) (key : String) (windowSeconds : ℕ) :
    ∃ counter told, hit redis key windowSeconds = (redis.set key counter, told) := by
  obtain ⟨counter, told, htold, _⟩ := hit_local windowSeconds (rfl : redis.now = redis.now)
    (rfl : redis.keys key = redis.keys key)
  exact ⟨counter, told, htold⟩

/-- A request that goes on is never stopped. -/
theorem LimiterSystem.step_advance (rt : Runtime) (settings : RateLimitSettings)
    (devices : Table UUID Device) {s : LimiterSystem} {request : RequestId} {scope : String}
    {window : Window} {todo : List Window} {decisions : List Decision}
    (running : s.procs request = .limiting ⟨scope, window :: todo, decisions⟩) : ∃ s' decision,
      LimiterSystem.step rt settings devices s (.advance request) = some s' ∧
        s'.redis.now = s.redis.now ∧
        s'.procs request = LimiterRun.next ⟨scope, window :: todo, decisions⟩ todo decision := by
  obtain ⟨counter, ⟨count, ttlMs⟩, htold⟩ :=
    exists_hit_eq_set s.redis (rateLimitKey scope window.seconds) window.seconds
  let next := LimiterRun.next ⟨scope, window :: todo, decisions⟩ todo ⟨count, ttlMs, window.limit⟩
  refine ⟨({ s with redis := s.redis.set (rateLimitKey scope window.seconds) counter } :
    LimiterSystem).setProc request next, ⟨count, ttlMs, window.limit⟩, ?_, rfl, setProc_procs _ _ _⟩
  simp only [LimiterSystem.step, running, htold]
  rfl

end

/-! ## Keys of different scopes -/

theorem digitChar_ne_hyphen : ∀ a : Fin 16, Nat.digitChar a ≠ '-' := by
  decide

theorem digitChar_inj : ∀ a b : Fin 16, Nat.digitChar a = Nat.digitChar b → a = b := by
  decide

theorem UUID.hex_inj {first second : UUID} (h : first.hex = second.hex) : first = second := by
  have hdigit (i : ℕ) (hi : i < 32) :
      first.int.toNat / 16 ^ i % 16 = second.int.toNat / 16 ^ i % 16 := by
    have hchar : Nat.digitChar (first.int.toNat / 16 ^ i % 16) =
        Nat.digitChar (second.int.toNat / 16 ^ i % 16) := by
      exact List.map_inj_left.mp h i (List.mem_range.mpr hi)
    have hsame := digitChar_inj ⟨_, Nat.mod_lt _ (by decide)⟩ ⟨_, Nat.mod_lt _ (by decide)⟩ hchar
    exact Fin.mk.inj hsame
  have hprefix (n : ℕ) (hn : n ≤ 32) : first.int.toNat % 16 ^ n = second.int.toNat % 16 ^ n := by
    induction n with
    | zero => rw [Nat.pow_zero, Nat.mod_one, Nat.mod_one]
    | succ n ih =>
      calc first.int.toNat % 16 ^ (n + 1)
          = first.int.toNat % 16 ^ n + 16 ^ n * (first.int.toNat / 16 ^ n % 16) := Nat.mod_pow_succ
        _ = second.int.toNat % 16 ^ n + 16 ^ n * (second.int.toNat / 16 ^ n % 16) := by
          rw [ih (by omega), hdigit n hn]
        _ = second.int.toNat % 16 ^ (n + 1) := Nat.mod_pow_succ.symm
  have hint : first.int = second.int := by
    apply BitVec.eq_of_toNat_eq
    calc first.int.toNat
        = first.int.toNat % 16 ^ 32 := (Nat.mod_eq_of_lt first.int.isLt).symm
      _ = second.int.toNat % 16 ^ 32 := hprefix 32 le_rfl
      _ = second.int.toNat := Nat.mod_eq_of_lt second.int.isLt
  cases first
  cases second
  cases hint
  rfl

theorem UUID.hex_ne_hyphen {id : UUID} {c : Char} (hmem : c ∈ id.hex) : c ≠ '-' := by
  obtain ⟨i, _, rfl⟩ := List.mem_map.mp hmem
  exact digitChar_ne_hyphen ⟨_, Nat.mod_lt _ (by decide)⟩

/-- Without its hyphens, the text of a UUID is its digits. -/
theorem UUID.str_digits (id : UUID) : id.str.toList.filter (· ≠ '-') = id.hex.reverse := by
  have hkept {part : List Char} (hpart : part ⊆ id.hex.reverse) : part.filter (· ≠ '-') = part := by
    rw [List.filter_eq_self]
    intro c hc
    exact decide_eq_true (UUID.hex_ne_hyphen (List.mem_reverse.mp (hpart hc)))
  have hdrop (n : ℕ) := List.drop_subset n id.hex.reverse
  have htake (n : ℕ) : (id.hex.reverse.drop n).take 4 ⊆ id.hex.reverse :=
    List.Subset.trans (List.take_subset _ _) (hdrop n)
  have hsplit (n : ℕ) :
      (id.hex.reverse.drop n).take 4 ++ id.hex.reverse.drop (n + 4) = id.hex.reverse.drop n := by
    rw [← List.drop_drop]
    exact List.take_append_drop 4 _
  have hhyphen (rest : List Char) : ('-' :: rest).filter (· ≠ '-') = rest.filter (· ≠ '-') := rfl
  unfold UUID.str
  simp only [String.toList_ofList, List.filter_append, hhyphen, hkept (List.take_subset _ _),
    hkept (htake _), hkept (hdrop _), List.append_assoc, List.cons_append]
  rw [hsplit 16, hsplit 12, hsplit 8, List.take_append_drop]

theorem UUID.str_inj {first second : UUID} (h : first.str = second.str) : first = second := by
  apply UUID.hex_inj
  apply List.reverse_injective
  rw [← first.str_digits, ← second.str_digits, h]

theorem eq_of_append_cons_eq {α : Type*} {a : α} {first second rest rest' : List α} (hrest : a ∉ rest)
    (hrest' : a ∉ rest') (h : first ++ a :: rest = second ++ a :: rest') :
    first = second ∧ rest = rest' := by
  have hextends {rest more rest' : List α} (hrest : a ∉ rest) (h : a :: rest = more ++ a :: rest') :
      more = [] ∧ rest = rest' := by
    cases more with
    | nil => exact ⟨rfl, (List.cons.inj h).2⟩
    | cons b more =>
      refine absurd ?_ hrest
      rw [(List.cons.inj h).2]
      exact List.mem_append_right more List.mem_cons_self
  rcases List.append_eq_append_iff.mp h with ⟨more, rfl, hmore⟩ | ⟨more, rfl, hmore⟩
  · obtain ⟨rfl, rfl⟩ := hextends hrest hmore
    exact ⟨(List.append_nil _).symm, rfl⟩
  · obtain ⟨rfl, rfl⟩ := hextends hrest' hmore
    exact ⟨List.append_nil _, rfl⟩

theorem windows_seconds_bounds {settings : RateLimitSettings} {window : Window}
    (hwindow : window ∈ windows settings) : 0 < window.seconds ∧ window.seconds ≤ 86400 := by
  simp only [windows, List.mem_cons, List.not_mem_nil, or_false] at hwindow
  rcases hwindow with rfl | rfl
  · exact ⟨Nat.zero_lt_succ 59, by norm_num⟩
  · exact ⟨Nat.zero_lt_succ 86399, le_rfl⟩

theorem windows_nodup (settings : RateLimitSettings) : (windows settings).Nodup := by
  simp [windows]

/-- A key belongs to one scope and one window. -/
theorem rateLimitKey_inj {settings : RateLimitSettings} {scope scope' : String}
    {window window' : Window} (hwindow : window ∈ windows settings)
    (hwindow' : window' ∈ windows settings)
    (h : rateLimitKey scope window.seconds = rateLimitKey scope' window'.seconds) :
    scope = scope' ∧ window = window' := by
  have hminute : (toString 60).toList = ['6', '0'] := by decide
  have hday : (toString 86400).toList = ['8', '6', '4', '0', '0'] := by decide
  have hcolon {window : Window} (hwindow : window ∈ windows settings) :
      ':' ∉ (toString window.seconds).toList := by
    simp only [windows, List.mem_cons, List.not_mem_nil, or_false] at hwindow
    rcases hwindow with rfl | rfl
    · rw [hminute]
      decide
    · rw [hday]
      decide
  have hlist := congrArg String.toList h
  simp only [rateLimitKey, String.toList_append, List.append_assoc] at hlist
  have hparts := List.append_cancel_left hlist
  obtain ⟨hscope, hseconds⟩ := eq_of_append_cons_eq (hcolon hwindow) (hcolon hwindow') hparts
  refine ⟨String.toList_inj.mp hscope, ?_⟩
  simp only [windows, List.mem_cons, List.not_mem_nil, or_false] at hwindow hwindow'
  rcases hwindow with rfl | rfl <;> rcases hwindow' with rfl | rfl
  · rfl
  · rw [hminute, hday] at hseconds
    cases hseconds
  · rw [hminute, hday] at hseconds
    cases hseconds
  · rfl

end VoiceSpend
