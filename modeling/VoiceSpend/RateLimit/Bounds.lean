import Mathlib.Data.List.TakeWhile
import VoiceSpend.Library.FixedWindow
import VoiceSpend.RateLimit.Limiter

/-!
# How much a limit lets through

The hits on a key of one scope and one window are the history of a fixed-window counter (`KeyHistory`), and
an admitted request was told a count within the limit of both its windows. So a limit bounds the admitted
requests of one life of the key, twice the limit bounds them in any interval as long as the window, and a
request after a day of silence is admitted unless others fill a window before its own hit.
-/

namespace VoiceSpend

open FixedWindow Machine

/-! ## Hits of a run -/

def Window.ms (window : Window) : ℕ := window.seconds * 1000

/-- The key an action hits, the request, and the time. -/
def LimiterSystem.hitBy (s : LimiterSystem) : LimiterAction → Option (String × RequestId × ℕ)
  | .advance request =>
    match s.procs request with
    | .limiting ⟨scope, window :: _, _⟩ =>
      some (rateLimitKey scope window.seconds, request, s.redis.now)
    | _ => none
  | .arrive .. | .redisError _ | .elapse _ => none

/-- The requests that have hit the key, with their times. -/
def hitsOn (trace : List (LimiterSystem × LimiterAction)) (key : String) : List (RequestId × ℕ) :=
  trace.filterMap fun entry ↦ (entry.1.hitBy entry.2).bind fun made ↦
    if made.1 = key then some made.2 else none

/-- The key was created at that time. -/
def CreatedAt (trace : List (LimiterSystem × LimiterAction)) (key : String) (born : ℕ) : Prop :=
  ∃ entry ∈ trace, entry.1.redis.get key = none ∧
    ∃ request, entry.1.hitBy entry.2 = some (key, request, born)

def LimiterProc.admitted : LimiterProc → Bool
  | .answered .admitted => true
  | _ => false

/-- The admitted requests that hit the key from `start` on and before `stop`. -/
def admittedHits (trace : List (LimiterSystem × LimiterAction)) (s : LimiterSystem) (key : String)
    (start stop : ℕ) : List (RequestId × ℕ) :=
  (hitsOn trace key).filter fun made ↦ (start ≤ made.2 ∧ made.2 < stop) ∧
    (s.procs made.1).admitted = true

/-- What the limiter promises about one window of one scope. -/
structure WindowKept (trace : List (LimiterSystem × LimiterAction)) (s : LimiterSystem) (scope : String)
    (window : Window) : Prop where
  ttl : ∀ counter, s.redis.get (rateLimitKey scope window.seconds) = some counter →
    0 < s.redis.pttl (rateLimitKey scope window.seconds) ∧
      s.redis.pttl (rateLimitKey scope window.seconds) ≤ window.ms ∧
      ∃ born, CreatedAt trace (rateLimitKey scope window.seconds) born ∧
        counter.expiresAt = some (born + window.ms)
  life : ∀ born, CreatedAt trace (rateLimitKey scope window.seconds) born →
    ((admittedHits trace s (rateLimitKey scope window.seconds) born (born + window.ms)).length : ℤ) ≤
      window.limit
  interval : ∀ start,
    ((admittedHits trace s (rateLimitKey scope window.seconds) start (start + window.ms)).length : ℤ) ≤
      2 * window.limit

section

variable {rt : Runtime} {settings : RateLimitSettings} {devices : Table UUID Device}
  {s s' : LimiterSystem}
  {action : LimiterAction} {trace : List (LimiterSystem × LimiterAction)} {scope key : String}
  {window : Window} {hits : List (Hit RequestId)} {request : RequestId}

theorem Window.ms_pos (hseconds : 0 < window.seconds) : 0 < window.ms :=
  Nat.mul_pos hseconds (by decide)

theorem hitsOn_concat (trace : List (LimiterSystem × LimiterAction)) (s : LimiterSystem)
    (action : LimiterAction) (key : String) : hitsOn (trace ++ [(s, action)]) key =
      hitsOn trace key ++ ((s.hitBy action).bind fun made ↦
        if made.1 = key then some made.2 else none).toList := by
  rw [hitsOn, List.filterMap_append, List.filterMap_cons, List.filterMap_nil]
  dsimp only
  cases (s.hitBy action).bind fun made ↦ if made.1 = key then some made.2 else none <;> rfl

theorem mem_hitsOn_concat {made : RequestId × ℕ} : made ∈ hitsOn (trace ++ [(s, action)]) key ↔
    made ∈ hitsOn trace key ∨ s.hitBy action = some (key, made) := by
  rw [hitsOn_concat, List.mem_append, Option.mem_toList, Option.bind_eq_some_iff]
  refine or_congr_right ⟨?_, fun h ↦ ⟨(key, made), h, if_pos rfl⟩⟩
  rintro ⟨⟨key', made'⟩, hmade, hkey⟩
  dsimp only at hkey
  split at hkey
  · rename_i heq
    cases hkey
    rw [hmade, heq]
  · cases hkey

/-- An action that hits nothing. -/
theorem hitsOn_append_cons {earlier later : List (LimiterSystem × LimiterAction)}
    (hnone : s.hitBy action = none) :
    hitsOn (earlier ++ (s, action) :: later) key = hitsOn earlier key ++ hitsOn later key := by
  rw [hitsOn, List.filterMap_append, List.filterMap_cons]
  dsimp only
  rw [hnone]
  rfl

theorem createdAt_concat {born : ℕ} :
    CreatedAt (trace ++ [(s, action)]) key born ↔ CreatedAt trace key born ∨
    s.redis.get key = none ∧ ∃ request, s.hitBy action = some (key, request, born) := by
  unfold CreatedAt
  simp only [List.mem_append, List.mem_singleton, or_and_right, exists_or, exists_eq_left]

/-! ## What a request was told -/

/-- The request was told `count` in the window; once admitted, it was told a count within the limit. -/
def LimiterProc.Told (window : Window) (count : ℕ) : LimiterProc → Prop
  | .idle => False
  | .limiting run => ∃ decision ∈ run.decisions, decision.count = count ∧ decision.limit = window.limit
  | .answered answer => answer = .admitted → (count : ℤ) ≤ window.limit

theorem answer_eq_admitted_iff {decisions : List Decision} :
    answer decisions = .admitted ↔ ∀ decision ∈ decisions, (decision.count : ℤ) ≤ decision.limit := by
  unfold answer
  split
  · rename_i hnone
    refine iff_of_true rfl fun decision hmem ↦ ?_
    have h := List.find?_eq_none.mp hnone decision hmem
    exact not_lt.mp fun hlt ↦ h (decide_eq_true hlt)
  · rename_i decision hsome
    refine iff_of_false nofun fun hall ↦ ?_
    have hfound := List.find?_some hsome
    have hexceeded : decision.limit < decision.count := of_decide_eq_true hfound
    exact absurd hexceeded (not_lt.mpr (hall decision (List.mem_of_find?_eq_some hsome)))

theorem LimiterProc.told_next {run : LimiterRun} {todo : List Window} {decision : Decision} {count : ℕ}
    (hmem : ∃ told ∈ run.decisions ++ [decision], told.count = count ∧ told.limit = window.limit) :
    (run.next todo decision).Told window count := by
  cases todo with
  | nil =>
    intro hadmitted
    obtain ⟨told, htold, rfl, hlimit⟩ := hmem
    rw [← hlimit]
    exact answer_eq_admitted_iff.mp hadmitted told htold
  | cons => exact hmem

/-- What a request was told stays said. -/
theorem LimiterProc.Told.step {count : ℕ} (h : (s.procs request).Told window count)
    (houtcome : LimiterOutcome rt settings devices s action s') (herror : action.errorFree = true) :
    (s'.procs request).Told window count := by
  have hother {other : RequestId} {next : LimiterProc}
      (hnext : request = other → next.Told window count) :
      (Function.update s.procs other next request).Told window count := by
    by_cases heq : request = other
    · rw [heq, Function.update_self]
      exact hnext heq
    · rw [Function.update_of_ne heq]
      exact h
  cases houtcome with
  | arrived other rawDeviceId idle =>
    refine hother fun heq ↦ ?_
    rw [heq, idle] at h
    exact h.elim
  | counted other scope' window' todo decisions running redis count' ttlMs told =>
    refine hother fun heq ↦ LimiterProc.told_next ?_
    rw [heq, running] at h
    obtain ⟨decision, hmem, hcount⟩ := h
    exact ⟨decision, List.mem_append_left _ hmem, hcount⟩
  | failed => cases herror
  | elapsed ms => exact h

/-! ## The history of a key -/

/-- The key holds the last counter of the history of its hits. -/
structure KeyHistory (trace : List (LimiterSystem × LimiterAction)) (s : LimiterSystem) (scope : String)
    (window : Window) (hits : List (Hit RequestId)) : Prop where
  history : History window.ms hits
  logged : hits.map (fun hit ↦ (hit.who, hit.time)) = hitsOn trace (rateLimitKey scope window.seconds)
  stored : s.redis.keys (rateLimitKey scope window.seconds) =
    hits.getLast?.map fun last ↦ ⟨last.count, some (last.birth + window.ms)⟩
  past : ∀ hit ∈ hits, hit.time ≤ s.redis.now
  created : ∀ born, CreatedAt trace (rateLimitKey scope window.seconds) born ↔
    ∃ hit ∈ hits, hit.birth = born
  told : ∀ hit ∈ hits, (s.procs hit.who).Told window hit.count

/-- Where the key is alive, it is the last counter of the history. -/
theorem KeyHistory.get (h : KeyHistory trace s scope window hits) :
    (s.redis.get (rateLimitKey scope window.seconds) = none ∧
      ∀ last ∈ hits.getLast?, last.birth + window.ms ≤ s.redis.now) ∨
    ∃ last ∈ hits.getLast?, s.redis.now < last.birth + window.ms ∧
      s.redis.get (rateLimitKey scope window.seconds) =
        some ⟨last.count, some (last.birth + window.ms)⟩ := by
  rw [Redis.get, h.stored]
  cases hlast : hits.getLast? with
  | none => exact .inl ⟨rfl, fun last hmem ↦ by cases hmem⟩
  | some last =>
    by_cases halive : s.redis.now < last.birth + window.ms
    · refine .inr ⟨last, rfl, halive, ?_⟩
      rw [Option.map_some, Option.filter_some]
      exact if_pos (decide_eq_true halive)
    · refine .inl ⟨?_, fun other hother ↦ ?_⟩
      · rw [Option.map_some, Option.filter_some]
        exact if_neg fun h ↦ halive (of_decide_eq_true h)
      · cases hother
        exact not_lt.mp halive

/-- On a living key the next hit counts on and keeps the TTL. -/
theorem KeyHistory.hit_of_alive (h : KeyHistory trace s scope window hits)
    (hseconds : 0 < window.seconds) {last : Hit RequestId} (hlast : last ∈ hits.getLast?)
    (hpresent : s.redis.get (rateLimitKey scope window.seconds) =
      some ⟨last.count, some (last.birth + window.ms)⟩) :
    hit s.redis (rateLimitKey scope window.seconds) window.seconds = (s.redis.set
      (rateLimitKey scope window.seconds) ⟨last.count + 1, some (last.birth + window.ms)⟩,
        last.count + 1, ((last.birth + window.ms : ℕ) : ℤ) - s.redis.now) := by
  have hlife := h.history.alive (Window.ms_pos hseconds) (List.mem_of_getLast? hlast)
  exact hit_of_present hpresent hlife.2.2

/-- A hit on the key adds one hit to its history, with the count the request is told. -/
theorem KeyHistory.exists_hit (h : KeyHistory trace s scope window hits)
    (hwindow : 0 < window.seconds) (request : RequestId) :
    ∃ new : Hit RequestId, new.who = request ∧ new.time = s.redis.now ∧
    History window.ms (hits ++ [new]) ∧
      hit s.redis (rateLimitKey scope window.seconds) window.seconds = (s.redis.set
        (rateLimitKey scope window.seconds) ⟨new.count, some (new.birth + window.ms)⟩, new.count,
          ((new.birth + window.ms : ℕ) : ℤ) - s.redis.now) ∧
      ((s.redis.get (rateLimitKey scope window.seconds) = none ∧ new.birth = s.redis.now) ∨
        (s.redis.get (rateLimitKey scope window.seconds) ≠ none ∧
          ∃ hit ∈ hits, hit.birth = new.birth)) := by
  rcases h.get with ⟨habsent, hended⟩ | ⟨last, hlast, halive, hpresent⟩
  · refine ⟨⟨request, s.redis.now, s.redis.now, 1⟩, rfl, rfl, ?_, ?_, .inl ⟨habsent, rfl⟩⟩
    · exact .opened request s.redis.now h.history hended
    · rw [hit_of_absent habsent hwindow, Nat.cast_add, add_sub_cancel_left]
      rfl
  · have hmem := List.mem_of_getLast? hlast
    refine ⟨⟨request, s.redis.now, last.birth, last.count + 1⟩, rfl, rfl, ?_,
      h.hit_of_alive hwindow hlast hpresent, .inr ⟨?_, last, hmem, rfl⟩⟩
    · exact .counted request s.redis.now h.history last hlast (h.past last hmem) halive
    · rw [hpresent]
      exact Option.some_ne_none _

/-- A step that does not hit the key leaves its history as it is. -/
theorem KeyHistory.of_no_hit (h : KeyHistory trace s scope window hits)
    (houtcome : LimiterOutcome rt settings devices s action s') (herror : action.errorFree = true)
    (hnone : ∀ made, s.hitBy action = some made → made.1 ≠ rateLimitKey scope window.seconds)
    (hkey : s'.redis.keys (rateLimitKey scope window.seconds) =
      s.redis.keys (rateLimitKey scope window.seconds))
    (hnow : s.redis.now ≤ s'.redis.now) : KeyHistory (trace ++ [(s, action)]) s' scope window hits where
  history := h.history
  logged := by
    rw [hitsOn_concat, h.logged]
    cases hmade : s.hitBy action with
    | none => exact (List.append_nil _).symm
    | some made =>
      rw [Option.bind_some, if_neg (hnone made hmade)]
      exact (List.append_nil _).symm
  stored := hkey.trans h.stored
  past hit hmem := (h.past hit hmem).trans hnow
  created born := by
    rw [createdAt_concat, h.created]
    refine or_iff_left fun hnew ↦ ?_
    obtain ⟨_, request, hmade⟩ := hnew
    exact hnone _ hmade rfl
  told hit hmem := (h.told hit hmem).step houtcome herror

theorem KeyHistory.step (h : KeyHistory trace s scope window hits) (hway : OnTheWay settings s)
    (hwindow : window ∈ windows settings) (houtcome : LimiterOutcome rt settings devices s action s')
    (herror : action.errorFree = true) :
    ∃ more, KeyHistory (trace ++ [(s, action)]) s' scope window (hits ++ more) := by
  have hkept (hnone : s.hitBy action = none) (hkeys : s'.redis.keys = s.redis.keys)
      (hnow : s.redis.now ≤ s'.redis.now) :
      ∃ more, KeyHistory (trace ++ [(s, action)]) s' scope window (hits ++ more) := by
    refine ⟨[], ?_⟩
    rw [List.append_nil]
    refine h.of_no_hit houtcome herror (fun made hmade ↦ ?_) (by rw [hkeys]) hnow
    rw [hnone] at hmade
    cases hmade
  have hwhole := houtcome
  cases houtcome with
  | arrived request rawDeviceId idle => exact hkept rfl rfl le_rfl
  | failed => cases herror
  | elapsed ms => exact hkept rfl rfl (Nat.le_add_right _ _)
  | counted request scope' window' todo decisions running redis count ttlMs told =>
    have hmade : s.hitBy (.advance request) =
        some (rateLimitKey scope' window'.seconds, request, s.redis.now) := by
      simp only [LimiterSystem.hitBy, running]
    by_cases hkey : rateLimitKey scope' window'.seconds = rateLimitKey scope window.seconds
    · have hwindow' : window' ∈ windows settings := (hway request _ running).2.subset List.mem_cons_self
      obtain ⟨rfl, rfl⟩ := rateLimitKey_inj hwindow' hwindow hkey
      obtain ⟨new, hwho, htime, hhistory, htold, hborn⟩ :=
        h.exists_hit ((windows_seconds_bounds hwindow).1) request
      cases told.symm.trans htold
      refine ⟨[new], hhistory, ?_, ?_, fun hit hmem ↦ ?_, fun born ↦ ?_, fun hit hmem ↦ ?_⟩
      · rw [hitsOn_concat, hmade, List.map_append, h.logged, ← hwho, ← htime, Option.bind_some,
          if_pos rfl]
        rfl
      · rw [List.getLast?_concat]
        exact Function.update_self ..
      · rcases List.mem_append.mp hmem with hmem | hmem
        · exact h.past hit hmem
        · cases List.mem_singleton.mp hmem
          exact htime.le
      · rw [createdAt_concat, h.created, hmade]
        simp only [List.mem_append, List.mem_singleton, or_and_right, exists_or, exists_eq_left,
          Option.some.injEq, Prod.mk.injEq, true_and, exists_eq_left']
        rcases hborn with ⟨habsent, hnow⟩ | ⟨hpresent, old, hold, hsame⟩
        · rw [hnow, and_iff_right habsent]
        · refine or_congr_right' fun hnot ↦ ?_
          refine iff_of_false (fun hnew ↦ hpresent hnew.1) fun heq ↦ hnot ⟨old, hold, hsame.trans heq⟩
      · rcases List.mem_append.mp hmem with hmem | hmem
        · exact (h.told hit hmem).step hwhole herror
        · cases List.mem_singleton.mp hmem
          rw [hwho]
          change LimiterProc.Told _ _ (Function.update s.procs request _ request)
          rw [Function.update_self]
          exact LimiterProc.told_next
            ⟨_, List.mem_append_right _ (List.mem_singleton_self _), rfl, rfl⟩
    · obtain ⟨counter, _, htold⟩ := exists_hit_eq_set s.redis (rateLimitKey scope' window'.seconds)
        window'.seconds
      cases told.symm.trans htold
      refine ⟨[], ?_⟩
      rw [List.append_nil]
      refine h.of_no_hit hwhole herror ?_ ?_ le_rfl
      · rintro made hother
        cases hmade.symm.trans hother
        exact hkey
      · exact Function.update_of_ne (Ne.symm hkey) ..

/-! ## Bounds -/

/-- The admitted hits are hits of the history that were told a count within the limit. -/
theorem KeyHistory.exists_kept (h : KeyHistory trace s scope window hits) (start stop : ℕ) :
    ∃ kept : List (Hit RequestId), kept.Sublist hits ∧
      kept.length = (admittedHits trace s (rateLimitKey scope window.seconds) start stop).length ∧
      ∀ hit ∈ kept, (start ≤ hit.time ∧ hit.time < stop) ∧ (hit.count : ℤ) ≤ window.limit := by
  refine ⟨hits.filter fun hit ↦ (start ≤ hit.time ∧ hit.time < stop) ∧ (s.procs hit.who).admitted = true,
    List.filter_sublist, ?_, fun hit hmem ↦ ?_⟩
  · rw [admittedHits, ← h.logged, List.filter_map, List.length_map]
    rfl
  · obtain ⟨hhit, hkept⟩ := List.mem_filter.mp hmem
    obtain ⟨hwithin, hadmitted⟩ := of_decide_eq_true hkept
    refine ⟨hwithin, ?_⟩
    have htold := h.told hit hhit
    cases hproc : s.procs hit.who with
    | idle | limiting run =>
      rw [hproc] at hadmitted
      cases hadmitted
    | answered answer =>
      rw [hproc] at hadmitted htold
      cases answer with
      | admitted => exact htold rfl
      | raised exception => cases hadmitted

theorem KeyHistory.windowKept (h : KeyHistory trace s scope window hits) (hseconds : 0 < window.seconds)
    (hlimit : 1 ≤ window.limit) : WindowKept trace s scope window := by
  have hms := Window.ms_pos hseconds
  obtain ⟨limit, hnat⟩ := Int.eq_ofNat_of_zero_le (zero_le_one.trans hlimit)
  refine ⟨fun counter hcounter ↦ ?_, fun born hborn ↦ ?_, fun start ↦ ?_⟩
  · rcases h.get with ⟨habsent, _⟩ | ⟨last, hlast, halive, hpresent⟩
    · rw [habsent] at hcounter
      cases hcounter
    · have hmem := List.mem_of_getLast? hlast
      have hborn := (h.history.alive hms hmem).1.trans (h.past last hmem)
      cases hpresent.symm.trans hcounter
      rw [Redis.pttl, hpresent]
      dsimp only
      refine ⟨by omega, by omega, last.birth, (h.created _).mpr ⟨last, hmem, rfl⟩, rfl⟩
  · obtain ⟨kept, hsublist, hlength, hkept⟩ := h.exists_kept born (born + window.ms)
    obtain ⟨first, hfirst, rfl⟩ := (h.created born).mp hborn
    rw [← hlength, hnat, Nat.cast_le]
    refine h.history.length_le_of_life hms hsublist (fun hit hmem ↦ ?_) hfirst fun hit hmem ↦
      (hkept hit hmem).1
    exact Nat.cast_le.mp (hnat ▸ (hkept hit hmem).2)
  · obtain ⟨kept, hsublist, hlength, hkept⟩ := h.exists_kept start (start + window.ms)
    have hbound : kept.length ≤ 2 * limit := by
      refine h.history.length_le_of_interval hms hsublist (fun hit hmem ↦ ?_) fun hit hmem ↦
        (hkept hit hmem).1
      exact Nat.cast_le.mp (hnat ▸ (hkept hit hmem).2)
    rw [← hlength, hnat]
    exact_mod_cast hbound

/-! ## After a silence -/

/-- No hit of the scope in the day before. -/
def Silent (settings : RateLimitSettings) (earlier : List (LimiterSystem × LimiterAction)) (now : ℕ)
    (scope : String) : Prop :=
  ∀ window ∈ windows settings, ∀ made ∈ hitsOn earlier (rateLimitKey scope window.seconds),
    made.2 + 86400 * 1000 ≤ now

/-- How many others have hit the key before the request did. -/
def othersBefore (later : List (LimiterSystem × LimiterAction)) (key : String)
    (request : RequestId) : ℕ :=
  ((hitsOn later key).takeWhile fun made ↦ made.1 ≠ request).length

/-- The request has hit the key, and was told at most how many others came before it and itself. -/
def ToldOf (later : List (LimiterSystem × LimiterAction)) (key : String) (request : RequestId)
    (count : ℤ) : Prop :=
  (∃ made ∈ hitsOn later key, made.1 = request) ∧ count ≤ othersBefore later key request + 1

theorem ToldOf.concat {later : List (LimiterSystem × LimiterAction)} {count : ℤ}
    (h : ToldOf later key request count) (s : LimiterSystem) (action : LimiterAction) :
    ToldOf (later ++ [(s, action)]) key request count := by
  obtain ⟨⟨made, hmem, hmade⟩, hcount⟩ := h
  have hsame : othersBefore (later ++ [(s, action)]) key request = othersBefore later key request := by
    have hstops : ((hitsOn later key).takeWhile fun made ↦ made.1 ≠ request).length ≠
        (hitsOn later key).length := by
      intro heq
      have hall := List.takeWhile_eq_self_iff.mp ((List.takeWhile_prefix _).eq_of_length heq)
      exact of_decide_eq_true (hall made hmem) hmade
    rw [othersBefore, hitsOn_concat, List.takeWhile_append, if_neg hstops, othersBefore]
  refine ⟨⟨made, ?_, hmade⟩, hsame ▸ hcount⟩
  rw [hitsOn_concat]
  exact List.mem_append_left _ hmem

/-- The way of a request that arrived when `later` began. -/
inductive Passing (settings : RateLimitSettings) (later : List (LimiterSystem × LimiterAction))
    (s : LimiterSystem) (scope : String) (request : RequestId) : Prop
  | limiting (todo : List Window) (decisions : List Decision)
      (running : s.procs request = .limiting ⟨scope, todo, decisions⟩)
      (ahead : ∀ window ∈ todo, ∀ made ∈ hitsOn later (rateLimitKey scope window.seconds), made.1 ≠ request)
      (passed : ∀ decision ∈ decisions, ∃ window ∈ windows settings, decision.limit = window.limit ∧
        ToldOf later (rateLimitKey scope window.seconds) request decision.count) :
      Passing settings later s scope request
  | answered (answer : LimiterAnswer) (ended : s.procs request = .answered answer)
      (reason : answer = .admitted ∨ ∃ window ∈ windows settings, ∃ count : ℤ, window.limit < count ∧
        ToldOf later (rateLimitKey scope window.seconds) request count) :
      Passing settings later s scope request

/-- A hit after a silence is told at most how many came since. -/
theorem KeyHistory.told_le {earlier later : List (LimiterSystem × LimiterAction)} {m : LimiterSystem}
    {action : LimiterAction} {new : Hit RequestId}
    (h : KeyHistory (earlier ++ (m, action) :: later) s scope window hits)
    (harrive : m.hitBy action = none) (hwindow : window ∈ windows settings)
    (hsilent : Silent settings earlier m.redis.now scope) (hnow : m.redis.now ≤ s.redis.now)
    (hnew : History window.ms (hits ++ [new])) (htime : new.time = s.redis.now) :
    new.count ≤ (hitsOn later (rateLimitKey scope window.seconds)).length + 1 := by
  have hseconds := (windows_seconds_bounds hwindow).1
  have hms := Window.ms_pos hseconds
  have hday : window.ms ≤ 86400 * 1000 := Nat.mul_le_mul_right 1000 (windows_seconds_bounds hwindow).2
  have hlogged := h.logged
  rw [hitsOn_append_cons harrive] at hlogged
  obtain ⟨before, since, rfl, hbefore, hsince⟩ := List.map_eq_append_iff.mp hlogged
  have hlength : since.length = (hitsOn later (rateLimitKey scope window.seconds)).length := by
    rw [← hsince, List.length_map]
  rw [← hlength]
  refine hnew.count_le_of_silence hms fun old hold ↦ ?_
  have hlife := h.history.alive hms (List.mem_append_left since hold)
  have hquiet := hsilent window hwindow (old.who, old.time)
    (by rw [← hbefore]; exact List.mem_map_of_mem hold)
  dsimp only at hquiet
  omega

theorem Passing.step {later : List (LimiterSystem × LimiterAction)}
    (h : Passing settings later s scope request) (hway : OnTheWay settings s)
    (houtcome : LimiterOutcome rt settings devices s action s') (herror : action.errorFree = true)
    (htold : ∀ window ∈ windows settings, ∀ redis count ttlMs,
      hit s.redis (rateLimitKey scope window.seconds) window.seconds = (redis, count, ttlMs) →
        count ≤ (hitsOn later (rateLimitKey scope window.seconds)).length + 1) :
    Passing settings (later ++ [(s, action)]) s' scope request := by
  cases h with
  | answered answer ended reason =>
    refine .answered answer ?_ (reason.imp_right fun ⟨window, hwindow, count, hcount, hof⟩ ↦
      ⟨window, hwindow, count, hcount, hof.concat s action⟩)
    have hkept {other : RequestId} {next : LimiterProc} (hne : s.procs other ≠ s.procs request) :
        Function.update s.procs other next request = .answered answer := by
      rw [Function.update_of_ne fun heq ↦ hne (congrArg s.procs heq.symm)]
      exact ended
    cases houtcome with
    | arrived other rawDeviceId idle => exact hkept (by rw [idle, ended]; exact nofun)
    | counted other scope' window todo decisions running =>
      exact hkept (by rw [running, ended]; exact nofun)
    | failed => cases herror
    | elapsed ms => exact ended
  | limiting todo decisions running ahead passed =>
    have hpassed : ∀ decision ∈ decisions, ∃ window ∈ windows settings, decision.limit = window.limit ∧
        ToldOf (later ++ [(s, action)]) (rateLimitKey scope window.seconds) request decision.count := by
      intro decision hmem
      obtain ⟨window, hwindow, hlimit, hof⟩ := passed decision hmem
      exact ⟨window, hwindow, hlimit, hof.concat s action⟩
    -- a step of something else
    have hother (hproc : s'.procs request = s.procs request)
        (hmade : ∀ key made, s.hitBy action = some (key, made) → made.1 ≠ request) :
        Passing settings (later ++ [(s, action)]) s' scope request := by
      refine .limiting todo decisions (hproc.trans running) (fun window hwindow made hmem ↦ ?_) hpassed
      exact (mem_hitsOn_concat.mp hmem).elim (ahead window hwindow made) (hmade _ made)
    cases houtcome with
    | arrived other rawDeviceId idle =>
      refine hother (Function.update_of_ne (fun heq ↦ ?_) ..) fun key made hmade ↦ nomatch hmade
      rw [heq, idle] at running
      cases running
    | failed => cases herror
    | elapsed ms => exact hother rfl fun key made hmade ↦ nomatch hmade
    | counted other scope' window rest decisions' running' redis count ttlMs told =>
      have hmade : s.hitBy (.advance other) =
          some (rateLimitKey scope' window.seconds, other, s.redis.now) := by
        simp only [LimiterSystem.hitBy, running']
      by_cases hown : request = other
      · subst hown
        cases running.symm.trans running'
        obtain ⟨_, hsuffix⟩ := hway request _ running
        have hwindow := hsuffix.subset (List.mem_cons_self (a := window) (l := rest))
        have hof : ToldOf (later ++ [(s, .advance request)]) (rateLimitKey scope window.seconds)
            request count := by
          refine ⟨⟨_, mem_hitsOn_concat.mpr (.inr hmade), rfl⟩, ?_⟩
          have hall : (hitsOn later (rateLimitKey scope window.seconds)).takeWhile
              (fun made ↦ made.1 ≠ request) = hitsOn later (rateLimitKey scope window.seconds) := by
            rw [List.takeWhile_eq_self_iff]
            exact fun made hmem ↦ decide_eq_true (ahead window List.mem_cons_self made hmem)
          rw [othersBefore, hitsOn_concat, List.takeWhile_append, hall, if_pos rfl, List.length_append]
          exact_mod_cast (htold window hwindow redis count ttlMs told).trans (by omega)
        have hall : ∀ decision ∈ decisions ++ [⟨count, ttlMs, window.limit⟩], ∃ window ∈ windows settings,
            decision.limit = window.limit ∧
              ToldOf (later ++ [(s, .advance request)]) (rateLimitKey scope window.seconds) request
                decision.count := by
          intro decision hmem
          rcases List.mem_append.mp hmem with hmem | hmem
          · exact hpassed decision hmem
          · cases List.mem_singleton.mp hmem
            exact ⟨window, hwindow, rfl, hof⟩
        have hproc : (({ s with redis := redis } : LimiterSystem).setProc request
            (LimiterRun.next ⟨scope, window :: rest, decisions⟩ rest
              ⟨count, ttlMs, window.limit⟩)).procs request =
              LimiterRun.next ⟨scope, window :: rest, decisions⟩ rest ⟨count, ttlMs, window.limit⟩ :=
          LimiterSystem.setProc_procs ..
        cases rest with
        | nil =>
          refine .answered _ hproc ?_
          by_cases hadmitted : answer (decisions ++ [⟨count, ttlMs, window.limit⟩]) = .admitted
          · exact .inl hadmitted
          · rw [answer_eq_admitted_iff] at hadmitted
            push Not at hadmitted
            obtain ⟨decision, hmem, hexceeded⟩ := hadmitted
            obtain ⟨window', hwindow', hlimit, hof'⟩ := hall decision hmem
            exact .inr ⟨window', hwindow', decision.count, hlimit ▸ hexceeded, hof'⟩
        | cons first rest =>
          refine .limiting (first :: rest) _ hproc (fun window' hwindow' made hmem ↦ ?_) hall
          rcases mem_hitsOn_concat.mp hmem with hmem | hnew
          · exact ahead window' (List.mem_cons_of_mem _ hwindow') made hmem
          · obtain ⟨hkey, _⟩ := Prod.mk.inj (Option.some.inj (hmade.symm.trans hnew))
            obtain ⟨_, rfl⟩ :=
              rateLimitKey_inj hwindow (hsuffix.subset (List.mem_cons_of_mem _ hwindow')) hkey
            exact absurd hwindow' (List.nodup_cons.mp (hsuffix.sublist.nodup (windows_nodup settings))).1
      · refine hother (Function.update_of_ne hown ..) fun key made hnew ↦ ?_
        obtain ⟨_, rfl⟩ := Prod.mk.inj (Option.some.inj (hmade.symm.trans hnew))
        exact fun heq ↦ hown heq.symm

/-! ## Runs -/

/-- A request that goes on is answered after its hits. -/
theorem exec_advance_answered (todo : List Window) (htodo : todo ≠ []) (decisions : List Decision)
    (hrunning : s.procs request = .limiting ⟨scope, todo, decisions⟩) : ∃ s' answer,
      exec (LimiterSystem.step rt settings devices) s
        (List.replicate todo.length (.advance request)) = some s' ∧
        s'.procs request = .answered answer := by
  induction todo generalizing s decisions with
  | nil => exact absurd rfl htodo
  | cons window rest ih =>
    obtain ⟨after, decision, hstep, _, hproc⟩ := LimiterSystem.step_advance rt settings devices hrunning
    rw [List.length_cons, List.replicate_succ, exec, hstep, Option.bind_some]
    cases rest with
    | nil => exact ⟨after, _, rfl, hproc⟩
    | cons first rest => exact ih (List.cons_ne_nil _ _) _ hproc

structure LimiterInv (rt : Runtime) (settings : RateLimitSettings) (devices : Table UUID Device)
    (trace : List (LimiterSystem × LimiterAction)) (s : LimiterSystem) : Prop where
  way : OnTheWay settings s
  counted : ∀ scope, ∀ window ∈ windows settings, ∃ hits, KeyHistory trace s scope window hits
  passing : ∀ earlier m request rawDeviceId later,
    trace = earlier ++ (m, .arrive request rawDeviceId) :: later →
    Silent settings earlier m.redis.now (resolveScope rt devices request.user rawDeviceId) →
      m.redis.now ≤ s.redis.now ∧
        Passing settings later s (resolveScope rt devices request.user rawDeviceId) request

theorem LimiterOutcome.now_le (h : LimiterOutcome rt settings devices s action s') :
    s.redis.now ≤ s'.redis.now := by
  cases h with
  | arrived | failed => exact le_rfl
  | elapsed ms => exact Nat.le_add_right _ _
  | counted request scope window todo decisions running redis count ttlMs told =>
    obtain ⟨counter, _, htold⟩ :=
      exists_hit_eq_set s.redis (rateLimitKey scope window.seconds) window.seconds
    cases told.symm.trans htold
    exact le_rfl

theorem LimiterInv.step (h : LimiterInv rt settings devices trace s) (herror : action.errorFree = true)
    (houtcome : LimiterOutcome rt settings devices s action s') :
    LimiterInv rt settings devices (trace ++ [(s, action)]) s' where
  way := h.way.step houtcome
  counted scope window hwindow := by
    obtain ⟨hits, hcounted⟩ := h.counted scope window hwindow
    obtain ⟨more, hmore⟩ := hcounted.step h.way hwindow houtcome herror
    exact ⟨hits ++ more, hmore⟩
  passing earlier m request rawDeviceId later htrace hsilent := by
    rcases List.eq_nil_or_concat later with rfl | ⟨rest, last, rfl⟩
    · obtain ⟨rfl, heq⟩ := List.append_inj' htrace rfl
      cases heq
      cases houtcome with
      | arrived _ _ idle =>
        refine ⟨le_rfl, .limiting _ _ (LimiterSystem.setProc_procs ..) (fun _ _ made hmem ↦ ?_) nofun⟩
        cases hmem
    · rw [List.concat_eq_append, ← List.cons_append, ← List.append_assoc] at htrace
      obtain ⟨hbefore, heq⟩ := List.append_inj' htrace rfl
      cases heq
      obtain ⟨hnow, hpassing⟩ := h.passing earlier m request rawDeviceId rest hbefore hsilent
      refine ⟨hnow.trans houtcome.now_le, ?_⟩
      rw [List.concat_eq_append]
      refine hpassing.step h.way houtcome herror fun window hwindow redis count ttlMs htold ↦ ?_
      obtain ⟨hits, hcounted⟩ := h.counted _ window hwindow
      obtain ⟨new, _, htime, hhistory, hnew, _⟩ :=
        hcounted.exists_hit (windows_seconds_bounds hwindow).1 request
      cases htold.symm.trans hnew
      rw [hbefore] at hcounted
      exact hcounted.told_le rfl hwindow hsilent hnow hhistory htime

theorem limiterInv_initial (now : ℕ) : LimiterInv rt settings devices [] (.initial now) where
  way request run hrun := nomatch hrun
  counted scope window hwindow := by
    refine ⟨[], .nil, rfl, rfl, nofun, fun born ↦ iff_of_false ?_ ?_, nofun⟩
    · rintro ⟨entry, hmem, _⟩
      cases hmem
    · rintro ⟨hit, hmem, _⟩
      cases hmem
  passing earlier m request rawDeviceId later htrace :=
    absurd htrace.symm (List.append_ne_nil_of_right_ne_nil _ (List.cons_ne_nil _ _))

/-- What the limiter promises in a run: bounds for every window of every scope, an answer for every request,
and after a day of silence an admission unless others fill a window first. -/
structure LimitsKept (rt : Runtime) (settings : RateLimitSettings) (devices : Table UUID Device)
    (trace : List (LimiterSystem × LimiterAction)) (s : LimiterSystem) : Prop where
  window : ∀ scope, ∀ window ∈ windows settings, WindowKept trace s scope window
  answered : ∀ request run, s.procs request = .limiting run → ∃ s' answer,
    exec (LimiterSystem.step rt settings devices) s
      (List.replicate run.todo.length (.advance request)) = some s' ∧
      s'.procs request = .answered answer
  afterSilence : ∀ earlier m request rawDeviceId later answer,
    trace = earlier ++ (m, .arrive request rawDeviceId) :: later →
      Silent settings earlier m.redis.now (resolveScope rt devices request.user rawDeviceId) →
        (∀ window ∈ windows settings, othersBefore later (rateLimitKey (resolveScope rt devices request.user
          rawDeviceId) window.seconds) request < window.limit) →
            s.procs request = .answered answer → answer = .admitted

theorem limits_kept {now : ℕ} (hminute : 1 ≤ settings.parseRateLimit)
    (hdaily : 1 ≤ settings.parseRateLimitDaily)
    (hrun : Run (LimiterSystem.step rt settings devices) (fun _ action ↦ action.errorFree = true)
      (.initial now) trace s) : LimitsKept rt settings devices trace s := by
  have hinv := hrun.trace_invariant (LimiterInv rt settings devices) (limiterInv_initial now)
    fun trace s action s' h herror hstep ↦ h.step herror (LimiterSystem.step_outcome hstep)
  refine ⟨fun scope window hwindow ↦ ?_, fun request run hrunning ↦ ?_,
    fun earlier m request rawDeviceId later answer htrace hsilent hroom hanswer ↦ ?_⟩
  · obtain ⟨hits, hcounted⟩ := hinv.counted scope window hwindow
    refine hcounted.windowKept (windows_seconds_bounds hwindow).1 ?_
    simp only [windows, List.mem_cons, List.not_mem_nil, or_false] at hwindow
    rcases hwindow with rfl | rfl
    · exact hminute
    · exact hdaily
  · exact exec_advance_answered run.todo (hinv.way request run hrunning).1 run.decisions hrunning
  · obtain ⟨_, hpassing⟩ := hinv.passing earlier m request rawDeviceId later htrace hsilent
    cases hpassing with
    | limiting todo decisions running =>
      rw [hanswer] at running
      cases running
    | answered other ended reason =>
      cases hanswer.symm.trans ended
      refine reason.resolve_right ?_
      rintro ⟨window, hwindow, count, hexceeded, _, hcount⟩
      have hfew := hroom window hwindow
      omega

end

/-- One request a minute and a day. -/
def sampleLimits : RateLimitSettings := ⟨1, 1, true⟩

/-- Two requests of one user, of which the first is overtaken on its way to the daily counter. -/
def overtakenRequests : List LimiterAction :=
  [.arrive ⟨⟨1⟩, 0⟩ none, .advance ⟨⟨1⟩, 0⟩, .arrive ⟨⟨1⟩, 1⟩ none, .advance ⟨⟨1⟩, 1⟩,
    .advance ⟨⟨1⟩, 1⟩, .advance ⟨⟨1⟩, 0⟩]

/-- The first request the limiter sees is rejected, since another one hits the daily counter before it. -/
theorem not_admitted_after_silence : ¬ ∀ (rt : Runtime) (settings : RateLimitSettings)
    (devices : Table UUID Device) (now : ℕ) (trace earlier : List (LimiterSystem × LimiterAction))
    (s m : LimiterSystem) (request : RequestId) (rawDeviceId : Option String)
    (later : List (LimiterSystem × LimiterAction)) (answer : LimiterAnswer),
    1 ≤ settings.parseRateLimit → 1 ≤ settings.parseRateLimitDaily →
      Run (LimiterSystem.step rt settings devices) (fun _ action ↦ action.errorFree = true)
          (.initial now) trace s →
        trace = earlier ++ (m, .arrive request rawDeviceId) :: later →
          (∀ entry ∈ earlier, entry.1.redis.now + 86400 * 1000 ≤ m.redis.now) →
            s.procs request = .answered answer → answer = .admitted := by
  intro hclaim
  have hexec : (exec (LimiterSystem.step .ascii sampleLimits ∅) (.initial 0) overtakenRequests).map (fun s ↦
      (s.procs ⟨⟨1⟩, 0⟩).answer?) = some (some (.raised (.rateLimited 86400))) := by
    decide +kernel
  obtain ⟨s, hs, hanswer⟩ := Option.map_eq_some_iff.mp hexec
  have herrors : ∀ action ∈ overtakenRequests, action.errorFree = true := by decide
  have hrun := run_of_exec_of_forall hs herrors
  cases hproc : s.procs ⟨⟨1⟩, 0⟩ with
  | idle | limiting run =>
    rw [hproc] at hanswer
    cases hanswer
  | answered answer =>
    have hadmitted := hclaim .ascii sampleLimits ∅ 0 _ [] s _ ⟨⟨1⟩, 0⟩ none _ answer le_rfl
      le_rfl hrun rfl nofun hproc
    rw [hproc, hadmitted] at hanswer
    cases hanswer

/-- The first request is alone until it is answered. -/
theorem limits_kept_sample : ∃ trace s, (s.procs ⟨⟨1⟩, 0⟩).answer? = some .admitted ∧
    (s.procs ⟨⟨1⟩, 1⟩).answer? = some (.raised (.rateLimited 60)) ∧
      LimitsKept .ascii sampleLimits ∅ trace s := by
  let actions : List LimiterAction := [.arrive ⟨⟨1⟩, 0⟩ none, .advance ⟨⟨1⟩, 0⟩, .advance ⟨⟨1⟩, 0⟩,
    .arrive ⟨⟨1⟩, 1⟩ none, .advance ⟨⟨1⟩, 1⟩, .advance ⟨⟨1⟩, 1⟩]
  have hexec : (exec (LimiterSystem.step .ascii sampleLimits ∅) (.initial 0) actions).map (fun s ↦
      ((s.procs ⟨⟨1⟩, 0⟩).answer?, (s.procs ⟨⟨1⟩, 1⟩).answer?)) =
        some (some .admitted, some (.raised (.rateLimited 60))) := by
    decide +kernel
  obtain ⟨s, hs, hanswers⟩ := Option.map_eq_some_iff.mp hexec
  obtain ⟨hfirst, hsecond⟩ := Prod.mk.inj hanswers
  have herrors : ∀ action ∈ actions, action.errorFree = true := by decide
  have hrun := run_of_exec_of_forall hs herrors
  exact ⟨_, s, hfirst, hsecond, limits_kept le_rfl le_rfl hrun⟩

end VoiceSpend
