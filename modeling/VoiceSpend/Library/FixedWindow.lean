import Mathlib.Data.List.Perm.Subperm
import Mathlib.Data.List.Range

/-!
# Fixed-window counters

A counter is born at its first hit with the count 1, lives for `width` units of time and counts every
hit in its life; the first hit after its end gives birth to the next one. `History` is the list of all
hits in order, each with the count it was told. A limit on the counts bounds how many hits of one life
are within the limit, and twice the limit bounds them in any interval as long as a life.
-/

namespace VoiceSpend.FixedWindow

variable {ρ : Type*} {width limit start : ℕ}

/-- A hit, the birth of the counter it fell on, and the count after it. -/
structure Hit (ρ : Type*) where
  who : ρ
  time : ℕ
  birth : ℕ
  count : ℕ

/-- All hits so far, oldest first. -/
inductive History (width : ℕ) : List (Hit ρ) → Prop
  | nil : History width []
  | opened {hits : List (Hit ρ)} (who : ρ) (time : ℕ) (before : History width hits)
      (ended : ∀ last ∈ hits.getLast?, last.birth + width ≤ time) :
      History width (hits ++ [⟨who, time, time, 1⟩])
  | counted {hits : List (Hit ρ)} (who : ρ) (time : ℕ) (before : History width hits) (last : Hit ρ)
      (latest : last ∈ hits.getLast?) (later : last.time ≤ time) (alive : time < last.birth + width) :
      History width (hits ++ [⟨who, time, last.birth, last.count + 1⟩])

/-- `first` comes before `second`, in the life of the same counter or of an earlier one. -/
def Precedes (width : ℕ) (first second : Hit ρ) : Prop :=
  (first.birth = second.birth ∧ first.count < second.count) ∨ first.birth + width ≤ second.birth

theorem Precedes.trans {first second third : Hit ρ} (h : Precedes width first second)
    (h' : Precedes width second third) : Precedes width first third := by
  unfold Precedes at *
  omega

variable {hits kept : List (Hit ρ)} {hit last : Hit ρ}

/-- Every hit falls in the life of its counter. -/
theorem History.alive (h : History width hits) (hwidth : 0 < width) (hmem : hit ∈ hits) :
    hit.birth ≤ hit.time ∧ hit.time < hit.birth + width ∧ 1 ≤ hit.count := by
  induction h generalizing hit with
  | nil => cases hmem
  | opened who time before ended ih =>
    rcases List.mem_append.mp hmem with hmem | hmem
    · exact ih hmem
    · cases List.mem_singleton.mp hmem
      exact ⟨le_rfl, Nat.lt_add_of_pos_right hwidth, le_rfl⟩
  | counted who time before last latest later alive ih =>
    rcases List.mem_append.mp hmem with hmem | hmem
    · exact ih hmem
    · cases List.mem_singleton.mp hmem
      exact ⟨(ih (List.mem_of_getLast? (Option.mem_def.mp latest))).1.trans later, alive,
        Nat.le_add_left 1 last.count⟩

/-- The hits stand in the order of the counters and of their counts. -/
theorem History.pairwise (h : History width hits) : hits.Pairwise (Precedes width) := by
  have hextend {hits : List (Hit ρ)} {new : Hit ρ} (hpairs : hits.Pairwise (Precedes width))
      (hnew : ∀ last ∈ hits.getLast?, Precedes width last new) :
      (hits ++ [new]).Pairwise (Precedes width) := by
    rw [List.pairwise_append]
    refine ⟨hpairs, List.pairwise_singleton _ _, fun old hold other hother ↦ ?_⟩
    cases List.mem_singleton.mp hother
    rcases List.eq_nil_or_concat hits with rfl | ⟨rest, last, rfl⟩
    · cases hold
    rw [List.concat_eq_append] at hpairs hold hnew
    have hlast := hnew last List.getLast?_concat
    rcases List.mem_append.mp hold with hold | hold
    · exact ((List.pairwise_append.mp hpairs).2.2 old hold last (List.mem_singleton_self _)).trans hlast
    · cases List.mem_singleton.mp hold
      exact hlast
  induction h with
  | nil => exact List.Pairwise.nil
  | opened who time before ended ih => exact hextend ih fun last hlast ↦ .inr (ended last hlast)
  | counted who time before last latest later alive ih =>
    refine hextend ih fun other hother ↦ .inl ?_
    cases Option.mem_unique hother latest
    exact ⟨rfl, Nat.lt_succ_self _⟩

/-- Two counters of one history are the same or a life apart. -/
theorem History.birth_eq_or (h : History width hits) {first second : Hit ρ} (hfirst : first ∈ hits)
    (hsecond : second ∈ hits) :
    first.birth = second.birth ∨ first.birth + width ≤ second.birth ∨
    second.birth + width ≤ first.birth := by
  refine List.Pairwise.forall_of_forall_of_flip (R := fun first second ↦ first.birth = second.birth ∨
    first.birth + width ≤ second.birth ∨ second.birth + width ≤ first.birth) ?_ ?_ ?_ hfirst hsecond
  · exact fun _ _ ↦ .inl rfl
  · exact h.pairwise.imp fun hpair ↦ hpair.elim (fun hsame ↦ .inl hsame.1) fun hless ↦ .inr (.inl hless)
  · exact h.pairwise.imp fun hpair ↦ hpair.elim (fun hsame ↦ .inl hsame.1.symm) fun hless ↦
      .inr (.inr hless)

/-! ## Hits within the limit -/

/-- Of the hits on one counter, at most `limit` are told a count within it. -/
theorem History.length_le_of_birth (h : History width hits) (hwidth : 0 < width)
    (hkept : kept.Sublist hits) (hcount : ∀ hit ∈ kept, hit.count ≤ limit) (birth : ℕ)
    (hbirth : ∀ hit ∈ kept, hit.birth = birth) : kept.length ≤ limit := by
  have hincreasing : (kept.map (·.count)).Pairwise (· < ·) := by
    rw [List.pairwise_map]
    refine (h.pairwise.sublist hkept).imp_of_mem fun hfirst hsecond hpair ↦ ?_
    have hsame := (hbirth _ hfirst).trans (hbirth _ hsecond).symm
    unfold Precedes at hpair
    omega
  have hcounts : kept.map (·.count) ⊆ List.range' 1 limit := by
    intro count hmem
    obtain ⟨hit, hhit, rfl⟩ := List.mem_map.mp hmem
    have hpos := (h.alive hwidth (hkept.subset hhit)).2.2
    have hle := hcount hit hhit
    rw [List.mem_range'_1]
    omega
  calc kept.length
      = (kept.map (·.count)).length := (List.length_map _).symm
    _ ≤ (List.range' 1 limit).length :=
        (List.subperm_of_subset (hincreasing.imp Nat.ne_of_lt) hcounts).length_le
    _ = limit := List.length_range'

/-- The same for the hits in the life of a counter that was born at `birth`. -/
theorem History.length_le_of_life (h : History width hits) (hwidth : 0 < width)
    (hkept : kept.Sublist hits) (hcount : ∀ hit ∈ kept, hit.count ≤ limit) (hborn : hit ∈ hits)
    (hlife : ∀ other ∈ kept, hit.birth ≤ other.time ∧ other.time < hit.birth + width) :
    kept.length ≤ limit := by
  refine h.length_le_of_birth hwidth hkept hcount hit.birth fun other hother ↦ ?_
  have halive := h.alive hwidth (hkept.subset hother)
  have hapart := h.birth_eq_or (hkept.subset hother) hborn
  have hwithin := hlife other hother
  omega

/-- An interval as long as a life meets at most two lives. -/
theorem History.length_le_of_interval (h : History width hits) (hwidth : 0 < width)
    (hkept : kept.Sublist hits) (hcount : ∀ hit ∈ kept, hit.count ≤ limit)
    (hinterval : ∀ hit ∈ kept, start ≤ hit.time ∧ hit.time < start + width) :
    kept.length ≤ 2 * limit := by
  -- of the counters alive in the interval, one may be born by its start and one later
  let early (hit : Hit ρ) : Bool := hit.birth ≤ start
  have hpart (part : List (Hit ρ)) (hpart : part.Sublist kept)
      (hside : (∀ hit ∈ part, hit.birth ≤ start) ∨ ∀ hit ∈ part, start < hit.birth) :
      part.length ≤ limit := by
    rcases part with _ | ⟨first, rest⟩
    · exact Nat.zero_le limit
    have hmem {hit : Hit ρ} (hhit : hit ∈ first :: rest) : hit ∈ hits :=
      hkept.subset (hpart.subset hhit)
    have hfirst := List.mem_cons_self (a := first) (l := rest)
    refine h.length_le_of_birth hwidth (hpart.trans hkept)
      (fun hit hhit ↦ hcount hit (hpart.subset hhit))
      first.birth fun hit hhit ↦ ?_
    have hapart := h.birth_eq_or (hmem hhit) (hmem hfirst)
    have halive := h.alive hwidth (hmem hhit)
    have halive' := h.alive hwidth (hmem hfirst)
    have hwithin := hinterval hit (hpart.subset hhit)
    have hwithin' := hinterval first (hpart.subset hfirst)
    rcases hside with hside | hside <;> have := hside hit hhit <;> have := hside first hfirst <;> omega
  have hearly : (kept.filter early).length ≤ limit := by
    refine hpart _ List.filter_sublist (.inl fun hit hhit ↦ ?_)
    exact of_decide_eq_true (List.mem_filter.mp hhit).2
  have hlate : (kept.filter fun hit ↦ !early hit).length ≤ limit := by
    refine hpart _ List.filter_sublist (.inr fun hit hhit ↦ ?_)
    have h := (List.mem_filter.mp hhit).2
    exact not_le.mp (of_decide_eq_false (Bool.not_eq_true' _ ▸ h))
  calc kept.length
      = (kept.filter early).length + (kept.filter fun hit ↦ !early hit).length :=
        List.length_eq_length_filter_add early
    _ ≤ limit + limit := Nat.add_le_add hearly hlate
    _ = 2 * limit := (Nat.two_mul limit).symm

/-! ## After a silence -/

/-- The last count is the number of hits on its counter. -/
theorem History.count_eq (h : History width hits) (hwidth : 0 < width) (hlast : last ∈ hits.getLast?) :
    last.count = (hits.filter fun hit ↦ hit.birth = last.birth).length := by
  have hpairs := h.pairwise
  induction h generalizing last with
  | nil => cases hlast
  | @opened hits who time before ended ih =>
    rw [List.getLast?_concat] at hlast
    cases hlast
    have hnone : hits.filter (fun hit ↦ decide (hit.birth = time)) = [] := by
      rw [List.filter_eq_nil_iff]
      intro hit hmem hsame
      have hpair := (List.pairwise_append.mp hpairs).2.2 hit hmem _ (List.mem_singleton_self _)
      have hpos := (before.alive hwidth hmem).2.2
      have hsame := of_decide_eq_true hsame
      unfold Precedes at hpair
      dsimp only at hpair
      omega
    rw [List.filter_append, hnone, List.filter_singleton, decide_eq_true rfl]
    rfl
  | @counted hits who time before latest islast later alive ih =>
    rw [List.getLast?_concat] at hlast
    cases hlast
    rw [List.filter_append, List.filter_singleton, decide_eq_true rfl, List.length_append,
      ih islast (List.pairwise_append.mp hpairs).1]
    rfl

/-- After a silence in which every older counter ends, a hit is told at most how many came since. -/
theorem History.count_le_of_silence {before since : List (Hit ρ)}
    (h : History width (before ++ since ++ [hit])) (hwidth : 0 < width)
    (hsilent : ∀ old ∈ before, old.birth + width ≤ hit.time) : hit.count ≤ since.length + 1 := by
  have hended : before.filter (fun old ↦ decide (old.birth = hit.birth)) = [] := by
    rw [List.filter_eq_nil_iff]
    intro old hold hsame
    have halive := h.alive hwidth (List.mem_append_right _ (List.mem_singleton_self hit))
    have hsilent := hsilent old hold
    have hsame := of_decide_eq_true hsame
    omega
  calc hit.count
      = ((before ++ since ++ [hit]).filter fun other ↦ other.birth = hit.birth).length :=
        h.count_eq hwidth List.getLast?_concat
    _ = ((since ++ [hit]).filter fun other ↦ other.birth = hit.birth).length := by
        rw [List.append_assoc, List.filter_append, hended, List.nil_append]
    _ ≤ (since ++ [hit]).length := List.length_filter_le _ _
    _ = since.length + 1 := List.length_append

end VoiceSpend.FixedWindow
