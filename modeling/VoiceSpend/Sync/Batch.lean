import Mathlib.Data.List.Induction
import VoiceSpend.Sync.Schema

/-!
# One batch, before the database writes

`push_sync` fills `rejects`, `parsed` and `order` in one loop over the raw records and then
filters `parsed` by device and row ownership. Dictionaries that are only looked up are
functions; `parsed`, which is iterated, is the list of its values in insertion order.

What the first loop does to one id depends only on the batch's copies of that id. `Verdict`
names the four possible results and `scan_verdict` computes it from the copies alone.
-/

namespace VoiceSpend

/-- What one raw record is to the loop. -/
inductive Entry
  | unusable
  | invalid (id : UUID) (reason : String)
  | valid (record : ExpenseSyncIn)

/-- The id a result can be keyed on. -/
def Entry.id? : Entry → Option UUID
  | .unusable => none
  | .invalid id _ => some id
  | .valid record => some record.id

def Entry.record? : Entry → Option ExpenseSyncIn
  | .valid record => some record
  | _ => none

/-- Validate a raw record, or find an id for its error: `UUID(str(raw.get("id")))`. -/
def classify (rt : Runtime) (raw : RawRecord) : Entry :=
  match modelValidate rt raw with
  | .ok record => .valid record
  | .error errors =>
    match rt.uuid (rt.str ((raw.lookup ("id" : Text)).getD .null)) with
    | none => .unusable
    | some id => .invalid id (firstErrorReason errors)

/-- The id that can be parsed from a raw record. -/
def recordId (rt : Runtime) (raw : RawRecord) : Option UUID := (classify rt raw).id?

/-- The three collections of the loop. -/
structure Scan where
  rejects : UUID → Option String
  parsed : List ExpenseSyncIn
  order : List UUID

namespace Scan

def empty : Scan := ⟨fun _ ↦ none, [], []⟩

/-- `id in parsed`. -/
def inParsed (s : Scan) (id : UUID) : Bool := s.parsed.any (·.id = id)

def duplicateReason : String := "duplicate id in batch"

/-- `rejects[id] = reason`. -/
def reject (s : Scan) (id : UUID) (reason : String) : Scan :=
  { s with rejects := Function.update s.rejects id (some reason) }

/-- One iteration over the raw records. -/
def entry (s : Scan) : Entry → Scan
  | .unusable => s
  | .invalid id reason =>
    if (s.rejects id).isNone ∧ s.inParsed id = false then
      { s.reject id reason with order := s.order ++ [id] }
    else s
  | .valid record =>
    if s.inParsed record.id ∨ (s.rejects record.id).isSome then
      -- `rejects.setdefault`: an earlier reason stays
      if (s.rejects record.id).isSome then s else s.reject record.id duplicateReason
    else { s with parsed := s.parsed ++ [record], order := s.order ++ [record.id] }

end Scan

/-- The first loop over a batch. -/
def scan (entries : List Entry) : Scan := entries.foldl Scan.entry Scan.empty

/-- The records of a batch that carry one id, in order. -/
def copies (entries : List Entry) (id : UUID) : List Entry := entries.filter (·.id? = some id)

/-- What the first loop makes of one id. -/
inductive Verdict
  | unseen
  | rejected (reason : String)
  | kept (record : ExpenseSyncIn)
  | duplicated (record : ExpenseSyncIn)

namespace Verdict

def next : Verdict → Entry → Verdict
  | unseen, .invalid _ reason => rejected reason
  | unseen, .valid record => kept record
  | kept record, .valid _ => duplicated record
  | verdict, _ => verdict

/-- The record of this id that `parsed` holds. -/
def record? : Verdict → Option ExpenseSyncIn
  | kept record | duplicated record => some record
  | _ => none

/-- The reason `rejects` holds for this id. -/
def reason? : Verdict → Option String
  | rejected reason => some reason
  | duplicated _ => some Scan.duplicateReason
  | _ => none

def seen : Verdict → Bool
  | unseen => false
  | _ => true

end Verdict

/-- The verdict on one id, from its copies alone. -/
def verdict (entries : List Entry) (id : UUID) : Verdict :=
  (copies entries id).foldl Verdict.next .unseen

theorem scan_concat (entries : List Entry) (e : Entry) :
    scan (entries ++ [e]) = (scan entries).entry e := by
  unfold scan
  rw [List.foldl_append]
  rfl

theorem verdict_concat (entries : List Entry) (e : Entry) (id : UUID) :
    verdict (entries ++ [e]) id =
      if e.id? = some id then (verdict entries id).next e else verdict entries id := by
  unfold verdict copies
  rw [List.filter_append, List.foldl_append]
  by_cases h : e.id? = some id
  · simp [h]
  · simp [h]

theorem any_record?_iff {rest : List Entry} :
    rest.any (·.record?.isSome) = true ↔ ∃ other, Entry.valid other ∈ rest := by
  rw [List.any_eq_true]
  constructor
  · rintro ⟨e, hmem, hsome⟩
    cases e with
    | valid other => exact ⟨other, hmem⟩
    | unusable | invalid => cases hsome
  · rintro ⟨other, hmem⟩
    exact ⟨_, hmem, rfl⟩

namespace Verdict

theorem foldl_next_rejected (reason : String) (rest : List Entry) :
    rest.foldl next (rejected reason) = rejected reason := by
  induction rest with
  | nil => rfl
  | cons e rest ih => exact ih

theorem foldl_next_duplicated (record : ExpenseSyncIn) (rest : List Entry) :
    rest.foldl next (duplicated record) = duplicated record := by
  induction rest with
  | nil => rfl
  | cons e rest ih => exact ih

theorem foldl_next_kept (record : ExpenseSyncIn) (rest : List Entry) :
    rest.foldl next (kept record) =
      if rest.any (·.record?.isSome) then duplicated record else kept record := by
  induction rest with
  | nil => rfl
  | cons e rest ih =>
    rw [List.foldl_cons, List.any_cons]
    cases e with
    | valid other => exact foldl_next_duplicated record rest
    | unusable | invalid => exact ih

end Verdict

/-- The copies of an id all carry it. -/
theorem id?_of_mem_copies {entries : List Entry} {id : UUID} {e : Entry} (h : e ∈ copies entries id) :
    e.id? = some id := by
  simpa using (List.mem_filter.mp h).2

theorem valid_mem_iff {rt : Runtime} {batch : List RawRecord} {record : ExpenseSyncIn} :
    Entry.valid record ∈ batch.map (classify rt) ↔ ∃ raw ∈ batch, modelValidate rt raw = .ok record := by
  rw [List.mem_map]
  constructor
  · rintro ⟨raw, hraw, hclass⟩
    refine ⟨raw, hraw, ?_⟩
    unfold classify at hclass
    split at hclass
    · rename_i heq
      cases hclass
      exact heq
    · split at hclass <;> cases hclass
  · rintro ⟨raw, hraw, hok⟩
    exact ⟨raw, hraw, by unfold classify; rw [hok]⟩

theorem valid_mem_copies {record : ExpenseSyncIn} {entries : List Entry} {id : UUID} :
    Entry.valid record ∈ copies entries id ↔ Entry.valid record ∈ entries ∧ record.id = id := by
  simp [copies, Entry.id?]

/-- A valid first copy is kept, and called a duplicate when a later copy is valid too. -/
theorem verdict_of_copies {entries : List Entry} {id : UUID} {record : ExpenseSyncIn} {rest : List Entry}
    (h : copies entries id = .valid record :: rest) :
    verdict entries id =
      if rest.any (·.record?.isSome) then .duplicated record else .kept record := by
  unfold verdict
  rw [h, List.foldl_cons]
  exact Verdict.foldl_next_kept record rest

theorem copies_of_verdict {entries : List Entry} {id : UUID} {record : ExpenseSyncIn}
    (h : (verdict entries id).record? = some record) :
    ∃ rest, copies entries id = .valid record :: rest := by
  cases hcopies : copies entries id with
  | nil => simp [verdict, hcopies, Verdict.record?] at h
  | cons e rest =>
    have hid : e.id? = some id := id?_of_mem_copies (by rw [hcopies]; exact List.mem_cons_self)
    cases e with
    | unusable => cases hid
    | invalid other reason =>
      rw [verdict, hcopies, List.foldl_cons, show Verdict.next .unseen _ = .rejected reason from rfl,
        Verdict.foldl_next_rejected] at h
      cases h
    | valid first =>
      rw [verdict_of_copies hcopies] at h
      refine ⟨rest, ?_⟩
      split at h <;> cases h <;> rfl

/-- A scan agrees with the verdicts on every id. -/
structure Scan.Agrees (s : Scan) (verdictOf : UUID → Verdict) : Prop where
  rejects : ∀ id, s.rejects id = (verdictOf id).reason?
  parsed : ∀ id, s.parsed.find? (·.id = id) = (verdictOf id).record?
  order : ∀ id, id ∈ s.order ↔ (verdictOf id).seen = true

theorem Scan.Agrees.inParsed {s : Scan} {verdictOf : UUID → Verdict} (h : s.Agrees verdictOf)
    (id : UUID) : s.inParsed id = (verdictOf id).record?.isSome := by
  rw [← h.parsed id]
  unfold Scan.inParsed
  rw [Bool.eq_iff_iff, List.find?_isSome, List.any_eq_true]

/-- One iteration of the loop is one step of the verdict on the entry's id. -/
theorem Scan.Agrees.entry {s : Scan} {entries : List Entry} (h : s.Agrees (verdict entries))
    (e : Entry) : (s.entry e).Agrees (verdict (entries ++ [e])) := by
  have hstep := verdict_concat entries e
  cases e with
  | unusable =>
    have hsame : verdict (entries ++ [.unusable]) = verdict entries :=
      funext fun id ↦ by rw [hstep]; simp [Entry.id?]
    rw [hsame]
    exact h
  | invalid id reason =>
    simp only [Scan.entry, h.inParsed, h.rejects]
    cases hv : verdict entries id with
    | unseen =>
      rw [if_pos (by simp [Verdict.reason?, Verdict.record?])]
      refine ⟨fun other ↦ ?_, fun other ↦ ?_, fun other ↦ ?_⟩ <;> by_cases hid : other = id
      · subst hid; simp [Scan.reject, hstep, Entry.id?, hv, Verdict.next, Verdict.reason?]
      · simp [Scan.reject, hstep, Entry.id?, Ne.symm hid, hid, h.rejects]
      · subst hid; simp [Scan.reject, hstep, Entry.id?, hv, Verdict.next, Verdict.record?, h.parsed]
      · simp [Scan.reject, hstep, Entry.id?, Ne.symm hid, h.parsed]
      · subst hid; simp [hstep, Entry.id?, hv, Verdict.next, Verdict.seen]
      · simp [hstep, Entry.id?, Ne.symm hid, hid, h.order]
    | rejected | kept | duplicated =>
      have hsame : verdict (entries ++ [.invalid id reason]) = verdict entries := by
        funext other
        rw [hstep]
        by_cases hid : other = id
        · subst hid; simp [Entry.id?, hv, Verdict.next]
        · simp [Entry.id?, Ne.symm hid]
      rw [if_neg (by simp [Verdict.reason?, Verdict.record?]), hsame]
      exact h
  | valid record =>
    simp only [Scan.entry, h.inParsed, h.rejects]
    cases hv : verdict entries record.id with
    | unseen =>
      rw [if_neg (by simp [Verdict.reason?, Verdict.record?])]
      refine ⟨fun other ↦ ?_, fun other ↦ ?_, fun other ↦ ?_⟩ <;> by_cases hid : other = record.id
      · subst hid; simp [hstep, Entry.id?, hv, Verdict.next, Verdict.reason?, h.rejects]
      · simp [hstep, Entry.id?, Ne.symm hid, h.rejects]
      · subst hid; simp [hstep, Entry.id?, hv, Verdict.next, Verdict.record?, h.parsed]
      · simp [hstep, Entry.id?, Ne.symm hid, h.parsed]
      · subst hid; simp [hstep, Entry.id?, hv, Verdict.next, Verdict.seen]
      · simp [hstep, Entry.id?, Ne.symm hid, hid, h.order]
    | kept first =>
      rw [if_pos (by simp [Verdict.record?]), if_neg (by simp [Verdict.reason?])]
      refine ⟨fun other ↦ ?_, fun other ↦ ?_, fun other ↦ ?_⟩ <;> by_cases hid : other = record.id
      · subst hid; simp [Scan.reject, hstep, Entry.id?, hv, Verdict.next, Verdict.reason?]
      · simp [Scan.reject, hstep, Entry.id?, Ne.symm hid, hid, h.rejects]
      · subst hid; simp [Scan.reject, hstep, Entry.id?, hv, Verdict.next, Verdict.record?, h.parsed]
      · simp [Scan.reject, hstep, Entry.id?, Ne.symm hid, h.parsed]
      · subst hid; simp [Scan.reject, hstep, Entry.id?, hv, Verdict.next, Verdict.seen, h.order]
      · simp [Scan.reject, hstep, Entry.id?, Ne.symm hid, h.order]
    | rejected | duplicated =>
      have hsame : verdict (entries ++ [.valid record]) = verdict entries := by
        funext other
        rw [hstep]
        by_cases hid : other = record.id
        · subst hid; simp [Entry.id?, hv, Verdict.next]
        · simp [Entry.id?, Ne.symm hid]
      rw [if_pos (by simp [Verdict.reason?]), if_pos (by simp [Verdict.reason?]), hsame]
      exact h

/-- The first loop computes the verdict on every id. -/
theorem scan_verdict (entries : List Entry) : (scan entries).Agrees (verdict entries) := by
  induction entries using List.reverseRecOn with
  | nil =>
    exact ⟨fun _ ↦ rfl, fun _ ↦ rfl, fun _ ↦ by
      simp [scan, Scan.empty, verdict, copies, Verdict.seen]⟩
  | append_singleton entries e ih =>
    rw [scan_concat]
    exact ih.entry e

/-- The order collected by one iteration. -/
theorem Scan.Agrees.entry_order {s : Scan} {entries : List Entry} (h : s.Agrees (verdict entries))
    (e : Entry) :
    (s.entry e).order = match e.id? with
      | none => s.order
      | some id => if id ∈ s.order then s.order else s.order ++ [id] := by
  cases e with
  | unusable => rfl
  | invalid id reason =>
    simp only [Scan.entry, h.inParsed, h.rejects, Entry.id?, h.order]
    cases verdict entries id <;> simp [Verdict.reason?, Verdict.record?, Verdict.seen]
  | valid record =>
    simp only [Scan.entry, h.inParsed, h.rejects, Entry.id?, h.order]
    cases verdict entries record.id <;>
      simp [Verdict.reason?, Verdict.record?, Verdict.seen, Scan.reject]

/-- `order` lists every parsable id once, by first appearance. -/
theorem scan_order (entries : List Entry) :
    (scan entries).order = (entries.filterMap Entry.id?).eraseDups := by
  induction entries using List.reverseRecOn with
  | nil => rfl
  | append_singleton entries e ih =>
    rw [scan_concat, (scan_verdict entries).entry_order e, ih, List.filterMap_append]
    cases hid : e.id? with
    | none => simp [hid]
    | some id =>
      rw [show List.filterMap Entry.id? [e] = [id] by simp [hid], List.eraseDups_append]
      dsimp only
      generalize List.filterMap Entry.id? entries = earlier
      by_cases hmem : id ∈ earlier
      · rw [if_pos (List.mem_eraseDups.mpr hmem)]
        simp [List.removeAll, hmem]
      · rw [if_neg (fun h ↦ hmem (List.mem_eraseDups.mp h))]
        simp [List.removeAll, hmem, List.eraseDups_cons]

theorem scan_order_nodup (entries : List Entry) : (scan entries).order.Nodup := by
  induction entries using List.reverseRecOn with
  | nil => exact List.nodup_nil
  | append_singleton entries e ih =>
    rw [scan_concat, (scan_verdict entries).entry_order e]
    cases e.id? with
    | none => exact ih
    | some id =>
      dsimp only
      split
      · exact ih
      · rename_i hnot
        exact List.nodup_append.mpr ⟨ih, List.nodup_singleton id, by
          intro a ha b hb heq
          rw [List.mem_singleton.mp hb] at heq
          exact hnot (heq ▸ ha)⟩

/-- `parsed` is keyed by id. -/
theorem scan_parsed_nodup (entries : List Entry) :
    ((scan entries).parsed.map ExpenseSyncIn.id).Nodup := by
  induction entries using List.reverseRecOn with
  | nil => exact List.nodup_nil
  | append_singleton entries e ih =>
    rw [scan_concat]
    cases e with
    | unusable => exact ih
    | invalid id reason =>
      simp only [Scan.entry]
      split <;> exact ih
    | valid record =>
      simp only [Scan.entry]
      split
      · split <;> exact ih
      · rename_i hfresh
        rw [List.map_append]
        refine List.nodup_append.mpr ⟨ih, List.nodup_singleton _, ?_⟩
        intro a ha b hb heq
        obtain ⟨other, hother, rfl⟩ := List.mem_map.mp ha
        rw [List.map_singleton, List.mem_singleton] at hb
        have hin : (scan entries).inParsed record.id = true :=
          List.any_eq_true.mpr ⟨other, hother, by simp [heq, hb]⟩
        exact hfresh (Or.inl hin)

theorem find?_parsed {entries : List Entry} {record : ExpenseSyncIn} (hmem : record ∈ (scan entries).parsed) :
    (scan entries).parsed.find? (·.id = record.id) = some record := by
  have hsome : ((scan entries).parsed.find? (·.id = record.id)).isSome :=
    List.find?_isSome.mpr ⟨record, hmem, by simp⟩
  obtain ⟨other, hother⟩ := Option.isSome_iff_exists.mp hsome
  have hid : other.id = record.id := by simpa using List.find?_some hother
  have heq := List.inj_on_of_nodup_map (scan_parsed_nodup entries) (List.mem_of_find?_eq_some hother) hmem hid
  rw [hother, heq]

theorem mem_order_of_mem_parsed {entries : List Entry} {record : ExpenseSyncIn}
    (hmem : record ∈ (scan entries).parsed) : record.id ∈ (scan entries).order := by
  have hfind := find?_parsed hmem
  rw [(scan_verdict entries).parsed] at hfind
  rw [(scan_verdict entries).order]
  cases hverdict : verdict entries record.id with
  | unseen | rejected => simp [hverdict, Verdict.record?] at hfind
  | kept | duplicated => rfl

/-- A batch of valid records with distinct ids is kept as it is. -/
theorem scan_valid {records : List ExpenseSyncIn} (hnodup : (records.map ExpenseSyncIn.id).Nodup) :
    scan (records.map Entry.valid) = ⟨fun _ ↦ none, records, records.map (·.id)⟩ := by
  induction records using List.reverseRecOn with
  | nil => rfl
  | append_singleton records record ih =>
    rw [List.map_append, List.map_singleton, List.nodup_append] at hnodup
    have hfresh : (⟨fun _ ↦ none, records, records.map (·.id)⟩ : Scan).inParsed record.id = false := by
      rw [Scan.inParsed, List.any_eq_false]
      intro other hother heq
      exact hnodup.2.2 other.id (List.mem_map_of_mem hother) record.id (List.mem_singleton_self _)
        (of_decide_eq_true heq)
    rw [List.map_append, List.map_singleton, scan_concat, ih hnodup.1, List.map_append]
    simp only [Scan.entry, hfresh]
    rfl

end VoiceSpend
