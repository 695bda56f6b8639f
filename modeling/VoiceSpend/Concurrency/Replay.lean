import VoiceSpend.Concurrency.Serial
import VoiceSpend.Sync.Replay

/-!
# Replaying an earlier batch

No statement of any transaction lowers the revision of a row. A push that reported no record as
rejected found or left, under every id of its batch, a row of that record's revision or a later
one, so in every later state each of its records is superseded.
-/

namespace VoiceSpend

open Machine

/-- The transaction sees a row of this revision or a later one. -/
def SyncSystem.Reaches (s : SyncSystem) (t : ℕ) (id : UUID) (rev : ℕ) : Prop :=
  ∃ row, s.expenses.visible t id = some row ∧ rev ≤ row.client.clientRev

/-- There is a committed row of this revision or a later one. -/
def SyncSystem.Stored (s : SyncSystem) (id : UUID) (rev : ℕ) : Prop :=
  ∃ row, s.expenses.committed.lookup id = some row ∧ rev ≤ row.client.clientRev

/-- No open version is behind the committed row it replaces. -/
def Ascending (s : SyncSystem) : Prop :=
  ∀ t id draft, (s.expenses.drafts t).lookup id = some draft → ∀ row,
    s.expenses.committed.lookup id = some row → row.client.clientRev ≤ draft.client.clientRev

/-- A statement that writes a row does not lower its revision. -/
def Effect.Ascends (s : SyncSystem) (t : ℕ) (effect : Effect) : Prop :=
  ∀ id row next, effect = .insert id row next ∨ effect = .update id row next → ∀ old,
    s.expenses.visible t id = some old → old.client.clientRev ≤ row.client.clientRev

/-- What a push has found out and written before it commits. -/
structure WriteProgress (rt : Runtime) (s : SyncSystem) (t : ℕ) (user : UUID) (entries : List Entry)
    (rejects : UUID → Option String) (todo : List Insertion) : Prop where
  progress : ∃ owners valid done,
    checkOwners (ownedDeviceIds s.devices user ((scan entries).parsed.map (·.deviceId))) owners user
      (scan entries) = (rejects, valid) ∧
    toInsertions rt valid = some (done ++ todo) ∧
    ∀ insertion ∈ done, s.Reaches t insertion.id insertion.client.clientRev

/-- Every record of the batch was accepted, and is superseded by a committed row. -/
structure Kept (rt : Runtime) (s : SyncSystem) (user : UUID) (entries : List Entry) : Prop where
  scanned : ∀ id ∈ (scan entries).order, (scan entries).rejects id = none
  owned : ∀ record ∈ (scan entries).parsed, (s.devices.lookup record.deviceId).any (·.userId = user) = true
  storable : ∀ record ∈ (scan entries).parsed, (record.toColumns rt).isSome
  stored : ∀ record ∈ (scan entries).parsed, s.Stored record.id record.clientRev

/-- How far a push of a batch has come. -/
def PushProgress (rt : Runtime) (s : SyncSystem) (t : ℕ) (user : UUID) (entries : List Entry) : Proc → Prop
  | .push run => run.user = user ∧ run.scanned = scan entries ∧
    match run.stage with
    | .devices => True
    | .owners owned => owned = ownedDeviceIds s.devices user ((scan entries).parsed.map (·.deviceId))
    | .writing todo _ _ => WriteProgress rt s t user entries run.rejects todo
    | .counting _ | .committing _ _ => WriteProgress rt s t user entries run.rejects []
  | .answered user' results => user' = user ∧ results.map (·.id) = (scan entries).order ∧
    ((∀ result ∈ results, result.status ≠ .rejected) → Kept rt s user entries)
  | .failed => True
  | _ => False

section

variable {rt : Runtime} {settings : Settings} {s s' : SyncSystem} {t u : ℕ} {clock : Instant}
  {effect : Effect} {action : SyncAction} {id : UUID} {rev : ℕ} {user : UUID} {entries : List Entry}

/-! ## Revisions never decrease -/

theorem Ascending.visible (h : Ascending s) (hstored : s.Stored id rev) (t : ℕ) : s.Reaches t id rev := by
  obtain ⟨row, hrow, hle⟩ := hstored
  cases hdraft : (s.expenses.drafts t).lookup id with
  | some draft => exact ⟨draft, Versioned.visible_of_draft hdraft, hle.trans (h t id draft hdraft row hrow)⟩
  | none => exact ⟨row, (Versioned.visible_of_lookup_drafts hdraft).trans hrow, hle⟩

theorem SyncSystem.Reaches.commit (h : s.Reaches t id rev) (next : Proc) :
    (s.commit t next).Stored id rev := by
  obtain ⟨row, hrow, hle⟩ := h
  exact ⟨row, (s.expenses.lookup_commit t id).trans hrow, hle⟩

theorem Performs.stored (performs : Performs s t effect s') (hascending : Ascending s)
    (h : s.Stored id rev) : s'.Stored id rev := by
  cases performs with
  | commit next => exact (hascending.visible h t).commit next
  | read | draw | lock | insert | update | count | rollback => exact h

/-- A version that is written over a visible row. -/
theorem SyncSystem.Reaches.put {row : Expense} {written : UUID} (h : s.Reaches u id rev)
    (hfree : s.expenses.Free t written) (syncSeq : ℕ) (next : Proc)
    (hnew : ∀ old, s.expenses.visible t written = some old → old.client.clientRev ≤ row.client.clientRev) :
    (s.put t written row syncSeq hfree next).Reaches u id rev := by
  obtain ⟨old, hold, hle⟩ := h
  have hvisible : (s.put t written row syncSeq hfree next).expenses.visible u id =
      if u = t ∧ id = written then some row else s.expenses.visible u id :=
    s.expenses.visible_write row hfree u id
  by_cases hboth : u = t ∧ id = written
  · obtain ⟨rfl, rfl⟩ := hboth
    rw [if_pos ⟨rfl, rfl⟩] at hvisible
    exact ⟨row, hvisible, hle.trans (hnew old hold)⟩
  · rw [if_neg hboth] at hvisible
    exact ⟨old, hvisible.trans hold, hle⟩

/-- What a transaction sees, no statement takes back, unless it rolls the transaction itself back. -/
theorem Performs.reaches (performs : Performs s t effect s') (hascending : Ascending s)
    (hascends : effect.Ascends s t) (hkept : u = t → effect ≠ .rollback) (h : s.Reaches u id rev) :
    s'.Reaches u id rev := by
  cases performs with
  | read | draw | lock | count => exact h
  | insert written row next hfree => exact h.put hfree _ next (hascends written row next (.inl rfl))
  | update written row next hfree => exact h.put hfree _ next (hascends written row next (.inr rfl))
  | commit next =>
    obtain ⟨row, hrow, hle⟩ := h
    by_cases hu : u = t
    · subst hu
      have hself : (s.commit u next).expenses.visible u id = s.expenses.visible u id := by
        have hempty : ((s.commit u next).expenses.drafts u).lookup id = none :=
          (s.expenses.lookup_release_drafts u _ u id).trans (if_pos rfl)
        rw [Versioned.visible_of_lookup_drafts hempty]
        exact s.expenses.lookup_commit u id
      exact ⟨row, hself.trans hrow, hle⟩
    · have hother : (s.commit t next).expenses.visible u id =
          ((s.expenses.drafts u).lookup id).or (s.expenses.visible t id) := s.expenses.visible_commit hu id
      cases hdraft : (s.expenses.drafts u).lookup id with
      | some draft =>
        rw [Versioned.visible_of_draft hdraft] at hrow
        rw [hdraft, Option.some_or] at hother
        exact ⟨row, hother.trans hrow, hle⟩
      | none =>
        rw [Versioned.visible_of_lookup_drafts hdraft] at hrow
        rw [hdraft, Option.none_or] at hother
        obtain ⟨new, hnew, hrev⟩ := hascending.visible ⟨row, hrow, hle⟩ t
        exact ⟨new, hother.trans hnew, hrev⟩
  | rollback =>
    obtain ⟨row, hrow, hle⟩ := h
    have hu : u ≠ t := fun heq ↦ hkept heq rfl
    exact ⟨row, (s.expenses.visible_abort hu id).trans hrow, hle⟩

theorem Performs.ascending (performs : Performs s t effect s') (h : Ascending s)
    (hascends : effect.Ascends s t) : Ascending s' := by
  refine Overlaid.performs h (fun _ _ _ ↦ le_trans) performs fun id row hwritten old hold ↦ ?_
  rcases SyncSystem.written_cases hwritten with ⟨next, heffect⟩ | ⟨new, next, heffect, rfl⟩
  · exact hascends id row next (.inl heffect) old hold
  · exact hascends id new next (.inr heffect) old hold

theorem PushRun.Steps.ascends {run : PushRun} (steps : run.Steps rt s t clock effect) :
    effect.Ascends s t := by
  intro id row next hwrite old hold
  cases steps with
  | inserted insertion todo drawn returned stage fresh =>
    rcases hwrite with heq | heq <;> cases heq
    rw [fresh] at hold
    cases hold
  | updated insertion todo drawn returned stage row found newer =>
    rcases hwrite with heq | heq <;> cases heq
    rw [found] at hold
    cases hold
    exact newer.le
  | raised | devices | owners | drawn | stale | written | uncounted | counted | committed =>
    rcases hwrite with heq | heq <;> cases heq

theorem SweepRun.Steps.ascends {run : SweepRun} (steps : run.Steps settings s t effect) :
    effect.Ascends s t := by
  intro id row next hwrite old hold
  cases steps with
  | updated selected amountBase todo stage stored fits current found =>
    rcases hwrite with heq | heq <;> cases heq
    rw [found] at hold
    cases hold
    exact le_rfl
  | raised | selected | sameCurrency | firstRate | noFirstRate | secondRate | noSecondRate | gone
  | finished =>
    rcases hwrite with heq | heq <;> cases heq

theorem NullifyRun.Steps.ascends {run : NullifyRun} (steps : run.Steps s t effect) : effect.Ascends s t := by
  intro id row next hwrite old hold
  cases steps with
  | nulled selected todo stage row found armed =>
    rcases hwrite with heq | heq <;> cases heq
    rw [found] at hold
    cases hold
    exact le_rfl
  | selected | unarmed | gone | finished => rcases hwrite with heq | heq <;> cases heq

/-- Every action is one statement that lowers no revision, or leaves the rows alone. -/
theorem Outcome.ascends (h : Outcome rt settings s action s') :
    (∃ t effect, action.actor = some t ∧ Performs s t effect s' ∧ effect.Ascends s t) ∨
      (s'.expenses = s.expenses ∧ s'.procs = s.procs) := by
  cases h with
  | started t request idle =>
    refine .inl ⟨t, .read (request.proc rt), rfl, .read _, ?_⟩
    rintro id row next (heq | heq) <;> cases heq
  | pushed t clock run running effect steps s' performs =>
    exact .inl ⟨t, effect, rfl, performs, steps.ascends⟩
  | swept t clock run running effect steps s' performs =>
    exact .inl ⟨t, effect, rfl, performs, steps.ascends⟩
  | nullified t clock run running effect steps s' performs =>
    exact .inl ⟨t, effect, rfl, performs, steps.ascends⟩
  | aborted t running =>
    refine .inl ⟨t, .rollback, rfl, .rollback, ?_⟩
    rintro id row next (heq | heq) <;> cases heq
  | ratesUpserted | pulled => exact .inr ⟨rfl, rfl⟩

theorem Outcome.devices (h : Outcome rt settings s action s') : s'.devices = s.devices := by
  have hperforms {t : ℕ} {effect : Effect} (performs : Performs s t effect s') : s'.devices = s.devices := by
    cases performs <;> rfl
  cases h with
  | pushed t clock run running effect steps s' performs => exact hperforms performs
  | swept t clock run running effect steps s' performs => exact hperforms performs
  | nullified t clock run running effect steps s' performs => exact hperforms performs
  | started | aborted | ratesUpserted | pulled => rfl

theorem Outcome.ascending (h : Outcome rt settings s action s') (hascending : Ascending s) :
    Ascending s' := by
  rcases h.ascends with ⟨t, effect, _, performs, hascends⟩ | ⟨hexpenses, _⟩
  · exact performs.ascending hascending hascends
  · unfold Ascending
    rw [hexpenses]
    exact hascending

theorem Outcome.stored (h : Outcome rt settings s action s') (hascending : Ascending s)
    (hstored : s.Stored id rev) : s'.Stored id rev := by
  rcases h.ascends with ⟨t, effect, _, performs, _⟩ | ⟨hexpenses, _⟩
  · exact performs.stored hascending hstored
  · unfold SyncSystem.Stored
    rw [hexpenses]
    exact hstored

theorem Outcome.reaches (h : Outcome rt settings s action s') (hascending : Ascending s)
    (hne : action.actor ≠ some u) (hreaches : s.Reaches u id rev) : s'.Reaches u id rev := by
  rcases h.ascends with ⟨t, effect, hactor, performs, hascends⟩ | ⟨hexpenses, _⟩
  · have hu : u ≠ t := fun heq ↦ hne (heq ▸ hactor)
    exact performs.reaches hascending hascends (fun heq ↦ absurd heq hu) hreaches
  · unfold SyncSystem.Reaches
    rw [hexpenses]
    exact hreaches

/-! ## How far a push has come -/

theorem WriteProgress.mono {rejects : UUID → Option String} {todo : List Insertion}
    (h : WriteProgress rt s t user entries rejects todo) (hdevices : s'.devices = s.devices)
    (hreaches : ∀ id rev, s.Reaches t id rev → s'.Reaches t id rev) :
    WriteProgress rt s' t user entries rejects todo := by
  obtain ⟨owners, valid, done, hchecked, hfits, hwritten⟩ := h.progress
  refine ⟨owners, valid, done, ?_, hfits, fun insertion hmem ↦ hreaches _ _ (hwritten insertion hmem)⟩
  rw [hdevices]
  exact hchecked

/-- The row of the next record is written, or was no older. -/
theorem WriteProgress.next {rejects : UUID → Option String} {insertion : Insertion} {todo : List Insertion}
    (h : WriteProgress rt s t user entries rejects (insertion :: todo))
    (hreaches : s.Reaches t insertion.id insertion.client.clientRev) :
    WriteProgress rt s t user entries rejects todo := by
  obtain ⟨owners, valid, done, hchecked, hfits, hwritten⟩ := h.progress
  refine ⟨owners, valid, done ++ [insertion], hchecked, ?_, fun other hmem ↦ ?_⟩
  · rw [List.append_assoc]
    exact hfits
  · rcases List.mem_append.mp hmem with hearlier | hlast
    · exact hwritten other hearlier
    · rw [List.mem_singleton.mp hlast]
      exact hreaches

theorem Kept.mono (h : Kept rt s user entries) (hdevices : s'.devices = s.devices)
    (hstored : ∀ id rev, s.Stored id rev → s'.Stored id rev) : Kept rt s' user entries where
  scanned := h.scanned
  owned := by
    rw [hdevices]
    exact h.owned
  storable := h.storable
  stored record hmem := hstored _ _ (h.stored record hmem)

theorem rejects_of_status {rejects : UUID → Option String} {returned : List Returned} {id : UUID}
    (h : (resultFor rejects returned id).status ≠ .rejected) : rejects id = none := by
  unfold resultFor at h
  cases hreject : rejects id with
  | some reason => simp [hreject] at h
  | none => rfl

/-- A record that nothing is objected to is on a device of the user. -/
theorem owned_of_objection {table : Table UUID Device} {ids : List UUID} {owners : UUID → Option UUID}
    {record : ExpenseSyncIn} (h : objection (ownedDeviceIds table user ids) owners user record = none) :
    (table.lookup record.deviceId).any (·.userId = user) = true := by
  unfold objection at h
  split at h
  · cases h
  · rename_i howned
    exact (List.mem_filter.mp (not_not.mp howned)).2

/-- A push that has written everything and reports nothing as rejected has accepted every record. -/
theorem WriteProgress.kept {rejects : UUID → Option String} {returned : List Returned}
    (h : WriteProgress rt s t user entries rejects []) (next : Proc)
    (haccepted : ∀ id ∈ (scan entries).order, (resultFor rejects returned id).status ≠ .rejected) :
    Kept rt (s.commit t next) user entries := by
  obtain ⟨owners, valid, done, hchecked, hfits, hwritten⟩ := h.progress
  rw [List.append_nil] at hfits
  let owned := ownedDeviceIds s.devices user ((scan entries).parsed.map (·.deviceId))
  have hfold := foldl_checkOwner owned owners user (scan entries).parsed (scan_parsed_nodup entries)
    (scan entries).rejects []
  unfold checkOwners at hchecked
  rw [hchecked] at hfold
  obtain ⟨hvalid, hrejects⟩ := hfold
  dsimp only at hvalid hrejects
  have hnone (id : UUID) (hid : id ∈ (scan entries).order) :
      ((scan entries).parsed.find? (·.id = id)).bind (objection owned owners user) = none ∧
        (scan entries).rejects id = none :=
    Option.or_eq_none_iff.mp ((hrejects id).symm.trans (rejects_of_status (haccepted id hid)))
  have hobjection (record : ExpenseSyncIn) (hmem : record ∈ (scan entries).parsed) :
      objection owned owners user record = none := by
    have hfirst := (hnone record.id (mem_order_of_mem_parsed hmem)).1
    rw [find?_parsed hmem] at hfirst
    exact hfirst
  have hall : valid = (scan entries).parsed := by
    rw [hvalid, List.nil_append, List.filter_eq_self]
    intro record hmem
    rw [hobjection record hmem]
    rfl
  rw [hall] at hfits
  constructor
  · intro id hid
    exact (hnone id hid).2
  · intro record hmem
    exact owned_of_objection (hobjection record hmem)
  · intro record hmem
    obtain ⟨columns, hcolumns, _⟩ := mem_toInsertions hfits hmem
    rw [hcolumns]
    rfl
  · intro record hmem
    obtain ⟨columns, hcolumns, hin⟩ := mem_toInsertions hfits hmem
    have hreaches := hwritten _ hin
    rw [ExpenseSyncIn.clientRev_of_toColumns hcolumns] at hreaches
    exact hreaches.commit next

theorem PushProgress.mono {proc : Proc} (h : PushProgress rt s t user entries proc)
    (hdevices : s'.devices = s.devices) (hreaches : ∀ id rev, s.Reaches t id rev → s'.Reaches t id rev)
    (hstored : ∀ id rev, s.Stored id rev → s'.Stored id rev) : PushProgress rt s' t user entries proc := by
  cases proc with
  | push run =>
    obtain ⟨huser, hscanned, hstage⟩ := h
    refine ⟨huser, hscanned, ?_⟩
    cases hcase : run.stage with
    | devices => trivial
    | owners owned =>
      rw [hcase] at hstage
      dsimp only at hstage ⊢
      rw [hdevices]
      exact hstage
    | writing | counting | committing =>
      rw [hcase] at hstage
      exact WriteProgress.mono hstage hdevices hreaches
  | answered user' results =>
    obtain ⟨huser, hids, hkept⟩ := h
    exact ⟨huser, hids, fun haccepted ↦ (hkept haccepted).mono hdevices hstored⟩
  | failed => trivial
  | idle | sweep | nullify | done => exact h.elim

theorem PushRun.Steps.pushProgress {run : PushRun} (steps : run.Steps rt s t clock effect)
    (performs : Performs s t effect s') (hdevices : s'.devices = s.devices) (hascending : Ascending s)
    (h : PushProgress rt s t user entries (.push run)) : PushProgress rt s' t user entries (s'.procs t) := by
  obtain ⟨user', scanned, rejects, now, stage'⟩ := run
  obtain ⟨rfl, rfl, hstage⟩ := h
  have hreaches (hkept : effect ≠ .rollback) (id : UUID) (rev : ℕ) (hseen : s.Reaches t id rev) :
      s'.Reaches t id rev := performs.reaches hascending steps.ascends (fun _ ↦ hkept) hseen
  rw [performs.proc]
  cases steps with
  | raised => trivial
  | devices stage =>
    refine ⟨rfl, rfl, ?_⟩
    dsimp only
    rw [hdevices]
  | owners owned stage rejects validRecords insertions checked fits =>
    cases stage
    have howned : owned = ownedDeviceIds s.devices user' ((scan entries).parsed.map (·.deviceId)) := hstage
    have hprogress : WriteProgress rt s' t user' entries rejects insertions := by
      refine ⟨existingOwners (s.expenses.view t) ((scan entries).parsed.map (·.id)), validRecords, [], ?_,
        fits, fun _ hmem ↦ nomatch hmem⟩
      rw [hdevices, ← howned]
      exact checked
    exact ⟨rfl, rfl, hprogress⟩
  | drawn insertion todo returned stage =>
    cases stage
    exact ⟨rfl, rfl, WriteProgress.mono hstage hdevices (hreaches nofun)⟩
  | inserted insertion todo drawn returned stage fresh =>
    cases stage
    have hprogress := WriteProgress.mono hstage hdevices (hreaches nofun)
    refine ⟨rfl, rfl, hprogress.next ?_⟩
    cases performs with
    | insert id row next hfree =>
      exact ⟨_, (s.expenses.visible_write _ hfree t insertion.id).trans (if_pos ⟨rfl, rfl⟩), le_rfl⟩
  | updated insertion todo drawn returned stage row found newer =>
    cases stage
    have hprogress := WriteProgress.mono hstage hdevices (hreaches nofun)
    refine ⟨rfl, rfl, hprogress.next ?_⟩
    cases performs with
    | update id row next hfree =>
      exact ⟨_, (s.expenses.visible_write _ hfree t insertion.id).trans (if_pos ⟨rfl, rfl⟩), le_rfl⟩
  | stale insertion todo drawn returned stage row found notNewer =>
    cases stage
    have hprogress := WriteProgress.mono hstage hdevices (hreaches nofun)
    exact ⟨rfl, rfl, hprogress.next (hreaches nofun _ _ ⟨row, found, not_lt.mp notNewer⟩)⟩
  | written drawn returned stage | uncounted returned stage | counted returned stage =>
    cases stage
    exact ⟨rfl, rfl, WriteProgress.mono hstage hdevices (hreaches nofun)⟩
  | committed returned counted stage =>
    cases stage
    refine ⟨rfl, ?_, fun haccepted ↦ ?_⟩
    · rw [List.map_map]
      exact List.map_id'' (resultFor_id rejects returned) _
    · cases performs
      have hprogress : WriteProgress rt s t user' entries rejects [] := hstage
      apply hprogress.kept
      intro id hid
      exact haccepted (resultFor rejects returned id) (List.mem_map_of_mem hid)

/-- Every step keeps what is known of an earlier push. -/
theorem Outcome.pushProgress (h : Outcome rt settings s action s') (hascending : Ascending s)
    (hprogress : PushProgress rt s t user entries (s.procs t)) :
    PushProgress rt s' t user entries (s'.procs t) := by
  by_cases hactor : action.actor = some t
  · cases h with
    | started u request idle =>
      cases hactor
      rw [idle] at hprogress
      exact hprogress.elim
    | pushed u clock run running effect steps s' performs =>
      cases hactor
      rw [running] at hprogress
      have houtcome : Outcome rt settings s (.advance t clock) s' :=
        .pushed t clock run running effect steps s' performs
      exact steps.pushProgress performs houtcome.devices hascending hprogress
    | swept u clock run running =>
      cases hactor
      rw [running] at hprogress
      exact hprogress.elim
    | nullified u clock run running =>
      cases hactor
      rw [running] at hprogress
      exact hprogress.elim
    | aborted u running =>
      cases hactor
      rw [SyncSystem.rollback_procs]
      trivial
    | ratesUpserted | pulled => cases hactor
  · rw [(h.untouched hactor).proc]
    exact hprogress.mono h.devices (fun _ _ ↦ h.reaches hascending hactor) fun _ _ ↦ h.stored hascending

/-- The records of a batch that was accepted are superseded in the committed tables. -/
theorem Kept.superseded {entitlements : Table UUID Entitlement} (h : Kept rt s user entries)
    (howner : ∀ record ∈ (scan entries).parsed, ∀ row, s.expenses.committed.lookup record.id = some row →
      row.userId = user) : Superseded rt (s.db entitlements) user entries where
  scanned := h.scanned
  unobjected record hmem := by
    obtain ⟨row, hrow, _⟩ := h.stored record hmem
    have hlookup : (s.db entitlements).expenses.lookup record.id = some row := hrow
    have howned : ((s.db entitlements).devices.lookup record.deviceId).any (·.userId = user) = true :=
      h.owned record hmem
    unfold objectionAt
    rw [if_neg (by rw [howned]; exact Bool.noConfusion), hlookup]
    exact if_neg (not_not.mpr (howner record hmem row hrow))
  storable := h.storable
  stored := h.stored

end

/-- In every state that any transactions have reached since, pushing again a batch that was answered
without a rejection, by the owner of its rows, reports every record as stale and changes nothing. -/
theorem replay_noop {rt : Runtime} {settings : Settings} {users : Table UUID User}
    {devices : Table UUID Device} {fxRates : FxTable} {expenses : Table UUID Expense} {usage : UsageTable}
    {syncSeq : ℕ} {reader : UUID}
    {trace : List (SyncSystem × SyncAction)} {s before : SyncSystem} {t : ℕ} {user : UUID}
    {batch : List RawRecord} {started : Instant} {results : List SyncPushResult}
    (hrun : Run (SyncSystem.step rt settings) (fun _ _ ↦ True)
      (.ofTables users devices fxRates expenses usage syncSeq reader) trace s)
    (hpushed : (before, .start t (.push user batch started)) ∈ trace)
    (hanswered : s.procs t = .answered user results)
    (haccepted : ∀ result ∈ results, result.status ≠ .rejected)
    (howner : ∀ raw ∈ batch, ∀ id, recordId rt raw = some id → ∀ row,
      s.expenses.committed.lookup id = some row → row.userId = user)
    (entitlements : Table UUID Entitlement) (now clock : Instant) :
    ∃ after response, pushSync rt settings (s.db entitlements) user batch now clock = some (after, response) ∧
      response.results = results.map (fun result ↦ ⟨result.id, .staleIgnored, none, none⟩) ∧
      after.expenses = s.expenses.committed ∧ after.usageCounters = s.usage.committed ∧
      response.serverHighWater = highWater s.expenses.committed user := by
  have hall : Ascending s ∧ ∀ before t user batch started,
      (before, SyncAction.start t (.push user batch started)) ∈ trace →
        PushProgress rt s t user (batch.map (classify rt)) (s.procs t) := by
    refine hrun.trace_invariant (fun trace s ↦ Ascending s ∧ ∀ before t user batch started,
      (before, SyncAction.start t (.push user batch started)) ∈ trace →
        PushProgress rt s t user (batch.map (classify rt)) (s.procs t)) ⟨?_, ?_⟩ ?_
    · intro t id draft hdraft
      have hempty : (∅ : Table UUID Expense).lookup id = some draft := hdraft
      rw [AList.lookup_empty] at hempty
      cases hempty
    · exact fun _ _ _ _ _ hmem ↦ absurd hmem List.not_mem_nil
    · rintro trace s action s' ⟨hascending, hprogress⟩ _ hstep
      have houtcome := SyncSystem.step_outcome hstep
      refine ⟨houtcome.ascending hascending, fun before t user batch started hmem ↦ ?_⟩
      rcases List.mem_append.mp hmem with hearlier | hlast
      · exact houtcome.pushProgress hascending (hprogress before t user batch started hearlier)
      · cases List.mem_singleton.mp hlast
        cases houtcome with
        | started t request idle =>
          rw [SyncSystem.setProc_procs]
          exact ⟨rfl, rfl, trivial⟩
  have hprogress := hall.2 before t user batch started hpushed
  rw [hanswered] at hprogress
  obtain ⟨_, hids, hkept⟩ := hprogress
  have hsuperseded : Superseded rt (s.db entitlements) user (batch.map (classify rt)) := by
    refine (hkept haccepted).superseded fun record hmem row hrow ↦ ?_
    have hid := mem_order_of_mem_parsed hmem
    rw [scan_order, List.mem_eraseDups, List.mem_filterMap] at hid
    obtain ⟨entry, hentry, hsame⟩ := hid
    obtain ⟨raw, hraw, rfl⟩ := List.mem_map.mp hentry
    exact howner raw hraw record.id hsame row hrow
  obtain ⟨drawn, hpush⟩ := hsuperseded.pushSync settings now clock
  refine ⟨_, _, hpush, ?_, rfl, rfl, rfl⟩
  dsimp only
  rw [← hids, List.map_map]
  rfl

/-- The sample user pushes one expense, edits it with a second push and replays the first one. -/
theorem replay_noop_sample : ∃ (s : SyncSystem) (after : Db) (response : SyncPushResponse),
    (s.expenses.committed.lookup ⟨3⟩).map (·.client.amountOriginal.units) = some 120000 ∧
      pushSync .ascii sampleSettings (s.db ∅) ⟨1⟩ [sampleExpense 5 1] 0 0 = some (after, response) ∧
      response.results = [⟨⟨3⟩, .staleIgnored, none, none⟩] ∧ after.expenses = s.expenses.committed := by
  have hexec : (exec (SyncSystem.step .ascii sampleSettings) .sample
      (SyncSystem.transaction 0 (.push ⟨1⟩ [sampleExpense 5 1] 0) 7 ++
        SyncSystem.transaction 1 (.push ⟨1⟩ [sampleExpense 12 2] 0) 7)).map (fun s ↦
          ((s.expenses.committed.lookup ⟨3⟩).map fun row ↦ (row.userId, row.client.amountOriginal.units),
            match s.procs 0 with
            | .answered user results => some (user, results)
            | _ => none)) =
      some (some (⟨1⟩, 120000), some (⟨1⟩, [⟨⟨3⟩, .applied, none, some 1⟩])) := by
    decide +kernel
  obtain ⟨s, hs, hfacts⟩ := Option.map_eq_some_iff.mp hexec
  obtain ⟨hrow, hproc⟩ := Prod.mk.inj hfacts
  obtain ⟨row, hlookup, hcolumns⟩ := Option.map_eq_some_iff.mp hrow
  have hanswered : s.procs 0 = .answered ⟨1⟩ [⟨⟨3⟩, .applied, none, some 1⟩] := by
    split at hproc
    · rename_i user results hcase
      cases hproc
      exact hcase
    · cases hproc
  have hbatch : ∀ raw ∈ [sampleExpense 5 1], ∀ id, recordId .ascii raw = some id → id = ⟨3⟩ := by
    have hid : recordId .ascii (sampleExpense 5 1) = some ⟨3⟩ := by decide +kernel
    intro raw hraw id hsome
    rw [List.mem_singleton.mp hraw, hid] at hsome
    exact (Option.some.inj hsome).symm
  obtain ⟨after, response, hpush, hresults, hexpenses, _⟩ := replay_noop (run_of_exec hs)
    List.mem_cons_self hanswered (by decide) (fun raw hraw id hid stored hstored ↦ by
      rw [hbatch raw hraw id hid, hlookup] at hstored
      rw [← Option.some.inj hstored]
      exact (Prod.mk.inj hcolumns).1) ∅ 0 0
  refine ⟨s, after, response, ?_, hpush, hresults, hexpenses⟩
  rw [hlookup]
  exact congrArg some (Prod.mk.inj hcolumns).2

end VoiceSpend
