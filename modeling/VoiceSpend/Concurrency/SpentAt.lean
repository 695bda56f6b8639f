import VoiceSpend.Concurrency.CommitOrder

/-!
# The counters do not look at `spent_at`

Two runs in which the pushes take the same steps, with the same batches but for other dates of their expenses,
insert the same rows and count the same. Sweeps do look at dates, so whatever is not a step of a push may differ
between the two runs. `Alike` is what they have in common.
-/

namespace VoiceSpend

open Machine

/-! ## Other dates -/

/-- The record has a `spent_at` that its column can hold. -/
def Dated (rt : Runtime) (raw : RawRecord) : Prop :=
  ∃ value spentAt, raw.lookup ("spent_at" : Text) = some value ∧ rt.parseDatetime value = .ok spentAt ∧
    (spentAt.instant rt).isSome

/-- The same record, or the same but for another date. -/
inductive Redated (rt : Runtime) : RawRecord → RawRecord → Prop
  | same (raw : RawRecord) : Redated rt raw raw
  | dated {raw raw' : RawRecord} (before : Dated rt raw) (after : Dated rt raw')
      (rest : ∀ name : Text, name ≠ "spent_at" → raw'.lookup name = raw.lookup name) : Redated rt raw raw'

/-- The same action, or the start of the same push with other dates. -/
inductive SyncAction.Redated (rt : Runtime) : SyncAction → SyncAction → Prop
  | same (action : SyncAction) : Redated rt action action
  | push (t : ℕ) (user : UUID) (now : Instant) {batch batch' : List RawRecord}
      (records : List.Forall₂ (VoiceSpend.Redated rt) batch batch') :
      Redated rt (.start t (.push user batch now)) (.start t (.push user batch' now))

/-- The action is a step of a push. -/
def SyncSystem.pushes (s : SyncSystem) : SyncAction → Bool
  | .start _ (.push ..) => true
  | .advance t _ | .abort t => (s.procs t).pusher.isSome
  | .start .. | .upsertRates .. | .pull _ => false

/-- The parsed record, with another date that can be stored if the first one can. -/
def ExpenseSyncIn.Redated (rt : Runtime) (record record' : ExpenseSyncIn) : Prop :=
  record' = { record with spentAt := record'.spentAt } ∧
    (record'.spentAt.instant rt).isSome = (record.spentAt.instant rt).isSome

inductive Entry.Redated (rt : Runtime) : Entry → Entry → Prop
  | unusable : Redated rt .unusable .unusable
  | invalid (id : UUID) (reason : String) : Redated rt (.invalid id reason) (.invalid id reason)
  | valid {record record' : ExpenseSyncIn} (records : record.Redated rt record') :
      Redated rt (.valid record) (.valid record')

structure Scan.Redated (rt : Runtime) (scanned scanned' : Scan) : Prop where
  rejects : scanned'.rejects = scanned.rejects
  order : scanned'.order = scanned.order
  parsed : List.Forall₂ (ExpenseSyncIn.Redated rt) scanned.parsed scanned'.parsed

section

variable {rt : Runtime} {raw raw' : RawRecord} {record record' : ExpenseSyncIn}
  {records records' : List ExpenseSyncIn} {scanned scanned' : Scan}

theorem ExpenseSyncIn.Redated.id_eq (h : record.Redated rt record') : record'.id = record.id := by
  rw [h.1]

theorem ExpenseSyncIn.Redated.deviceId_eq (h : record.Redated rt record') :
    record'.deviceId = record.deviceId := by
  rw [h.1]

theorem ids_of_redated (h : List.Forall₂ (ExpenseSyncIn.Redated rt) records records') :
    records'.map ExpenseSyncIn.id = records.map ExpenseSyncIn.id := by
  induction h with
  | nil => rfl
  | cons hrecord _ ih => rw [List.map_cons, List.map_cons, hrecord.id_eq, ih]

theorem deviceIds_of_redated (h : List.Forall₂ (ExpenseSyncIn.Redated rt) records records') :
    records'.map ExpenseSyncIn.deviceId = records.map ExpenseSyncIn.deviceId := by
  induction h with
  | nil => rfl
  | cons hrecord _ ih => rw [List.map_cons, List.map_cons, hrecord.deviceId_eq, ih]

/-- Validation finds the same errors, or a record in both. -/
theorem modelValidate_redated (before : Dated rt raw) (after : Dated rt raw')
    (rest : ∀ name : Text, name ≠ "spent_at" → raw'.lookup name = raw.lookup name) :
    (∃ errors, modelValidate rt raw = .error errors ∧ modelValidate rt raw' = .error errors) ∨
      ∃ record record', modelValidate rt raw = .ok record ∧ modelValidate rt raw' = .ok record' ∧
        record.Redated rt record' := by
  obtain ⟨value, spentAt, hvalue, hparse, hsome⟩ := before
  obtain ⟨value', spentAt', hvalue', hparse', hsome'⟩ := after
  have hrequired {α : Type} (parse : Json → Except String α) {name : String} (hname : name ≠ "spent_at") :
      required parse raw' name = required parse raw name := by
    rw [required, required, rest name fun heq ↦ hname (Text.unicode.inj heq)]
  have hoptional {α : Type} (parse : Json → Except String α) {name : String} (hname : name ≠ "spent_at") :
      optional parse raw' name = optional parse raw name := by
    rw [optional, optional, rest name fun heq ↦ hname (Text.unicode.inj heq)]
  have hdate : required rt.parseDatetime raw "spent_at" = .ok spentAt := by
    rw [required, hvalue]
    exact congrArg (located "spent_at") hparse
  have hdate' : required rt.parseDatetime raw' "spent_at" = .ok spentAt' := by
    rw [required, hvalue']
    exact congrArg (located "spent_at") hparse'
  unfold modelValidate
  rw [hdate, hdate', hrequired _ (by decide), hrequired _ (by decide), hrequired _ (by decide),
    hrequired _ (by decide), hrequired _ (by decide), hoptional _ (by decide), hoptional _ (by decide),
    hoptional _ (by decide), hoptional _ (by decide), hoptional _ (by decide), hoptional _ (by decide)]
  -- the first field that fails fails in both
  rcases required rt.parseUuid raw "id" with _ | id
  · exact .inl ⟨_, rfl, rfl⟩
  rcases required rt.parseUuid raw "device_id" with _ | deviceId
  · exact .inl ⟨_, rfl, rfl⟩
  rcases required rt.parseDecimal raw "amount_original" with _ | amountOriginal
  · exact .inl ⟨_, rfl, rfl⟩
  rcases required (parseCurrency rt) raw "currency_original" with _ | currencyOriginal
  · exact .inl ⟨_, rfl, rfl⟩
  rcases required (parseClientRev rt) raw "client_rev" with _ | clientRev
  · exact .inl ⟨_, rfl, rfl⟩
  rcases optional rt.parseStr raw "category" with _ | category
  · exact .inl ⟨_, rfl, rfl⟩
  rcases optional rt.parseStr raw "payment_method" with _ | paymentMethod
  · exact .inl ⟨_, rfl, rfl⟩
  rcases optional rt.parseStr raw "merchant" with _ | merchant
  · exact .inl ⟨_, rfl, rfl⟩
  rcases optional rt.parseStr raw "note" with _ | note
  · exact .inl ⟨_, rfl, rfl⟩
  rcases optional rt.parseStr raw "raw_transcript" with _ | rawTranscript
  · exact .inl ⟨_, rfl, rfl⟩
  rcases optional rt.parseDatetime raw "deleted_at" with _ | deletedAt
  · exact .inl ⟨_, rfl, rfl⟩
  exact .inr ⟨_, _, rfl, rfl, rfl, hsome'.trans hsome.symm⟩

theorem classify_redated (h : Redated rt raw raw') : (classify rt raw).Redated rt (classify rt raw') := by
  cases h with
  | same =>
    cases classify rt raw with
    | unusable => exact .unusable
    | invalid id reason => exact .invalid id reason
    | valid record => exact .valid ⟨rfl, rfl⟩
  | dated before after rest =>
    have hid : raw'.lookup ("id" : Text) = raw.lookup ("id" : Text) := rest "id" (by decide)
    unfold classify
    rw [hid]
    rcases modelValidate_redated before after rest with ⟨errors, h, h'⟩ | ⟨record, record', h, h', hrecord⟩
    · rw [h, h']
      dsimp only
      cases rt.uuid (rt.str ((raw.lookup ("id" : Text)).getD .null)) with
      | none => exact .unusable
      | some id => exact .invalid id _
    · rw [h, h']
      exact .valid hrecord

theorem Scan.Redated.inParsed (h : scanned.Redated rt scanned') (id : UUID) :
    scanned'.inParsed id = scanned.inParsed id := by
  have hids (s : Scan) : s.inParsed id = (s.parsed.map ExpenseSyncIn.id).any fun other ↦
      decide (other = id) := by
    rw [List.any_map]
    rfl
  rw [hids, hids, ids_of_redated h.parsed]

theorem Scan.Redated.entry {e e' : Entry} (h : scanned.Redated rt scanned') (hentry : e.Redated rt e') :
    (scanned.entry e).Redated rt (scanned'.entry e') := by
  cases hentry with
  | unusable => exact h
  | invalid id reason =>
    simp only [Scan.entry, h.inParsed, h.rejects]
    split
    · exact ⟨by simp only [Scan.reject, h.rejects], by simp only [h.order], h.parsed⟩
    · exact h
  | @valid record record' hrecord =>
    simp only [Scan.entry, hrecord.id_eq, h.inParsed, h.rejects]
    split
    · split
      · exact h
      · exact ⟨by simp only [Scan.reject, h.rejects], h.order, h.parsed⟩
    · exact ⟨rfl, by simp only [h.order], List.rel_append h.parsed (.cons hrecord .nil)⟩

theorem scan_redated {entries entries' : List Entry} (h : List.Forall₂ (Entry.Redated rt) entries entries') :
    (scan entries).Redated rt (scan entries') := by
  have hfold {s s' : Scan} (hs : s.Redated rt s') :
      (entries.foldl Scan.entry s).Redated rt (entries'.foldl Scan.entry s') := by
    induction h generalizing s s' with
    | nil => exact hs
    | cons hentry _ ih => exact ih (hs.entry hentry)
  exact hfold ⟨rfl, rfl, .nil⟩

theorem scan_batch_redated {batch batch' : List RawRecord} (h : List.Forall₂ (Redated rt) batch batch') :
    (scan (batch.map (classify rt))).Redated rt (scan (batch'.map (classify rt))) := by
  apply scan_redated
  induction h with
  | nil => exact .nil
  | cons hraw _ ih => exact .cons (classify_redated hraw) ih

/-- The second loop makes the same objections. -/
theorem checkOwners_redated (owned : List UUID) (owners : UUID → Option UUID) (user : UUID)
    (h : scanned.Redated rt scanned') :
    (checkOwners owned owners user scanned').1 = (checkOwners owned owners user scanned).1 ∧
      List.Forall₂ (ExpenseSyncIn.Redated rt) (checkOwners owned owners user scanned).2
        (checkOwners owned owners user scanned').2 := by
  have hfold {records records' : List ExpenseSyncIn}
      (hrecords : List.Forall₂ (ExpenseSyncIn.Redated rt) records records')
      {acc acc' : (UUID → Option String) × List ExpenseSyncIn} (hrejects : acc'.1 = acc.1)
      (hkept : List.Forall₂ (ExpenseSyncIn.Redated rt) acc.2 acc'.2) :
      (records'.foldl (checkOwner owned owners user) acc').1 =
          (records.foldl (checkOwner owned owners user) acc).1 ∧
        List.Forall₂ (ExpenseSyncIn.Redated rt) (records.foldl (checkOwner owned owners user) acc).2
          (records'.foldl (checkOwner owned owners user) acc').2 := by
    induction hrecords generalizing acc acc' with
    | nil => exact ⟨hrejects, hkept⟩
    | @cons record record' rest rest' hrecord _ ih =>
      have hobjection : objection owned owners user record' = objection owned owners user record := by
        rw [objection, objection, hrecord.id_eq, hrecord.deviceId_eq]
      simp only [List.foldl_cons, checkOwner, hobjection]
      cases objection owned owners user record with
      | some reason => exact ih (by rw [hrejects, hrecord.id_eq]) hkept
      | none => exact ih hrejects (List.rel_append hkept (.cons hrecord .nil))
  rw [checkOwners, checkOwners, h.rejects]
  exact hfold h.parsed rfl .nil

/-- What the counters depend on in a row of the upsert. -/
def Insertion.revision (insertion : Insertion) : UUID × ℕ := (insertion.id, insertion.client.clientRev)

theorem toColumns_redated (h : record.Redated rt record') :
    (record'.toColumns rt).isSome = (record.toColumns rt).isSome := by
  obtain ⟨hrecord, hsome⟩ := h
  have hfits (amount : Option Money) (spentAt : Option Instant) (deletedAt : Option (Option Instant))
    (p : Prop)
      [Decidable p] (columns : Money → Instant → Option Instant → ClientColumns) :
      (do
        let amount ← amount
        let spentAt ← spentAt
        let deletedAt ← deletedAt
        guard p
        return columns amount spentAt deletedAt : Option ClientColumns).isSome =
          (amount.isSome && spentAt.isSome && deletedAt.isSome && decide p) := by
    cases amount <;> cases spentAt <;> cases deletedAt <;> by_cases hp : p <;> simp [guard, hp]
  rw [ExpenseSyncIn.toColumns, ExpenseSyncIn.toColumns, hfits, hfits, hsome, hrecord]
  rfl

theorem toInsertions_redated (h : List.Forall₂ (ExpenseSyncIn.Redated rt) records records') :
    (toInsertions rt records').map (List.map Insertion.revision) =
      (toInsertions rt records).map (List.map Insertion.revision) := by
  induction h with
  | nil => rfl
  | @cons record record' rest rest' hrecord _ ih =>
    have hsome := toColumns_redated hrecord
    cases hcolumns : record.toColumns rt with
    | none =>
      rw [hcolumns, Option.isSome_none, Option.isSome_eq_false_iff, Option.isNone_iff_eq_none] at hsome
      simp [toInsertions, hcolumns, hsome]
    | some columns =>
      rw [hcolumns, Option.isSome_some] at hsome
      obtain ⟨columns', hcolumns'⟩ := Option.isSome_iff_exists.mp hsome
      have hrev : columns'.clientRev = columns.clientRev := by
        rw [ExpenseSyncIn.clientRev_of_toColumns hcolumns', ExpenseSyncIn.clientRev_of_toColumns hcolumns,
          hrecord.1]
      cases hrest : toInsertions rt rest with
      | none =>
        rw [hrest, Option.map_none, Option.map_eq_none_iff] at ih
        simp [toInsertions, hcolumns, hcolumns', hrest, ih]
      | some insertions =>
        rw [hrest, Option.map_some] at ih
        obtain ⟨insertions', hrest', hsame⟩ := Option.map_eq_some_iff.mp ih
        simp [toInsertions, hcolumns, hcolumns', hrest, hrest', hsame, Insertion.revision, hrev,
          hrecord.id_eq]

end

/-! ## Processes -/

/-- What the counters depend on in a row. -/
def Expense.revision (row : Expense) : UUID × ℕ := (row.userId, row.client.clientRev)

inductive PushStage.Alike : PushStage → PushStage → Prop
  | devices : Alike .devices .devices
  | owners (owned : List UUID) : Alike (.owners owned) (.owners owned)
  | writing {todo todo' : List Insertion} {drawn drawn' : Option ℕ} {returned returned' : List Returned}
      (rows : todo'.map Insertion.revision = todo.map Insertion.revision)
        (draws : drawn'.isSome = drawn.isSome)
      (flags : returned'.map Returned.flag = returned.map Returned.flag) :
      Alike (.writing todo drawn returned) (.writing todo' drawn' returned')
  | counting {returned returned' : List Returned}
      (flags : returned'.map Returned.flag = returned.map Returned.flag) :
      Alike (.counting returned) (.counting returned')
  | committing {returned returned' : List Returned} (counted : Option Instant)
      (flags : returned'.map Returned.flag = returned.map Returned.flag) :
      Alike (.committing returned counted) (.committing returned' counted)

structure PushRun.Alike (rt : Runtime) (run run' : PushRun) : Prop where
  user : run'.user = run.user
  scanned : run.scanned.Redated rt run'.scanned
  rejects : run'.rejects = run.rejects
  now : run'.now = run.now
  stage : run.stage.Alike run'.stage

/-- The same push, or no push in both. -/
inductive Proc.Alike (rt : Runtime) : Proc → Proc → Prop
  | push {run run' : PushRun} (runs : run.Alike rt run') : Alike rt (.push run) (.push run')
  | other {proc proc' : Proc} (first : proc.pusher = none) (second : proc'.pusher = none) :
    Alike rt proc proc'

inductive Effect.Alike (rt : Runtime) : Effect → Effect → Prop
  | read {next next' : Proc} (goes : next.Alike rt next') : Alike rt (.read next) (.read next')
  | draw {next next' : Proc} (goes : next.Alike rt next') : Alike rt (.draw next) (.draw next')
  | lock (id : UUID) {next next' : Proc} (goes : next.Alike rt next') :
      Alike rt (.lock id next) (.lock id next')
  | insert (id : UUID) {row row' : Expense} (rows : row'.revision = row.revision) {next next' : Proc}
      (goes : next.Alike rt next') : Alike rt (.insert id row next) (.insert id row' next')
  | update (id : UUID) {row row' : Expense} (rows : row'.revision = row.revision) {next next' : Proc}
      (goes : next.Alike rt next') : Alike rt (.update id row next) (.update id row' next')
  | count (key : UUID × Period) (counter : UsageCounter) {next next' : Proc} (goes : next.Alike rt next') :
      Alike rt (.count key counter next) (.count key counter next')
  | commit {next next' : Proc} (goes : next.Alike rt next') : Alike rt (.commit next) (.commit next')
  | rollback : Alike rt .rollback .rollback

/-- What two runs have in common. -/
structure Alike (rt : Runtime) (s s' : SyncSystem) : Prop where
  devices : s'.devices = s.devices
  procs : ∀ t, (s.procs t).Alike rt (s'.procs t)
  stored : coreOf Expense.revision s'.expenses.committed = coreOf Expense.revision s.expenses.committed
  drafts : ∀ t, (s.procs t).pusher ≠ none →
    coreOf Expense.revision (s'.expenses.drafts t) = coreOf Expense.revision (s.expenses.drafts t)
  counters : ∀ key, s'.usage.committed.lookup key = s.usage.committed.lookup key
  counting : ∀ t, (s.procs t).pusher ≠ none → ∀ key,
    (s'.usage.drafts t).lookup key = (s.usage.drafts t).lookup key

section

variable {rt : Runtime} {settings settings' : Settings} {s s' next next' : SyncSystem} {t u : ℕ}
  {clock : Instant} {effect effect' : Effect} {run run' : PushRun}

theorem newCount_of_flags {returned returned' : List Returned}
    (h : returned'.map Returned.flag = returned.map Returned.flag) : newCount returned' =
      newCount returned := by
  have hcount (rows : List Returned) : newCount rows = ((rows.map Returned.flag).filter (·.2)).length := by
    rw [List.filter_map, List.length_map]
    rfl
  rw [hcount, hcount, h]

theorem Alike.visible (h : Alike rt s s') (hpush : (s.procs t).pusher ≠ none) (id : UUID) :
    (s'.expenses.visible t id).map Expense.revision = (s.expenses.visible t id).map Expense.revision := by
  have hdrafts := congrFun (h.drafts t hpush) id
  have hstored := congrFun h.stored id
  unfold coreOf at hdrafts hstored
  rw [Versioned.visible, Versioned.visible, Option.map_or, Option.map_or, hdrafts, hstored]

theorem Alike.existingOwners (h : Alike rt s s') (hpush : (s.procs t).pusher ≠ none) (ids : List UUID) :
    existingOwners (s'.expenses.view t) ids = existingOwners (s.expenses.view t) ids := by
  have howner (row : Option Expense) : row.map Expense.userId = (row.map Expense.revision).map Prod.fst := by
    rw [Option.map_map]
    rfl
  funext id
  unfold VoiceSpend.existingOwners
  rw [Versioned.lookup_view, Versioned.lookup_view]
  split
  · exact (howner _).trans ((congrArg _ (h.visible hpush id)).trans (howner _).symm)
  · rfl

/-- Checked against the same owners, the same records go on to the upsert. -/
theorem Alike.checked (h : Alike rt s s') (hpush : (s.procs t).pusher ≠ none) {user : UUID}
    {scanned scanned' : Scan} (hscanned : scanned.Redated rt scanned') (rejects : UUID → Option String)
    (now clock : Instant) (owned : List UUID) :
    ((PushRun.mk user scanned rejects now (.owners owned)).statement rt s t clock).Alike rt
      ((PushRun.mk user scanned' rejects now (.owners owned)).statement rt s' t clock) := by
  obtain ⟨hrejects, hrecords⟩ := checkOwners_redated owned
    (VoiceSpend.existingOwners (s.expenses.view t) (scanned.parsed.map ExpenseSyncIn.id)) user hscanned
  have hinsertions := toInsertions_redated hrecords
  simp only [PushRun.statement, ids_of_redated hscanned.parsed, h.existingOwners hpush]
  cases hrows : toInsertions rt (checkOwners owned (VoiceSpend.existingOwners (s.expenses.view t)
      (scanned.parsed.map ExpenseSyncIn.id)) user scanned).2 with
  | none =>
    rw [hrows, Option.map_none, Option.map_eq_none_iff] at hinsertions
    rw [hinsertions]
    exact .rollback
  | some insertions =>
    rw [hrows, Option.map_some] at hinsertions
    obtain ⟨insertions', hrows', hsame⟩ := Option.map_eq_some_iff.mp hinsertions
    rw [hrows']
    exact .read (.push ⟨rfl, hscanned, hrejects, rfl, .writing hsame rfl rfl⟩)

/-- The upsert of a record inserts it, updates its row or leaves it alone in both systems: it compares
revisions only. -/
theorem Alike.upserted (h : Alike rt s s') (hpush : (s.procs t).pusher ≠ none) {user : UUID}
    {scanned scanned' : Scan} (hscanned : scanned.Redated rt scanned') (rejects : UUID → Option String)
    (now clock : Instant) {insertion insertion' : Insertion} {todo todo' : List Insertion}
    (hinsertion : insertion'.revision = insertion.revision)
    (htodo : todo'.map Insertion.revision = todo.map Insertion.revision) (drawn drawn' : ℕ)
    {returned returned' : List Returned} (flags : returned'.map Returned.flag = returned.map Returned.flag) :
    ((PushRun.mk user scanned rejects now (.writing (insertion :: todo) (some drawn) returned)).statement
        rt s t clock).Alike rt
      ((PushRun.mk user scanned' rejects now
        (.writing (insertion' :: todo') (some drawn') returned')).statement rt s' t clock) := by
  obtain ⟨hid, hrev⟩ := Prod.mk.inj hinsertion
  have hgoto {rows rows' : List Returned} (hrows : rows'.map Returned.flag = rows.map Returned.flag) :
      (Proc.push ⟨user, scanned, rejects, now, .writing todo none rows⟩).Alike rt
        (.push ⟨user, scanned', rejects, now, .writing todo' none rows'⟩) :=
    .push ⟨rfl, hscanned, rfl, rfl, .writing htodo rfl hrows⟩
  have hflags (wasInserted : Bool) (seq seq' : ℕ) :
      (returned' ++ [Returned.mk insertion.id seq' wasInserted]).map Returned.flag =
        (returned ++ [Returned.mk insertion.id seq wasInserted]).map Returned.flag := by
    rw [List.map_append, List.map_append, flags]
    rfl
  have hvisible := h.visible hpush insertion.id
  simp only [PushRun.statement, hid]
  cases hrow : s.expenses.visible t insertion.id with
  | none =>
    rw [hrow, Option.map_none, Option.map_eq_none_iff] at hvisible
    rw [hvisible]
    refine .insert _ ?_ (hgoto (hflags ..))
    exact congrArg (Prod.mk user) hrev
  | some row =>
    rw [hrow, Option.map_some] at hvisible
    obtain ⟨row', hrow', hsame⟩ := Option.map_eq_some_iff.mp hvisible
    obtain ⟨huser, hold⟩ := Prod.mk.inj hsame
    rw [hrow']
    dsimp only
    rw [hold, hrev]
    split
    · refine .update _ ?_ (hgoto (hflags ..))
      change (row'.userId, insertion'.client.clientRev) = (row.userId, insertion.client.clientRev)
      rw [huser, hrev]
    · exact .lock _ (hgoto flags)

/-- The statements of a push are alike. -/
theorem Alike.statement (h : Alike rt s s') (hproc : s.procs t = .push run) (hruns : run.Alike rt run')
    (clock : Instant) : (run.statement rt s t clock).Alike rt (run'.statement rt s' t clock) := by
  have hpush : (s.procs t).pusher ≠ none := by
    rw [hproc]
    exact Option.some_ne_none _
  obtain ⟨_, scanned, _, _, stage⟩ := run
  obtain ⟨user, scanned', rejects, now, stage'⟩ := run'
  obtain ⟨rfl, hscanned, rfl, rfl, hstage⟩ := hruns
  have hgoto {stage stage' : PushStage} (hstage : stage.Alike stage') :
      (Proc.push ⟨user, scanned, rejects, now, stage⟩).Alike rt
        (.push ⟨user, scanned', rejects, now, stage'⟩) :=
    .push ⟨rfl, hscanned, rfl, rfl, hstage⟩
  cases hstage with
  | devices =>
    simp only [PushRun.statement, deviceIds_of_redated hscanned.parsed, h.devices]
    exact .read (hgoto (.owners _))
  | owners owned => exact h.checked hpush hscanned rejects now clock owned
  | @writing todo todo' drawn drawn' returned returned' rows draws flags =>
    cases todo with
    | nil =>
      rw [List.map_nil, List.map_eq_nil_iff] at rows
      subst rows
      exact .read (hgoto (.counting flags))
    | cons insertion todo =>
      obtain ⟨insertion', todo', rfl, hinsertion, htodo⟩ := List.map_eq_cons_iff.mp rows
      cases drawn with
      | none =>
        rw [Option.isSome_none, Option.isSome_eq_false_iff, Option.isNone_iff_eq_none] at draws
        subst draws
        exact .draw (hgoto (.writing rows rfl flags))
      | some drawn =>
        obtain ⟨drawn', rfl⟩ := Option.isSome_iff_exists.mp draws
        exact h.upserted hpush hscanned rejects now clock hinsertion htodo drawn drawn' flags
  | counting flags =>
    simp only [PushRun.statement, newCount_of_flags flags]
    split
    · exact .read (hgoto (.committing none flags))
    · have hcounter : s'.usage.visible t (user, currentPeriod clock) =
          s.usage.visible t (user, currentPeriod clock) := by
        rw [Versioned.visible, Versioned.visible, h.counting t hpush, h.counters]
      rw [hcounter]
      split
      · exact .rollback
      · exact .count _ _ (hgoto (.committing (some clock) flags))
  | committing counted flags => exact .commit (.other rfl rfl)

theorem Proc.Alike.pusher_eq_none_iff {proc proc' : Proc} (h : proc.Alike rt proc') :
    proc'.pusher = none ↔ proc.pusher = none := by
  cases h with
  | push => exact iff_of_false (Option.some_ne_none _) (Option.some_ne_none _)
  | other first second => exact iff_of_true second first

/-! ## Steps of a push -/

/-- What a statement leaves to show is about its own transaction and the committed rows. -/
theorem Alike.of_performs (h : Alike rt s s') (performs : Performs s t effect next)
    (performs' : Performs s' t effect' next') (hgoes : effect.next.Alike rt effect'.next)
    (hdevices : next'.devices = next.devices)
    (hstored : coreOf Expense.revision next'.expenses.committed =
      coreOf Expense.revision next.expenses.committed)
    (hcounters : ∀ key, next'.usage.committed.lookup key = next.usage.committed.lookup key)
    (hdrafts : effect.next.pusher ≠ none →
      coreOf Expense.revision (next'.expenses.drafts t) = coreOf Expense.revision (next.expenses.drafts t))
    (hcounting : effect.next.pusher ≠ none → ∀ key,
      (next'.usage.drafts t).lookup key = (next.usage.drafts t).lookup key) : Alike rt next next' := by
  refine ⟨hdevices, fun u ↦ ?_, hstored, fun u hpush ↦ ?_, hcounters, fun u hpush key ↦ ?_⟩
  · by_cases hu : u = t
    · rw [hu, performs.proc, performs'.proc]
      exact hgoes
    · rw [(performs.untouched hu).proc, (performs'.untouched hu).proc]
      exact h.procs u
  · by_cases hu : u = t
    · subst hu
      exact hdrafts (performs.proc ▸ hpush)
    · rw [(performs.untouched hu).proc] at hpush
      rw [(performs.untouched hu).expenses, (performs'.untouched hu).expenses]
      exact h.drafts u hpush
  · by_cases hu : u = t
    · subst hu
      exact hcounting (performs.proc ▸ hpush) key
    · rw [(performs.untouched hu).proc] at hpush
      rw [(performs.untouched hu).usage, (performs'.untouched hu).usage]
      exact h.counting u hpush key

theorem Alike.performs (h : Alike rt s s') (hpush : (s.procs t).pusher ≠ none)
    (heffect : effect.Alike rt effect') (performs : Performs s t effect next)
    (performs' : Performs s' t effect' next') : Alike rt next next' := by
  have hwrite {id : UUID} {row row' : Expense} (hrow : row'.revision = row.revision)
      (hfree : s.expenses.Free t id) (hfree' : s'.expenses.Free t id) :
      coreOf Expense.revision ((s'.expenses.write t id row' hfree').drafts t) =
        coreOf Expense.revision ((s.expenses.write t id row hfree).drafts t) := by
    funext other
    unfold coreOf
    rw [Versioned.lookup_write_drafts, Versioned.lookup_write_drafts]
    split
    · rw [Option.map_some, Option.map_some, hrow]
    · exact congrFun (h.drafts t hpush) other
  have hstep := h.of_performs performs performs'
  cases heffect with
  | read goes | draw goes | lock id goes =>
    cases performs
    cases performs'
    exact hstep goes h.devices h.stored h.counters (fun _ ↦ h.drafts t hpush) fun _ ↦ h.counting t hpush
  | insert id rows goes =>
    cases performs with
    | insert _ _ _ hfree =>
      cases performs' with
      | insert _ _ _ hfree' =>
        exact hstep goes h.devices h.stored h.counters (fun _ ↦ hwrite rows hfree hfree')
          fun _ ↦ h.counting t hpush
  | @update id row row' rows next next' goes =>
    have hstamped : (s'.stamped row').revision = (s.stamped row).revision := rows
    cases performs with
    | update _ _ _ hfree =>
      cases performs' with
      | update _ _ _ hfree' =>
        exact hstep goes h.devices h.stored h.counters (fun _ ↦ hwrite hstamped hfree hfree')
          fun _ ↦ h.counting t hpush
  | count key counter goes =>
    cases performs with
    | count _ _ _ hfree =>
      cases performs' with
      | count _ _ _ hfree' =>
        refine hstep goes h.devices h.stored h.counters (fun _ ↦ h.drafts t hpush) fun _ other ↦ ?_
        change ((s'.usage.write t key counter hfree').drafts t).lookup other =
          ((s.usage.write t key counter hfree).drafts t).lookup other
        rw [Versioned.lookup_write_drafts, Versioned.lookup_write_drafts, h.counting t hpush]
  | commit goes =>
    cases performs
    cases performs'
    refine hstep goes h.devices (funext fun id ↦ ?_) (fun key ↦ ?_) (fun _ ↦ ?_) fun _ key ↦ ?_
    · change ((s'.expenses.commit t).committed.lookup id).map Expense.revision =
        ((s.expenses.commit t).committed.lookup id).map Expense.revision
      rw [Versioned.lookup_commit, Versioned.lookup_commit]
      exact h.visible hpush id
    · change (s'.usage.commit t).committed.lookup key = (s.usage.commit t).committed.lookup key
      rw [Versioned.lookup_commit, Versioned.lookup_commit, Versioned.visible, Versioned.visible,
        h.counting t hpush, h.counters]
    · change coreOf _ (Function.update s'.expenses.drafts t ∅ t) =
        coreOf _ (Function.update s.expenses.drafts t ∅ t)
      rw [Function.update_self, Function.update_self]
    · change (Function.update s'.usage.drafts t ∅ t).lookup key =
        (Function.update s.usage.drafts t ∅ t).lookup key
      rw [Function.update_self, Function.update_self]
  | rollback =>
    cases performs
    cases performs'
    exact hstep (.other rfl rfl) h.devices h.stored h.counters (absurd rfl) (absurd rfl)

/-- The next statement of a push runs in both systems. -/
theorem Alike.advanced (h : Alike rt s s') (hpush : (s.procs t).pusher ≠ none) {clock : Instant}
    (hstep : SyncSystem.step rt settings s (.advance t clock) = some next)
    (hstep' : SyncSystem.step rt settings' s' (.advance t clock) = some next') : Alike rt next next' := by
  have hprocs := h.procs t
  cases hproc : s.procs t with
  | push run =>
    rw [hproc] at hprocs
    cases hproc' : s'.procs t with
    | push run' =>
      rw [hproc'] at hprocs
      cases hprocs with
      | push runs =>
        simp only [SyncSystem.step, SyncSystem.statement, hproc, hproc', Option.bind_some] at hstep hstep'
        exact h.performs hpush (h.statement hproc runs clock) (SyncSystem.perform_performs hstep)
          (SyncSystem.perform_performs hstep')
      | other first => cases first
    | idle | sweep | nullify | answered | done | failed =>
      rw [hproc'] at hprocs
      cases hprocs with
      | other first => cases first
  | idle | sweep | nullify | answered | done | failed =>
    rw [hproc] at hpush
    exact absurd rfl hpush

/-! ## Other steps -/

/-- A step that is none of a push leaves all this as it is. -/
structure Unpushed (s next : SyncSystem) : Prop where
  devices : next.devices = s.devices
  procs : ∀ t, next.procs t = s.procs t ∨ (s.procs t).pusher = none ∧ (next.procs t).pusher = none
  stored : coreOf Expense.revision next.expenses.committed = coreOf Expense.revision s.expenses.committed
  drafts : ∀ t, (s.procs t).pusher ≠ none → next.expenses.drafts t = s.expenses.drafts t
  counters : next.usage.committed = s.usage.committed
  counting : ∀ t, (s.procs t).pusher ≠ none → next.usage.drafts t = s.usage.drafts t

theorem Unpushed.pusher (h : Unpushed s next) (hpush : (next.procs t).pusher ≠ none) :
    (s.procs t).pusher ≠ none := by
  rcases h.procs t with hsame | ⟨_, hnone⟩
  · exact hsame ▸ hpush
  · exact absurd hnone hpush

theorem Alike.left (h : Alike rt s s') (hsame : Unpushed s next) : Alike rt next s' := by
  refine ⟨h.devices.trans hsame.devices.symm, fun u ↦ ?_, h.stored.trans hsame.stored.symm,
    fun u hpush ↦ ?_, fun key ↦ ?_, fun u hpush key ↦ ?_⟩
  · rcases hsame.procs u with heq | ⟨hnone, hnext⟩
    · rw [heq]
      exact h.procs u
    · exact .other hnext ((h.procs u).pusher_eq_none_iff.mpr hnone)
  · rw [hsame.drafts u (hsame.pusher hpush)]
    exact h.drafts u (hsame.pusher hpush)
  · rw [hsame.counters]
    exact h.counters key
  · rw [hsame.counting u (hsame.pusher hpush)]
    exact h.counting u (hsame.pusher hpush) key

theorem Alike.right (h : Alike rt s s') (hsame : Unpushed s' next) : Alike rt s next := by
  have hpusher {u : ℕ} (hpush : (s.procs u).pusher ≠ none) : (s'.procs u).pusher ≠ none :=
    fun hnone ↦ hpush ((h.procs u).pusher_eq_none_iff.mp hnone)
  refine ⟨hsame.devices.trans h.devices, fun u ↦ ?_, hsame.stored.trans h.stored,
    fun u hpush ↦ ?_, fun key ↦ ?_, fun u hpush key ↦ ?_⟩
  · rcases hsame.procs u with heq | ⟨hnone, hnext⟩
    · rw [heq]
      exact h.procs u
    · exact .other ((h.procs u).pusher_eq_none_iff.mp hnone) hnext
  · rw [hsame.drafts u (hpusher hpush)]
    exact h.drafts u hpush
  · rw [hsame.counters]
    exact h.counters key
  · rw [hsame.counting u (hpusher hpush)]
    exact h.counting u hpush key

section

variable {action : SyncAction} {trace trace' : List (SyncSystem × SyncAction)} {expenses : Table UUID Expense}

theorem Outcome.unpushed (h : Outcome rt settings s action next)
    (hserialized : Serialized rt expenses trace s)
    (htally : ∀ u, Tally s.expenses s.usage u (s.procs u)) (hpushes : s.pushes action = false) :
    Unpushed s next := by
  have hactor {u : ℕ} (hpush : (s.procs u).pusher ≠ none) : action.actor ≠ some u := by
    intro heq
    cases h with
    | started t request idle =>
      cases heq
      exact hpush (by rw [idle]; rfl)
    | pushed t clock run running | swept t clock run running | nullified t clock run running
    | aborted t running =>
      cases heq
      exact hpush (Option.not_isSome_iff_eq_none.mp (Bool.eq_false_iff.mp hpushes))
    | ratesUpserted | pulled => cases heq
  have hreturned : committedReturned (s, action) = none := by
    rw [Option.eq_none_iff_forall_ne_some]
    rintro ⟨t, returned⟩ hsome
    obtain ⟨clock, run, counted, rfl, hrun, _⟩ := committedReturned_eq_some hsome
    exact hactor (u := t) (by rw [hrun]; exact Option.some_ne_none _) rfl
  have hcommitted : committedPush (s, action) = none := by
    rw [Option.eq_none_iff_forall_ne_some]
    intro push hsome
    obtain ⟨t, clock, run, _, _, rfl, hrun, _⟩ := committedPush_eq_some hsome
    exact hactor (u := t) (by rw [hrun]; exact Option.some_ne_none _) rfl
  refine ⟨h.devices, fun u ↦ ?_, ?_, fun u hpush ↦ (h.untouched (hactor hpush)).expenses,
    (h.unrecorded htally hcommitted).usage, fun u hpush ↦ (h.untouched (hactor hpush)).usage⟩
  · by_cases heq : action.actor = some u
    · refine .inr ⟨not_not.mp fun hpush ↦ hactor hpush heq, ?_⟩
      cases h with
      | started t request idle =>
        cases heq
        rw [SyncSystem.setProc_procs]
        cases request with
        | push => cases hpushes
        | sweep | nullify => rfl
      | pushed t clock run running =>
        rw [SyncSystem.pushes, running] at hpushes
        cases hpushes
      | swept t clock run running effect steps next performs =>
        cases heq
        rw [performs.proc]
        cases steps <;> rfl
      | nullified t clock run running effect steps next performs =>
        cases heq
        rw [performs.proc]
        cases steps <;> rfl
      | aborted t running =>
        cases heq
        rw [SyncSystem.rollback_procs]
        rfl
      | ratesUpserted | pulled => cases heq
    · exact .inl (h.untouched heq).proc
  · have hpushed : coreOf Expense.pushed next.expenses.committed =
        coreOf Expense.pushed s.expenses.committed := by
      rw [hserialized.store_step h, hreturned]
      rfl
    have hrevision (table : Table UUID Expense) : coreOf Expense.revision table = fun id ↦
        (coreOf Expense.pushed table id).map fun row ↦ (row.userId, row.client.clientRev) := by
      funext id
      rw [coreOf, coreOf, Option.map_map]
      rfl
    rw [hrevision, hrevision, hpushed]

/-! ## Runs -/

/-- Both runs begin the same push. -/
theorem Alike.started (h : Alike rt s s') (user : UUID) (now : Instant) {batch batch' : List RawRecord}
    (records : List.Forall₂ (VoiceSpend.Redated rt) batch batch')
    (hdrafts : s.expenses.drafts t = ∅ ∧ s.usage.drafts t = ∅)
    (hdrafts' : s'.expenses.drafts t = ∅ ∧ s'.usage.drafts t = ∅) :
    Alike rt (s.setProc t ((SyncRequest.push user batch now).proc rt))
      (s'.setProc t ((SyncRequest.push user batch' now).proc rt)) := by
  refine ⟨h.devices, fun u ↦ ?_, h.stored, fun u hpush ↦ ?_, h.counters, fun u hpush key ↦ ?_⟩
  · by_cases hu : u = t
    · rw [hu, SyncSystem.setProc_procs, SyncSystem.setProc_procs]
      exact .push ⟨rfl, scan_batch_redated records, rfl, rfl, .devices⟩
    · change (Function.update s.procs t _ u).Alike rt (Function.update s'.procs t _ u)
      rw [Function.update_of_ne hu, Function.update_of_ne hu]
      exact h.procs u
  · change coreOf _ (s'.expenses.drafts u) = coreOf _ (s.expenses.drafts u)
    by_cases hu : u = t
    · rw [hu, hdrafts.1, hdrafts'.1]
    · have hold : (Function.update s.procs t _ u).pusher ≠ none := hpush
      rw [Function.update_of_ne hu] at hold
      exact h.drafts u hold
  · change (s'.usage.drafts u).lookup key = (s.usage.drafts u).lookup key
    by_cases hu : u = t
    · rw [hu, hdrafts.2, hdrafts'.2]
    · have hold : (Function.update s.procs t _ u).pusher ≠ none := hpush
      rw [Function.update_of_ne hu] at hold
      exact h.counting u hold key

/-- An idle process has no versions. -/
theorem drafts_of_idle (hserialized : Serialized rt expenses trace s)
    (htally : Tally s.expenses s.usage t (s.procs t)) (hidle : s.procs t = .idle) :
    s.expenses.drafts t = ∅ ∧ s.usage.drafts t = ∅ := by
  refine ⟨(hserialized.placed t).closed (by rw [hidle]; rfl), ?_⟩
  rw [hidle] at htally
  cases htally.counter with
  | untouched empty _ => exact empty
  | added user clock now counter pusher => cases pusher

/-- Two runs whose pushes take the same steps, but for dates, are alike in the end. -/
theorem alike_of_runs {users users' : Table UUID User} {devices : Table UUID Device}
    {fxRates fxRates' : FxTable}
    {reader reader' : UUID}
    (hrun : Run (SyncSystem.step rt settings) (fun _ _ ↦ True) (.initial users devices fxRates reader)
      trace s)
    (hrun' : Run (SyncSystem.step rt settings') (fun _ _ ↦ True) (.initial users' devices fxRates' reader')
      trace' s')
    (hsame : List.Forall₂ (SyncAction.Redated rt) (shownActions SyncSystem.pushes trace)
      (shownActions SyncSystem.pushes trace')) : Alike rt s s' := by
  refine hrun.alike (Alike rt) (SyncAction.Redated rt) SyncSystem.pushes SyncSystem.pushes ?_ ?_ ?_ ?_
    hrun' hsame
  · exact ⟨rfl, fun _ ↦ .other rfl rfl, rfl, fun _ _ ↦ rfl, fun _ ↦ rfl, fun _ _ _ ↦ rfl⟩
  · intro trace s action next s' hrun hstep hpushes halike
    exact halike.left ((SyncSystem.step_outcome hstep).unpushed (serialized_of_run hrun)
      (tally_of_run ⟨_, _, _, _, hrun⟩) hpushes)
  · intro trace s' action next s hrun hstep hpushes halike
    exact halike.right ((SyncSystem.step_outcome hstep).unpushed (serialized_of_run hrun)
      (tally_of_run ⟨_, _, _, _, hrun⟩) hpushes)
  · intro trace trace' s s' action action' next next' hrun hrun' hstep hstep' hpushes _ hredated halike
    have hstart {t : ℕ} {user : UUID} {now : Instant} {batch batch' : List RawRecord}
        (records : List.Forall₂ (VoiceSpend.Redated rt) batch batch')
        (hstep : SyncSystem.step rt settings s (.start t (.push user batch now)) = some next)
        (hstep' : SyncSystem.step rt settings' s' (.start t (.push user batch' now)) = some next') :
        Alike rt next next' := by
      cases SyncSystem.step_outcome hstep with
      | started _ _ idle =>
        cases SyncSystem.step_outcome hstep' with
        | started _ _ idle' =>
          exact halike.started user now records
            (drafts_of_idle (serialized_of_run hrun) (tally_of_run ⟨_, _, _, _, hrun⟩ t) idle)
            (drafts_of_idle (serialized_of_run hrun') (tally_of_run ⟨_, _, _, _, hrun'⟩ t) idle')
    cases hredated with
    | push t user now records => exact hstart records hstep hstep'
    | same action =>
      cases action with
      | start t request =>
        cases request with
        | push user batch now => exact hstart (List.forall₂_same.mpr fun raw _ ↦ .same raw) hstep hstep'
        | sweep | nullify => cases hpushes
      | advance t clock => exact halike.advanced (Option.isSome_iff_ne_none.mp hpushes) hstep hstep'
      | abort t =>
        have hpush : (s.procs t).pusher ≠ none := Option.isSome_iff_ne_none.mp hpushes
        cases SyncSystem.step_outcome hstep with
        | aborted =>
          cases SyncSystem.step_outcome hstep' with
          | aborted => exact halike.performs hpush .rollback .rollback .rollback
      | upsertRates | pull => cases hpushes

/-- In every run from empty tables the counters of a user sum to the number of the user's rows,
every row was inserted by exactly one committed push, and every counter is the sum of what the
pushes inserted at its period. In two runs whose pushes take the same steps with the same batches,
but for dates that can be stored, every counter is the same. -/
theorem metering_exact {users : Table UUID User} {devices : Table UUID Device} {fxRates : FxTable}
    {reader : UUID}
    (hrun : Run (SyncSystem.step rt settings) (fun _ _ ↦ True) (.initial users devices fxRates reader)
      trace s) :
    Metered rt settings trace s ∧
      ∀ settings' users' fxRates' reader' trace' s',
        Run (SyncSystem.step rt settings') (fun _ _ ↦ True) (.initial users' devices fxRates' reader')
          trace' s' →
          List.Forall₂ (SyncAction.Redated rt) (shownActions SyncSystem.pushes trace)
            (shownActions SyncSystem.pushes trace') →
          ∀ user period,
            usageCount s'.usage.committed user period = usageCount s.usage.committed user period := by
  refine ⟨metered_of_run ⟨_, _, _, _, hrun⟩, ?_⟩
  intro settings' users' fxRates' reader' trace' s' hrun' hsame user period
  unfold usageCount
  rw [(alike_of_runs hrun hrun' hsame).counters]

end

end

/-- The same record with another date. -/
def RawRecord.redate (raw : RawRecord) (seconds : ℤ) : RawRecord :=
  raw.map fun entry ↦ if entry.1 = Text.unicode "spent_at" then (entry.1, Json.int seconds) else entry

theorem redated_sampleExpense :
    Redated .ascii (sampleExpense 12 1) (RawRecord.redate (sampleExpense 12 1) 1700000000) := by
  refine .dated ⟨_, _, rfl, rfl, by decide⟩ ⟨_, _, rfl, rfl, by decide⟩ fun name hname ↦ ?_
  have hne : (name == (.unicode "spent_at")) = false := beq_eq_false_iff_ne.mpr hname
  simp [sampleExpense, sampleRecord, RawRecord.redate, List.lookup_cons, hne]

/-- One push of one expense, and the same push with another `spent_at` after a sweep. -/
theorem metering_exact_redated : ∃ trace trace' : List (SyncSystem × SyncAction), ∃ s s' : SyncSystem,
    trace.length = 8 ∧ trace'.length = 11 ∧ usageTotal s.usage.committed ⟨1⟩ = 1 ∧
      Metered .ascii sampleSettings trace s ∧
      ∀ user period,
        usageCount s'.usage.committed user period = usageCount s.usage.committed user period := by
  let push (record : RawRecord) := SyncSystem.transaction 0 (.push ⟨1⟩ [record] 0) 7
  let sweep := SyncSystem.transaction 1 (.sweep none none (fun _ ↦ 0) 0) 2
  let redated := RawRecord.redate (sampleExpense 12 1) 1700000000
  let step := SyncSystem.step .ascii sampleSettings
  have hexec : (exec step .sample (push (sampleExpense 12 1))).map
      (fun s ↦ usageTotal s.usage.committed ⟨1⟩) = some 1 := by
    decide +kernel
  have hexec' : (exec step .sample (sweep ++ push redated)).isSome := by
    decide +kernel
  have hpushes : (traceOf step .sample (push (sampleExpense 12 1))).map
      (fun entry ↦ SyncSystem.pushes entry.1 entry.2) = List.replicate 8 true := by
    decide +kernel
  have hpushes' : (traceOf step .sample (sweep ++ push redated)).map
      (fun entry ↦ SyncSystem.pushes entry.1 entry.2) = List.replicate 3 false ++ List.replicate 8 true := by
    decide +kernel
  obtain ⟨s, hs, hone⟩ := Option.map_eq_some_iff.mp hexec
  obtain ⟨s', hs'⟩ := Option.isSome_iff_exists.mp hexec'
  obtain ⟨hmetered, hcounters⟩ := metering_exact (run_of_exec hs)
  have hshown : shownActions SyncSystem.pushes (traceOf step .sample (push (sampleExpense 12 1))) =
      push (sampleExpense 12 1) := by
    rw [shownActions_eq, map_traceOf hs, hpushes]
    rfl
  have hshown' : shownActions SyncSystem.pushes (traceOf step .sample (sweep ++ push redated)) =
      push redated := by
    rw [shownActions_eq, map_traceOf hs', hpushes']
    rfl
  have hlength := congrArg List.length (map_traceOf hs)
  have hlength' := congrArg List.length (map_traceOf hs')
  rw [List.length_map] at hlength hlength'
  have hsame : List.Forall₂ (SyncAction.Redated .ascii)
      (shownActions SyncSystem.pushes (traceOf step .sample (push (sampleExpense 12 1))))
      (shownActions SyncSystem.pushes (traceOf step .sample (sweep ++ push redated))) := by
    rw [hshown, hshown']
    exact .cons (.push 0 ⟨1⟩ 0 (.cons redated_sampleExpense .nil))
      (List.forall₂_same.mpr fun action _ ↦ .same action)
  exact ⟨_, _, s, s', hlength, hlength', hone, hmetered, hcounters _ _ _ _ _ _ (run_of_exec hs') hsame⟩

end VoiceSpend
