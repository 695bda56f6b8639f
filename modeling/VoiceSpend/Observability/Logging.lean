import VoiceSpend.Library.Dict
import VoiceSpend.Library.JsonText
import VoiceSpend.Observability.RequestId

/-!
# One JSON object a line

`JSONFormatter.format` and the handler that `configure_logging` installs, below the tasks of the server:
every record a task logs at `LOG_LEVEL` or above is formatted and its line goes to stdout. What stdout
holds is read back line by line, so no text in a record, whoever chose it, breaks a line or adds one.
-/

namespace VoiceSpend

open JsonText Machine

/-! ## `json.dumps` -/

/-- A key of a Python dictionary; `other` is one that `json` refuses. -/
inductive PyKey
  | str (value : String)
  | scalar (value : Scalar)
  | other

/-- A Python object without cycles. `other` is one that `json` does not know, with its `str`, if that does
not raise. -/
inductive PyObject
  | scalar (value : Scalar)
  | str (value : String)
  | list (items : List PyObject)
  | dict (items : List (PyKey × PyObject))
  | other (text : Option String)

/-- Python refuses to print an integer of more than 4300 digits. -/
def printed : Scalar → Option Scalar
  | .int value => if value.natAbs < 10 ^ 4300 then some (.int value) else none
  | value => some value

def PyKey.dumped : PyKey → Option String
  | .str value => some value
  | .scalar value => (printed value).map fun value ↦ String.ofList value.text
  | .other => none

mutual

/-- What `json.dumps(value, default=str)` writes, or `none` if it raises. -/
def PyObject.dumped : PyObject → Option Value
  | .scalar value => (printed value).map .scalar
  | .str value => some (.string value)
  | .list items => (dumpedItems items).map .array
  | .dict items => (dumpedMembers items).map .object
  | .other text => text.map .string

def dumpedItems : List PyObject → Option (List Value)
  | [] => some []
  | item :: items => item.dumped.bind fun value ↦ (dumpedItems items).map fun values ↦ value :: values

def dumpedMembers : List (PyKey × PyObject) → Option (List (String × Value))
  | [] => some []
  | (key, item) :: items =>
    key.dumped.bind fun key ↦ item.dumped.bind fun value ↦
      (dumpedMembers items).map fun members ↦ (key, value) :: members

end

/-- `None` or a text. -/
def PyObject.ofOption (text : Option String) : PyObject := text.elim (.scalar .null) .str

/-! ## Records -/

def LogLevel.levelno : LogLevel → ℕ
  | .debug => 10
  | .info => 20
  | .warning => 30
  | .error => 40
  | .critical => 50

def LogLevel.levelname : LogLevel → String
  | .debug => "DEBUG"
  | .info => "INFO"
  | .warning => "WARNING"
  | .error => "ERROR"
  | .critical => "CRITICAL"

/-- `_STANDARD_LOG_RECORD_ATTRS` -/
def standardLogRecordAttrs : List String :=
  ["name", "msg", "args", "levelname", "levelno", "pathname", "filename", "module", "exc_info", "exc_text",
    "stack_info", "lineno", "funcName", "created", "msecs", "relativeCreated", "thread", "threadName",
    "processName", "process", "taskName", "message"]

/-- A `logging.LogRecord`: `message` is what `getMessage` returns, unless it raises, `attributes` is
`__dict__`, and `exception` is what `formatException` makes of `exc_info`, if that is set. -/
structure PyLogRecord where
  level : LogLevel
  name : String
  message : Option String
  attributes : Dict String PyObject
  exception : Option String

/-! ## Formatters -/

/-- What the loop of `format` passes over. -/
def skipped (key : String) : PyObject → Bool
  | .scalar .null => true
  | _ => key ∈ standardLogRecordAttrs || key.toList.head? = some '_'

namespace PyLogRecord

def basePayload (record : PyLogRecord) (now message : String) : Dict String PyObject :=
  Dict.empty.setAll [("timestamp", .str now), ("level", .str record.level.levelname),
    ("logger", .str record.name), ("message", .str message)]

/-- `payload`, at this time. -/
def payload (record : PyLogRecord) (now message : String) : Dict String PyObject :=
  let attributes := record.attributes.items.filter fun item ↦ !skipped item.1 item.2
  ((record.basePayload now message).setAll attributes).setAll
    (record.exception.map fun text ↦ ("exc_info", PyObject.str text)).toList

/-- `JSONFormatter.format`, or `none` if it raises. -/
def jsonFormat (record : PyLogRecord) (now : String) : Option Value :=
  record.message.bind fun message ↦
    (PyObject.dict ((record.payload now message).items.map fun item ↦ (.str item.1, item.2))).dumped

/-- The formatter without `LOG_JSON`. -/
def plainFormat (record : PyLogRecord) (now : String) : Option (List Char) :=
  record.message.map fun message ↦
    let line := (now ++ " " ++ record.level.levelname ++ " " ++ record.name ++ " " ++ message).toList
    match record.exception with
    | none => line
    | some text => (if line.getLast? = some '\n' then line else line ++ ['\n']) ++ text.toList

end PyLogRecord

/-- `LOG_JSON`, and the number of `LOG_LEVEL`. -/
structure LogSettings where
  json : Bool
  level : ℕ
  deriving DecidableEq, Repr

/-- What the handler writes for a record; one that cannot be formatted is reported on stderr. -/
def PyLogRecord.emitted (record : PyLogRecord) (settings : LogSettings) (now : String) : List Char :=
  if record.level.levelno < settings.level then []
  else ((if settings.json then (record.jsonFormat now).map Value.text else record.plainFormat now).map
    fun text ↦ text ++ ['\n']).getD []

/-! ## The records of tasks -/

/-- What else there is to a record: the logger and the time, its duration, the text of its exception and all
other attributes. -/
structure LogDetail where
  logger : String
  now : String
  duration : FloatText
  exception : Option String
  attributes : Dict String PyObject

/-- The `extra` of an access line. -/
def AccessExtra.items (extra : AccessExtra) (duration : FloatText) : List (String × PyObject) :=
  [("route", .str extra.route), ("method", .str extra.method),
    ("status_code", .scalar (.int extra.statusCode)), ("duration_ms", .scalar (.float duration))]

/-- The record that the formatter gets; `_ContextFilter` sets the last two attributes. -/
def LogRecord.python (record : LogRecord) (detail : LogDetail) : PyLogRecord where
  level := record.level
  name := detail.logger
  message := some record.message
  attributes :=
    ((detail.attributes.setAll (record.extra.elim [] fun extra ↦ extra.items detail.duration)).set
      "request_id" (.ofOption record.requestId)).set "trace_id" (.ofOption record.traceId)
  exception := detail.exception

/-- The tasks, what stdout holds, and the records behind it. -/
structure LoggingSystem where
  http : HttpSystem
  written : List (LogEntry × LogDetail)
  stdout : List Char

namespace LoggingSystem

/-- A step of a task, with the details of the record it logs, if any. -/
def step (settings : LogSettings) (s : LoggingSystem) (action : HttpAction × LogDetail) :
    Option LoggingSystem :=
  (s.http.step action.1).map fun http ↦
    let logged := http.log.drop s.http.log.length
    { http := http
      written := s.written ++ logged.map fun entry ↦ (entry, action.2)
      stdout := s.stdout ++ logged.flatMap fun entry ↦
        (entry.record.python action.2).emitted settings action.2.now }

def ofContexts (contexts : ℕ → Option ContextVars) : LoggingSystem := ⟨.ofContexts contexts, [], []⟩

end LoggingSystem

/-- The object on the line of a record. -/
def lineOf (line : LogEntry × LogDetail) : Option Value := (line.1.record.python line.2).jsonFormat line.2.now

/-- The attributes that the filter sets. -/
def contextAttrs : List String := ["request_id", "trace_id"]

/-- The attributes that the middleware sets on an access line. -/
def accessAttrs : List String := ["route", "method", "status_code", "duration_ms"]

/-- The members tell what the record says. -/
structure Describes (members : List (String × Value)) (record : LogRecord) (detail : LogDetail) : Prop where
  nodup : (members.map Prod.fst).Nodup
  message : members.lookup "message" = some (.string record.message)
  requestId : members.lookup "request_id" = record.requestId.map Value.string
  traceId : members.lookup "trace_id" = record.traceId.map Value.string
  exception : members.lookup "exc_info" = detail.exception.map Value.string
  access : ∀ extra, record.extra = some extra →
    members.lookup "route" = some (.string extra.route) ∧
      members.lookup "method" = some (.string extra.method) ∧
      members.lookup "status_code" = some (.scalar (.int extra.statusCode)) ∧
      members.lookup "duration_ms" = some (.scalar (.float detail.duration))
  own : ∀ key value, detail.attributes.get? key = some value → skipped key value = false →
    key ∉ contextAttrs → (record.extra.isSome → key ∉ accessAttrs) → members.lookup key = value.dumped
  fixed : ∀ key value, (key, value) ∈ [("timestamp", detail.now), ("level", record.level.levelname),
    ("logger", detail.logger)] → detail.attributes.get? key = none → members.lookup key = some (.string value)

/-- The objects on the lines of these records. -/
def LogSettings.shown (settings : LogSettings) (written : List (LogEntry × LogDetail)) : List Value :=
  (written.filter fun line ↦ settings.level ≤ line.1.record.level.levelno).filterMap lineOf

/-- No line is broken or made up, and each one tells what its record says. A record whose line is missing has
an attribute that cannot be printed. -/
structure LogFaithful (settings : LogSettings) (s : LoggingSystem) : Prop where
  records : s.written.map Prod.fst = s.http.log
  printable : ∀ c ∈ s.stdout, c = '\n' ∨ isPrintable c = true
  lines : readLines s.stdout = (settings.shown s.written).map some
  described : ∀ entry detail, (entry, detail) ∈ s.written →
    match lineOf (entry, detail) with
    | some value => ∃ members, value = .object members ∧ Describes members entry.record detail
    | none => ∃ key value, (entry.record.python detail).attributes.get? key = some value ∧
        skipped key value = false ∧ value.dumped = none

section

/-! ## Dumped dictionaries -/

/-- A dictionary of names is dumped member by member. -/
theorem dumpedMembers_str {items : List (String × PyObject)} {members : List (String × Value)}
    (h : dumpedMembers (items.map fun item ↦ (.str item.1, item.2)) = some members) :
    members.map Prod.fst = items.map Prod.fst ∧ ∀ key,
      members.lookup key = (items.lookup key).bind PyObject.dumped ∧
        ∀ value, items.lookup key = some value → value.dumped ≠ none := by
  induction items generalizing members with
  | nil =>
    cases h
    exact ⟨rfl, fun _ ↦ ⟨rfl, fun _ hnone ↦ by cases hnone⟩⟩
  | cons item items ih =>
    simp only [List.map_cons, dumpedMembers, PyKey.dumped, Option.bind_some] at h
    obtain ⟨value, hvalue, h⟩ := Option.bind_eq_some_iff.mp h
    obtain ⟨rest, hrest, rfl⟩ := Option.map_eq_some_iff.mp h
    obtain ⟨hkeys, hlookup⟩ := ih hrest
    refine ⟨by rw [List.map_cons, List.map_cons, hkeys], fun key ↦ ?_⟩
    rw [Dict.lookup_cons_eq, Dict.lookup_cons_eq]
    split
    · rw [Option.bind_some, hvalue]
      refine ⟨rfl, fun other hother hnone ↦ ?_⟩
      cases hother
      cases hvalue.symm.trans hnone
    · exact hlookup key

theorem dumpedMembers_eq_none {items : List (String × PyObject)}
    (h : dumpedMembers (items.map fun item ↦ (.str item.1, item.2)) = none) :
    ∃ item ∈ items, item.2.dumped = none := by
  induction items with
  | nil => cases h
  | cons item items ih =>
    simp only [List.map_cons, dumpedMembers, PyKey.dumped, Option.bind_some] at h
    cases hvalue : item.2.dumped with
    | none => exact ⟨item, List.mem_cons_self, hvalue⟩
    | some value =>
      rw [hvalue, Option.bind_some, Option.map_eq_none_iff] at h
      obtain ⟨other, hmem, hother⟩ := ih h
      exact ⟨other, List.mem_cons_of_mem _ hmem, hother⟩

/-! ## Payloads -/

theorem skipped_of_mem {key : String} (h : key ∈ standardLogRecordAttrs) (value : PyObject) :
    skipped key value = true := by
  unfold skipped
  split
  · rfl
  · simp [h]

theorem PyLogRecord.get?_payload (record : PyLogRecord) (now message key : String) :
    (record.payload now message).get? key =
      (if key = "exc_info" then record.exception.map PyObject.str else none).or
        (((record.attributes.get? key).filter fun value ↦ !skipped key value).or
          ((record.basePayload now message).get? key)) := by
  have hattributes :
      ((record.attributes.items.filter fun item ↦ !skipped item.1 item.2).map Prod.fst).Nodup :=
    record.attributes.nodup.sublist (List.filter_sublist.map _)
  unfold payload
  simp only
  cases record.exception with
  | none =>
    rw [Option.map_none, Option.map_none, ite_self, Option.none_or]
    exact (Dict.get?_setAll _ hattributes key).trans (by rw [Dict.lookup_filter])
  | some text =>
    have hexception : ([("exc_info", PyObject.str text)].map Prod.fst).Nodup := List.nodup_singleton _
    rw [Option.map_some, Option.map_some, Option.toList_some, Dict.get?_setAll _ hexception,
      Dict.get?_setAll _ hattributes, Dict.lookup_filter, Dict.lookup_cons_eq]
    rfl

theorem PyLogRecord.get?_basePayload (record : PyLogRecord) (now message key : String) :
    (record.basePayload now message).get? key = [("timestamp", PyObject.str now),
      ("level", .str record.level.levelname), ("logger", .str record.name),
      ("message", .str message)].lookup key := by
  have hnodup : ([("timestamp", PyObject.str now), ("level", .str record.level.levelname),
      ("logger", .str record.name), ("message", .str message)].map Prod.fst).Nodup := by
    simp only [List.map_cons, List.map_nil]
    decide
  rw [basePayload, Dict.get?_setAll _ hnodup]
  exact Option.or_none

/-- A key that the attributes leave free. -/
theorem PyLogRecord.get?_payload_free {record : PyLogRecord} {key : String} (now message : String)
    (hkey : key ≠ "exc_info")
    (h : ∀ value, record.attributes.get? key = some value → skipped key value = true) :
    (record.payload now message).get? key = (record.basePayload now message).get? key := by
  have hnone : ((record.attributes.get? key).filter fun value ↦ !skipped key value) = none := by
    rw [Option.filter_eq_none_iff]
    intro value hvalue
    rw [h value hvalue]
    decide
  rw [get?_payload, if_neg hkey, hnone, Option.none_or, Option.none_or]

/-- An attribute that is not passed over. -/
theorem PyLogRecord.get?_payload_attribute {record : PyLogRecord} {key : String} {value : PyObject}
    (now message : String) (h : record.attributes.get? key = some value)
    (hskipped : skipped key value = false) : (record.payload now message).get? key = some value := by
  have hkey : key ≠ "exc_info" := by
    rintro rfl
    rw [skipped_of_mem (by decide)] at hskipped
    cases hskipped
  rw [get?_payload, if_neg hkey, h, Option.filter_some, hskipped]
  rfl

theorem PyLogRecord.get?_payload_exception (record : PyLogRecord) (now message : String) :
    (record.payload now message).get? "exc_info" = record.exception.map PyObject.str := by
  have hnone : ((record.attributes.get? "exc_info").filter fun value ↦ !skipped "exc_info" value) = none := by
    rw [Option.filter_eq_none_iff]
    intro value _
    rw [skipped_of_mem (by decide)]
    decide
  rw [get?_payload, if_pos rfl, hnone, get?_basePayload, Option.none_or]
  exact Option.or_none

/-! ## What a line says -/

variable {record : LogRecord} {detail : LogDetail} {members : List (String × Value)}

/-- The attributes of a task's record. -/
theorem LogRecord.get?_attributes (record : LogRecord) (detail : LogDetail) (key : String) :
    (record.python detail).attributes.get? key =
      if key = "trace_id" then some (.ofOption record.traceId)
      else if key = "request_id" then some (.ofOption record.requestId)
      else ((record.extra.elim [] fun extra ↦ extra.items detail.duration).lookup key).or
        (detail.attributes.get? key) := by
  have hnodup : ((record.extra.elim [] fun extra ↦ extra.items detail.duration).map Prod.fst).Nodup := by
    cases record.extra with
    | none => exact List.nodup_nil
    | some extra =>
      simp only [Option.elim_some, AccessExtra.items, List.map_cons, List.map_nil]
      decide
  rw [python, Dict.get?_set, Dict.get?_set, Dict.get?_setAll _ hnodup]

theorem LogRecord.get?_attributes_own (record : LogRecord) (detail : LogDetail) {key : String}
    (hcontext : key ∉ contextAttrs) (haccess : record.extra.isSome → key ∉ accessAttrs) :
    (record.python detail).attributes.get? key = detail.attributes.get? key := by
  have hne {other : String} (hmem : other ∈ contextAttrs) : key ≠ other := by
    rintro rfl
    exact hcontext hmem
  have hextra : (record.extra.elim [] fun extra ↦ extra.items detail.duration).lookup key = none := by
    apply Dict.lookup_eq_none
    cases hrecord : record.extra with
    | none => exact List.not_mem_nil
    | some extra => exact haccess (by rw [hrecord]; rfl)
  rw [get?_attributes, if_neg (hne (by decide)), if_neg (hne (by decide)), hextra, Option.none_or]

theorem LogRecord.get?_attributes_access (key : String) {extra : AccessExtra} {value : PyObject}
    (hextra : record.extra = some extra) (hkey : key ≠ "trace_id" ∧ key ≠ "request_id")
    (hitem : (extra.items detail.duration).lookup key = some value) :
    (record.python detail).attributes.get? key = some value := by
  rw [get?_attributes, if_neg hkey.1, if_neg hkey.2, hextra, Option.elim_some, hitem]
  rfl

section

variable (h : dumpedMembers (((record.python detail).payload detail.now record.message).items.map fun item ↦
  (.str item.1, item.2)) = some members)

include h

/-- A member is what was dumped for its key. -/
theorem lookup_dumped {key : String} {value : Option PyObject}
    (hvalue : ((record.python detail).payload detail.now record.message).get? key = value) :
    members.lookup key = value.bind PyObject.dumped := by
  rw [((dumpedMembers_str h).2 key).1, ← hvalue]
  rfl

theorem lookup_dumped_attribute {key : String} {value : PyObject}
    (hvalue : (record.python detail).attributes.get? key = some value)
    (hskipped : skipped key value = false) : members.lookup key = value.dumped :=
  lookup_dumped h (PyLogRecord.get?_payload_attribute _ _ hvalue hskipped)

/-- A key that the filter sets; `None` leaves it out. -/
theorem lookup_dumped_context {key : String} {text : Option String} (hkey : key ≠ "exc_info")
    (hbase : ((record.python detail).basePayload detail.now record.message).get? key = none)
    (hstr : ∀ text, skipped key (.str text) = false)
    (hvalue : (record.python detail).attributes.get? key = some (.ofOption text)) :
    members.lookup key = text.map Value.string := by
  cases text with
  | none =>
    have hfree := PyLogRecord.get?_payload_free detail.now record.message hkey fun value hother ↦ by
      cases hvalue.symm.trans hother
      rfl
    exact lookup_dumped h (hfree.trans hbase)
  | some text => exact lookup_dumped_attribute h hvalue (hstr text)

theorem lookup_dumped_exception : members.lookup "exc_info" = detail.exception.map Value.string := by
  rw [lookup_dumped h (PyLogRecord.get?_payload_exception _ _ _)]
  change (detail.exception.map PyObject.str).bind PyObject.dumped = _
  cases detail.exception <;> rfl

/-- The status code was printed, so it is short enough. -/
theorem lookup_dumped_statusCode {extra : AccessExtra} (hextra : record.extra = some extra) :
    members.lookup "status_code" = some (.scalar (.int extra.statusCode)) := by
  have hattribute : (record.python detail).attributes.get? "status_code" =
      some (.scalar (.int extra.statusCode)) := LogRecord.get?_attributes_access _ hextra (by decide) rfl
  have hprinted := ((dumpedMembers_str h).2 "status_code").2 _
    (PyLogRecord.get?_payload_attribute detail.now record.message hattribute rfl)
  rw [lookup_dumped_attribute h hattribute rfl]
  rw [PyObject.dumped, printed] at hprinted ⊢
  split at hprinted
  · rename_i hshort
    rw [if_pos hshort]
    rfl
  · exact absurd rfl hprinted

/-- The keys that `format` sets first. -/
theorem lookup_dumped_fixed {key value : String} (hmem : (key, value) ∈ [("timestamp", detail.now),
      ("level", record.level.levelname), ("logger", detail.logger)])
    (hnone : detail.attributes.get? key = none) : members.lookup key = some (.string value) := by
  have hfixed : (key ∉ contextAttrs ∧ key ∉ accessAttrs) ∧ key ≠ "exc_info" ∧
      ((record.python detail).basePayload detail.now record.message).get? key = some (.str value) := by
    rw [PyLogRecord.get?_basePayload]
    simp only [List.mem_cons, Prod.mk.injEq, List.not_mem_nil, or_false] at hmem
    rcases hmem with ⟨rfl, rfl⟩ | ⟨rfl, rfl⟩ | ⟨rfl, rfl⟩
    · exact ⟨by decide, by decide, rfl⟩
    · exact ⟨by decide, by decide, rfl⟩
    · exact ⟨by decide, by decide, rfl⟩
  have hattribute := (record.get?_attributes_own detail hfixed.1.1 fun _ ↦ hfixed.1.2).trans hnone
  have hfree := PyLogRecord.get?_payload_free detail.now record.message hfixed.2.1 fun other hother ↦ by
    cases hattribute.symm.trans hother
  exact lookup_dumped h (hfree.trans hfixed.2.2)

/-- An object that was dumped tells what its record says. -/
theorem describes_of_dumped : Describes members record detail := by
  constructor
  · rw [(dumpedMembers_str h).1]
    exact ((record.python detail).payload detail.now record.message).nodup
  · exact lookup_dumped h
      (PyLogRecord.get?_payload_free _ _ (by decide) fun value _ ↦ skipped_of_mem (by decide) value)
  · apply lookup_dumped_context h (by decide) (by rw [PyLogRecord.get?_basePayload]; rfl) (fun _ ↦ rfl)
    rw [LogRecord.get?_attributes]
    rfl
  · apply lookup_dumped_context h (by decide) (by rw [PyLogRecord.get?_basePayload]; rfl) (fun _ ↦ rfl)
    rw [LogRecord.get?_attributes]
    rfl
  · exact lookup_dumped_exception h
  · intro extra hextra
    refine ⟨?_, ?_, lookup_dumped_statusCode h hextra, ?_⟩
    · exact lookup_dumped_attribute h (LogRecord.get?_attributes_access "route" hextra (by decide) rfl) rfl
    · exact lookup_dumped_attribute h (LogRecord.get?_attributes_access "method" hextra (by decide) rfl) rfl
    · exact lookup_dumped_attribute h
        (LogRecord.get?_attributes_access "duration_ms" hextra (by decide) rfl) rfl
  · intro key value hvalue hskipped hcontext haccess
    exact lookup_dumped_attribute h
      ((record.get?_attributes_own detail hcontext haccess).trans hvalue) hskipped
  · exact fun key value hmem hnone ↦ lookup_dumped_fixed h hmem hnone

end

/-- The line of a record. -/
theorem lineOf_described (entry : LogEntry) (detail : LogDetail) :
    match lineOf (entry, detail) with
    | some value => ∃ members, value = .object members ∧ Describes members entry.record detail
    | none => ∃ key value, (entry.record.python detail).attributes.get? key = some value ∧
        skipped key value = false ∧ value.dumped = none := by
  let record := entry.record.python detail
  have hline : lineOf (entry, detail) =
      (dumpedMembers ((record.payload detail.now entry.record.message).items.map fun item ↦
        (.str item.1, item.2))).map .object := rfl
  rw [hline]
  cases hdumped : dumpedMembers ((record.payload detail.now entry.record.message).items.map
      fun item ↦ (.str item.1, item.2)) with
  | some members => exact ⟨members, rfl, describes_of_dumped hdumped⟩
  | none =>
    obtain ⟨⟨key, value⟩, hmem, hvalue⟩ := dumpedMembers_eq_none hdumped
    have hstr (text : String) : value ≠ .str text := by
      rintro rfl
      cases hvalue
    have hget := Dict.get?_of_mem hmem
    rw [PyLogRecord.get?_payload, Option.or_eq_some_iff, Option.or_eq_some_iff] at hget
    rcases hget with hexception | ⟨_, hattribute | ⟨_, hbase⟩⟩
    · split at hexception
      · obtain ⟨text, _, rfl⟩ := Option.map_eq_some_iff.mp hexception
        exact absurd rfl (hstr text)
      · cases hexception
    · obtain ⟨hattribute, hskipped⟩ := Option.filter_eq_some_iff.mp hattribute
      exact ⟨key, value, hattribute, by simpa using hskipped, hvalue⟩
    · rw [PyLogRecord.get?_basePayload] at hbase
      simp only [Dict.lookup_cons_eq, List.lookup_nil] at hbase
      split_ifs at hbase <;> cases hbase <;> exact absurd rfl (hstr _)

/-! ## Runs -/

variable {settings : LogSettings} {contexts : ℕ → Option ContextVars}
  {trace : List (LoggingSystem × (HttpAction × LogDetail))} {s s' : LoggingSystem}

theorem HttpOutcome.log_append {t t' : HttpSystem} {action : HttpAction} (h : HttpOutcome t action t') :
    ∃ new, t'.log = t.log ++ new := by
  cases h with
  | created | dispatched | traced => exact ⟨[], (List.append_nil _).symm⟩
  | logged | left => exact ⟨_, rfl⟩

theorem LogSettings.shown_append (settings : LogSettings) (first second : List (LogEntry × LogDetail)) :
    settings.shown (first ++ second) = settings.shown first ++ settings.shown second := by
  rw [shown, List.filter_append, List.filterMap_append]
  rfl

/-- With `LOG_JSON` a record that is logged and can be printed is one line. -/
theorem emitted_eq (hjson : settings.json = true) (line : LogEntry × LogDetail) :
    (line.1.record.python line.2).emitted settings line.2.now = JsonText.lines (settings.shown [line]) := by
  have hlevel : (line.1.record.python line.2).level = line.1.record.level := rfl
  rw [PyLogRecord.emitted, hlevel, LogSettings.shown, List.filter_singleton]
  by_cases hbelow : line.1.record.level.levelno < settings.level
  · rw [if_pos hbelow, decide_eq_false (Nat.not_le_of_lt hbelow)]
    rfl
  · have hline : (line.1.record.python line.2).jsonFormat line.2.now = lineOf line := rfl
    rw [if_neg hbelow, if_pos hjson, decide_eq_true (Nat.le_of_not_lt hbelow), hline, cond_true,
      List.filterMap_cons, List.filterMap_nil]
    cases lineOf line with
    | none => rfl
    | some value => simp [JsonText.lines]

theorem flatMap_emitted (hjson : settings.json = true) (written : List (LogEntry × LogDetail)) :
    written.flatMap (fun line ↦ (line.1.record.python line.2).emitted settings line.2.now) =
      JsonText.lines (settings.shown written) := by
  induction written with
  | nil => rfl
  | cons line written ih =>
    rw [List.flatMap_cons, ← List.singleton_append, settings.shown_append, lines_append,
      ← emitted_eq hjson, ih]

/-- A step writes the lines of the records it logs. -/
theorem LoggingSystem.step_written (hjson : settings.json = true) {action : HttpAction × LogDetail}
    (hstep : s.step settings action = some s') : ∃ new : List (LogEntry × LogDetail),
    s'.http.log = s.http.log ++ new.map Prod.fst ∧ s'.written = s.written ++ new ∧
      s'.stdout = s.stdout ++ JsonText.lines (settings.shown new) := by
  obtain ⟨http, hhttp, rfl⟩ := Option.map_eq_some_iff.mp hstep
  obtain ⟨new, hnew⟩ := (HttpSystem.step_outcome hhttp).log_append
  have hdrop : http.log.drop s.http.log.length = new := by rw [hnew, List.drop_left]
  refine ⟨new.map fun entry ↦ (entry, action.2), ?_, by rw [hdrop], ?_⟩
  · rw [List.map_map, hnew]
    simp [Function.comp_def]
  · rw [← flatMap_emitted hjson, List.flatMap_map]
    simp only [hdrop]

theorem written_of_run (hjson : settings.json = true)
    (hrun : Run (LoggingSystem.step settings) (fun _ _ ↦ True) (.ofContexts contexts) trace s) :
    s.written.map Prod.fst = s.http.log ∧ s.stdout = JsonText.lines (settings.shown s.written) := by
  apply hrun.invariant fun s ↦ s.written.map Prod.fst = s.http.log ∧
    s.stdout = JsonText.lines (settings.shown s.written)
  · exact ⟨rfl, rfl⟩
  · intro s action s' h _ hstep
    obtain ⟨new, hlog, hwritten, hstdout⟩ := LoggingSystem.step_written hjson hstep
    refine ⟨by rw [hwritten, List.map_append, h.1, hlog], ?_⟩
    rw [hstdout, hwritten, h.2, LogSettings.shown_append, lines_append]

/-- In every run of tasks with `LOG_JSON`, whatever the texts in their records are: what stdout holds is read
back line by line as one object for each record that was logged at `LOG_LEVEL` or above and can be printed. -/
theorem logs_faithful (contexts : ℕ → Option ContextVars) (settings : LogSettings)
    (hjson : settings.json = true)
    (hrun : Run (LoggingSystem.step settings) (fun _ _ ↦ True) (.ofContexts contexts) trace s) :
    LogFaithful settings s := by
  obtain ⟨hrecords, hstdout⟩ := written_of_run hjson hrun
  constructor
  · exact hrecords
  · intro c hmem
    rw [hstdout] at hmem
    exact isPrintable_of_mem_lines hmem
  · rw [hstdout, readLines_lines]
  · exact fun entry detail _ ↦ lineOf_described entry detail

end

/-- A record of the application, or an access line. -/
def LogDetail.sample : LogDetail where
  logger := "app"
  now := "2026-09-14T12:00:00+00:00"
  duration := ⟨"12.34".toList, by decide, by decide, by decide⟩
  exception := none
  attributes := Dict.empty.set "transcript" (.str "coffee\n5 EUR")

/-- The header of the request and the transcript that its handler logs try to make up lines. -/
theorem logs_faithful_sample : ∃ s : LoggingSystem,
    LogFaithful ⟨true, 20⟩ s ∧ s.http.log.length = 3 ∧ (readLines s.stdout).length = 2 := by
  let start : LoggingSystem := .ofContexts fun t ↦ if t = 0 then some ⟨none, none⟩ else none
  let actions : List HttpAction := [.dispatch 0 ⟨"POST", some "7\", \"level\": \"ERROR"⟩ ⟨7⟩,
    .log 0 ⟨.info, "transcription completed", none⟩, .log 0 ⟨.debug, "not shown", none⟩,
    .leave 0 (some .transcribe) (.returned 200)]
  have hexec : (exec (LoggingSystem.step ⟨true, 20⟩) start (actions.map fun action ↦ (action, .sample))).map
      (fun s ↦ (s.http.log.length, (readLines s.stdout).length)) = some (3, 2) := by
    decide +kernel
  obtain ⟨s, hs, hfacts⟩ := Option.map_eq_some_iff.mp hexec
  rw [Prod.mk.injEq] at hfacts
  exact ⟨s, logs_faithful _ _ rfl (run_of_exec hs), hfacts⟩

end VoiceSpend
