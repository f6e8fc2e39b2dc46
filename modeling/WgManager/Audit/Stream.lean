import WgManager.Audit.Hash
import WgManager.Lib.Except
import WgManager.Lib.JsonRead
import WgManager.Lib.Lines

/-!
# The stream of audit lines

`emit` writes a record as one line of JSON on the `wg_manager.audit` logger, and `persist` does so
for every row that it inserts.  Whoever ships the lines elsewhere cuts the stream at line breaks and
reads each line as JSON.  Much of what is in a record comes from outside — a path, a common name, a
reason with somebody's text in it — and must not be able to end its line or to forge a field.

`stream_reads_back` says that the reader gets exactly the records that were emitted, and
`stream_tells_rows` that he gets, for the lines of `persist`, exactly the identities of the rows
that were inserted, in their order.
-/

set_option autoImplicit false

namespace WgManager.Audit

open JsonText PyBytes

/-! ## One record -/

/-- A call `emit(event, **fields)`, at the time `ts`.  The values are what `default=str` leaves of
them: JSON values without floats.  No two fields have one name, and none is named `event`. -/
structure Emission where
  ts : String
  event : String
  fields : RowDict
  not_event : "event" ∉ fields.fields.map Prod.fst

/-- The `record` of a call; a field named `ts` replaces the time. -/
def Emission.record (e : Emission) : Json :=
  .obj (e.fields.fields.foldl putField [("ts", .str e.ts), ("event", .str e.event)])

section

variable (floatRepr : Option ℚ → List Char)

/-- `emit`: the line that is logged; `none` is an exception. -/
def emit (e : Emission) : Option String := dumps floatRepr e.record

end

/-- What the handler of the logger writes: each line with a line break. -/
def stream (lines : List String) : List Char := Lines.unlines (lines.map String.toList)

/-- What stands between the line breaks of a stream, read as JSON. -/
def readStream (cs : List Char) : Option (List Json) :=
  (Lines.lines cs).dropLast.mapM fun line ↦ loads (String.ofList line)

section

variable {floatRepr : Option ℚ → List Char}

/-- A record is a `dict` without floats. -/
theorem record_ok (e : Emission) : NoFloat e.record ∧ Json.DistinctKeys e.record := by
  have hfloat := noFloatFields_iff.mp (by simpa [NoFloat] using e.fields.noFloat)
  have hkeys := e.fields.distinctKeys
  rw [Json.DistinctKeys] at hkeys
  have hdistinct := distinctFields_iff.mp hkeys.2
  have hall := foldl_putField (P := fun f ↦ NoFloat f.2 ∧ Json.DistinctKeys f.2)
    [("ts", .str e.ts), ("event", .str e.event)]
    (by simp [NoFloat, Json.DistinctKeys]) fun f hf ↦ ⟨hfloat f hf, hdistinct f hf⟩
  rw [Emission.record, NoFloat, Json.DistinctKeys, noFloatFields_iff, distinctFields_iff]
  exact ⟨fun f hf ↦ (hall.2 f hf).1, hall.1, fun f hf ↦ (hall.2 f hf).2⟩

/-- The line of a record is printable ASCII, and is read as the record. -/
theorem emit_reads_back {e : Emission} {line : String} (h : emit floatRepr e = some line) :
    (∀ c ∈ line.toList, Printable c) ∧ loads line = some e.record := by
  obtain ⟨hfloat, hkeys⟩ := record_ok e
  refine ⟨?_, loads_dumps floatRepr hfloat hkeys h⟩
  rw [emit, dumps, Option.ite_none_right_eq_some, Option.some.injEq] at h
  obtain ⟨-, rfl⟩ := h
  rw [String.toList_ofList]
  exact printable_render floatRepr hfloat

theorem newline_not_mem {cs : List Char} (h : ∀ c ∈ cs, Printable c) : '\n' ∉ cs := fun hmem ↦ by
  have := (h _ hmem).1
  simp at this

/-- A stream of lines without line breaks is cut into these lines. -/
theorem readStream_stream {lines : List String} (h : ∀ line ∈ lines, '\n' ∉ line.toList) :
    readStream (stream lines) = lines.mapM loads := by
  have hlines : (lines.map String.toList).flatMap Lines.lines = lines.map String.toList := by
    rw [List.flatMap_map, List.flatMap_def,
      List.map_congr_left fun line hline ↦ Lines.lines_of_not_mem (h line hline)]
    induction lines with
    | nil => rfl
    | cons line lines ih =>
      rw [List.map_cons, List.flatten_cons, ih fun l hl ↦ h l (List.mem_cons_of_mem _ hl)]
      rfl
  rw [readStream, stream, Lines.lines_unlines, hlines, List.dropLast_concat]
  rw [List.mapM_map]
  congr 1
  funext line
  rw [Function.comp_apply, String.ofList_toList]

/-- **A reader of the stream gets what was emitted.**  Whatever texts are in the records, the stream
is printable ASCII apart from the line breaks that end the lines, and cut there and read line by
line it gives exactly the records, in their order. -/
theorem stream_reads_back {es : List Emission} {lines : List String}
    (h : es.mapM (emit floatRepr) = some lines) :
    readStream (stream lines) = some (es.map Emission.record) ∧
      ∀ c ∈ stream lines, c = '\n' ∨ Printable c := by
  have hall := mapM_eq_some_iff.mp h
  have hline : ∀ line ∈ lines, ∀ c ∈ line.toList, Printable c := by
    intro line hline
    obtain ⟨e, -, he⟩ := exists_of_mem_mapM h hline
    exact (emit_reads_back he).1
  constructor
  · rw [readStream_stream fun line hl ↦ newline_not_mem (hline line hl), mapM_eq_some_iff,
      List.forall₂_map_right_iff]
    exact hall.flip.imp fun line e he ↦ (emit_reads_back he).2
  · intro c hc
    by_cases hnl : c = '\n'
    · exact .inl hnl
    · obtain ⟨l, hl, hcl⟩ := (Lines.mem_unlines hnl).mp hc
      obtain ⟨line, hmem, rfl⟩ := List.mem_map.mp hl
      exact .inr (hline line hmem c hcl)

end

/-- A rejected request for a path with a line break and a quote in it. -/
def forgedPath : Emission where
  ts := "2026-01-01T00:00:00.000000+00:00"
  event := "auth.reject"
  fields :=
    { fields := [("path", .str "/\n\x7b\"event\":\"auth.admit\"\x7d"), ("serial", .null)]
      noFloat := by simp [NoFloat, NoFloatFields]
      distinctKeys := by simp [Json.DistinctKeys, Json.DistinctFields] }
  not_event := by decide

theorem stream_reads_back_forged :
    ∃ lines, [forgedPath, forgedPath].mapM (emit fun _ ↦ []) = some lines ∧
      readStream (stream lines) = some [forgedPath.record, forgedPath.record] ∧
        ∀ c ∈ stream lines, c = '\n' ∨ Printable c := by
  obtain ⟨lines, hlines⟩ := Option.isSome_iff_exists.mp
    (by decide +kernel : ([forgedPath, forgedPath].mapM (emit fun _ ↦ [])).isSome)
  exact ⟨lines, hlines, stream_reads_back hlines⟩

/-! ## Rows and their lines -/

/-- The arguments of `persist`, and the time at which it emits. -/
structure PersistCall where
  ts : String
  event : String
  actorCn : Option String
  actorSerial : Option String
  actorRole : Option String
  resourceType : String
  resourceId : Option ℕ
  action : String
  before : Option RowDict
  after : Option RowDict
  payload : Option RowDict := none
  requestId : Option String := none
  tenantId : Option ℕ := none

/-- The columns of an `auditevent` row that `persist` sets. -/
structure EventRow where
  event : String
  actorCn : Option String
  actorSerial : Option String
  actorRole : Option String
  resourceType : String
  resourceId : Option ℕ
  action : String
  beforeHash : Option String
  afterHash : Option String
  payload : Option String
  requestId : Option String
  tenantId : Option ℕ

def strOrNull : Option String → Json
  | none => .null
  | some s => .str s

def idOrNull : Option ℕ → Json
  | none => .null
  | some n => .int n

/-- The fields of the line that goes with a row. -/
def EventRow.identity (row : EventRow) : List (String × Json) :=
  [("actor_cn", strOrNull row.actorCn), ("actor_serial", strOrNull row.actorSerial),
    ("actor_role", strOrNull row.actorRole), ("resource_type", .str row.resourceType),
    ("resource_id", idOrNull row.resourceId), ("action", .str row.action),
    ("before_hash", strOrNull row.beforeHash), ("after_hash", strOrNull row.afterHash),
    ("request_id", strOrNull row.requestId), ("tenant_id", idOrNull row.tenantId)]

theorem noFloat_identity (row : EventRow) : NoFloat (.obj row.identity) := by
  have hstr : ∀ o, NoFloat (strOrNull o) := fun o ↦ by cases o <;> trivial
  have hid : ∀ o, NoFloat (idOrNull o) := fun o ↦ by cases o <;> trivial
  simp [EventRow.identity, NoFloat, NoFloatFields, hstr, hid]

theorem distinctKeys_identity (row : EventRow) : Json.DistinctKeys (.obj row.identity) := by
  have hstr : ∀ o, Json.DistinctKeys (strOrNull o) := fun o ↦ by cases o <;> trivial
  have hid : ∀ o, Json.DistinctKeys (idOrNull o) := fun o ↦ by cases o <;> trivial
  simp [EventRow.identity, Json.DistinctKeys, Json.DistinctFields, hstr, hid]

/-- The record that goes with a row. -/
def EventRow.emission (row : EventRow) (ts : String) : Emission where
  ts := ts
  event := row.event
  fields := ⟨row.identity, noFloat_identity row, distinctKeys_identity row⟩
  not_event := by simp [EventRow.identity]

section

variable (floatRepr : Option ℚ → List Char) (sha256 : Bytes → String)

/-- The compact text of the payload. -/
def payloadBlob : Option RowDict → Option (Option String)
  | none => some none
  | some payload => (dumps floatRepr payload.json).map some

/-- `persist`: the row that is inserted, and the line that is logged. -/
def persist (call : PersistCall) : Option (EventRow × String) := do
  let (beforeHash, afterHash) ← persistHashes floatRepr sha256 call.before call.after
  let payload ← payloadBlob floatRepr call.payload
  let row : EventRow :=
    ⟨call.event, call.actorCn, call.actorSerial, call.actorRole, call.resourceType,
      call.resourceId, call.action, beforeHash, afterHash, payload, call.requestId, call.tenantId⟩
  let line ← emit floatRepr (row.emission call.ts)
  some (row, line)

end

/-! ## What the lines tell -/

def asStr : Json → Option (Option String)
  | .null => some none
  | .str s => some (some s)
  | _ => none

def asId : Json → Option (Option ℕ)
  | .null => some none
  | .int (.ofNat n) => some (some n)
  | _ => none

/-- A row as its line shows it: everything but the payload. -/
def rowOfRecord (j : Json) : Option EventRow := do
  let event ← (j.getItem "event").bind asStr
  let actorCn ← (j.getItem "actor_cn").bind asStr
  let actorSerial ← (j.getItem "actor_serial").bind asStr
  let actorRole ← (j.getItem "actor_role").bind asStr
  let resourceType ← (j.getItem "resource_type").bind asStr
  let resourceId ← (j.getItem "resource_id").bind asId
  let action ← (j.getItem "action").bind asStr
  let beforeHash ← (j.getItem "before_hash").bind asStr
  let afterHash ← (j.getItem "after_hash").bind asStr
  let requestId ← (j.getItem "request_id").bind asStr
  let tenantId ← (j.getItem "tenant_id").bind asId
  some ⟨← event, actorCn, actorSerial, actorRole, ← resourceType, resourceId, ← action, beforeHash,
    afterHash, none, requestId, tenantId⟩

section

variable {floatRepr : Option ℚ → List Char} {sha256 : Bytes → String}

theorem record_emission (row : EventRow) (ts : String) : (row.emission ts).record =
    .obj (("ts", .str ts) :: ("event", .str row.event) :: row.identity) := by
  rw [Emission.record, foldl_putField_append]
  · rfl
  · simp [EventRow.emission, EventRow.identity]

/-- A line shows the row, but for the payload. -/
theorem rowOfRecord_emission (row : EventRow) (ts : String) :
    rowOfRecord (row.emission ts).record = some { row with payload := none } := by
  have hstr : ∀ o, asStr (strOrNull o) = some o := fun o ↦ by cases o <;> rfl
  have hid : ∀ o, asId (idOrNull o) = some o := fun o ↦ by cases o <;> rfl
  have htext : ∀ s, asStr (.str s) = some (some s) := fun _ ↦ rfl
  rw [record_emission]
  simp [rowOfRecord, Json.getItem, EventRow.identity, List.lookup_cons, hstr, hid, htext]

theorem payloadBlob_eq_some {payload : Option RowDict} {column : Option String}
    (h : payloadBlob floatRepr payload = some column) :
    column.map loads = payload.map fun p ↦ some p.json := by
  cases payload with
  | none => simp [← Option.some.inj h]
  | some p =>
    obtain ⟨text, htext, rfl⟩ := Option.map_eq_some_iff.mp h
    have hread : loads text = some p.json := loads_dumps floatRepr p.noFloat p.distinctKeys htext
    simp [hread]

/-- The line of a row is what its emission gives, and the payload column is the payload. -/
theorem persist_eq_some {call : PersistCall} {row : EventRow} {line : String}
    (h : persist floatRepr sha256 call = some (row, line)) :
    emit floatRepr (row.emission call.ts) = some line ∧
      row.payload.map loads = call.payload.map fun payload ↦ some payload.json := by
  rw [persist, Option.bind_eq_bind, Option.bind_eq_some_iff] at h
  obtain ⟨⟨beforeHash, afterHash⟩, -, h⟩ := h
  simp only [Option.bind_eq_bind, Option.bind_eq_some_iff, Option.some.injEq, Prod.mk.injEq] at h
  obtain ⟨payload, hpayload, line', hline, rfl, rfl⟩ := h
  exact ⟨hline, payloadBlob_eq_some hpayload⟩

/-- **The lines tell the rows.**  For any sequence of calls of `persist` that succeed, the stream of
their lines, cut at line breaks and read as JSON, gives the inserted rows back, in their order and
with all their columns but the payload; and the payload column of each row is read back as the
payload of its call. -/
theorem stream_tells_rows {calls : List PersistCall} {results : List (EventRow × String)}
    (h : calls.mapM (persist floatRepr sha256) = some results) :
    ((readStream (stream (results.map Prod.snd))).bind fun records ↦ records.mapM rowOfRecord) =
        some (results.map fun r ↦ { r.1 with payload := none }) ∧
      List.Forall₂ (fun call r ↦ r.1.payload.map loads =
        call.payload.map fun payload ↦ some payload.json) calls results := by
  have hline : ∀ r ∈ results, ∃ ts, emit floatRepr (r.1.emission ts) = some r.2 := by
    intro r hr
    obtain ⟨call, -, hcall⟩ := exists_of_mem_mapM h hr
    exact ⟨call.ts, (persist_eq_some hcall).1⟩
  refine ⟨?_, (mapM_eq_some_iff.mp h).imp fun _ _ hr ↦ (persist_eq_some hr).2⟩
  rw [readStream_stream]
  · clear h
    induction results with
    | nil => rfl
    | cons r results ih =>
      rw [List.forall_mem_cons] at hline
      obtain ⟨⟨ts, hemit⟩, hrest⟩ := hline
      obtain ⟨records, hrecords, hrows⟩ := Option.bind_eq_some_iff.mp (ih hrest)
      simp [(emit_reads_back hemit).2, hrecords, rowOfRecord_emission, hrows]
  · intro line hl
    obtain ⟨r, hr, rfl⟩ := List.mem_map.mp hl
    obtain ⟨ts, hemit⟩ := hline r hr
    exact newline_not_mem (emit_reads_back hemit).1

end

/-- An event whose actor has a name with a line break and a quote in it. -/
def forgedCall : PersistCall where
  ts := "2026-01-01T00:00:00.000000+00:00"
  event := "server.create"
  actorCn := some "eve\n\",\"actor_cn\":\"admin"
  actorSerial := none
  actorRole := some "operator"
  resourceType := "server"
  resourceId := some 7
  action := "create"
  before := none
  after := some hubRow
  payload := some hubRow

theorem stream_tells_rows_forged :
    ∃ results, [forgedCall].mapM (persist (fun _ ↦ []) fun _ ↦ "00") = some results ∧
      ((readStream (stream (results.map Prod.snd))).bind fun records ↦ records.mapM rowOfRecord) =
        some (results.map fun r ↦ { r.1 with payload := none }) := by
  obtain ⟨results, hresults⟩ := Option.isSome_iff_exists.mp
    (by decide +kernel : ([forgedCall].mapM (persist (fun _ ↦ []) fun _ ↦ "00")).isSome)
  exact ⟨results, hresults, (stream_tells_rows hresults).1⟩

end WgManager.Audit
