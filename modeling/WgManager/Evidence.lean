import WgManager.Lib.Counter
import WgManager.Lib.Except
import WgManager.Lib.Json
import WgManager.Lib.TextLines

/-!
# The slice of the Vault audit log

An evidence pack contains the lines of Vault's audit log since some day, and a report on the log:
how many lines it has, how many of them are damaged, and how many request ids do not pair up.  Both
come from `slice_vault_audit_log` of `evidence.py`, in one pass over the lines.

`json.loads` and `datetime.fromisoformat` are parameters (`Readers`), and what the code makes of
their answers is in `readLine`.  A line that is JSON but no object, and a time without an offset,
raise; and a record can be cut in two at a line break that is part of it.  On all other files every
line is accounted for (`every_line_is_accounted_for_iff`).

Times are in microseconds here.
-/

set_option autoImplicit false

namespace WgManager.Evidence

/-! ## What the module calls -/

inductive LoadsError
  | jsonDecodeError
  /-- Such as a `ValueError` about a number with too many digits. -/
  | other

/-- What `datetime.fromisoformat` returns: a time with an offset, as a point in time, or a time
without one. -/
inductive LineTime
  | naive (time : ℤ)
  | aware (time : ℤ)
  deriving DecidableEq

structure Readers where
  loads : String → Except LoadsError Json
  /-- `none` stands for a `ValueError`. -/
  fromisoformat : String → Option LineTime

inductive Raised
  | attributeError
  | typeError
  | overflowError
  | loads
  deriving DecidableEq

/-! ## One line -/

/-- `time_str.replace("Z", "+00:00")`. -/
def normalised (timeStr : String) : String :=
  String.ofList (timeStr.toList.flatMap fun c ↦ if c = 'Z' then "+00:00".toList else [c])

/-- What a line is to the slice. -/
inductive Line
  | malformed
  | missingTime
  /-- Before the threshold. -/
  | early (record : Json)
  | kept (record : Json)

/-- The part of the loop that looks at a line. -/
def readLine (py : Readers) (threshold : ℤ) (raw : String) : Except Raised Line :=
  match py.loads raw with
  | .error .jsonDecodeError => .ok .malformed
  | .error .other => .error .loads
  | .ok record =>
    match record.get? "time" with
    -- only a dict has `get`
    | none => .error .attributeError
    | some (some (.str timeStr)) =>
      match py.fromisoformat (normalised timeStr) with
      | none => .ok .missingTime
      | some (.naive _) => .error .typeError
      | some (.aware lineTime) =>
        if lineTime < threshold then .ok (.early record) else .ok (.kept record)
    | some _ => .ok .missingTime

/-- The `request.id` of a record that has one. -/
def requestId (record : Json) : Option String :=
  match record.get? "request" with
  | some (some (.obj req)) =>
    match req.lookup "id" with
    | some (.str rid) => if rid = "" then none else some rid
    | _ => none
  | _ => none

/-- `_maybe_track_request_id`. -/
def maybeTrackRequestId (record : Json) (counter : Counter String) : Counter String :=
  match requestId record with
  | none => counter
  | some rid => counter.bump rid

/-! ## The loop -/

/-- The variables of the loop. -/
structure Slicing where
  keptLines : List String := []
  requestIds : Counter String := .empty
  malformed : ℕ := 0
  missingTime : ℕ := 0
  total : ℕ := 0

/-- What becomes of them at a line. -/
def Slicing.add (s : Slicing) (raw : String) : Line → Slicing
  | .malformed => { s with total := s.total + 1, malformed := s.malformed + 1 }
  | .missingTime => { s with total := s.total + 1, missingTime := s.missingTime + 1 }
  | .early record =>
    { s with total := s.total + 1, requestIds := maybeTrackRequestId record s.requestIds }
  | .kept record =>
    { s with
      total := s.total + 1
      keptLines := s.keptLines ++ [raw]
      requestIds := maybeTrackRequestId record s.requestIds }

/-- One turn of the loop. -/
def sliceLine (py : Readers) (threshold : ℤ) (s : Slicing) (raw : String) :
    Except Raised Slicing :=
  if PyStr.nonBlank raw then (readLine py threshold raw).map (s.add raw) else .ok s

/-! ## The whole file -/

structure Report where
  ok : Bool
  reason : Option String := none
  method : String
  lines : ℕ
  keptLines : Option ℕ := none
  malformed : ℕ
  missingTime : Option ℕ := none
  unpaired : ℕ
  checkedAt : ℤ

/-- `datetime.min` and `datetime.max`. -/
def minTime : ℤ := -62135596800000000
def maxTime : ℤ := 253402300799999999

/-- `now - timedelta(days=since_days)`; `none` is an `OverflowError`. -/
def threshold (now sinceDays : ℤ) : Option ℤ :=
  let time := now - sinceDays * 86400000000
  if minTime ≤ time ∧ time ≤ maxTime then some time else none

def structural : String :=
  "structural: per-line JSON parseability + ``time`` field presence + request/response " ++
    "``request.id`` pairing. Vault does NOT ship cryptographic chain across records."

/-- The report after the loop. -/
def Slicing.report (s : Slicing) (checkedAt : ℤ) : Report :=
  let unpaired := s.requestIds.entries.countP fun e ↦ e.2 % 2 ≠ 0
  { ok := s.malformed == 0 && s.missingTime == 0 && unpaired == 0
    method := structural
    lines := s.total
    keptLines := some s.keptLines.length
    malformed := s.malformed
    missingTime := some s.missingTime
    unpaired := unpaired
    checkedAt := checkedAt }

/-- What `read_text` gives, for a file with this content. -/
def readText (content : String) : String :=
  String.ofList (PyStr.universalNewlines content.toList)

/-- `slice_vault_audit_log`, on the content of the file at the path, or none when there is no file.
The two times are those of its two calls of `_utcnow`. -/
def sliceVaultAuditLog (py : Readers) (now checkedAt sinceDays : ℤ) (path : String)
    (file : Option String) : Except Raised (String × Report) :=
  match file with
  | none =>
    .ok ("", {
      ok := false
      reason := some
        s!"missing: vault audit log file not found at the configured path ({path})"
      method := "structural"
      lines := 0
      malformed := 0
      unpaired := 0
      checkedAt := checkedAt })
  | some content =>
    match threshold now sinceDays with
    | none => .error .overflowError
    | some threshold =>
      ((PyStr.splitlines (readText content)).foldlM (sliceLine py threshold) {}).map fun s ↦
        ("\n".intercalate s.keptLines, s.report checkedAt)

/-! ## What the lines say -/

/-- The lines that count. -/
def linesOf (content : String) : List String :=
  (PyStr.splitlines (readText content)).filter PyStr.nonBlank

/-- The time of a line: it is an object with a time that can be read and has an offset. -/
def timeOf (py : Readers) (raw : String) : Option ℤ :=
  match py.loads raw with
  | .ok (.obj fields) =>
    match fields.lookup "time" with
    | some (.str timeStr) =>
      match py.fromisoformat (normalised timeStr) with
      | some (.aware lineTime) => some lineTime
      | _ => none
    | _ => none
  | _ => none

/-- A line on which the loop does not raise: it is an object, or it does not parse at all, and a
time that can be read has an offset. -/
def Harmless (py : Readers) (raw : String) : Prop :=
  match py.loads raw with
  | .error .jsonDecodeError => True
  | .ok (.obj fields) =>
    ∀ timeStr, fields.lookup "time" = some (.str timeStr) →
      ∀ time, py.fromisoformat (normalised timeStr) ≠ some (.naive time)
  | _ => False

/-- What a line is has to do with its time. -/
def Line.Fits (py : Readers) (threshold : ℤ) (raw : String) : Line → Prop
  | .malformed | .missingTime => timeOf py raw = none
  | .early record =>
    (∃ time, timeOf py raw = some time ∧ time < threshold) ∧ py.loads raw = .ok record
  | .kept record =>
    (∃ time, timeOf py raw = some time ∧ threshold ≤ time) ∧ py.loads raw = .ok record

section

variable {py : Readers} {threshold : ℤ} {raw : String} {line : Line}

theorem harmless_iff : Harmless py raw ↔ ∃ line, readLine py threshold raw = .ok line := by
  unfold Harmless readLine
  cases py.loads raw with
  | error e => cases e <;> simp
  | ok record =>
    cases record with
    | obj fields =>
      simp only [Json.get?]
      cases fields.lookup "time" with
      | none => simp
      | some value =>
        cases value with
        | str timeStr =>
          simp only [Option.some_inj, Json.str.injEq, forall_eq']
          cases py.fromisoformat (normalised timeStr) with
          | none => simp
          | some lineTime =>
            cases lineTime with
            | naive time => simp
            | aware time =>
              refine iff_of_true (by simp) ?_
              dsimp only
              split <;> exact ⟨_, rfl⟩
        | _ => simp
    | _ => simp [Json.get?]

theorem fits_of_readLine (h : readLine py threshold raw = .ok line) :
    line.Fits py threshold raw := by
  rw [readLine] at h
  split at h
  · next hloads =>
    cases h
    simp [Line.Fits, timeOf, hloads]
  · cases h
  · next record hloads =>
    cases record with
    | obj fields =>
      simp only [Json.get?] at h
      split at h
      · next heq => cases heq
      · next timeStr heq =>
        rw [Option.some_inj] at heq
        split at h
        · next hread =>
          cases h
          simp [Line.Fits, timeOf, hloads, heq, hread]
        · cases h
        · next lineTime hread =>
          split at h
          · next hlt =>
            cases h
            exact ⟨⟨lineTime, by simp [timeOf, hloads, heq, hread], hlt⟩, hloads⟩
          · next hge =>
            cases h
            exact ⟨⟨lineTime, by simp [timeOf, hloads, heq, hread], not_lt.mp hge⟩, hloads⟩
      · next hstr heq =>
        cases h
        show timeOf py raw = none
        rw [timeOf, hloads]
        dsimp only
        split
        · next timeStr htime =>
          exact absurd ((Option.some.inj heq).symm.trans htime) (hstr timeStr)
        · rfl
    | _ => cases h

end

/-! ## What the loop adds up -/

namespace Line

def isMalformed : Line → Bool
  | malformed => true
  | _ => false

def isMissingTime : Line → Bool
  | missingTime => true
  | _ => false

def isEarly : Line → Bool
  | early _ => true
  | _ => false

def isKept : Line → Bool
  | kept _ => true
  | _ => false

/-- The id that is counted at the line. -/
def requestId : Line → Option String
  | early record | kept record => Evidence.requestId record
  | _ => none

end Line

/-- The variables after these lines. -/
def Slicing.of (entries : List (String × Line)) : Slicing where
  keptLines := (entries.filter (·.2.isKept)).map Prod.fst
  requestIds := .ofList (entries.filterMap (·.2.requestId))
  malformed := entries.countP (·.2.isMalformed)
  missingTime := entries.countP (·.2.isMissingTime)
  total := entries.length

theorem add_of (entries : List (String × Line)) (raw : String) (line : Line) :
    (Slicing.of entries).add raw line = .of (entries ++ [(raw, line)]) := by
  have htrack (record : Json) (ids : List String) :
      maybeTrackRequestId record (.ofList ids) = .ofList (ids ++ (requestId record).toList) := by
    rw [maybeTrackRequestId, Counter.ofList, Counter.ofList, List.foldl_append]
    cases requestId record <;> rfl
  have hids : (entries ++ [(raw, line)]).filterMap (·.2.requestId) =
      entries.filterMap (·.2.requestId) ++ line.requestId.toList := by
    rw [List.filterMap_append]
    cases h : line.requestId <;> simp [h]
  rw [Slicing.of, Slicing.of, hids]
  cases line <;>
    simp [Slicing.add, Line.isMalformed, Line.isMissingTime, Line.isKept, Line.requestId, htrack]

/-- Every line is one of the four. -/
theorem Slicing.total_of (entries : List (String × Line)) :
    (Slicing.of entries).total = (Slicing.of entries).malformed + (Slicing.of entries).missingTime +
      (Slicing.of entries).keptLines.length + entries.countP (·.2.isEarly) := by
  rw [Slicing.of, List.length_map, ← List.countP_eq_length_filter]
  dsimp only
  induction entries with
  | nil => rfl
  | cons entry entries ih =>
    obtain ⟨raw, line⟩ := entry
    rw [List.length_cons, ih]
    cases line <;>
      simp [Line.isMalformed, Line.isMissingTime, Line.isEarly, Line.isKept] <;> omega

section

variable {py : Readers} {th : ℤ}

/-- Lines, each with what it is. -/
def Reads (py : Readers) (th : ℤ) (raws : List String) (entries : List (String × Line)) : Prop :=
  entries.map Prod.fst = raws ∧ ∀ e ∈ entries, readLine py th e.1 = .ok e.2

theorem exists_reads_iff {raws : List String} :
    (∃ entries, Reads py th raws entries) ↔ ∀ raw ∈ raws, Harmless py raw := by
  constructor
  · rintro ⟨entries, rfl, hread⟩ raw hraw
    obtain ⟨e, he, rfl⟩ := List.mem_map.mp hraw
    exact harmless_iff.mpr ⟨e.2, hread e he⟩
  · intro h
    induction raws with
    | nil => exact ⟨[], rfl, nofun⟩
    | cons raw raws ih =>
      obtain ⟨line, hline⟩ := harmless_iff.mp (h raw List.mem_cons_self)
      obtain ⟨entries, rfl, hread⟩ := ih fun r hr ↦ h r (List.mem_cons_of_mem raw hr)
      exact ⟨(raw, line) :: entries, rfl, List.forall_mem_cons.mpr ⟨hline, hread⟩⟩

/-- **The whole loop.**  It raises, or every line that counts has been added. -/
theorem foldlM_sliceLine {raws : List String} {entries : List (String × Line)} {s' : Slicing} :
    raws.foldlM (sliceLine py th) (.of entries) = .ok s' ↔
      ∃ entries', Reads py th (raws.filter PyStr.nonBlank) entries' ∧
        s' = .of (entries ++ entries') := by
  induction raws generalizing entries with
  | nil =>
    constructor
    · rintro ⟨⟩
      exact ⟨[], ⟨rfl, nofun⟩, by rw [List.append_nil]⟩
    · rintro ⟨entries', ⟨hmap, -⟩, rfl⟩
      rw [List.map_eq_nil_iff.mp hmap, List.append_nil]
      rfl
  | cons raw raws ih =>
    rw [List.foldlM_cons, bind_eq_ok_iff, sliceLine, List.filter_cons]
    by_cases hblank : PyStr.nonBlank raw = true
    · rw [if_pos hblank, if_pos hblank]
      simp only [map_eq_ok_iff]
      constructor
      · rintro ⟨s, ⟨line, hline, rfl⟩, hrest⟩
        rw [add_of, ih] at hrest
        obtain ⟨entries', ⟨hmap, hread⟩, rfl⟩ := hrest
        refine ⟨(raw, line) :: entries', ⟨by rw [List.map_cons, hmap], ?_⟩, ?_⟩
        · exact List.forall_mem_cons.mpr ⟨hline, hread⟩
        · rw [List.append_assoc, List.singleton_append]
      · rintro ⟨entries', ⟨hmap, hread⟩, rfl⟩
        obtain ⟨⟨raw', line⟩, entries', rfl, rfl, hrest⟩ := List.map_eq_cons_iff.mp hmap
        rw [List.forall_mem_cons] at hread
        refine ⟨_, ⟨line, hread.1, rfl⟩, ?_⟩
        rw [add_of, ih]
        exact ⟨entries', ⟨hrest, hread.2⟩, by rw [List.append_assoc, List.singleton_append]⟩
    · rw [if_neg hblank, if_neg hblank, ← ih]
      constructor
      · rintro ⟨s, ⟨⟩, hrest⟩
        exact hrest
      · exact fun hrest ↦ ⟨_, rfl, hrest⟩

/-- When the function returns, and what. -/
theorem sliceVaultAuditLog_eq_ok_iff {now checkedAt sinceDays : ℤ} {path content : String}
    {out : String × Report} :
    sliceVaultAuditLog py now checkedAt sinceDays path (some content) = .ok out ↔
      ∃ th entries, threshold now sinceDays = some th ∧ Reads py th (linesOf content) entries ∧
        out = ("\n".intercalate (Slicing.of entries).keptLines,
          (Slicing.of entries).report checkedAt) := by
  rw [sliceVaultAuditLog]
  cases threshold now sinceDays with
  | none => simp
  | some th =>
    dsimp only
    rw [map_eq_ok_iff]
    have hrun (s : Slicing) :
        (PyStr.splitlines (readText content)).foldlM (sliceLine py th) (.of []) = .ok s ↔
          ∃ entries, Reads py th (linesOf content) entries ∧ s = .of ([] ++ entries) :=
      foldlM_sliceLine
    constructor
    · rintro ⟨s, hs, rfl⟩
      obtain ⟨entries, hreads, rfl⟩ := (hrun s).mp hs
      exact ⟨th, entries, rfl, hreads, rfl⟩
    · rintro ⟨th', entries, ⟨⟩, hreads, rfl⟩
      exact ⟨_, (hrun _).mpr ⟨entries, hreads, rfl⟩, rfl⟩

theorem Reads.fits {raws : List String} {entries : List (String × Line)}
    (h : Reads py th raws entries) {e : String × Line} (he : e ∈ entries) : e.2.Fits py th e.1 :=
  fits_of_readLine (h.2 e he)

/-- The lines with a time at or after the threshold are the lines that are kept. -/
theorem Reads.keptLines {raws : List String} {entries : List (String × Line)}
    (h : Reads py th raws entries) :
    (Slicing.of entries).keptLines = raws.filter fun raw ↦ (timeOf py raw).any (th ≤ ·) := by
  rw [← h.1, List.filter_map]
  refine congrArg (List.map Prod.fst) (List.filter_congr fun e he ↦ ?_)
  have hfits := h.fits he
  obtain ⟨raw, line⟩ := e
  cases line with
  | malformed | missingTime => simp [Line.isKept, show timeOf py raw = none from hfits]
  | early record =>
    obtain ⟨⟨time, htime, hlt⟩, -⟩ := hfits
    simp [Line.isKept, htime, hlt]
  | kept record =>
    obtain ⟨⟨time, htime, hge⟩, -⟩ := hfits
    simp [Line.isKept, htime, hge]

theorem Reads.countP_isEarly {raws : List String} {entries : List (String × Line)}
    (h : Reads py th raws entries) :
    entries.countP (·.2.isEarly) = raws.countP fun raw ↦ (timeOf py raw).any (· < th) := by
  rw [← h.1, List.countP_map]
  refine List.countP_congr fun e he ↦ ?_
  have hfits := h.fits he
  obtain ⟨raw, line⟩ := e
  cases line with
  | malformed | missingTime => simp [Line.isEarly, show timeOf py raw = none from hfits]
  | early record =>
    obtain ⟨⟨time, htime, hlt⟩, -⟩ := hfits
    simp [Line.isEarly, htime, hlt]
  | kept record =>
    obtain ⟨⟨time, htime, hge⟩, -⟩ := hfits
    simp [Line.isEarly, htime, hge]

end

/-! ## Every line is accounted for -/

/-- What a writer of one record on each line wrote. -/
def newlineRecords (content : String) : List String :=
  (PyStr.splitOn '\n' (readText content)).filter PyStr.nonBlank

def IsObject (py : Readers) (raw : String) : Prop := ∃ fields, py.loads raw = .ok (.obj fields)

/-- `json.loads` takes a text for an object only if it is in braces, with nothing around them but
the white space of JSON. -/
def Readers.ObjectsInBraces (py : Readers) : Prop :=
  ∀ raw, IsObject py raw → ∃ left inner right,
    raw.toList = left ++ '{' :: (inner ++ '}' :: right) ∧
      ∀ c ∈ left ++ right, c ∈ [' ', '\t', '\n', '\r']

/-- The function returns; its counts add up to the number of lines; the slice is the lines with a
time that is not before the threshold; and objects between newlines count as one line each. -/
def AccountsForEveryLine (py : Readers) (now checkedAt sinceDays : ℤ) (path content : String) :
    Prop :=
  ∃ th slice report missingTime keptLines, threshold now sinceDays = some th ∧
    sliceVaultAuditLog py now checkedAt sinceDays path (some content) = .ok (slice, report) ∧
    report.missingTime = some missingTime ∧ report.keptLines = some keptLines ∧
    report.lines = report.malformed + missingTime + keptLines +
      (linesOf content).countP (fun raw ↦ (timeOf py raw).any (· < th)) ∧
    slice = "\n".intercalate
      ((linesOf content).filter fun raw ↦ (timeOf py raw).any (th ≤ ·)) ∧
    ((∀ raw ∈ newlineRecords content, IsObject py raw) →
      report.lines = (newlineRecords content).length)

section

variable {py : Readers} {content : String}

/-- A line break in an object is between its braces. -/
theorem inside_of_isObject (hpy : py.ObjectsInBraces) {raw : String}
    (hraw : raw ∈ PyStr.splitOn '\n' (readText content)) (hobject : IsObject py raw) :
    PyStr.Inside raw.toList := by
  obtain ⟨left, inner, right, hlist, hspace⟩ := hpy raw hobject
  have hnl : '\n' ∉ raw.toList := PyStr.not_mem_of_mem_splitOn hraw
  have hcr : '\r' ∉ raw.toList := by
    intro hmem
    obtain ⟨w, hw, rfl⟩ := List.mem_map.mp hraw
    rw [String.toList_ofList] at hmem
    refine PyStr.not_mem_universalNewlines content.toList ?_
    simpa [readText] using PyStr.mem_of_mem_pieces hw hmem
  have hno (c : Char) (hc : c ∈ left ++ right) : PyStr.isLineBreak c = false := by
    have hmem : c ∈ raw.toList := by
      rw [hlist]
      rcases List.mem_append.mp hc with hc | hc
      · exact List.mem_append_left _ hc
      · simp [hc]
    have hc := hspace c hc
    simp only [List.mem_cons, List.not_mem_nil, or_false] at hc
    rcases hc with rfl | rfl | rfl | rfl
    · rfl
    · rfl
    · exact absurd hmem hnl
    · exact absurd hmem hcr
  have hsplit : raw.toList = (left ++ ['{']) ++ (inner ++ '}' :: right) := by
    rw [hlist, List.append_assoc, List.singleton_append]
  rw [hsplit]
  refine PyStr.inside_of_append ?_ ?_ ?_ ?_
  · exact List.any_eq_true.mpr ⟨'{', by simp, rfl⟩
  · exact List.any_eq_true.mpr ⟨'}', by simp, rfl⟩
  · intro c hc
    rcases List.mem_append.mp hc with hc | hc
    · exact hno c (List.mem_append_left _ hc)
    · rw [List.mem_singleton.mp hc]
      rfl
  · intro c hc
    rcases List.mem_cons.mp hc with rfl | hc
    · rfl
    · exact hno c (List.mem_append_right _ hc)

/-- The lines are the records that were written, as long as no record has a line break. -/
theorem length_linesOf_eq_iff (hpy : py.ObjectsInBraces)
    (hobjects : ∀ raw ∈ newlineRecords content, IsObject py raw) :
    (linesOf content).length = (newlineRecords content).length ↔
      ∀ raw ∈ newlineRecords content, ∀ c ∈ raw.toList, PyStr.isLineBreak c = false := by
  simp only [newlineRecords, List.mem_filter] at hobjects
  simp only [linesOf, newlineRecords, List.mem_filter, and_imp]
  refine PyStr.length_splitlines_eq_iff ?_ fun raw hraw hblank ↦ ?_
  · simpa [readText] using PyStr.not_mem_universalNewlines content.toList
  · exact inside_of_isObject hpy hraw (hobjects raw ⟨hraw, hblank⟩)

theorem Reads.total {th : ℤ} {raws : List String} {entries : List (String × Line)}
    (h : Reads py th raws entries) : (Slicing.of entries).total = raws.length := by
  rw [← h.1, List.length_map]
  rfl

section

variable {now checkedAt sinceDays : ℤ} {path : String}

theorem AccountsForEveryLine.harmless
    (h : AccountsForEveryLine py now checkedAt sinceDays path content) :
    ∀ raw ∈ linesOf content, Harmless py raw := by
  obtain ⟨th, slice, report, missingTime, keptLines, -, hslice, -⟩ := h
  obtain ⟨th', entries, -, hreads, -⟩ := sliceVaultAuditLog_eq_ok_iff.mp hslice
  exact exists_reads_iff.mp ⟨entries, hreads⟩

theorem AccountsForEveryLine.length
    (h : AccountsForEveryLine py now checkedAt sinceDays path content)
    (hobjects : ∀ raw ∈ newlineRecords content, IsObject py raw) :
    (linesOf content).length = (newlineRecords content).length := by
  obtain ⟨th, slice, report, missingTime, keptLines, -, hslice, -, -, -, -, hlines⟩ := h
  obtain ⟨th', entries, -, hreads, heq⟩ := sliceVaultAuditLog_eq_ok_iff.mp hslice
  cases heq
  rw [← hreads.total]
  exact hlines hobjects

end

/-- **Every line is accounted for** if and only if no line raises and, in a file of objects between
newlines, no object has another line break in it. -/
theorem every_line_is_accounted_for_iff (hpy : py.ObjectsInBraces) (now checkedAt sinceDays : ℤ)
    (path content : String) :
    AccountsForEveryLine py now checkedAt sinceDays path content ↔
      threshold now sinceDays ≠ none ∧ (∀ raw ∈ linesOf content, Harmless py raw) ∧
        ((∀ raw ∈ newlineRecords content, IsObject py raw) →
          ∀ raw ∈ newlineRecords content, ∀ c ∈ raw.toList, PyStr.isLineBreak c = false) := by
  constructor
  · intro h
    refine ⟨?_, h.harmless, fun hall ↦ (length_linesOf_eq_iff hpy hall).mp (h.length hall)⟩
    obtain ⟨th, -, -, -, -, hth, -⟩ := h
    rw [hth]
    nofun
  · rintro ⟨hth, hharmless, hbreaks⟩
    obtain ⟨th, hth⟩ := Option.ne_none_iff_exists'.mp hth
    obtain ⟨entries, hreads⟩ : ∃ entries, Reads py th (linesOf content) entries :=
      exists_reads_iff.mpr hharmless
    refine ⟨th, _, _, _, _, hth, sliceVaultAuditLog_eq_ok_iff.mpr ⟨th, entries, hth, hreads, rfl⟩,
      rfl, rfl, ?_, ?_, fun hall ↦ ?_⟩
    · rw [← hreads.countP_isEarly]
      exact Slicing.total_of entries
    · rw [hreads.keptLines]
    · rw [← (length_linesOf_eq_iff hpy hall).mpr (hbreaks hall)]
      exact hreads.total

end

/-! ## Four files -/

/-- `json.loads` and `fromisoformat` on a few texts. -/
def readers (texts : List (String × Json)) (times : List (String × LineTime)) : Readers where
  loads raw :=
    match texts.lookup raw with
    | some record => .ok record
    | none => .error .jsonDecodeError
  fromisoformat s := times.lookup s

/-- A line that was cut short. -/
theorem every_line_is_accounted_for_iff_cut :
    let py := readers
      [("\x7b\"time\":\"2026-01-02T00:00:00Z\"\x7d", .obj [("time", .str "2026-01-02T00:00:00Z")])]
      [("2026-01-02T00:00:00+00:00", .aware 1767312000000000)]
    AccountsForEveryLine py 1767398400000000 1767398400000000 7 "/vault/logs/audit.log"
      "\x7b\"time\":\"2026-01-02T00:00:00Z\"\x7d\n\x7b\"time\":\n" := by
  intro py
  have hpy : py.ObjectsInBraces := by
    rintro raw ⟨fields, hloads⟩
    by_cases hraw : raw = "\x7b\"time\":\"2026-01-02T00:00:00Z\"\x7d"
    · exact ⟨[], "\"time\":\"2026-01-02T00:00:00Z\"".toList, [], by rw [hraw]; decide +kernel,
        nofun⟩
    · have hlookup : py.loads raw = .error .jsonDecodeError := by
        simp [py, readers, List.lookup_cons, beq_false_of_ne hraw]
      rw [hlookup] at hloads
      cases hloads
  refine (every_line_is_accounted_for_iff hpy _ _ _ _ _).mpr ⟨by decide, ?_, fun _ ↦ ?_⟩
  · have hlines : linesOf "\x7b\"time\":\"2026-01-02T00:00:00Z\"\x7d\n\x7b\"time\":\n" =
        ["\x7b\"time\":\"2026-01-02T00:00:00Z\"\x7d", "\x7b\"time\":"] := by decide +kernel
    rw [hlines, List.forall_mem_cons, List.forall_mem_singleton]
    refine ⟨fun timeStr _ time htime ↦ ?_, trivial⟩
    simp only [py, readers, List.lookup_cons, List.lookup_nil] at htime
    split at htime <;> cases htime
  · have hno : (newlineRecords "\x7b\"time\":\"2026-01-02T00:00:00Z\"\x7d\n\x7b\"time\":\n").all
        (fun raw ↦ raw.toList.all fun c ↦ !PyStr.isLineBreak c) = true := by decide +kernel
    simpa using hno

/-- An array, a time without an offset, and a record with a line break that Vault does not escape.
-/
theorem odd_lines_are_not_accounted_for :
    let py := readers
      [("[]", .arr []),
        ("\x7b\"time\":\"2026-01-02T00:00:00\"\x7d", .obj [("time", .str "2026-01-02T00:00:00")]),
        ("\x7b\"path\":\"x\u0085y\"\x7d", .obj [("path", .str "x\u0085y")])]
      [("2026-01-02T00:00:00", .naive 1767312000000000)]
    ∀ content ∈ ["[]", "\x7b\"time\":\"2026-01-02T00:00:00\"\x7d",
        "\x7b\"path\":\"x\u0085y\"\x7d"],
      ¬AccountsForEveryLine py 1767398400000000 1767398400000000 7 "/vault/logs/audit.log"
        content := by
  intro py
  rw [List.forall_mem_cons, List.forall_mem_cons, List.forall_mem_singleton]
  refine ⟨fun h ↦ ?_, fun h ↦ ?_, fun h ↦ ?_⟩
  · exact h.harmless "[]" (by decide +kernel)
  · have hharmless := h.harmless "\x7b\"time\":\"2026-01-02T00:00:00\"\x7d" (by decide +kernel)
    exact hharmless "2026-01-02T00:00:00" rfl 1767312000000000 (by decide +kernel)
  · have hobjects : ∀ raw ∈ newlineRecords "\x7b\"path\":\"x\u0085y\"\x7d", IsObject py raw := by
      have hrecords : newlineRecords "\x7b\"path\":\"x\u0085y\"\x7d" =
          ["\x7b\"path\":\"x\u0085y\"\x7d"] := by decide +kernel
      rw [hrecords, List.forall_mem_singleton]
      exact ⟨_, rfl⟩
    have htwo := h.length hobjects
    revert htwo
    decide +kernel

end WgManager.Evidence
