import WgManager.Evidence

/-!
# What an ok verdict on the Vault log means

The report is ok when no line is damaged and every request id occurs an even number of times.  The
type of a record is not looked at, so two requests with one id pass for a request and its response.
`Mispaired` lists the kinds of records that pass in this way; `ok_is_sound_iff` says that an ok
verdict means what the module says it means on the files that have none of them, and what a pairing
by number finds: a record with an id that is missing, but never a record without one, and never a
response that has become a second request.
-/

set_option autoImplicit false

namespace WgManager.Evidence

/-! ## Records with an id -/

/-- The `request.id` of a line. -/
def idOf (py : Readers) (raw : String) : Option String :=
  match py.loads raw with
  | .ok record => requestId record
  | .error _ => none

/-- The `type` of a line. -/
def typeOf (py : Readers) (raw : String) : Option String :=
  match py.loads raw with
  | .ok record =>
    match record.get? "type" with
    | some (some (.str kind)) => some kind
    | _ => none
  | .error _ => none

/-- How many records have this id. -/
def occurrences (py : Readers) (raws : List String) (id : String) : ℕ :=
  raws.countP fun raw ↦ idOf py raw == some id

/-- How many records of this type have it. -/
def occurrencesAs (py : Readers) (kind : String) (raws : List String) (id : String) : ℕ :=
  raws.countP fun raw ↦ idOf py raw == some id && typeOf py raw == some kind

/-- What an ok verdict should mean: every line is an object with a time, and every id that occurs
is in one request and one response. -/
structure Sound (py : Readers) (raws : List String) : Prop where
  times : ∀ raw ∈ raws, (timeOf py raw).isSome = true
  pairs : ∀ id, 0 < occurrences py raws id →
    occurrencesAs py "request" raws id = 1 ∧ occurrencesAs py "response" raws id = 1

/-- A log as Vault writes it: the ids are in these two records only. -/
structure WellPaired (py : Readers) (raws : List String) : Prop extends Sound py raws where
  two : ∀ id, 0 < occurrences py raws id → occurrences py raws id = 2

/-- The types of the records that have this id. -/
def typesOf (py : Readers) (raws : List String) (id : String) : List (Option String) :=
  (raws.filter fun raw ↦ idOf py raw == some id).map (typeOf py)

/-- The two types that make a pair. -/
def isHalf (kind : Option String) : Bool := kind == some "request" || kind == some "response"

/-- The types of records that a pairing by number takes for pairs, although they are none:

* two records, of one type;
* two records, one of them neither a request nor a response;
* four records or more, an even number, with two requests or two responses among them, or with one
request or response at most. -/
inductive Mispaired : List (Option String) → Prop
  | same (kind : Option String) : Mispaired [kind, kind]
  | other {first second : Option String} :
      (isHalf first && isHalf second) = false → Mispaired [first, second]
  | more {types : List (Option String)} : 4 ≤ types.length → types.length % 2 = 0 →
      (∃ kind, [some kind, some kind].Sublist types ∧ isHalf (some kind)) ∨
        types.countP isHalf ≤ 1 → Mispaired types

/-- A log in which no line is damaged and all ids occur an even number of times, some of them in
records that are no pairs. -/
def FalselyPaired (py : Readers) (raws : List String) : Prop :=
  (∀ raw ∈ raws, (timeOf py raw).isSome = true) ∧ (∀ id, occurrences py raws id % 2 = 0) ∧
    ∃ id, Mispaired (typesOf py raws id)

/-- The `ok` of the report, if there is a report. -/
def verdict (py : Readers) (now checkedAt sinceDays : ℤ) (path content : String) : Option Bool :=
  match sliceVaultAuditLog py now checkedAt sinceDays path (some content) with
  | .ok (_, report) => some report.ok
  | .error _ => none

/-! ## When the verdict is ok -/

section

variable {py : Readers} {now checkedAt sinceDays : ℤ} {path content : String}

theorem harmless_of_timeOf {raw : String} (h : (timeOf py raw).isSome = true) :
    Harmless py raw := by
  rw [timeOf] at h
  rw [Harmless]
  split at h
  · next fields hloads =>
    rw [hloads]
    intro timeStr htime time hread
    simp [htime, hread] at h
  · cases h

/-- The ids that are counted, when every line has a time. -/
theorem Reads.ids {th : ℤ} {raws : List String} {entries : List (String × Line)}
    (h : Reads py th raws entries) (htimes : ∀ raw ∈ raws, (timeOf py raw).isSome = true) :
    entries.filterMap (·.2.requestId) = raws.filterMap (idOf py) := by
  rw [← h.1, List.filterMap_map]
  refine List.filterMap_congr fun e he ↦ ?_
  have hfits := h.fits he
  have htime := htimes e.1 (h.1 ▸ List.mem_map_of_mem he)
  obtain ⟨raw, line⟩ := e
  cases line with
  | malformed | missingTime =>
    rw [show timeOf py raw = none from hfits] at htime
    cases htime
  | early record | kept record => simp [Line.requestId, idOf, hfits.2]

/-- No line is malformed and none lacks a time when all of them have one, and conversely. -/
theorem Reads.undamaged_iff {th : ℤ} {raws : List String} {entries : List (String × Line)}
    (h : Reads py th raws entries) :
    (Slicing.of entries).malformed = 0 ∧ (Slicing.of entries).missingTime = 0 ↔
      ∀ raw ∈ raws, (timeOf py raw).isSome = true := by
  show entries.countP _ = 0 ∧ entries.countP _ = 0 ↔ _
  rw [List.countP_eq_zero, List.countP_eq_zero, ← h.1, List.forall_mem_map, ← forall₂_and]
  refine forall₂_congr fun e he ↦ ?_
  have hfits := h.fits he
  obtain ⟨raw, line⟩ := e
  cases line with
  | malformed | missingTime =>
    simp [Line.isMalformed, Line.isMissingTime, show timeOf py raw = none from hfits]
  | early record | kept record =>
    obtain ⟨⟨time, htime, -⟩, -⟩ := hfits
    simp [Line.isMalformed, Line.isMissingTime, htime]

/-- All values of the counter are even. -/
theorem unpaired_eq_zero_iff (ids : List String) :
    ((Counter.ofList ids).entries.countP fun e ↦ e.2 % 2 ≠ 0) = 0 ↔ ∀ id, ids.count id % 2 = 0 := by
  rw [List.countP_eq_zero, ← Counter.forall_values_ofList (P := fun n ↦ n % 2 = 0) rfl]
  simp

theorem Reads.ok_iff {th : ℤ} {raws : List String} {entries : List (String × Line)}
    (h : Reads py th raws entries) :
    ((Slicing.of entries).report checkedAt).ok = true ↔
      (∀ raw ∈ raws, (timeOf py raw).isSome = true) ∧ ∀ id, occurrences py raws id % 2 = 0 := by
  simp only [Slicing.report, Bool.and_eq_true, beq_iff_eq, h.undamaged_iff]
  refine and_congr_right fun htimes ↦ ?_
  simp only [Slicing.of, unpaired_eq_zero_iff, h.ids htimes, occurrences, List.count_filterMap]

/-- **The verdict is ok** when every line has a time and every id occurs an even number of times. -/
theorem verdict_eq_true_iff :
    verdict py now checkedAt sinceDays path content = some true ↔
      threshold now sinceDays ≠ none ∧
        (∀ raw ∈ linesOf content, (timeOf py raw).isSome = true) ∧
          ∀ id, occurrences py (linesOf content) id % 2 = 0 := by
  constructor
  · intro h
    rw [verdict] at h
    split at h
    · next slice report hslice =>
      obtain ⟨th, entries, hth, hreads, heq⟩ := sliceVaultAuditLog_eq_ok_iff.mp hslice
      cases heq
      exact ⟨by rw [hth]; nofun, hreads.ok_iff.mp (Option.some.inj h)⟩
    · cases h
  · rintro ⟨hth, hgood⟩
    obtain ⟨th, hth⟩ := Option.ne_none_iff_exists'.mp hth
    obtain ⟨entries, hreads⟩ : ∃ entries, Reads py th (linesOf content) entries :=
      exists_reads_iff.mpr fun raw hraw ↦ harmless_of_timeOf (hgood.1 raw hraw)
    rw [verdict, sliceVaultAuditLog_eq_ok_iff.mpr ⟨th, entries, hth, hreads, rfl⟩]
    exact congrArg some (hreads.ok_iff.mpr hgood)

/-- There is a verdict when every line has a time. -/
theorem verdict_eq_false_iff (hth : threshold now sinceDays ≠ none)
    (htimes : ∀ raw ∈ linesOf content, (timeOf py raw).isSome = true) :
    verdict py now checkedAt sinceDays path content = some false ↔
      ¬∀ id, occurrences py (linesOf content) id % 2 = 0 := by
  obtain ⟨th, hth⟩ := Option.ne_none_iff_exists'.mp hth
  obtain ⟨entries, hreads⟩ : ∃ entries, Reads py th (linesOf content) entries :=
    exists_reads_iff.mpr fun raw hraw ↦ harmless_of_timeOf (htimes raw hraw)
  rw [verdict, sliceVaultAuditLog_eq_ok_iff.mpr ⟨th, entries, hth, hreads, rfl⟩]
  dsimp only
  rw [Option.some_inj, ← Bool.not_eq_true, hreads.ok_iff, and_iff_right htimes]

end

/-! ## Pairs by number -/

theorem length_typesOf (py : Readers) (raws : List String) (id : String) :
    (typesOf py raws id).length = occurrences py raws id := by
  rw [typesOf, List.length_map, occurrences, List.countP_eq_length_filter]

theorem count_typesOf (py : Readers) (kind : String) (raws : List String) (id : String) :
    (typesOf py raws id).count (some kind) = occurrencesAs py kind raws id := by
  rw [typesOf, List.count, List.countP_map, List.countP_filter, occurrencesAs]
  exact List.countP_congr fun raw _ ↦ by simp [and_comm]

theorem countP_isHalf (types : List (Option String)) : types.countP isHalf =
    types.count (some "request") + types.count (some "response") := by
  induction types with
  | nil => rfl
  | cons kind types ih =>
    rw [List.countP_cons, ih, List.count_cons, List.count_cons]
    by_cases hrequest : kind = some "request"
    · simp [hrequest, isHalf]
      omega
    · by_cases hresponse : kind = some "response"
      · simp [hresponse, isHalf]
        omega
      · simp [hrequest, hresponse, isHalf]

theorem isHalf_iff (kind : String) : isHalf (some kind) ↔ kind = "request" ∨ kind = "response" := by
  simp [isHalf]

/-- There is one request and one response, unless one of the two types is there twice, or there are
too few records of them. -/
theorem one_each_iff (types : List (Option String)) :
    types.count (some "request") = 1 ∧ types.count (some "response") = 1 ↔
      ¬((∃ kind, [some kind, some kind].Sublist types ∧ isHalf (some kind)) ∨
        types.countP isHalf ≤ 1) := by
  have htwo (kind : String) : [some kind, some kind].Sublist types ↔ 2 ≤ types.count (some kind) :=
    List.replicate_sublist_iff (n := 2)
  simp only [htwo, isHalf_iff, countP_isHalf]
  constructor
  · rintro ⟨hrequest, hresponse⟩ (⟨kind, htwo, rfl | rfl⟩ | hfew) <;> omega
  · intro hnot
    rw [not_or, not_exists] at hnot
    have hrequest : ¬2 ≤ types.count (some "request") := fun h ↦ hnot.1 _ ⟨h, .inl rfl⟩
    have hresponse : ¬2 ≤ types.count (some "response") := fun h ↦ hnot.1 _ ⟨h, .inr rfl⟩
    have hfew := hnot.2
    omega

theorem mispaired_two_iff (first second : Option String) :
    Mispaired [first, second] ↔ first = second ∨ (isHalf first && isHalf second) = false := by
  constructor
  · intro h
    cases h with
    | same => exact .inl rfl
    | other hother => exact .inr hother
    | more hlength => simp at hlength
  · rintro (rfl | hother)
    · exact .same first
    · exact .other hother

/-- What passes by number is a pair, or one of these. -/
theorem mispaired_iff {types : List (Option String)} (hne : types ≠ [])
    (heven : types.length % 2 = 0) : Mispaired types ↔
      ¬(types.count (some "request") = 1 ∧ types.count (some "response") = 1) := by
  match types with
  | [first] => cases heven
  | [first, second] =>
    rw [mispaired_two_iff]
    by_cases hfirst : first = some "request" <;> by_cases hsecond : second = some "request" <;>
      by_cases hfirst' : first = some "response" <;>
        by_cases hsecond' : second = some "response" <;> simp_all [isHalf]
  | first :: second :: third :: rest =>
    have hfour : 4 ≤ (first :: second :: third :: rest).length := by
      simp only [List.length_cons] at heven ⊢
      omega
    rw [one_each_iff, not_not]
    refine ⟨fun h ↦ ?_, .more hfour heven⟩
    cases h with
    | more _ _ h => exact h

/-- When the numbers are even, the records of an id are mispaired exactly when they are not one
request and one response. -/
theorem mispaired_typesOf_iff {py : Readers} {raws : List String} {id : String}
    (heven : occurrences py raws id % 2 = 0) : Mispaired (typesOf py raws id) ↔
      0 < occurrences py raws id ∧
        ¬(occurrencesAs py "request" raws id = 1 ∧ occurrencesAs py "response" raws id = 1) := by
  rw [← length_typesOf] at heven ⊢
  rw [← count_typesOf, ← count_typesOf, List.length_pos_iff]
  by_cases hne : typesOf py raws id = []
  · rw [hne]
    refine iff_of_false (fun h ↦ ?_) (by simp)
    cases h with
    | more hlength => simp at hlength
  · rw [mispaired_iff hne heven, and_iff_right hne]

/-! ## Logs -/

/-- A line of a file: it is not blank and has no line break. -/
def IsLine (raw : String) : Prop :=
  PyStr.nonBlank raw = true ∧ ∀ c ∈ raw.toList, PyStr.isLineBreak c = false

instance : DecidablePred IsLine := fun raw ↦
  decidable_of_iff ((PyStr.nonBlank raw && raw.toList.all fun c ↦ !PyStr.isLineBreak c) = true)
    (by simp [IsLine])

/-- The file with these lines. -/
def logText (raws : List String) : String := String.join (raws.map (· ++ "\n"))

theorem universalNewlines_eq_self {cs : List Char} (h : '\r' ∉ cs) :
    PyStr.universalNewlines cs = cs := by
  induction cs with
  | nil => rfl
  | cons c cs ih =>
    rw [List.mem_cons, not_or] at h
    rw [PyStr.universalNewlines, if_neg (Ne.symm h.1), ih h.2]
    rintro ds rfl
    exact absurd rfl h.1

theorem not_mem_logText {raws : List String} (h : ∀ raw ∈ raws, IsLine raw) :
    '\r' ∉ (logText raws).toList := by
  have hraw : ∀ raw ∈ raws, '\r' ∉ raw.toList :=
    fun raw hraw hcr ↦ absurd ((h raw hraw).2 '\r' hcr) (by decide)
  simpa [logText] using hraw

theorem linesOf_logText {raws : List String} (h : ∀ raw ∈ raws, IsLine raw) :
    linesOf (logText raws) = raws := by
  rw [linesOf, readText, universalNewlines_eq_self (not_mem_logText h), String.ofList_toList,
    logText, PyStr.splitlines_of_lines fun raw hraw ↦ (h raw hraw).2, List.filter_eq_self]
  exact fun raw hraw ↦ (h raw hraw).1

/-! ## One record less, and one record for another -/

section

variable {py : Readers} {before after : List String} {raw new : String} {id : String}

theorem occurrences_cons (raw : String) (raws : List String) (id : String) :
    occurrences py (raw :: raws) id =
      occurrences py raws id + if idOf py raw = some id then 1 else 0 := by
  simp [occurrences, List.countP_cons]

/-- A record in the middle counts like one at the front. -/
theorem occurrences_middle (raw : String) (before after : List String) (id : String) :
    occurrences py (before ++ raw :: after) id =
      occurrences py (before ++ after) id + if idOf py raw = some id then 1 else 0 := by
  rw [← occurrences_cons]
  exact List.perm_middle.countP_eq _

theorem occurrencesAs_middle (kind raw : String) (before after : List String) (id : String) :
    occurrencesAs py kind (before ++ raw :: after) id = occurrencesAs py kind (before ++ after) id +
      if idOf py raw = some id ∧ typeOf py raw = some kind then 1 else 0 := by
  rw [occurrencesAs, List.perm_middle.countP_eq, List.countP_cons]
  simp [occurrencesAs]

theorem WellPaired.even (h : WellPaired py (before ++ raw :: after)) (id : String) :
    occurrences py (before ++ raw :: after) id % 2 = 0 := by
  rcases Nat.eq_zero_or_pos (occurrences py (before ++ raw :: after) id) with hzero | hpos
  · rw [hzero]
  · rw [h.two id hpos]

/-- Without a record the numbers are even only if it had no id. -/
theorem even_without_iff (h : WellPaired py (before ++ raw :: after)) :
    (∀ id, occurrences py (before ++ after) id % 2 = 0) ↔ idOf py raw = none := by
  constructor
  · intro hwithout
    rw [Option.eq_none_iff_forall_ne_some]
    intro id hid
    have heven := h.even id
    have hrest := hwithout id
    rw [occurrences_middle, if_pos hid] at heven
    omega
  · intro hnone id
    have heven := h.even id
    rw [occurrences_middle, hnone, if_neg nofun] at heven
    exact heven

/-- A second request instead of the response leaves the numbers as they are. -/
theorem even_with_iff (h : WellPaired py (before ++ raw :: after))
    (hid : idOf py new = idOf py raw) (id : String) :
    occurrences py (before ++ new :: after) id % 2 = 0 := by
  have heven := h.even id
  rw [occurrences_middle] at heven ⊢
  rw [hid]
  exact heven

theorem not_sound_with (h : WellPaired py (before ++ raw :: after)) (hraw : idOf py raw = some id)
    (hresponse : typeOf py raw = some "response") (hnew : idOf py new = some id)
    (hrequest : typeOf py new = some "request") : ¬Sound py (before ++ new :: after) := by
  intro hsound
  have hold := (h.pairs id (by rw [occurrences_middle, if_pos hraw]; omega)).1
  have htwo := (hsound.pairs id (by rw [occurrences_middle, if_pos hnew]; omega)).1
  have hother : ¬(idOf py raw = some id ∧ typeOf py raw = some "request") := by
    rw [hresponse]
    rintro ⟨-, heq⟩
    exact absurd heq (by decide)
  rw [occurrencesAs_middle, if_neg hother] at hold
  rw [occurrencesAs_middle, if_pos ⟨hnew, hrequest⟩] at htwo
  omega

end

/-! ## What an ok verdict means -/

section

variable (py : Readers) (now checkedAt sinceDays : ℤ) (path : String)

/-- **On which files an ok verdict is sound**, and what happens to the verdict on a log in which the
ids pair up.  When a record is missing, it is reported if and only if the record had an id.  A
second request in the place of a response is never reported. -/
theorem ok_is_sound_iff :
    (∀ content, (verdict py now checkedAt sinceDays path content = some true →
        Sound py (linesOf content)) ↔
      ¬(threshold now sinceDays ≠ none ∧ FalselyPaired py (linesOf content))) ∧
    ∀ before raw after, (∀ line ∈ before ++ raw :: after, IsLine line) →
      WellPaired py (before ++ raw :: after) → threshold now sinceDays ≠ none →
      (verdict py now checkedAt sinceDays path (logText (before ++ after)) = some false ↔
        ∃ id, idOf py raw = some id) ∧
      ∀ id new, idOf py raw = some id → typeOf py raw = some "response" → IsLine new →
        (timeOf py new).isSome = true → idOf py new = some id → typeOf py new = some "request" →
        verdict py now checkedAt sinceDays path (logText (before ++ new :: after)) = some true ∧
          ¬Sound py (before ++ new :: after) := by
  refine ⟨fun content ↦ ?_, fun before raw after hlines hpaired hth ↦ ⟨?_, ?_⟩⟩
  · rw [verdict_eq_true_iff]
    constructor
    · rintro h ⟨hth, htimes, heven, id, hid⟩
      obtain ⟨hpos, hnot⟩ := (mispaired_typesOf_iff (heven id)).mp hid
      exact hnot ((h ⟨hth, htimes, heven⟩).pairs id hpos)
    · rintro hnot ⟨hth, htimes, heven⟩
      refine ⟨htimes, fun id hpos ↦ ?_⟩
      by_contra hid
      exact hnot ⟨hth, htimes, heven, id, (mispaired_typesOf_iff (heven id)).mpr ⟨hpos, hid⟩⟩
  · have hsub : ∀ line ∈ before ++ after, line ∈ before ++ raw :: after := by
      simp only [List.mem_append, List.mem_cons]
      tauto
    have hwithout := linesOf_logText fun line hline ↦ hlines line (hsub line hline)
    rw [verdict_eq_false_iff hth, hwithout, even_without_iff hpaired, ← Option.ne_none_iff_exists']
    rw [hwithout]
    exact fun line hline ↦ hpaired.times line (hsub line hline)
  · intro id new hraw hresponse hnew htime hid hrequest
    have hall {P : String → Prop} (h : ∀ line ∈ before ++ raw :: after, P line) (hP : P new) :
        ∀ line ∈ before ++ new :: after, P line := by
      simp only [List.forall_mem_append, List.forall_mem_cons] at h ⊢
      exact ⟨h.1, hP, h.2.2⟩
    refine ⟨verdict_eq_true_iff.mpr ⟨hth, ?_⟩,
      not_sound_with hpaired hraw hresponse hid hrequest⟩
    rw [linesOf_logText (hall hlines hnew)]
    exact ⟨hall hpaired.times htime, even_with_iff hpaired (hid.trans hraw.symm)⟩

end

/-! ## A request and its response -/

def requestLine : String :=
  "\x7b\"time\":\"2026-01-02T00:00:00Z\",\"type\":\"request\"," ++
    "\"request\":\x7b\"id\":\"r1\"\x7d\x7d"

def responseLine : String :=
  "\x7b\"time\":\"2026-01-02T00:00:00Z\",\"type\":\"response\"," ++
    "\"request\":\x7b\"id\":\"r1\"\x7d\x7d"

def vaultRecord (kind : String) : Json :=
  .obj [("time", .str "2026-01-02T00:00:00Z"), ("type", .str kind),
    ("request", .obj [("id", .str "r1")])]

def vault : Readers :=
  readers [(requestLine, vaultRecord "request"), (responseLine, vaultRecord "response")]
    [("2026-01-02T00:00:00+00:00", .aware 1767312000000000)]

@[simp] theorem idOf_requestLine : idOf vault requestLine = some "r1" := by decide +kernel

@[simp] theorem idOf_responseLine : idOf vault responseLine = some "r1" := by decide +kernel

@[simp] theorem typeOf_requestLine : typeOf vault requestLine = some "request" := by
  decide +kernel

@[simp] theorem typeOf_responseLine : typeOf vault responseLine = some "response" := by
  decide +kernel

theorem isSome_timeOf_vault : ∀ raw ∈ [requestLine, responseLine],
    (timeOf vault raw).isSome = true := by decide +kernel

theorem isLine_vault : ∀ raw ∈ [requestLine, responseLine], IsLine raw := by decide +kernel

theorem wellPaired_vault : WellPaired vault [requestLine, responseLine] := by
  have honly (id : String) (hpos : 0 < occurrences vault [requestLine, responseLine] id) :
      id = "r1" := by
    by_contra hne
    rw [occurrences_cons, occurrences_cons] at hpos
    simp [Ne.symm hne, occurrences] at hpos
  refine ⟨⟨isSome_timeOf_vault, fun id hpos ↦ ?_⟩, fun id hpos ↦ ?_⟩
  · rw [honly id hpos]
    simp [occurrencesAs]
  · rw [honly id hpos]
    simp [occurrences]

/-- Without its response a request is reported; with another request it is not. -/
theorem ok_is_sound_iff_response :
    verdict vault 1767398400000000 1767398400000000 7 "/vault/logs/audit.log"
        (logText [requestLine]) = some false ∧
      verdict vault 1767398400000000 1767398400000000 7 "/vault/logs/audit.log"
        (logText [requestLine, requestLine]) = some true := by
  obtain ⟨hmissing, hreplaced⟩ :=
    (ok_is_sound_iff vault 1767398400000000 1767398400000000 7 "/vault/logs/audit.log").2
      [requestLine] responseLine [] isLine_vault wellPaired_vault (by decide)
  refine ⟨hmissing.mpr ⟨"r1", idOf_responseLine⟩, ?_⟩
  exact (hreplaced "r1" requestLine idOf_responseLine typeOf_responseLine
    (isLine_vault _ List.mem_cons_self) (isSome_timeOf_vault _ List.mem_cons_self)
    idOf_requestLine typeOf_requestLine).1

/-- Two requests with one id pass for a request and its response. -/
theorem two_requests_are_ok :
    verdict vault 1767398400000000 1767398400000000 7 "/vault/logs/audit.log"
        (logText [requestLine, requestLine]) = some true ∧
      ¬Sound vault (linesOf (logText [requestLine, requestLine])) := by
  have hboth {P : String → Prop} (h : P requestLine) : ∀ raw ∈ [requestLine, requestLine], P raw :=
    List.forall_mem_cons.mpr ⟨h, List.forall_mem_singleton.mpr h⟩
  have hlines := linesOf_logText (hboth (isLine_vault _ List.mem_cons_self))
  rw [verdict_eq_true_iff, hlines]
  refine ⟨⟨by decide, hboth (isSome_timeOf_vault _ List.mem_cons_self), fun id ↦ ?_⟩,
    fun hsound ↦ ?_⟩
  · rw [occurrences_cons, occurrences_cons]
    split <;> simp [occurrences]
  · have hone := (hsound.pairs "r1" (by simp [occurrences])).1
    simp [occurrencesAs] at hone

end WgManager.Evidence
