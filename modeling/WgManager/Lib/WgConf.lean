import WgManager.Lib.Lines
import Mathlib.Data.List.TakeWhile

/-!
# The configuration format of `wg-quick`

Sections in brackets, `Key = value` lines, comments from `#` to the end of the line.  `WgConf.item`
reads one line, `WgConf.group` sorts what the lines say into sections, and `WgConf.parse` is the two
together.  Names of sections and keys are read without regard to case.

To say what a text means, it is enough to know what each of its lines says (`parse_eq_some_iff`) and
that the parts it is put together from each begin with one header and have no other: when a text has
as many sections as it has parts, each part is a section (`group_segments`).
-/

set_option autoImplicit false

namespace WgConf

open Lines

/-! ## Lines -/

/-- White space inside a line. -/
def isBlank (c : Char) : Bool := [' ', '\t', '\r', '\x0b', '\x0c'].contains c

/-- A line without its comment. -/
def uncomment (l : List Char) : List Char := l.takeWhile (· ≠ '#')

/-- Without white space at either end. -/
def trim (l : List Char) : List Char := ((l.dropWhile isBlank).reverse.dropWhile isBlank).reverse

def lower (l : List Char) : List Char := l.map Char.toLower

/-- What a line says. -/
inductive Item
  | header (name : List Char)
  | entry (key value : List Char)
  deriving DecidableEq

/-- A line between brackets. -/
def headerItem (l : List Char) : Option Item :=
  if l.getLast? = some ']' then some (.header (lower (trim l.dropLast))) else none

/-- A key and a value around the first `=`. -/
def entryItem (l : List Char) : Option Item :=
  if '=' ∈ l then
    some (.entry (lower (trim (l.takeWhile (· ≠ '=')))) (trim ((l.dropWhile (· ≠ '=')).tail)))
  else none

/-- What a line without comment says: nothing when it is blank; `none` when it is not well
formed. -/
def bareItem (l : List Char) : Option (Option Item) :=
  match l.dropWhile isBlank with
  | [] => some none
  | c :: cs => if c = '[' then (headerItem (trim cs)).map some else (entryItem l).map some

/-- What a line says. -/
def item (l : List Char) : Option (Option Item) := bareItem (uncomment l)

/-- What a list of lines says. -/
def items (ls : List (List Char)) : Option (List Item) := (ls.mapM item).map (·.filterMap id)

/-! ## Sections -/

structure Section where
  name : List Char
  entries : List (List Char × List Char)
  deriving DecidableEq

/-- The entries before the first header, and the sections. -/
def group : List Item → List (List Char × List Char) × List Section
  | [] => ([], [])
  | .entry key value :: rest => ((key, value) :: (group rest).1, (group rest).2)
  | .header name :: rest => ([], ⟨name, (group rest).1⟩ :: (group rest).2)

/-- The sections of a text; `none` when it is not well formed. -/
def parse (cs : List Char) : Option (List Section) :=
  match items (lines cs) with
  | none => none
  | some is => if (group is).1 = [] then some (group is).2 else none

/-! ## Items -/

theorem items_nil : items [] = some [] := rfl

theorem items_cons (l : List Char) (ls : List (List Char)) :
    items (l :: ls) = (item l).bind fun i ↦ (items ls).map fun is ↦ i.toList ++ is := by
  simp only [items, List.mapM_cons, Option.bind_eq_bind, Option.pure_def]
  cases item l with
  | none => rfl
  | some i =>
    cases ls.mapM item with
    | none => rfl
    | some is => cases i <;> rfl

theorem items_append (ls ms : List (List Char)) :
    items (ls ++ ms) = (items ls).bind fun is ↦ (items ms).map fun js ↦ is ++ js := by
  induction ls with
  | nil => simp [items_nil]
  | cons l ls ih =>
    rw [List.cons_append, items_cons, items_cons, ih]
    cases item l with
    | none => rfl
    | some i =>
      cases items ls with
      | none => rfl
      | some is => cases items ms <;> simp

/-- Lines say nothing when each of them says nothing. -/
theorem items_eq_nil_iff {ls : List (List Char)} :
    items ls = some [] ↔ ∀ l ∈ ls, item l = some none := by
  induction ls with
  | nil => simp [items_nil]
  | cons l ls ih =>
    rw [items_cons]
    cases hl : item l with
    | none => simp [hl]
    | some i =>
      cases i with
      | none => simp [hl, ← ih]
      | some i => simp [hl]

/-! ## Parts with one header each -/

def Item.isHeader : Item → Bool
  | header _ => true
  | entry _ _ => false

/-- The entries among some items. -/
def entries (is : List Item) : List (List Char × List Char) :=
  is.filterMap fun
    | .entry key value => some (key, value)
    | .header _ => none

@[simp] theorem isHeader_header (name : List Char) : (Item.header name).isHeader = true := rfl

@[simp] theorem isHeader_entry (key value : List Char) :
    (Item.entry key value).isHeader = false := rfl

@[simp] theorem entries_nil : entries [] = [] := rfl

@[simp] theorem entries_entry (key value : List Char) (is : List Item) :
    entries (.entry key value :: is) = (key, value) :: entries is := rfl

@[simp] theorem entries_append (is js : List Item) :
    entries (is ++ js) = entries is ++ entries js :=
  List.filterMap_append

theorem eq_nil_of_entries {is : List Item} (hfree : ∀ i ∈ is, i.isHeader = false)
    (h : entries is = []) : is = [] := by
  cases is with
  | nil => rfl
  | cons i is =>
    cases i with
    | header name => exact absurd (hfree _ List.mem_cons_self) (by simp)
    | entry key value => cases h

/-- A part of a text: a header and what follows it. -/
def headed (s : List Char × List Item) : List Item := .header s.1 :: s.2

theorem group_append {is : List Item} (h : ∀ i ∈ is, i.isHeader = false) (js : List Item) :
    group (is ++ js) = (entries is ++ (group js).1, (group js).2) := by
  induction is with
  | nil => rfl
  | cons i is ih =>
    have hrest := ih fun j hj ↦ h j (List.mem_cons_of_mem i hj)
    cases i with
    | header name => exact absurd (h _ List.mem_cons_self) (by simp)
    | entry key value => simp [group, hrest]

theorem length_group (is : List Item) : (group is).2.length = is.countP Item.isHeader := by
  induction is with
  | nil => rfl
  | cons i is ih => cases i <;> simp [group, ih, List.countP_cons]

theorem group_segments_fst (segs : List (List Char × List Item)) :
    (group (segs.flatMap headed)).1 = [] := by
  cases segs with
  | nil => rfl
  | cons s segs => rfl

theorem length_le_countP_segments (segs : List (List Char × List Item)) :
    segs.length ≤ (segs.flatMap headed).countP Item.isHeader := by
  induction segs with
  | nil => simp
  | cons s segs ih =>
    rw [List.flatMap_cons, List.countP_append, headed, List.countP_cons_of_pos rfl,
      List.length_cons]
    omega

/-- **As many sections as parts**: then no part has a second header, and the sections are the
parts. -/
theorem group_segments_iff (segs : List (List Char × List Item)) (ss : List Section)
    (hlen : ss.length = segs.length) :
    (group (segs.flatMap headed)).2 = ss ↔
      (∀ s ∈ segs, ∀ i ∈ s.2, i.isHeader = false) ∧
        ss = segs.map fun s ↦ ⟨s.1, entries s.2⟩ := by
  induction segs generalizing ss with
  | nil =>
    rw [List.length_nil, List.length_eq_zero_iff] at hlen
    simp [hlen, group]
  | cons s segs ih =>
    obtain ⟨s₀, ss, rfl⟩ := List.exists_cons_of_length_eq_add_one hlen
    have hlen' : ss.length = segs.length := by simpa using hlen
    have hcons : (s :: segs).flatMap headed = .header s.1 :: (s.2 ++ segs.flatMap headed) := rfl
    have hfree : (∀ i ∈ s.2, i.isHeader = false) →
        ((group ((s :: segs).flatMap headed)).2 = s₀ :: ss ↔
          s₀ = ⟨s.1, entries s.2⟩ ∧ (group (segs.flatMap headed)).2 = ss) := by
      intro h
      rw [hcons, group, group_append h, group_segments_fst, List.append_nil, List.cons.injEq,
        eq_comm (a := s₀)]
    constructor
    · intro h
      -- the headers are counted: the other parts need all that are not the first one
      have hcount := congrArg List.length h
      rw [length_group, hcons, List.countP_cons_of_pos rfl, List.countP_append,
        List.length_cons] at hcount
      have hothers := length_le_countP_segments segs
      have hnone : ∀ i ∈ s.2, i.isHeader = false := by
        have hzero : s.2.countP Item.isHeader = 0 := by omega
        simpa using List.countP_eq_zero.mp hzero
      obtain ⟨hs₀, hss⟩ := (hfree hnone).mp h
      obtain ⟨hrest, hmap⟩ := (ih ss hlen').mp hss
      refine ⟨?_, by rw [List.map_cons, ← hmap, hs₀]⟩
      intro t ht
      rcases List.mem_cons.mp ht with rfl | ht
      · exact hnone
      · exact hrest t ht
    · rintro ⟨hall, hmap⟩
      rw [List.map_cons, List.cons.injEq] at hmap
      rw [hfree (hall s List.mem_cons_self)]
      refine ⟨hmap.1, (ih ss hlen').mpr ⟨fun t ht ↦ hall t (List.mem_cons_of_mem s ht), hmap.2⟩⟩

/-! ## Reading lines of a known form -/

theorem uncomment_append {l : List Char} (h : '#' ∉ l) (m : List Char) :
    uncomment (l ++ m) = l ++ uncomment m := by
  apply List.takeWhile_append_of_pos
  intro c hc
  simpa using ne_of_mem_of_not_mem hc h

/-- A comment hides what comes after it. -/
theorem uncomment_append_of_mem {l : List Char} (h : '#' ∈ l) (m : List Char) :
    uncomment (l ++ m) = uncomment l := by
  obtain ⟨a, b, rfl, ha⟩ := List.eq_append_cons_of_mem h
  rw [List.append_assoc, uncomment_append ha, uncomment_append ha]
  simp [uncomment]

theorem uncomment_of_not_mem {l : List Char} (h : '#' ∉ l) : uncomment l = l := by
  have happend := uncomment_append h []
  simpa [uncomment] using happend

/-- A comment says nothing. -/
theorem item_comment (l : List Char) : item ('#' :: l) = some none := by
  simp [item, bareItem, uncomment]

/-- A line that begins with a letter and has an `=` later is an entry. -/
theorem item_entry {c : Char} {key rest : List Char} (hblank : isBlank c = false)
    (hbracket : c ≠ '[') (hcomment : '#' ∉ c :: key) (hequals : '=' ∉ c :: key) :
    item (c :: key ++ '=' :: rest) =
      some (some (.entry (lower (trim (c :: key))) (trim (uncomment rest)))) := by
  have hu : uncomment (c :: key ++ '=' :: rest) = c :: key ++ '=' :: uncomment rest := by
    rw [uncomment_append hcomment]
    simp [uncomment]
  have hpos : ∀ d ∈ c :: key, decide (d ≠ '=') = true := by
    intro d hd
    simpa using ne_of_mem_of_not_mem hd hequals
  have hentry : entryItem (c :: key ++ '=' :: uncomment rest) =
      some (.entry (lower (trim (c :: key))) (trim (uncomment rest))) := by
    rw [entryItem, if_pos (by simp), List.takeWhile_append_of_pos hpos,
      List.dropWhile_append_of_pos hpos]
    simp
  rw [item, hu, bareItem, hentry]
  simp [hblank, hbracket]

/-- A line of the form `Key = value`. -/
theorem item_field {c : Char} {key : List Char} (hblank : isBlank c = false)
    (hbracket : c ≠ '[') (hcomment : '#' ∉ c :: key) (hequals : '=' ∉ c :: key) (rest : List Char) :
    item (c :: key ++ '=' :: ' ' :: rest) =
      some (some (.entry (lower (trim (c :: key))) (trim (uncomment rest)))) := by
  have htrim (l : List Char) : trim (' ' :: l) = trim l := by
    simp [trim, isBlank]
  have hrest : uncomment (' ' :: rest) = ' ' :: uncomment rest := by simp [uncomment]
  rw [item_entry hblank hbracket hcomment hequals, hrest, htrim]

/-- The key of a text of the form `Key = `, as the reader spells it. -/
def keyed (text : List Char) : Option (List Char) :=
  match text.takeWhile (· ≠ '=') with
  | [] => none
  | c :: key =>
    if isBlank c = false ∧ c ≠ '[' ∧ '#' ∉ c :: key ∧ text = c :: key ++ ['=', ' '] then
      some (lower (trim (c :: key)))
    else none

theorem keyed_literal {l name : List Char} (h : keyed l = some name) :
    keyed (String.ofList l).toList = some (String.ofList name).toList := by
  rwa [String.toList_ofList, String.toList_ofList]

/-- The same for a line that begins with such a text. -/
theorem item_keyed {text name : List Char} (h : keyed text = some name) (rest : List Char) :
    item (text ++ rest) = some (some (.entry name (trim (uncomment rest)))) := by
  rw [keyed] at h
  cases hkey : text.takeWhile (· ≠ '=') with
  | nil =>
    rw [hkey] at h
    cases h
  | cons c key =>
    simp only [hkey] at h
    split at h
    case isTrue hc =>
      obtain ⟨hblank, hbracket, hcomment, htext⟩ := hc
      have hequals : '=' ∉ c :: key := by
        intro hmem
        rw [← hkey] at hmem
        simpa using List.mem_takeWhile_imp hmem
      have hline : text ++ rest = c :: key ++ '=' :: ' ' :: rest := by
        rw [htext, List.append_assoc]
        rfl
      rw [hline, item_field hblank hbracket hcomment hequals, Option.some.inj h]
    case isFalse => cases h

theorem trim_sublist (l : List Char) : (trim l).Sublist l := by
  rw [trim, ← List.reverse_sublist, List.reverse_reverse]
  exact (List.dropWhile_sublist _).trans (List.reverse_sublist.mpr (List.dropWhile_sublist _))

/-- Nothing is trimmed off a text without white space. -/
theorem trim_of_not_blank {l : List Char} (h : ∀ c ∈ l, isBlank c = false) : trim l = l := by
  have hdrop (m : List Char) (hm : ∀ c ∈ m, isBlank c = false) : m.dropWhile isBlank = m := by
    cases m with
    | nil => rfl
    | cons c cs => simp [hm c List.mem_cons_self]
  rw [trim, hdrop l h, hdrop l.reverse (fun c hc ↦ h c (List.mem_reverse.mp hc)),
    List.reverse_reverse]

/-- A value is read back in full when it has nothing for the reader to take away: no line break, no
comment, no white space at its ends. -/
theorem value_eq_iff {cs : List Char} : trim (uncomment ((lines cs).headD [])) = cs ↔
    '\n' ∉ cs ∧ '#' ∉ cs ∧ trim cs = cs := by
  constructor
  · intro h
    have htrim := trim_sublist (uncomment ((lines cs).headD []))
    have hcut : (uncomment ((lines cs).headD [])).Sublist ((lines cs).headD []) :=
      List.takeWhile_sublist _
    have hhead := head_lines_sublist cs
    -- the three parts have the length of the whole
    have h₁ := htrim.length_le
    have h₂ := hcut.length_le
    have h₃ := hhead.length_le
    rw [h] at h₁
    have hline : (lines cs).headD [] = cs := hhead.eq_of_length (by omega)
    have hcomment : uncomment cs = cs := by
      rw [hline] at hcut h₁ h₂
      exact hcut.eq_of_length (by omega)
    rw [hline, hcomment] at h
    refine ⟨?_, fun hhash ↦ ?_, h⟩
    · rw [← hline]
      exact newline_not_mem_head_lines cs
    · rw [uncomment, List.takeWhile_eq_self_iff] at hcomment
      simpa using hcomment _ hhash
  · rintro ⟨hnewline, hcomment, htrim⟩
    rw [lines_of_not_mem hnewline, List.headD_cons, uncomment_of_not_mem hcomment, htrim]

/-! ## Harmless lines -/

/-- What is read is nothing, or an entry with none of the given keys. -/
def harmlessItem (keys : List (List Char)) : Option (Option Item) → Bool
  | some none => true
  | some (some (.entry key _)) => !keys.contains key
  | _ => false

/-- The line is well formed, is no header and says nothing about the given keys. -/
def harmless (keys : List (List Char)) (l : List Char) : Bool := harmlessItem keys (item l)

/-- A line that goes on after `l` cannot be cut off from it: it has a comment already, or it has
begun. -/
def begun (l : List Char) : Bool := l.contains '#' || l.any (!isBlank ·)

/-- The lines of a list are harmless when what they say together is. -/
theorem harmless_all_iff {keys : List (List Char)} {ls : List (List Char)} :
    (∀ l ∈ ls, harmless keys l = true) ↔ ∃ is, items ls = some is ∧
      (∀ i ∈ is, i.isHeader = false) ∧ ∀ e ∈ entries is, e.1 ∉ keys := by
  induction ls with
  | nil => simp [items_nil]
  | cons l ls ih =>
    rw [items_cons, List.forall_mem_cons, ih, harmless]
    cases hl : item l with
    | none => simp [harmlessItem]
    | some i =>
      cases i with
      | none => simp [harmlessItem]
      | some i =>
        cases i with
        | header name => simp [harmlessItem]
        | entry key value =>
          cases items ls with
          | none => simp
          | some is => simp [harmlessItem, and_left_comm, -Prod.forall]

theorem dropWhile_append_of_cons {l : List Char} {c : Char} {cs : List Char}
    (h : l.dropWhile isBlank = c :: cs) (m : List Char) :
    (l ++ m).dropWhile isBlank = c :: cs ++ m := by
  rw [List.dropWhile_append, h]
  simp

/-- A bare line that is harmless and not blank is an entry. -/
theorem harmless_bare_iff {keys : List (List Char)} {l : List Char} {c : Char} {cs : List Char}
    (hl : l.dropWhile isBlank = c :: cs) : harmlessItem keys (bareItem l) = true ↔
      c ≠ '[' ∧ '=' ∈ l ∧ lower (trim (l.takeWhile (· ≠ '='))) ∉ keys := by
  rw [bareItem, hl]
  by_cases hbracket : c = '['
  · simp only [hbracket, if_true, headerItem]
    split <;> simp [harmlessItem]
  · by_cases hequals : '=' ∈ l
    · simp [hbracket, entryItem, hequals, harmlessItem]
    · simp [hbracket, entryItem, hequals, harmlessItem]

/-- The key of an entry is settled by the text up to the first `=`. -/
theorem takeWhile_equals_append {l : List Char} (h : '=' ∈ l) (m : List Char) :
    (l ++ m).takeWhile (· ≠ '=') = l.takeWhile (· ≠ '=') := by
  obtain ⟨a, b, rfl, ha⟩ := List.eq_append_cons_of_mem h
  have hpos : ∀ d ∈ a, decide (d ≠ '=') = true := by
    intro d hd
    simpa using ne_of_mem_of_not_mem hd ha
  rw [List.append_assoc, List.takeWhile_append_of_pos hpos, List.takeWhile_append_of_pos hpos]
  simp

theorem dropWhile_of_begun {l : List Char} (hcomment : '#' ∉ l) (h : begun l = true) :
    ∃ c cs, l.dropWhile isBlank = c :: cs := by
  have hany : ∃ d ∈ l, isBlank d = false := by simpa [begun, hcomment] using h
  apply List.exists_cons_of_ne_nil
  rw [ne_eq, List.dropWhile_eq_nil_iff]
  simpa using hany

/-- A line that is harmless and has begun stays harmless when it goes on. -/
theorem harmless_append {keys : List (List Char)} {l : List Char} (h : harmless keys l = true)
    (hbegun : begun l = true) (m : List Char) : harmless keys (l ++ m) = true := by
  by_cases hcomment : '#' ∈ l
  · rw [harmless, item, uncomment_append_of_mem hcomment]
    exact h
  · obtain ⟨c, cs, hl⟩ := dropWhile_of_begun hcomment hbegun
    rw [harmless, item, uncomment_of_not_mem hcomment, harmless_bare_iff hl] at h
    obtain ⟨hbracket, hequals, hkey⟩ := h
    rw [harmless, item, uncomment_append hcomment,
      harmless_bare_iff (dropWhile_append_of_cons hl _), takeWhile_equals_append hequals]
    exact ⟨hbracket, List.mem_append_left _ hequals, hkey⟩

/-- A line that goes on with a text that has no `=` is harmless just when its beginning is, and has
begun. -/
theorem harmless_append_iff {keys : List (List Char)} {l F : List Char} (hcomment : '#' ∉ F)
    (hequals : '=' ∉ F) (hblank : ∃ d ∈ F, isBlank d = false) :
    harmless keys (l ++ F) = true ↔ harmless keys l = true ∧ begun l = true := by
  refine ⟨fun h ↦ ?_, fun h ↦ harmless_append h.1 h.2 F⟩
  by_cases hl : '#' ∈ l
  · rw [harmless, item, uncomment_append_of_mem hl] at h
    exact ⟨h, by simp [begun, hl]⟩
  · rw [harmless, item, uncomment_append hl, uncomment_of_not_mem hcomment] at h
    obtain ⟨c, cs, hwhole⟩ : ∃ c cs, (l ++ F).dropWhile isBlank = c :: cs := by
      obtain ⟨d, hd, hblank⟩ := hblank
      apply List.exists_cons_of_ne_nil
      rw [ne_eq, List.dropWhile_eq_nil_iff]
      exact fun hall ↦ by simp [hall d (List.mem_append_right l hd)] at hblank
    obtain ⟨hbracket, hmem, hkey⟩ := (harmless_bare_iff hwhole).mp h
    have hmem' : '=' ∈ l := (List.mem_append.mp hmem).resolve_right hequals
    -- the `=` is in the beginning, which therefore is not blank
    have hbegun : begun l = true := by
      simp only [begun, Bool.or_eq_true, List.any_eq_true]
      exact .inr ⟨'=', hmem', by decide⟩
    obtain ⟨c', cs', hfirst⟩ := dropWhile_of_begun hl hbegun
    rw [dropWhile_append_of_cons hfirst, List.cons_append, List.cons.injEq] at hwhole
    rw [takeWhile_equals_append hmem'] at hkey
    refine ⟨?_, hbegun⟩
    rw [harmless, item, uncomment_of_not_mem hl, harmless_bare_iff hfirst]
    exact ⟨by rw [hwhole.1]; exact hbracket, hmem', hkey⟩

/-! ## Whole texts -/

/-- A text made of lines says what its lines say. -/
theorem parse_unlines (ls : List (List Char)) : parse (unlines ls) =
    (items (ls.flatMap lines)).bind fun is ↦
      if (group is).1 = [] then some (group is).2 else none := by
  have hitems : items (ls.flatMap lines ++ [[]]) = items (ls.flatMap lines) := by
    have hlast : items [[]] = some [] := rfl
    rw [items_append, hlast]
    cases items (ls.flatMap lines) <;> simp
  rw [parse, lines_unlines, hitems]
  cases items (ls.flatMap lines) <;> rfl

end WgConf
