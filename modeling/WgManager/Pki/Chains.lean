import WgManager.Lib.Pem

/-!
# Chains of certificates

`_join_pems` of `pki.py` puts PEM texts one after another.  Vault answers with entries that do not
end with a newline and with blank ones; were they only concatenated, the first marker of an entry
would stand on the last line of the one before it, and strict readers would refuse the file.

A joined text is read as its entries are, one after another
(`joined_chains_stay_parseable`), and so is the chain that is kept of an issued certificate
(`blocks_issuedChain`).
-/

set_option autoImplicit false

namespace WgManager.Pki

open Pem PyStr

/-! ## The code -/

/-- What one entry is joined as, unless it is blank. -/
def joined (pem : String) : Option String :=
  if pem = "" ∨ strip pem = "" then none else some (rstrip '\n' pem ++ "\n")

/-- `_join_pems`. -/
def joinPems (pems : List String) : String := String.join (pems.filterMap joined)

/-- What `VaultPKI._issue` makes of the fields `ca_chain`, a list or a text, and `issuing_ca` of an
answer. -/
def issuedChain (caChain : Option (List String ⊕ String)) (issuingCa : Option String) : String :=
  let chainPem :=
    match caChain with
    | none => joinPems []
    | some (.inl pems) => joinPems pems
    | some (.inr pem) => if pem = "" then joinPems [] else joinPems [pem]
  if chainPem = "" then joinPems [issuingCa.getD ""] else chainPem

/-! ## The parts of a joined text -/

/-- What becomes of one entry. -/
def part (pem : String) : List Char := ((joined pem).getD "").toList

theorem part_of_blank {pem : String} (h : strip pem = "") : part pem = [] := by
  rw [part, joined, if_pos (.inr h)]
  rfl

theorem part_of_not_blank {pem : String} (h : strip pem ≠ "") :
    part pem = (rstrip '\n' pem).toList ++ ['\n'] := by
  have hempty : pem ≠ "" := by
    rintro rfl
    exact h rfl
  rw [part, joined, if_neg (not_or.mpr ⟨hempty, h⟩), Option.getD_some, String.toList_append]
  rfl

theorem toList_joinPems (pems : List String) : (joinPems pems).toList = pems.flatMap part := by
  rw [joinPems]
  induction pems with
  | nil => rfl
  | cons pem pems ih =>
    rw [List.flatMap_cons, ← ih, part]
    cases hjoined : joined pem with
    | none =>
      rw [List.filterMap_cons_none hjoined]
      rfl
    | some text =>
      rw [List.filterMap_cons_some hjoined, String.join_cons, String.toList_append]
      rfl

/-- A text that `rstrip` leaves alone but for one newline at its end, and that is not blank. -/
def Ended (text : List Char) : Prop :=
  (∃ body last, text = body ++ [last, '\n'] ∧ last ≠ '\n') ∧ ∃ c ∈ text, isSpace c = false

theorem part_of_ended {pem : String} (h : Ended pem.toList) : part pem = pem.toList := by
  obtain ⟨⟨body, last, htext, hlast⟩, c, hc, hspace⟩ := h
  have hrstrip : (rstrip '\n' pem).toList = body ++ [last] := by
    rw [rstrip, String.toList_ofList, htext, List.append_cons, dropEndWhile_append (by simp),
      dropEndWhile_of_last body (by simpa using hlast)]
  rw [part_of_not_blank (strip_ne_empty hc hspace), hrstrip, htext, ← List.append_cons]

theorem ended_part {pem : String} (h : strip pem ≠ "") : Ended (part pem) := by
  obtain ⟨c, hc, hspace⟩ : ∃ c ∈ pem.toList, isSpace c = false := by
    by_contra hnone
    refine h (strip_of_isSpace fun c hc ↦ ?_)
    by_contra hspace
    exact hnone ⟨c, hc, Bool.not_eq_true _ ▸ hspace⟩
  obtain ⟨n, hn⟩ := exists_rstrip '\n' pem
  have hmem : c ∈ (rstrip '\n' pem).toList := by
    rw [hn] at hc
    refine (List.mem_append.mp hc).resolve_right fun hnewline ↦ ?_
    rw [List.eq_of_mem_replicate hnewline] at hspace
    cases hspace
  rw [part_of_not_blank h]
  refine ⟨?_, c, List.mem_append_left _ hmem, hspace⟩
  obtain ⟨body, last, hbody⟩ := (List.eq_nil_or_concat (rstrip '\n' pem).toList).resolve_left
    (List.ne_nil_of_mem hmem)
  refine ⟨body, last, by rw [hbody]; simp, ?_⟩
  rw [rstrip, String.toList_ofList, List.concat_eq_append] at hbody
  exact beq_eq_false_iff_ne.mp (last_of_dropEndWhile (p := (· == '\n')) hbody)

theorem ended_append (front : List Char) {text : List Char} (h : Ended text) :
    Ended (front ++ text) := by
  obtain ⟨⟨body, last, rfl, hlast⟩, c, hc, hspace⟩ := h
  exact ⟨⟨front ++ body, last, (List.append_assoc ..).symm, hlast⟩, c,
    List.mem_append_right front hc, hspace⟩

/-- A joined text is empty or ends with a newline. -/
theorem joinPems_cases (pems : List String) :
    joinPems pems = "" ∨ Ended (joinPems pems).toList := by
  rw [← String.toList_eq_nil_iff, toList_joinPems]
  induction pems with
  | nil => exact .inl rfl
  | cons pem pems ih =>
    rw [List.flatMap_cons]
    rcases ih with hnil | hended
    · rw [hnil, List.append_nil]
      by_cases hblank : strip pem = ""
      · exact .inl (part_of_blank hblank)
      · exact .inr (ended_part hblank)
    · exact .inr (ended_append _ hended)

theorem part_joinPems (pems : List String) : part (joinPems pems) = (joinPems pems).toList := by
  rcases joinPems_cases pems with hempty | hended
  · rw [hempty]
    rfl
  · exact part_of_ended hended

/-- Joined texts are joined to what their entries are joined to. -/
theorem joinPems_map_joinPems (groups : List (List String)) :
    joinPems (groups.map joinPems) = joinPems groups.flatten := by
  rw [← String.toList_inj, toList_joinPems, toList_joinPems, List.flatMap_map]
  induction groups with
  | nil => rfl
  | cons pems groups ih =>
    rw [List.flatMap_cons, List.flatten_cons, List.flatMap_append, ih, part_joinPems,
      toList_joinPems]

/-! ## Reading -/

/-- A text without a dash has no blocks. -/
theorem readBlocks_of_plain {lines : List Line} (h : ∀ line ∈ lines, '-' ∉ line) :
    readBlocks none lines = some [] := by
  induction lines with
  | nil => rfl
  | cons line lines ih =>
    rw [List.forall_mem_cons] at h
    have hkind : kind line = .plain := by
      refine if_pos ⟨fun hmark ↦ h.1 (hmark.subset ?_), fun hmark ↦ h.1 (hmark.subset ?_)⟩
      · exact List.mem_cons_self
      · exact List.mem_cons_self
    have hline : readLine none line = some (none, []) := by
      unfold readLine
      rw [hkind]
    rw [readBlocks_cons, hline, Option.bind_some, ih h.2]
    rfl

theorem blocks_of_blank {pem : String} (h : strip pem = "") : blocks pem = some [] := by
  refine readBlocks_of_plain fun line hline hdash ↦ ?_
  have hspace := isSpace_of_strip h '-' (mem_of_mem_pieces hline hdash)
  cases hspace

/-- `rstrip` only takes empty lines away. -/
theorem readBlocks_rstrip (pem : String) :
    readBlocks none (linesOf (rstrip '\n' pem).toList) = blocks pem := by
  obtain ⟨n, hn⟩ := exists_rstrip '\n' pem
  rw [blocks, hn, linesOf_append_newlines, readBlocks_append_nils]

/-- The blocks of an entry, of which a blank one has none. -/
def blocksOf (pem : String) : List Block := (blocks pem).getD []

/-- An entry that is blank or made of blocks. -/
def Readable (pem : String) : Prop := strip pem = "" ∨ (blocks pem).isSome

theorem blocks_joinPems {pems : List String} (h : ∀ pem ∈ pems, Readable pem) :
    blocks (joinPems pems) = some (pems.flatMap blocksOf) := by
  rw [blocks, toList_joinPems]
  induction pems with
  | nil => rfl
  | cons pem pems ih =>
    rw [List.forall_mem_cons] at h
    rw [List.flatMap_cons, List.flatMap_cons]
    by_cases hblank : strip pem = ""
    · rw [part_of_blank hblank, List.nil_append, ih h.2, blocksOf, blocks_of_blank hblank]
      rfl
    · obtain ⟨bs, hbs⟩ := Option.isSome_iff_exists.mp (h.1.resolve_left hblank)
      have hread := (readBlocks_rstrip pem).trans hbs
      rw [part_of_not_blank hblank, List.append_assoc, List.singleton_append, linesOf_append,
        readBlocks_append hread, ih h.2, blocksOf, hbs]
      rfl

/-- **Joined chains stay parseable**: every `-----BEGIN ` starts a line, the blocks are those of the
entries in order, the text is empty or ends with a newline, and it makes no difference whether some
entries have been joined before. -/
theorem joined_chains_stay_parseable {pems : List String} (h : ∀ pem ∈ pems, Readable pem) :
    (∀ before after, (joinPems pems).toList = before ++ beginMark ++ after →
        before = [] ∨ before.getLast? = some '\n') ∧
      blocks (joinPems pems) = some (pems.flatMap blocksOf) ∧
      (joinPems pems = "" ∨ (joinPems pems).toList.getLast? = some '\n') ∧
      ∀ groups : List (List String), joinPems (groups.map joinPems) = joinPems groups.flatten := by
  refine ⟨fun before after heq ↦ ?_, blocks_joinPems h, ?_, joinPems_map_joinPems⟩
  · have hread := blocks_joinPems h
    rw [blocks, heq] at hread
    exact beginMark_starts_line hread
  · refine (joinPems_cases pems).imp_right ?_
    rintro ⟨⟨body, last, htext, -⟩, -⟩
    rw [htext, List.append_cons]
    exact List.getLast?_concat

/-- Two entries without a newline at their ends, and a blank one. -/
theorem joined_chains_stay_parseable_without_newlines :
    blocks (joinPems ["-----BEGIN A-----\nQQ==\n-----END A-----", " \n",
      "-----BEGIN B-----\nQg==\n-----END B-----"]) =
        some [⟨['A'], [['Q', 'Q', '=', '=']]⟩, ⟨['B'], [['Q', 'g', '=', '=']]⟩] := by
  have ha : blocks "-----BEGIN A-----\nQQ==\n-----END A-----" =
      some [⟨['A'], [['Q', 'Q', '=', '=']]⟩] := by decide +kernel
  have hb : blocks "-----BEGIN B-----\nQg==\n-----END B-----" =
      some [⟨['B'], [['Q', 'g', '=', '=']]⟩] := by decide +kernel
  have hblank : strip " \n" = "" := by decide +kernel
  have hreadable : ∀ pem ∈ ["-----BEGIN A-----\nQQ==\n-----END A-----", " \n",
      "-----BEGIN B-----\nQg==\n-----END B-----"], Readable pem := by
    simp only [List.forall_mem_cons, List.not_mem_nil, false_implies, implies_true, and_true]
    exact ⟨.inr (by rw [ha]; rfl), .inl hblank, .inr (by rw [hb]; rfl)⟩
  have hread := (joined_chains_stay_parseable hreadable).2.1
  rw [hread, List.flatMap_cons, List.flatMap_cons, List.flatMap_singleton, blocksOf, ha, blocksOf,
    blocks_of_blank hblank, blocksOf, hb]
  rfl

/-- The entries of `ca_chain`. -/
def entries : Option (List String ⊕ String) → List String
  | none => []
  | some (.inl pems) => pems
  | some (.inr pem) => [pem]

theorem issuedChain_eq (caChain : Option (List String ⊕ String)) (issuingCa : Option String) :
    issuedChain caChain issuingCa =
      if joinPems (entries caChain) = "" then joinPems [issuingCa.getD ""]
      else joinPems (entries caChain) := by
  rcases caChain with _ | pems | pem
  · rfl
  · rfl
  · rw [issuedChain]
    by_cases hempty : pem = ""
    · subst hempty
      rfl
    · rw [if_neg hempty]
      rfl

/-- The chain that is kept of an issued certificate is read as what Vault has sent: `ca_chain`, or
`issuing_ca` where there is nothing in it. -/
theorem blocks_issuedChain {caChain : Option (List String ⊕ String)} {issuingCa : Option String}
    (h : ∀ pem ∈ issuingCa.getD "" :: entries caChain, Readable pem) :
    blocks (issuedChain caChain issuingCa) =
      some (if ∀ pem ∈ entries caChain, strip pem = "" then blocksOf (issuingCa.getD "")
        else (entries caChain).flatMap blocksOf) := by
  rw [List.forall_mem_cons] at h
  have hblank : joinPems (entries caChain) = "" ↔ ∀ pem ∈ entries caChain, strip pem = "" := by
    rw [← String.toList_eq_nil_iff, toList_joinPems, List.flatMap_eq_nil_iff]
    refine forall₂_congr fun pem _ ↦ ⟨fun hpart ↦ ?_, part_of_blank⟩
    by_contra hne
    rw [part_of_not_blank hne] at hpart
    exact List.append_ne_nil_of_right_ne_nil _ (List.cons_ne_nil _ _) hpart
  have hone : blocks (joinPems [issuingCa.getD ""]) = some (blocksOf (issuingCa.getD "")) := by
    rw [blocks_joinPems (List.forall_mem_singleton.mpr h.1), List.flatMap_singleton]
  rw [issuedChain_eq]
  by_cases hempty : joinPems (entries caChain) = ""
  · rw [if_pos hempty, if_pos (hblank.mp hempty), hone]
  · rw [if_neg hempty, if_neg (mt hblank.mpr hempty), blocks_joinPems h.2]

end WgManager.Pki
