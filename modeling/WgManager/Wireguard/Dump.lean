import Mathlib.Algebra.Group.Nat.Defs
import WgManager.Lib.PyInt

/-!
# Reading `wg show <interface> dump`

`wg` prints one line of columns separated by tabs for the interface and then one for each peer.  An
absent value is `(none)` in some of the columns and `off` in others, and the numbers are decimal but
for the mark of the firewall.  `parseWgDump` is `parse_wg_dump`, with its `ValueError`s.

`renderInterface` and `renderPeer` are what `wg` prints.  **`parseWgDump_render`** says that the
parser undoes them, with blank lines anywhere, as long as no key and no endpoint is a text that
stands for an absent one.
-/

set_option autoImplicit false

namespace WgManager.WgDump

/-! ## The parser -/

/-- What line 1 of the dump says. -/
structure InterfaceInfo where
  publicKey : String
  listenPort : ℤ
  fwmark : Option ℤ
  deriving DecidableEq

/-- What the line of a peer says. -/
structure PeerInfo where
  publicKey : String
  presharedKey : Option String
  endpoint : Option String
  allowedIps : String
  lastHandshakeEpoch : ℕ
  rxBytes : ℕ
  txBytes : ℕ
  persistentKeepalive : Option ℕ
  deriving DecidableEq

/-- A `ValueError`. -/
inductive DumpError
  /-- `"empty wg dump output"`. -/
  | empty
  /-- `"malformed interface line: …"`. -/
  | malformedInterface (line : String)
  /-- `"invalid literal for int() with base …: …"`, or too many digits. -/
  | invalidLiteral (base : ℕ) (text : String)
  deriving DecidableEq

/-- `_nullable`. -/
def nullable (value : String) : Option String :=
  if value = "(none)" ∨ value = "off" ∨ value = "" then none else some value

/-- `int(text, base)`. -/
def int (base : ℕ) (text : String) : Except DumpError ℤ :=
  match PyInt.parse base text with
  | some n => .ok n
  | none => .error (.invalidLiteral base text)

/-- `int(text) if text.isdigit() else …`, with `none` for the default.  A text of digits has no
sign. -/
def digits (text : String) : Except DumpError (Option ℕ) :=
  if PyInt.isDigit text then (int 10 text).map fun n ↦ some n.toNat else .ok none

/-- The mark of the firewall, in the base it is written in. -/
def parseFwmark (fwmark : String) : Except DumpError (Option ℤ) :=
  if fwmark = "off" then .ok none
  else if "0x".toList.isPrefixOf fwmark.toList then (int 16 fwmark).map some
  else (int 10 fwmark).map some

/-- The line of the interface. -/
def parseInterface (line : String) : Except DumpError InterfaceInfo :=
  match PyStr.splitOn '\t' line with
  | _ :: publicKey :: listenPort :: fwmark :: _ => do
    let listenPort ← int 10 listenPort
    let fwmark ← parseFwmark fwmark
    .ok ⟨publicKey, listenPort, fwmark⟩
  | _ => .error (.malformedInterface line)

/-- `cols[:8]`. -/
structure Columns where
  publicKey : String
  preshared : String
  endpoint : String
  allowedIps : String
  handshake : String
  rx : String
  tx : String
  keepalive : String

/-- The columns of a line, unless there are too few. -/
def columns (line : String) : Option Columns :=
  match PyStr.splitOn '\t' line with
  | publicKey :: preshared :: endpoint :: allowedIps :: handshake :: rx :: tx :: keepalive :: _ =>
    some ⟨publicKey, preshared, endpoint, allowedIps, handshake, rx, tx, keepalive⟩
  | _ => none

/-- The peer that the columns describe. -/
def Columns.peerInfo (cols : Columns) : Except DumpError PeerInfo := do
  let handshake ← digits cols.handshake
  let rx ← digits cols.rx
  let tx ← digits cols.tx
  let keepalive ← digits cols.keepalive
  .ok
    { publicKey := cols.publicKey
      presharedKey := nullable cols.preshared
      endpoint := nullable cols.endpoint
      allowedIps := cols.allowedIps
      lastHandshakeEpoch := handshake.getD 0
      rxBytes := rx.getD 0
      txBytes := tx.getD 0
      persistentKeepalive := keepalive }

/-- The line of a peer; `none` when it is skipped. -/
def parsePeer (line : String) : Except DumpError (Option PeerInfo) :=
  match columns line with
  | none => .ok none
  | some cols => cols.peerInfo.map some

/-- `line.strip()` is a text that is not empty. -/
def isNonblank (line : String) : Bool := PyStr.strip line ≠ ""

/-- `parse_wg_dump`. -/
def parseWgDump (dump : String) : Except DumpError (InterfaceInfo × List PeerInfo) :=
  match (PyStr.splitlines dump).filter isNonblank with
  | [] => .error .empty
  | first :: rest => do
    let interface ← parseInterface first
    let peers ← rest.mapM parsePeer
    .ok (interface, peers.reduceOption)

/-! ## What `wg` prints -/

/-- A number in hexadecimal. -/
def hex (n : ℕ) : String := "0x" ++ String.ofList (Nat.toDigits 16 n)

/-- The columns of an interface. -/
def interfaceFields (privateKey publicKey : String) (listenPort : ℕ) (fwmark : Option ℕ) :
    List String :=
  [privateKey, publicKey, toString listenPort, (fwmark.map hex).getD "off"]

/-- The columns of a peer. -/
def peerFields (peer : PeerInfo) : List String :=
  [peer.publicKey, peer.presharedKey.getD "(none)", peer.endpoint.getD "(none)", peer.allowedIps,
    toString peer.lastHandshakeEpoch, toString peer.rxBytes, toString peer.txBytes,
    (peer.persistentKeepalive.map toString).getD "off"]

/-- The line of an interface. -/
def renderInterface (privateKey publicKey : String) (listenPort : ℕ) (fwmark : Option ℕ) : String :=
  "\t".intercalate (interfaceFields privateKey publicKey listenPort fwmark)

/-- The line of a peer. -/
def renderPeer (peer : PeerInfo) : String := "\t".intercalate (peerFields peer)

/-- A text without tabs and line breaks. -/
def IsField (text : String) : Prop := ∀ c ∈ text.toList, c ≠ '\t' ∧ PyStr.isLineBreak c = false

/-- A number that `int` reads. -/
def IsReadable (n : ℕ) : Prop := (Nat.toDigits 10 n).length ≤ 4300

instance (n : ℕ) : Decidable (IsReadable n) := inferInstanceAs (Decidable (_ ≤ _))

/-- An optional text that is not one of those for an absent value. -/
def IsPresent (value : Option String) : Prop :=
  ∀ text, value = some text → text ≠ "(none)" ∧ text ≠ "off" ∧ text ≠ ""

/-- The texts of a peer have neither tabs nor line breaks. -/
structure IsTabular (peer : PeerInfo) : Prop where
  publicKey : IsField peer.publicKey
  presharedKey : ∀ text, peer.presharedKey = some text → IsField text
  endpoint : ∀ text, peer.endpoint = some text → IsField text
  allowedIps : IsField peer.allowedIps

/-- A peer that comes back. -/
structure IsPrintable (peer : PeerInfo) : Prop extends IsTabular peer where
  presharedKey_present : IsPresent peer.presharedKey
  endpoint_present : IsPresent peer.endpoint
  lastHandshakeEpoch : IsReadable peer.lastHandshakeEpoch
  rxBytes : IsReadable peer.rxBytes
  txBytes : IsReadable peer.txBytes
  persistentKeepalive : ∀ n, peer.persistentKeepalive = some n → IsReadable n

/-- Lines, each with a line break after it. -/
def unlines (lines : List String) : String := String.join (lines.map (· ++ "\n"))

/-! ## Fields -/

section

variable {text line : String} {n : ℕ} {c : Char}

theorem fieldChar_of_not_space (h : PyStr.isSpace c = false) :
    c ≠ '\t' ∧ PyStr.isLineBreak c = false := by
  constructor
  · rintro rfl
    cases h
  · by_contra hbreak
    rw [PyStr.isSpace_of_isLineBreak (by simpa using hbreak)] at h
    cases h

theorem isField_of_isDigit (h : PyInt.isDigit text = true) : IsField text := by
  rw [PyInt.isDigit, Bool.and_eq_true, List.all_eq_true] at h
  exact fun c hc ↦ fieldChar_of_not_space (PyInt.isSpace_of_isDigitChar (h.2 c hc))

theorem isField_toString (n : ℕ) : IsField (toString n) :=
  isField_of_isDigit (PyInt.isDigit_toString n)

theorem isField_hex (n : ℕ) : IsField (hex n) := by
  have hmark : ("0x".toList.all fun c ↦ !PyStr.isSpace c) = true := by decide
  have hdigit : ∀ d < 16, PyStr.isSpace d.digitChar = false := by decide
  intro c hc
  refine fieldChar_of_not_space ?_
  rw [hex, String.toList_append, String.toList_ofList, List.mem_append] at hc
  rcases hc with hc | hc
  · simpa using List.all_eq_true.mp hmark c hc
  · obtain ⟨ds, hds, hlt, -⟩ := PyInt.exists_digits (by decide : 1 < 16) n
    rw [String.toList_ofList, hds] at hc
    obtain ⟨d, hd, rfl⟩ := List.mem_map.mp hc
    exact hdigit d (hlt d hd)

theorem isField_getD {value : Option String} {default : String}
    (hvalue : ∀ text, value = some text → IsField text) (hdefault : IsField default) :
    IsField (value.getD default) := by
  cases value with
  | none => exact hdefault
  | some text => exact hvalue text rfl

/-- Columns and their line. -/
theorem splitOn_tabs {fields : List String} (hne : fields ≠ []) (h : ∀ f ∈ fields, IsField f) :
    PyStr.splitOn '\t' ("\t".intercalate fields) = fields :=
  PyStr.splitOn_intercalate rfl hne fun f hf htab ↦ (h f hf '\t' htab).1 rfl

theorem isLineBreak_of_tabs {fields : List String} (h : ∀ f ∈ fields, IsField f) :
    ∀ c ∈ ("\t".intercalate fields).toList, PyStr.isLineBreak c = false := by
  intro c hc
  rcases PyStr.mem_of_mem_intercalate hc with htab | ⟨f, hf, hc⟩
  · rw [List.mem_singleton.mp htab]
    rfl
  · exact (h f hf c hc).2

/-- A line with a number in one of its columns is not blank. -/
theorem isNonblank_of_number {fields : List String} (h : toString n ∈ fields) :
    isNonblank ("\t".intercalate fields) = true := by
  have hdigits := PyInt.isDigit_toString n
  rw [PyInt.isDigit, Bool.and_eq_true, decide_eq_true_eq, List.all_eq_true] at hdigits
  obtain ⟨c, hc⟩ := List.exists_mem_of_ne_nil _ hdigits.1
  rw [isNonblank, decide_eq_true_eq]
  exact PyStr.strip_ne_empty (PyStr.mem_intercalate h hc)
    (PyInt.isSpace_of_isDigitChar (hdigits.2 c hc))

theorem int_toString (h : IsReadable n) : int 10 (toString n) = .ok (n : ℤ) := by
  rw [int, PyInt.parse_toString h]

theorem int_hex (n : ℕ) : int 16 (hex n) = .ok (n : ℤ) := by
  rw [int, hex, PyInt.parse_hex]

theorem digits_toString (h : IsReadable n) : digits (toString n) = .ok (some n) := by
  rw [digits, if_pos (PyInt.isDigit_toString n), int_toString h]
  rfl

theorem digits_of_not_isReadable (h : ¬IsReadable n) :
    digits (toString n) = .error (.invalidLiteral 10 (toString n)) := by
  rcases PyInt.parse_of_isDigit (PyInt.isDigit_toString n) with ⟨hnum, -⟩ | ⟨-, hnone⟩
  · have htoList : (toString n).toList = Nat.toDigits 10 n := Nat.toList_repr
    have hlength := hnum.2
    rw [htoList] at hlength
    exact absurd hlength h
  · rw [digits, if_pos (PyInt.isDigit_toString n), int, hnone]
    rfl

theorem digits_off : digits "off" = .ok none := by
  rw [digits, if_neg (by decide +kernel)]

theorem nullable_getD {value : Option String} (h : IsPresent value) :
    nullable (value.getD "(none)") = value := by
  cases value with
  | none => rfl
  | some text =>
    obtain ⟨hnone, hoff, hempty⟩ := h text rfl
    rw [Option.getD_some, nullable, if_neg]
    rintro (h | h | h)
    · exact hnone h
    · exact hoff h
    · exact hempty h

end

/-! ## The round trip -/

section

variable {privateKey publicKey : String} {listenPort : ℕ} {fwmark : Option ℕ} {peer : PeerInfo}

theorem isField_of_decide {text : String}
    (h : (text.toList.all fun c ↦ c ≠ '\t' && !PyStr.isLineBreak c) = true) : IsField text := by
  simpa [IsField] using h

theorem isLineBreak_of_decide {lines : List String}
    (h : (lines.all fun line ↦ line.toList.all fun c ↦ !PyStr.isLineBreak c) = true) :
    ∀ line ∈ lines, ∀ c ∈ line.toList, PyStr.isLineBreak c = false := by
  simpa using h

theorem isField_of_mem_interface (hprivate : IsField privateKey) (hpublic : IsField publicKey) :
    ∀ f ∈ interfaceFields privateKey publicKey listenPort fwmark, IsField f := by
  have hmark : IsField ((fwmark.map hex).getD "off") := by
    refine isField_getD (fun text htext ↦ ?_) (isField_of_decide (by decide))
    obtain ⟨n, -, rfl⟩ := Option.map_eq_some_iff.mp htext
    exact isField_hex n
  simp only [interfaceFields, List.mem_cons, List.not_mem_nil, or_false, forall_eq_or_imp,
    forall_eq]
  exact ⟨hprivate, hpublic, isField_toString listenPort, hmark⟩

theorem isField_of_mem_peer (h : IsTabular peer) : ∀ f ∈ peerFields peer, IsField f := by
  have hkeepalive : IsField ((peer.persistentKeepalive.map toString).getD "off") := by
    refine isField_getD (fun text htext ↦ ?_) (isField_of_decide (by decide))
    obtain ⟨n, -, rfl⟩ := Option.map_eq_some_iff.mp htext
    exact isField_toString n
  simp only [peerFields, List.mem_cons, List.not_mem_nil, or_false, forall_eq_or_imp, forall_eq]
  exact ⟨h.publicKey, isField_getD h.presharedKey (isField_of_decide (by decide)),
    isField_getD h.endpoint (isField_of_decide (by decide)), h.allowedIps, isField_toString _,
    isField_toString _, isField_toString _, hkeepalive⟩

theorem parseFwmark_render (fwmark : Option ℕ) :
    parseFwmark ((fwmark.map hex).getD "off") = .ok (fwmark.map ((↑) : ℕ → ℤ)) := by
  cases fwmark with
  | none => rfl
  | some n =>
    have hmark : "0x".toList.isPrefixOf (hex n).toList = true := by
      rw [List.isPrefixOf_iff_prefix, hex, String.toList_append]
      exact List.prefix_append _ _
    have hoff : hex n ≠ "off" := by
      intro heq
      rw [heq] at hmark
      exact absurd hmark (by decide)
    rw [Option.map_some, Option.getD_some, parseFwmark, if_neg hoff, if_pos hmark, int_hex]
    rfl

theorem parseInterface_render (hprivate : IsField privateKey) (hpublic : IsField publicKey)
    (hport : IsReadable listenPort) :
    parseInterface (renderInterface privateKey publicKey listenPort fwmark) =
      .ok ⟨publicKey, listenPort, fwmark.map (↑)⟩ := by
  have hsplit : PyStr.splitOn '\t' (renderInterface privateKey publicKey listenPort fwmark) =
      interfaceFields privateKey publicKey listenPort fwmark :=
    splitOn_tabs (List.cons_ne_nil _ _) (isField_of_mem_interface hprivate hpublic)
  rw [parseInterface, hsplit, interfaceFields]
  dsimp only
  rw [int_toString hport, parseFwmark_render]
  rfl

theorem columns_render (h : IsTabular peer) : columns (renderPeer peer) =
    some ⟨peer.publicKey, peer.presharedKey.getD "(none)", peer.endpoint.getD "(none)",
      peer.allowedIps, toString peer.lastHandshakeEpoch, toString peer.rxBytes,
      toString peer.txBytes, (peer.persistentKeepalive.map toString).getD "off"⟩ := by
  have hsplit : PyStr.splitOn '\t' (renderPeer peer) = peerFields peer :=
    splitOn_tabs (List.cons_ne_nil _ _) (isField_of_mem_peer h)
  rw [columns, hsplit, peerFields]

theorem parsePeer_render (h : IsPrintable peer) :
    parsePeer (renderPeer peer) = .ok (some peer) := by
  have hkeepalive : digits ((peer.persistentKeepalive.map toString).getD "off") =
      .ok peer.persistentKeepalive := by
    cases hk : peer.persistentKeepalive with
    | none => exact digits_off
    | some n => exact digits_toString (h.persistentKeepalive n hk)
  rw [parsePeer, columns_render h.toIsTabular]
  dsimp only
  rw [Columns.peerInfo, digits_toString h.lastHandshakeEpoch, digits_toString h.rxBytes,
    digits_toString h.txBytes, hkeepalive, nullable_getD h.presharedKey_present,
    nullable_getD h.endpoint_present]
  rfl

/-- The lines that are not blank are what counts. -/
theorem parseWgDump_of_lines {dump first : String} {rest : List String}
    (h : (PyStr.splitlines dump).filter isNonblank = first :: rest) :
    parseWgDump dump = (parseInterface first).bind fun interface ↦
      (rest.mapM parsePeer).bind fun peers ↦ .ok (interface, peers.reduceOption) := by
  rw [parseWgDump, h]
  rfl

theorem mapM_parsePeer_render {peers : List PeerInfo} (h : ∀ peer ∈ peers, IsPrintable peer) :
    (peers.map renderPeer).mapM parsePeer = .ok (peers.map some) := by
  induction peers with
  | nil => rfl
  | cons peer peers ih =>
    rw [List.map_cons, List.mapM_cons, parsePeer_render (h peer List.mem_cons_self),
      ih fun p hp ↦ h p (List.mem_cons_of_mem peer hp)]
    rfl

theorem isNonblank_render (privateKey publicKey : String) (listenPort : ℕ) (fwmark : Option ℕ)
    (peers : List PeerInfo) :
    (renderInterface privateKey publicKey listenPort fwmark :: peers.map renderPeer).filter
      isNonblank = renderInterface privateKey publicKey listenPort fwmark ::
        peers.map renderPeer := by
  refine List.filter_eq_self.mpr fun line hline ↦ ?_
  rcases List.mem_cons.mp hline with rfl | hline
  · exact isNonblank_of_number (n := listenPort) (by simp [interfaceFields])
  · obtain ⟨peer, -, rfl⟩ := List.mem_map.mp hline
    exact isNonblank_of_number (n := peer.rxBytes) (by simp [peerFields])

/-- What `wg` prints, with blank lines in between, is parsed line by line. -/
theorem parseWgDump_unlines {peers : List PeerInfo} {lines : List String}
    (hprivate : IsField privateKey) (hpublic : IsField publicKey) (hport : IsReadable listenPort)
    (hpeers : ∀ peer ∈ peers, IsTabular peer)
    (hlines : lines.filter isNonblank =
      renderInterface privateKey publicKey listenPort fwmark :: peers.map renderPeer)
    (hblank : ∀ line ∈ lines, isNonblank line = false →
      ∀ c ∈ line.toList, PyStr.isLineBreak c = false) :
    parseWgDump (unlines lines) = ((peers.map renderPeer).mapM parsePeer).bind fun parsed ↦
      .ok (⟨publicKey, listenPort, fwmark.map (↑)⟩, parsed.reduceOption) := by
  have hbreaks : ∀ line ∈ lines, ∀ c ∈ line.toList, PyStr.isLineBreak c = false := by
    intro line hline
    cases hnonblank : isNonblank line with
    | false => exact hblank line hline hnonblank
    | true =>
      have hmem : line ∈ lines.filter isNonblank := List.mem_filter.mpr ⟨hline, hnonblank⟩
      rw [hlines] at hmem
      rcases List.mem_cons.mp hmem with rfl | hmem
      · exact isLineBreak_of_tabs (isField_of_mem_interface hprivate hpublic)
      · obtain ⟨peer, hpeer, rfl⟩ := List.mem_map.mp hmem
        exact isLineBreak_of_tabs (isField_of_mem_peer (hpeers peer hpeer))
  have hsplit : (PyStr.splitlines (unlines lines)).filter isNonblank =
      renderInterface privateKey publicKey listenPort fwmark :: peers.map renderPeer := by
    rw [unlines, PyStr.splitlines_of_lines hbreaks, hlines]
  rw [parseWgDump_of_lines hsplit, parseInterface_render hprivate hpublic hport]
  rfl

/-- **The parser undoes what `wg` prints.**  The keys, the port, the mark and the peers of an
interface come back in the same order from the lines that `wg` prints for them, with any blank
lines in between.  The texts have no tabs and no line breaks, the numbers at most 4300 digits, and
an optional text is none of `(none)`, `off` and the empty one. -/
theorem parseWgDump_render {peers : List PeerInfo} {lines : List String}
    (hprivate : IsField privateKey) (hpublic : IsField publicKey) (hport : IsReadable listenPort)
    (hpeers : ∀ peer ∈ peers, IsPrintable peer)
    (hlines : lines.filter isNonblank =
      renderInterface privateKey publicKey listenPort fwmark :: peers.map renderPeer)
    (hblank : ∀ line ∈ lines, isNonblank line = false →
      ∀ c ∈ line.toList, PyStr.isLineBreak c = false) :
    parseWgDump (unlines lines) = .ok (⟨publicKey, listenPort, fwmark.map (↑)⟩, peers) := by
  have hreduce : (peers.map some).reduceOption = peers :=
    (List.filterMap_map ..).trans List.filterMap_some
  rw [parseWgDump_unlines hprivate hpublic hport (fun p hp ↦ (hpeers p hp).toIsTabular) hlines
    hblank, mapM_parsePeer_render hpeers, Except.bind, hreduce]

end

/-- A laptop that has shaken hands, and keeps its connection alive. -/
def laptop : PeerInfo :=
  ⟨"K1", some "PSK", some "203.0.113.10:51820", "10.9.0.2/32", 1715000000, 1024, 2048, some 25⟩

/-- A phone that has not been seen. -/
def phone : PeerInfo := ⟨"K2", none, none, "10.9.0.3/32", 0, 0, 0, none⟩

theorem isPrintable_laptop : IsPrintable laptop where
  publicKey := isField_of_decide (by decide)
  presharedKey := by rintro _ ⟨⟩; exact isField_of_decide (by decide)
  endpoint := by rintro _ ⟨⟩; exact isField_of_decide (by decide)
  allowedIps := isField_of_decide (by decide)
  presharedKey_present := by rintro _ ⟨⟩; decide
  endpoint_present := by rintro _ ⟨⟩; decide
  lastHandshakeEpoch := by decide
  rxBytes := by decide
  txBytes := by decide
  persistentKeepalive := by rintro _ ⟨⟩; decide

theorem isPrintable_phone : IsPrintable phone where
  publicKey := isField_of_decide (by decide)
  presharedKey := by rintro _ ⟨⟩
  endpoint := by rintro _ ⟨⟩
  allowedIps := isField_of_decide (by decide)
  presharedKey_present := by rintro _ ⟨⟩
  endpoint_present := by rintro _ ⟨⟩
  lastHandshakeEpoch := by decide
  rxBytes := by decide
  txBytes := by decide
  persistentKeepalive := by rintro _ ⟨⟩

theorem parseWgDump_render_hub :
    parseWgDump (unlines ["", renderInterface "PRIV" "PUB" 51820 (some 51820), renderPeer laptop,
      " \t", renderPeer phone, ""]) = .ok (⟨"PUB", 51820, some 51820⟩, [laptop, phone]) := by
  have hprivate : IsField "PRIV" := isField_of_decide (by decide)
  have hpublic : IsField "PUB" := isField_of_decide (by decide)
  have hport : IsReadable 51820 := by decide
  have hpeers : ∀ peer ∈ [laptop, phone], IsPrintable peer := by
    rw [List.forall_mem_cons, List.forall_mem_singleton]
    exact ⟨isPrintable_laptop, isPrintable_phone⟩
  have hlines : ["", renderInterface "PRIV" "PUB" 51820 (some 51820), renderPeer laptop, " \t",
      renderPeer phone, ""].filter isNonblank =
      renderInterface "PRIV" "PUB" 51820 (some 51820) :: [laptop, phone].map renderPeer := by
    decide +kernel
  exact parseWgDump_render hprivate hpublic hport hpeers hlines fun line hline _ ↦
    isLineBreak_of_decide (by decide +kernel) line hline

/-- The round trip, for peers of which `P` holds. -/
def Undone (P : PeerInfo → Prop) : Prop :=
  ∀ privateKey publicKey listenPort fwmark peers, IsField privateKey → IsField publicKey →
    (∀ peer ∈ peers, IsTabular peer ∧ P peer) →
      parseWgDump (unlines
        (renderInterface privateKey publicKey listenPort fwmark :: peers.map renderPeer)) =
          .ok (⟨publicKey, listenPort, fwmark.map (↑)⟩, peers)

theorem not_isReadable : ¬IsReadable (10 ^ 4300) := by
  rw [IsReadable, Nat.length_toDigits_le_iff (by decide) (by decide)]
  simp only [lt_self_iff_false, not_false_iff]

theorem not_undone_of_not_isReadable {n : ℕ} (h : ¬IsReadable n) :
    ¬Undone fun peer ↦ IsPresent peer.presharedKey ∧ IsPresent peer.endpoint := by
  intro hall
  set peer : PeerInfo := { phone with lastHandshakeEpoch := n } with hpeer
  have htabular : IsTabular peer := { isPrintable_phone.toIsTabular with }
  have hprivate : IsField "PRIV" := isField_of_decide (by decide)
  have hpublic : IsField "PUB" := isField_of_decide (by decide)
  have hpeers : ∀ p ∈ [peer], IsTabular p := by simpa using htabular
  have hsame := hall "PRIV" "PUB" 51820 none [peer] hprivate hpublic (by
    rw [List.forall_mem_singleton]
    exact ⟨htabular, isPrintable_phone.presharedKey_present, isPrintable_phone.endpoint_present⟩)
  have herror : parsePeer (renderPeer peer) = .error (.invalidLiteral 10 (toString n)) := by
    rw [parsePeer, columns_render htabular]
    dsimp only
    rw [Columns.peerInfo, digits_of_not_isReadable h]
    rfl
  have hnonblank := isNonblank_render "PRIV" "PUB" 51820 none [peer]
  rw [parseWgDump_unlines hprivate hpublic (by decide) hpeers hnonblank, List.map_singleton,
    List.mapM_cons, herror] at hsame
  · cases hsame
  · intro line hline hblank
    rw [← hnonblank] at hline
    have hmem := (List.mem_filter.mp hline).2
    rw [hblank] at hmem
    cases hmem

/-- A key that is spelled like an absent one is lost; and a number that is too long is not read. -/
theorem parser_does_not_undo :
    ¬Undone (fun _ ↦ True) ∧
      ¬Undone fun peer ↦ IsPresent peer.presharedKey ∧ IsPresent peer.endpoint := by
  have hprivate : IsField "PRIV" := isField_of_decide (by decide)
  have hpublic : IsField "PUB" := isField_of_decide (by decide)
  constructor
  · intro hall
    have hpeer : IsTabular { phone with presharedKey := some "off" } :=
      { isPrintable_phone.toIsTabular with
        presharedKey := by rintro _ ⟨⟩; exact isField_of_decide (by decide) }
    have hsame := hall "PRIV" "PUB" 51820 none [{ phone with presharedKey := some "off" }] hprivate
      hpublic (by rw [List.forall_mem_singleton]; exact ⟨hpeer, trivial⟩)
    exact absurd hsame (by decide +kernel)
  · exact not_undone_of_not_isReadable not_isReadable

end WgManager.WgDump
