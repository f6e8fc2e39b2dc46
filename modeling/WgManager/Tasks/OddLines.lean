import Mathlib.Data.List.ReduceOption
import WgManager.Tasks.DiscoverPeers
import WgManager.Wireguard.Dump

/-!
# Odd lines in a dump

`parse_wg_dump` skips the lines it cannot interpret "rather than blowing up the whole discovery",
because "operators value partial data over none".  Here the dump is any list of lines after that of
the interface, and the discovery goes from the text to the table.

A column of digits that are not decimal gets past `isdigit()` and not past `int()`, and the same
line can have a handshake that is no date, or values that the database refuses.  Each of these ends
the task, and nothing is left of the other lines.  Or a line has a key that the database takes for
the key of another one, whose row it then gets.  **`odd_lines_are_harmless_iff`** says that nothing
else does harm.
-/

set_option autoImplicit false

namespace WgManager.Discovery

open WgDump

/-- What the loop uses of a line. -/
def peerOf (info : PeerInfo) : Peer where
  publicKey := info.publicKey
  allowedIps := info.allowedIps
  endpoint := info.endpoint
  lastHandshakeEpoch := info.lastHandshakeEpoch
  rxBytes := info.rxBytes
  txBytes := info.txBytes
  persistentKeepalive := info.persistentKeepalive

/-- `discover_peers`, when the command has been run.  A `ValueError` is none of
`_SSH_EXPECTED_ERRORS`. -/
def discoverPeers (stdout : String) : Except DiscoverFault (List Peer) :=
  match parseWgDump stdout with
  | .error _ => .error .other
  | .ok (_, peers) => .ok (peers.map peerOf)

/-! ## What a line can do -/

/-- A text that is not of digits, or a numeral that `int` reads. -/
def IsColumn (text : String) : Prop := PyInt.isDigit text = true → PyInt.IsNumeral text

/-- The number in a column. -/
def columnValue (text : String) : Option ℕ :=
  if PyInt.isDigit text then (PyInt.parse 10 text).map Int.toNat else none

/-- The numbers of a line are read. -/
structure IsRead (cols : Columns) : Prop where
  handshake : IsColumn cols.handshake
  rx : IsColumn cols.rx
  tx : IsColumn cols.tx
  keepalive : IsColumn cols.keepalive

/-- What a line says, with the defaults for what is no number. -/
def infoOf (cols : Columns) : PeerInfo where
  publicKey := cols.publicKey
  presharedKey := nullable cols.preshared
  endpoint := nullable cols.endpoint
  allowedIps := cols.allowedIps
  lastHandshakeEpoch := (columnValue cols.handshake).getD 0
  rxBytes := (columnValue cols.rx).getD 0
  txBytes := (columnValue cols.tx).getD 0
  persistentKeepalive := columnValue cols.keepalive

/-- A line that does not end the task: it has too few columns, or its numbers are read, its
handshake is a date, and the database takes its values. -/
def IsHarmless (takes : Peer → Bool) (line : String) : Prop :=
  ∀ cols, columns line = some cols →
    IsRead cols ∧ (columnValue cols.handshake).getD 0 ≤ maxEpoch ∧
      takes (peerOf (infoOf cols)) = true

/-- What the lines say that are not passed over. -/
def peersOf (lines : List String) : List Peer :=
  ((lines.filter isNonblank).filterMap columns).map fun cols ↦ peerOf (infoOf cols)

section

variable {takes : Peer → Bool} {line : String} {lines : List String} {info : PeerInfo}
  {peer : Peer} {cols : Columns}

theorem digits_cases (text : String) :
    (IsColumn text ∧ digits text = .ok (columnValue text)) ∨
      (¬IsColumn text ∧ ∃ e, digits text = .error e) := by
  rw [digits, columnValue]
  split
  · next hdigit =>
    rcases PyInt.parse_of_isDigit hdigit with ⟨hnum, n, hn⟩ | ⟨hnum, hnone⟩
    · rw [int, hn]
      exact .inl ⟨fun _ ↦ hnum, rfl⟩
    · rw [int, hnone]
      exact .inr ⟨fun hcolumn ↦ hnum (hcolumn hdigit), _, rfl⟩
  · next hdigit => exact .inl ⟨fun h ↦ absurd h hdigit, rfl⟩

theorem peerInfo_cases (cols : Columns) :
    (IsRead cols ∧ cols.peerInfo = .ok (infoOf cols)) ∨
      (¬IsRead cols ∧ ∃ e, cols.peerInfo = .error e) := by
  rw [Columns.peerInfo]
  rcases digits_cases cols.handshake with ⟨hhandshake, hvalue⟩ | ⟨hnot, e, herror⟩
  · rcases digits_cases cols.rx with ⟨hrx, hvalue₁⟩ | ⟨hnot, e, herror⟩
    · rcases digits_cases cols.tx with ⟨htx, hvalue₂⟩ | ⟨hnot, e, herror⟩
      · rcases digits_cases cols.keepalive with ⟨hkeepalive, hvalue₃⟩ | ⟨hnot, e, herror⟩
        · rw [hvalue, hvalue₁, hvalue₂, hvalue₃]
          exact .inl ⟨⟨hhandshake, hrx, htx, hkeepalive⟩, rfl⟩
        · rw [hvalue, hvalue₁, hvalue₂, herror]
          exact .inr ⟨fun h ↦ hnot h.keepalive, e, rfl⟩
      · rw [hvalue, hvalue₁, herror]
        exact .inr ⟨fun h ↦ hnot h.tx, e, rfl⟩
    · rw [hvalue, herror]
      exact .inr ⟨fun h ↦ hnot h.rx, e, rfl⟩
  · rw [herror]
    exact .inr ⟨fun h ↦ hnot h.handshake, e, rfl⟩

/-- **What the parser makes of a line**: what its columns say, or an exception. -/
theorem parsePeer_cases (line : String) :
    ((∀ cols, columns line = some cols → IsRead cols) ∧
      parsePeer line = .ok ((columns line).map infoOf)) ∨
    (¬(∀ cols, columns line = some cols → IsRead cols) ∧ ∃ e, parsePeer line = .error e) := by
  rw [parsePeer]
  cases hcols : columns line with
  | none =>
    refine .inl ⟨?_, rfl⟩
    rintro _ ⟨⟩
  | some cols =>
    dsimp only
    rcases peerInfo_cases cols with ⟨hread, hinfo⟩ | ⟨hnot, e, herror⟩
    · rw [hinfo]
      refine .inl ⟨?_, rfl⟩
      rintro _ ⟨⟩
      exact hread
    · rw [herror]
      exact .inr ⟨fun h ↦ hnot (h cols rfl), e, rfl⟩

theorem mapM_parsePeer_cases (lines : List String) :
    ((∀ line ∈ lines, ∀ cols, columns line = some cols → IsRead cols) ∧
      lines.mapM parsePeer = .ok (lines.map fun line ↦ (columns line).map infoOf)) ∨
    (¬(∀ line ∈ lines, ∀ cols, columns line = some cols → IsRead cols) ∧
      ∃ e, lines.mapM parsePeer = .error e) := by
  induction lines with
  | nil => exact .inl ⟨by simp, rfl⟩
  | cons line lines ih =>
    rw [List.mapM_cons, List.forall_mem_cons]
    rcases parsePeer_cases line with ⟨hread, hparsed⟩ | ⟨hnot, e, herror⟩
    · rw [hparsed]
      rcases ih with ⟨hall, hrest⟩ | ⟨hnot, e, herror⟩
      · rw [hrest]
        exact .inl ⟨⟨hread, hall⟩, rfl⟩
      · rw [herror]
        exact .inr ⟨fun h ↦ hnot h.2, e, rfl⟩
    · rw [herror]
      exact .inr ⟨fun h ↦ hnot h.1, e, rfl⟩

theorem mem_peersOf : peer ∈ peersOf lines ↔ ∃ line ∈ lines, isNonblank line = true ∧
    ∃ cols, columns line = some cols ∧ peerOf (infoOf cols) = peer := by
  simp only [peersOf, List.mem_map, List.mem_filterMap, List.mem_filter]
  constructor
  · rintro ⟨cols, ⟨line, ⟨hline, hnonblank⟩, hcols⟩, rfl⟩
    exact ⟨line, hline, hnonblank, cols, hcols, rfl⟩
  · rintro ⟨line, hline, hnonblank, cols, hcols, rfl⟩
    exact ⟨cols, ⟨line, ⟨hline, hnonblank⟩, hcols⟩, rfl⟩

/-- The lines are harmless when they are read, and the peers that they describe are recorded. -/
theorem forall_isHarmless_iff (takes : Peer → Bool) (lines : List String) :
    (∀ line ∈ lines, isNonblank line = true → IsHarmless takes line) ↔
      (∀ line ∈ lines.filter isNonblank, ∀ cols, columns line = some cols → IsRead cols) ∧
        ∀ peer ∈ peersOf lines, peer.lastHandshakeEpoch ≤ maxEpoch ∧ takes peer = true := by
  constructor
  · intro h
    refine ⟨fun line hline cols hcols ↦ ?_, fun peer hpeer ↦ ?_⟩
    · obtain ⟨hline, hnonblank⟩ := List.mem_filter.mp hline
      exact (h line hline hnonblank cols hcols).1
    · obtain ⟨line, hline, hnonblank, cols, hcols, rfl⟩ := mem_peersOf.mp hpeer
      exact (h line hline hnonblank cols hcols).2
  · rintro ⟨hread, htakes⟩ line hline hnonblank cols hcols
    exact ⟨hread line (List.mem_filter.mpr ⟨hline, hnonblank⟩) cols hcols,
      htakes _ (mem_peersOf.mpr ⟨line, hline, hnonblank, cols, hcols, rfl⟩)⟩

/-! ## The discovery of a dump -/

/-- A line that is passed over: it is blank, or has too few columns. -/
def IsSkipped (line : String) : Prop := isNonblank line = false ∨ columns line = none

/-- **No line is lost.**  The task completes; a line that is as `wg` prints it, and whose key is in
no other, is recorded with its values; and every line is skipped, or its key is recorded with what
the last line for it says, the defaults in the place of what is no number. -/
structure Survives (serverId : ℕ) (lines : List String) (db' : Db) (result : DiscoverResult) :
    Prop where
  completes : ∃ peerCount newCount updatedCount prunedCount,
    result = .ok peerCount newCount updatedCount prunedCount
  recorded : ∀ before info after, lines = before ++ renderPeer info :: after → IsPrintable info →
    (∀ line ∈ before ++ after, ∀ cols, columns line = some cols →
      cols.publicKey ≠ info.publicKey) →
    ∃ row ∈ db'.discoveredPeers.rows, row.serverId = serverId ∧ Shows row (peerOf info)
  handled : ∀ line ∈ lines, IsSkipped line ∨ ∃ cols, columns line = some cols ∧
    ∃ peer, lastFor (peersOf lines) cols.publicKey = some peer ∧
      ∃ row ∈ db'.discoveredPeers.rows, row.serverId = serverId ∧ Shows row peer

variable {privateKey publicKey : String} {listenPort : ℕ} {fwmark : Option ℕ}

/-- The dump of an interface and lines. -/
def dumpOf (privateKey publicKey : String) (listenPort : ℕ) (fwmark : Option ℕ)
    (lines : List String) : String :=
  unlines (renderInterface privateKey publicKey listenPort fwmark :: lines)

theorem parseWgDump_dumpOf (fwmark : Option ℕ) (hprivate : IsField privateKey)
    (hpublic : IsField publicKey) (hport : IsReadable listenPort)
    (hlines : ∀ line ∈ lines, ∀ c ∈ line.toList, PyStr.isLineBreak c = false) :
    parseWgDump (dumpOf privateKey publicKey listenPort fwmark lines) =
      ((lines.filter isNonblank).mapM parsePeer).bind fun parsed ↦
        .ok (⟨publicKey, listenPort, fwmark.map (↑)⟩, parsed.reduceOption) := by
  have hbreaks : ∀ line ∈ renderInterface privateKey publicKey listenPort fwmark :: lines,
      ∀ c ∈ line.toList, PyStr.isLineBreak c = false := by
    rw [List.forall_mem_cons]
    exact ⟨isLineBreak_of_tabs (isField_of_mem_interface hprivate hpublic), hlines⟩
  have hnonblank : isNonblank (renderInterface privateKey publicKey listenPort fwmark) = true :=
    isNonblank_of_number (n := listenPort) (by simp [interfaceFields])
  have hsplit : (PyStr.splitlines (dumpOf privateKey publicKey listenPort fwmark lines)).filter
      isNonblank = renderInterface privateKey publicKey listenPort fwmark ::
        lines.filter isNonblank := by
    rw [dumpOf, unlines, PyStr.splitlines_of_lines hbreaks, List.filter_cons_of_pos hnonblank]
  rw [parseWgDump_of_lines hsplit, parseInterface_render hprivate hpublic hport]
  rfl

/-- **What is discovered in a dump**: what the lines say, or an exception. -/
theorem discoverPeers_dumpOf (fwmark : Option ℕ) (hprivate : IsField privateKey)
    (hpublic : IsField publicKey) (hport : IsReadable listenPort)
    (hlines : ∀ line ∈ lines, ∀ c ∈ line.toList, PyStr.isLineBreak c = false) :
    ((∀ line ∈ lines.filter isNonblank, ∀ cols, columns line = some cols → IsRead cols) ∧
      discoverPeers (dumpOf privateKey publicKey listenPort fwmark lines) =
        .ok (peersOf lines)) ∨
    (¬(∀ line ∈ lines.filter isNonblank, ∀ cols, columns line = some cols → IsRead cols) ∧
      discoverPeers (dumpOf privateKey publicKey listenPort fwmark lines) = .error .other) := by
  rw [discoverPeers, parseWgDump_dumpOf fwmark hprivate hpublic hport hlines]
  rcases mapM_parsePeer_cases (lines.filter isNonblank) with ⟨hread, hparsed⟩ | ⟨hnot, e, herror⟩
  · refine .inl ⟨hread, ?_⟩
    rw [hparsed]
    change Except.ok (((lines.filter isNonblank).map _).reduceOption.map peerOf) = _
    rw [List.reduceOption, List.filterMap_map, List.map_filterMap, peersOf, List.map_filterMap]
    simp only [Function.comp_apply, id_eq, Option.map_map, Function.comp_def]
  · rw [herror]
    exact .inr ⟨hnot, rfl⟩

/-- The peer of a line whose key is in no other line is the last one for it. -/
theorem lastFor_of_only_line {before after : List String} (hprintable : IsPrintable info)
    (hother : ∀ line ∈ before ++ after, ∀ cols, columns line = some cols →
      cols.publicKey ≠ info.publicKey)
    (hlast : lastFor (peersOf (before ++ renderPeer info :: after)) info.publicKey = some peer) :
    peer = peerOf info := by
  obtain ⟨hpeer, hkey⟩ := lastFor_eq_some hlast
  obtain ⟨line, hline, -, cols, hcols, rfl⟩ := mem_peersOf.mp hpeer
  rw [List.mem_append, List.mem_cons] at hline
  rcases hline with hbefore | rfl | hafter
  · exact absurd hkey (hother line (List.mem_append_left _ hbefore) cols hcols)
  · -- the line is read back as it was printed
    have hparsed := parsePeer_render hprintable
    rcases parsePeer_cases (renderPeer info) with ⟨-, hok⟩ | ⟨-, e, herror⟩
    · rw [hok, hcols] at hparsed
      cases hparsed
      rfl
    · rw [herror] at hparsed
      cases hparsed
  · exact absurd hkey (hother line (List.mem_append_right _ hafter) cols hcols)

variable {db db' : Db} {serverId nextId : ℕ} {result : DiscoverResult}

theorem exists_shows (hleaves : LeavesObserved db db' serverId (peersOf lines) result)
    (hline : line ∈ lines) (hnonblank : isNonblank line = true) (hcols : columns line = some cols) :
    ∃ peer, lastFor (peersOf lines) cols.publicKey = some peer ∧
      ∃ row ∈ db'.discoveredPeers.rows, row.serverId = serverId ∧ Shows row peer := by
  obtain ⟨row, hrow, hserver, hkey⟩ :=
    hleaves.exists_row _ (mem_peersOf.mpr ⟨line, hline, hnonblank, cols, hcols, rfl⟩)
  obtain ⟨last, hlast, hshows, -⟩ := hleaves.values row hrow hserver
  rw [hkey] at hlast
  exact ⟨last, hlast, row, hrow, hserver, hshows⟩

theorem survives_of_leaves (hleaves : LeavesObserved db db' serverId (peersOf lines) result) :
    Survives serverId lines db' result := by
  refine ⟨?_, fun before info after hsplit hprintable hother ↦ ?_, fun line hline ↦ ?_⟩
  · obtain ⟨_, _, _, hresult, -⟩ := hleaves.counts
    exact ⟨_, _, _, _, hresult⟩
  · subst hsplit
    have hcols := columns_render hprintable.toIsTabular
    obtain ⟨peer, hlast, row, hrow, hserver, hshows⟩ := exists_shows hleaves
      (List.mem_append_right _ List.mem_cons_self)
      (isNonblank_of_number (n := info.rxBytes) (by simp [peerFields])) hcols
    rw [lastFor_of_only_line hprintable hother hlast] at hshows
    exact ⟨row, hrow, hserver, hshows⟩
  · cases hnonblank : isNonblank line with
    | false => exact .inl (.inl hnonblank)
    | true =>
      cases hcols : columns line with
      | none => exact .inl (.inr hcols)
      | some cols => exact .inr ⟨cols, rfl, exists_shows hleaves hline hnonblank hcols⟩

theorem Survives.exists_row (h : Survives serverId lines db' result)
    (hpeer : peer ∈ peersOf lines) : ∃ row ∈ db'.discoveredPeers.rows,
      row.serverId = serverId ∧ row.publicKey = peer.publicKey := by
  obtain ⟨line, hline, hnonblank, cols, hcols, rfl⟩ := mem_peersOf.mp hpeer
  rcases h.handled line hline with (hblank | hnone) | ⟨cols', hcols', last, hlast, row, hrow,
    hserver, hshows⟩
  · rw [hnonblank] at hblank
    cases hblank
  · rw [hcols] at hnone
    cases hnone
  · obtain rfl : cols = cols' := Option.some.inj (hcols.symm.trans hcols')
    exact ⟨row, hrow, hserver, hshows.publicKey.trans (lastFor_eq_some hlast).2⟩

theorem not_survives_raised : ¬Survives serverId lines db' .raised := by
  intro h
  obtain ⟨_, _, _, _, hresult⟩ := h.completes
  cases hresult

/-- What a run meets whose server prints the text. -/
def printing (stdout : String) (now : Datetime) (takes : Peer → Bool) (coll : Collation) :
    DiscoverEnv where
  now := now
  discover := discoverPeers stdout
  takes := takes
  coll := coll

/-- **When odd lines are harmless.**  The line of the interface is as `wg` prints it, and the lines
after it are any texts without line breaks.  The discovery completes, records every line that is as
`wg` prints it and whose key is in no other, and skips the others or records them with defaults, if
and only if each line that is not blank and has eight columns has numbers that `int` reads where it
has digits at all, a handshake before the year 10000, and values that the database takes, and the
database takes none of their keys for another one, or for that of a row of the server. -/
theorem odd_lines_are_harmless_iff {server : Server} {sshKey : SSHKey} (takes : Peer → Bool)
    (coll : Collation) (now : Datetime) (hunique : UniqueKeys coll db.discoveredPeers)
    (hnext : ∀ r ∈ db.discoveredPeers.rows, r.id < nextId)
    (hserver : db.servers.get serverId = some server)
    (hkey : db.sshKeys.get server.sshKeyId = some sshKey) (hprivate : IsField privateKey)
    (hpublic : IsField publicKey) (hport : IsReadable listenPort)
    (hlines : ∀ line ∈ lines, ∀ c ∈ line.toList, PyStr.isLineBreak c = false) :
    Survives serverId lines
        (discoverPeersTask (printing (dumpOf privateKey publicKey listenPort fwmark lines) now takes
          coll) db nextId serverId).1
        (discoverPeersTask (printing (dumpOf privateKey publicKey listenPort fwmark lines) now takes
          coll) db nextId serverId).2 ↔
      (∀ line ∈ lines, isNonblank line = true → IsHarmless takes line) ∧
        ExactKeys coll serverId db.discoveredPeers (peersOf lines) := by
  set env := printing (dumpOf privateKey publicKey listenPort fwmark lines) now takes coll
  rw [forall_isHarmless_iff]
  rcases discoverPeers_dumpOf fwmark hprivate hpublic hport hlines with
    ⟨hread, hpeers⟩ | ⟨hnot, hother⟩
  · have hdiscover : env.discover = .ok (peersOf lines) := hpeers
    rcases discoverPeersTask_cases hunique hnext hserver hkey hdiscover with
      ⟨hnot, hraised⟩ | ⟨hall, s, hthrough, hresult⟩
    · rw [hraised]
      exact iff_of_false not_survives_raised fun h ↦ hnot h.1.2
    · rw [hresult]
      refine ⟨fun hsurvives ↦ ⟨⟨hread, hall⟩, ?_⟩, fun h ↦ ?_⟩
      · exact exactKeys_of_rows hthrough fun peer hpeer ↦ hsurvives.exists_row hpeer
      · exact survives_of_leaves (leavesObserved_of_through hthrough h.2)
  · have hdiscover : env.discover = .error .other := hother
    rw [discoverPeersTask, hserver]
    dsimp only
    rw [hkey, hdiscover]
    exact iff_of_false not_survives_raised fun h ↦ hnot h.1.1

end

/-! ## A hub that prints an odd line -/

theorem isColumn_zero : IsColumn "0" :=
  fun _ ↦ ⟨List.all_eq_true.mp (by decide +kernel), by decide +kernel⟩

/-- What a run meets whose server prints an interface and the lines, and whose database takes
everything. -/
def printingLines (lines : List String) : DiscoverEnv :=
  printing (dumpOf "PRIV" "PUB" 51820 none lines) 300 (fun _ ↦ true) .binary

theorem odd_lines_are_harmless_iff_garbage :
    Survives 1 ["garbage", renderPeer phone]
      (discoverPeersTask (printingLines ["garbage", renderPeer phone]) exampleDb 3 1).1
      (discoverPeersTask (printingLines ["garbage", renderPeer phone]) exampleDb 3 1).2 := by
  have hnext : ∀ r ∈ exampleDb.discoveredPeers.rows, r.id < 3 := by decide
  have hserver : exampleDb.servers.get 1 = some exampleHub := rfl
  have hkey : exampleDb.sshKeys.get exampleHub.sshKeyId =
      some { id := 1, name := "key", createdAt := 0 } := rfl
  have hprivate : IsField "PRIV" := isField_of_decide (by decide)
  have hpublic : IsField "PUB" := isField_of_decide (by decide)
  have hport : IsReadable 51820 := by decide
  have hlines : ∀ line ∈ ["garbage", renderPeer phone], ∀ c ∈ line.toList,
      PyStr.isLineBreak c = false :=
    isLineBreak_of_decide (by decide +kernel)
  refine (odd_lines_are_harmless_iff (fun _ ↦ true) .binary 300 uniqueKeys_exampleDb hnext hserver
    hkey hprivate hpublic hport hlines).mpr ⟨?_, fun _ _ ↦ Collation.separates_binary _ _⟩
  rw [List.forall_mem_cons, List.forall_mem_singleton]
  constructor
  · intro _ cols hcols
    have hnone : columns "garbage" = none := by decide +kernel
    rw [hnone] at hcols
    cases hcols
  · intro _ cols hcols
    rw [columns_render isPrintable_phone.toIsTabular] at hcols
    cases hcols
    have hoff : IsColumn "off" := fun hdigit ↦ absurd hdigit (by decide +kernel)
    exact ⟨⟨isColumn_zero, isColumn_zero, isColumn_zero, hoff⟩, by decide +kernel, rfl⟩

/-- A keepalive that is a superscript counts as digits and is no number: the task raises, and the
line of the phone is lost. -/
theorem superscript_digit_ends_discovery :
    ¬∀ (privateKey publicKey : String) (listenPort : ℕ) (fwmark : Option ℕ) (lines : List String)
      (now : Datetime) (db : Db) (nextId serverId : ℕ) (server : Server) (sshKey : SSHKey),
        UniqueKeys .binary db.discoveredPeers → (∀ r ∈ db.discoveredPeers.rows, r.id < nextId) →
        db.servers.get serverId = some server → db.sshKeys.get server.sshKeyId = some sshKey →
        IsField privateKey → IsField publicKey → IsReadable listenPort →
        (∀ line ∈ lines, ∀ c ∈ line.toList, PyStr.isLineBreak c = false) →
          Survives serverId lines
            (discoverPeersTask (printing (dumpOf privateKey publicKey listenPort fwmark lines) now
              (fun _ ↦ true) .binary) db nextId serverId).1
            (discoverPeersTask (printing (dumpOf privateKey publicKey listenPort fwmark lines) now
              (fun _ ↦ true) .binary) db nextId serverId).2 := by
  intro hall
  have hsurvives := hall "PRIV" "PUB" 51820 none
    [renderPeer phone, "K9\t(none)\t(none)\t10.9.0.9/32\t0\t0\t0\t²"] 300 exampleDb 3 1 exampleHub
    { id := 1, name := "key", createdAt := 0 } uniqueKeys_exampleDb (by decide) rfl rfl
    (isField_of_decide (by decide)) (isField_of_decide (by decide)) (by decide)
    (isLineBreak_of_decide (by decide +kernel))
  have hraised : (discoverPeersTask (printingLines
      [renderPeer phone, "K9\t(none)\t(none)\t10.9.0.9/32\t0\t0\t0\t²"]) exampleDb 3 1).2 =
        .raised := by
    decide +kernel
  rw [printingLines] at hraised
  rw [hraised] at hsurvives
  exact not_survives_raised hsurvives

end WgManager.Discovery
