import WgManager.Wireguard
import WgManager.Lib.WgConf

/-!
# What the configuration of a hub says

`_render_server_config` writes the fields of the rows into a text as they are; `wg-quick` reads the
text line by line.  What it reads is what the rows say when no field has anything in it that the
reader takes for more than a value: `saysExactly_iff` names the fields and what they must not
contain.

A field without line breaks can do no harm where it stands behind a `#` or in the middle of a
`PostUp` line.  The line breaks of a field begin lines of their own, and these have to be looked at
one by one.
-/

set_option autoImplicit false

namespace WgManager

open Lines WgConf

/-! ## What the rows say -/

def interfaceName : List Char := "interface".toList

def peerName : List Char := "peer".toList

def addressKey : List Char := "address".toList

def listenPortKey : List Char := "listenport".toList

/-- The section of a client. -/
def peerSection (peer : Client) : Section where
  name := peerName
  entries := [("publickey".toList, peer.publicKey.toList),
    ("allowedips".toList, peer.addressText.toList)]

/-- The text has one `[Interface]` section with the server's address and listen port, and then
exactly the sections of the clients. -/
def SaysExactly (text : String) (server : Server) (clients : List Client) : Prop :=
  ∃ entries, parse text.toList = some (⟨interfaceName, entries⟩ :: clients.map peerSection) ∧
    entries.filter (·.1 = addressKey) = [(addressKey, server.address.text.toList)] ∧
    entries.filter (·.1 = listenPortKey) =
      [(listenPortKey, (toString server.endpointPort).toList)]

/-! ## Which fields can be read back -/

/-- The line breaks of a client's name begin blank lines and comments only, and its key has nothing
that the reader takes away. -/
def PeerReadable (peer : Client) : Prop :=
  (∀ l ∈ (lines peer.name.toList).tail, item l = some none) ∧
    '\n' ∉ peer.publicKey.toList ∧ '#' ∉ peer.publicKey.toList ∧
    trim peer.publicKey.toList = peer.publicKey.toList

/-- The line breaks of a hub's interface name begin lines that say nothing about the address and
the listen port.  The last of them goes on with the rest of the command, so it must not be blank. -/
def InterfaceReadable (server : Server) : Prop :=
  (∀ l ∈ (lines server.interface.toList).tail.dropLast,
      harmless [addressKey, listenPortKey] l = true) ∧
    ∀ l ∈ (lines server.interface.toList).tail.getLast?,
      harmless [addressKey, listenPortKey] l = true ∧ begun l = true

/-! ## The lines of a client -/

/-- A text of digits, dots and the like is read back as it is. -/
theorem trim_uncomment_of_addressChars {cs : List Char} (h : ∀ c ∈ cs, isAddressChar c = true) :
    trim (uncomment cs) = cs := by
  have hcomment : '#' ∉ cs := fun hmem ↦ absurd (h _ hmem) (by decide)
  rw [uncomment_of_not_mem hcomment]
  apply trim_of_not_blank
  intro c hc
  have hchar := h c hc
  rw [← Bool.not_eq_true]
  intro hblank
  simp only [isBlank, List.contains_cons, List.contains_nil, Bool.or_false, Bool.or_eq_true,
    beq_iff_eq] at hblank
  rcases hblank with rfl | rfl | rfl | rfl | rfl <;> exact absurd hchar (by decide)

/-- What the lines of a client say after their header. -/
def peerRest (peer : Client) : Option (List Item) :=
  items ((lines peer.name.toList).tail ++
    ("PublicKey = ".toList ++ (lines peer.publicKey.toList).headD []) ::
      ((lines peer.publicKey.toList).tail ++ ["AllowedIPs = ".toList ++ peer.addressText.toList]))

/-- The lines of a client are a header, and the rest. -/
theorem items_serverPeerLines (peer : Client) :
    items ((serverPeerLines peer).flatMap lines) =
      (peerRest peer).map fun rest ↦ headed (peerName, rest) := by
  have hname : lines ("# ".toList ++ peer.name.toList) =
      ("# ".toList ++ (lines peer.name.toList).headD []) :: (lines peer.name.toList).tail :=
    lines_of_lead (not_mem_literal (by decide)) _
  have hkey : lines ("PublicKey = ".toList ++ peer.publicKey.toList) =
      ("PublicKey = ".toList ++ (lines peer.publicKey.toList).headD []) ::
        (lines peer.publicKey.toList).tail :=
    lines_of_lead (not_mem_literal (by decide)) _
  have haddress : lines ("AllowedIPs = ".toList ++ peer.addressText.toList) =
      ["AllowedIPs = ".toList ++ peer.addressText.toList] := by
    rw [lines_of_lead (not_mem_literal (by decide)),
      lines_of_not_mem (newline_not_mem_of_addressChars (addressText_chars peer))]
    rfl
  have hheader : lines "[Peer]".toList = ["[Peer]".toList] := lines_literal (by decide)
  have h₁ : item [] = some none := rfl
  have h₂ : item "[Peer]".toList = some (some (.header peerName)) := by decide +kernel
  have h₃ : item ("# ".toList ++ (lines peer.name.toList).headD []) = some none := item_comment _
  simp only [serverPeerLines, List.flatMap_cons, List.flatMap_nil, lines_nil, hheader, hname, hkey,
    haddress, List.cons_append, List.append_nil, items_cons, h₁, h₂, h₃,
    Option.bind_some, Option.toList_none, Option.toList_some, List.nil_append, Option.map_map]
  rfl

theorem peerRest_eq (peer : Client) : peerRest peer =
    (items (lines peer.name.toList).tail).bind fun names ↦
      (items (lines peer.publicKey.toList).tail).map fun keys ↦
        names ++
          Item.entry "publickey".toList (trim (uncomment ((lines peer.publicKey.toList).headD [])))
          :: (keys ++ [Item.entry "allowedips".toList peer.addressText.toList]) := by
  have hkey : item ("PublicKey = ".toList ++ (lines peer.publicKey.toList).headD []) = some (some
      (.entry "publickey".toList (trim (uncomment ((lines peer.publicKey.toList).headD []))))) :=
    item_keyed (keyed_literal (by decide)) _
  have haddress : items ["AllowedIPs = ".toList ++ peer.addressText.toList] =
      some [.entry "allowedips".toList peer.addressText.toList] := by
    have hitem : item ("AllowedIPs = ".toList ++ peer.addressText.toList) = some (some
        (.entry "allowedips".toList (trim (uncomment peer.addressText.toList)))) :=
      item_keyed (keyed_literal (by decide)) _
    rw [items_cons, hitem, trim_uncomment_of_addressChars (addressText_chars peer)]
    rfl
  rw [peerRest, items_append]
  congr 1
  funext names
  rw [items_cons, hkey, items_append, haddress]
  cases items (lines peer.publicKey.toList).tail <;> rfl

/-- The rest says what the client says just when the client's fields can be read back. -/
theorem peerReadable_iff (peer : Client) :
    (∃ rest, peerRest peer = some rest ∧ (∀ i ∈ rest, i.isHeader = false) ∧
      entries rest = (peerSection peer).entries) ↔ PeerReadable peer := by
  rw [PeerReadable, ← items_eq_nil_iff, ← value_eq_iff, peerRest_eq]
  constructor
  · rintro ⟨rest, hrest, hfree, hentries⟩
    rw [Option.bind_eq_some_iff] at hrest
    obtain ⟨names, hnames, hrest⟩ := hrest
    rw [Option.map_eq_some_iff] at hrest
    obtain ⟨keys, hkeys, rfl⟩ := hrest
    simp only [entries_append, entries_entry, entries_nil, peerSection] at hentries
    -- the two entries that are there leave no room for more
    have hlength := congrArg List.length hentries
    simp only [List.length_append, List.length_cons, List.length_nil] at hlength
    have hnone : entries names = [] := List.length_eq_zero_iff.mp (by omega)
    rw [hnone, List.nil_append, List.cons.injEq, Prod.mk.injEq] at hentries
    refine ⟨?_, hentries.1.2⟩
    rw [hnames, eq_nil_of_entries (fun i hi ↦ hfree i (List.mem_append_left _ hi)) hnone]
  · rintro ⟨hnames, hvalue⟩
    have hkeys : (lines peer.publicKey.toList).tail = [] := by
      rw [lines_of_not_mem (value_eq_iff.mp hvalue).1]
      rfl
    rw [hnames, hkeys, items_nil, hvalue]
    refine ⟨_, rfl, by simp, rfl⟩

/-- What the lines of a list of clients say. -/
theorem items_peers (clients : List Client) :
    items ((clients.flatMap serverPeerLines).flatMap lines) =
      (clients.mapM peerRest).map fun rests ↦
      (rests.map fun rest ↦ (peerName, rest)).flatMap headed := by
  induction clients with
  | nil => rfl
  | cons peer clients ih =>
    rw [List.flatMap_cons, List.flatMap_append, items_append, items_serverPeerLines, ih,
      List.mapM_cons]
    cases peerRest peer with
    | none => rfl
    | some rest => cases clients.mapM peerRest <;> rfl

theorem rests_cons_iff {peer : Client} {clients : List Client} {rests : List (List Item)} :
    (peer :: clients).mapM peerRest = some rests ↔ ∃ rest others, peerRest peer = some rest ∧
      clients.mapM peerRest = some others ∧ rests = rest :: others := by
  rw [List.mapM_cons]
  cases peerRest peer with
  | none => simp
  | some rest => cases clients.mapM peerRest <;> simp [eq_comm]

theorem length_rests {clients : List Client} {rests : List (List Item)}
    (h : clients.mapM peerRest = some rests) : rests.length = clients.length := by
  induction clients generalizing rests with
  | nil => simp [← Option.some.inj h]
  | cons peer clients ih =>
    obtain ⟨rest, others, -, hothers, rfl⟩ := rests_cons_iff.mp h
    simp [ih hothers]

theorem peersReadable_iff {clients : List Client} {rests : List (List Item)}
    (h : clients.mapM peerRest = some rests) :
    (∀ rest ∈ rests, ∀ i ∈ rest, i.isHeader = false) ∧
        clients.map peerSection = rests.map (fun rest ↦ ⟨peerName, entries rest⟩) ↔
      ∀ peer ∈ clients, PeerReadable peer := by
  induction clients generalizing rests with
  | nil =>
    have hrests : rests = [] := by simpa using h.symm
    simp [hrests]
  | cons peer clients ih =>
    obtain ⟨rest, others, hrest, hothers, rfl⟩ := rests_cons_iff.mp h
    have hfirst := peerReadable_iff peer
    simp only [hrest, Option.some.injEq, exists_eq_left'] at hfirst
    rw [List.forall_mem_cons, List.forall_mem_cons, List.map_cons, List.map_cons, List.cons.injEq,
      ← ih hothers, ← hfirst]
    have hsection : peerSection peer = ⟨peerName, entries rest⟩ ↔
        entries rest = (peerSection peer).entries := by
      rw [eq_comm, peerSection, Section.mk.injEq]
      exact and_iff_right rfl
    rw [hsection]
    tauto

/-- Clients that can be read back are well formed. -/
theorem exists_rests_of_readable {clients : List Client} (h : ∀ peer ∈ clients, PeerReadable peer) :
    ∃ rests, clients.mapM peerRest = some rests := by
  induction clients with
  | nil => exact ⟨[], rfl⟩
  | cons peer clients ih =>
    rw [List.forall_mem_cons] at h
    obtain ⟨rest, hrest, -⟩ := (peerReadable_iff peer).mpr h.1
    obtain ⟨rests, hrests⟩ := ih h.2
    exact ⟨rest :: rests, rests_cons_iff.mpr ⟨rest, rests, hrest, hrests, rfl⟩⟩

/-! ## The lines of the hub -/

/-- The lines that the interface name begins in an `iptables` line. -/
theorem harmless_forwardLine_iff {first second third : String} (server : Server)
    {keys : List (List Char)} (h₁ : '\n' ∉ first.toList) (h₂ : '\n' ∉ second.toList)
    (h₃ : '\n' ∉ third.toList) (hcomment : '#' ∉ third.toList) (hequals : '=' ∉ third.toList) :
    (∀ l ∈ (lines (forwardLine first second third server)).tail, harmless keys l = true) ↔
      (∀ l ∈ (lines server.interface.toList).tail.dropLast, harmless keys l = true) ∧
        ∀ l ∈ (lines server.interface.toList).tail.getLast?,
          harmless keys l = true ∧ begun l = true := by
  have hsubnet : ∀ d ∈ server.subnet.text.toList, isAddressChar d = true :=
    fun d hd ↦ isAddressChar_of_mem_network hd
  obtain ⟨G, hG⟩ : ∃ G, G = third.toList ++
    (server.subnet.text.toList ++ " -o eth0 -j MASQUERADE".toList) := ⟨_, rfl⟩
  have hnewline : '\n' ∉ G := by
    rw [hG, List.mem_append, List.mem_append]
    rintro (h | h | h)
    · exact h₃ h
    · exact newline_not_mem_of_addressChars hsubnet h
    · exact not_mem_literal (by decide) h
  have hcomment : '#' ∉ G := by
    rw [hG, List.mem_append, List.mem_append]
    rintro (h | h | h)
    · exact hcomment h
    · exact absurd (hsubnet _ h) (by decide)
    · exact not_mem_literal (by decide) h
  have hequals : '=' ∉ G := by
    rw [hG, List.mem_append, List.mem_append]
    rintro (h | h | h)
    · exact hequals h
    · exact absurd (hsubnet _ h) (by decide)
    · exact not_mem_literal (by decide) h
  have hblank : ∃ d ∈ G, isBlank d = false := by
    refine ⟨'o', ?_, by decide⟩
    rw [hG]
    exact List.mem_append_right _ (List.mem_append_right _ (mem_literal (by decide)))
  obtain ⟨l₀, ls, hlines⟩ := List.exists_cons_of_ne_nil (lines_ne_nil server.interface.toList)
  rw [forwardLine, ← hG, lines_of_lead h₁, List.tail_cons, hlines, List.tail_cons]
  have hrest : lines (second.toList ++ (server.interface.toList ++ G)) =
      (second.toList ++ (lines (server.interface.toList ++ G)).headD []) ::
        (lines (server.interface.toList ++ G)).tail := lines_of_lead h₂ _
  rw [lines_append, hrest, lines_append, lines_of_not_mem hnewline, hlines]
  rcases List.eq_nil_or_concat ls with rfl | ⟨mids, last, rfl⟩
  · simp
  · -- the last line of the name goes on twice, the first time with the first line of the name
    have hwhole : harmless keys (last ++ G) = true ↔
        harmless keys last = true ∧ begun last = true :=
      harmless_append_iff hcomment hequals hblank
    have hmids : (l₀ :: (mids ++ [last])).dropLast = l₀ :: mids := by
      rw [List.dropLast_cons_of_ne_nil (by simp), List.dropLast_concat]
    have hlast : (l₀ :: (mids ++ [last])).getLastD [] = last := by
      rw [← List.cons_append, List.getLastD_concat]
    simp only [List.concat_eq_append, hmids, hlast, List.headD_cons, List.tail_cons,
      List.cons_append, List.forall_mem_append, List.forall_mem_cons, List.dropLast_concat,
      List.getLast?_concat, Option.mem_some_iff, forall_eq', hwhole, List.not_mem_nil,
      false_implies, implies_true, and_true]
    constructor
    · rintro ⟨hall, -, -, hbegun⟩
      exact ⟨hall, hbegun⟩
    · rintro ⟨hall, hbegun⟩
      exact ⟨hall, harmless_append hbegun.1 hbegun.2 _, hall, hbegun⟩

theorem postUpLine_harmless_iff (server : Server) :
    (∀ l ∈ (lines (postUpLine server)).tail, harmless [addressKey, listenPortKey] l = true) ↔
      InterfaceReadable server :=
  harmless_forwardLine_iff server (not_mem_literal (by decide)) (not_mem_literal (by decide))
    (not_mem_literal (by decide)) (not_mem_literal (by decide)) (not_mem_literal (by decide))

theorem postDownLine_harmless_iff (server : Server) :
    (∀ l ∈ (lines (postDownLine server)).tail, harmless [addressKey, listenPortKey] l = true) ↔
      InterfaceReadable server :=
  harmless_forwardLine_iff server (not_mem_literal (by decide)) (not_mem_literal (by decide))
    (not_mem_literal (by decide)) (not_mem_literal (by decide)) (not_mem_literal (by decide))

/-- An `iptables` line is an entry, and the lines that the interface name begins. -/
theorem items_forwardLine {first second third : String} {name : List Char} (server : Server)
    (hnewline : '\n' ∉ first.toList)
    (hitem : ∀ rest, ∃ value, item (first.toList ++ rest) = some (some (.entry name value))) :
    ∃ value, items (lines (forwardLine first second third server)) =
      (items (lines (forwardLine first second third server)).tail).map
        (.entry name value :: ·) := by
  rw [forwardLine, lines_of_lead hnewline, List.tail_cons]
  obtain ⟨value, hvalue⟩ := hitem ((lines (server.interface.toList ++ (second.toList ++
    (server.interface.toList ++ (third.toList ++ (server.subnet.text.toList ++
      " -o eth0 -j MASQUERADE".toList)))))).headD [])
  refine ⟨value, ?_⟩
  rw [items_cons, hvalue]
  rfl

theorem items_postUpLine (server : Server) : ∃ value, items (lines (postUpLine server)) =
    (items (lines (postUpLine server)).tail).map (.entry "postup".toList value :: ·) := by
  apply items_forwardLine server (not_mem_literal (by decide))
  intro rest
  have htext : "PostUp = iptables -A FORWARD -i ".toList ++ rest =
      "PostUp = ".toList ++ ("iptables -A FORWARD -i ".toList ++ rest) := by
    rw [← List.append_assoc, ← String.toList_append]
    rfl
  rw [htext]
  exact ⟨_, item_keyed (keyed_literal (by decide)) _⟩

theorem items_postDownLine (server : Server) : ∃ value, items (lines (postDownLine server)) =
    (items (lines (postDownLine server)).tail).map (.entry "postdown".toList value :: ·) := by
  apply items_forwardLine server (not_mem_literal (by decide))
  intro rest
  have htext : "PostDown = iptables -D FORWARD -i ".toList ++ rest =
      "PostDown = ".toList ++ ("iptables -D FORWARD -i ".toList ++ rest) := by
    rw [← List.append_assoc, ← String.toList_append]
    rfl
  rw [htext]
  exact ⟨_, item_keyed (keyed_literal (by decide)) _⟩

/-- What the lines of the `[Interface]` section say after their header. -/
def interfaceRest (server : Server) : Option (List Item) :=
  items ((serverInterfaceLines server).tail.flatMap lines)

theorem items_serverInterfaceLines (server : Server) :
    items ((serverInterfaceLines server).flatMap lines) =
      (interfaceRest server).map fun rest ↦ headed (interfaceName, rest) := by
  have hheader : lines "[Interface]".toList = ["[Interface]".toList] := lines_literal (by decide)
  have hitem : item "[Interface]".toList = some (some (.header interfaceName)) := by decide +kernel
  rw [interfaceRest, serverInterfaceLines, List.tail_cons, List.flatMap_cons, hheader,
    List.cons_append, List.nil_append, items_cons, hitem]
  simp only [Option.bind_some, Option.toList_some, List.singleton_append, headed]

/-- A line with an address or a number for its value. -/
theorem items_addressLine {text : String} {name value : List Char}
    (hvalue : ∀ d ∈ value, isAddressChar d = true) (hnewline : '\n' ∉ text.toList)
    (hitem : item (text.toList ++ value) = some (some (.entry name (trim (uncomment value))))) :
    items (lines (text.toList ++ value)) = some [.entry name value] := by
  have hlines : lines (text.toList ++ value) = [text.toList ++ value] := by
    rw [lines_of_lead hnewline, lines_of_not_mem (newline_not_mem_of_addressChars hvalue)]
    rfl
  rw [hlines, items_cons, hitem, trim_uncomment_of_addressChars hvalue]
  rfl

theorem interfaceRest_eq (server : Server) : ∃ key up down, interfaceRest server =
    (items (lines (postUpLine server)).tail).bind fun ups ↦
      (items (lines (postDownLine server)).tail).map fun downs ↦
        .entry addressKey server.address.text.toList ::
          .entry listenPortKey (toString server.endpointPort).toList ::
            .entry "privatekey".toList key :: .entry "postup".toList up ::
              (ups ++ .entry "postdown".toList down :: downs) := by
  have hkeyed : keyed "Address = ".toList = some "address".toList := keyed_literal (by decide)
  have hkeyed' : keyed "ListenPort = ".toList = some "listenport".toList :=
    keyed_literal (by decide)
  have haddress : items (lines ("Address = ".toList ++ server.address.text.toList)) =
      some [.entry addressKey server.address.text.toList] :=
    items_addressLine (fun d hd ↦ isAddressChar_of_mem_interface hd) (not_mem_literal (by decide))
      (item_keyed hkeyed _)
  have hport : items (lines ("ListenPort = ".toList ++ (toString server.endpointPort).toList)) =
      some [.entry listenPortKey (toString server.endpointPort).toList] :=
    items_addressLine (fun d hd ↦ isAddressChar_of_mem_int hd) (not_mem_literal (by decide))
      (item_keyed hkeyed' _)
  have hkey : items (lines "PrivateKey = $(cat /etc/wireguard/privatekey)".toList) =
      some [.entry "privatekey".toList "$(cat /etc/wireguard/privatekey)".toList] := by
    decide +kernel
  obtain ⟨up, hup⟩ := items_postUpLine server
  obtain ⟨down, hdown⟩ := items_postDownLine server
  refine ⟨"$(cat /etc/wireguard/privatekey)".toList, up, down, ?_⟩
  simp only [interfaceRest, serverInterfaceLines, List.tail_cons, List.flatMap_cons,
    List.flatMap_nil, items_append, haddress, hport, hkey, hup, hdown, items_nil]
  cases items (lines (postUpLine server)).tail with
  | none => rfl
  | some ups =>
    cases items (lines (postDownLine server)).tail with
    | none => rfl
    | some downs =>
      simp only [Option.map_some, Option.bind_some, List.nil_append, List.cons_append,
        List.append_nil]

/-- Among the entries of the section, those with a given key are the one that a column of the hub is
written to, when the interface name adds none. -/
theorem filter_entries_eq_iff {k : List Char} {e : List Char × List Char}
    {before middle : List (List Char × List Char)} (hbefore : before.filter (·.1 = k) = [e])
    (hmiddle : middle.filter (·.1 = k) = []) (ups downs : List (List Char × List Char)) :
    (before ++ ups ++ (middle ++ downs)).filter (·.1 = k) = [e] ↔
      (∀ f ∈ ups, f.1 ≠ k) ∧ ∀ f ∈ downs, f.1 ≠ k := by
  simp only [List.filter_append, hbefore, hmiddle, List.nil_append, List.append_assoc,
    List.singleton_append, List.cons.injEq, true_and, List.append_eq_nil_iff,
    List.filter_eq_nil_iff, decide_eq_true_eq, ne_eq]

/-- The rest says the hub's address and port just when the interface name can be read over. -/
theorem interfaceReadable_iff (server : Server) :
    (∃ rest, interfaceRest server = some rest ∧ (∀ i ∈ rest, i.isHeader = false) ∧
      (entries rest).filter (·.1 = addressKey) = [(addressKey, server.address.text.toList)] ∧
      (entries rest).filter (·.1 = listenPortKey) =
        [(listenPortKey, (toString server.endpointPort).toList)]) ↔ InterfaceReadable server := by
  obtain ⟨key, up, down, heq⟩ := interfaceRest_eq server
  obtain ⟨before, hbefore⟩ : ∃ before, before = [(addressKey, server.address.text.toList),
    (listenPortKey, (toString server.endpointPort).toList), ("privatekey".toList, key),
    ("postup".toList, up)] := ⟨_, rfl⟩
  have haddress : before.filter (·.1 = addressKey) =
      [(addressKey, server.address.text.toList)] := by rw [hbefore]; rfl
  have hport : before.filter (·.1 = listenPortKey) =
      [(listenPortKey, (toString server.endpointPort).toList)] := by rw [hbefore]; rfl
  have hmiddle : [("postdown".toList, down)].filter (·.1 = addressKey) = [] := rfl
  have hmiddle' : [("postdown".toList, down)].filter (·.1 = listenPortKey) = [] := rfl
  have hentries (ups downs : List Item) : entries (.entry addressKey server.address.text.toList ::
      .entry listenPortKey (toString server.endpointPort).toList ::
        .entry "privatekey".toList key :: .entry "postup".toList up ::
          (ups ++ .entry "postdown".toList down :: downs)) =
      before ++ entries ups ++ ([("postdown".toList, down)] ++ entries downs) := by
    rw [hbefore]
    simp only [entries_entry, entries_append, List.cons_append, List.nil_append]
  have hkeys (es : List (List Char × List Char)) : (∀ e ∈ es, e.1 ∉ [addressKey, listenPortKey]) ↔
      (∀ e ∈ es, e.1 ≠ addressKey) ∧ ∀ e ∈ es, e.1 ≠ listenPortKey := by
    simp only [List.mem_cons, List.not_mem_nil, or_false, not_or, ne_eq]
    exact forall₂_and
  constructor
  · rintro ⟨rest, hrest, hfree, ha, hp⟩
    rw [heq, Option.bind_eq_some_iff] at hrest
    obtain ⟨ups, hups, hrest⟩ := hrest
    rw [Option.map_eq_some_iff] at hrest
    obtain ⟨downs, hdowns, rfl⟩ := hrest
    rw [hentries, filter_entries_eq_iff haddress hmiddle] at ha
    rw [hentries, filter_entries_eq_iff hport hmiddle'] at hp
    rw [← postUpLine_harmless_iff, harmless_all_iff]
    refine ⟨ups, hups, fun i hi ↦ hfree i (by simp [hi]), (hkeys _).mpr ⟨ha.1, hp.1⟩⟩
  · intro hread
    obtain ⟨ups, hups, hfree, hclear⟩ :=
      harmless_all_iff.mp ((postUpLine_harmless_iff server).mpr hread)
    obtain ⟨downs, hdowns, hfree', hclear'⟩ :=
      harmless_all_iff.mp ((postDownLine_harmless_iff server).mpr hread)
    rw [hkeys] at hclear hclear'
    rw [heq, hups, hdowns]
    refine ⟨_, rfl, ?_, ?_, ?_⟩
    · simp only [List.forall_mem_cons, List.forall_mem_append, isHeader_entry, true_and]
      exact ⟨hfree, hfree'⟩
    · rw [hentries, filter_entries_eq_iff haddress hmiddle]
      exact ⟨hclear.1, hclear'.1⟩
    · rw [hentries, filter_entries_eq_iff hport hmiddle']
      exact ⟨hclear.2, hclear'.2⟩

/-! ## The whole configuration -/

/-- What the configuration says, when what the lines of the hub and of the clients say is known. -/
theorem parse_renderServerConfig (server : Server) (clients : List Client) :
    parse (renderServerConfig server clients).toList =
      (interfaceRest server).bind fun first ↦ (clients.mapM peerRest).map fun rests ↦
        (group (((interfaceName, first) :: rests.map fun rest ↦ (peerName, rest)).flatMap
          headed)).2 := by
  rw [renderServerConfig_unlines, parse_unlines, List.flatMap_append, items_append,
    items_serverInterfaceLines, items_peers]
  cases interfaceRest server with
  | none => rfl
  | some first =>
    cases clients.mapM peerRest with
    | none => rfl
    | some rests =>
      have hfirst := group_segments_fst ((interfaceName, first) :: rests.map fun rest ↦
        (peerName, rest))
      rw [List.flatMap_cons] at hfirst
      simp only [Option.map_some, Option.bind_some, List.flatMap_cons, hfirst, if_true]

/-- The sections are those of the rows when each part has one header and the entries of its row. -/
theorem sections_eq_iff {clients : List Client} {first : List Item} {rests : List (List Item)}
    (hrests : clients.mapM peerRest = some rests) (es : List (List Char × List Char)) :
    (group (((interfaceName, first) :: rests.map fun rest ↦ (peerName, rest)).flatMap headed)).2 =
        ⟨interfaceName, es⟩ :: clients.map peerSection ↔
      ((∀ i ∈ first, i.isHeader = false) ∧ es = entries first) ∧
        ∀ peer ∈ clients, PeerReadable peer := by
  have hlength := length_rests hrests
  rw [group_segments_iff _ _ (by simp [hlength]), ← peersReadable_iff hrests, List.forall_mem_cons,
    List.forall_mem_map, List.map_cons, List.map_map, List.cons.injEq, Section.mk.injEq]
  simp only [true_and, Function.comp_def]
  tauto

theorem readable_of_saysExactly {server : Server} {clients : List Client}
    (h : SaysExactly (renderServerConfig server clients) server clients) :
    InterfaceReadable server ∧ ∀ peer ∈ clients, PeerReadable peer := by
  obtain ⟨es, hparse, haddress, hport⟩ := h
  rw [parse_renderServerConfig, Option.bind_eq_some_iff] at hparse
  obtain ⟨first, hfirst, hparse⟩ := hparse
  rw [Option.map_eq_some_iff] at hparse
  obtain ⟨rests, hrests, hgroup⟩ := hparse
  obtain ⟨⟨hfree, rfl⟩, hpeers⟩ := (sections_eq_iff hrests es).mp hgroup
  exact ⟨(interfaceReadable_iff server).mp ⟨first, hfirst, hfree, haddress, hport⟩, hpeers⟩

theorem saysExactly_of_readable {server : Server} {clients : List Client}
    (h : InterfaceReadable server)
    (hpeers : ∀ peer ∈ clients, PeerReadable peer) :
    SaysExactly (renderServerConfig server clients) server clients := by
  obtain ⟨first, hfirst, hfree, haddress, hport⟩ := (interfaceReadable_iff server).mpr h
  obtain ⟨rests, hrests⟩ := exists_rests_of_readable hpeers
  refine ⟨entries first, ?_, haddress, hport⟩
  rw [parse_renderServerConfig, hfirst, hrests, Option.bind_some, Option.map_some]
  exact congrArg some ((sections_eq_iff hrests _).mpr ⟨⟨hfree, rfl⟩, hpeers⟩)

/-- **What the configuration of a hub says.**  It says exactly what the rows say just when the
interface name can be read over and the fields of each client can be read back. -/
theorem saysExactly_iff (server : Server) (clients : List Client) :
    SaysExactly (renderServerConfig server clients) server clients ↔
      InterfaceReadable server ∧ ∀ peer ∈ clients, PeerReadable peer :=
  ⟨readable_of_saysExactly, fun h ↦ saysExactly_of_readable h.1 h.2⟩

instance (peer : Client) : Decidable (PeerReadable peer) := inferInstanceAs (Decidable (_ ∧ _))

instance (server : Server) : Decidable (InterfaceReadable server) :=
  inferInstanceAs (Decidable ((∀ l ∈ (lines server.interface.toList).tail.dropLast, _) ∧
    ∀ l ∈ (lines server.interface.toList).tail.getLast?, _))

/-- A hub whose tunnel is called `wg0` can be read back. -/
example : InterfaceReadable exampleHub := by decide +kernel

/-- A client whose name goes on after a line break. -/
def twoLineClient : Client where
  id := 1
  name := "web\nAllowedIPs = 0.0.0.0/0"
  serverId := 1
  createdAt := 0

/-- A name with a line break, which `ClientCreate` accepts, gives its client another address
range. -/
theorem twoLineClient_says_more :
    ¬SaysExactly (renderServerConfig exampleHub [twoLineClient]) exampleHub [twoLineClient] := by
  intro h
  have hreadable := (readable_of_saysExactly h).2 twoLineClient (List.mem_singleton_self _)
  exact absurd hreadable (by decide +kernel)

end WgManager
