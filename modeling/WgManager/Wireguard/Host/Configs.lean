import WgManager.HubConfig
import WgManager.Wireguard.Host.Settling

/-!
# What the interfaces of a network are brought up with

The template says what the rows say, with a placeholder where the private key belongs, and `sed`
puts the key of the host there.  What `wg-quick` then reads is the template with this one entry
changed: the placeholder stands in no other line, unless somebody has put it into a field.
-/

set_option autoImplicit false

namespace WgManager.Host

open Lines WgConf Sed

def privateKeyKey : List Char := "privatekey".toList

/-! ## Lines -/

section

variable {pk l : List Char}

theorem placeholder_eq : ∃ rest, placeholder = '$' :: rest := ⟨_, String.toList_ofList⟩

theorem dollar_mem_placeholder : '$' ∈ placeholder := mem_literal (by decide)

/-- A line without a dollar sign stays as it is. -/
theorem replaceFirst_of_no_dollar (h : '$' ∉ l) : replaceFirst placeholder pk l = l :=
  replaceFirst_of_not_mem dollar_mem_placeholder h

/-- A line without comment says nothing just when it is blank. -/
theorem bareItem_eq_some_none : bareItem l = some none ↔ ∀ c ∈ l, isBlank c = true := by
  rw [bareItem]
  cases hdrop : l.dropWhile isBlank with
  | nil => simpa using hdrop
  | cons c cs =>
    have hnot : ¬∀ d ∈ l, isBlank d = true := by
      intro hall
      rw [List.dropWhile_eq_nil_iff.mpr hall] at hdrop
      cases hdrop
    simp only [hnot, iff_false]
    split <;> simp

/-- A line that says nothing still says nothing: the placeholder can only stand in its comment. -/
theorem item_replaceFirst_of_none (h : item l = some none) :
    item (replaceFirst placeholder pk l) = some none := by
  unfold replaceFirst
  cases hfind : PyStr.find placeholder l with
  | none => exact h
  | some k =>
    have hline := eq_of_find hfind
    have hcomment : '#' ∈ l.take k := by
      by_contra hnone
      rw [item, bareItem_eq_some_none, hline, uncomment_append hnone] at h
      have hmem : '$' ∈ l.take k ++ uncomment (placeholder ++ l.drop (k + placeholder.length)) := by
        obtain ⟨rest, hrest⟩ := placeholder_eq
        simp [hrest, uncomment]
      exact absurd (h '$' hmem) (by decide)
    rw [hline, item, uncomment_append_of_mem hcomment] at h
    simp only [List.append_assoc]
    rw [item, uncomment_append_of_mem hcomment]
    exact h

end

/-! ## The configuration of a hub -/

/-- The lines of a list of lines, after `sed`. -/
def edited (pk : List Char) (ls : List (List Char)) : List (List Char) :=
  (ls.flatMap lines).map (replaceFirst placeholder pk)

theorem edited_append (pk : List Char) (ls ms : List (List Char)) :
    edited pk (ls ++ ms) = edited pk ls ++ edited pk ms := by simp [edited]

/-- The private key in the form that `wg-quick` reads back. -/
def ReadableKey (pk : List Char) : Prop := '\n' ∉ pk ∧ '#' ∉ pk ∧ trim pk = pk

/-- What a text that has been edited says. -/
theorem parse_substitute {pk : List Char} (hpk : '\n' ∉ pk) (ls : List (List Char)) :
    parse (substitute pk (unlines ls)) = (items (edited pk ls)).bind fun is ↦
      if (group is).1 = [] then some (group is).2 else none := by
  have hlines : (edited pk ls).flatMap lines = edited pk ls := by
    have hone (l : List Char) (hl : l ∈ edited pk ls) : lines l = [l] := by
      simp only [edited, List.mem_map, List.mem_flatMap] at hl
      obtain ⟨l', ⟨l₀, -, hl'⟩, rfl⟩ := hl
      exact lines_of_not_mem (newline_not_mem_replaceFirst (newline_not_mem_of_mem_lines hl') hpk)
    rw [List.flatMap_congr hone]
    exact List.flatMap_singleton' _
  have hne : placeholder ≠ [] := List.ne_nil_of_mem dollar_mem_placeholder
  rw [substitute, substitute_unlines hne, ← edited, parse_unlines, hlines]

section

variable {pk : List Char} {peer : Client}

/-- Editing changes nothing when no line says something else than before. -/
theorem items_edited {ls : List (List Char)}
    (h : ∀ l ∈ ls.flatMap lines, item (replaceFirst placeholder pk l) = item l) :
    items (edited pk ls) = items (ls.flatMap lines) := by
  rw [edited]
  generalize ls.flatMap lines = ms at h ⊢
  induction ms with
  | nil => rfl
  | cons l ms ih =>
    rw [List.forall_mem_cons] at h
    rw [List.map_cons, items_cons, items_cons, h.1, ih h.2]

/-- The lines of a client say what they said. -/
theorem items_edited_peer (hread : PeerReadable peer) (hkey : '$' ∉ peer.publicKey.toList) :
    items (edited pk (serverPeerLines peer)) = items ((serverPeerLines peer).flatMap lines) := by
  obtain ⟨hname, hnewline, -, -⟩ := hread
  have haddress : '$' ∉ peer.addressText.toList := fun hmem ↦
    absurd (addressText_chars peer _ hmem) (by decide)
  have hlines : lines ("PublicKey = ".toList ++ peer.publicKey.toList) =
      ["PublicKey = ".toList ++ peer.publicKey.toList] := by
    rw [lines_of_lead (not_mem_literal (by decide)), lines_of_not_mem hnewline]
    rfl
  have hlines' : lines ("AllowedIPs = ".toList ++ peer.addressText.toList) =
      ["AllowedIPs = ".toList ++ peer.addressText.toList] := by
    rw [lines_of_lead (not_mem_literal (by decide)),
      lines_of_not_mem (newline_not_mem_of_addressChars (addressText_chars peer))]
    rfl
  have h₁ : '$' ∉ "[Peer]".toList := not_mem_literal (by decide)
  apply items_edited
  intro l hl
  simp only [serverPeerLines, List.flatMap_cons, List.flatMap_nil, lines_nil, hlines, hlines',
    lines_literal (show '\n' ∉ ['[', 'P', 'e', 'e', 'r', ']'] by decide), List.mem_append,
    List.mem_singleton, List.append_nil] at hl
  rcases hl with rfl | rfl | hl | rfl | rfl
  · rw [replaceFirst_of_no_dollar (by simp)]
  · rw [replaceFirst_of_no_dollar h₁]
  · -- a line of the name is a comment, or blank
    have hnone : item l = some none := by
      rw [lines_of_lead (not_mem_literal (by decide)), List.mem_cons] at hl
      rcases hl with rfl | hl
      · exact item_comment _
      · exact hname l hl
    rw [item_replaceFirst_of_none hnone, hnone]
  · rw [replaceFirst_of_no_dollar (by simp [hkey])]
  · rw [replaceFirst_of_no_dollar (by simp [haddress])]

theorem items_edited_peers {clients : List Client} (hread : ∀ peer ∈ clients, PeerReadable peer)
    (hkeys : ∀ peer ∈ clients, '$' ∉ peer.publicKey.toList) :
    items (edited pk (clients.flatMap serverPeerLines)) =
      items ((clients.flatMap serverPeerLines).flatMap lines) := by
  induction clients with
  | nil => rfl
  | cons peer clients ih =>
    rw [List.forall_mem_cons] at hread hkeys
    rw [List.flatMap_cons, edited_append, List.flatMap_append, items_append, items_append,
      items_edited_peer hread.1 hkeys.1, ih hread.2 hkeys.2]

/-- A line without a dollar sign, before other lines. -/
theorem edited_cons {l : List Char} (h : '$' ∉ l) (ls : List (List Char)) :
    edited pk (l :: ls) = lines l ++ edited pk ls := by
  have hline (l' : List Char) (hl' : l' ∈ lines l) : '$' ∉ l' := by
    intro hmem
    have hcount := count_flatten_lines (show '$' ≠ '\n' by decide) l
    rw [List.count_eq_zero.mpr h, List.count_eq_zero, List.mem_flatten] at hcount
    exact hcount ⟨l', hl', hmem⟩
  have hmap : (lines l).map (replaceFirst placeholder pk) = lines l := by
    rw [List.map_congr_left fun l' hl' ↦ replaceFirst_of_no_dollar (hline l' hl'), List.map_id']
  rw [edited, List.flatMap_cons, List.map_append, hmap]
  rfl

/-- The line of the private key. -/
theorem edited_privateKey (ls : List (List Char)) :
    edited pk ("PrivateKey = $(cat /etc/wireguard/privatekey)".toList :: ls) =
      ("PrivateKey = ".toList ++ pk) :: edited pk ls := by
  have hlines : lines "PrivateKey = $(cat /etc/wireguard/privatekey)".toList =
      ["PrivateKey = $(cat /etc/wireguard/privatekey)".toList] := lines_literal (by decide)
  have hfind : PyStr.find placeholder "PrivateKey = $(cat /etc/wireguard/privatekey)".toList =
      some 13 := by decide +kernel
  have htake : "PrivateKey = $(cat /etc/wireguard/privatekey)".toList.take 13 =
      "PrivateKey = ".toList := by decide +kernel
  have hdrop : "PrivateKey = $(cat /etc/wireguard/privatekey)".toList.drop
      (13 + placeholder.length) = [] := by decide +kernel
  have hline : replaceFirst placeholder pk "PrivateKey = $(cat /etc/wireguard/privatekey)".toList =
      "PrivateKey = ".toList ++ pk := by
    rw [replaceFirst, hfind]
    simp only [htake, hdrop, List.append_nil]
  rw [edited, List.flatMap_cons, hlines, List.singleton_append, List.map_cons, hline]
  rfl

theorem item_privateKey (h : ReadableKey pk) : item ("PrivateKey = ".toList ++ pk) =
    some (some (.entry privateKeyKey pk)) := by
  have hkeyed : keyed "PrivateKey = ".toList = some privateKeyKey := keyed_literal (by decide)
  rw [item_keyed hkeyed, uncomment_of_not_mem h.2.1, h.2.2]

/-- An interface name that is plain has none of these characters. -/
theorem not_mem_of_isPlainName {name : String} (h : isPlainName name) {c : Char}
    (hc : (c.isAlphanum || c = '-' || c = '_') = false) : c ∉ name.toList := by
  intro hmem
  rw [isPlainName, Bool.and_eq_true, List.all_eq_true] at h
  exact absurd (h.2 c hmem) (by simpa using hc)

theorem not_mem_forwardLine {c : Char} {first second third : String} {server : Server}
    (hplain : isPlainName server.interface)
    (hc : (c.isAlphanum || c = '-' || c = '_') = false) (haddress : isAddressChar c = false)
    (htext : c ∉ first.toList ∧ c ∉ second.toList ∧ c ∉ third.toList ∧
      c ∉ " -o eth0 -j MASQUERADE".toList) : c ∉ forwardLine first second third server := by
  have hinterface := not_mem_of_isPlainName hplain hc
  have hsubnet : c ∉ server.subnet.text.toList := fun hmem ↦ by
    rw [isAddressChar_of_mem_network hmem] at haddress
    cases haddress
  simp only [forwardLine, List.mem_append, hinterface, hsubnet, htext, or_self, not_false_iff]

/-- An `iptables` line of a hub whose interface name is plain. -/
theorem items_edited_forwardLine {first second third : String} {server : Server}
    {name : List Char} (hplain : isPlainName server.interface)
    (hdollar : '$' ∉ first.toList ∧ '$' ∉ second.toList ∧ '$' ∉ third.toList)
    (hnewline : '\n' ∉ first.toList ∧ '\n' ∉ second.toList ∧ '\n' ∉ third.toList)
    (hitems : ∃ value, items (lines (forwardLine first second third server)) =
      (items (lines (forwardLine first second third server)).tail).map (.entry name value :: ·))
    (ls : List (List Char)) : ∃ value,
      items (edited pk (forwardLine first second third server :: ls)) =
        (items (edited pk ls)).map (.entry name value :: ·) := by
  have hend : '$' ∉ " -o eth0 -j MASQUERADE".toList ∧ '\n' ∉ " -o eth0 -j MASQUERADE".toList :=
    ⟨not_mem_literal (by decide), not_mem_literal (by decide)⟩
  have hdollar' : '$' ∉ forwardLine first second third server := not_mem_forwardLine hplain
    (by decide) (by decide) ⟨hdollar.1, hdollar.2.1, hdollar.2.2, hend.1⟩
  have hnewline' : '\n' ∉ forwardLine first second third server := not_mem_forwardLine hplain
    (by decide) (by decide) ⟨hnewline.1, hnewline.2.1, hnewline.2.2, hend.2⟩
  obtain ⟨value, hvalue⟩ := hitems
  rw [lines_of_not_mem hnewline', List.tail_cons, items_nil] at hvalue
  refine ⟨value, ?_⟩
  rw [edited_cons hdollar', lines_of_not_mem hnewline', items_append, hvalue]
  rfl

/-- What the `[Interface]` section of a hub says after `sed`. -/
theorem items_edited_interface {server : Server} (hplain : isPlainName server.interface)
    (hpk : ReadableKey pk) : ∃ up down, items (edited pk (serverInterfaceLines server)) =
      some (headed (interfaceName, [.entry addressKey server.address.text.toList,
        .entry listenPortKey (toString server.endpointPort).toList, .entry privateKeyKey pk,
        .entry "postup".toList up, .entry "postdown".toList down])) := by
  have hkeyed : keyed "Address = ".toList = some addressKey := keyed_literal (by decide)
  have hkeyed' : keyed "ListenPort = ".toList = some listenPortKey := keyed_literal (by decide)
  have hheader : items (lines "[Interface]".toList) = some [.header interfaceName] := by
    decide +kernel
  have haddress : items (lines ("Address = ".toList ++ server.address.text.toList)) =
      some [.entry addressKey server.address.text.toList] :=
    items_addressLine (fun d hd ↦ isAddressChar_of_mem_interface hd) (not_mem_literal (by decide))
      (item_keyed hkeyed _)
  have hport : items (lines ("ListenPort = ".toList ++ (toString server.endpointPort).toList)) =
      some [.entry listenPortKey (toString server.endpointPort).toList] :=
    items_addressLine (fun d hd ↦ isAddressChar_of_mem_int hd) (not_mem_literal (by decide))
      (item_keyed hkeyed' _)
  have h₁ : '$' ∉ "[Interface]".toList := not_mem_literal (by decide)
  have h₂ : '$' ∉ "Address = ".toList ++ server.address.text.toList := by
    rw [List.mem_append, not_or]
    exact ⟨not_mem_literal (by decide), fun hmem ↦
      absurd (isAddressChar_of_mem_interface hmem) (by decide)⟩
  have h₃ : '$' ∉ "ListenPort = ".toList ++ (toString server.endpointPort).toList := by
    rw [List.mem_append, not_or]
    exact ⟨not_mem_literal (by decide), fun hmem ↦
      absurd (isAddressChar_of_mem_int hmem) (by decide)⟩
  obtain ⟨down, hdown⟩ : ∃ down, items (edited pk [postDownLine server]) =
      (items (edited pk [])).map (.entry "postdown".toList down :: ·) :=
    items_edited_forwardLine hplain (by decide +kernel) (by decide +kernel)
      (items_postDownLine server) []
  obtain ⟨up, hup⟩ : ∃ up, items (edited pk [postUpLine server, postDownLine server]) =
      (items (edited pk [postDownLine server])).map (.entry "postup".toList up :: ·) :=
    items_edited_forwardLine hplain (by decide +kernel) (by decide +kernel)
      (items_postUpLine server) [postDownLine server]
  refine ⟨up, down, ?_⟩
  rw [serverInterfaceLines, edited_cons h₁, edited_cons h₂, edited_cons h₃, edited_privateKey,
    items_append, items_append, items_append, items_cons, hheader, haddress, hport,
    item_privateKey hpk, hup, hdown]
  rfl

/-- What the configuration of a hub says after `sed`: what the rows say, and the private key. -/
theorem parse_substitute_hub {server : Server} {clients : List Client}
    (hplain : isPlainName server.interface) (hpk : ReadableKey pk)
    (hread : ∀ peer ∈ clients, PeerReadable peer)
    (hkeys : ∀ peer ∈ clients, '$' ∉ peer.publicKey.toList) :
    ∃ up down, parse (substitute pk (renderServerConfig server clients).toList) =
      some (⟨interfaceName, [(addressKey, server.address.text.toList),
        (listenPortKey, (toString server.endpointPort).toList), (privateKeyKey, pk),
        ("postup".toList, up), ("postdown".toList, down)]⟩ :: clients.map peerSection) := by
  obtain ⟨up, down, hfirst⟩ := items_edited_interface hplain hpk
  obtain ⟨rests, hrests⟩ := exists_rests_of_readable hread
  refine ⟨up, down, ?_⟩
  rw [renderServerConfig_unlines, parse_substitute hpk.1, edited_append, items_append, hfirst,
    items_edited_peers hread hkeys, items_peers, hrests]
  obtain ⟨first, hfirst'⟩ : ∃ first, first = [Item.entry addressKey server.address.text.toList,
    .entry listenPortKey (toString server.endpointPort).toList, .entry privateKeyKey pk,
    .entry "postup".toList up, .entry "postdown".toList down] := ⟨_, rfl⟩
  have hheaders : ∀ i ∈ first, i.isHeader = false := by simp [hfirst', Item.isHeader]
  have hsections := (sections_eq_iff hrests _).mpr ⟨⟨hheaders, rfl⟩, hread⟩
  have hentries : entries first = [(addressKey, server.address.text.toList),
      (listenPortKey, (toString server.endpointPort).toList), (privateKeyKey, pk),
      ("postup".toList, up), ("postdown".toList, down)] := by
    rw [hfirst']
    rfl
  have hnone := group_segments_fst ((interfaceName, first) :: rests.map fun rest ↦ (peerName, rest))
  rw [List.flatMap_cons] at hnone hsections
  rw [← hfirst', Option.map_some, Option.bind_some, Option.map_some, Option.bind_some, if_pos hnone,
    hsections, hentries]

end

/-! ## The configurations of a client -/

/-- A character that a reader takes as it is, and `sed` too. -/
def isCleanChar (c : Char) : Bool := c ≠ '\n' && c ≠ '#' && c ≠ '$' && !isBlank c

def IsClean (cs : List Char) : Prop := ∀ c ∈ cs, isCleanChar c = true

/-- The only peer of a client. -/
def hubSection (server : Server) : Section where
  name := peerName
  entries := [("publickey".toList, server.publicKey.toList),
    ("endpoint".toList, server.endpointHost.toList ++ (":".toList ++
      (toString server.endpointPort).toList)),
    ("allowedips".toList, server.subnet.text.toList),
    ("persistentkeepalive".toList, "25".toList)]

/-- The lines of this peer. -/
def hubLines (server : Server) : List (List Char) :=
  [[],
   "[Peer]".toList,
   "PublicKey = ".toList ++ server.publicKey.toList,
   "Endpoint = ".toList ++ (server.endpointHost.toList ++
     (":".toList ++ (toString server.endpointPort).toList)),
   "AllowedIPs = ".toList ++ server.subnet.text.toList,
   "PersistentKeepalive = ".toList ++ "25".toList]

section

variable {pk value : List Char} {server : Server} {client : Client}

theorem IsClean.not_mem (h : IsClean value) {c : Char} (hc : isCleanChar c = false) :
    c ∉ value := fun hmem ↦ by
  rw [h c hmem] at hc
  cases hc

theorem isClean_of_addressChars (h : ∀ c ∈ value, isAddressChar c = true) : IsClean value := by
  intro c hc
  have hne {d : Char} (hd : isAddressChar d = false) : c ≠ d := by
    rintro rfl
    rw [h c hc] at hd
    cases hd
  simp only [isCleanChar, isBlank, List.contains_cons, List.contains_nil, Bool.or_false,
    Bool.and_eq_true, decide_eq_true_eq, Bool.not_eq_true', Bool.or_eq_false_iff,
    beq_eq_false_iff_ne]
  exact ⟨⟨⟨hne (by decide), hne (by decide)⟩, hne (by decide)⟩, hne (by decide), hne (by decide),
    hne (by decide), hne (by decide), hne (by decide)⟩

/-- A field with a clean value. -/
theorem items_field {text name : List Char} (hkeyed : keyed text = some name)
    (hnewline : '\n' ∉ text) (hvalue : IsClean value) :
    items (lines (text ++ value)) = some [.entry name value] := by
  have hlines : lines (text ++ value) = [text ++ value] := by
    rw [lines_of_lead hnewline, lines_of_not_mem (hvalue.not_mem (by decide))]
    rfl
  have htrim : trim (uncomment value) = value := by
    rw [uncomment_of_not_mem (hvalue.not_mem (by decide)), trim_of_not_blank]
    intro c hc
    have hclean := hvalue c hc
    simp only [isCleanChar, Bool.and_eq_true, Bool.not_eq_true'] at hclean
    exact hclean.2
  rw [hlines, items_cons, item_keyed hkeyed, htrim]
  rfl

theorem isClean_endpoint (hhost : IsClean server.endpointHost.toList) :
    IsClean (server.endpointHost.toList ++
      (":".toList ++ (toString server.endpointPort).toList)) := by
  have hcolon : IsClean ":".toList := by
    intro c hc
    obtain rfl : c = ':' := by simpa using hc
    decide
  have hport : IsClean (toString server.endpointPort).toList :=
    isClean_of_addressChars fun _ ↦ isAddressChar_of_mem_int
  intro c hc
  simp only [List.mem_append] at hc
  rcases hc with hc | hc | hc
  · exact hhost c hc
  · exact hcolon c hc
  · exact hport c hc

/-- What the lines of the hub say. -/
theorem items_hubLines (hkey : IsClean server.publicKey.toList)
    (hhost : IsClean server.endpointHost.toList) : items ((hubLines server).flatMap lines) =
      some (headed (peerName, (hubSection server).entries.map fun e ↦ .entry e.1 e.2)) := by
  have hsubnet : IsClean server.subnet.text.toList :=
    isClean_of_addressChars fun _ ↦ isAddressChar_of_mem_network
  have h₁ : items (lines "[Peer]".toList) = some [.header peerName] := by decide +kernel
  have h₂ : items (lines ("PublicKey = ".toList ++ server.publicKey.toList)) =
      some [.entry "publickey".toList server.publicKey.toList] :=
    items_field (keyed_literal (by decide)) (not_mem_literal (by decide)) hkey
  have h₃ : items (lines ("Endpoint = ".toList ++ (server.endpointHost.toList ++
      (":".toList ++ (toString server.endpointPort).toList)))) = some [.entry "endpoint".toList
        (server.endpointHost.toList ++ (":".toList ++ (toString server.endpointPort).toList))] :=
    items_field (keyed_literal (by decide)) (not_mem_literal (by decide)) (isClean_endpoint hhost)
  have h₄ : items (lines ("AllowedIPs = ".toList ++ server.subnet.text.toList)) =
      some [.entry "allowedips".toList server.subnet.text.toList] :=
    items_field (keyed_literal (by decide)) (not_mem_literal (by decide)) hsubnet
  have h₅ : items (lines ("PersistentKeepalive = ".toList ++ "25".toList)) =
      some [.entry "persistentkeepalive".toList "25".toList] := by decide +kernel
  have h₆ : items (lines []) = some [] := rfl
  simp only [hubLines, hubSection, headed, List.flatMap_cons, List.flatMap_nil, items_append, h₁,
    h₂, h₃, h₄, h₅, h₆, items_nil, Option.bind_some, Option.map_some, List.map_cons, List.map_nil,
    List.nil_append, List.singleton_append]

/-- There is nothing for `sed` in them. -/
theorem edited_hubLines (hkey : IsClean server.publicKey.toList)
    (hhost : IsClean server.endpointHost.toList) :
    edited pk (hubLines server) = (hubLines server).flatMap lines := by
  have h₁ : '$' ∉ "[Peer]".toList := not_mem_literal (by decide)
  have h₂ : '$' ∉ "PublicKey = ".toList ++ server.publicKey.toList := by
    rw [List.mem_append, not_or]
    exact ⟨not_mem_literal (by decide), hkey.not_mem (by decide)⟩
  have h₃ : '$' ∉ "Endpoint = ".toList ++ (server.endpointHost.toList ++
      (":".toList ++ (toString server.endpointPort).toList)) := by
    rw [List.mem_append, not_or]
    exact ⟨not_mem_literal (by decide), (isClean_endpoint hhost).not_mem (by decide)⟩
  have h₄ : '$' ∉ "AllowedIPs = ".toList ++ server.subnet.text.toList := by
    rw [List.mem_append, not_or]
    exact ⟨not_mem_literal (by decide), fun hmem ↦
      absurd (isAddressChar_of_mem_network hmem) (by decide)⟩
  have h₅ : '$' ∉ "PersistentKeepalive = ".toList ++ "25".toList := by
    rw [List.mem_append, not_or]
    exact ⟨not_mem_literal (by decide), not_mem_literal (by decide)⟩
  have hnil : edited pk [] = [] := rfl
  rw [hubLines, edited_cons List.not_mem_nil, edited_cons h₁, edited_cons h₂, edited_cons h₃,
    edited_cons h₄, edited_cons h₅, hnil]
  simp only [List.flatMap_cons, List.flatMap_nil]

theorem items_interface : items (lines "[Interface]".toList) = some [.header interfaceName] := by
  decide +kernel

theorem items_address (client : Client) :
    items (lines ("Address = ".toList ++ client.addressText.toList)) =
      some [.entry addressKey client.addressText.toList] :=
  items_field (keyed_literal (by decide)) (not_mem_literal (by decide))
    (isClean_of_addressChars (addressText_chars client))

/-- An interface with these two entries, before the hub. -/
theorem sections_of_items {is : List Item} (e e' : List Char × List Char)
    (h : is = headed (interfaceName, [.entry e.1 e.2, .entry e'.1 e'.2]) ++
      headed (peerName, (hubSection server).entries.map fun e ↦ .entry e.1 e.2)) :
    (if (group is).1 = [] then some (group is).2 else none) =
      some [⟨interfaceName, [e, e']⟩, hubSection server] := by
  simp only [h, headed, hubSection, List.map_cons, List.map_nil, List.cons_append, List.nil_append,
    group, if_true]

/-- What `provision_client` leaves on a host. -/
theorem parse_substitute_spoke (hpk : ReadableKey pk) (hkey : IsClean server.publicKey.toList)
    (hhost : IsClean server.endpointHost.toList) :
    parse (substitute pk (renderClientConfig client server).toList) =
      some [⟨interfaceName, [(addressKey, client.addressText.toList), (privateKeyKey, pk)]⟩,
        hubSection server] := by
  have hlines : clientConfigLines client server = "[Interface]".toList ::
      ("Address = ".toList ++ client.addressText.toList) ::
        "PrivateKey = $(cat /etc/wireguard/privatekey)".toList :: hubLines server := by
    have hlast : "PersistentKeepalive = 25" = "PersistentKeepalive = " ++ "25" := rfl
    rw [clientConfigLines, hubLines, hlast, String.toList_append]
  have h₁ : '$' ∉ "[Interface]".toList := not_mem_literal (by decide)
  have h₂ : '$' ∉ "Address = ".toList ++ client.addressText.toList := by
    rw [List.mem_append, not_or]
    exact ⟨not_mem_literal (by decide), fun hmem ↦
      absurd (addressText_chars client _ hmem) (by decide)⟩
  rw [renderClientConfig_unlines, hlines, parse_substitute hpk.1, edited_cons h₁, edited_cons h₂,
    edited_privateKey, edited_hubLines hkey hhost, items_append, items_append, items_cons,
    item_privateKey hpk, items_hubLines hkey hhost, items_interface, items_address]
  exact sections_of_items (addressKey, client.addressText.toList) (privateKeyKey, pk) rfl

theorem hubPeerSection_unlines (server : Server) :
    (hubPeerSection server).toList = unlines (hubLines server) := by
  have h₁ : "\n[Peer]\nPublicKey = " = "\n" ++ "[Peer]" ++ "\n" ++ "PublicKey = " := rfl
  have h₂ : "\nAllowedIPs = " = "\n" ++ "AllowedIPs = " := rfl
  have h₃ : "PersistentKeepalive = 25\n" = "PersistentKeepalive = " ++ "25" ++ "\n" := rfl
  have h₄ : "\n".toList = ['\n'] := rfl
  have h₅ : "\nEndpoint = " = "\n" ++ "Endpoint = " := rfl
  unfold hubPeerSection hubLines unlines
  simp only [-String.reduceAppend, -String.reduceToList, h₁, h₂, h₃, toString_string,
    String.toList_append, h₄, List.flatMap_cons, List.flatMap_nil, List.append_assoc,
    List.append_nil, List.nil_append]

/-- What the operator of a manual client is given. -/
theorem parse_manual {privateKey text : String} (hpk : ReadableKey privateKey.toList)
    (hkey : IsClean server.publicKey.toList) (hhost : IsClean server.endpointHost.toList)
    (h : renderManualClientConfig client server privateKey = some text) :
    parse text.toList = some [⟨interfaceName, [(privateKeyKey, privateKey.toList),
      (addressKey, client.addressText.toList)]⟩, hubSection server] := by
  unfold renderManualClientConfig at h
  split at h
  · cases h
  · cases h
    have hlines : (s!"[Interface]\nPrivateKey = {privateKey}\nAddress = {client.addressText}\n" ++
        hubPeerSection server).toList = unlines ("[Interface]".toList ::
          ("PrivateKey = ".toList ++ privateKey.toList) ::
            ("Address = ".toList ++ client.addressText.toList) :: hubLines server) := by
      have h₁ : "[Interface]\nPrivateKey = " = "[Interface]" ++ "\n" ++ "PrivateKey = " := rfl
      have h₂ : "\nAddress = " = "\n" ++ "Address = " := rfl
      have h₃ : "\n".toList = ['\n'] := rfl
      rw [String.toList_append, hubPeerSection_unlines]
      unfold unlines
      simp only [-String.reduceAppend, -String.reduceToList, h₁, h₂, toString_string,
        String.toList_append, h₃, List.flatMap_cons, List.append_assoc]
    have hone : lines ("PrivateKey = ".toList ++ privateKey.toList) =
        ["PrivateKey = ".toList ++ privateKey.toList] := by
      rw [lines_of_lead (not_mem_literal (by decide)), lines_of_not_mem hpk.1]
      rfl
    rw [hlines, parse_unlines]
    simp only [List.flatMap_cons, hone, items_append, items_interface, items_cons, items_nil,
      item_privateKey hpk, items_address, items_hubLines hkey hhost, Option.bind_some,
      Option.map_some]
    exact sections_of_items (privateKeyKey, privateKey.toList)
      (addressKey, client.addressText.toList) rfl

/-- What an enrolled host is given: the key is loaded when the interface is up. -/
theorem parse_enrolled (hkey : IsClean server.publicKey.toList)
    (hhost : IsClean server.endpointHost.toList) :
    parse (renderEnrolledClientConfig client server).toList =
      some [⟨interfaceName, [(addressKey, client.addressText.toList),
        ("postup".toList, "wg set %i private-key /etc/wireguard/privatekey".toList)]⟩,
        hubSection server] := by
  have hlines : (renderEnrolledClientConfig client server).toList = unlines
      ("[Interface]".toList :: ("Address = ".toList ++ client.addressText.toList) ::
        "PostUp = wg set %i private-key /etc/wireguard/privatekey".toList :: hubLines server) := by
    have h₁ : "[Interface]\nAddress = " = "[Interface]" ++ "\n" ++ "Address = " := rfl
    have h₂ : "PostUp = wg set %i private-key /etc/wireguard/privatekey\n" =
        "PostUp = wg set %i private-key /etc/wireguard/privatekey" ++ "\n" := rfl
    have h₃ : "\n".toList = ['\n'] := rfl
    unfold renderEnrolledClientConfig
    rw [String.toList_append, hubPeerSection_unlines]
    unfold unlines
    simp only [-String.reduceAppend, -String.reduceToList, h₁, h₂, toString_string,
      String.toList_append, h₃, List.flatMap_cons, List.append_assoc]
  have hpostup : items (lines "PostUp = wg set %i private-key /etc/wireguard/privatekey".toList) =
      some [.entry "postup".toList
        "wg set %i private-key /etc/wireguard/privatekey".toList] := by decide +kernel
  rw [hlines, parse_unlines]
  simp only [List.flatMap_cons, items_append, items_interface, hpostup, items_address,
    items_hubLines hkey hhost, Option.bind_some, Option.map_some]
  exact sections_of_items (addressKey, client.addressText.toList)
    ("postup".toList, "wg set %i private-key /etc/wireguard/privatekey".toList) rfl

end

/-! ## What a job brings up -/

/-- The characters of base64. -/
def isKeyChar (c : Char) : Bool := c.isAlphanum || c = '+' || c = '/' || c = '='

def IsKeyText (pk : List Char) : Prop := ∀ c ∈ pk, isKeyChar c = true

instance (pk : List Char) : Decidable (IsKeyText pk) :=
  decidable_of_iff (pk.all isKeyChar = true) List.all_eq_true

section

variable {pk : List Char}

theorem IsKeyText.ne (h : IsKeyText pk) {c d : Char} (hc : c ∈ pk) (hd : isKeyChar d = false) :
    c ≠ d := by
  rintro rfl
  rw [h c hc] at hd
  cases hd

theorem IsKeyText.isPlainKey (h : IsKeyText pk) : isPlainKey pk := by
  simp only [Host.isPlainKey, List.all_eq_true, Bool.and_eq_true, decide_eq_true_eq]
  intro c hc
  exact ⟨⟨⟨h.ne hc (by decide), h.ne hc (by decide)⟩, h.ne hc (by decide)⟩, h.ne hc (by decide)⟩

theorem IsKeyText.readable (h : IsKeyText pk) : ReadableKey pk := by
  refine ⟨fun hmem ↦ h.ne hmem (by decide) rfl, fun hmem ↦ h.ne hmem (by decide) rfl,
    trim_of_not_blank fun c hc ↦ ?_⟩
  simp only [isBlank, List.contains_cons, List.contains_nil, Bool.or_false, Bool.or_eq_false_iff,
    beq_eq_false_iff_ne]
  exact ⟨h.ne hc (by decide), h.ne hc (by decide), h.ne hc (by decide), h.ne hc (by decide),
    h.ne hc (by decide)⟩

/-- The fields of the rows are read back as they are. -/
def Job.Readable : Job → Prop
  | .provisionServer hub | .reconfigureServer hub =>
    ∀ peer ∈ hub.clients, PeerReadable peer ∧ '$' ∉ peer.publicKey.toList
  | .provisionClient spoke =>
    IsClean spoke.server.publicKey.toList ∧ IsClean spoke.server.endpointHost.toList

/-- A configuration says what the rows of the job say, and has this private key. -/
def Job.SaysWith (pk text : List Char) : Job → Prop
  | .provisionServer hub | .reconfigureServer hub => ∃ up down, parse text =
      some (⟨interfaceName, [(addressKey, hub.server.address.text.toList),
        (listenPortKey, (toString hub.server.endpointPort).toList), (privateKeyKey, pk),
        ("postup".toList, up), ("postdown".toList, down)]⟩ :: hub.clients.map peerSection)
  | .provisionClient spoke => parse text = some [⟨interfaceName,
      [(addressKey, spoke.client.addressText.toList), (privateKeyKey, pk)]⟩,
        hubSection spoke.server]

theorem saysWith_substitute {job : Job} (hpk : ReadableKey pk) (hread : job.Readable) :
    job.SaysWith pk (substitute pk job.conf.toList) := by
  cases job with
  | provisionServer hub | reconfigureServer hub =>
    exact parse_substitute_hub hub.plain hpk (fun peer hpeer ↦ (hread peer hpeer).1)
      fun peer hpeer ↦ (hread peer hpeer).2
  | provisionClient spoke => exact parse_substitute_spoke hpk hread.1 hread.2

/-- **What a job brings up.**  Whatever earlier runs have left on a host, wherever they were cut,
and whatever runs are halted on it now: `provision_server` and `provision_client` get to their end
there, and so does `reconfigure_server` after one of them, if nothing disturbs them.  Then the
interface is up with a configuration that says what the rows say and has the private key of the
host, which is the one that was there, if there was one; the same configuration is on the disk, for
root only, and the template is gone; what the job returns is the public key that belongs to it; and
no other interface has been touched. -/
theorem job_brings_up {programs : Programs} {input : List Char} {c : System} {i : ℕ} {job : Job}
    (hfree : c.proc i = none) (hready : Ready job c.shared) (hread : job.Readable)
    (hinput : input ≠ []) (hpk : IsKeyText (stripNewlines (c.shared.keyAfter input)))
    (hloads : programs.loads
      (substitute (stripNewlines (c.shared.keyAfter input)) job.conf.toList)) :
    ∃ n c' p text, run programs c ((i, .start job) :: List.replicate n (i, .step input)) = some c' ∧
      c'.proc i = some p ∧ p.ops = [] ∧ Settled job c'.shared ∧
      c'.shared.link job.interface = some text ∧
      job.SaysWith (stripNewlines c'.shared.key) text ∧
      c'.shared.key = c.shared.keyAfter input ∧
      (job.provisions → p.publicKey =
        some (PyStr.strip (String.ofList (programs.pubkey c'.shared.key)))) ∧
      SameElsewhere job.interface c.shared c'.shared := by
  obtain ⟨n, c', p, hrun, hproc, hend, hsettled, hkey, hrest⟩ :=
    job_settles hfree hready hinput hpk.isPlainKey hloads
  have hpk' : ReadableKey (stripNewlines c'.shared.key) := by
    rw [hkey]
    exact hpk.readable
  exact ⟨n, c', p, _, hrun, hproc, hend, hsettled, hsettled.up, saysWith_substitute hpk' hread,
    hkey, hrest⟩

/-- The first job on a fresh host. -/
theorem job_brings_up_freshHost : ∃ n c' p text, run examplePrograms freshHost.idle
      ((0, .start exampleJob) :: List.replicate n (0, .step exampleKey)) = some c' ∧
    c'.proc 0 = some p ∧ p.ops = [] ∧ Settled exampleJob c'.shared ∧
    c'.shared.link "wg0" = some text ∧
    exampleJob.SaysWith "sHi1+D7IVZqKKIzTIwyf1+EqqKb/lrap/8pdv4nHsUk=".toList text ∧
    p.publicKey = some "XKYRH6wSqQvGDHvxqHycFiqPjE+vgr2FbZSoaS8Pv20=" := by
  have hinput : exampleKey ≠ [] := by decide +kernel
  have hread : exampleJob.Readable := by rintro _ ⟨⟩
  have hpk : IsKeyText (stripNewlines (freshHost.keyAfter exampleKey)) := by decide +kernel
  obtain ⟨n, c', p, text, hrun, hproc, hend, hsettled, hlink, hsays, hkey, hpublic, -⟩ :=
    @job_brings_up examplePrograms exampleKey freshHost.idle 0 exampleJob rfl (.inl rfl) hread
      hinput hpk rfl
  have hstrip : stripNewlines (freshHost.keyAfter exampleKey) =
      "sHi1+D7IVZqKKIzTIwyf1+EqqKb/lrap/8pdv4nHsUk=".toList := by decide +kernel
  have hpublic' : PyStr.strip (String.ofList (examplePrograms.pubkey (freshHost.keyAfter
      exampleKey))) = "XKYRH6wSqQvGDHvxqHycFiqPjE+vgr2FbZSoaS8Pv20=" := by decide +kernel
  have hkey' : c'.shared.key = freshHost.keyAfter exampleKey := hkey
  rw [hkey', hstrip] at hsays
  rw [hkey', hpublic'] at hpublic
  exact ⟨n, c', p, text, hrun, hproc, hend, hsettled, hlink, hsays, hpublic rfl⟩

end

/-! ## The two ends of a tunnel -/

/-- The value of the first entry with this key. -/
def value? (s : Section) (key : List Char) : Option (List Char) :=
  (s.entries.find? fun e ↦ e.1 = key).map Prod.snd

theorem value?_self {name key value : List Char} {es : List (List Char × List Char)} :
    value? ⟨name, (key, value) :: es⟩ key = some value := by simp [value?]

theorem value?_of_ne {name key key' value : List Char} {es : List (List Char × List Char)}
    (h : key' ≠ key) : value? ⟨name, (key', value) :: es⟩ key = value? ⟨name, es⟩ key := by
  simp [value?, h]

/-- A configuration that a client of a hub can come to have: the one that `provision_client` writes
and `sed` edits, the one that is shown to the operator, or the one of an enrolled host.  `pk` is the
private key on the client's side. -/
inductive ClientText (client : Client) (server : Server) (pk : List Char) : List Char → Prop
  | provisioned :
    ClientText client server pk (substitute pk (renderClientConfig client server).toList)
  | manual (text : String)
    (h : renderManualClientConfig client server (String.ofList pk) = some text) :
    ClientText client server pk text.toList
  | enrolled : ClientText client server pk (renderEnrolledClientConfig client server).toList

section

variable {server : Server} {client : Client} {clients : List Client} {pk hubPk text : List Char}

/-- Whichever of the three it is, it has one peer, the hub, and says the client's address. -/
theorem parse_clientText (h : ClientText client server pk text) (hpk : ReadableKey pk)
    (hkey : IsClean server.publicKey.toList) (hhost : IsClean server.endpointHost.toList) :
    ∃ own, parse text = some [own, hubSection server] ∧
      value? own addressKey = some client.addressText.toList ∧
      (value? own privateKeyKey = some pk ∨ value? own "postup".toList =
        some "wg set %i private-key /etc/wireguard/privatekey".toList) := by
  have h₁ : addressKey ≠ privateKeyKey := by decide +kernel
  have h₂ : addressKey ≠ "postup".toList := by decide +kernel
  cases h with
  | provisioned =>
    exact ⟨_, parse_substitute_spoke hpk hkey hhost, value?_self,
      .inl ((value?_of_ne h₁).trans value?_self)⟩
  | manual text h =>
    have hmanual := parse_manual (by rwa [String.toList_ofList]) hkey hhost h
    rw [String.toList_ofList] at hmanual
    exact ⟨_, hmanual, (value?_of_ne h₁.symm).trans value?_self, .inl value?_self⟩
  | enrolled =>
    exact ⟨_, parse_enrolled hkey hhost, value?_self,
      .inr ((value?_of_ne h₂).trans value?_self)⟩

/-- **The two ends of a tunnel agree.**  The configuration that a hub is brought up with and the one
of any of its clients, in whichever way the client has come to it, fit together: the hub has a peer
with the client's public key that is allowed just the address the client gives itself, and the
client has one peer, with the hub's public key, at the hub's end point with the port the hub listens
on, for the hub's subnet. -/
theorem tunnel_ends_agree (hclient : client ∈ clients) (hplain : isPlainName server.interface)
    (hpeers : ∀ peer ∈ clients, PeerReadable peer ∧ '$' ∉ peer.publicKey.toList)
    (hkey : IsClean server.publicKey.toList) (hhost : IsClean server.endpointHost.toList)
    (hhub : ReadableKey hubPk) (hpk : ReadableKey pk) (htext : ClientText client server pk text) :
    ∃ hub peers own peer,
      parse (substitute hubPk (renderServerConfig server clients).toList) = some (hub :: peers) ∧
      parse text = some [own, peer] ∧
      (∃ s ∈ peers, value? s "publickey".toList = some client.publicKey.toList ∧
        value? s "allowedips".toList = value? own addressKey) ∧
      value? hub privateKeyKey = some hubPk ∧
      value? peer "publickey".toList = some server.publicKey.toList ∧
      value? peer "endpoint".toList = (value? hub listenPortKey).map (fun port ↦
        server.endpointHost.toList ++ (":".toList ++ port)) ∧
      value? peer "allowedips".toList = some server.subnet.text.toList := by
  obtain ⟨up, down, hparse⟩ := parse_substitute_hub hplain hhub (fun peer h ↦ (hpeers peer h).1)
    fun peer h ↦ (hpeers peer h).2
  obtain ⟨own, hown, haddress, -⟩ := parse_clientText htext hpk hkey hhost
  have h₁ : "publickey".toList ≠ "allowedips".toList := by decide +kernel
  have h₂ : addressKey ≠ listenPortKey := by decide +kernel
  have h₃ : addressKey ≠ privateKeyKey := by decide +kernel
  have h₄ : listenPortKey ≠ privateKeyKey := by decide +kernel
  have h₅ : "publickey".toList ≠ "endpoint".toList := by decide +kernel
  have h₆ : "endpoint".toList ≠ "allowedips".toList := by decide +kernel
  refine ⟨_, _, own, hubSection server, hparse, hown,
    ⟨peerSection client, List.mem_map_of_mem hclient, value?_self, ?_⟩, ?_, value?_self, ?_, ?_⟩
  · rw [haddress, peerSection, value?_of_ne h₁, value?_self]
  · rw [value?_of_ne h₃, value?_of_ne h₄, value?_self]
  · rw [value?_of_ne h₂, value?_self, hubSection, value?_of_ne h₅, value?_self, Option.map_some]
  · rw [hubSection, value?_of_ne h₁, value?_of_ne h₆, value?_self]

/-- A client of the example hub. -/
def exampleSpoke : Client where
  id := 1
  name := "laptop"
  serverId := 1
  address := some ⟨168361986, 32⟩
  publicKey := "XKYRH6wSqQvGDHvxqHycFiqPjE+vgr2FbZSoaS8Pv20="
  createdAt := 0

/-- The hub, and this client as an enrolled host. -/
theorem tunnel_ends_agree_enrolled : ∃ hub peers own peer,
    parse (substitute (stripNewlines exampleKey)
      (renderServerConfig exampleHub [exampleSpoke]).toList) = some (hub :: peers) ∧
    parse (renderEnrolledClientConfig exampleSpoke exampleHub).toList = some [own, peer] ∧
    ∃ s ∈ peers, value? s "publickey".toList = some exampleSpoke.publicKey.toList ∧
      value? s "allowedips".toList = value? own addressKey := by
  have hpeers : ∀ peer ∈ [exampleSpoke], PeerReadable peer ∧ '$' ∉ peer.publicKey.toList := by
    decide +kernel
  have hempty : IsClean exampleHub.publicKey.toList := by rintro c ⟨⟩
  have hhost : IsClean exampleHub.endpointHost.toList :=
    List.all_eq_true.mp (by decide +kernel)
  have hhub : ReadableKey (stripNewlines exampleKey) := by
    unfold ReadableKey
    decide +kernel
  obtain ⟨hub, peers, own, peer, hparse, hown, hagree, -⟩ := tunnel_ends_agree
    (List.mem_singleton_self exampleSpoke) (by decide +kernel) hpeers hempty hhost hhub hhub
    .enrolled
  exact ⟨hub, peers, own, peer, hparse, hown, hagree⟩

end

end WgManager.Host
