import WgManager.Wireguard
import WgManager.Lib.PosixSh

/-!
# Writing a configuration on a host

`_write_server_config` and `provision_client` write a configuration with a command of the same form:
`sh -c` with a script between single quotes, which is `cat` with a here-document, and the rendered
text is its body.  `SSHRunner.sudo` puts `sudo -n` in front, and the login shell of the host reads
the whole.

The text passes two shells, and either of them can be led astray: a single quote in a field ends the
script for the outer one, and a line `WGEOF` ends the here-document for the inner one.
`writesExactly_iff` says that these (and the character NUL) are the only ways in which something
else than the intended write is run; `write_commands_exact_iff` says which fields can bring them in.
-/

set_option autoImplicit false

namespace WgManager

open Lines PosixSh

/-! ## The commands -/

/-- What `SSHRunner.sudo` runs. -/
def sudoCommand (cmd : String) : String := s!"sudo -n {cmd}"

/-- The command that writes a rendered text to the template file. -/
def writeTemplateCommand (conf : String) : String :=
  "sh -c 'cat > /tmp/wg0.conf.tpl <<\"WGEOF\"\n" ++ conf ++ "WGEOF'"

/-- The first command of `_write_server_config`. -/
def writeServerConfigCommand (server : Server) (clients : List Client) : String :=
  sudoCommand (writeTemplateCommand (renderServerConfig server clients))

/-- The command of `provision_client` that writes the client's configuration. -/
def provisionClientCommand (client : Client) (server : Server) : String :=
  sudoCommand (writeTemplateCommand (renderClientConfig client server))

/-- The shell runs `sudo -n sh -c S` and nothing else, and the script `S` is one `cat` with one
here-document whose body is `conf`. -/
def WritesExactly (command conf : String) : Prop :=
  ∃ script, simpleCommand command.toList =
      some ["sudo".toList, "-n".toList, "sh".toList, "-c".toList, script] ∧
    readScript script =
      some ⟨["cat".toList], [.out "/tmp/wg0.conf.tpl".toList, .here conf.toList]⟩

/-! ## What the shells make of it -/

/-- The delimiter of the here-documents. -/
def marker : List Char := "WGEOF".toList

/-- The first line of the script. -/
def catLine : List Char := "cat > /tmp/wg0.conf.tpl <<\"WGEOF\"".toList

/-- The script as it is meant to be. -/
def intendedScript (ls : List (List Char)) : List Char := catLine ++ '\n' :: (unlines ls ++ marker)

/-- What the lexer has read before the script. -/
def sudoTokens : List Token :=
  [.word "sudo".toList false, .word "-n".toList false, .word "sh".toList false,
    .word "-c".toList false]

theorem marker_eq : marker = ['W', 'G', 'E', 'O', 'F'] := String.toList_ofList

theorem sudo_front :
    "sudo -n sh -c ".toList.foldlM step {} = some ⟨sudoTokens, none, .unquoted⟩ := by
  decide +kernel

theorem catLine_tokens : tokenize catLine = some [.word "cat".toList false, .great,
    .word "/tmp/wg0.conf.tpl".toList false, .dless, .word marker true] := by
  decide +kernel

theorem sudoCommand_toList {conf : String} {ls : List (List Char)} (h : conf.toList = unlines ls) :
    (sudoCommand (writeTemplateCommand conf)).toList =
      "sudo -n sh -c ".toList ++ apostrophe :: (intendedScript ls ++ [apostrophe]) := by
  have h₁ : "sh -c 'cat > /tmp/wg0.conf.tpl <<\"WGEOF\"\n" =
      "sh -c " ++ "'" ++ "cat > /tmp/wg0.conf.tpl <<\"WGEOF\"" ++ "\n" := rfl
  have h₂ : "WGEOF'" = "WGEOF" ++ "'" := rfl
  have h₃ : "sudo -n sh -c " = "sudo -n " ++ "sh -c " := rfl
  have h₄ : "'".toList = [apostrophe] := rfl
  have h₅ : "\n".toList = ['\n'] := rfl
  unfold sudoCommand writeTemplateCommand intendedScript catLine marker
  simp only [-String.reduceAppend, -String.reduceToList, h₁, h₂, h₃, toString_string,
    String.toList_append, h, h₄, h₅, List.append_assoc, List.cons_append, List.nil_append]

/-- The quotes of the script are those of the configuration. -/
theorem count_intendedScript (ls : List (List Char)) :
    (intendedScript ls).count apostrophe = (unlines ls).count apostrophe := by
  have h₁ : catLine.count apostrophe = 0 := List.count_eq_zero.mpr (not_mem_literal (by decide))
  have h₂ : marker.count apostrophe = 0 := List.count_eq_zero.mpr (not_mem_literal (by decide))
  rw [intendedScript, List.count_append, List.count_cons_of_ne (by decide), List.count_append, h₁,
    h₂]
  omega

theorem nul_mem_intendedScript {ls : List (List Char)} :
    '\x00' ∈ intendedScript ls ↔ '\x00' ∈ unlines ls := by
  have h₁ : '\x00' ∉ catLine := not_mem_literal (by decide)
  have h₂ : '\x00' ∉ marker := not_mem_literal (by decide)
  simp [intendedScript, h₁, h₂]

/-- Without quotes in it, the script reaches the inner shell as it is. -/
theorem simpleCommand_intended {ls : List (List Char)} (hquote : apostrophe ∉ unlines ls)
    (hnul : '\x00' ∉ unlines ls) :
    simpleCommand ("sudo -n sh -c ".toList ++ apostrophe :: (intendedScript ls ++ [apostrophe])) =
      some ["sudo".toList, "-n".toList, "sh".toList, "-c".toList, intendedScript ls] := by
  have hquote' : apostrophe ∉ intendedScript ls := by
    rw [← List.count_eq_zero, count_intendedScript, List.count_eq_zero]
    exact hquote
  have hname (w : List Char) :
      commandName ["sudo".toList, "-n".toList, "sh".toList, "-c".toList, w] =
      true := by
    show commandName ["sudo".toList] = true
    decide +kernel
  have htokens := tokenize_quoted sudo_front hquote' (nul_mem_intendedScript.not.mpr hnul)
  simp only [simpleCommand, htokens, sudoTokens, Token.word?, List.cons_append, List.nil_append,
    List.mapM_cons, List.mapM_nil, Option.bind_eq_bind, Option.bind_some, Option.pure_def, hname,
    if_true]

/-- With quotes in it, it does not. -/
theorem not_writesExactly_of_quote {conf : String} {ls : List (List Char)}
    (hconf : conf.toList = unlines ls) (hquote : apostrophe ∈ unlines ls)
    (hnul : '\x00' ∉ unlines ls) :
    ¬WritesExactly (sudoCommand (writeTemplateCommand conf)) conf := by
  rintro ⟨script, hcommand, hscript⟩
  -- the script without its last letter still has all the quotes
  have hcut : intendedScript ls = (catLine ++ '\n' :: (unlines ls ++ "WGEO".toList)) ++ ['F'] := by
    have hmarker : marker = "WGEO".toList ++ ['F'] := by
      rw [marker_eq, String.toList_ofList]
      rfl
    rw [intendedScript, hmarker]
    simp only [List.append_assoc, List.cons_append]
  have hmem : apostrophe ∈ catLine ++ '\n' :: (unlines ls ++ "WGEO".toList) :=
    List.mem_append_right _ (List.mem_cons_of_mem _ (List.mem_append_left _ hquote))
  obtain ⟨a, b, hab, ha⟩ := List.eq_append_cons_of_mem hmem
  have hwhole : intendedScript ls = a ++ apostrophe :: (b ++ ['F']) := by
    rw [hcut, hab]
    simp only [List.append_assoc, List.cons_append]
  have hnula : '\x00' ∉ a := by
    intro hmem
    exact hnul (nul_mem_intendedScript.mp (by rw [hwhole]; exact List.mem_append_left _ hmem))
  rw [sudoCommand_toList hconf, hwhole] at hcommand
  obtain ⟨ts, hts, hquotes⟩ := quotes_of_simpleCommand hcommand
  have hlost := kept_of_quote sudo_front ha hnula (by decide) hts
  have hsudo : (sudoTokens.map Token.quotes).sum = 0 := by decide +kernel
  have hwords : (["sudo".toList, "-n".toList, "sh".toList, "-c".toList, script].map
      (List.count apostrophe)).sum = script.count apostrophe := by
    have h₁ : "sudo".toList.count apostrophe = 0 :=
      List.count_eq_zero.mpr (not_mem_literal (by decide))
    have h₂ : "-n".toList.count apostrophe = 0 :=
      List.count_eq_zero.mpr (not_mem_literal (by decide))
    have h₃ : "sh".toList.count apostrophe = 0 :=
      List.count_eq_zero.mpr (not_mem_literal (by decide))
    have h₄ : "-c".toList.count apostrophe = 0 :=
      List.count_eq_zero.mpr (not_mem_literal (by decide))
    simp only [List.map_cons, List.map_nil, List.sum_cons, List.sum_nil, h₁, h₂, h₃, h₄]
    omega
  -- the here-document alone has as many quotes as the text
  have hbody : conf.toList.count apostrophe ≤ script.count apostrophe :=
    count_of_readScript hscript (by simp)
  rw [← hwhole, count_intendedScript, hsudo, hquotes, hwords, ← hconf] at hlost
  omega

/-- **When the intended write is run.**  The shells run it just when the configuration has no single
quote, no NUL, and no line that is the delimiter. -/
theorem writesExactly_iff {conf : String} {ls : List (List Char)}
    (hconf : conf.toList = unlines ls) :
    WritesExactly (sudoCommand (writeTemplateCommand conf)) conf ↔
      apostrophe ∉ conf.toList ∧ '\x00' ∉ conf.toList ∧ marker ∉ ls.flatMap lines := by
  have hbody := readScript_here_iff catLine_tokens (by decide +kernel)
    (not_mem_literal (by decide)) (not_mem_literal (by decide)) ls
  rw [hconf]
  constructor
  · intro h
    have hnul : '\x00' ∉ unlines ls := by
      intro hmem
      obtain ⟨script, hcommand, -⟩ := h
      rw [sudoCommand_toList hconf, simpleCommand, tokenize_of_nul] at hcommand
      · cases hcommand
      · exact List.mem_append_right _ (List.mem_cons_of_mem _
          (List.mem_append_left _ (nul_mem_intendedScript.mpr hmem)))
    have hquote : apostrophe ∉ unlines ls := fun hmem ↦
      not_writesExactly_of_quote hconf hmem hnul h
    refine ⟨hquote, hnul, hbody.mp ?_⟩
    obtain ⟨script, hcommand, hscript⟩ := h
    rw [sudoCommand_toList hconf, simpleCommand_intended hquote hnul] at hcommand
    obtain rfl : intendedScript ls = script := by simpa using hcommand
    rw [hconf] at hscript
    exact hscript
  · rintro ⟨hquote, hnul, hmarker⟩
    refine ⟨intendedScript ls, ?_, ?_⟩
    · rw [sudoCommand_toList hconf, simpleCommand_intended hquote hnul]
    · rw [hconf]
      exact hbody.mpr hmarker

/-! ## Which fields can bring them in -/

/-- The characters the texts around the fields do not contain. -/
def Foreign (c : Char) : Prop := c = apostrophe ∨ c = '\x00'

theorem Foreign.ne_newline {c : Char} (h : Foreign c) : c ≠ '\n' := by
  rcases h with rfl | rfl <;> decide

theorem Foreign.not_mem_of_addressChars {c : Char} (h : Foreign c) {cs : List Char}
    (hcs : ∀ d ∈ cs, isAddressChar d = true) : c ∉ cs := by
  intro hmem
  have hc := hcs c hmem
  rcases h with rfl | rfl <;> exact absurd hc (by decide)

/-- A text around the fields, looked through once for both. -/
theorem Foreign.not_mem_of_text {c : Char} (h : Foreign c) {cs : List Char}
    (hcs : cs.all (fun d ↦ d ≠ apostrophe && d ≠ '\x00') = true) :
    c ∉ (String.ofList cs).toList := by
  rw [String.toList_ofList]
  intro hmem
  have hc := List.all_eq_true.mp hcs c hmem
  rcases h with rfl | rfl <;> simp at hc

theorem foreign_mem_forwardLine {c : Char} (h : Foreign c) {first second third : String}
    (h₁ : c ∉ first.toList) (h₂ : c ∉ second.toList) (h₃ : c ∉ third.toList) (server : Server) :
    c ∈ forwardLine first second third server ↔ c ∈ server.interface.toList := by
  have hsubnet : c ∉ server.subnet.text.toList :=
    h.not_mem_of_addressChars fun _ ↦ isAddressChar_of_mem_network
  have hend : c ∉ " -o eth0 -j MASQUERADE".toList :=
    h.not_mem_of_text (by decide)
  simp only [forwardLine, List.mem_append, h₁, h₂, h₃, hsubnet, hend, false_or, or_false, or_self]

theorem foreign_mem_interfaceLines {c : Char} (h : Foreign c) (server : Server) :
    (∃ l ∈ serverInterfaceLines server, c ∈ l) ↔ c ∈ server.interface.toList := by
  have haddress : c ∉ server.address.text.toList :=
    h.not_mem_of_addressChars fun _ ↦ isAddressChar_of_mem_interface
  have hport : c ∉ (toString server.endpointPort).toList :=
    h.not_mem_of_addressChars fun _ ↦ isAddressChar_of_mem_int
  have hup : c ∈ postUpLine server ↔ c ∈ server.interface.toList := by
    apply foreign_mem_forwardLine h <;> exact h.not_mem_of_text (by decide)
  have hdown : c ∈ postDownLine server ↔ c ∈ server.interface.toList := by
    apply foreign_mem_forwardLine h <;> exact h.not_mem_of_text (by decide)
  have h₁ : c ∉ "[Interface]".toList := h.not_mem_of_text (by decide)
  have h₂ : c ∉ "Address = ".toList := h.not_mem_of_text (by decide)
  have h₃ : c ∉ "ListenPort = ".toList := h.not_mem_of_text (by decide)
  have h₄ : c ∉ "PrivateKey = $(cat /etc/wireguard/privatekey)".toList :=
    h.not_mem_of_text (by decide)
  simp only [serverInterfaceLines, List.exists_mem_cons_iff, List.mem_append, haddress, hport, hup,
    hdown, h₁, h₂, h₃, h₄, List.not_mem_nil, false_and, exists_false, false_or, or_false, or_self]

theorem foreign_mem_peerLines {c : Char} (h : Foreign c) (peer : Client) :
    (∃ l ∈ serverPeerLines peer, c ∈ l) ↔ c ∈ peer.name.toList ∨ c ∈ peer.publicKey.toList := by
  have haddress : c ∉ peer.addressText.toList := h.not_mem_of_addressChars (addressText_chars peer)
  have h₁ : c ∉ "[Peer]".toList := h.not_mem_of_text (by decide)
  have h₂ : c ∉ "# ".toList := h.not_mem_of_text (by decide)
  have h₃ : c ∉ "PublicKey = ".toList := h.not_mem_of_text (by decide)
  have h₄ : c ∉ "AllowedIPs = ".toList := h.not_mem_of_text (by decide)
  simp only [serverPeerLines, List.exists_mem_cons_iff, List.mem_append, haddress, h₁, h₂, h₃, h₄,
    List.not_mem_nil, false_and, exists_false, false_or, or_false]

theorem foreign_mem_clientLines {c : Char} (h : Foreign c) (client : Client) (server : Server) :
    (∃ l ∈ clientConfigLines client server, c ∈ l) ↔
      c ∈ server.publicKey.toList ∨ c ∈ server.endpointHost.toList := by
  have haddress : c ∉ client.addressText.toList :=
    h.not_mem_of_addressChars (addressText_chars client)
  have hsubnet : c ∉ server.subnet.text.toList :=
    h.not_mem_of_addressChars fun _ ↦ isAddressChar_of_mem_network
  have hport : c ∉ (toString server.endpointPort).toList :=
    h.not_mem_of_addressChars fun _ ↦ isAddressChar_of_mem_int
  have h₁ : c ∉ "[Interface]".toList := h.not_mem_of_text (by decide)
  have h₂ : c ∉ "Address = ".toList := h.not_mem_of_text (by decide)
  have h₃ : c ∉ "PrivateKey = $(cat /etc/wireguard/privatekey)".toList :=
    h.not_mem_of_text (by decide)
  have h₄ : c ∉ "[Peer]".toList := h.not_mem_of_text (by decide)
  have h₅ : c ∉ "PublicKey = ".toList := h.not_mem_of_text (by decide)
  have h₆ : c ∉ "Endpoint = ".toList := h.not_mem_of_text (by decide)
  have h₇ : c ∉ ":".toList := h.not_mem_of_text (by decide)
  have h₈ : c ∉ "AllowedIPs = ".toList := h.not_mem_of_text (by decide)
  have h₉ : c ∉ "PersistentKeepalive = 25".toList :=
    h.not_mem_of_text (by decide)
  simp only [clientConfigLines, List.exists_mem_cons_iff, List.mem_append, haddress, hsubnet, hport,
    h₁, h₂, h₃, h₄, h₅, h₆, h₇, h₈, h₉, List.not_mem_nil, false_and, exists_false, false_or,
    or_false]

/-- A line with one field after a text that is no part of the delimiter. -/
theorem marker_mem_lines {B : List Char} {b : Char} (hB : '\n' ∉ B) (hb : b ∈ B) (hm : b ∉ marker)
    {y : List Char} (hy : '\n' ∉ y) : marker ∉ lines (B ++ y) := by
  rw [mem_lines_of_lead hB hb hm, lines_of_not_mem hy]
  exact List.not_mem_nil

theorem space_not_mem_marker : ' ' ∉ marker := not_mem_literal (by decide)

/-- A text that is written out, with a character that the delimiter does not have. -/
theorem marker_mem_literal {b : Char} {l : List Char} (hnewline : '\n' ∉ l) (hb : b ∈ l)
    (hm : b ∉ marker) : marker ∉ lines (String.ofList l).toList := by
  rw [lines_literal hnewline, List.mem_singleton, String.toList_ofList]
  rintro rfl
  exact hm hb

theorem marker_mem_forwardLine {first second third : String}
    (h₁ : '\n' ∉ first.toList ∧ ' ' ∈ first.toList)
    (h₂ : '\n' ∉ second.toList ∧ ' ' ∈ second.toList)
    (h₃ : '\n' ∉ third.toList ∧ ' ' ∈ third.toList) (server : Server) :
    marker ∈ lines (forwardLine first second third server) ↔
      marker ∈ (lines server.interface.toList).tail.dropLast := by
  have hend : '\n' ∉ server.subnet.text.toList ++ " -o eth0 -j MASQUERADE".toList := by
    rw [List.mem_append, not_or]
    exact ⟨newline_not_mem_of_addressChars fun _ ↦ isAddressChar_of_mem_network,
      not_mem_literal (by decide)⟩
  rw [forwardLine, mem_lines_of_lead h₁.1 h₁.2 space_not_mem_marker,
    mem_tail_lines_append h₂.1 h₂.2 space_not_mem_marker,
    mem_tail_lines_append h₃.1 h₃.2 space_not_mem_marker, lines_of_not_mem hend]
  simp

theorem marker_mem_interfaceLines (server : Server) :
    marker ∈ (serverInterfaceLines server).flatMap lines ↔
      marker ∈ (lines server.interface.toList).tail.dropLast := by
  have haddress := newline_not_mem_of_addressChars
    (fun _ ↦ isAddressChar_of_mem_interface (i := server.address))
  have hport := newline_not_mem_of_addressChars
    (fun _ ↦ isAddressChar_of_mem_int (n := server.endpointPort))
  have h₁ : marker ∉ lines "[Interface]".toList :=
    marker_mem_literal (b := '[') (by decide) (by decide) (not_mem_literal (by decide))
  have h₂ : marker ∉ lines ("Address = ".toList ++ server.address.text.toList) :=
    marker_mem_lines (b := ' ') (not_mem_literal (by decide)) (mem_literal (by decide))
      space_not_mem_marker haddress
  have h₃ : marker ∉ lines ("ListenPort = ".toList ++ (toString server.endpointPort).toList) :=
    marker_mem_lines (b := ' ') (not_mem_literal (by decide)) (mem_literal (by decide))
      space_not_mem_marker hport
  have h₄ : marker ∉ lines "PrivateKey = $(cat /etc/wireguard/privatekey)".toList :=
    marker_mem_literal (b := ' ') (by decide) (by decide) space_not_mem_marker
  have hup : marker ∈ lines (postUpLine server) ↔ _ := marker_mem_forwardLine
    ⟨not_mem_literal (by decide), mem_literal (by decide)⟩
    ⟨not_mem_literal (by decide), mem_literal (by decide)⟩
    ⟨not_mem_literal (by decide), mem_literal (by decide)⟩ server
  have hdown : marker ∈ lines (postDownLine server) ↔ _ := marker_mem_forwardLine
    ⟨not_mem_literal (by decide), mem_literal (by decide)⟩
    ⟨not_mem_literal (by decide), mem_literal (by decide)⟩
    ⟨not_mem_literal (by decide), mem_literal (by decide)⟩ server
  simp only [serverInterfaceLines, List.flatMap_cons, List.flatMap_nil, List.mem_append, h₁, h₂, h₃,
    h₄, hup, hdown, List.not_mem_nil, false_or, or_false, or_self]

theorem marker_mem_peerLines (peer : Client) :
    marker ∈ (serverPeerLines peer).flatMap lines ↔
      marker ∈ (lines peer.name.toList).tail ∨ marker ∈ (lines peer.publicKey.toList).tail := by
  have haddress := newline_not_mem_of_addressChars (addressText_chars peer)
  have h₁ : marker ∉ lines [] := by
    rw [lines_nil, marker_eq]
    decide
  have h₂ : marker ∉ lines "[Peer]".toList :=
    marker_mem_literal (b := '[') (by decide) (by decide) (not_mem_literal (by decide))
  have h₃ : marker ∈ lines ("# ".toList ++ peer.name.toList) ↔ _ :=
    mem_lines_of_lead (b := ' ') (not_mem_literal (by decide)) (mem_literal (by decide))
      space_not_mem_marker
  have h₄ : marker ∈ lines ("PublicKey = ".toList ++ peer.publicKey.toList) ↔ _ :=
    mem_lines_of_lead (b := ' ') (not_mem_literal (by decide)) (mem_literal (by decide))
      space_not_mem_marker
  have h₅ : marker ∉ lines ("AllowedIPs = ".toList ++ peer.addressText.toList) :=
    marker_mem_lines (b := ' ') (not_mem_literal (by decide)) (mem_literal (by decide))
      space_not_mem_marker haddress
  simp only [serverPeerLines, List.flatMap_cons, List.flatMap_nil, List.mem_append, h₁, h₂, h₃, h₄,
    h₅, List.not_mem_nil, false_or, or_false]

theorem marker_mem_clientLines (client : Client) (server : Server) :
    marker ∈ (clientConfigLines client server).flatMap lines ↔
      marker ∈ (lines server.publicKey.toList).tail ∨
        marker ∈ (lines server.endpointHost.toList).tail.dropLast := by
  have haddress := newline_not_mem_of_addressChars (addressText_chars client)
  have hsubnet := newline_not_mem_of_addressChars
    (fun _ ↦ isAddressChar_of_mem_network (n := server.subnet))
  have hport := newline_not_mem_of_addressChars
    (fun _ ↦ isAddressChar_of_mem_int (n := server.endpointPort))
  have h₁ : marker ∉ lines "[Interface]".toList :=
    marker_mem_literal (b := '[') (by decide) (by decide) (not_mem_literal (by decide))
  have h₂ : marker ∉ lines ("Address = ".toList ++ client.addressText.toList) :=
    marker_mem_lines (b := ' ') (not_mem_literal (by decide)) (mem_literal (by decide))
      space_not_mem_marker haddress
  have h₃ : marker ∉ lines "PrivateKey = $(cat /etc/wireguard/privatekey)".toList :=
    marker_mem_literal (b := ' ') (by decide) (by decide) space_not_mem_marker
  have h₄ : marker ∉ lines [] := by
    rw [lines_nil, marker_eq]
    decide
  have h₅ : marker ∉ lines "[Peer]".toList :=
    marker_mem_literal (b := '[') (by decide) (by decide) (not_mem_literal (by decide))
  have h₆ : marker ∈ lines ("PublicKey = ".toList ++ server.publicKey.toList) ↔ _ :=
    mem_lines_of_lead (b := ' ') (not_mem_literal (by decide)) (mem_literal (by decide))
      space_not_mem_marker
  have h₇ : marker ∈ lines ("Endpoint = ".toList ++ (server.endpointHost.toList ++
      (":".toList ++ (toString server.endpointPort).toList))) ↔
        marker ∈ (lines server.endpointHost.toList).tail.dropLast := by
    have hnewline : '\n' ∉ ":".toList := not_mem_literal (by decide)
    have hcolon : ':' ∈ ":".toList := mem_literal (by decide)
    have hmarker : ':' ∉ marker := not_mem_literal (by decide)
    rw [mem_lines_of_lead (b := ' ') (not_mem_literal (by decide)) (mem_literal (by decide))
      space_not_mem_marker, mem_tail_lines_append hnewline hcolon hmarker,
      lines_of_not_mem hport]
    simp
  have h₈ : marker ∉ lines ("AllowedIPs = ".toList ++ server.subnet.text.toList) :=
    marker_mem_lines (b := ' ') (not_mem_literal (by decide)) (mem_literal (by decide))
      space_not_mem_marker hsubnet
  have h₉ : marker ∉ lines "PersistentKeepalive = 25".toList :=
    marker_mem_literal (b := ' ') (by decide) (by decide) space_not_mem_marker
  simp only [clientConfigLines, List.flatMap_cons, List.flatMap_nil, List.mem_append, h₁, h₂, h₃,
    h₄,
    h₅, h₆, h₇, h₈, h₉, List.not_mem_nil, false_or, or_false]

/-! ## The fields, and the commands they are safe in -/

/-- A field without single quotes and without the character NUL. -/
def QuoteFree (text : String) : Prop := apostrophe ∉ text.toList ∧ '\x00' ∉ text.toList

instance (text : String) : Decidable (QuoteFree text) := inferInstanceAs (Decidable (_ ∧ _))

/-- A client's name and key are safe in the configuration of its hub: none of the lines that their
line breaks begin is the delimiter. -/
def PeerSafe (peer : Client) : Prop :=
  QuoteFree peer.name ∧ QuoteFree peer.publicKey ∧ marker ∉ (lines peer.name.toList).tail ∧
    marker ∉ (lines peer.publicKey.toList).tail

/-- A hub's interface name and the fields of its clients are.  The interface name stands in the
middle of a line, so that its last line is followed by more text. -/
def HubConfigSafe (server : Server) (clients : List Client) : Prop :=
  QuoteFree server.interface ∧ marker ∉ (lines server.interface.toList).tail.dropLast ∧
    ∀ peer ∈ clients, PeerSafe peer

/-- The fields of a hub are safe in the configuration of a client. -/
def ClientConfigSafe (server : Server) : Prop :=
  QuoteFree server.publicKey ∧ QuoteFree server.endpointHost ∧
    marker ∉ (lines server.publicKey.toList).tail ∧
    marker ∉ (lines server.endpointHost.toList).tail.dropLast

instance (peer : Client) : Decidable (PeerSafe peer) := inferInstanceAs (Decidable (_ ∧ _ ∧ _ ∧ _))

instance (server : Server) (clients : List Client) : Decidable (HubConfigSafe server clients) :=
  inferInstanceAs (Decidable (_ ∧ _ ∧ ∀ peer ∈ clients, PeerSafe peer))

instance (server : Server) : Decidable (ClientConfigSafe server) :=
  inferInstanceAs (Decidable (_ ∧ _ ∧ _ ∧ _))

/-- A foreign character of a hub's configuration comes from one of three fields. -/
theorem foreign_mem_serverConfig {c : Char} (h : Foreign c) (server : Server)
    (clients : List Client) : c ∈ (renderServerConfig server clients).toList ↔
      c ∈ server.interface.toList ∨
        ∃ peer ∈ clients, c ∈ peer.name.toList ∨ c ∈ peer.publicKey.toList := by
  rw [renderServerConfig_unlines, mem_unlines h.ne_newline, ← foreign_mem_interfaceLines h server]
  simp only [List.mem_append, or_and_right, exists_or, List.mem_flatMap, ← foreign_mem_peerLines h]
  constructor
  · rintro (hl | ⟨l, ⟨peer, hpeer, hl⟩, hc⟩)
    · exact .inl hl
    · exact .inr ⟨peer, hpeer, l, hl, hc⟩
  · rintro (hl | ⟨peer, hpeer, l, hl, hc⟩)
    · exact .inl hl
    · exact .inr ⟨l, ⟨peer, hpeer, hl⟩, hc⟩

theorem marker_mem_serverConfig (server : Server) (clients : List Client) :
    marker ∈ (serverInterfaceLines server ++ clients.flatMap serverPeerLines).flatMap lines ↔
      marker ∈ (lines server.interface.toList).tail.dropLast ∨
        ∃ peer ∈ clients, marker ∈ (lines peer.name.toList).tail ∨
          marker ∈ (lines peer.publicKey.toList).tail := by
  rw [List.flatMap_append, List.mem_append, marker_mem_interfaceLines, List.flatMap_assoc,
    List.mem_flatMap]
  simp only [marker_mem_peerLines]

/-- **When a configuration is written as rendered.**  For every hub and every list of clients, and
for every client and its hub: the shells run the intended write and nothing else just when the
fields are safe. -/
theorem write_commands_exact_iff (server : Server) (clients : List Client) (client : Client) :
    (WritesExactly (writeServerConfigCommand server clients) (renderServerConfig server clients) ↔
      HubConfigSafe server clients) ∧
    (WritesExactly (provisionClientCommand client server) (renderClientConfig client server) ↔
      ClientConfigSafe server) := by
  constructor
  · rw [writeServerConfigCommand, writesExactly_iff (renderServerConfig_unlines server clients),
      foreign_mem_serverConfig (.inl rfl), foreign_mem_serverConfig (.inr rfl),
      marker_mem_serverConfig]
    simp only [HubConfigSafe, PeerSafe, QuoteFree, not_or, not_exists, not_and]
    constructor
    · rintro ⟨⟨hq, hqs⟩, ⟨hn, hns⟩, hm, hms⟩
      exact ⟨⟨hq, hn⟩, hm, fun peer hpeer ↦ ⟨⟨(hqs peer hpeer).1, (hns peer hpeer).1⟩,
        ⟨(hqs peer hpeer).2, (hns peer hpeer).2⟩, (hms peer hpeer).1, (hms peer hpeer).2⟩⟩
    · rintro ⟨⟨hq, hn⟩, hm, hpeers⟩
      exact ⟨⟨hq, fun peer hpeer ↦ ⟨(hpeers peer hpeer).1.1, (hpeers peer hpeer).2.1.1⟩⟩,
        ⟨hn, fun peer hpeer ↦ ⟨(hpeers peer hpeer).1.2, (hpeers peer hpeer).2.1.2⟩⟩, hm,
        fun peer hpeer ↦ (hpeers peer hpeer).2.2⟩
  · have hquote : ∀ {c : Char}, Foreign c → (c ∈ (renderClientConfig client server).toList ↔
        c ∈ server.publicKey.toList ∨ c ∈ server.endpointHost.toList) := by
      intro c hc
      rw [renderClientConfig_unlines, mem_unlines hc.ne_newline, foreign_mem_clientLines hc]
    rw [provisionClientCommand, writesExactly_iff (renderClientConfig_unlines client server),
      hquote (.inl rfl), hquote (.inr rfl), marker_mem_clientLines]
    simp only [ClientConfigSafe, QuoteFree, not_or]
    tauto

example : HubConfigSafe exampleHub [] ∧ ClientConfigSafe exampleHub := by decide +kernel

/-- A client whose name has a quote in it. -/
def quotedClient : Client where
  id := 1
  name := "o'brien"
  serverId := 1
  createdAt := 0

/-- A name with a quote in it, which `ClientCreate` accepts, is enough to run something else. -/
theorem quote_escapes : ¬WritesExactly (writeServerConfigCommand exampleHub [quotedClient])
    (renderServerConfig exampleHub [quotedClient]) := by
  intro h
  rw [writeServerConfigCommand, writesExactly_iff (renderServerConfig_unlines _ _),
    foreign_mem_serverConfig (.inl rfl)] at h
  exact h.1 (.inr ⟨quotedClient, List.mem_singleton_self _, .inl (by decide +kernel)⟩)

end WgManager
