import WgManager.Enroll.AllOrNothing
import WgManager.Lib.Base64

/-!
# The WireGuard keys of enrolled hosts

`EnrollRequest` checks that a WireGuard key is base64 for 32 bytes.  From then on the key is a text:
`_admit` compares it with the keys of other clients, `_render_server_config` writes it into the
hub's configuration.  WireGuard reads it back as bytes, and refuses it when the unused bits of its
last digit are set.

So the schema should accept only *canonical* keys, the encodings of the bytes they stand for.  It
accepts four texts for each key; `key_is_canonical_iff` says which of them is the right one.
-/

set_option autoImplicit false

namespace WgManager

/-! ## The schema -/

/-- What is wrong with one field of a body. -/
structure FieldError where
  loc : String
  msg : String
  deriving DecidableEq

/-- What `load_ssh_public_key` makes of a line: an ed25519 key, another key, a `ValueError`, or an
exception that the validator does not catch. -/
inductive LoadedSshKey
  | ed25519
  | otherKey
  | valueError
  | uncaught
  deriving DecidableEq

/-- What `model_validate` makes of a body. -/
inductive Validated (α : Type)
  | ok (body : α)
  | invalid (errors : List FieldError)
  | raised
  deriving DecidableEq

/-- A label of a hostname: `[a-z0-9]([a-z0-9-]*[a-z0-9])?`. -/
def hostnameLabel (label : List Char) : Bool :=
  label.all (fun c ↦ ('a' ≤ c && c ≤ 'z') || ('0' ≤ c && c ≤ '9') || c = '-') &&
    label.head?.any (· ≠ '-') && label.getLast?.any (· ≠ '-')

/-- `_ENROLL_HOSTNAME_PATTERN`: labels separated by dots. -/
def enrollHostnamePattern (hostname : String) : Bool :=
  (PyStr.pieces (· == '.') hostname.toList).all hostnameLabel

/-- The checks on `hostname`. -/
def enrollHostname (value : String) : Except String String :=
  if value.length > 63 then .error "String should have at most 63 characters"
  else if enrollHostnamePattern value then .ok value
  else .error ("String should match pattern " ++
    "'^[a-z0-9]([a-z0-9-]*[a-z0-9])?(\\.[a-z0-9]([a-z0-9-]*[a-z0-9])?)*$'")

/-- `_wg_key_shape`.  `base64.b64decode(value, validate=True)` is the strict decoder. -/
def wgKeyShape (value : String) : Except String String :=
  match Base64.decode value.toList with
  | none => .error "Value error, wg_public_key must be base64"
  | some raw =>
    if raw.length ≠ 32 then .error "Value error, wg_public_key must decode to 32 bytes"
    else .ok value

/-- `_ssh_key_is_ed25519`, over the library's loader; `none` is an exception that goes on. -/
def sshKeyIsEd25519 (loadSshPublicKey : String → LoadedSshKey) (value : String) :
    Option (Except String String) :=
  match PyStr.split (PyStr.strip value) with
  | keyType :: body :: _ =>
    let normalised := keyType ++ " " ++ body
    match loadSshPublicKey normalised with
    | .ed25519 => some (.ok normalised)
    | .otherKey => some (.error "Value error, ssh_host_public_key must be ssh-ed25519")
    | .valueError => some (.error "Value error, ssh_host_public_key is not a valid OpenSSH key")
    | .uncaught => none
  | _ => some (.error "Value error, ssh_host_public_key must be '<type> <base64>'")

/-- The error of a field, if it has one. -/
def fieldErrors (loc : String) (checked : Except String String) : List FieldError :=
  match checked with
  | .ok _ => []
  | .error msg => [⟨loc, msg⟩]

/-- `EnrollRequest.model_validate`: all fields are checked, and all errors reported. -/
def EnrollRequest.modelValidate (loadSshPublicKey : String → LoadedSshKey) (raw : EnrollRequest) :
    Validated EnrollRequest :=
  let hostname := enrollHostname raw.hostname
  let wgPublicKey := wgKeyShape raw.wgPublicKey
  match sshKeyIsEd25519 loadSshPublicKey raw.sshHostPublicKey with
  | none => .raised
  | some sshHostPublicKey =>
    match hostname, wgPublicKey, sshHostPublicKey with
    | .ok h, .ok w, .ok s => .ok ⟨h, w, s⟩
    | _, _, _ => .invalid (fieldErrors "hostname" hostname ++
        fieldErrors "wg_public_key" wgPublicKey ++
        fieldErrors "ssh_host_public_key" sshHostPublicKey)

theorem wgKeyShape_eq_ok_iff {value key : String} : wgKeyShape value = .ok key ↔
    key = value ∧ ∃ raw, Base64.decode value.toList = some raw ∧ raw.length = 32 := by
  rw [wgKeyShape]
  cases hraw : Base64.decode value.toList with
  | none => simp
  | some raw =>
    by_cases hlen : raw.length = 32
    · simp [hlen, eq_comm]
    · simp [hlen]

/-- The key of a body that is accepted decodes to 32 bytes. -/
theorem wgPublicKey_of_modelValidate {load : String → LoadedSshKey} {raw payload : EnrollRequest}
    (h : raw.modelValidate load = .ok payload) :
    ∃ bytes, Base64.decode payload.wgPublicKey.toList = some bytes ∧ bytes.length = 32 := by
  rw [EnrollRequest.modelValidate] at h
  split at h
  · cases h
  · split at h
    · next w _ _ hw _ =>
      cases h
      obtain ⟨rfl, hbytes⟩ := wgKeyShape_eq_ok_iff.mp hw
      exact hbytes
    · cases h

/-! ## How `wg` reads a key -/

/-- The lowest byte of the number a group of digits spells. -/
def lowestByte (x y z w : ℕ) : ℕ := (x * 262144 + y * 4096 + z * 64 + w) % 256

/-- The loop of `key_from_base64` over the groups of digits.  The last group is read with an `A` in
the place of the pad, and its lowest byte has to be zero. -/
def wgGroups : List Char → Option (List UInt8)
  | [a, b, c, _] =>
    match Base64.value a, Base64.value b, Base64.value c with
    | some x, some y, some z =>
      if lowestByte x y z 0 = 0 then some ((Base64.group x y z 0).take 2) else none
    | _, _, _ => none
  | a :: b :: c :: d :: e :: rest => do
    some ((← Base64.decodeGroup a b c d) ++ (← wgGroups (e :: rest)))
  | _ => none

/-- `key_from_base64` of the `wg` tool: 44 characters of which the last is the pad. -/
def wgKeyFromBase64 (key : String) : Option (List UInt8) :=
  if key.toList.length = 44 ∧ key.toList[43]? = some '=' then wgGroups key.toList else none

/-- The lowest byte of the last group is made of the two lowest bits of its last digit. -/
theorem wgGroups_last {a b c d : Char} {x y z : ℕ} (hx : Base64.value a = some x)
    (hy : Base64.value b = some y) (hz : Base64.value c = some z) :
    wgGroups [a, b, c, d] = if z % 4 = 0 then some ((Base64.group x y z 0).take 2) else none := by
  have hlow : lowestByte x y z 0 = 0 ↔ z % 4 = 0 := by
    rw [lowestByte]
    omega
  rw [wgGroups, hx, hy, hz]
  show (if lowestByte x y z 0 = 0 then _ else none) = _
  by_cases hclear : z % 4 = 0
  · rw [if_pos (hlow.mpr hclear), if_pos hclear]
  · rw [if_neg (hlow.not.mpr hclear), if_neg hclear]

/-- On a text with one pad the loop agrees with the strict decoder, up to the unused bits. -/
theorem wgGroups_of_decode {cs : List Char} {bytes : List UInt8}
    (h : Base64.decode cs = some bytes) (hlen : bytes.length % 3 = 2) :
    wgGroups cs = if Base64.unusedBits cs = 0 then some bytes else none := by
  induction cs using Base64.decode.induct generalizing bytes with
  | case1 =>
    cases h
    simp at hlen
  | case2 a b c d =>
    have hpad := Base64.onePad_of_decode h hlen
    have hd : d = '=' := by simpa using hpad.last
    obtain ⟨c', n, hget, hn, hbits⟩ := hpad.digit
    have hc' : c' = c := by simpa using hget.symm
    subst hc'
    have hc : c' ≠ '=' := Base64.value_ne_pad hn
    simp only [Base64.decode, Base64.decodeLast, hd, hc, ne_eq, not_true_eq_false,
      not_false_eq_true, if_true, if_false, Option.bind_eq_bind, Option.bind_eq_some_iff,
      Option.some.injEq] at h
    obtain ⟨x, hx, y, hy, z, hz, rfl⟩ := h
    obtain rfl : z = n := Option.some.inj (hz.symm.trans hn)
    rw [wgGroups_last hx hy hz, hbits]
  | case3 a b c d e rest ih =>
    simp only [Base64.decode, Option.bind_eq_bind, Option.bind_eq_some_iff, Option.some.injEq] at h
    obtain ⟨front, hfront, back, hback, rfl⟩ := h
    have hfront3 : front.length = 3 := by
      obtain ⟨x, y, z, w, -, -, -, -, rfl⟩ := Base64.decodeGroup_eq_some.mp hfront
      exact Base64.group_length x y z w
    rw [List.length_append, hfront3] at hlen
    rw [wgGroups, hfront, ih hback (by omega), Base64.unusedBits]
    by_cases hbits : Base64.unusedBits (e :: rest) = 0
    · simp [hbits]
    · simp [hbits]
  | case4 cs h₁ h₂ h₃ =>
    rw [Base64.decode] at h
    · cases h
    · exact h₁
    · exact h₂
    · exact h₃

/-! ## Canonical keys -/

/-- A key is the standard encoding of the 32 bytes it decodes to. -/
def CanonicalKey (key : String) : Prop :=
  ∃ bytes, Base64.decode key.toList = some bytes ∧ bytes.length = 32 ∧
    String.ofList (Base64.encode bytes) = key

/-- The digits whose two lowest bits are zero. -/
def clearDigits : List Char :=
  ['A', 'E', 'I', 'M', 'Q', 'U', 'Y', 'c', 'g', 'k', 'o', 's', 'w', '0', '4', '8']

/-- The 43rd character is such a digit. -/
def LastDigitClear (key : String) : Prop := key.toList[42]?.any (clearDigits.contains ·) = true

instance (key : String) : Decidable (LastDigitClear key) :=
  inferInstanceAs (Decidable (_ = true))

theorem clear_digit_iff {n : ℕ} (h : n < 64) :
    clearDigits.contains (Base64.digit n) = true ↔ n % 4 = 0 := by
  revert n
  decide +kernel

theorem lastDigitClear_iff {key : String} {bytes : List UInt8}
    (h : Base64.decode key.toList = some bytes) (hlen : bytes.length = 32) :
    LastDigitClear key ↔ Base64.unusedBits key.toList = 0 := by
  have hpad := Base64.onePad_of_decode h (by omega)
  have hlength : key.toList.length = 44 := by rw [hpad.length, hlen]
  obtain ⟨c, n, hget, hn, hbits⟩ := hpad.digit
  rw [hlength] at hget
  rw [LastDigitClear, hget, hbits, ← clear_digit_iff (Base64.value_lt hn), Base64.digit_value hn,
    Option.any_some]

/-- A key that decodes is canonical, and `wg` reads it as the bytes it stands for, just when its
last digit is clear. -/
theorem canonicalKey_iff {key : String} {bytes : List UInt8}
    (h : Base64.decode key.toList = some bytes) (hlen : bytes.length = 32) :
    CanonicalKey key ↔ LastDigitClear key := by
  rw [lastDigitClear_iff h hlen, ← Base64.encode_eq_iff h]
  constructor
  · rintro ⟨bytes', hdecode, -, hencode⟩
    rw [h] at hdecode
    cases hdecode
    rw [← hencode, String.toList_ofList]
  · intro hencode
    exact ⟨bytes, h, hlen, by rw [hencode, String.ofList_toList]⟩

theorem wgKeyFromBase64_eq {key : String} {bytes : List UInt8}
    (h : Base64.decode key.toList = some bytes) (hlen : bytes.length = 32) :
    wgKeyFromBase64 key = if LastDigitClear key then some bytes else none := by
  have hpad := Base64.onePad_of_decode h (by omega)
  have hlength : key.toList.length = 44 := by rw [hpad.length, hlen]
  have hlast : key.toList[43]? = some '=' := by simpa [hlength] using hpad.last
  rw [wgKeyFromBase64, if_pos ⟨hlength, hlast⟩, wgGroups_of_decode h (by omega)]
  simp only [lastDigitClear_iff h hlen]

/-! ## The keys that enrollments store -/

/-- The database after a sequence of enrollments. -/
def enrollAll (start : Db) (calls : List (EnrollEnv × EnrollCall)) : Db :=
  calls.foldl (fun db e ↦ (e.1.enroll db e.2).db) start

theorem finish_clients (env : EnrollEnv) (db : Db) (admitted : Admitted) :
    (env.finish db admitted).db.clients = db.clients := by
  rcases finish_db env db admitted with hdb | ⟨id, hdb⟩
  · rw [hdb]
  · rw [hdb]
    rfl

/-- The clients after an enrollment are those from before and perhaps one with the key of the
body. -/
theorem mem_clients_enroll {env : EnrollEnv} {db : Db} {call : EnrollCall} {c : Client}
    (h : c ∈ (env.enroll db call).db.clients.rows) :
    c ∈ db.clients.rows ∨
      ∃ payload, call.body = some payload ∧ c.publicKey = payload.wgPublicKey := by
  rw [EnrollEnv.enroll] at h
  split at h
  · exact .inl h
  · next committed admitted htx =>
    obtain ⟨_, -, hredeem⟩ := bind_eq_ok_iff.mp htx
    obtain ⟨row, payload, hchecks, hadm, rfl⟩ := withEnrolled_of_redeem hredeem
    rw [finish_clients, EnrollEnv.withEnrolled_clients, Table.mem_rows_iff] at h
    rcases Table.get_insert_cases h with hold | ⟨-, rfl⟩
    · exact .inl (Table.mem_of_get hold)
    · obtain ⟨server, address, cert, -, rfl⟩ := admitClient_eq_ok_iff.mp hadm
      obtain ⟨_, -, -, -, -, -, hbody⟩ := tokenChecks_eq_ok_iff.mp hchecks
      exact .inr ⟨payload, hbody, rfl⟩

/-- A client row after a sequence of enrollments was there at the start, or has the key of one of
the bodies. -/
theorem mem_clients_enrollAll {start : Db} {calls : List (EnrollEnv × EnrollCall)} {c : Client}
    (h : c ∈ (enrollAll start calls).clients.rows) :
    c ∈ start.clients.rows ∨
      ∃ e ∈ calls, ∃ payload, e.2.body = some payload ∧ c.publicKey = payload.wgPublicKey := by
  induction calls generalizing start with
  | nil => exact .inl h
  | cons e calls ih =>
    rcases ih h with hfirst | ⟨e', he', hbody⟩
    · rcases mem_clients_enroll hfirst with hstart | hbody
      · exact .inl hstart
      · exact .inr ⟨e, List.mem_cons_self, hbody⟩
    · exact .inr ⟨e', List.mem_cons_of_mem e he', hbody⟩

/-- A client row that the enrollments added has the key of one of their bodies. -/
theorem body_of_created {start : Db} {calls : List (EnrollEnv × EnrollCall)} {c : Client}
    (h : Table.Created start.clients (enrollAll start calls).clients c) :
    ∃ e ∈ calls, ∃ payload, e.2.body = some payload ∧ c.publicKey = payload.wgPublicKey := by
  obtain ⟨hnew, hmem⟩ := h
  rcases mem_clients_enrollAll hmem with hstart | hbody
  · rw [Table.mem_rows_iff.mp hstart] at hnew
    cases hnew
  · exact hbody

/-- The configuration of a hub has a `PublicKey` line for each of its clients. -/
theorem publicKey_line_of_mem (server : Server) {clients : List Client} {c : Client}
    (h : c ∈ clients) : ∃ before after,
      renderServerConfig server clients =
        before ++ ("PublicKey = " ++ c.publicKey ++ "\n") ++ after := by
  obtain ⟨front, back, rfl⟩ := List.append_of_mem h
  refine ⟨String.ofList ((serverInterfaceSection server).toList ++
      (front.flatMap fun peer ↦ (serverPeerSection peer).toList) ++
      ("\n[Peer]\n# " ++ c.name ++ "\n").toList),
    String.ofList (("AllowedIPs = " ++ c.addressText ++ "\n").toList ++
      back.flatMap fun peer ↦ (serverPeerSection peer).toList), ?_⟩
  apply String.toList_inj.mp
  have hkey : "\nPublicKey = ".toList = "\n".toList ++ "PublicKey = ".toList := rfl
  have haddress : "\nAllowedIPs = ".toList = "\n".toList ++ "AllowedIPs = ".toList := rfl
  simp only [renderServerConfig_toList, List.flatMap_append, List.flatMap_cons,
    serverPeerSection_toList, hkey, haddress, String.toList_append, String.toList_ofList,
    List.append_assoc]

/-- The bodies of all calls are ones the schema has accepted, and their keys have clear last
digits. -/
def AcceptedClear (load : String → LoadedSshKey) (calls : List (EnrollEnv × EnrollCall)) : Prop :=
  ∀ e ∈ calls, ∀ payload, e.2.body = some payload →
    (∃ raw : EnrollRequest, raw.modelValidate load = .ok payload) ∧
      LastDigitClear payload.wgPublicKey

/-- What an added row stores is the 32 bytes `wg` reads. -/
theorem stored_key {load : String → LoadedSshKey} {start : Db}
    {calls : List (EnrollEnv × EnrollCall)} (hcalls : AcceptedClear load calls) {c : Client}
    (h : Table.Created start.clients (enrollAll start calls).clients c) :
    ∃ bytes, Base64.decode c.publicKey.toList = some bytes ∧
      Base64.unusedBits c.publicKey.toList = 0 ∧ wgKeyFromBase64 c.publicKey = some bytes := by
  obtain ⟨e, he, payload, hbody, hkey⟩ := body_of_created h
  obtain ⟨⟨raw, hraw⟩, hclear⟩ := hcalls e he payload hbody
  obtain ⟨bytes, hdecode, hlen⟩ := wgPublicKey_of_modelValidate hraw
  rw [hkey]
  refine ⟨bytes, hdecode, (lastDigitClear_iff hdecode hlen).mp hclear, ?_⟩
  rw [wgKeyFromBase64_eq hdecode hlen, if_pos hclear]

/-- **Which accepted keys are canonical.**  A key the schema accepts is canonical, and `wg` takes
it, just when its last digit is clear.  And when the last digits in a sequence of enrollments are
clear, the keys they store are different texts when they are different keys, and `wg` reads every
`PublicKey` line that they lead to. -/
theorem accepted_key_canonical_iff (load : String → LoadedSshKey) :
    (∀ raw payload : EnrollRequest, raw.modelValidate load = .ok payload →
      (CanonicalKey payload.wgPublicKey ↔ LastDigitClear payload.wgPublicKey) ∧
      ((wgKeyFromBase64 payload.wgPublicKey).isSome ↔ LastDigitClear payload.wgPublicKey)) ∧
    ∀ start calls, AcceptedClear load calls →
      (∀ c c', Table.Created start.clients (enrollAll start calls).clients c →
        Table.Created start.clients (enrollAll start calls).clients c' →
        (c.publicKey ≠ c'.publicKey ↔
          Base64.decode c.publicKey.toList ≠ Base64.decode c'.publicKey.toList)) ∧
      ∀ c, Table.Created start.clients (enrollAll start calls).clients c →
        ∀ server clients, c ∈ clients →
          ∃ before after, renderServerConfig server clients =
              before ++ ("PublicKey = " ++ c.publicKey ++ "\n") ++ after ∧
            (wgKeyFromBase64 c.publicKey).isSome := by
  refine ⟨fun raw payload h ↦ ?_, fun start calls hcalls ↦ ⟨fun c c' hc hc' ↦ ?_, ?_⟩⟩
  · obtain ⟨bytes, hdecode, hlen⟩ := wgPublicKey_of_modelValidate h
    refine ⟨canonicalKey_iff hdecode hlen, ?_⟩
    rw [wgKeyFromBase64_eq hdecode hlen]
    by_cases hclear : LastDigitClear payload.wgPublicKey
    · simp [hclear]
    · simp [hclear]
  · obtain ⟨bytes, hdecode, hbits, -⟩ := stored_key hcalls hc
    obtain ⟨bytes', hdecode', hbits', -⟩ := stored_key hcalls hc'
    have hsame := Base64.eq_iff_of_canonical hdecode hdecode' hbits hbits'
    rw [hdecode, hdecode', ne_eq, ne_eq, Option.some.injEq, ← hsame, String.toList_inj]
  · intro c hc server clients hmem
    obtain ⟨bytes, -, -, hwg⟩ := stored_key hcalls hc
    obtain ⟨before, after, hline⟩ := publicKey_line_of_mem server hmem
    exact ⟨before, after, hline, by rw [hwg]; rfl⟩

/-- A loader that takes every line for an ed25519 key. -/
def loadEd25519 (_ : String) : LoadedSshKey := .ed25519

/-- The body of the host `web`. -/
def webBody : EnrollRequest where
  hostname := "web"
  wgPublicKey := "AQIDBAUGBwgJCgsMDQ4PEBESExQVFhcYGRobHB0eHyA="
  sshHostPublicKey :=
    "ssh-ed25519 AAAAC3NzaC1lZDI1NTE5AAAAIAECAwQFBgcICQoLDA0ODxAREhMUFRYXGBkaGxwdHh8g"

theorem webBody_accepted : webBody.modelValidate loadEd25519 = .ok webBody := by decide +kernel

theorem webBody_clear : LastDigitClear webBody.wgPublicKey := by decide +kernel

/-- The key of `web` is canonical, and so is the one its enrollment stores. -/
theorem accepted_key_canonical_iff_for_web :
    CanonicalKey webBody.wgPublicKey ∧
    ∀ c, Table.Created joinDb.clients (enrollAll joinDb [(joinEnv [], joinCall)]).clients c →
      ∀ server clients, c ∈ clients →
        ∃ before after, renderServerConfig server clients =
            before ++ ("PublicKey = " ++ c.publicKey ++ "\n") ++ after ∧
          (wgKeyFromBase64 c.publicKey).isSome := by
  have hcalls : AcceptedClear loadEd25519 [(joinEnv [], joinCall)] := by
    intro e he payload hbody
    rw [List.mem_singleton.mp he] at hbody
    have hpayload : webBody = payload := Option.some.inj hbody
    rw [← hpayload]
    exact ⟨⟨webBody, webBody_accepted⟩, webBody_clear⟩
  have h := accepted_key_canonical_iff loadEd25519
  exact ⟨(h.1 webBody webBody webBody_accepted).1.mpr webBody_clear, (h.2 joinDb _ hcalls).2⟩

/-- A body for the key of 32 zero bytes, but for the two lowest bits of its last digit. -/
def noncanonicalBody : EnrollRequest where
  hostname := "web"
  wgPublicKey := "AAAAAAAAAAAAAAAAAAAAAAAAAAAAAAAAAAAAAAAAAAB="
  sshHostPublicKey :=
    "ssh-ed25519 AAAAC3NzaC1lZDI1NTE5AAAAIAECAwQFBgcICQoLDA0ODxAREhMUFRYXGBkaGxwdHh8g"

/-- The schema accepts that key, it is not the encoding of the bytes it stands for, and `wg` does
not read it. -/
theorem noncanonical_key_accepted :
    noncanonicalBody.modelValidate loadEd25519 = .ok noncanonicalBody ∧
    ¬CanonicalKey noncanonicalBody.wgPublicKey ∧
    wgKeyFromBase64 noncanonicalBody.wgPublicKey = none := by
  refine ⟨by decide +kernel, ?_, by decide +kernel⟩
  have hdecode : Base64.decode noncanonicalBody.wgPublicKey.toList =
      some (List.replicate 32 0) := by decide +kernel
  rw [canonicalKey_iff hdecode rfl]
  decide +kernel

end WgManager
