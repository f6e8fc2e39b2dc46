import WgManager.Lib.Base64
import WgManager.Lib.PyStr
import Mathlib.Data.List.Sort
import Mathlib.Data.List.Dedup
import Mathlib.Data.String.Basic

/-!
# Which host certificates the control plane trusts

`KnownHostsCAPolicy` of `ssh.py`, the hook that decides whether the key a host offers is accepted.
`missingHostKey` runs through the checks in the order of the source and either accepts or says why
not; `missingHostKey_eq_ok_iff` reads the checks off it.

The policy hands the offered blob to the certificate parser of the `cryptography` package and
compares fields of what comes back.  One of these fields is the key that *says* it has signed the
certificate, and this is where trust leaks: nothing checks the signature itself, which in that
package is a call of its own.  `trusts_only_signed_iff` says that the policy trusts only what the CA
has signed unless it is offered a forgery, and `trusts_forgedCertificate` is one.

The parser, the signature check and three functions of the Python runtime whose tables are too
large to write out are parameters, collected in `Library`.
-/

set_option autoImplicit false

namespace WgManager

/-! ## What the outside provides -/

inductive SSHCertificateType
  | user
  | host
  deriving DecidableEq

/-- A parsed certificate: the fields of `SSHCertificate` that the policy reads. -/
structure SSHCertificate where
  type : SSHCertificateType
  /-- `signature_key().public_bytes(...)`: the one-line form of the key the certificate names as its
  signer. -/
  signatureKey : String
  validAfter : ℕ
  validBefore : ℕ
  validPrincipals : List (List UInt8)
  deriving DecidableEq

/-- What `load_ssh_public_identity` returns: a certificate, or a bare key of the named class. -/
inductive PublicIdentity
  | certificate (cert : SSHCertificate)
  | publicKey (className : String)

/-- How it fails: with a `ValueError` or `TypeError`, or with another exception. -/
inductive LoadError
  | malformed (message : String)
  | other (message : String)

/-- The functions that are not part of the repository. -/
structure Library where
  /-- `cryptography`'s `load_ssh_public_identity`: it parses, and checks no signature. -/
  loadSshPublicIdentity : String → Except LoadError PublicIdentity
  /-- Whether the signature at the end of a certificate blob verifies, over the blob before it,
  under the key with this base64 body. -/
  signatureVerifies : String → List UInt8 → Bool
  /-- `str.casefold`. -/
  casefold : String → String
  /-- `repr` of a string. -/
  repr : String → String
  /-- `bytes.decode("utf-8", "replace")`. -/
  decodeReplace : List UInt8 → String

/-- paramiko's `PublicBlob`: the certificate attached to an offered key. -/
structure PublicBlob where
  keyType : String
  keyBlob : List UInt8

/-- The key a host offers. -/
structure PKey where
  publicBlob : Option PublicBlob

/-- Why `missing_host_key` raises: an `UntrustedHostKeyError` with its reason, or an exception that
is not caught. -/
inductive HostKeyError
  | untrusted (hostname reason : String)
  | uncaught (message : String)
  deriving DecidableEq

/-- `base64.b64encode(bytes).decode("ascii")`, as a list of characters. -/
def b64encode (bytes : List UInt8) : List Char := Base64.encode bytes

/-! ## The policy -/

section

variable (lib : Library)

/-- `_ca_pubkey_body`: the base64 body of a one-line public key; a `ValueError` otherwise. -/
def caPubkeyBody (opensshLine : String) : Except String String :=
  match PyStr.split (PyStr.strip opensshLine) with
  | _ :: body :: _ => .ok body
  | _ => .error s!"malformed CA public key: {lib.repr opensshLine}"

/-- `_normalise_principal`. -/
def normalisePrincipal (name : String) : String :=
  lib.casefold (PyStr.rstrip '.' (PyStr.strip name))

/-- `_dialed_name`: strip paramiko's `[host]:port` wrapper. -/
def dialedName (paramikoHostname : String) : String :=
  match paramikoHostname.toList with
  | '[' :: rest =>
    match PyStr.find [']', ':'] ('[' :: rest) with
    | some k => String.ofList (rest.take (k - 1))
    | none => paramikoHostname
  | _ => paramikoHostname

/-- `KnownHostsCAPolicy`.  `principals` are normalised names, without repetitions. -/
structure KnownHostsCAPolicy where
  caPublicKey : String
  caBody : String
  principals : Option (List String)
  deriving DecidableEq

/-- `KnownHostsCAPolicy.__init__`. -/
def KnownHostsCAPolicy.init (caPublicKey : String) (principals : Option (List String)) :
    Except String KnownHostsCAPolicy :=
  match caPubkeyBody lib caPublicKey with
  | .error message => .error message
  | .ok body =>
    .ok ⟨caPublicKey, body, principals.map fun names ↦
      ((names.filter (PyStr.strip · ≠ "")).map (normalisePrincipal lib)).dedup⟩

def certKeyType : String := "ssh-ed25519-cert-v01@openssh.com"

/-- The one-line form of an offered blob. -/
def certLine (blob : PublicBlob) : String :=
  blob.keyType ++ " " ++ String.ofList (b64encode blob.keyBlob)

/-- The body of the key a certificate names as its signer; `none` is an `IndexError`. -/
def signerBody (cert : SSHCertificate) : Option String :=
  (PyStr.splitOn ' ' cert.signatureKey)[1]?

/-- The normalised names a certificate may be issued for. -/
def KnownHostsCAPolicy.accepted (policy : KnownHostsCAPolicy) (hostname : String) : List String :=
  policy.principals.getD [normalisePrincipal lib (dialedName hostname)]

/-- The checks on a parsed certificate: its type, its signer, its validity window, its
principals. -/
def checkCertificate (policy : KnownHostsCAPolicy) (now : ℤ) (hostname : String)
    (cert : SSHCertificate) : Except HostKeyError Unit :=
  if cert.type ≠ .host then
    .error (.untrusted hostname "offered certificate is a user cert, not a host cert")
  else match signerBody cert with
  | none => .error (.untrusted hostname "could not extract signer key body")
  | some body =>
    if body ≠ policy.caBody then
      .error (.untrusted hostname "host cert signed by an untrusted CA")
    else if now < cert.validAfter then
      .error (.untrusted hostname
        (s!"host cert not yet valid (valid_after={cert.validAfter}, now={now}); " ++
          "check the clock on the wg-manager worker"))
    else if cert.validBefore ≤ now then
      .error (.untrusted hostname
        (s!"host cert expired (valid_before={cert.validBefore}, now={now}); " ++
          "rotate it via rotate-host-cert or re-run bootstrap-host"))
    else
      let certPrincipals := cert.validPrincipals.map lib.decodeReplace
      let accepted := policy.accepted lib hostname
      if certPrincipals = [] then
        .error (.untrusted hostname "host cert has no principals (valid for any host); refusing")
      else if (certPrincipals.map (normalisePrincipal lib)).any (accepted.contains ·) then .ok ()
      else
        let names := ", ".intercalate (accepted.insertionSort (· ≤ ·))
        let offered := ", ".intercalate certPrincipals
        .error (.untrusted hostname
          (s!"host cert not issued for {names} (cert principals: {offered}); " ++
            "if the host was renamed outside wg-manager, re-run bootstrap-host"))

/-- `KnownHostsCAPolicy.missing_host_key`: accept the offered key, or raise.  `now` is
`int(clock())`. -/
def missingHostKey (policy : KnownHostsCAPolicy) (now : ℤ) (hostname : String) (key : PKey) :
    Except HostKeyError Unit :=
  match key.publicBlob with
  | none => .error (.untrusted hostname "server offered no certificate (TOFU is disabled)")
  | some blob =>
    if blob.keyType ≠ certKeyType then
      .error (.untrusted hostname
        s!"unsupported cert type {lib.repr blob.keyType}; expected ed25519 host cert")
    else match lib.loadSshPublicIdentity (certLine blob) with
    | .error (.malformed message) =>
      .error (.untrusted hostname s!"could not parse offered cert: {message}")
    | .error (.other message) => .error (.uncaught message)
    | .ok (.publicKey className) =>
      .error (.untrusted hostname s!"offered material is not an SSH certificate: {className}")
    | .ok (.certificate cert) => checkCertificate lib policy now hostname cert

/-! ## What is checked -/

/-- The names a certificate may be issued for, as they were given: those of the policy that are not
blank, or else the name that was dialed. -/
def acceptedNames (principals : Option (List String)) (hostname : String) : List String :=
  match principals with
  | none => [dialedName hostname]
  | some names => names.filter (PyStr.strip · ≠ "")

/-- One of the principals of `cert` names a host that may be accepted. -/
def IssuedFor (names : List String) (cert : SSHCertificate) : Prop :=
  ∃ p ∈ cert.validPrincipals, ∃ name ∈ names,
    normalisePrincipal lib (lib.decodeReplace p) = normalisePrincipal lib name

variable {lib} {policy : KnownHostsCAPolicy} {now : ℤ} {hostname : String} {key : PKey}

theorem checkCertificate_eq_ok_iff {cert : SSHCertificate} :
    checkCertificate lib policy now hostname cert = .ok () ↔
      cert.type = .host ∧ signerBody cert = some policy.caBody ∧
        (cert.validAfter ≤ now ∧ now < cert.validBefore) ∧ cert.validPrincipals ≠ [] ∧
        ∃ p ∈ cert.validPrincipals,
          normalisePrincipal lib (lib.decodeReplace p) ∈ policy.accepted lib hostname := by
  rw [checkCertificate]
  split
  · next htype => simp [htype]
  · next htype =>
    cases hbody : signerBody cert with
    | none => simp
    | some body =>
      dsimp only
      split
      · next hca => simp [hca]
      · next hca =>
        split
        · next hafter => simp [not_le.mpr hafter]
        · next hafter =>
          split
          · next hbefore => simp [not_lt.mpr hbefore]
          · next hbefore =>
            have hempty : cert.validPrincipals.map lib.decodeReplace = [] ↔
                cert.validPrincipals = [] := List.map_eq_nil_iff
            split
            · next hprincipals => simp [hempty.mp hprincipals]
            · next hprincipals =>
              rw [hempty] at hprincipals
              rw [not_not] at htype hca
              rw [not_lt] at hafter
              rw [not_le] at hbefore
              simp [htype, hca, hafter, hbefore, hprincipals]

/-- What makes the policy accept a key. -/
theorem missingHostKey_eq_ok_iff :
    missingHostKey lib policy now hostname key = .ok () ↔
      ∃ blob cert, key.publicBlob = some blob ∧ blob.keyType = certKeyType ∧
        lib.loadSshPublicIdentity (certLine blob) = .ok (.certificate cert) ∧
        checkCertificate lib policy now hostname cert = .ok () := by
  rw [missingHostKey]
  cases key.publicBlob with
  | none => simp
  | some blob =>
    dsimp only
    split
    · next htype => simp [htype]
    · next htype =>
      rw [not_not] at htype
      cases hload : lib.loadSshPublicIdentity (certLine blob) with
      | error e => cases e <;> simp [hload]
      | ok identity => cases identity <;> simp [htype, hload]

/-- The accepted names of a policy are the given names, normalised. -/
theorem mem_accepted_iff {caPublicKey : String} {principals : Option (List String)}
    (h : KnownHostsCAPolicy.init lib caPublicKey principals = .ok policy) {name : String} :
    name ∈ policy.accepted lib hostname ↔
      ∃ given ∈ acceptedNames principals hostname, name = normalisePrincipal lib given := by
  rw [KnownHostsCAPolicy.init] at h
  split at h
  · cases h
  · rw [Except.ok.injEq] at h
    subst h
    cases principals with
    | none => simp [KnownHostsCAPolicy.accepted, acceptedNames]
    | some names =>
      show name ∈ List.dedup _ ↔ _
      rw [List.mem_dedup, List.mem_map]
      constructor
      · rintro ⟨given, hgiven, rfl⟩
        exact ⟨given, hgiven, rfl⟩
      · rintro ⟨given, hgiven, rfl⟩
        exact ⟨given, hgiven, rfl⟩

/-! ## Only what the CA has signed -/

/-- The offered key carries a host certificate that the CA has signed, that is valid now and that is
issued for one of `names`. -/
def Genuine (lib : Library) (caBody : String) (names : List String) (now : ℤ) (key : PKey) :
    Prop :=
  ∃ blob cert, key.publicBlob = some blob ∧
    lib.loadSshPublicIdentity (certLine blob) = .ok (.certificate cert) ∧
    cert.type = .host ∧ lib.signatureVerifies caBody blob.keyBlob = true ∧
    (cert.validAfter ≤ now ∧ now < cert.validBefore) ∧ cert.validPrincipals ≠ [] ∧
    IssuedFor lib names cert

/-- The offered key carries a forgery: an ed25519 host certificate, valid now and issued for one of
`names`, that names the CA as its signer and does not have the CA's signature. -/
def Forged (lib : Library) (caBody : String) (names : List String) (now : ℤ) (key : PKey) :
    Prop :=
  ∃ blob cert, key.publicBlob = some blob ∧ blob.keyType = certKeyType ∧
    lib.loadSshPublicIdentity (certLine blob) = .ok (.certificate cert) ∧
    cert.type = .host ∧ signerBody cert = some caBody ∧
    (cert.validAfter ≤ now ∧ now < cert.validBefore) ∧ IssuedFor lib names cert ∧
    lib.signatureVerifies caBody blob.keyBlob = false

theorem issuedFor_iff {caPublicKey : String} {principals : Option (List String)}
    (h : KnownHostsCAPolicy.init lib caPublicKey principals = .ok policy) {cert : SSHCertificate} :
    (∃ p ∈ cert.validPrincipals,
      normalisePrincipal lib (lib.decodeReplace p) ∈ policy.accepted lib hostname) ↔
      IssuedFor lib (acceptedNames principals hostname) cert := by
  simp only [mem_accepted_iff h, IssuedFor]

/-- **The policy trusts only what the CA has signed, unless it is offered a forgery.**  For every CA
key, every list of names, every clock value and every offered key. -/
theorem trusts_only_signed_iff {caPublicKey : String} {principals : Option (List String)}
    (h : KnownHostsCAPolicy.init lib caPublicKey principals = .ok policy) :
    (missingHostKey lib policy now hostname key = .ok () →
      Genuine lib policy.caBody (acceptedNames principals hostname) now key) ↔
    ¬Forged lib policy.caBody (acceptedNames principals hostname) now key := by
  constructor
  · rintro htrust ⟨blob, cert, hblob, htype, hload, hhost, hsigner, hwindow, hissued, hverifies⟩
    have hprincipals : cert.validPrincipals ≠ [] := by
      obtain ⟨p, hp, -⟩ := hissued
      exact List.ne_nil_of_mem hp
    have hcheck : checkCertificate lib policy now hostname cert = .ok () :=
      checkCertificate_eq_ok_iff.mpr
        ⟨hhost, hsigner, hwindow, hprincipals, (issuedFor_iff h).mpr hissued⟩
    obtain ⟨blob', -, hblob', -, -, hverifies', -⟩ := htrust
      (missingHostKey_eq_ok_iff.mpr ⟨blob, cert, hblob, htype, hload, hcheck⟩)
    rw [hblob] at hblob'
    rw [← Option.some.inj hblob', hverifies] at hverifies'
    exact absurd hverifies' (by decide)
  · intro hforged hok
    obtain ⟨blob, cert, hblob, htype, hload, hcheck⟩ := missingHostKey_eq_ok_iff.mp hok
    obtain ⟨hhost, hsigner, hwindow, hprincipals, haccepted⟩ :=
      checkCertificate_eq_ok_iff.mp hcheck
    have hissued := (issuedFor_iff h).mp haccepted
    refine ⟨blob, cert, hblob, hload, hhost, ?_, hwindow, hprincipals, hissued⟩
    by_contra hverifies
    rw [Bool.not_eq_true] at hverifies
    exact hforged ⟨blob, cert, hblob, htype, hload, hhost, hsigner, hwindow, hissued, hverifies⟩

end

/-! ## A signed certificate and a forged one -/

/-- A string of the SSH wire format: four bytes of length, then the bytes. -/
def sshString (bytes : List UInt8) : List UInt8 :=
  let n := bytes.length
  [UInt8.ofNat (n / 16777216), UInt8.ofNat (n / 65536), UInt8.ofNat (n / 256), UInt8.ofNat n] ++
    bytes

def asciiBytes (s : String) : List UInt8 := s.toList.map fun c ↦ UInt8.ofNat c.toNat

/-- The public key of a CA, in the SSH wire format. -/
def exampleCaKey : List UInt8 :=
  sshString (asciiBytes "ssh-ed25519") ++
  sshString [234, 74, 108, 99, 226, 156, 82, 10, 190, 245, 80, 123, 19, 46, 197, 249, 149, 71, 118,
    174, 190, 190, 123, 146, 66, 30, 234, 105, 20, 70, 210, 44]

/-- Its base64 body. -/
def exampleCaBody : String :=
  "AAAAC3NzaC1lZDI1NTE5AAAAIOpKbGPinFIKvvVQexMuxfmVR3auvr57kkIe6mkURtIs"

example : String.ofList (b64encode exampleCaKey) = exampleCaBody := by decide +kernel

def exampleCaPublicKey : String :=
  "ssh-ed25519 AAAAC3NzaC1lZDI1NTE5AAAAIOpKbGPinFIKvvVQexMuxfmVR3auvr57kkIe6mkURtIs"

/-- A host certificate for `hub.example`, valid from 0 to 1000, that names the CA as its signer, up
to the signature. -/
def exampleCertBody : List UInt8 :=
  sshString (asciiBytes certKeyType) ++ sshString [] ++
  sshString [253, 23, 36, 56, 90, 160, 199, 91, 100, 251, 120, 205, 96, 47, 161, 217, 145, 253, 235,
    247, 107, 19, 197, 142, 215, 2, 234, 200, 53, 233, 246, 24] ++
  [0, 0, 0, 0, 0, 0, 0, 1] ++ [0, 0, 0, 2] ++ sshString (asciiBytes "hub") ++
  sshString (sshString (asciiBytes "hub.example")) ++
  [0, 0, 0, 0, 0, 0, 0, 0] ++ [0, 0, 0, 0, 0, 0, 3, 232] ++
  sshString [] ++ sshString [] ++ sshString [] ++ sshString exampleCaKey

def sshSignature (bytes : List UInt8) : List UInt8 :=
  sshString (sshString (asciiBytes "ssh-ed25519") ++ sshString bytes)

/-- The certificate with the signature the CA makes for it. -/
def signedCertificate : PKey :=
  ⟨some ⟨certKeyType, exampleCertBody ++ sshSignature
    [249, 223, 123, 43, 64, 79, 98, 75, 105, 115, 243, 215, 137, 72, 90, 216, 68, 33, 233, 251, 132,
     221, 54, 213, 57, 217, 159, 49, 113, 57, 209, 230, 99, 61, 148, 64, 242, 119, 39, 127, 145, 77,
     75, 216, 194, 222, 204, 53, 27, 53, 229, 42, 224, 237, 171, 78, 30, 171, 22, 146, 53, 124, 62,
     14]⟩⟩

/-- The same certificate with 64 zero bytes for a signature, which anybody can write. -/
def forgedCertificate : PKey :=
  ⟨some ⟨certKeyType, exampleCertBody ++ sshSignature (List.replicate 64 0)⟩⟩

/-- The library on these two certificates: both parse, to the same fields, and the signature of one
verifies. -/
def exampleLibrary : Library where
  loadSshPublicIdentity _ :=
    .ok (.certificate ⟨.host, exampleCaPublicKey, 0, 1000, [asciiBytes "hub.example"]⟩)
  signatureVerifies caBody blob :=
    caBody == exampleCaBody &&
      (signedCertificate.publicBlob.map PublicBlob.keyBlob == some blob)
  casefold s := String.ofList (s.toList.map Char.toLower)
  repr s := "'" ++ s ++ "'"
  decodeReplace bytes := String.ofList (bytes.map fun b ↦ Char.ofNat b.toNat)

def examplePolicy : KnownHostsCAPolicy :=
  ⟨exampleCaPublicKey, exampleCaBody, none⟩

theorem init_examplePolicy :
    KnownHostsCAPolicy.init exampleLibrary exampleCaPublicKey none = .ok examplePolicy := by
  decide +kernel

/-- A certificate that the CA has signed is accepted, and is what it says it is. -/
theorem trusts_signedCertificate :
    KnownHostsCAPolicy.init exampleLibrary exampleCaPublicKey none = .ok examplePolicy ∧
      missingHostKey exampleLibrary examplePolicy 100 "hub.example" signedCertificate = .ok () ∧
      Genuine exampleLibrary examplePolicy.caBody (acceptedNames none "hub.example") 100
        signedCertificate := by
  have hok : missingHostKey exampleLibrary examplePolicy 100 "hub.example" signedCertificate =
      .ok () := by decide +kernel
  have hverifies : signedCertificate.publicBlob.all (fun blob ↦
      exampleLibrary.signatureVerifies examplePolicy.caBody blob.keyBlob) := by decide +kernel
  refine ⟨init_examplePolicy, hok, (trusts_only_signed_iff init_examplePolicy).mpr ?_ hok⟩
  rintro ⟨blob, cert, hblob, -, -, -, -, -, -, hforged⟩
  rw [hblob, Option.all_some, hforged] at hverifies
  exact absurd hverifies (by decide)

/-- **The policy trusts a forged certificate**: it accepts one that the CA has not signed. -/
theorem trusts_forgedCertificate :
    KnownHostsCAPolicy.init exampleLibrary exampleCaPublicKey none = .ok examplePolicy ∧
      missingHostKey exampleLibrary examplePolicy 100 "hub.example" forgedCertificate = .ok () ∧
      ¬Genuine exampleLibrary examplePolicy.caBody (acceptedNames none "hub.example") 100
        forgedCertificate := by
  have hverifies : forgedCertificate.publicBlob.all (fun blob ↦
      !exampleLibrary.signatureVerifies examplePolicy.caBody blob.keyBlob) := by decide +kernel
  refine ⟨init_examplePolicy, by decide +kernel, ?_⟩
  rintro ⟨blob, cert, hblob, -, -, hgenuine, -⟩
  rw [hblob, Option.all_some, hgenuine] at hverifies
  exact absurd hverifies (by decide)

end WgManager
