import WgManager.Enroll.Addresses

/-!
# Host certificates and the addresses they name

A host that enrolls is given a certificate for its VPN address, and whoever can present a
certificate for an address passes for the client that has it.  So at no time may two hosts hold
valid certificates for one address.

Certificates end when their time is up, and not before: nothing revokes one.  Addresses are free as
soon as the client row is deleted, and the next client gets the lowest one.  To put the two together
this file adds to the system of requests a clock, which goes forward between any two steps, and the
list of the certificates that were handed out (`Timed`).

`certificates_name_one_host` says that the property holds along every run in which a client is
deleted only when its certificate has expired, and inserted only when its request has seen all
clients of the hub.  In `reusedTrace` a client is deleted early, and the next host is given a
certificate for the address that the first one still has a certificate for.
-/

set_option autoImplicit false

namespace WgManager.Enroll

/-! ## Time, and the certificates handed out -/

/-- A certificate that was handed out: the client row it came with, and the host key it is for. -/
structure Issued where
  client : Client
  hostKey : String
  cert : HostCert
  deriving DecidableEq

/-- Rule 4 of `KnownHostsCAPolicy`. -/
def Issued.ValidAt (x : Issued) (t : Datetime) : Prop :=
  x.cert.validAfter ≤ t ∧ t < x.cert.validBefore

instance (x : Issued) (t : Datetime) : Decidable (x.ValidAt t) :=
  inferInstanceAs (Decidable (_ ∧ _))

/-- The system of requests at a time, with the certificates that were handed out so far. -/
structure Timed where
  config : Config Shared Proc
  clock : Datetime
  issued : List Issued := []

inductive TimedAction
  | wait (seconds : ℕ)
  | act (e : ℕ × Action)

/-- The certificate that a step hands out: that of a redemption, when it commits. -/
def handedOut : Option Proc → Option Proc → List Issued
  | some (.redemption _ (.admitted w a)), some (.redemption _ (.committed _)) =>
    [⟨a.client, w.payload.sshHostPublicKey, a.cert⟩]
  | _, _ => []

def timedStep (s : Timed) : TimedAction → Option Timed
  | .wait seconds => some { s with clock := s.clock + seconds }
  | .act e => (step s.config e).map fun c ↦
      { s with config := c, issued := s.issued ++ handedOut (s.config.proc e.1) (c.proc e.1) }

/-! ## When a step is harmless -/

/-- The client that a process is about to delete. -/
def Proc.deletion : Proc → Option ℕ
  | .request _ (.deleting row _) => some row.id
  | _ => none

/-- When a client is deleted, its certificate has expired. -/
def DeletesExpired (s : Timed) (e : ℕ × Action) : Prop :=
  e.2 = .commit → ∀ id ∈ (s.config.proc e.1).bind Proc.deletion,
    ∀ row ∈ s.config.shared.db.clients.rows, row.id = id →
      ∀ validBefore ∈ row.hostCert.validBefore, validBefore ≤ s.clock

instance (s : Timed) (e : ℕ × Action) : Decidable (DeletesExpired s e) :=
  inferInstanceAs (Decidable (e.2 = .commit → ∀ id ∈ (s.config.proc e.1).bind Proc.deletion,
    ∀ row ∈ s.config.shared.db.clients.rows, row.id = id →
      ∀ validBefore ∈ row.hostCert.validBefore, validBefore ≤ s.clock))

/-- Both conditions on a step. -/
def TimedOk (s : Timed) : TimedAction → Prop
  | .wait _ => True
  | .act e => InsertsCurrent s.config e ∧ DeletesExpired s e

instance (s : Timed) : ∀ a : TimedAction, Decidable (TimedOk s a)
  | .wait _ => inferInstanceAs (Decidable True)
  | .act e => inferInstanceAs (Decidable (InsertsCurrent s.config e ∧ DeletesExpired s e))

/-- A CA issues certificates for the names that it is asked for. -/
def SignsRequested (ca : SSHCABackend) : Prop :=
  ∀ key principals ttlSeconds cert, ca.mintHostCert key principals ttlSeconds = some cert →
    cert.principals = principals

/-! ## The invariant -/

/-- The certificate is for the address of the client, and its end is recorded in the row. -/
structure Certified (client : Client) (cert : HostCert) : Prop where
  address : ∃ a < 2 ^ 32, client.address = some ⟨a, 32⟩ ∧ cert.principals = [IPv4Address.text a]
  validBefore : client.hostCert.validBefore = some cert.validBefore

/-- What is true of a process: its CA does what it is asked to, and what it is about to hand out is
in order. -/
def Certifying : Proc → Prop
  | .redemption r (.admitted _ a) => SignsRequested r.env.ca ∧ Certified a.client a.cert
  | .redemption r _ => SignsRequested r.env.ca
  | .request .. => True

/-- A certificate that has not expired belongs to a client row, and no other certificate does. -/
structure Attached (s : Timed) : Prop where
  certified : ∀ x ∈ s.issued, Certified x.client x.cert
  row : ∀ x ∈ s.issued, s.clock < x.cert.validBefore →
    x.client ∈ s.config.shared.db.clients.rows
  key : ∀ x ∈ s.issued, ∀ y ∈ s.issued, s.clock < x.cert.validBefore →
    s.clock < y.cert.validBefore → x.client = y.client → x.hostKey = y.hostKey

section

variable {i : ℕ} {g g' : Shared} {a : Action}

theorem certified_of_admitClient {env : EnrollEnv} {snap : Db} {token : EnrollmentToken}
    {payload : EnrollRequest} {admitted : Admitted} (hca : SignsRequested env.ca)
    (h : env.admitClient snap token payload = .ok admitted) :
    Certified admitted.client admitted.cert := by
  obtain ⟨server, address, cert, hok, rfl⟩ := admitClient_eq_ok_iff.mp h
  have hprincipals : cert.principals = [address.text] := hca _ _ _ _ hok.signed
  exact ⟨⟨address, lt_of_allocateClientIp hok.address_free, rfl, hprincipals⟩, rfl⟩

theorem Certifying.signsRequested {r : Redemption} {ph : Phase}
    (h : Certifying (.redemption r ph)) : SignsRequested r.env.ca := by
  cases ph with
  | admitted w a => exact h.1
  | _ => exact h

theorem certifying_step {p p' : Option Proc} (hp : ∀ q, p = some q → Certifying q)
    (h : procStep i g p a = some (g', p')) : ∀ q, p' = some q → Certifying q := by
  rcases procStep_cases h with ⟨r, ph, ph', rfl, rfl, hmove⟩ | ⟨q, st, st', rfl, rfl, hmove⟩
  · have hca : SignsRequested r.env.ca := (hp _ rfl).signsRequested
    rintro q ⟨⟩
    cases hmove with
    | admitClient hadm => exact ⟨hca, certified_of_admitClient hca hadm⟩
    | _ => exact hca
  · rintro q ⟨⟩
    trivial

/-- **What a step does to the client rows**: nothing, or it inserts one, which may come with a
certificate, or it deletes one. -/
theorem clients_of_step {p p' : Option Proc} (h : procStep i g p a = some (g', p')) :
    (g'.db.clients = g.db.clients ∧ handedOut p p' = []) ∨
    (∃ row, g.db.clients.get row.id = none ∧ g'.db.clients = g.db.clients.insert row ∧
      ∀ x ∈ handedOut p p', x.client = row ∧ handedOut p p' = [x] ∧
        ∃ r w adm, p = some (.redemption r (.admitted w adm)) ∧ row = adm.client ∧
          x.cert = adm.cert) ∨
    (∃ id, a = .commit ∧ id ∈ p.bind Proc.deletion ∧ g'.db.clients = g.db.clients.delete id ∧
      handedOut p p' = []) := by
  rcases procStep_cases h with ⟨r, ph, ph', rfl, rfl, hmove⟩ | ⟨q, st, st', rfl, rfl, hmove⟩
  · cases hmove with
    | @commit w adm db hcommit =>
      obtain ⟨hfree, -, -, rfl⟩ := withEnrolled_of_commit hcommit
      refine .inr (.inl ⟨adm.client, hfree, rfl, fun x hx ↦ ?_⟩)
      obtain rfl := List.mem_singleton.mp hx
      exact ⟨rfl, rfl, r, w, adm, rfl, rfl, rfl⟩
    | _ => exact .inl ⟨rfl, rfl⟩
  · cases hmove with
    | @insert snap row clients hflush =>
      obtain ⟨hfree, -, rfl⟩ := flushClient_eq_some_iff.mp hflush
      exact .inr (.inl ⟨row, hfree, rfl, fun x hx ↦ nomatch hx⟩)
    | @delete row event auditEvents hflush =>
      exact .inr (.inr ⟨row.id, rfl, rfl, rfl, rfl⟩)
    | _ => exact .inl ⟨rfl, rfl⟩

theorem attached_nil {c : Config Shared Proc} {t : Datetime} : Attached ⟨c, t, []⟩ :=
  ⟨fun _ hx ↦ absurd hx List.not_mem_nil, fun _ hx ↦ absurd hx List.not_mem_nil,
    fun _ hx ↦ absurd hx List.not_mem_nil⟩

/-- A row that is inserted, with the certificate that it comes with, if any. -/
theorem attached_insert {s : Timed} {c : Config Shared Proc} {row : Client} {new : List Issued}
    (hs : Attached s) (hfree : s.config.shared.db.clients.get row.id = none)
    (hclients : c.shared.db.clients = s.config.shared.db.clients.insert row)
    (hnew : ∀ x ∈ new, x.client = row ∧ new = [x] ∧ Certified x.client x.cert) :
    Attached { s with config := c, issued := s.issued ++ new } := by
  have hrows : c.shared.db.clients.rows = s.config.shared.db.clients.rows ++ [row] := by
    rw [hclients, Table.rows_insert hfree]
  -- the row is new, so no certificate of before can be attached to it
  have hother : ∀ x ∈ s.issued, s.clock < x.cert.validBefore → ∀ y ∈ new, x.client ≠ y.client := by
    intro x hx hlive y hy heq
    have hmem := hs.row x hx hlive
    rw [heq, (hnew y hy).1] at hmem
    exact Table.get_eq_none_iff.mp hfree row hmem rfl
  refine ⟨fun x hx ↦ ?_, fun x hx hlive ↦ ?_, fun x hx y hy hxlive hylive heq ↦ ?_⟩
  · rcases List.mem_append.mp hx with hx | hx
    · exact hs.certified x hx
    · exact (hnew x hx).2.2
  · show x.client ∈ c.shared.db.clients.rows
    rw [hrows, List.mem_append, List.mem_singleton]
    rcases List.mem_append.mp hx with hx | hx
    · exact .inl (hs.row x hx hlive)
    · exact .inr (hnew x hx).1
  · rcases List.mem_append.mp hx with hx | hx <;> rcases List.mem_append.mp hy with hy | hy
    · exact hs.key x hx y hy hxlive hylive heq
    · exact absurd heq (hother x hx hxlive y hy)
    · exact absurd heq.symm (hother y hy hylive x hx)
    · rw [(hnew x hx).2.1, List.mem_singleton] at hy
      rw [hy]

/-- A row that is deleted when its certificate has expired. -/
theorem attached_delete {s : Timed} {c : Config Shared Proc} {id : ℕ} (hs : Attached s)
    (hexpired : ∀ row ∈ s.config.shared.db.clients.rows, row.id = id →
      ∀ validBefore ∈ row.hostCert.validBefore, validBefore ≤ s.clock)
    (hclients : c.shared.db.clients = s.config.shared.db.clients.delete id) :
    Attached { s with config := c } := by
  refine ⟨hs.certified, fun x hx hlive ↦ ?_, hs.key⟩
  have hmem := hs.row x hx hlive
  have hid : x.client.id ≠ id := by
    intro hid
    have hle := hexpired x.client hmem hid _ (hs.certified x hx).validBefore
    exact absurd hlive (not_lt.mpr hle)
  show x.client ∈ c.shared.db.clients.rows
  rw [hclients]
  exact List.mem_filter.mpr ⟨hmem, bne_iff_ne.mpr hid⟩

theorem attached_act {s : Timed} {c : Config Shared Proc} {e : ℕ × Action} (hs : Attached s)
    (hprocs : ∀ j p, s.config.proc j = some p → Certifying p) (hok : DeletesExpired s e)
    (h : step s.config e = some c) :
    Attached { s with
      config := c, issued := s.issued ++ handedOut (s.config.proc e.1) (c.proc e.1) } := by
  obtain ⟨g', p', hf, rfl⟩ := Config.step_eq_some.mp h
  have hown : (Config.mk g' (Function.update s.config.proc e.1 p')).proc e.1 = p' :=
    Function.update_self _ _ _
  rw [hown]
  rcases clients_of_step hf with ⟨hclients, hnone⟩ | ⟨row, hfree, hclients, hnew⟩ |
    ⟨id, hcommit, hid, hclients, hnone⟩
  · rw [hnone, List.append_nil]
    exact ⟨hs.certified, fun x hx hlive ↦ hclients ▸ hs.row x hx hlive, hs.key⟩
  · refine attached_insert hs hfree hclients fun x hx ↦ ?_
    obtain ⟨hclient, hsingle, r, w, adm, hp, hrow, hcert⟩ := hnew x hx
    refine ⟨hclient, hsingle, ?_⟩
    rw [hclient, hrow, hcert]
    exact (hprocs e.1 _ hp).2
  · rw [hnone, List.append_nil]
    exact attached_delete hs (hok hcommit id hid) hclients

/-! ## Runs -/

/-- The whole invariant. -/
structure Certificates (s : Timed) : Prop where
  allotted : Allotted s.config
  certifying : ∀ j p, s.config.proc j = some p → Certifying p
  attached : Attached s

theorem certificates_step {s s' : Timed} {t : TimedAction} (hs : Certificates s) (hok : TimedOk s t)
    (h : timedStep s t = some s') : Certificates s' := by
  cases t with
  | wait seconds =>
    cases h
    have hlive : ∀ {x : Issued}, s.clock + seconds < x.cert.validBefore →
        s.clock < x.cert.validBefore :=
      lt_of_le_of_lt (Int.le_add_of_nonneg_right (Int.natCast_nonneg seconds))
    exact ⟨hs.allotted, hs.certifying, hs.attached.certified,
      fun x hx hx' ↦ hs.attached.row x hx (hlive hx'),
      fun x hx y hy hx' hy' ↦ hs.attached.key x hx y hy (hlive hx') (hlive hy')⟩
  | act e =>
    obtain ⟨c, hstep, rfl⟩ := Option.map_eq_some_iff.mp h
    refine ⟨allotted_step hs.allotted hok.1 hstep, fun j p hp ↦ ?_,
      attached_act hs.attached hs.certifying hok.2 hstep⟩
    obtain ⟨g', p', hf, rfl⟩ := Config.step_eq_some.mp hstep
    by_cases hj : j = e.1
    · subst hj
      exact certifying_step (hs.certifying e.1) hf p (by simpa using hp)
    · exact hs.certifying j p (by simpa [Function.update_of_ne hj] using hp)

/-- Two certificates that are valid and share a name are one client's. -/
theorem Certificates.client_eq {s : Timed} (hs : Certificates s) {x y : Issued}
    (hx : x ∈ s.issued) (hy : y ∈ s.issued) (hserver : x.client.serverId = y.client.serverId)
    (hxlive : s.clock < x.cert.validBefore) (hylive : s.clock < y.cert.validBefore) {name : String}
    (hxname : name ∈ x.cert.principals) (hyname : name ∈ y.cert.principals) :
    x.client = y.client := by
  obtain ⟨a, ha, hxaddress, hxprincipals⟩ := (hs.attached.certified x hx).address
  obtain ⟨b, hb, hyaddress, hyprincipals⟩ := (hs.attached.certified y hy).address
  rw [hxprincipals, List.mem_singleton] at hxname
  rw [hyprincipals, List.mem_singleton] at hyname
  have hip : a = b := IPv4Address.text_inj ha hb (hxname.symm.trans hyname)
  exact hs.allotted.shared.distinct x.client (hs.attached.row x hx hxlive) y.client
    (hs.attached.row y hy hylive) hserver _ _ hxaddress hyaddress hip

/-- **No two hosts hold valid certificates for one address**, along every run of requests and
waiting times in which a client is deleted only when its certificate has expired and inserted only
when its request has seen all clients of the hub.  At every time, two valid certificates of one hub
with a common name are for one host key, and the address that a valid certificate names belongs to
the client it was handed out for and to no other. -/
theorem certificates_name_one_host {c₀ : Config Shared Proc} {t₀ : Datetime} {s : Timed}
    {as : List TimedAction} (hinit : Initial c₀) (hunique : AddressesUnique c₀.shared.db)
    (hca : ∀ j r ph, c₀.proc j = some (.redemption r ph) → SignsRequested r.env.ca)
    (hok : Run.Meets timedStep TimedOk ⟨c₀, t₀, []⟩ as)
    (h : Run.run timedStep ⟨c₀, t₀, []⟩ as = some s) :
    (∀ x ∈ s.issued, ∀ y ∈ s.issued, x.client.serverId = y.client.serverId →
      x.ValidAt s.clock → y.ValidAt s.clock →
      ∀ name ∈ x.cert.principals, name ∈ y.cert.principals → x.hostKey = y.hostKey) ∧
    ∀ x ∈ s.issued, x.ValidAt s.clock → ∃ a : IPv4Address, x.cert.principals = [a.text] ∧
      ∀ client ∈ s.config.shared.db.clients.rows, client.serverId = x.client.serverId →
        ∀ b, client.address = some b → b.ip = a → client = x.client := by
  have hstart : Certificates ⟨c₀, t₀, []⟩ := by
    refine ⟨allotted_initial hinit hunique, fun j p hp ↦ ?_, attached_nil⟩
    rcases hinit.begun hp with ⟨r, rfl⟩ | ⟨q, rfl⟩
    · exact hca j r _ hp
    · trivial
  have hs : Certificates s := Run.run_invariant (fun _ _ _ ↦ certificates_step) hstart hok h
  refine ⟨?_, ?_⟩
  · intro x hx y hy hserver hxvalid hyvalid name hxname hyname
    exact hs.attached.key x hx y hy hxvalid.2 hyvalid.2
      (hs.client_eq hx hy hserver hxvalid.2 hyvalid.2 hxname hyname)
  · intro x hx hvalid
    obtain ⟨a, -, haddress, hprincipals⟩ := (hs.attached.certified x hx).address
    refine ⟨a, hprincipals, fun client hclient hserver b hb hip ↦ ?_⟩
    exact hs.allotted.shared.distinct client hclient x.client (hs.attached.row x hx hvalid.2)
      hserver b _ hb haddress hip

end

/-! ## An address that passes from one host to the next -/

/-- The hub of `joinDb`, with its one free address, and a token for two hosts. -/
def reuseDb : Db :=
  { joinDb with
    enrollmentTokens := ⟨[{ joinToken with maxUses := 2, expiresAt := 604800 }], by decide⟩ }

/-- A CA that signs for a day from `now` on. -/
def dayCa (now : Datetime) : SSHCABackend :=
  { (joinEnv []).ca with
    mintHostCert := fun _ principals ttlSeconds ↦
      some ⟨"ssh-ed25519-cert-v01@openssh.com AAAA", now, now + ttlSeconds, 1, principals⟩ }

theorem signsRequested_dayCa (now : Datetime) : SignsRequested (dayCa now) := by
  rintro key principals ttlSeconds cert ⟨⟩
  rfl

def dayEnv (now : Datetime) (newId : ℕ) : EnrollEnv :=
  { joinEnv [] with now, newId, auditId := newId, ca := dayCa now }

/-- The host `db` presents the token. -/
def secondCall : EnrollCall :=
  { joinCall with
    body := some
      { hostname := "db"
        wgPublicKey := "ISIjJCUmJygpKissLS4vMDEyMzQ1Njc4OTo7PD0+P0A="
        sshHostPublicKey :=
          "ssh-ed25519 AAAAC3NzaC1lZDI1NTE5AAAAIEFCQ0RFRkdISUpLTE1OT1BRUlNUVVZXWFlaW1xdXl9g" } }

/-- The host `web` enrolls at time 0, its client is deleted, and `db` enrolls at time `second`. -/
def reuseStart (second : Datetime) : Config Shared Proc where
  shared := { db := reuseDb }
  proc
    | 0 => some (.redemption ⟨joinCall, dayEnv 0 11⟩ .begun)
    | 1 => some
        (.request (.deleteClient exampleContext (getTenantScope ⟨.admin, .empty⟩) 11) .begun)
    | 2 => some (.redemption ⟨secondCall, dayEnv second 12⟩ .begun)
    | _ => none

theorem initial_reuseStart (second : Datetime) : Initial (reuseStart second) := by
  refine ⟨fun _ ↦ rfl, fun _ ↦ rfl, fun i p hp ↦ ?_⟩
  rcases i with _ | _ | _ | i <;> cases hp <;> trivial

def redeemed (i : ℕ) : List TimedAction :=
  [.act (i, .read), .act (i, .lock), .act (i, .consume), .act (i, .admitClient), .act (i, .commit),
   .act (i, .release)]

def deleted (i : ℕ) : List TimedAction := [.act (i, .read), .act (i, .commit)]

/-- The client is deleted when its certificate has expired. -/
def expiredTrace : List TimedAction := redeemed 0 ++ [.wait 86400] ++ deleted 1 ++ redeemed 2

/-- The client is deleted at once. -/
def reusedTrace : List TimedAction := redeemed 0 ++ deleted 1 ++ redeemed 2

theorem certificates_name_one_host_expiredTrace :
    ∃ s, Run.run timedStep ⟨reuseStart 86400, 0, []⟩ expiredTrace = some s ∧ s.issued.length = 2 ∧
      (∀ x ∈ s.issued, ∀ y ∈ s.issued, x.client.serverId = y.client.serverId →
        x.ValidAt s.clock → y.ValidAt s.clock →
        ∀ name ∈ x.cert.principals, name ∈ y.cert.principals → x.hostKey = y.hostKey) ∧
      ∀ x ∈ s.issued, x.ValidAt s.clock → ∃ a : IPv4Address, x.cert.principals = [a.text] ∧
        ∀ client ∈ s.config.shared.db.clients.rows, client.serverId = x.client.serverId →
          ∀ b, client.address = some b → b.ip = a → client = x.client := by
  have hrun : (Run.run timedStep ⟨reuseStart 86400, 0, []⟩ expiredTrace).any
      (fun s ↦ s.issued.length = 2) = true := by decide +kernel
  obtain ⟨s, hs, hissued⟩ := (Option.any_eq_true _ _).mp hrun
  have hunique : AddressesUnique (reuseStart 86400).shared.db :=
    ⟨by rintro c₁ ⟨⟩, by rintro c ⟨⟩⟩
  have hca : ∀ j r ph, (reuseStart 86400).proc j = some (.redemption r ph) →
      SignsRequested r.env.ca := by
    intro j r ph hj
    rcases j with _ | _ | _ | j <;> cases hj <;> exact signsRequested_dayCa _
  exact ⟨s, hs, of_decide_eq_true hissued, certificates_name_one_host (initial_reuseStart _) hunique
    hca (by decide +kernel) hs⟩

/-- **An address is reused while a certificate for it is valid**: both hosts hold a valid
certificate for `10.9.0.2`. -/
theorem certificates_clash_reusedTrace :
    ∃ s, Run.run timedStep ⟨reuseStart 0, 0, []⟩ reusedTrace = some s ∧
      ∃ x ∈ s.issued, ∃ y ∈ s.issued, x.client.serverId = y.client.serverId ∧
        x.ValidAt s.clock ∧ y.ValidAt s.clock ∧
        (∃ name ∈ x.cert.principals, name ∈ y.cert.principals) ∧ x.hostKey ≠ y.hostKey := by
  have hrun : (Run.run timedStep ⟨reuseStart 0, 0, []⟩ reusedTrace).any
      (fun s ↦ ∃ x ∈ s.issued, ∃ y ∈ s.issued, x.client.serverId = y.client.serverId ∧
        x.ValidAt s.clock ∧ y.ValidAt s.clock ∧
        (∃ name ∈ x.cert.principals, name ∈ y.cert.principals) ∧ x.hostKey ≠ y.hostKey) = true := by
    decide +kernel
  obtain ⟨s, hs, hclash⟩ := (Option.any_eq_true _ _).mp hrun
  exact ⟨s, hs, of_decide_eq_true hclash⟩

end WgManager.Enroll
