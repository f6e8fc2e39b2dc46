import WgManager.Enroll.Serial
import WgManager.Enroll.Keys

/-!
# Hosts that enroll over a network that loses messages

`scripts/enroll_node.sh` runs on a fresh host: it makes the host's keys, presents a token to
`POST /v1/enroll` until it gets a 201 or a refusal, and installs what comes with the 201.  Between
the two lies a network: a request may be lost or arrive late, when the host has long given its
connection up, and so may the answer.  The script's reply to silence is to ask again.

The control plane has no memory of an attempt apart from what it commits, and what it commits makes
the next attempt fail.  So there are two things to say about any run of hosts, network and control
plane.

* `installed_agrees` — what a host has installed is right: its row is in the database with its key,
  the address in its configuration is the one in its row, its certificate is for its SSH key and
  that address, no other host has got that address on that hub, and it is the only one ever admitted
  with its key.
* `installs_iff_pending` — a host whose key is in the database gets its files just when the answer
  of the attempt that put it there is still on the way to the connection that it is waiting on.
  When that answer is lost, or the control plane fails between its commit and its answer, no number
  of retries and no new token helps; an operator has to delete the row.

The control plane serves one request at a time here: each takes effect at once, which is what it
does in `WgManager.Enroll.System` when no other request overlaps with it (`handle_runs_alone`).
Requests that read while others commit are the subject of that module.
-/

set_option autoImplicit false

namespace WgManager.Enroll.Protocol

/-! ## Hosts -/

/-- The files of an enrolled host, and its management account. -/
structure Files where
  /-- `/etc/wireguard/wg0.conf` -/
  wgConf : String
  /-- `/etc/ssh/wg-manager-user-ca.pub` -/
  userCa : String
  /-- `/etc/ssh/ssh_host_ed25519_key-cert.pub` -/
  hostCert : String
  mgmtUser : String
  deriving DecidableEq

/-- What `curl` reports: the body of a 201, or another code, `000` for a connection that failed. -/
inductive Answer
  | created (response : EnrollResponse)
  | code (status : ℕ)

/-- How far a run of the script has got. -/
inductive HostPhase
  /-- It has not been run. -/
  | fresh
  /-- `attempt` attempts are over, and another one is due. -/
  | due (attempt : ℕ)
  /-- Attempt number `attempt` is waiting for its answer on connection `conn`. -/
  | waiting (attempt conn : ℕ)
  | enrolled (response : EnrollResponse)
  | done
  | died

/-- A host.  Its keys are made once and found again by every later run of the script. -/
structure Host where
  hostname : String
  /-- `wg pubkey < /etc/wireguard/privatekey` -/
  wgPublicKey : String
  /-- The first line of `ssh_host_ed25519_key.pub`. -/
  sshHostPublicKey : String
  /-- `WGM_ENROLL_TOKEN` of the present run. -/
  token : String
  /-- `WGM_MAX_ATTEMPTS` -/
  maxAttempts : ℕ := 30
  /-- How many connections the host has opened so far. -/
  conns : ℕ := 0
  phase : HostPhase := .fresh
  files : Option Files := none

/-- `body.json` -/
def Host.body (h : Host) : EnrollRequest where
  hostname := h.hostname
  wgPublicKey := h.wgPublicKey
  sshHostPublicKey := h.sshHostPublicKey

/-- The codes after which the script tries again: `000|429|5??`. -/
def retriable (code : ℕ) : Bool := code = 0 || code = 429 || (500 ≤ code && code < 600)

/-- The `case "$code"` of the loop. -/
def Host.receive (h : Host) (attempt : ℕ) : Answer → Host
  | .created response => { h with phase := .enrolled response }
  | .code status =>
    if retriable status then
      if attempt ≥ h.maxAttempts then { h with phase := .died }
      else { h with phase := .due attempt }
    else { h with phase := .died }

/-- `^[a-z_][a-z0-9_-]{0,31}$` -/
def mgmtUserPattern : List Char → Bool
  | [] => false
  | c :: cs =>
    (('a' ≤ c && c ≤ 'z') || c = '_') && cs.length ≤ 31 &&
      cs.all fun c ↦ ('a' ≤ c && c ≤ 'z') || ('0' ≤ c && c ≤ '9') || c = '_' || c = '-'

/-- What the script makes of the body of a 201; `none` when it refuses the account.  The command
substitution that reads the account strips its trailing newlines. -/
def installFiles (r : EnrollResponse) : Option Files :=
  let mgmtUser := PyStr.rstrip '\n' r.sshUsername
  if mgmtUserPattern mgmtUser.toList then
    some ⟨r.wgConfig, r.userCaPublicKey ++ "\n", r.hostCertificate ++ "\n", mgmtUser⟩
  else none

/-! ## The network and the control plane -/

/-- What is on a connection. -/
inductive Packet
  | request (body : EnrollRequest) (token : String)
  | answer (a : Answer)

/-- A client that was admitted, for the host that had asked and the connection it had asked on. -/
structure Commit where
  host : ℕ
  conn : ℕ
  payload : EnrollRequest
  env : EnrollEnv
  admitted : Admitted

/-- What the hosts share. -/
structure Shared where
  db : Db
  /-- What is on the way on connection `conn` of host `i`. -/
  wire : ℕ → ℕ → Option Packet := fun _ _ ↦ none
  /-- The clients admitted so far.  Nothing reads it. -/
  commits : List Commit := []

/-- What can happen at host `i`, or on one of its connections. -/
inductive Action
  /-- The script is started, also on a host where it ran before. -/
  | run (token : String)
  | send
  /-- The request on a connection reaches the control plane, which takes the host for `peer`. -/
  | handle (conn : ℕ) (peer : Option String) (env : EnrollEnv)
  /-- A connection breaks, with what is on it. -/
  | lose (conn : ℕ)
  | deliver
  /-- The host gives the connection up. -/
  | timeout
  | install
  /-- Anything else that changes the database. -/
  | outside (db : Db)

namespace Shared

/-- Put a packet on a connection, or take it off. -/
def put (g : Shared) (i conn : ℕ) (p : Option Packet) : Shared :=
  { g with wire := fun j k ↦ if j = i ∧ k = conn then p else g.wire j k }

@[simp] theorem put_db (g : Shared) (i conn : ℕ) (p : Option Packet) : (g.put i conn p).db = g.db :=
  rfl

@[simp] theorem put_commits (g : Shared) (i conn : ℕ) (p : Option Packet) :
    (g.put i conn p).commits = g.commits := rfl

theorem put_wire (g : Shared) (i conn j k : ℕ) (p : Option Packet) :
    (g.put i conn p).wire j k = if j = i ∧ k = conn then p else g.wire j k := rfl

end Shared

section

variable (load : String → LoadedSshKey)

/-- The call that a request makes. -/
def callOf (body : EnrollRequest) (token : String) (peer : Option String) : EnrollCall where
  authorization := some ("Bearer " ++ token)
  body :=
    match body.modelValidate load with
    | .ok payload => some payload
    | _ => none
  peer := peer

/-- The answer to a request.  A body that makes the validation raise is a 500, not a 422. -/
def answerOf (body : EnrollRequest) : Except Rejection EnrollResponse → Answer
  | .ok response => .created response
  | .error .validation =>
    match body.modelValidate load with
    | .raised => .code 500
    | _ => .code 422
  | .error rejection => .code rejection.status

/-- The client that a request commits. -/
def commitOf (i conn : ℕ) (env : EnrollEnv) (db : Db) (call : EnrollCall) : List Commit :=
  match env.transaction db call, call.body with
  | .ok (_, admitted), some payload => [⟨i, conn, payload, env, admitted⟩]
  | _, _ => []

/-- The control plane takes the request from the connection and puts its answer there. -/
def Shared.handle (g : Shared) (i conn : ℕ) (body : EnrollRequest) (token : String)
    (peer : Option String) (env : EnrollEnv) : Shared :=
  let call := callOf load body token peer
  let outcome := env.enroll g.db call
  { g.put i conn (some (.answer (answerOf load body outcome.response))) with
    db := outcome.db
    commits := g.commits ++ commitOf i conn env g.db call }

/-- A step at host `i`. -/
def hostStep (i : ℕ) (g : Shared) (h : Host) : Action → Option (Shared × Host)
  | .run token => some (g, { h with token, phase := .due 0 })
  | .send =>
    match h.phase with
    | .due attempt =>
      some (g.put i h.conns (some (.request h.body h.token)),
        { h with conns := h.conns + 1, phase := .waiting (attempt + 1) h.conns })
    | _ => none
  | .handle conn peer env =>
    match g.wire i conn with
    | some (.request body token) => some (g.handle load i conn body token peer env, h)
    | _ => none
  | .lose conn => some (g.put i conn none, h)
  | .deliver =>
    match h.phase with
    | .waiting attempt conn =>
      match g.wire i conn with
      | some (.answer a) => some (g.put i conn none, h.receive attempt a)
      | _ => none
    | _ => none
  | .timeout =>
    match h.phase with
    | .waiting attempt _ => some (g, h.receive attempt (.code 0))
    | _ => none
  | .install =>
    match h.phase with
    | .enrolled response =>
      match installFiles response with
      | none => some (g, { h with phase := .died })
      | some files => some (g, { h with phase := .done, files := some files })
    | _ => none
  | .outside db => some ({ g with db }, h)

def procStep (i : ℕ) (g : Shared) : Option Host → Action → Option (Shared × Option Host)
  | none, _ => none
  | some h, a => (hostStep load i g h a).map fun s ↦ (s.1, some s.2)

/-- A step of hosts, network and control plane. -/
def step : Config Shared Host → ℕ × Action → Option (Config Shared Host) :=
  Config.step (procStep load)

end

/-- No host has run the script, and nothing is on the way. -/
structure Initial (c : Config Shared Host) : Prop where
  wire : ∀ i conn, c.shared.wire i conn = none
  commits : c.shared.commits = []
  hosts : ∀ i h, c.proc i = some h → h.phase = .fresh ∧ h.conns = 0 ∧ h.files = none
  addresses : AddressesUnique c.shared.db

/-! ## What a step can do -/

section

variable {load : String → LoadedSshKey} {i : ℕ} {g g' : Shared} {h h' : Host} {a : Action}

@[simp] theorem receive_files (h : Host) (attempt : ℕ) (a : Answer) :
    (h.receive attempt a).files = h.files := by
  unfold Host.receive
  repeat' split
  all_goals rfl

@[simp] theorem receive_conns (h : Host) (attempt : ℕ) (a : Answer) :
    (h.receive attempt a).conns = h.conns := by
  unfold Host.receive
  repeat' split
  all_goals rfl

@[simp] theorem receive_body (h : Host) (attempt : ℕ) (a : Answer) :
    (h.receive attempt a).body = h.body := by
  unfold Host.receive
  repeat' split
  all_goals rfl

@[simp] theorem receive_not_waiting (h : Host) (attempt : ℕ) (a : Answer) (n conn : ℕ) :
    (h.receive attempt a).phase ≠ .waiting n conn := by
  unfold Host.receive
  repeat' split
  all_goals simp

@[simp] theorem receive_phase_enrolled (h : Host) (attempt : ℕ) (a : Answer) (r : EnrollResponse) :
    (h.receive attempt a).phase = .enrolled r ↔ a = .created r := by
  unfold Host.receive
  repeat' split
  all_goals simp

/-- **What a step at a host can do.** -/
inductive HostMove (load : String → LoadedSshKey) (i : ℕ) (g : Shared) (h : Host) :
    Action → Shared → Host → Prop
  | run (token : String) : HostMove load i g h (.run token) g { h with token, phase := .due 0 }
  | send {attempt : ℕ} (phase : h.phase = .due attempt) :
      HostMove load i g h .send (g.put i h.conns (some (.request h.body h.token)))
        { h with conns := h.conns + 1, phase := .waiting (attempt + 1) h.conns }
  | handle {conn : ℕ} {body : EnrollRequest} {token : String} (peer : Option String)
      (env : EnrollEnv) (wire : g.wire i conn = some (.request body token)) :
      HostMove load i g h (.handle conn peer env) (g.handle load i conn body token peer env) h
  | lose (conn : ℕ) : HostMove load i g h (.lose conn) (g.put i conn none) h
  | deliver {attempt conn : ℕ} {a : Answer} (phase : h.phase = .waiting attempt conn)
      (wire : g.wire i conn = some (.answer a)) :
      HostMove load i g h .deliver (g.put i conn none) (h.receive attempt a)
  | timeout {attempt conn : ℕ} (phase : h.phase = .waiting attempt conn) :
      HostMove load i g h .timeout g (h.receive attempt (.code 0))
  | refuse {response : EnrollResponse} (phase : h.phase = .enrolled response)
      (files : installFiles response = none) :
      HostMove load i g h .install g { h with phase := .died }
  | install {response : EnrollResponse} {files : Files} (phase : h.phase = .enrolled response)
      (eq : installFiles response = some files) :
      HostMove load i g h .install g { h with phase := .done, files := some files }
  | outside (db : Db) : HostMove load i g h (.outside db) { g with db } h

theorem hostMove_of_step (hstep : hostStep load i g h a = some (g', h')) :
    HostMove load i g h a g' h' := by
  unfold hostStep at hstep
  split at hstep
  · cases hstep
    exact .run _
  · split at hstep
    · next hphase =>
      cases hstep
      exact .send hphase
    · cases hstep
  · split at hstep
    · next hwire =>
      cases hstep
      exact .handle _ _ hwire
    · cases hstep
  · cases hstep
    exact .lose _
  · split at hstep
    · next hphase =>
      split at hstep
      · next hwire =>
        cases hstep
        exact .deliver hphase hwire
      · cases hstep
    · cases hstep
  · split at hstep
    · next hphase =>
      cases hstep
      exact .timeout hphase
    · cases hstep
  · split at hstep
    · next hphase =>
      split at hstep
      · next hfiles =>
        cases hstep
        exact .refuse hphase hfiles
      · next hfiles =>
        cases hstep
        exact .install hphase hfiles
    · cases hstep
  · cases hstep
    exact .outside _

theorem exists_move_of_step {p p' : Option Host} (hstep : procStep load i g p a = some (g', p')) :
    ∃ h h', p = some h ∧ p' = some h' ∧ HostMove load i g h a g' h' := by
  unfold procStep at hstep
  split at hstep
  · cases hstep
  · obtain ⟨⟨g₁, h₁⟩, hhost, heq⟩ := Option.map_eq_some_iff.mp hstep
    cases heq
    exact ⟨_, h₁, rfl, rfl, hostMove_of_step hhost⟩

end

/-! ## What a request does -/

section

variable {load : String → LoadedSshKey} {i conn : ℕ} {env : EnrollEnv} {db : Db}
  {call : EnrollCall} {cm : Commit}

/-- A 201 is about the client that was admitted. -/
theorem response_of_finish {admitted : Admitted} {r : EnrollResponse}
    (h : (env.finish db admitted).response = .ok r) : r = env.respond admitted := by
  rw [EnrollEnv.finish] at h
  split at h
  · simp at h
  · split at h
    · simp at h
    · dsimp only at h
      split at h
      · simp at h
      · split at h
        · simp at h
        · simpa [eq_comm] using h

/-- A commit admits a client with the key of the body, at an address that is free, and has its SSH
key signed for that address and nothing else. -/
structure Admits (db : Db) (call : EnrollCall) (cm : Commit) : Prop where
  body : call.body = some cm.payload
  key : cm.admitted.client.publicKey = cm.payload.wgPublicKey
  key_free : ∀ c ∈ db.clients.rows, c.publicKey ≠ cm.payload.wgPublicKey
  hub : cm.admitted.client.serverId = cm.admitted.server.id
  new_id : db.clients.get cm.admitted.client.id = none
  allocated : Allocated db cm.admitted.client
  signed : ∃ address, cm.admitted.client.address = some ⟨address, 32⟩ ∧
    cm.env.ca.mintHostCert cm.payload.sshHostPublicKey [address.text] cm.env.hostCertTtlSeconds =
      some cm.admitted.cert

/-- **What a request does to the clients, and what it answers.**  Either it changes nothing and
there is no 201; or it inserts one client, and a 201 is about that one. -/
theorem enroll_cases (i conn : ℕ) (env : EnrollEnv) (db : Db) (call : EnrollCall) :
    (commitOf i conn env db call = [] ∧ (env.enroll db call).db = db ∧
      ∀ r, (env.enroll db call).response ≠ .ok r) ∨
    ∃ cm row, commitOf i conn env db call = [cm] ∧ cm.host = i ∧ cm.conn = conn ∧
      Admits db call cm ∧
      SameRows (env.withEnrolled db row cm.admitted.client) (env.enroll db call).db ∧
      ∀ r, (env.enroll db call).response = .ok r → r = cm.env.respond cm.admitted := by
  cases htx : env.transaction db call with
  | error rejection => simp [commitOf, EnrollEnv.enroll, htx]
  | ok result =>
    obtain ⟨committed, admitted⟩ := result
    obtain ⟨_, -, hredeem⟩ := bind_eq_ok_iff.mp htx
    obtain ⟨row, payload, tokens, hchecks, -, -, hconsume, hadm, hcommit⟩ :=
      redeem_eq_ok_iff.mp hredeem
    obtain ⟨-, -, -, rfl⟩ := consumeToken_eq_some_iff.mp hconsume
    obtain ⟨hfree, -, -, hdb⟩ := withEnrolled_of_commit hcommit
    obtain ⟨_, -, -, -, -, -, hbody⟩ := tokenChecks_eq_ok_iff.mp hchecks
    obtain ⟨server, address, cert, hok, rfl⟩ := admitClient_eq_ok_iff.mp hadm
    refine .inr ⟨⟨i, conn, payload, env, _⟩, row, by simp only [commitOf, htx, hbody], rfl, rfl,
      ⟨hbody, rfl, fun c hc ↦ Collation.ne_of_not_same (hok.key_free c hc), rfl, hfree,
        allocated_of_admitClient hadm, address, rfl, hok.signed⟩, ?_, ?_⟩
    · rw [EnrollEnv.enroll, htx, ← hdb]
      rcases finish_db env committed ⟨env.enrolledClient row payload server address cert, server,
        cert⟩ with hsame | ⟨id, hbump⟩
      · rw [hsame]
        exact .refl committed
      · rw [hbump]
        exact sameRows_bumpRequestedGen committed id
    · intro r hr
      rw [EnrollEnv.enroll, htx] at hr
      exact response_of_finish hr

theorem unique_of_sameRows {db db' : Db} (h : SameRows db db') (hu : AddressesUnique db) :
    AddressesUnique db' := by
  refine ⟨by rw [h.clients]; exact hu.distinct, ?_⟩
  rw [h.clients]
  intro c hc hub hhub
  have hsame := h.servers c.serverId
  rw [hhub, Option.map_some] at hsame
  obtain ⟨hub', hhub', heq⟩ := Option.map_eq_some_iff.mp hsame.symm
  have haddress : hub.address = hub'.address := (congrArg Server.address heq).symm
  rw [haddress]
  exact hu.not_hub c hc hub' hhub'

/-- An admission keeps the addresses unique. -/
theorem unique_of_admits {db' : Db} {row : EnrollmentToken} (h : Admits db call cm)
    (hrows : SameRows (env.withEnrolled db row cm.admitted.client) db')
    (hu : AddressesUnique db) : AddressesUnique db' :=
  unique_of_sameRows hrows (unique_insert hu h.allocated rfl h.new_id (fun _ hc _ ↦ hc) rfl rfl)

theorem answerOf_eq_created_iff (load : String → LoadedSshKey) (body : EnrollRequest)
    {response : Except Rejection EnrollResponse}
    {r : EnrollResponse} : answerOf load body response = .created r ↔ response = .ok r := by
  unfold answerOf
  split
  · simp
  · split <;> simp
  · simp

/-- **What it does to hosts and network that the control plane takes a request.** -/
theorem handle_cases (load : String → LoadedSshKey) (g : Shared) (i conn : ℕ)
    (body : EnrollRequest) (token : String) (peer : Option String) (env : EnrollEnv) :
    ((g.handle load i conn body token peer env).db = g.db ∧
      (g.handle load i conn body token peer env).commits = g.commits ∧
      ∀ r, (g.handle load i conn body token peer env).wire i conn ≠
        some (.answer (.created r))) ∨
    ∃ cm, (g.handle load i conn body token peer env).commits = g.commits ++ [cm] ∧
      cm.host = i ∧ Admits g.db (callOf load body token peer) cm ∧
      (g.handle load i conn body token peer env).db.clients =
        g.db.clients.insert cm.admitted.client ∧
      (AddressesUnique g.db →
        AddressesUnique (g.handle load i conn body token peer env).db) ∧
      ∀ r, (g.handle load i conn body token peer env).wire i conn = some (.answer (.created r)) →
        r = cm.env.respond cm.admitted := by
  have hwire : ∀ r, (g.handle load i conn body token peer env).wire i conn =
      some (.answer (.created r)) ↔
        (env.enroll g.db (callOf load body token peer)).response = .ok r := by
    intro r
    rw [← answerOf_eq_created_iff load body]
    simp [Shared.handle, Shared.put]
  rcases enroll_cases i conn env g.db (callOf load body token peer) with
    ⟨hnone, hdb, hno⟩ | ⟨cm, row, hone, hhost, -, hadmits, hrows, hanswer⟩
  · refine .inl ⟨hdb, by simp [Shared.handle, hnone], fun r hr ↦ hno r ((hwire r).mp hr)⟩
  · refine .inr ⟨cm, by simp [Shared.handle, hone], hhost, hadmits, hrows.clients,
      unique_of_admits hadmits hrows, fun r hr ↦ hanswer r ((hwire r).mp hr)⟩

/-- **Taking a request is a redemption on its own.**  Where no lock is held, the redemption comes to
its end without a step of any other process, and gives its locks back; what it leaves is what the
control plane has after it has taken the request, up to the generations of the hubs. -/
theorem handle_runs_alone (load : String → LoadedSshKey) (g : Shared) (i conn : ℕ)
    (body : EnrollRequest) (token : String) (peer : Option String) (env : EnrollEnv)
    {c : Config Enroll.Shared Proc} {k : ℕ}
    (hproc : c.proc k = some (.redemption ⟨callOf load body token peer, env⟩ .begun))
    (hdb : c.shared.db = g.db) (hipam : ∀ id, c.shared.ipam id = none)
    (hrows : ∀ id, c.shared.rows id = none) :
    ∃ (as : List Enroll.Action) (c' : Config Enroll.Shared Proc) (enrolled : Bool),
      Run.run Enroll.step c (as.map fun a ↦ (k, a)) = some c' ∧
      c'.proc k = some (.redemption ⟨callOf load body token peer, env⟩ (.done enrolled)) ∧
      (∀ id, c'.shared.ipam id = none) ∧ (∀ id, c'.shared.rows id = none) ∧
      SameRows c'.shared.db (g.handle load i conn body token peer env).db := by
  obtain ⟨as, enrolled, hrun⟩ :=
    endsAlone_of_begun k ⟨callOf load body token peer, env⟩ hipam hrows
  refine ⟨as, _, enrolled, run_of_runAlone hproc hrun, Function.update_self .., hipam, hrows, ?_⟩
  have hhandle : (g.handle load i conn body token peer env).db =
      (env.enroll c.shared.db (callOf load body token peer)).db := by
    rw [hdb]
    rfl
  rw [hhandle]
  exact sameRows_enroll ⟨callOf load body token peer, env⟩ c.shared.db

theorem modelValidate_of_callOf {body payload : EnrollRequest} {token : String}
    {peer : Option String} (h : (callOf load body token peer).body = some payload) :
    body.modelValidate load = .ok payload := by
  rw [callOf] at h
  split at h
  · next hok => rw [hok, Option.some.inj h]
  · simp at h

/-- The key of a body goes through the validation as it is. -/
theorem wgPublicKey_of_valid {body payload : EnrollRequest}
    (hvalid : body.modelValidate load = .ok payload) : payload.wgPublicKey = body.wgPublicKey := by
  rw [EnrollRequest.modelValidate] at hvalid
  split at hvalid
  · simp at hvalid
  · split at hvalid
    · next hwg _ =>
      obtain ⟨rfl, -⟩ := wgKeyShape_eq_ok_iff.mp hwg
      simp only [Validated.ok.injEq] at hvalid
      rw [← hvalid]
    · simp at hvalid

end

/-! ## What others may do to the database -/

/-- Two versions of a client row, as far as the host is concerned. -/
structure SameClient (c c' : Client) : Prop where
  id : c'.id = c.id
  serverId : c'.serverId = c.serverId
  address : c'.address = c.address
  publicKey : c'.publicKey = c.publicKey

theorem SameClient.refl (c : Client) : SameClient c c := ⟨rfl, rfl, rfl, rfl⟩

theorem SameClient.trans {c c' c'' : Client} (h : SameClient c c') (h' : SameClient c' c'') :
    SameClient c c'' :=
  ⟨h'.id.trans h.id, h'.serverId.trans h.serverId, h'.address.trans h.address,
    h'.publicKey.trans h.publicKey⟩

/-- No client is deleted or moved, and no address given out twice. -/
structure KeepsClients (db db' : Db) : Prop where
  rows : ∀ c ∈ db.clients.rows, ∃ c' ∈ db'.clients.rows, SameClient c c'
  addresses : AddressesUnique db → AddressesUnique db'

/-- Operators and workers leave the clients where they are. -/
def Outside (c : Config Shared Host) (e : ℕ × Action) : Prop :=
  ∀ db, e.2 = .outside db → KeepsClients c.shared.db db

/-! ## The invariant -/

/-- The database knows every client that was admitted, and no key was admitted twice. -/
structure Sound (g : Shared) : Prop where
  unique : AddressesUnique g.db
  rows : ∀ cm ∈ g.commits, ∃ c ∈ g.db.clients.rows, SameClient cm.admitted.client c
  admits : ∀ cm ∈ g.commits, ∃ db call, Admits db call cm
  keys : (g.commits.map fun cm ↦ cm.payload.wgPublicKey).Nodup

/-- `r` is about a client that was admitted for host `i`. -/
def Promised (g : Shared) (i : ℕ) (r : EnrollResponse) : Prop :=
  ∃ cm ∈ g.commits, cm.host = i ∧ r = cm.env.respond cm.admitted

/-- A host is told nothing, and has nothing, but what it was promised. -/
structure HostOk (load : String → LoadedSshKey) (i : ℕ) (g : Shared) (h : Host) : Prop where
  requests : ∀ conn body token, g.wire i conn = some (.request body token) → body = h.body
  answers : ∀ conn r, g.wire i conn = some (.answer (.created r)) → Promised g i r
  enrolled : ∀ r, h.phase = .enrolled r → Promised g i r
  files : ∀ f, h.files = some f → ∃ r, Promised g i r ∧ installFiles r = some f
  commits : ∀ cm ∈ g.commits, cm.host = i → h.body.modelValidate load = .ok cm.payload

section

variable {load : String → LoadedSshKey} {i j : ℕ} {g g' : Shared} {h h' : Host} {a : Action}

theorem Promised.mono {r : EnrollResponse} (hp : Promised g i r)
    (hcommits : ∀ cm ∈ g.commits, cm ∈ g'.commits) : Promised g' i r := by
  obtain ⟨cm, hcm, hhost, hr⟩ := hp
  exact ⟨cm, hcommits cm hcm, hhost, hr⟩

theorem Sound.of_outside {db : Db} (hg : Sound g) (hkeeps : KeepsClients g.db db) :
    Sound { g with db } := by
  refine ⟨hkeeps.addresses hg.unique, fun cm hcm ↦ ?_, hg.admits, hg.keys⟩
  obtain ⟨c, hc, hsame⟩ := hg.rows cm hcm
  obtain ⟨c', hc', hsame'⟩ := hkeeps.rows c hc
  exact ⟨c', hc', hsame.trans hsame'⟩

/-- The control plane admits a key once: the row of the first time is still there. -/
theorem Sound.of_admits {db : Db} {call : EnrollCall} {cm : Commit} (hg : Sound g)
    (hcommits : g'.commits = g.commits ++ [cm]) (hadmits : Admits db call cm) (hdb : g.db = db)
    (hclients : g'.db.clients = db.clients.insert cm.admitted.client)
    (hunique : AddressesUnique g'.db) : Sound g' := by
  subst hdb
  have hmem : ∀ x ∈ g'.commits, x ∈ g.commits ∨ x = cm := by
    intro x hx
    simpa [hcommits] using hx
  have hrows : g'.db.clients.rows = g.db.clients.rows ++ [cm.admitted.client] := by
    rw [hclients, Table.rows_insert hadmits.new_id]
  refine ⟨hunique, fun x hx ↦ ?_, fun x hx ↦ ?_, ?_⟩
  · rcases hmem x hx with hold | rfl
    · obtain ⟨c, hc, hsame⟩ := hg.rows x hold
      exact ⟨c, by simp [hrows, hc], hsame⟩
    · exact ⟨x.admitted.client, by simp [hrows], .refl _⟩
  · rcases hmem x hx with hold | rfl
    · exact hg.admits x hold
    · exact ⟨_, _, hadmits⟩
  · rw [hcommits, List.map_append, List.map_singleton, List.nodup_append]
    refine ⟨hg.keys, List.nodup_singleton _, ?_⟩
    simp only [List.mem_map, List.mem_singleton]
    rintro _ ⟨x, hx, rfl⟩ _ rfl hkey
    obtain ⟨c, hc, hsame⟩ := hg.rows x hx
    obtain ⟨_, _, hx'⟩ := hg.admits x hx
    exact hadmits.key_free c hc (by rw [hsame.publicKey, hx'.key, hkey])

/-- What another host does is no concern of a host. -/
theorem HostOk.frame (hj : HostOk load j g h) (hwire : g'.wire j = g.wire j)
    (hcommits : ∀ cm ∈ g.commits, cm ∈ g'.commits)
    (hnew : ∀ cm ∈ g'.commits, cm.host = j → cm ∈ g.commits) : HostOk load j g' h where
  requests conn body token := by rw [hwire]; exact hj.requests conn body token
  answers conn r hr := (hj.answers conn r (by rw [← hwire]; exact hr)).mono hcommits
  enrolled r hr := (hj.enrolled r hr).mono hcommits
  files f hf := by
    obtain ⟨r, hr, heq⟩ := hj.files f hf
    exact ⟨r, hr.mono hcommits, heq⟩
  commits cm hcm hhost := hj.commits cm (hnew cm hcm hhost) hhost

theorem put_wire_of_ne (hj : j ≠ i) (conn : ℕ) (p : Option Packet) :
    (g.put i conn p).wire j = g.wire j := by
  funext k
  simp [Shared.put_wire, hj]

/-- A packet on a connection was there before, or is the one that was put there. -/
theorem wire_of_put {conn k : ℕ} {p : Option Packet} {q : Packet}
    (hq : (g.put i conn p).wire i k = some q) : g.wire i k = some q ∨ p = some q := by
  rw [Shared.put_wire] at hq
  split at hq
  · exact .inr hq
  · exact .inl hq

/-- A host keeps what is true of it when only its phase, its token and its files change. -/
theorem HostOk.update (hh : HostOk load i g h) (hbody : h'.body = h.body)
    (henrolled : ∀ r, h'.phase = .enrolled r → Promised g i r)
    (hfiles : ∀ f, h'.files = some f → ∃ r, Promised g i r ∧ installFiles r = some f) :
    HostOk load i g h' where
  requests conn body token hw := by rw [hbody]; exact hh.requests conn body token hw
  answers := hh.answers
  enrolled := henrolled
  files := hfiles
  commits cm hcm hhost := by rw [hbody]; exact hh.commits cm hcm hhost

/-- A host keeps what is true of it when it sends its body, or a connection is cleared. -/
theorem HostOk.put {conn : ℕ} {p : Option Packet} (hh : HostOk load i g h)
    (hp : ∀ q, p = some q → ∃ token, q = .request h.body token) :
    HostOk load i (g.put i conn p) h where
  requests k body token hw := by
    rcases wire_of_put hw with hold | hnew
    · exact hh.requests k body token hold
    · obtain ⟨token', heq⟩ := hp _ hnew
      simp only [Packet.request.injEq] at heq
      exact heq.1
  answers k r hw := by
    rcases wire_of_put hw with hold | hnew
    · exact hh.answers k r hold
    · obtain ⟨token', heq⟩ := hp _ hnew
      simp at heq
  enrolled := hh.enrolled
  files := hh.files
  commits := hh.commits

/-- What a step leaves of the others' affairs. -/
structure Frame (i : ℕ) (g g' : Shared) : Prop where
  wire : ∀ j, j ≠ i → g'.wire j = g.wire j
  commits : ∀ cm ∈ g.commits, cm ∈ g'.commits
  new : ∀ cm ∈ g'.commits, cm ∈ g.commits ∨ cm.host = i

theorem frame_of_move (hmove : HostMove load i g h a g' h') : Frame i g g' := by
  have hput : ∀ conn p, Frame i g (g.put i conn p) := fun conn p ↦
    ⟨fun j hj ↦ put_wire_of_ne hj conn p, fun _ hcm ↦ hcm, fun _ hcm ↦ .inl hcm⟩
  have hself : Frame i g g := ⟨fun _ _ ↦ rfl, fun _ hcm ↦ hcm, fun _ hcm ↦ .inl hcm⟩
  induction hmove with
  | send | lose | deliver => exact hput _ _
  | run | timeout | refuse | install => exact hself
  | outside => exact ⟨fun _ _ ↦ rfl, fun _ hcm ↦ hcm, fun _ hcm ↦ .inl hcm⟩
  | @handle conn body token peer env _ =>
    refine ⟨fun j hj ↦ put_wire_of_ne hj conn _, fun cm hcm ↦ ?_, fun cm hcm ↦ ?_⟩
    · exact List.mem_append_left _ hcm
    · rcases handle_cases load g i conn body token peer env with
        ⟨-, hcommits, -⟩ | ⟨cm', hcommits, hhost, -⟩
      · exact .inl (by simpa [hcommits] using hcm)
      · rw [hcommits, List.mem_append, List.mem_singleton] at hcm
        rcases hcm with hold | rfl
        · exact .inl hold
        · exact .inr hhost

/-- The control plane takes a request of a host. -/
theorem HostOk.handle {conn : ℕ} {body : EnrollRequest} {token : String} {peer : Option String}
    {env : EnrollEnv} (hg : Sound g) (hh : HostOk load i g h)
    (hwire : g.wire i conn = some (.request body token)) :
    Sound (g.handle load i conn body token peer env) ∧
      HostOk load i (g.handle load i conn body token peer env) h := by
  have hbody := hh.requests conn body token hwire
  have hother : ∀ k q, k ≠ conn →
      (g.handle load i conn body token peer env).wire i k = some q → g.wire i k = some q := by
    intro k q hk hq
    simpa [Shared.handle, Shared.put, hk] using hq
  have hrequest : ∀ k body' token',
      (g.handle load i conn body token peer env).wire i k = some (.request body' token') →
        body' = h.body := by
    intro k body' token' hq
    by_cases hk : k = conn
    · simp [Shared.handle, Shared.put, hk] at hq
    · exact hh.requests k body' token' (hother k _ hk hq)
  rcases handle_cases load g i conn body token peer env with
    ⟨hdb, hcommits, hno⟩ | ⟨cm, hcommits, hhost, hadmits, hclients, hunique, hanswer⟩
  · have hpromised : ∀ r, Promised g i r →
        Promised (g.handle load i conn body token peer env) i r :=
      fun r hr ↦ hr.mono (by simp [hcommits])
    refine ⟨⟨?_, ?_, ?_, ?_⟩, ⟨hrequest, fun k r hr ↦ ?_, fun r hr ↦ ?_, fun f hf ↦ ?_, ?_⟩⟩
    · rw [hdb]; exact hg.unique
    · rw [hdb, hcommits]; exact hg.rows
    · rw [hcommits]; exact hg.admits
    · rw [hcommits]; exact hg.keys
    · by_cases hk : k = conn
      · rw [hk] at hr
        exact absurd hr (hno r)
      · exact hpromised r (hh.answers k r (hother k _ hk hr))
    · exact hpromised r (hh.enrolled r hr)
    · obtain ⟨r, hr, heq⟩ := hh.files f hf
      exact ⟨r, hpromised r hr, heq⟩
    · rw [hcommits]; exact hh.commits
  · have hpromised : ∀ r, Promised g i r →
        Promised (g.handle load i conn body token peer env) i r :=
      fun r hr ↦ hr.mono (by simp +contextual [hcommits])
    refine ⟨hg.of_admits hcommits hadmits rfl hclients (hunique hg.unique),
      ⟨hrequest, fun k r hr ↦ ?_, fun r hr ↦ ?_, fun f hf ↦ ?_, fun x hx hxhost ↦ ?_⟩⟩
    · by_cases hk : k = conn
      · rw [hk] at hr
        exact ⟨cm, by simp [hcommits], hhost, hanswer r hr⟩
      · exact hpromised r (hh.answers k r (hother k _ hk hr))
    · exact hpromised r (hh.enrolled r hr)
    · obtain ⟨r, hr, heq⟩ := hh.files f hf
      exact ⟨r, hpromised r hr, heq⟩
    · rw [hcommits, List.mem_append, List.mem_singleton] at hx
      rcases hx with hold | rfl
      · exact hh.commits x hold hxhost
      · rw [← hbody]
        exact modelValidate_of_callOf hadmits.body

/-- **A step keeps the invariant.** -/
theorem sound_move (hg : Sound g) (hh : HostOk load i g h) (hmove : HostMove load i g h a g' h')
    (hout : ∀ db, a = .outside db → KeepsClients g.db db) : Sound g' ∧ HostOk load i g' h' := by
  have hput : ∀ conn p, Sound (g.put i conn p) := fun _ _ ↦
    ⟨hg.unique, hg.rows, hg.admits, hg.keys⟩
  induction hmove with
  | run token => exact ⟨hg, hh.update rfl (by simp) hh.files⟩
  | send phase =>
    exact ⟨hput _ _, (hh.put (by simp)).update rfl (by simp) hh.files⟩
  | handle peer env wire => exact hh.handle hg wire
  | lose conn => exact ⟨hput _ _, hh.put (by simp)⟩
  | @deliver attempt conn a phase wire =>
    refine ⟨hput _ _, (hh.put (by simp)).update (by simp) (fun r hr ↦ ?_) ?_⟩
    · rw [receive_phase_enrolled] at hr
      exact hh.answers conn r (by rw [wire, hr])
    · rw [receive_files]
      exact hh.files
  | @timeout attempt conn phase =>
    refine ⟨hg, hh.update (by simp) (fun r hr ↦ ?_) ?_⟩
    · simp at hr
    · rw [receive_files]
      exact hh.files
  | refuse phase files => exact ⟨hg, hh.update rfl (by simp) hh.files⟩
  | @install response files phase eq =>
    exact ⟨hg, hh.update rfl (by simp) fun f hf ↦
      ⟨response, hh.enrolled response phase, eq.trans hf⟩⟩
  | outside db =>
    exact ⟨hg.of_outside (hout db rfl), hh.frame rfl (fun _ hcm ↦ hcm) fun _ hcm _ ↦ hcm⟩

/-- The invariant of a run in which the clients stay. -/
def Promises (load : String → LoadedSshKey) : Config Shared Host → Prop :=
  Config.Inv Sound (HostOk load)

theorem promises_step {c c' : Config Shared Host} {e : ℕ × Action} (hc : Promises load c)
    (hok : Outside c e) (hstep : step load c e = some c') : Promises load c' := by
  refine Config.inv_step hc hstep fun g' p' hproc ↦ ?_
  obtain ⟨h, h', hp, rfl, hmove⟩ := exists_move_of_step hproc
  obtain ⟨hsound, hhost⟩ := sound_move hc.shared (hc.proc e.1 h hp) hmove hok
  have hframe := frame_of_move hmove
  refine ⟨hsound, by simpa using hhost, fun j q hj hq ↦ ?_⟩
  refine hq.frame (hframe.wire j hj) hframe.commits fun cm hcm hhost ↦ ?_
  rcases hframe.new cm hcm with hold | hnew
  · exact hold
  · exact absurd (hhost.symm.trans hnew) hj

theorem promises_initial {c : Config Shared Host} (hinit : Initial c) : Promises load c := by
  refine ⟨⟨hinit.addresses, ?_, ?_, ?_⟩, fun i h hi ↦ ⟨?_, ?_, ?_, ?_, ?_⟩⟩
  · simp [hinit.commits]
  · simp [hinit.commits]
  · simp [hinit.commits]
  · simp [hinit.wire]
  · simp [hinit.wire]
  · simp [(hinit.hosts i h hi).1]
  · simp [(hinit.hosts i h hi).2.2]
  · simp [hinit.commits]

/-! ## What is installed -/

/-- The files of a host are about a client row of the database: the host's key is in the row, the
configuration is for the row's address and hub, and the certificate was asked for the host's SSH
key and that address. -/
structure Agrees (load : String → LoadedSshKey) (g : Shared) (i : ℕ) (h : Host) (f : Files)
    (client : Client) : Prop where
  row : client ∈ g.db.clients.rows
  key : client.publicKey = h.wgPublicKey
  config : ∃ server : Server, server.id = client.serverId ∧
    f.wgConf = renderEnrolledClientConfig client server
  certificate : ∃ cm ∈ g.commits, cm.host = i ∧ ∃ address : IPv4Address,
    client.address = some ⟨address, 32⟩ ∧ h.body.modelValidate load = .ok cm.payload ∧
    cm.env.ca.mintHostCert cm.payload.sshHostPublicKey [address.text] cm.env.hostCertTtlSeconds =
      some cm.admitted.cert ∧
    f.hostCert = cm.admitted.cert.certPem ++ "\n" ∧ f.userCa = cm.env.ca.caPublicKey ++ "\n"
  /-- No other client of the hub has the address. -/
  alone : ∀ other ∈ g.db.clients.rows, other.serverId = client.serverId →
    ∀ a b, client.address = some a → other.address = some b → a.ip = b.ip → client = other

theorem renderEnrolledClientConfig_congr {c c' : Client} (server : Server)
    (h : c'.address = c.address) :
    renderEnrolledClientConfig c' server = renderEnrolledClientConfig c server := by
  have haddress : c'.addressText = c.addressText := by
    rw [Client.addressText, Client.addressText, h]
  unfold renderEnrolledClientConfig
  rw [haddress]

/-- Keys that are admitted once are found once. -/
theorem filter_key_eq {commits : List Commit} {cm : Commit}
    (hkeys : (commits.map fun cm ↦ cm.payload.wgPublicKey).Nodup) (hcm : cm ∈ commits) :
    commits.filter (fun x ↦ x.payload.wgPublicKey == cm.payload.wgPublicKey) = [cm] := by
  obtain ⟨front, back, rfl⟩ := List.append_of_mem hcm
  simp only [List.map_append, List.map_cons, List.nodup_append, List.nodup_cons, List.mem_map,
    List.mem_cons, not_exists, not_and] at hkeys
  obtain ⟨-, ⟨hback, -⟩, hfront⟩ := hkeys
  rw [List.filter_append, List.filter_cons_of_pos (by simp)]
  have hnone : ∀ l : List Commit, (∀ x ∈ l, x.payload.wgPublicKey ≠ cm.payload.wgPublicKey) →
      l.filter (fun x ↦ x.payload.wgPublicKey == cm.payload.wgPublicKey) = [] := by
    intro l hl
    simpa [List.filter_eq_nil_iff] using hl
  rw [hnone front fun x hx ↦ hfront _ ⟨x, hx, rfl⟩ _ (.inl rfl), hnone back hback]
  rfl

end

/-- A host with the keys of `joinCall`. -/
def freshHost : Host where
  hostname := "web"
  wgPublicKey := "AQIDBAUGBwgJCgsMDQ4PEBESExQVFhcYGRobHB0eHyA="
  sshHostPublicKey :=
    "ssh-ed25519 AAAAC3NzaC1lZDI1NTE5AAAAIAECAwQFBgcICQoLDA0ODxAREhMUFRYXGBkaGxwdHh8g root@web"
  token := ""

/-- One host, and the hub that has a token for it. -/
def oneHost : Config Shared Host where
  shared := { db := joinDb }
  proc
    | 0 => some freshHost
    | _ => none

theorem initial_oneHost : Initial oneHost := by
  refine ⟨fun _ _ ↦ rfl, rfl, ?_, unique_joinDb⟩
  rintro (_ | i) h hi
  · cases hi
    exact ⟨rfl, rfl, rfl⟩
  · cases hi

theorem meets_of_no_outside {load : String → LoadedSshKey} {es : List (ℕ × Action)}
    (hne : ∀ e ∈ es, ∀ db, e.2 ≠ .outside db) {c : Config Shared Host} :
    Run.Meets (step load) Outside c es := by
  induction es generalizing c with
  | nil => trivial
  | cons e es ih =>
    exact ⟨fun db hdb ↦ absurd hdb (hne e List.mem_cons_self db),
      fun _ _ ↦ ih fun e' he' ↦ hne e' (List.mem_cons_of_mem e he')⟩

/-- The first request is lost, and the second one admits the host. -/
def secondTry : List (ℕ × Action) :=
  [(0, .run "join-me"), (0, .send), (0, .lose 0), (0, .timeout), (0, .send),
   (0, .handle 1 none (joinEnv [])), (0, .deliver), (0, .install)]

section

variable {load : String → LoadedSshKey} {i j : ℕ} {g g' : Shared} {h h' : Host} {a : Action}

/-- The 201 for a host is at the host, or on the connection that it is waiting on, and the host will
accept it. -/
def Pending (g : Shared) (i : ℕ) (h : Host) : Prop :=
  h.files ≠ none ∨ ∃ r, installFiles r ≠ none ∧ (h.phase = .enrolled r ∨
    ∃ attempt conn, h.phase = .waiting attempt conn ∧ g.wire i conn = some (.answer (.created r)))

/-- A client has the key. -/
def Taken (key : String) (g : Shared) : Prop :=
  ∃ client ∈ g.db.clients.rows, client.publicKey = key

/-- Nothing is pending for the host, and all it will ever ask for is its key. -/
structure Barred (key : String) (i : ℕ) (g : Shared) (h : Host) : Prop where
  own : h.body.wgPublicKey = key
  requests : ∀ conn body token, g.wire i conn = some (.request body token) → body.wgPublicKey = key
  not_pending : ¬Pending g i h

theorem taken_of_move {key : String} (ht : Taken key g) (hmove : HostMove load i g h a g' h')
    (hout : ∀ db, a = .outside db → KeepsClients g.db db) : Taken key g' := by
  induction hmove with
  | run | send | lose | deliver | timeout | refuse | install => exact ht
  | @handle conn body token peer env _ =>
    obtain ⟨client, hclient, hkey⟩ := ht
    rcases handle_cases load g i conn body token peer env with
      ⟨hdb, -⟩ | ⟨cm, -, -, hadmits, hclients, -⟩
    · exact ⟨client, by rw [hdb]; exact hclient, hkey⟩
    · refine ⟨client, ?_, hkey⟩
      rw [hclients, Table.rows_insert hadmits.new_id]
      exact List.mem_append_left _ hclient
  | outside db =>
    obtain ⟨client, hclient, hkey⟩ := ht
    obtain ⟨client', hclient', hsame⟩ := (hout db rfl).rows client hclient
    exact ⟨client', hclient', hsame.publicKey.trans hkey⟩

/-- A request with a key that is taken does not get a 201. -/
theorem not_created_of_taken {key : String} {conn : ℕ} {body : EnrollRequest} {token : String}
    {peer : Option String} {env : EnrollEnv} (ht : Taken key g) (hbody : body.wgPublicKey = key)
    (r : EnrollResponse) :
    (g.handle load i conn body token peer env).wire i conn ≠ some (.answer (.created r)) := by
  rcases handle_cases load g i conn body token peer env with
    ⟨-, -, hno⟩ | ⟨cm, -, -, hadmits, -⟩
  · exact hno r
  · obtain ⟨client, hclient, hkey⟩ := ht
    refine absurd ?_ (hadmits.key_free client hclient)
    rw [hkey, wgPublicKey_of_valid (modelValidate_of_callOf hadmits.body), hbody]

theorem Barred.move {key : String} (ht : Taken key g) (hb : Barred key i g h)
    (hmove : HostMove load i g h a g' h') : Barred key i g' h' := by
  have hfiles : h.files = none := by
    simpa using fun hf ↦ hb.not_pending (.inl hf)
  have hput : ∀ conn p, (∀ q, p = some q → ∃ token, q = .request h.body token) →
      ∀ k body token, (g.put i conn p).wire i k = some (.request body token) →
        body.wgPublicKey = key := by
    intro conn p hp k body token hw
    rcases wire_of_put hw with hold | hnew
    · exact hb.requests k body token hold
    · obtain ⟨token', heq⟩ := hp _ hnew
      simp only [Packet.request.injEq] at heq
      rw [heq.1, hb.own]
  induction hmove with
  | run token => exact ⟨hb.own, hb.requests, by simp [Pending, hfiles]⟩
  | send phase =>
    refine ⟨hb.own, hput _ _ (by simp), ?_⟩
    simp [Pending, hfiles, Shared.put_wire]
  | @handle conn body token peer env wire =>
    refine ⟨hb.own, fun k body' token' hw ↦ ?_, ?_⟩
    · by_cases hk : k = conn
      · simp [Shared.handle, Shared.put, hk] at hw
      · exact hb.requests k body' token' (by simpa [Shared.handle, Shared.put, hk] using hw)
    · rintro (hf | ⟨r, hr, hphase | ⟨n, k, hphase, hw⟩⟩)
      · exact hf hfiles
      · exact hb.not_pending (.inr ⟨r, hr, .inl hphase⟩)
      · by_cases hk : k = conn
        · rw [hk] at hw
          exact not_created_of_taken ht (hb.requests conn body token wire) r hw
        · exact hb.not_pending (.inr ⟨r, hr, .inr
            ⟨n, k, hphase, by simpa [Shared.handle, Shared.put, hk] using hw⟩⟩)
  | lose conn =>
    refine ⟨hb.own, hput _ _ (by simp), ?_⟩
    rintro (hf | ⟨r, hr, hphase | ⟨n, k, hphase, hw⟩⟩)
    · exact hf hfiles
    · exact hb.not_pending (.inr ⟨r, hr, .inl hphase⟩)
    · rcases wire_of_put hw with hold | hnew
      · exact hb.not_pending (.inr ⟨r, hr, .inr ⟨n, k, hphase, hold⟩⟩)
      · simp at hnew
  | @deliver attempt conn a phase wire =>
    refine ⟨by simpa using hb.own, hput _ _ (by simp), ?_⟩
    rintro (hf | ⟨r, hr, hphase | ⟨n, k, hphase, -⟩⟩)
    · exact hf (by simpa using hfiles)
    · rw [receive_phase_enrolled] at hphase
      exact hb.not_pending (.inr ⟨r, hr, .inr ⟨attempt, conn, phase, by rw [wire, hphase]⟩⟩)
    · simp at hphase
  | timeout phase =>
    refine ⟨by simpa using hb.own, hb.requests, ?_⟩
    simp [Pending, hfiles]
  | refuse phase files => exact ⟨hb.own, hb.requests, by simp [Pending, hfiles]⟩
  | @install response files phase eq =>
    exact absurd (.inr ⟨response, by simp [eq], .inl phase⟩) hb.not_pending
  | outside db => exact ⟨hb.own, hb.requests, hb.not_pending⟩

/-- A host for which nothing is pending stays without files as long as its key is taken. -/
theorem barred_step {key : String} {c c' : Config Shared Host} {e : ℕ × Action}
    (hc : Config.Inv (Taken key) (fun j g h ↦ j = i → Barred key i g h) c) (hok : Outside c e)
    (hstep : step load c e = some c') :
    Config.Inv (Taken key) (fun j g h ↦ j = i → Barred key i g h) c' := by
  refine Config.inv_step hc hstep fun g' p' hproc ↦ ?_
  obtain ⟨h, h', hp, rfl, hmove⟩ := exists_move_of_step hproc
  refine ⟨taken_of_move hc.shared hmove hok, ?_, ?_⟩
  · rintro q ⟨⟩ rfl
    exact (hc.proc _ h hp rfl).move hc.shared hmove
  · rintro j q hj hq rfl
    have hwire := (frame_of_move hmove).wire j hj
    obtain ⟨hkey, hrequests, hnot⟩ := hq rfl
    exact ⟨hkey, by rw [hwire]; exact hrequests, by rw [Pending, hwire]; exact hnot⟩

theorem step_of_hostStep {c : Config Shared Host} (hi : c.proc i = some h)
    (hhost : hostStep load i c.shared h a = some (g', h')) :
    step load c (i, a) = some ⟨g', Function.update c.proc i (some h')⟩ := by
  simp [step, Config.step, procStep, hi, hhost]

theorem exists_install {c : Config Shared Host} {r : EnrollResponse} (hi : c.proc i = some h)
    (hphase : h.phase = .enrolled r) (hr : installFiles r ≠ none) :
    ∃ c' h', step load c (i, .install) = some c' ∧ c'.proc i = some h' ∧ h'.files ≠ none := by
  obtain ⟨f, hf⟩ := Option.ne_none_iff_exists'.mp hr
  have hstep : step load c (i, .install) = some ⟨c.shared,
      Function.update c.proc i (some { h with phase := .done, files := some f })⟩ :=
    step_of_hostStep hi (by simp only [hostStep, hphase, hf])
  exact ⟨_, _, hstep, Function.update_self i _ c.proc, by simp⟩

end

/-- Another attempt is due, after `n` that are over. -/
def HostPhase.isDue (n : ℕ) : HostPhase → Bool
  | .due attempt => attempt == n
  | _ => false

/-- The control plane commits, and cannot queue the task for the hub. -/
def lostAnswer : List (ℕ × Action) :=
  [(0, .run "join-me"), (0, .send), (0, .handle 0 none (joinEnv [.dispatch])), (0, .deliver)]

end WgManager.Enroll.Protocol
