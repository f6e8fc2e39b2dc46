import WgManager.Enrollment
import WgManager.Ipam
import WgManager.Wireguard
import WgManager.Routers.Outcome

/-!
# Redeeming an enrollment token

`POST /v1/enroll`, the one request of `enroll_app.py`: a host presents a token and is admitted as a
managed client.  The handler is one transaction under the hub's advisory lock (`redeem`), and then,
after the commit, the request that the hub be reconfigured (`EnrollEnv.finish`).

Everything that the handler does not decide itself — the clock, the certificate authority, how the
database compares names and keys, whether the lock is granted, at which point an error strikes — is
in an `EnrollEnv`, one for each request.
`EnrollEnv.fails` has an entry for each place where an exception can come from outside.

The parts of the transaction are definitions of their own, because a request that runs beside
others does not execute all of them on the same state of the database: `tokenChecks` and
`admitClient` read the snapshot of the transaction, `consumeToken` and `commitEnroll` work on the
rows as they are.
-/

set_option autoImplicit false

namespace WgManager

/-! ## What a request consists of -/

/-- `EnrollRequest`. -/
structure EnrollRequest where
  hostname : String
  wgPublicKey : String
  sshHostPublicKey : String
  deriving DecidableEq

/-- `POST /v1/enroll`. -/
structure EnrollCall where
  /-- The `Authorization` header. -/
  authorization : Option String
  /-- What `EnrollRequest.model_validate_json` makes of the body. -/
  body : Option EnrollRequest
  /-- `request.client.host`. -/
  peer : Option String

/-- The SSH certificate authority. -/
structure SSHCABackend where
  caPublicKey : String
  /-- `mint_host_cert(public_key_openssh, principals, ttl_seconds)`; `none` is an `SSHCAError`. -/
  mintHostCert : String → List String → ℕ → Option HostCert

/-- The places where an exception can come from outside, in the order in which a request passes
them. -/
inductive Point
  | findToken
  | getLock
  | consumeToken
  | loadServer
  | nameQuery
  | keyQuery
  | allocate
  | caBackend
  | flush
  | persistAudit
  | commit
  /-- The transaction is committed and the connection breaks. -/
  | acknowledge
  | refresh
  | bump
  | readGeneration
  | dispatch
  /-- `server` is expired by the commit and is loaded again for the rendering. -/
  | render
  deriving DecidableEq

/-- The points after the commit. -/
def Point.late : Point → Bool
  | acknowledge | refresh | bump | readGeneration | dispatch | render => true
  | _ => false

/-- What the rate limiter says about a request. -/
inductive LimiterDecision
  | allowed
  | blocked (retryAfter : ℕ)
  | unavailable
  deriving DecidableEq

/-- What a request meets. -/
structure EnrollEnv where
  lib : TokenLibrary
  ca : SSHCABackend
  /-- `settings.ssh_host_cert_ttl_seconds`. -/
  hostCertTtlSeconds : ℕ
  now : Datetime
  /-- How the database compares texts. -/
  coll : Collation
  /-- The keys of the rows the request inserts. -/
  newId : ℕ
  auditId : ℕ
  /-- The id Celery gives to the reconfigure task. -/
  taskId : String
  /-- `repr` of a string. -/
  repr : String → String
  /-- The SHA-256 digest of a row in canonical JSON. -/
  digest : RowImage → String
  limiter : LimiterDecision
  /-- Whether `GET_LOCK` answers 1. -/
  lockAcquired : Bool
  fails : Point → Bool

/-- How a request fails. -/
inductive Rejection
  /-- An `HTTPException` or a response of the rate limiter. -/
  | http (status : ℕ) (detail : String) (headers : List (String × String))
  /-- A `RequestValidationError`. -/
  | validation
  /-- Any other exception. -/
  | exception
  deriving DecidableEq

def Rejection.status : Rejection → ℕ
  | http status _ _ => status
  | validation => 422
  | exception => 500

/-- `EnrollResponse`. -/
structure EnrollResponse where
  clientId : ℕ
  name : String
  address : String
  wgConfig : String
  sshUsername : String
  userCaPublicKey : String
  hostCertificate : String
  hostCertPrincipals : List String
  taskId : String

/-- What `_admit` returns. -/
structure Admitted where
  client : Client
  server : Server
  cert : HostCert

/-- What a request leaves behind, and what it answers. -/
structure EnrollOutcome where
  db : Db
  dispatched : List Dispatch := []
  response : Except Rejection EnrollResponse

/-! ## Token checks -/

/-- The 401 of `_reject`, the same for every reason. -/
def rejectToken : Rejection :=
  .http 401 "invalid enrollment token" [("WWW-Authenticate", "Bearer")]

/-- `_bearer`.  Lower-casing is on ASCII letters: no other character lower-cases to one of
`bearer`. -/
def bearer : Option String → Option String
  | none => none
  | some authorization =>
    let scheme := authorization.toList.takeWhile (· ≠ ' ')
    let value := PyStr.strip (String.ofList ((authorization.toList.dropWhile (· ≠ ' ')).drop 1))
    if scheme.map Char.toLower ≠ "bearer".toList || value = "" then none else some value

namespace EnrollEnv

/-- Pass a point. -/
def attempt (env : EnrollEnv) (p : Point) : Except Rejection Unit :=
  if env.fails p then .error .exception else .ok ()

/-- What comes before the lock: find the token, check it, and only then look at the body. -/
def tokenChecks (env : EnrollEnv) (db : Db) (call : EnrollCall) :
    Except Rejection (EnrollmentToken × EnrollRequest) :=
  match bearer call.authorization with
  | none => .error rejectToken
  | some token => do
    env.attempt .findToken
    match findToken env.lib db.enrollmentTokens token with
    | none => .error rejectToken
    | some row =>
      if row.revokedAt.isSome || isExpired row env.now || row.useCount ≥ row.maxUses then
        .error rejectToken
      else match sourceAllowed env.lib row call.peer with
      | none => .error .exception
      | some false => .error rejectToken
      | some true =>
        match call.body with
        | none => .error .validation
        | some payload => .ok (row, payload)

/-! ## The transaction -/

/-- `task_row_lock(session, "ipam", server_id)`; `lock_name_for` refuses a key that is not
positive. -/
def ipamLock (env : EnrollEnv) (serverId : ℕ) : Except Rejection Unit :=
  if serverId = 0 then .error .exception
  else do
    env.attempt .getLock
    if env.lockAcquired then .ok ()
    else .error (.http 503 "enrollment busy; retry" [("Retry-After", "5")])

/-- The client row of an enrolled host. -/
def enrolledClient (env : EnrollEnv) (row : EnrollmentToken) (payload : EnrollRequest)
    (server : Server) (address : IPv4Address) (cert : HostCert) : Client where
  id := env.newId
  tenantId := row.tenantId
  name := s!"{row.namePrefix}-{payload.hostname}"
  hostname := some address.text
  sshUsername := some row.sshUsername
  sshKeyId := some row.sshKeyId
  serverId := server.id
  address := some ⟨address, 32⟩
  publicKey := payload.wgPublicKey
  isManual := false
  status := .ready
  createdAt := env.now
  hostCert :=
    { pem := some cert.certPem
      serial := some cert.serial
      principals := some (",".intercalate cert.principals)
      validAfter := some cert.validAfter
      validBefore := some cert.validBefore
      caPublicKey := some env.ca.caPublicKey }

/-- `_admit`, up to the `flush`. -/
def admitClient (env : EnrollEnv) (db : Db) (row : EnrollmentToken) (payload : EnrollRequest) :
    Except Rejection Admitted := do
  env.attempt .loadServer
  let hubNotReady := .http 503 "hub not ready; retry later" [("Retry-After", "30")]
  match db.servers.get row.serverId with
  | none => .error hubNotReady
  | some server =>
    if server.status ≠ .ready then .error hubNotReady
    else
      env.attempt .nameQuery
      let name := s!"{row.namePrefix}-{payload.hostname}"
      if db.clients.rows.any fun c ↦ env.coll.same c.name name then
        let shown := env.repr name
        .error (.http 409 s!"client {shown} already exists" [])
      else
        env.attempt .keyQuery
        if db.clients.rows.any fun c ↦ env.coll.same c.publicKey payload.wgPublicKey then
          .error (.http 409 "wg_public_key already enrolled" [])
        else
          env.attempt .allocate
          match allocateClientIp db.clients server with
          | none => .error (.http 409 (ipPoolExhausted server) [])
          | some address =>
            env.attempt .caBackend
            match env.ca.mintHostCert payload.sshHostPublicKey [address.text]
                env.hostCertTtlSeconds with
            | none => .error (.http 502 "certificate authority unavailable; retry later" [])
            | some cert =>
              .ok ⟨env.enrolledClient row payload server address cert, server, cert⟩

/-- The `client.enroll` audit row. -/
def enrollEvent (env : EnrollEnv) (row : EnrollmentToken) (client : Client) : AuditEvent where
  id := env.auditId
  tenantId := client.tenantId
  ts := env.now
  event := "client.enroll"
  resourceType := "client"
  resourceId := some client.id
  action := "create"
  afterHash := canonicalJsonHash env.digest (some (.client client))
  payloadTokenId := some row.id

end EnrollEnv

/-- The `INSERT` of a client row; `none` when a unique column refuses it. -/
def flushClient (coll : Collation) (clients : Table Client) (client : Client) :
    Option (Table Client) :=
  if (clients.get client.id).isSome || (clients.rows.any fun c ↦ coll.same c.name client.name) then
    none
  else some (clients.insert client)

/-- The `INSERT` of an audit row. -/
def flushAudit (events : Table AuditEvent) (event : AuditEvent) : Option (Table AuditEvent) :=
  if (events.get event.id).isSome then none else some (events.insert event)

namespace EnrollEnv

/-- From the `flush` of the client to the commit.  `db` is what is committed, with the use of the
token that the transaction has taken. -/
def commitEnroll (env : EnrollEnv) (db : Db) (row : EnrollmentToken) (client : Client) :
    Except Rejection Db := do
  env.attempt .flush
  match flushClient env.coll db.clients client with
  | none => .error .exception
  | some clients =>
    env.attempt .persistAudit
    match flushAudit db.auditEvents (env.enrollEvent row client) with
    | none => .error .exception
    | some auditEvents =>
      env.attempt .commit
      .ok { db with clients, auditEvents }

/-- The handler up to and including its commit.  When it fails, the transaction is rolled back. -/
def redeem (env : EnrollEnv) (db : Db) (call : EnrollCall) : Except Rejection (Db × Admitted) := do
  let (row, payload) ← env.tokenChecks db call
  env.ipamLock row.serverId
  env.attempt .consumeToken
  match consumeToken db.enrollmentTokens row.id with
  | none => .error rejectToken
  | some enrollmentTokens =>
    let admitted ← env.admitClient db row payload
    let committed ← env.commitEnroll { db with enrollmentTokens } row admitted.client
    .ok (committed, admitted)

/-! ## After the commit -/

/-- The response, once the task is queued. -/
def respond (env : EnrollEnv) (admitted : Admitted) : EnrollResponse where
  clientId := admitted.client.id
  name := admitted.client.name
  address := admitted.client.addressText
  wgConfig := renderEnrolledClientConfig admitted.client admitted.server
  sshUsername := admitted.client.sshUsername.getD ""
  userCaPublicKey := env.ca.caPublicKey
  hostCertificate := admitted.cert.certPem
  hostCertPrincipals := admitted.cert.principals
  taskId := env.taskId

/-- The rest of the handler, after the commit of `db`: refresh the client, bump the generation of
the hub and commit that, read it back, queue the task, and render. -/
def finish (env : EnrollEnv) (db : Db) (admitted : Admitted) : EnrollOutcome :=
  if env.fails .acknowledge || env.fails .refresh || env.fails .bump then
    ⟨db, [], .error .exception⟩
  else match db.servers.get admitted.server.id with
  | none => ⟨db, [], .error .exception⟩
  | some server =>
    let bumped := db.bumpRequestedGen server.id
    if env.fails .readGeneration || env.fails .dispatch then ⟨bumped, [], .error .exception⟩
    else
      let task := Dispatch.reconfigureServer server.id (server.reconfigRequestedGen + 1)
      if env.fails .render then ⟨bumped, [task], .error .exception⟩
      else ⟨bumped, [task], .ok (env.respond admitted)⟩

/-- The rate limiter, before anything else. -/
def limit (env : EnrollEnv) : Except Rejection Unit :=
  match env.limiter with
  | .allowed => .ok ()
  | .blocked retryAfter =>
    .error (.http 429 "too many requests" [("Retry-After", toString retryAfter)])
  | .unavailable =>
    .error (.http 503 "enrollment temporarily unavailable; retry" [("Retry-After", "5")])

/-- The limiter and the transaction. -/
def transaction (env : EnrollEnv) (db : Db) (call : EnrollCall) :
    Except Rejection (Db × Admitted) := do
  env.limit
  env.redeem db call

/-- `POST /v1/enroll`. -/
def enroll (env : EnrollEnv) (db : Db) (call : EnrollCall) : EnrollOutcome :=
  match env.transaction db call with
  | .error rejection => ⟨db, [], .error rejection⟩
  | .ok (committed, admitted) => env.finish committed admitted

end EnrollEnv

/-! ## When the parts succeed -/

section

variable {env : EnrollEnv} {db db' : Db} {call : EnrollCall} {row : EnrollmentToken}
  {payload : EnrollRequest} {admitted : Admitted} {client : Client}

theorem attempt_eq_ok_iff {p : Point} {u : Unit} :
    env.attempt p = .ok u ↔ env.fails p = false := by
  rw [EnrollEnv.attempt]
  cases env.fails p <;> simp

/-- A token that passes the checks is found, live, and presented from where it may be. -/
theorem tokenChecks_eq_ok_iff : env.tokenChecks db call = .ok (row, payload) ↔
    ∃ token, bearer call.authorization = some token ∧ env.fails .findToken = false ∧
      findToken env.lib db.enrollmentTokens token = some row ∧
      (row.revokedAt = none ∧ isExpired row env.now = false ∧ row.useCount < row.maxUses) ∧
      sourceAllowed env.lib row call.peer = some true ∧ call.body = some payload := by
  constructor
  · intro h
    rw [EnrollEnv.tokenChecks] at h
    split at h
    · cases h
    · next token htoken =>
      obtain ⟨_, hpoint, h⟩ := bind_eq_ok_iff.mp h
      split at h
      · cases h
      · next found hfound =>
        split at h
        · cases h
        · next hlive =>
          split at h
          · cases h
          · cases h
          · next hsource =>
            split at h
            · cases h
            · next hbody =>
              cases h
              simp only [Bool.or_eq_true, decide_eq_true_eq, not_or, Bool.not_eq_true,
                Option.isSome_eq_false_iff, Option.isNone_iff_eq_none, not_le] at hlive
              exact ⟨token, htoken, attempt_eq_ok_iff.mp hpoint, hfound,
                ⟨hlive.1.1, hlive.1.2, by omega⟩, hsource, hbody⟩
  · rintro ⟨token, htoken, hpoint, hfound, ⟨hrev, hexp, huse⟩, hsource, hbody⟩
    rw [EnrollEnv.tokenChecks, htoken]
    simp [EnrollEnv.attempt, hpoint, hfound, hrev, hexp, huse, hsource, hbody, bind, Except.bind]

theorem ipamLock_eq_ok_iff {serverId : ℕ} {u : Unit} : env.ipamLock serverId = .ok u ↔
    serverId ≠ 0 ∧ env.fails .getLock = false ∧ env.lockAcquired = true := by
  rw [EnrollEnv.ipamLock]
  split
  · next h0 => simp [h0]
  · next h0 =>
    rw [bind_eq_ok_iff]
    cases env.lockAcquired <;> simp [h0, attempt_eq_ok_iff]

/-- What has to hold for a host to be admitted. -/
structure AdmitOk (env : EnrollEnv) (db : Db) (row : EnrollmentToken) (payload : EnrollRequest)
    (server : Server) (address : IPv4Address) (cert : HostCert) : Prop where
  hub : db.servers.get row.serverId = some server
  ready : server.status = .ready
  name_free : ∀ c ∈ db.clients.rows,
    env.coll.same c.name s!"{row.namePrefix}-{payload.hostname}" = false
  key_free : ∀ c ∈ db.clients.rows, env.coll.same c.publicKey payload.wgPublicKey = false
  address_free : allocateClientIp db.clients server = some address
  signed : env.ca.mintHostCert payload.sshHostPublicKey [address.text] env.hostCertTtlSeconds =
    some cert
  queries : env.fails .loadServer = false ∧ env.fails .nameQuery = false ∧
    env.fails .keyQuery = false ∧ env.fails .allocate = false ∧ env.fails .caBackend = false

theorem admitClient_eq_ok_iff : env.admitClient db row payload = .ok admitted ↔
    ∃ server address cert, AdmitOk env db row payload server address cert ∧
      admitted = ⟨env.enrolledClient row payload server address cert, server, cert⟩ := by
  constructor
  · intro h
    rw [EnrollEnv.admitClient, bind_eq_ok_iff] at h
    obtain ⟨_, hload, h⟩ := h
    dsimp only at h
    split at h
    · cases h
    · next server hserver =>
      split at h
      · cases h
      · next hready =>
        obtain ⟨_, hname, h⟩ := bind_eq_ok_iff.mp h
        split at h
        · cases h
        · next hnameFree =>
          obtain ⟨_, hkey, h⟩ := bind_eq_ok_iff.mp h
          split at h
          · cases h
          · next hkeyFree =>
            obtain ⟨_, halloc, h⟩ := bind_eq_ok_iff.mp h
            split at h
            · cases h
            · next address haddress =>
              obtain ⟨_, hca, h⟩ := bind_eq_ok_iff.mp h
              split at h
              · cases h
              · next cert hcert =>
                cases h
                rw [attempt_eq_ok_iff] at hload hname hkey halloc hca
                refine ⟨server, address, cert, ⟨hserver, by simpa using hready, ?_, ?_, haddress,
                  hcert, hload, hname, hkey, halloc, hca⟩, rfl⟩
                · simpa using hnameFree
                · simpa using hkeyFree
  · rintro ⟨server, address, cert, h, rfl⟩
    obtain ⟨hload, hname, hkey, halloc, hca⟩ := h.queries
    have hnameFree : (db.clients.rows.any fun c ↦
        env.coll.same c.name s!"{row.namePrefix}-{payload.hostname}") = false := by
      simpa using h.name_free
    have hkeyFree : (db.clients.rows.any fun c ↦
        env.coll.same c.publicKey payload.wgPublicKey) = false := by
      simpa using h.key_free
    simp only [EnrollEnv.admitClient, EnrollEnv.attempt, hload, hname, hkey, halloc, hca, h.hub,
      h.ready,
      hnameFree, hkeyFree, h.address_free, h.signed, bind, Except.bind]
    simp

theorem flushClient_eq_some_iff {coll : Collation} {clients clients' : Table Client} :
    flushClient coll clients client = some clients' ↔
      clients.get client.id = none ∧ (∀ c ∈ clients.rows, coll.same c.name client.name = false) ∧
        clients' = clients.insert client := by
  have hname : (clients.rows.any fun c ↦ coll.same c.name client.name) = false ↔
      ∀ c ∈ clients.rows, coll.same c.name client.name = false := by simp
  rw [flushClient, ← hname]
  cases clients.get client.id <;> cases clients.rows.any fun c ↦ coll.same c.name client.name <;>
    simp [eq_comm]

theorem flushAudit_eq_some_iff {events events' : Table AuditEvent} {event : AuditEvent} :
    flushAudit events event = some events' ↔
      events.get event.id = none ∧ events' = events.insert event := by
  rw [flushAudit]
  cases events.get event.id <;> simp [eq_comm]

/-- The commit inserts the two rows, under keys and a name that are new. -/
theorem commitEnroll_eq_ok_iff : env.commitEnroll db row client = .ok db' ↔
    (env.fails .flush = false ∧ env.fails .persistAudit = false ∧ env.fails .commit = false) ∧
    db.clients.get client.id = none ∧
    (∀ c ∈ db.clients.rows, env.coll.same c.name client.name = false) ∧
    db.auditEvents.get env.auditId = none ∧
    db' = { db with
      clients := db.clients.insert client
      auditEvents := db.auditEvents.insert (env.enrollEvent row client) } := by
  constructor
  · intro h
    obtain ⟨_, hflush, h⟩ := bind_eq_ok_iff.mp h
    split at h
    · cases h
    · next clients hclients =>
      obtain ⟨_, haudit, h⟩ := bind_eq_ok_iff.mp h
      split at h
      · cases h
      · next events hevents =>
        obtain ⟨_, hcommit, h⟩ := bind_eq_ok_iff.mp h
        obtain ⟨hid, hname, rfl⟩ := flushClient_eq_some_iff.mp hclients
        obtain ⟨hkey, rfl⟩ := flushAudit_eq_some_iff.mp hevents
        rw [attempt_eq_ok_iff] at hflush haudit hcommit
        cases h
        exact ⟨⟨hflush, haudit, hcommit⟩, hid, hname, hkey, rfl⟩
  · rintro ⟨⟨hflush, haudit, hcommit⟩, hid, hname, hkey, rfl⟩
    simp only [EnrollEnv.commitEnroll, EnrollEnv.attempt, hflush, haudit, hcommit,
      flushClient_eq_some_iff.mpr ⟨hid, hname, rfl⟩,
      flushAudit_eq_some_iff.mpr ⟨show db.auditEvents.get (env.enrollEvent row client).id = none
        from hkey, rfl⟩, bind, Except.bind]
    rfl

/-- The database after an enrollment: one more use, one more client, one more audit row. -/
@[simps]
def EnrollEnv.withEnrolled (env : EnrollEnv) (db : Db) (row : EnrollmentToken) (client : Client) :
    Db :=
  { db with
    enrollmentTokens :=
      db.enrollmentTokens.modify row.id EnrollmentToken.use EnrollmentToken.pk_use
    clients := db.clients.insert client
    auditEvents := db.auditEvents.insert (env.enrollEvent row client) }

/-- A redemption that commits, part by part. -/
theorem redeem_eq_ok_iff : env.redeem db call = .ok (db', admitted) ↔
    ∃ row payload tokens, env.tokenChecks db call = .ok (row, payload) ∧
      env.ipamLock row.serverId = .ok () ∧ env.fails .consumeToken = false ∧
      consumeToken db.enrollmentTokens row.id = some tokens ∧
      env.admitClient db row payload = .ok admitted ∧
      env.commitEnroll { db with enrollmentTokens := tokens } row admitted.client = .ok db' := by
  constructor
  · intro h
    obtain ⟨⟨row, payload⟩, hchecks, h⟩ := bind_eq_ok_iff.mp h
    obtain ⟨⟨⟩, hlock, h⟩ := bind_eq_ok_iff.mp h
    obtain ⟨_, hpoint, h⟩ := bind_eq_ok_iff.mp h
    split at h
    · cases h
    · next tokens htokens =>
      obtain ⟨admitted', hadm, h⟩ := bind_eq_ok_iff.mp h
      obtain ⟨committed, hcommit, h⟩ := bind_eq_ok_iff.mp h
      cases h
      exact ⟨row, payload, tokens, hchecks, hlock, attempt_eq_ok_iff.mp hpoint, htokens, hadm,
        hcommit⟩
  · rintro ⟨row, payload, tokens, hchecks, hlock, hpoint, htokens, hadm, hcommit⟩
    simp only [EnrollEnv.redeem, hchecks, hlock, EnrollEnv.attempt, hpoint, htokens, hadm,
      hcommit, bind, Except.bind]
    rfl

theorem withEnrolled_of_redeem (h : env.redeem db call = .ok (db', admitted)) :
    ∃ row payload, env.tokenChecks db call = .ok (row, payload) ∧
      env.admitClient db row payload = .ok admitted ∧
      db' = env.withEnrolled db row admitted.client := by
  obtain ⟨row, payload, tokens, hchecks, -, -, hconsume, hadm, hcommit⟩ := redeem_eq_ok_iff.mp h
  obtain ⟨-, -, -, rfl⟩ := consumeToken_eq_some_iff.mp hconsume
  obtain ⟨-, -, -, -, hdb⟩ := commitEnroll_eq_ok_iff.mp hcommit
  exact ⟨row, payload, hchecks, hadm, hdb⟩

end

/-! ## A request for examples -/

/-- The token `join-me`, good for one use until `expiresAt = 3600`, on the hub at `10.9.0.1`. -/
def joinToken : EnrollmentToken where
  id := 1
  serverId := 1
  sshKeyId := 1
  sshUsername := "deploy"
  tokenHash := "ff4edbaa6b19139a7028675ea7d6aedb5c7a948904733417038a38ca79fda6da"
  expiresAt := 3600
  createdAt := 0

/-- The hub, ready, and the token. -/
def joinDb : Db where
  servers := ⟨[{ exampleHub with status := .ready }], by decide⟩
  enrollmentTokens := ⟨[joinToken], by decide⟩

/-- The same hub, and the token good for two uses. -/
def twoUseDb : Db :=
  { joinDb with enrollmentTokens := ⟨[{ joinToken with maxUses := 2 }], by decide⟩ }

/-- The host `web` presents the token. -/
def joinCall : EnrollCall where
  authorization := some "Bearer join-me"
  body := some
    { hostname := "web"
      wgPublicKey := "AQIDBAUGBwgJCgsMDQ4PEBESExQVFhcYGRobHB0eHyA="
      sshHostPublicKey :=
        "ssh-ed25519 AAAAC3NzaC1lZDI1NTE5AAAAIAECAwQFBgcICQoLDA0ODxAREhMUFRYXGBkaGxwdHh8g" }
  peer := some "192.0.2.7"

/-- Surroundings in which the request meets an error at the points in `failing`. -/
def joinEnv (failing : List Point) : EnrollEnv where
  lib :=
    { sha256Hex := fun token ↦ if token = "join-me" then joinToken.tokenHash else ""
      ipNetwork := fun _ ↦ none
      ipAddress := fun _ ↦ none }
  ca :=
    { caPublicKey :=
        "ssh-ed25519 AAAAC3NzaC1lZDI1NTE5AAAAICEiIyQlJicoKSorLC0uLzAxMjM0NTY3ODk6Ozw9Pj9A"
      mintHostCert := fun _ principals ttlSeconds ↦
        some ⟨"ssh-ed25519-cert-v01@openssh.com AAAA", 0, ttlSeconds, 1, principals⟩ }
  hostCertTtlSeconds := 86400
  now := 0
  coll := .binary
  newId := 1
  auditId := 1
  taskId := "task"
  repr := fun text ↦ "'" ++ text ++ "'"
  digest := exampleDigest
  limiter := .allowed
  lockAcquired := true
  fails := failing.contains

end WgManager
