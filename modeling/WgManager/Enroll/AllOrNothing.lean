import WgManager.EnrollApp

/-!
# Enrollment is all or nothing, up to the commit

A host that does not get its 201 will try again, and should find things as it left them: no use of
the token taken, no client row under its name, no trace in the audit log (`AllOrNothing`).

The transaction sees to that for everything that goes wrong before its commit.  What goes wrong
after it — the connection breaks, the client cannot be read back, the generation of the hub cannot
be bumped or read, the broker does not take the task, the hub cannot be read for the rendering — is
answered with a 500 over rows that stay.  `allOrNothing_iff` says that this is the only way in which
the rule is broken: just when the request is one that commits (`Admissible`) and one of the late
points fails.
-/

set_option autoImplicit false

namespace WgManager

/-- Without a 201 the three tables are as they were. -/
def AllOrNothing (db : Db) (o : EnrollOutcome) : Prop :=
  (∀ answer, o.response ≠ .ok answer) →
    o.db.enrollmentTokens = db.enrollmentTokens ∧ o.db.clients = db.clients ∧
      o.db.auditEvents = db.auditEvents

/-- Nothing stands in the way of the commit: the limiter lets the request pass, the token and the
body are good, the lock is granted, the hub is ready, name, key and an address are free, the
authority signs, the keys the database hands out are new, and no error strikes before the commit. -/
structure Admissible (env : EnrollEnv) (db : Db) (call : EnrollCall) (token : String)
    (row : EnrollmentToken) (payload : EnrollRequest) (server : Server) (address : IPv4Address)
    (cert : HostCert) : Prop where
  limiter : env.limiter = .allowed
  points : ∀ p : Point, p.late = false → env.fails p = false
  presented : bearer call.authorization = some token
  found : findToken env.lib db.enrollmentTokens token = some row
  not_revoked : row.revokedAt = none
  not_expired : isExpired row env.now = false
  use_left : row.useCount < row.maxUses
  source : sourceAllowed env.lib row call.peer = some true
  body : call.body = some payload
  lock_name : row.serverId ≠ 0
  lock : env.lockAcquired = true
  hub : db.servers.get row.serverId = some server
  ready : server.status = .ready
  name_free : ∀ c ∈ db.clients.rows,
    env.coll.same c.name s!"{row.namePrefix}-{payload.hostname}" = false
  key_free : ∀ c ∈ db.clients.rows, env.coll.same c.publicKey payload.wgPublicKey = false
  address_free : allocateClientIp db.clients server = some address
  signed : env.ca.mintHostCert payload.sshHostPublicKey [address.text] env.hostCertTtlSeconds =
    some cert
  client_key : db.clients.get env.newId = none
  audit_key : db.auditEvents.get env.auditId = none

/-- The request commits. -/
def Commits (env : EnrollEnv) (db : Db) (call : EnrollCall) : Prop :=
  ∃ token row payload server address cert,
    Admissible env db call token row payload server address cert

section

variable {env : EnrollEnv} {db db' : Db} {call : EnrollCall} {admitted : Admitted}

/-! ## Before the commit -/

theorem limit_eq_ok_iff {u : Unit} : env.limit = .ok u ↔ env.limiter = .allowed := by
  rw [EnrollEnv.limit]
  cases env.limiter <;> simp

/-- A redemption that gets past the limiter and commits was admissible. -/
theorem commits_of_redeem (hlimit : env.limiter = .allowed)
    (h : env.redeem db call = .ok (db', admitted)) : Commits env db call := by
  obtain ⟨row, payload, tokens, hchecks, hlock, hconsume, -, hadm, hcommit⟩ :=
    redeem_eq_ok_iff.mp h
  obtain ⟨token, htoken, hfind, hfound, ⟨hrev, hexp, huse⟩, hsource, hbody⟩ :=
    tokenChecks_eq_ok_iff.mp hchecks
  obtain ⟨hname, hgetLock, hacquired⟩ := ipamLock_eq_ok_iff.mp hlock
  obtain ⟨server, address, cert, hok, rfl⟩ := admitClient_eq_ok_iff.mp hadm
  obtain ⟨⟨hflush, haudit, hcom⟩, hkey, -, hevent, -⟩ := commitEnroll_eq_ok_iff.mp hcommit
  obtain ⟨h₁, h₂, h₃, h₄, h₅⟩ := hok.queries
  refine ⟨token, row, payload, server, address, cert, hlimit, ?_, htoken, hfound, hrev, hexp, huse,
    hsource, hbody, hname, hacquired, hok.hub, hok.ready, hok.name_free, hok.key_free,
    hok.address_free, hok.signed, hkey, hevent⟩
  rintro (_ | _) hp <;> first | assumption | cases hp

theorem redeem_of_commits (h : Commits env db call) :
    ∃ db' admitted, env.redeem db call = .ok (db', admitted) := by
  obtain ⟨token, row, payload, server, address, cert, h⟩ := h
  have hpoint : ∀ p : Point, p.late = false → env.fails p = false := h.points
  have hget : db.enrollmentTokens.get row.id = some row := get_of_findToken h.found
  refine ⟨_, _, redeem_eq_ok_iff.mpr ⟨row, payload, _, tokenChecks_eq_ok_iff.mpr
    ⟨token, h.presented, hpoint _ rfl, h.found, ⟨h.not_revoked, h.not_expired, h.use_left⟩,
      h.source, h.body⟩,
    ipamLock_eq_ok_iff.mpr ⟨h.lock_name, hpoint _ rfl, h.lock⟩, hpoint _ rfl,
    consumeToken_eq_some_iff.mpr ⟨row, hget, consumable_iff.mpr ⟨h.use_left, h.not_revoked⟩, rfl⟩,
    admitClient_eq_ok_iff.mpr ⟨server, address, cert, ⟨h.hub, h.ready, h.name_free, h.key_free,
      h.address_free, h.signed, hpoint _ rfl, hpoint _ rfl, hpoint _ rfl, hpoint _ rfl,
      hpoint _ rfl⟩, rfl⟩,
    commitEnroll_eq_ok_iff.mpr ⟨⟨hpoint _ rfl, hpoint _ rfl, hpoint _ rfl⟩, h.client_key,
      h.name_free, h.audit_key, rfl⟩⟩⟩

/-- A redemption that commits has changed the token. -/
theorem enrollmentTokens_ne_of_redeem (h : env.redeem db call = .ok (db', admitted)) :
    db'.enrollmentTokens ≠ db.enrollmentTokens := by
  obtain ⟨row, payload, hchecks, -, rfl⟩ := withEnrolled_of_redeem h
  obtain ⟨token, -, -, hfound, -⟩ := tokenChecks_eq_ok_iff.mp hchecks
  have hget := get_of_findToken hfound
  intro heq
  have huse : (env.withEnrolled db row admitted.client).enrollmentTokens.get row.id =
      db.enrollmentTokens.get row.id := by rw [heq]
  rw [EnrollEnv.withEnrolled_enrollmentTokens, Table.get_modify, if_pos rfl, hget,
    Option.map_some, Option.some.injEq] at huse
  have hcount : row.useCount + 1 = row.useCount := congrArg EnrollmentToken.useCount huse
  omega

/-- The hub of a client that has been enrolled is there. -/
theorem hub_of_redeem (h : env.redeem db call = .ok (db', admitted)) :
    ∃ server, db'.servers.get admitted.server.id = some server := by
  obtain ⟨row, payload, -, hadm, rfl⟩ := withEnrolled_of_redeem h
  obtain ⟨server, address, cert, hok, rfl⟩ := admitClient_eq_ok_iff.mp hadm
  have hid : server.id = row.serverId := Table.pk_of_get hok.hub
  exact ⟨server, by rw [EnrollEnv.withEnrolled_servers, hid, hok.hub]⟩

/-! ## After the commit -/

/-- What comes after the commit changes at most the generation of the hub. -/
theorem finish_db (env : EnrollEnv) (db : Db) (admitted : Admitted) :
    (env.finish db admitted).db = db ∨
    ∃ id, (env.finish db admitted).db = db.bumpRequestedGen id := by
  rw [EnrollEnv.finish]
  split
  · exact .inl rfl
  · split
    · exact .inl rfl
    · next server _ =>
      dsimp only
      split
      · exact .inr ⟨server.id, rfl⟩
      · split <;> exact .inr ⟨server.id, rfl⟩

/-- After the commit the request succeeds just when no late point fails. -/
theorem finish_ok_iff (hserver : ∃ server, db.servers.get admitted.server.id = some server) :
    (∃ answer, (env.finish db admitted).response = .ok answer) ↔
      ∀ p : Point, p.late = true → env.fails p = false := by
  obtain ⟨server, hserver⟩ := hserver
  constructor
  · rintro ⟨answer, h⟩ p hp
    rw [EnrollEnv.finish, hserver] at h
    dsimp only at h
    split at h
    · cases h
    · next hearly =>
      split at h
      · cases h
      · next hqueue =>
        split at h
        · cases h
        · next hrender => cases p <;> simp_all [Point.late]
  · intro h
    refine ⟨env.respond admitted, ?_⟩
    simp [EnrollEnv.finish, hserver, h .acknowledge rfl, h .refresh rfl, h .bump rfl,
      h .readGeneration rfl, h .dispatch rfl, h .render rfl]

/-! ## The rule, and where it is kept -/

/-- **Enrollment is all or nothing, exactly as far as it goes.**  For every database, every request
and every way in which its surroundings behave: unless the caller gets the 201 the three tables are
as they were, just when it is not the case that the request commits and an error strikes after the
commit. -/
theorem allOrNothing_iff : AllOrNothing db (env.enroll db call) ↔
    ¬(Commits env db call ∧ ∃ p : Point, p.late = true ∧ env.fails p = true) := by
  rw [EnrollEnv.enroll]
  split
  · next rejection htx =>
    refine iff_of_true (fun _ ↦ ⟨rfl, rfl, rfl⟩) ?_
    rintro ⟨hcommits, -⟩
    obtain ⟨db', admitted, hredeem⟩ := redeem_of_commits hcommits
    obtain ⟨_, _, _, _, _, _, hadm⟩ := hcommits
    rw [EnrollEnv.transaction,
      bind_eq_ok_iff.mpr ⟨(), limit_eq_ok_iff.mpr hadm.limiter, hredeem⟩] at htx
    cases htx
  · next committed admitted htx =>
    obtain ⟨_, hlimit, hredeem⟩ := bind_eq_ok_iff.mp htx
    have hcommits := commits_of_redeem (limit_eq_ok_iff.mp hlimit) hredeem
    have hlate : (∃ answer, (env.finish committed admitted).response = .ok answer) ↔ _ :=
      finish_ok_iff (hub_of_redeem hredeem)
    constructor
    · rintro h ⟨-, p, hp, hfail⟩
      have hno : ∀ answer, (env.finish committed admitted).response ≠ .ok answer := by
        intro answer hanswer
        rw [hlate.mp ⟨answer, hanswer⟩ p hp] at hfail
        cases hfail
      have hsame : (env.finish committed admitted).db.enrollmentTokens =
          committed.enrollmentTokens := by
        rcases finish_db env committed admitted with hdb | ⟨id, hdb⟩
        · rw [hdb]
        · rw [hdb]
          rfl
      exact enrollmentTokens_ne_of_redeem hredeem (hsame.symm.trans (h hno).1)
    · intro h hno
      refine absurd (hlate.mpr fun p hp ↦ ?_) (by simpa using hno)
      by_contra hfail
      exact h ⟨hcommits, p, hp, by simpa using hfail⟩

end

/-- The broker does not take the reconfigure task: the caller gets a 500, the only use of the token
is gone, and the same request is then refused as one with an invalid token. -/
theorem enrolled_without_answer :
    ((joinEnv [.dispatch]).enroll joinDb joinCall).response = .error .exception ∧
    ¬AllOrNothing joinDb ((joinEnv [.dispatch]).enroll joinDb joinCall) ∧
    ((joinEnv []).enroll ((joinEnv [.dispatch]).enroll joinDb joinCall).db joinCall).response =
      .error rejectToken := by
  refine ⟨rfl, fun h ↦ ?_, rfl⟩
  have htokens := (h (by rintro answer ⟨⟩)).1
  have huse : (joinDb.enrollmentTokens.rows.map EnrollmentToken.useCount) = [1] := by
    rw [← htokens]
    rfl
  exact absurd huse (by decide)

end WgManager
