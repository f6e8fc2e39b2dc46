import WgManager.Audit

/-!
# Which requests are audited

The docstring of `AuditEvent` wants an event from every endpoint that mutates a managed resource.
Six handlers write one: `register_server`, `update_server`, `delete_client`, `create_ssh_key`,
`revoke_cert` and the enrollment.  `reprovision_server`, `delete_server` with all that it cascades
to, `register_client`, `register_manual_client`, `reprovision_client`, `update_client`,
`update_ssh_key`, `delete_ssh_key`, `issue_cert` and `renew_cert` change rows and write none.  Of
the six, `update_server` writes its event also when it changes nothing, and `delete_client` and the
enrollment go on to `request_reconfigure`, which updates the row of the hub in a transaction that
writes none.

`Tracked` is the condition under which a request gets past none of these gaps, on what the request
finds, and `auditedRequest_iff` says that it is exact.
-/

set_option autoImplicit false

namespace WgManager

/-! ## What is audited, by what a transaction writes -/

section

variable {digest : Image → String} {s s' : Resources}

/-- The rows of the four tables are the same. -/
theorem forall_image_eq_iff : (∀ k id, s.image k id = s'.image k id) ↔
    (∀ id, s.db.servers.get id = s'.db.servers.get id) ∧
    (∀ id, s.db.clients.get id = s'.db.clients.get id) ∧
    (∀ id, s.db.sshKeys.get id = s'.db.sshKeys.get id) ∧
    ∀ id, s.certs.certificates.get id = s'.certs.certificates.get id := by
  constructor
  · intro h
    refine ⟨fun id ↦ ?_, fun id ↦ ?_, fun id ↦ ?_, fun id ↦ ?_⟩
    · exact Option.map_injective (by rintro r r' ⟨⟩; rfl) (h .server id)
    · exact Option.map_injective (by rintro r r' ⟨⟩; rfl) (h .client id)
    · exact Option.map_injective (by rintro r r' ⟨⟩; rfl) (h .sshKey id)
    · exact Option.map_injective (by rintro r r' ⟨⟩; rfl) (h .certificate id)
  · rintro ⟨hserver, hclient, hkey, hcert⟩ (_ | _ | _ | _) id
    · simp only [Resources.image, hserver]
    · simp only [Resources.image, hclient]
    · simp only [Resources.image, hkey]
    · simp only [Resources.image, hcert]

/-- A transaction that writes no event is audited when it changes no row. -/
theorem audited_iff_of_silent (h : s'.db.auditEvents = s.db.auditEvents) :
    Audited digest s s' ↔ ∀ k id, s.image k id = s'.image k id := by
  have hsilent : ∀ e, ¬Writes s s' e := by
    rintro e ⟨hin, hout⟩
    exact hout (h ▸ hin)
  constructor
  · intro haudited k id
    by_contra hne
    obtain ⟨e, ⟨hwrites, -⟩, -⟩ := haudited.recorded k id hne
    exact hsilent e hwrites
  · intro hsame
    exact ⟨fun k id hne ↦ absurd (hsame k id) hne, fun e hwrites ↦ absurd hwrites (hsilent e)⟩

theorem audited_refl : Audited digest s s := (audited_iff_of_silent rfl).mpr fun _ _ ↦ rfl

/-- A transaction that writes one event about one row, and leaves all other rows alone, is audited
when that row has changed. -/
theorem audited_iff_of_event {e : AuditEvent} (k : Kind) (id : ℕ)
    (hevents : s'.db.auditEvents = s.db.auditEvents.insert e)
    (hfresh : s.db.auditEvents.get e.id = none)
    (hkinds : ∀ k' ≠ k, ∀ j, s.image k' j = s'.image k' j)
    (hothers : ∀ j ≠ id, s.image k j = s'.image k j)
    (hrecords : e.Records digest k id (s.image k id) (s'.image k id)) :
    Audited digest s s' ↔ s.image k id ≠ s'.image k id := by
  have honly : ∀ k' id', s.image k' id' ≠ s'.image k' id' → k' = k ∧ id' = id := by
    intro k' id' hne
    by_cases hk : k' = k
    · subst hk
      exact ⟨rfl, by_contra fun hid ↦ hne (hothers id' hid)⟩
    · exact absurd (hkinds k' hk id') hne
  have hwrites : ∀ e', Writes s s' e' ↔ e' = e := by
    intro e'
    rw [Writes, hevents, Table.rows_insert hfresh, List.mem_append, List.mem_singleton]
    constructor
    · rintro ⟨hold | rfl, hnew⟩
      · exact absurd hold hnew
      · rfl
    · rintro rfl
      refine ⟨.inr rfl, fun hold ↦ ?_⟩
      exact Table.get_eq_none_iff.mp hfresh e' hold rfl
  constructor
  · intro haudited
    obtain ⟨k', id', hne, -⟩ := haudited.justified e ((hwrites e).mpr rfl)
    obtain ⟨rfl, rfl⟩ := honly k' id' hne
    exact hne
  · intro hne
    refine ⟨fun k' id' hne' ↦ ?_, fun e' he' ↦ ?_⟩
    · obtain ⟨rfl, rfl⟩ := honly k' id' hne'
      refine ⟨e, ⟨(hwrites e).mpr rfl, hrecords⟩, ?_⟩
      rintro e' ⟨he', -⟩
      exact (hwrites e').mp he'
    · obtain rfl := (hwrites e').mp he'
      exact ⟨k, id, hne, hrecords⟩

/-! ### Silent changes of one table -/

theorem audited_servers_iff {servers : Table Server} :
    Audited digest s { s with db := { s.db with servers } } ↔
      ∀ id, s.db.servers.get id = servers.get id := by
  refine (audited_iff_of_silent ?_).trans (forall_image_eq_iff.trans ?_)
  · rfl
  · simp

theorem audited_clients_iff {clients : Table Client} :
    Audited digest s { s with db := { s.db with clients } } ↔
      ∀ id, s.db.clients.get id = clients.get id := by
  refine (audited_iff_of_silent ?_).trans (forall_image_eq_iff.trans ?_)
  · rfl
  · simp

theorem audited_sshKeys_iff {sshKeys : Table SSHKey} :
    Audited digest s { s with db := { s.db with sshKeys } } ↔
      ∀ id, s.db.sshKeys.get id = sshKeys.get id := by
  refine (audited_iff_of_silent ?_).trans (forall_image_eq_iff.trans ?_)
  · rfl
  · simp

theorem audited_certs_iff {certs : CertTable} :
    Audited digest s { s with certs } ↔
      ∀ id, s.certs.certificates.get id = certs.certificates.get id := by
  refine (audited_iff_of_silent ?_).trans (forall_image_eq_iff.trans ?_)
  · rfl
  · simp

/-! ### Changes of one table with an event -/

theorem audited_server_event_iff {servers : Table Server} {e : AuditEvent} (id : ℕ)
    (hfresh : s.db.auditEvents.get e.id = none)
    (hothers : ∀ j ≠ id, s.db.servers.get j = servers.get j)
    (hrecords : e.Records digest .server id ((s.db.servers.get id).map fun r ↦ .row (.server r))
      ((servers.get id).map fun r ↦ .row (.server r))) :
    Audited digest s
        { s with db := { s.db with servers, auditEvents := s.db.auditEvents.insert e } } ↔
      s.db.servers.get id ≠ servers.get id := by
  refine (audited_iff_of_event .server id rfl hfresh ?_ ?_ hrecords).trans ?_
  · rintro (_ | _ | _ | _) hk j
    · exact absurd rfl hk
    · rfl
    · rfl
    · rfl
  · intro j hj
    simp only [Resources.image, hothers j hj]
  · exact (Option.map_injective (by rintro r r' ⟨⟩; rfl)).ne_iff

/-- The uses of tokens are no concern of the audit. -/
theorem audited_client_event_iff {clients : Table Client}
    {enrollmentTokens : Table EnrollmentToken} {e : AuditEvent} (id : ℕ)
    (hfresh : s.db.auditEvents.get e.id = none)
    (hothers : ∀ j ≠ id, s.db.clients.get j = clients.get j)
    (hrecords : e.Records digest .client id ((s.db.clients.get id).map fun r ↦ .row (.client r))
      ((clients.get id).map fun r ↦ .row (.client r))) :
    Audited digest s
        { s with db :=
          { s.db with clients, enrollmentTokens, auditEvents := s.db.auditEvents.insert e } } ↔
      s.db.clients.get id ≠ clients.get id := by
  refine (audited_iff_of_event .client id rfl hfresh ?_ ?_ hrecords).trans ?_
  · rintro (_ | _ | _ | _) hk j
    · rfl
    · exact absurd rfl hk
    · rfl
    · rfl
  · intro j hj
    simp only [Resources.image, hothers j hj]
  · exact (Option.map_injective (by rintro r r' ⟨⟩; rfl)).ne_iff

theorem audited_sshKey_event_iff {sshKeys : Table SSHKey} {e : AuditEvent} (id : ℕ)
    (hfresh : s.db.auditEvents.get e.id = none)
    (hothers : ∀ j ≠ id, s.db.sshKeys.get j = sshKeys.get j)
    (hrecords : e.Records digest .sshKey id ((s.db.sshKeys.get id).map fun r ↦ .row (.sshKey r))
      ((sshKeys.get id).map fun r ↦ .row (.sshKey r))) :
    Audited digest s
        { s with db := { s.db with sshKeys, auditEvents := s.db.auditEvents.insert e } } ↔
      s.db.sshKeys.get id ≠ sshKeys.get id := by
  refine (audited_iff_of_event .sshKey id rfl hfresh ?_ ?_ hrecords).trans ?_
  · rintro (_ | _ | _ | _) hk j
    · rfl
    · rfl
    · exact absurd rfl hk
    · rfl
  · intro j hj
    simp only [Resources.image, hothers j hj]
  · exact (Option.map_injective (by rintro r r' ⟨⟩; rfl)).ne_iff

theorem audited_cert_event_iff {certs : CertTable} {e : AuditEvent} (id : ℕ)
    (hfresh : s.db.auditEvents.get e.id = none)
    (hothers : ∀ j ≠ id, s.certs.certificates.get j = certs.certificates.get j)
    (hrecords : e.Records digest .certificate id
      ((s.certs.certificates.get id).map .certificate)
      ((certs.certificates.get id).map .certificate)) :
    Audited digest s
        { db := { s.db with auditEvents := s.db.auditEvents.insert e }, certs } ↔
      s.certs.certificates.get id ≠ certs.certificates.get id := by
  refine (audited_iff_of_event .certificate id rfl hfresh ?_ ?_ hrecords).trans ?_
  · rintro (_ | _ | _ | _) hk j
    · rfl
    · rfl
    · rfl
    · exact absurd rfl hk
  · intro j hj
    simp only [Resources.image, hothers j hj]
  · exact (Option.map_injective (by rintro r r' ⟨⟩; rfl)).ne_iff

/-! ### Rows that change without an event -/

/-- A client that is inserted. -/
theorem not_audited_insert_client {row : Client} (hfree : s.db.clients.get row.id = none) :
    ¬Audited digest s { s with db := { s.db with clients := s.db.clients.insert row } } := by
  rw [audited_clients_iff]
  intro h
  have hrow := h row.id
  rw [hfree, Table.get_insert hfree] at hrow
  exact absurd hrow (by simp [Keyed.pk])

/-- The bump of a hub is an update of its row, and writes no event. -/
theorem not_audited_bump {serverId : ℕ} {row : Server}
    (hrow : s.db.servers.get serverId = some row) :
    ¬Audited digest s { s with db := s.db.bumpRequestedGen serverId } := by
  rw [Db.bumpRequestedGen, audited_servers_iff, Table.forall_get_modify_iff]
  intro h
  have hgen := congrArg Server.reconfigRequestedGen (h row hrow)
  dsimp only at hgen
  omega

end

/-! ## Checks -/

/-- What is found to hold, should the checks pass. -/
def Passing {α : Type} (checks : Except HttpError α) (p : α → Prop) : Prop :=
  ∀ a, checks = .ok a → p a

section

variable {α β : Type} {checks : Except HttpError α} {p : α → Prop}

theorem passing_congr {q : α → Prop} (h : ∀ a, checks = .ok a → (p a ↔ q a)) :
    Passing checks p ↔ Passing checks q :=
  forall₂_congr h

theorem passing_bind {f : α → Except HttpError β} {q : β → Prop} :
    Passing (checks >>= f) q ↔ Passing checks fun a ↦ Passing (f a) q := by
  constructor
  · intro h a ha b hb
    exact h b (bind_eq_ok_iff.mpr ⟨a, ha, hb⟩)
  · intro h b hb
    obtain ⟨a, ha, hb⟩ := bind_eq_ok_iff.mp hb
    exact h a ha b hb

@[simp] theorem passing_ok {a : α} : Passing (.ok a) p ↔ p a := by
  constructor
  · intro h
    exact h a rfl
  · rintro h _ ⟨⟩
    exact h

@[simp] theorem passing_error {e : HttpError} : Passing (.error e) p := by
  rintro _ ⟨⟩

/-- A handler whose effect is one transaction. -/
theorem audited_ofChecks_iff {digest : Image → String} {s : Resources} {effect : α → Outcome}
    (p : α → Prop)
    (h : ∀ a, checks = .ok a → (Audited digest s { s with db := (effect a).db } ↔ p a)) :
    Audited digest s { s with db := (Outcome.ofChecks s.db checks effect).db } ↔
      Passing checks p := by
  cases hc : checks with
  | error e => exact iff_of_true audited_refl passing_error
  | ok a => exact (h a hc).trans passing_ok.symm

end

/-! ## The condition -/

/-- A server, a client or an enrollment token refers to the SSH key. -/
def KeyReferenced (db : Db) (keyId : ℕ) : Prop :=
  (∃ row ∈ db.servers.rows, row.sshKeyId = keyId) ∨
  (∃ row ∈ db.clients.rows, row.sshKeyId = some keyId) ∨
  ∃ row ∈ db.enrollmentTokens.rows, row.sshKeyId = keyId

/-- A leaf can be minted, and recorded under its serial. -/
def CertContext.Mints (ctx : CertContext) (t : CertTable) (certType : CertificateType)
    (commonName : String) (sans : List String) (ttlSeconds : ℤ) : Prop :=
  ∃ leaf, ctx.env.mintLeaf certType commonName sans ttlSeconds = .ok leaf ∧
    (certType = .dashboard → ctx.bundles = true) ∧ ctx.env.commits = true ∧
    ∀ row ∈ t.certificates.rows, row.serial ≠ toString leaf.serial

/-- Nothing stands in the way of `issue_cert`. -/
structure IssueAccepted (dir : Directory) (ctx : CertContext) (t : CertTable)
    (payload : CertificateIssueRequest) : Prop where
  role : ctx.role = some .admin
  tenant_allowed : payload.tenantSlug.isSome = true →
    (certProfile payload.certType).serverEku = false
  operator_known : (certProfile payload.certType).requiresOperator = true →
    (dir.operatorId ((stored payload.operatorCn).getD payload.commonName)).isSome = true
  tenant_known : ∀ slug, payload.tenantSlug = some slug → (dir.tenantId slug).isSome = true
  mints : ctx.Mints t payload.certType payload.commonName
    (resolveSans payload.certType payload.commonName payload.sans ++
      (payload.tenantSlug.map tenantSan).toList) payload.ttlSeconds

/-- Nothing stands in the way of `renew_cert`. -/
def RenewAccepted (ctx : CertContext) (t : CertTable) (certId : ℕ) : Prop :=
  ctx.role = some .admin ∧ ∃ row, t.certificates.get certId = some row ∧ row.revoked = false ∧
    ctx.Mints t row.certType row.commonName row.sanList row.ttlSeconds

/-- The request reaches none of the gaps: where a handler writes no event it is refused or has
nothing to change, `update_server` has something to change, and there is no hub to bump. -/
def Tracked (w : Surroundings) (s : Resources) : ApiRequest → Prop
  | .servers (.reprovision serverId) =>
    Passing (getOr404 s.db.servers serverId serverNotFound) fun row ↦ row.status = .pending
  | .servers (.update serverId payload) =>
    Passing (serverGate s.db w.scope serverId) fun row ↦
      Passing (newKeyExists s.db payload.sshKeyId) fun _ ↦ payload.apply row ≠ row
  | .servers (.delete serverId force) =>
    Passing (deleteServerChecks s.db w.scope serverId force) fun _ ↦ False
  | .clients (.register payload) =>
    Passing (registerClientChecks w.ctx s.db payload) fun _ ↦ False
  | .clients (.registerManual payload) =>
    Passing (registerManualClientChecks w.ctx s.db payload) fun _ ↦ False
  | .clients (.reprovision clientId) =>
    Passing (reprovisionClientChecks s.db clientId) fun row ↦ row.status = .pending
  | .clients (.update clientId payload) =>
    Passing (updateClientChecks w.ctx s.db w.scope clientId payload) fun row ↦
      payload.apply row = row
  | .clients (.delete clientId) =>
    Passing (clientGate s.db w.scope clientId) fun row ↦ s.db.servers.get row.serverId = none
  | .sshKeys (.update keyId name) =>
    Passing (sshKeyGate s.db w.scope keyId) fun row ↦ ∀ new, name = some new → new ≠ row.name →
      Passing (keyNameFree w.ctx s.db new) fun _ ↦ False
  | .sshKeys (.delete keyId) =>
    Passing (sshKeyGate s.db w.scope keyId) fun _ ↦ KeyReferenced s.db keyId
  | .certs (.issue payload) => ¬IssueAccepted w.dir w.certCtx s.certs payload
  | .certs (.renew certId) => ¬RenewAccepted w.certCtx s.certs certId
  | .enroll call =>
    ¬(Commits w.env s.db call ∧ w.env.fails .acknowledge = false ∧ w.env.fails .refresh = false ∧
      w.env.fails .bump = false)
  | _ => True

/-! ## Router by router -/

section

variable {w : Surroundings} {s : Resources}

/-! ### `/servers` -/

theorem auditedRequest_servers_iff {request : ServerRequest} :
    AuditedRequest w s (.servers request) ↔
      Audited w.digest s { s with db := (handleServers w.ctx s.db w.scope request).db } := by
  simp [AuditedRequest, commits]

theorem audited_registerServer {payload : ServerCreate}
    (hfresh : w.Fresh s (.servers (.register payload))) :
    AuditedRequest w s (.servers (.register payload)) := by
  have hfree : s.db.servers.get w.ctx.newId = none := by
    simpa [Resources.image] using hfresh.row .server rfl
  rw [auditedRequest_servers_iff]
  refine (audited_ofChecks_iff _ fun found _ ↦ ?_).mpr fun _ _ ↦ trivial
  obtain ⟨tenant, network, serverHost⟩ := found
  have hget : (s.db.servers.insert (newServer w.ctx payload tenant network serverHost)).get
      w.ctx.newId = some (newServer w.ctx payload tenant network serverHost) :=
    Table.get_insert_self hfree
  refine iff_true_intro ((audited_server_event_iff w.ctx.newId hfresh.auditEvent ?_ ?_).mpr ?_)
  · intro j hj
    exact (Table.get_insert_of_ne hfree hj).symm
  · rw [hfree, hget]
    exact ⟨rfl, rfl, rfl, rfl, rfl⟩
  · rw [hfree, hget]
    exact (Option.some_ne_none _).symm

theorem audited_updateServer_iff {serverId : ℕ} {payload : ServerUpdate}
    (hfresh : w.Fresh s (.servers (.update serverId payload))) :
    AuditedRequest w s (.servers (.update serverId payload)) ↔
      Tracked w s (.servers (.update serverId payload)) := by
  rw [auditedRequest_servers_iff]
  refine (audited_ofChecks_iff _ fun row hrow ↦ ?_).trans (passing_bind.trans (passing_congr
    fun row _ ↦ passing_bind.trans (passing_congr fun _ _ ↦ passing_ok)))
  obtain ⟨row', hgate, hrow⟩ := bind_eq_ok_iff.mp hrow
  obtain ⟨_, -, hrow⟩ := bind_eq_ok_iff.mp hrow
  cases hrow
  have hold := get_of_serverGate hgate
  have hid : row.id = serverId := Table.pk_of_get hold
  have hget : ∀ j, (s.db.servers.modify serverId payload.apply).get j =
      if j = serverId then (s.db.servers.get j).map payload.apply else s.db.servers.get j :=
    fun j ↦ Table.get_modify _ _ j _ _
  have hnew : (s.db.servers.modify serverId payload.apply).get serverId =
      some (payload.apply row) := by
    rw [hget, if_pos rfl, hold, Option.map_some]
  refine (audited_server_event_iff serverId hfresh.auditEvent ?_ ?_).trans ?_
  · intro j hj
    exact ((hget j).trans (if_neg hj)).symm
  · rw [hold, hnew]
    exact ⟨rfl, congrArg some hid, rfl, rfl, rfl⟩
  · rw [hold, hnew, Ne, Option.some.injEq, eq_comm]

theorem not_audited_deleteServer {serverId : ℕ} {row : Server}
    (hrow : s.db.servers.get serverId = some row) (force : Bool) :
    ¬Audited w.digest s { s with db := withoutServer s.db serverId force } := by
  rw [audited_iff_of_silent (by rfl)]
  intro h
  have hgone := (forall_image_eq_iff.mp h).1 serverId
  rw [hrow, withoutServer, Table.get_delete, if_pos rfl] at hgone
  cases hgone

theorem auditedRequest_iff_servers {request : ServerRequest}
    (hfresh : w.Fresh s (.servers request)) :
    AuditedRequest w s (.servers request) ↔ Tracked w s (.servers request) := by
  cases request with
  | register payload => exact iff_true_intro (audited_registerServer hfresh)
  | reprovision serverId =>
    rw [auditedRequest_servers_iff]
    refine audited_ofChecks_iff _ fun row hrow ↦ audited_servers_iff.trans ?_
    rw [Table.forall_get_modify_iff, get_of_getOr404 hrow]
    constructor
    · intro h
      exact (congrArg Server.status (h row rfl)).symm
    · rintro hstatus _ ⟨⟩
      rw [← hstatus]
  | update serverId payload => exact audited_updateServer_iff hfresh
  | delete serverId force =>
    rw [auditedRequest_servers_iff]
    refine audited_ofChecks_iff _ fun row hrow ↦ iff_false_intro ?_
    exact not_audited_deleteServer (get_of_serverGate (deleteServerChecks_eq_ok hrow).1) force
  | discover serverId =>
    rw [auditedRequest_servers_iff]
    exact iff_true_intro ((audited_ofChecks_iff _ fun _ _ ↦ iff_true_intro audited_refl).mpr
      fun _ _ ↦ trivial)
  | rotateHostCert serverId =>
    rw [auditedRequest_servers_iff]
    exact iff_true_intro ((audited_ofChecks_iff _ fun _ _ ↦ iff_true_intro audited_refl).mpr
      fun _ _ ↦ trivial)
  | _ => exact iff_true_intro (auditedRequest_servers_iff.mpr audited_refl)

/-! ### `/ssh-keys` -/

theorem auditedRequest_sshKeys_iff {request : SSHKeyRequest} :
    AuditedRequest w s (.sshKeys request) ↔
      Audited w.digest s { s with db := (handleSshKeys w.ctx s.db w.scope request).db } := by
  simp [AuditedRequest, commits]

theorem audited_createSshKey {payload : SSHKeyCreate}
    (hfresh : w.Fresh s (.sshKeys (.create payload))) :
    AuditedRequest w s (.sshKeys (.create payload)) := by
  have hfree : s.db.sshKeys.get w.ctx.newId = none := by
    simpa [Resources.image] using hfresh.row .sshKey rfl
  rw [auditedRequest_sshKeys_iff]
  refine (audited_ofChecks_iff _ fun tenant _ ↦ ?_).mpr fun _ _ ↦ trivial
  have hget : ∀ row : SSHKey, row.id = w.ctx.newId →
      (s.db.sshKeys.insert row).get w.ctx.newId = some row := by
    intro row hid
    rw [← hid] at hfree ⊢
    exact Table.get_insert_self hfree
  refine iff_true_intro ((audited_sshKey_event_iff w.ctx.newId hfresh.auditEvent ?_ ?_).mpr ?_)
  · intro j hj
    exact (Table.get_insert_of_ne hfree hj).symm
  · rw [hfree, hget _ rfl]
    exact ⟨rfl, rfl, rfl, rfl, rfl⟩
  · rw [hfree, hget _ rfl]
    exact (Option.some_ne_none _).symm

theorem audited_updateSshKey_iff {keyId : ℕ} {name : Option String} :
    AuditedRequest w s (.sshKeys (.update keyId name)) ↔
      Tracked w s (.sshKeys (.update keyId name)) := by
  rw [auditedRequest_sshKeys_iff]
  -- the new name of a row that has passed the gate
  have hrename : ∀ row, sshKeyGate s.db w.scope keyId = .ok row →
      ((∀ id, s.db.sshKeys.get id =
          (s.db.sshKeys.modify keyId fun r ↦ { r with name := name.getD r.name }).get id) ↔
        name.getD row.name = row.name) := by
    intro row hrow
    rw [Table.forall_get_modify_iff, get_of_sshKeyGate hrow]
    constructor
    · intro h
      exact congrArg SSHKey.name (h row rfl)
    · rintro hname _ ⟨⟩
      rw [hname]
  refine (audited_ofChecks_iff (fun row ↦ name.getD row.name = row.name) fun row hrow ↦
    audited_sshKeys_iff.trans ?_).trans (passing_bind.trans (passing_congr fun row _ ↦ ?_))
  · obtain ⟨row', hgate, hrow⟩ := bind_eq_ok_iff.mp hrow
    have heq : row' = row := by
      split at hrow
      · cases hrow
        rfl
      · split at hrow
        · obtain ⟨_, -, hrow⟩ := bind_eq_ok_iff.mp hrow
          cases hrow
          rfl
        · cases hrow
          rfl
    exact hrename row (heq ▸ hgate)
  · cases name with
    | none => simp
    | some new =>
      dsimp only [Option.getD_some]
      split
      · next hne => simp [passing_bind, hne]
      · next heq => simp [not_not.mp heq]

theorem audited_deleteSshKey_iff {keyId : ℕ} :
    AuditedRequest w s (.sshKeys (.delete keyId)) ↔ Tracked w s (.sshKeys (.delete keyId)) := by
  rw [auditedRequest_sshKeys_iff]
  refine (audited_ofChecks_iff (fun _ ↦ False) fun row hrow ↦ iff_false_intro ?_).trans
    (passing_bind.trans (passing_congr fun row _ ↦ ?_))
  · obtain ⟨row', hgate, -⟩ := bind_eq_ok_iff.mp hrow
    rw [audited_sshKeys_iff, Table.forall_get_delete_iff, get_of_sshKeyGate hgate]
    exact Option.some_ne_none _
  · split
    · next hused =>
      simp only [Bool.or_eq_true, List.any_eq_true, beq_iff_eq] at hused
      exact iff_of_true passing_error (hused.imp_right .inl)
    · next hunused =>
      simp only [Bool.or_eq_true, List.any_eq_true, beq_iff_eq] at hunused
      split
      · next htoken =>
        simp only [List.any_eq_true, beq_iff_eq] at htoken
        exact iff_of_true passing_error (.inr (.inr htoken))
      · next htoken =>
        simp only [List.any_eq_true, beq_iff_eq] at htoken
        rw [passing_ok, false_iff]
        rintro (hserver | hclient | hreferenced)
        · exact hunused (.inl hserver)
        · exact hunused (.inr hclient)
        · exact htoken hreferenced

theorem auditedRequest_iff_sshKeys {request : SSHKeyRequest}
    (hfresh : w.Fresh s (.sshKeys request)) :
    AuditedRequest w s (.sshKeys request) ↔ Tracked w s (.sshKeys request) := by
  cases request with
  | create payload => exact iff_true_intro (audited_createSshKey hfresh)
  | update keyId name => exact audited_updateSshKey_iff
  | delete keyId => exact audited_deleteSshKey_iff
  | _ => exact iff_true_intro (auditedRequest_sshKeys_iff.mpr audited_refl)

/-! ### `/clients` -/

/-- A request that commits once. -/
theorem auditedRequest_clients_iff {request : ClientRequest}
    (h : clientCommits w.ctx s.db w.scope request =
      [(handleClients w.ctx s.db w.scope request).db]) :
    AuditedRequest w s (.clients request) ↔
      Audited w.digest s { s with db := (handleClients w.ctx s.db w.scope request).db } := by
  simp [AuditedRequest, commits, h]

/-- The commits of `request_reconfigure` are audited when there is no hub to bump. -/
theorem isChain_reconfigureCommits_iff {db : Db} {serverId : ℕ} :
    ({ s with db } :: (reconfigureCommits db serverId).map fun db ↦ { s with db }).IsChain
        (Audited w.digest) ↔
      db.servers.get serverId = none := by
  rw [reconfigureCommits]
  split
  · next h =>
    obtain ⟨row, hrow⟩ := Option.isSome_iff_exists.mp h
    have hbump : ¬Audited w.digest { s with db } { s with db := db.bumpRequestedGen serverId } :=
      not_audited_bump hrow
    simp [hbump, hrow]
  · next h => simpa using h

theorem audited_registerClient_iff {payload : ClientCreate}
    (hfresh : w.Fresh s (.clients (.register payload))) :
    AuditedRequest w s (.clients (.register payload)) ↔
      Tracked w s (.clients (.register payload)) := by
  have hfree : s.db.clients.get w.ctx.newId = none := by
    simpa [Resources.image] using hfresh.row .client rfl
  rw [auditedRequest_clients_iff rfl]
  exact audited_ofChecks_iff _ fun found _ ↦ iff_false_intro (not_audited_insert_client hfree)

theorem audited_registerManualClient_iff {payload : ClientManualCreate}
    (hfresh : w.Fresh s (.clients (.registerManual payload))) :
    AuditedRequest w s (.clients (.registerManual payload)) ↔
      Tracked w s (.clients (.registerManual payload)) := by
  have hfree : s.db.clients.get w.ctx.newId = none := by
    simpa [Resources.image] using hfresh.row .client rfl
  rw [AuditedRequest, commits, clientCommits, registerManualClientCommits, Tracked]
  cases registerManualClientChecks w.ctx s.db payload with
  | error e => simp
  | ok found =>
    rw [passing_ok, iff_false]
    intro hchain
    have hfirst : Audited w.digest s { s with db := { s.db with
        clients := s.db.clients.insert (newManualClient w.ctx payload found.2) } } := by
      dsimp only at hchain
      split at hchain
      · exact (List.isChain_cons_cons.mp hchain).1
      · exact (List.isChain_cons_cons.mp hchain).1
    exact not_audited_insert_client hfree hfirst

theorem audited_reprovisionClient_iff {clientId : ℕ} :
    AuditedRequest w s (.clients (.reprovision clientId)) ↔
      Tracked w s (.clients (.reprovision clientId)) := by
  rw [auditedRequest_clients_iff rfl]
  refine audited_ofChecks_iff _ fun row hrow ↦ audited_clients_iff.trans ?_
  have hget : s.db.clients.get clientId = some row := by
    obtain ⟨found, hfound, hrow⟩ := bind_eq_ok_iff.mp hrow
    split at hrow
    · cases hrow
    · cases hrow
      exact get_of_getOr404 hfound
  rw [Table.forall_get_modify_iff, hget]
  constructor
  · intro h
    exact (congrArg Client.status (h row rfl)).symm
  · rintro hstatus _ ⟨⟩
    rw [← hstatus]

theorem get_of_updateClientChecks {clientId : ℕ} {payload : ClientUpdate} {row : Client}
    (h : updateClientChecks w.ctx s.db w.scope clientId payload = .ok row) :
    s.db.clients.get clientId = some row := by
  obtain ⟨found, hgate, h⟩ := bind_eq_ok_iff.mp h
  obtain ⟨_, -, h⟩ := bind_eq_ok_iff.mp h
  split at h
  · cases h
    exact get_of_clientGate hgate
  · split at h
    · obtain ⟨_, -, h⟩ := bind_eq_ok_iff.mp h
      cases h
      exact get_of_clientGate hgate
    · cases h
      exact get_of_clientGate hgate

theorem audited_updateClient_iff {clientId : ℕ} {payload : ClientUpdate} :
    AuditedRequest w s (.clients (.update clientId payload)) ↔
      Tracked w s (.clients (.update clientId payload)) := by
  rw [auditedRequest_clients_iff rfl]
  refine audited_ofChecks_iff _ fun row hrow ↦ audited_clients_iff.trans ?_
  refine Table.forall_get_modify_iff.trans ?_
  rw [get_of_updateClientChecks hrow]
  constructor
  · intro h
    exact h row rfl
  · rintro h _ ⟨⟩
    exact h

/-- The first transaction of `delete_client` is audited, so that all depends on the second. -/
theorem audited_deleteClient_iff {clientId : ℕ}
    (hfresh : w.Fresh s (.clients (.delete clientId))) :
    AuditedRequest w s (.clients (.delete clientId)) ↔
      Tracked w s (.clients (.delete clientId)) := by
  rw [AuditedRequest, commits, clientCommits, deleteClientCommits, Tracked]
  cases hgate : clientGate s.db w.scope clientId with
  | error e => simp
  | ok row =>
    have hold := get_of_clientGate hgate
    have hgone : (s.db.clients.delete clientId).get clientId = none := by
      rw [Table.get_delete, if_pos rfl]
    rw [passing_ok, List.map_cons, List.isChain_cons_cons, isChain_reconfigureCommits_iff]
    refine (and_iff_right ?_).trans Iff.rfl
    refine (audited_client_event_iff clientId hfresh.auditEvent ?_ ?_).mpr ?_
    · intro j hj
      rw [Table.get_delete, if_neg hj]
    · rw [hold, hgone]
      exact ⟨rfl, rfl, rfl, rfl, rfl⟩
    · rw [hold, hgone]
      exact Option.some_ne_none _

theorem auditedRequest_iff_clients {request : ClientRequest}
    (hfresh : w.Fresh s (.clients request)) :
    AuditedRequest w s (.clients request) ↔ Tracked w s (.clients request) := by
  cases request with
  | register payload => exact audited_registerClient_iff hfresh
  | registerManual payload => exact audited_registerManualClient_iff hfresh
  | reprovision clientId => exact audited_reprovisionClient_iff
  | update clientId payload => exact audited_updateClient_iff
  | delete clientId => exact audited_deleteClient_iff hfresh
  | rotateHostCert clientId =>
    rw [auditedRequest_clients_iff rfl]
    exact iff_true_intro ((audited_ofChecks_iff _ fun _ _ ↦ iff_true_intro audited_refl).mpr
      fun _ _ ↦ trivial)
  | _ => exact iff_true_intro ((auditedRequest_clients_iff rfl).mpr audited_refl)

/-! ### `/certs` -/

theorem mintAndRecord_ok_iff {ctx : CertContext} {t : CertTable} {certType : CertificateType}
    {commonName : String} {sans : List String} {ttlSeconds : ℤ} (row : Leaf → CertificateRow)
    (hserial : ∀ leaf, (row leaf).serial = toString leaf.serial) :
    (∃ t', ctx.mintAndRecord t certType commonName sans ttlSeconds row = .ok t') ↔
      ctx.Mints t certType commonName sans ttlSeconds := by
  constructor
  · rintro ⟨t', h⟩
    rw [CertContext.mintAndRecord] at h
    split at h
    · cases h
    · next leaf hleaf =>
      split at h
      · cases h
      · next hready =>
        split at h
        · cases h
        · next hinsert =>
          have hfree := CertTable.insert_isSome_iff.mp (Option.isSome_iff_exists.mpr ⟨_, hinsert⟩)
          rw [hserial] at hfree
          refine ⟨leaf, hleaf, ?_, ?_, hfree⟩
          · rintro rfl
            by_contra hbundles
            simp [hbundles] at hready
          · by_contra hcommits
            simp [hcommits] at hready
  · rintro ⟨leaf, hleaf, hbundles, hcommits, hfree⟩
    rw [← hserial] at hfree
    obtain ⟨t', hinsert⟩ := Option.isSome_iff_exists.mp (CertTable.insert_isSome_iff.mpr hfree)
    have hready : ¬((certType = .dashboard && !ctx.bundles || !ctx.env.commits) = true) := by
      rw [hcommits]
      simpa using hbundles
    exact ⟨t', by rw [CertContext.mintAndRecord, hleaf]; simp only [if_neg hready, hinsert]⟩

theorem resolveOperatorFk_ok_iff {ctx : CertContext} {dir : Directory} {certType : CertificateType}
    {commonName : String} {operatorCn : Option String} :
    (∃ id, ctx.resolveOperatorFk dir certType commonName operatorCn = .ok id) ↔
      ((certProfile certType).requiresOperator = true →
        (dir.operatorId ((stored operatorCn).getD commonName)).isSome = true) := by
  rw [CertContext.resolveOperatorFk]
  split
  · next hrequired =>
    dsimp only
    split
    · next id hid => simp [hid]
    · next hnone => simp [hnone, hrequired]
  · next hrequired => simp [hrequired]

theorem resolveTenant_ok_iff {ctx : CertContext} {dir : Directory} {slug : Option String} :
    (∃ id, ctx.resolveTenant dir slug = .ok id) ↔
      ∀ name, slug = some name → (dir.tenantId name).isSome = true := by
  cases slug with
  | none => simp [CertContext.resolveTenant]
  | some name =>
    rw [CertContext.resolveTenant]
    split
    · next id hid => simp [hid]
    · next hnone => simp [hnone]

theorem requireAdmin_ok_iff {role : Option OperatorRole} {u : Unit} :
    requireAdmin role = .ok u ↔ role = some .admin := by
  rcases role with _ | _ | _ | _ <;> simp [requireAdmin]

theorem issueCert_ok_iff {dir : Directory} {ctx : CertContext} {t : CertTable}
    {payload : CertificateIssueRequest} :
    (∃ t', issueCert dir ctx t payload = .ok t') ↔ IssueAccepted dir ctx t payload := by
  constructor
  · rintro ⟨t', h⟩
    obtain ⟨_, hrole, h⟩ := bind_eq_ok_iff.mp h
    split at h
    · cases h
    · next hallowed =>
      obtain ⟨operatorId, hoperator, h⟩ := bind_eq_ok_iff.mp h
      obtain ⟨tenantId, htenant, h⟩ := bind_eq_ok_iff.mp h
      refine ⟨requireAdmin_ok_iff.mp hrole, ?_, resolveOperatorFk_ok_iff.mp ⟨_, hoperator⟩,
        resolveTenant_ok_iff.mp ⟨_, htenant⟩, (mintAndRecord_ok_iff _ ?_).mp ⟨t', h⟩⟩
      · intro hslug
        simpa [hslug] using hallowed
      · intro leaf
        rfl
  · intro h
    obtain ⟨operatorId, hoperator⟩ := resolveOperatorFk_ok_iff.mpr h.operator_known
    obtain ⟨tenantId, htenant⟩ := resolveTenant_ok_iff.mpr h.tenant_known
    obtain ⟨t', hmint⟩ := (mintAndRecord_ok_iff
      (fun leaf ↦ leaf.row payload.certType operatorId tenantId ctx.env.now none none none)
      fun _ ↦ rfl).mpr h.mints
    refine ⟨t', bind_eq_ok_iff.mpr ⟨(), requireAdmin_ok_iff.mpr h.role, ?_⟩⟩
    have hallowed : ¬((payload.tenantSlug.isSome && (certProfile payload.certType).serverEku) =
        true) := by
      simpa using h.tenant_allowed
    rw [if_neg hallowed]
    exact bind_eq_ok_iff.mpr ⟨operatorId, hoperator, bind_eq_ok_iff.mpr ⟨tenantId, htenant, hmint⟩⟩

theorem renewCert_ok_iff {ctx : CertContext} {t : CertTable} {certId : ℕ} :
    (∃ t', renewCert ctx t certId = .ok t') ↔ RenewAccepted ctx t certId := by
  constructor
  · rintro ⟨t', h⟩
    obtain ⟨_, hrole, h⟩ := bind_eq_ok_iff.mp h
    obtain ⟨row, hrow, h⟩ := bind_eq_ok_iff.mp h
    split at h
    · cases h
    · next hlive =>
      refine ⟨requireAdmin_ok_iff.mp hrole, row, get_of_getOr404 hrow, by simpa using hlive,
        (mintAndRecord_ok_iff _ ?_).mp ⟨t', h⟩⟩
      intro leaf
      rfl
  · rintro ⟨hrole, row, hrow, hlive, hmints⟩
    obtain ⟨t', hmint⟩ := (mintAndRecord_ok_iff
      (fun leaf ↦ leaf.row row.certType row.operatorId none ctx.env.now row.outCertPath
        row.outKeyPath row.outChainPath) fun _ ↦ rfl).mpr hmints
    refine ⟨t', bind_eq_ok_iff.mpr ⟨(), requireAdmin_ok_iff.mpr hrole, bind_eq_ok_iff.mpr
      ⟨row, ?_, ?_⟩⟩⟩
    · rw [CertTable.getOr404, getOr404, hrow]
    · rw [if_neg (by simp [hlive])]
      exact hmint

/-- A certificate that is recorded without an event. -/
theorem not_audited_insert_cert {certs : CertTable} {row : CertificateRow}
    (h : s.certs.insert row = some certs) : ¬Audited w.digest s { s with certs } := by
  rw [audited_certs_iff]
  intro hsame
  have hnew := hsame s.certs.nextId
  rw [s.certs.get_nextId, CertTable.certificates_of_insert h] at hnew
  have hself : (s.certs.certificates.insert { row with id := s.certs.nextId }).get
      s.certs.nextId = some { row with id := s.certs.nextId } :=
    Table.get_insert_self s.certs.get_nextId
  rw [hself] at hnew
  cases hnew

theorem audited_revokeCert {certId : ℕ} (hfresh : w.Fresh s (.certs (.revoke certId))) :
    AuditedRequest w s (.certs (.revoke certId)) := by
  rw [AuditedRequest, commits, certCommits]
  cases hrevoke : revokeCert w.certCtx s.certs certId with
  | error e => simp
  | ok result =>
    obtain ⟨certs, change⟩ := result
    rcases revokeCert_cases hrevoke with ⟨rfl, rfl⟩ | ⟨row, hrow, hlive, rfl, rfl⟩
    · simpa using audited_refl
    · have hid : row.id = certId := Table.pk_of_get hrow
      have hrow' : s.certs.certificates.get row.id = some row := hid ▸ hrow
      have hget : ∀ j, (s.certs.certificates.modify row.id (.markRevoked w.certCtx.env.now)
          (CertificateRow.pk_markRevoked w.certCtx.env.now)).get j = _ :=
        fun j ↦ Table.get_modify _ _ j _ _
      have hnew : (s.certs.certificates.modify row.id (.markRevoked w.certCtx.env.now)
          (CertificateRow.pk_markRevoked w.certCtx.env.now)).get row.id =
          some (row.markRevoked w.certCtx.env.now) := by
        rw [hget, if_pos rfl, hrow', Option.map_some]
      refine List.isChain_pair.mpr ((audited_cert_event_iff row.id hfresh.auditEvent ?_ ?_).mpr ?_)
      · intro j hj
        exact ((hget j).trans (if_neg hj)).symm
      · rw [hrow', CertTable.modify, hnew]
        refine ⟨rfl, rfl, ?_, rfl, rfl⟩
        simp [auditAction, hlive, CertificateRow.markRevoked, Surroundings.revokeEvent,
          Context.auditEvent]
      · rw [hrow', CertTable.modify, hnew]
        intro h
        have hrevoked := congrArg (Option.map CertificateRow.revoked) h
        simp [hlive, CertificateRow.markRevoked] at hrevoked

theorem auditedRequest_iff_certs {request : CertRequest} (hfresh : w.Fresh s (.certs request)) :
    AuditedRequest w s (.certs request) ↔ Tracked w s (.certs request) := by
  cases request with
  | issue payload =>
    rw [Tracked, ← issueCert_ok_iff, AuditedRequest, commits, certCommits]
    cases hissue : issueCert w.dir w.certCtx s.certs payload with
    | error e => simp
    | ok certs =>
      obtain ⟨_, _, _, hinsert⟩ := insert_of_issueCert hissue
      simpa using not_audited_insert_cert hinsert
  | renew certId =>
    rw [Tracked, ← renewCert_ok_iff, AuditedRequest, commits, certCommits]
    cases hrenew : renewCert w.certCtx s.certs certId with
    | error e => simp
    | ok certs =>
      obtain ⟨_, _, _, _, hinsert⟩ := insert_of_renewCert hrenew
      simpa using not_audited_insert_cert hinsert
  | revoke certId => exact iff_true_intro (audited_revokeCert hfresh)
  | _ => exact iff_true_intro (List.isChain_singleton _)

/-! ### `POST /v1/enroll` -/

theorem transaction_ok_iff {env : EnrollEnv} {db : Db} {call : EnrollCall} :
    (∃ result, env.transaction db call = .ok result) ↔ Commits env db call := by
  constructor
  · rintro ⟨⟨db', admitted⟩, h⟩
    obtain ⟨_, hlimit, hredeem⟩ := bind_eq_ok_iff.mp h
    exact commits_of_redeem (limit_eq_ok_iff.mp hlimit) hredeem
  · intro h
    obtain ⟨db', admitted, hredeem⟩ := redeem_of_commits h
    obtain ⟨_, _, _, _, _, _, hadm⟩ := h
    exact ⟨(db', admitted),
      bind_eq_ok_iff.mpr ⟨(), limit_eq_ok_iff.mpr hadm.limiter, hredeem⟩⟩

/-- The transaction of an enrollment is audited. -/
theorem audited_redeem {db' : Db} {call : EnrollCall} {admitted : Admitted}
    (h : w.env.redeem s.db call = .ok (db', admitted)) :
    Audited w.digest s { s with db := db' } := by
  obtain ⟨row, payload, tokens, -, -, -, hconsume, -, hcommit⟩ := redeem_eq_ok_iff.mp h
  obtain ⟨-, -, -, rfl⟩ := consumeToken_eq_some_iff.mp hconsume
  obtain ⟨-, hkey, -, hevent, rfl⟩ := commitEnroll_eq_ok_iff.mp hcommit
  have hfree : s.db.clients.get (Keyed.pk admitted.client) = none := hkey
  refine (audited_client_event_iff (Keyed.pk admitted.client) hevent ?_ ?_).mpr ?_
  · intro j hj
    exact (Table.get_insert_of_ne hfree hj).symm
  · rw [hfree, Table.get_insert_self hfree]
    refine ⟨rfl, rfl, rfl, rfl, ?_⟩
    rw [EnrollEnv.enrollEvent, canonicalJsonHash, w.digest_eq]
    rfl
  · rw [hfree, Table.get_insert_self hfree]
    exact (Option.some_ne_none _).symm

theorem auditedRequest_iff_enroll {call : EnrollCall} :
    AuditedRequest w s (.enroll call) ↔ Tracked w s (.enroll call) := by
  rw [Tracked, ← transaction_ok_iff, AuditedRequest, commits, enrollCommits]
  cases htx : w.env.transaction s.db call with
  | error e => simp
  | ok result =>
    obtain ⟨committed, admitted⟩ := result
    obtain ⟨_, -, hredeem⟩ := bind_eq_ok_iff.mp htx
    have hfirst : Audited w.digest s { s with db := committed } := audited_redeem hredeem
    obtain ⟨server, hserver⟩ := hub_of_redeem hredeem
    dsimp only
    split
    · next hfails =>
      refine iff_of_true (by simpa using hfirst) ?_
      rintro ⟨-, hacknowledge, hrefresh, hbump⟩
      simp [hacknowledge, hrefresh, hbump] at hfails
    · next hfails =>
      rw [List.map_cons, List.isChain_cons_cons, isChain_reconfigureCommits_iff, hserver]
      refine iff_of_false (fun h ↦ Option.some_ne_none _ h.2) (not_not.mpr ⟨⟨_, rfl⟩, ?_⟩)
      simpa [and_assoc] using hfails

end

/-! ## The exact condition -/

/-- **Audit completeness, exactly as far as it goes.**  For every database and registry, every
request and everything that it may meet: each transaction of the request writes exactly one event
for every row it affects, with the resource, the action and the two hashes, and no other event, just
when the request is `Tracked`. -/
theorem auditedRequest_iff (w : Surroundings) (s : Resources) (request : ApiRequest)
    (hfresh : w.Fresh s request) : AuditedRequest w s request ↔ Tracked w s request := by
  cases request with
  | servers request => exact auditedRequest_iff_servers hfresh
  | clients request => exact auditedRequest_iff_clients hfresh
  | sshKeys request => exact auditedRequest_iff_sshKeys hfresh
  | certs request => exact auditedRequest_iff_certs hfresh
  | enroll call => exact auditedRequest_iff_enroll

/-! ### A hub with a client for examples -/

/-- A request by a super-admin. -/
def exampleSurroundings : Surroundings where
  ctx := exampleContext
  scope := getTenantScope ⟨.admin, .empty⟩
  dir := ⟨fun _ ↦ none, fun _ ↦ none⟩
  certCtx :=
    { role := some .admin
      env := { now := 0, mint := fun _ _ _ _ ↦ .error .runtimeError }
      repr := fun text ↦ "'" ++ text ++ "'" }
  certDigest := fun _ ↦ "".pushn 'e' 64
  env := joinEnv []
  digest_eq := rfl

theorem lt_one_of_mem_empty : ∀ row ∈ (Table.empty : Table CertificateRow).rows, row.id < 1 := by
  rintro row ⟨⟩

/-- The hub at `10.9.0.1`, with one client. -/
def attachedResources : Resources where
  db :=
    { servers := .singleton exampleHub
      clients := .singleton
        { id := 1, name := "laptop", serverId := 1, address := some ⟨168361986, 32⟩,
          createdAt := 0 } }
  certs := { certificates := .empty, nextId := 1, lt_nextId := lt_one_of_mem_empty }

/-- A new host name for the hub is on record. -/
theorem auditedRequest_iff_hostname :
    exampleSurroundings.Fresh attachedResources
      (.servers (.update 1 { hostname := some "hub-2.example" })) ∧
    AuditedRequest exampleSurroundings attachedResources
      (.servers (.update 1 { hostname := some "hub-2.example" })) := by
  have hfresh : exampleSurroundings.Fresh attachedResources
      (.servers (.update 1 { hostname := some "hub-2.example" })) := ⟨nofun, rfl⟩
  refine ⟨hfresh, (auditedRequest_iff _ _ _ hfresh).mpr ?_⟩
  rintro row hrow _ -
  have hhub : row = exampleHub := by
    cases hrow
    rfl
  rw [hhub]
  decide

/-- `DELETE /servers/1?force=true` deletes the hub and its client, and nothing is on record. -/
theorem forced_deletion_is_silent :
    exampleSurroundings.Fresh attachedResources (.servers (.delete 1 true)) ∧
    ((commits exampleSurroundings attachedResources (.servers (.delete 1 true))).map fun s ↦
      (s.db.servers.rows.length, s.db.clients.rows.length, s.db.auditEvents.rows.length)) =
        [(0, 0, 0)] ∧
    ¬AuditedRequest exampleSurroundings attachedResources (.servers (.delete 1 true)) := by
  have hfresh : exampleSurroundings.Fresh attachedResources (.servers (.delete 1 true)) :=
    ⟨nofun, rfl⟩
  refine ⟨hfresh, rfl, fun h ↦ ?_⟩
  exact (auditedRequest_iff_servers hfresh).mp h exampleHub rfl

end WgManager
