import WgManager.Routers.EnrollmentTokens
import WgManager.Routers.Servers
import WgManager.Routers.SshKeys

/-!
# Deletions, and what refers to the row

`delete_server` and `delete_ssh_key` look for rows that refer to the one to be deleted, and answer
409 or delete them too.  The tables they look at are listed by hand: clients and, with
`?force=true`, discovered peers; servers and clients.  An enrollment token refers to a server and to
an SSH role and is on neither list, and discovered peers are not looked at without `?force=true`, so
that there the foreign keys of the database refuse what the handler has let through.

`Deletion.Respects` is what a deletion is to do, and **`deletion_respects_references_iff`** says
when it does.
-/

set_option autoImplicit false

namespace WgManager

/-- `DELETE /servers/{server_id}` or `DELETE /ssh-keys/{key_id}`. -/
inductive Deletion
  | server (serverId : ℕ) (force : Bool)
  | sshKey (keyId : ℕ)

namespace Deletion

/-- What the request does. -/
def handle (db : Db) (scope : TenantScope) : Deletion → Outcome
  | server serverId force => deleteServer db scope serverId force
  | sshKey keyId => deleteSshKey db scope keyId

/-- The row is there, and the caller may delete it. -/
def Authorised (db : Db) (scope : TenantScope) : Deletion → Prop
  | server serverId _ => ∃ row, serverGate db scope serverId = .ok row
  | sshKey keyId => ∃ row, sshKeyGate db scope keyId = .ok row

/-- The row is gone. -/
def Removed (db : Db) : Deletion → Prop
  | server serverId _ => db.servers.get serverId = none
  | sshKey keyId => db.sshKeys.get keyId = none

/-- A row whose foreign key names the row. -/
def Referenced (db : Db) : Deletion → Prop
  | server serverId _ => (∃ c ∈ db.clients.rows, c.serverId = serverId) ∨
      (∃ p ∈ db.discoveredPeers.rows, p.serverId = serverId) ∨
      ∃ t ∈ db.enrollmentTokens.rows, t.serverId = serverId
  | sshKey keyId => (∃ s ∈ db.servers.rows, s.sshKeyId = keyId) ∨
      (∃ c ∈ db.clients.rows, c.sshKeyId = some keyId) ∨
      ∃ t ∈ db.enrollmentTokens.rows, t.sshKeyId = keyId

/-- The deletion may not be refused. -/
def Forced : Deletion → Prop
  | server _ force => force = true
  | sshKey _ => False

/-- **What a deletion is to do**: refuse with 409 and change nothing, or delete the row and leave
nothing that refers to it. -/
def Respects (db : Db) (scope : TenantScope) (d : Deletion) : Prop :=
  (¬d.Forced ∧ (∃ detail, (d.handle db scope).response = .error ⟨409, detail⟩) ∧
    (d.handle db scope).db = db) ∨
  ((d.handle db scope).response = .ok (204, .noContent) ∧ d.Removed (d.handle db scope).db ∧
    ¬d.Referenced (d.handle db scope).db)

/-- The references that the handler does not look at.  Without `?force=true` a client that is
attached has the request refused before it comes to that. -/
def Overlooks (db : Db) : Deletion → Prop
  | server serverId true => ∃ t ∈ db.enrollmentTokens.rows, t.serverId = serverId
  | server serverId false => (∀ c ∈ db.clients.rows, c.serverId ≠ serverId) ∧
      ((∃ t ∈ db.enrollmentTokens.rows, t.serverId = serverId) ∨
        ∃ p ∈ db.discoveredPeers.rows, p.serverId = serverId)
  | sshKey keyId => (∀ s ∈ db.servers.rows, s.sshKeyId ≠ keyId) ∧
      (∀ c ∈ db.clients.rows, c.sshKeyId ≠ some keyId) ∧
      ∃ t ∈ db.enrollmentTokens.rows, t.sshKeyId = keyId

end Deletion

/-! ## Servers -/

section

variable {db : Db} {scope : TenantScope} {serverId keyId : ℕ} {force : Bool} {row : Server}

theorem stillReferenced_iff : stillReferenced db serverId force = true ↔
    (∃ t ∈ db.enrollmentTokens.rows, t.serverId = serverId) ∨
      force = false ∧ ∃ p ∈ db.discoveredPeers.rows, p.serverId = serverId := by
  simp [stillReferenced]

theorem attachedClients_eq_nil_iff :
    attachedClients db serverId = [] ↔ ∀ c ∈ db.clients.rows, c.serverId ≠ serverId := by
  simp [attachedClients, Table.select]

/-- What a server that was deleted leaves. -/
theorem not_referenced_withoutServer
    (hclients : force = true ∨ ∀ c ∈ db.clients.rows, c.serverId ≠ serverId)
    (hfree : stillReferenced db serverId force = false) :
    ¬(Deletion.server serverId force).Referenced (withoutServer db serverId force) := by
  have hfree' : ¬stillReferenced db serverId force = true := by simp [hfree]
  rw [stillReferenced_iff, not_or] at hfree'
  rintro (⟨c, hc, hid⟩ | ⟨p, hp, hid⟩ | ⟨t, ht, hid⟩)
  · rw [withoutServer] at hc
    cases force with
    | true => exact absurd hid (by simpa using (List.mem_filter.mp hc).2)
    | false => exact (hclients.resolve_left (by decide)) c hc hid
  · rw [withoutServer] at hp
    cases force with
    | true => exact absurd hid (by simpa using (List.mem_filter.mp hp).2)
    | false => exact hfree'.2 ⟨rfl, p, hp, hid⟩
  · exact hfree'.1 ⟨t, ht, hid⟩

/-- The three ways in which the deletion of a server ends. -/
theorem deleteServer_cases (force : Bool) (hgate : serverGate db scope serverId = .ok row) :
    (attachedClients db serverId ≠ [] ∧ force = false ∧
      ∃ detail, deleteServer db scope serverId force = ⟨db, [], .error ⟨409, detail⟩⟩) ∨
    ((force = true ∨ attachedClients db serverId = []) ∧ stillReferenced db serverId force = true ∧
      deleteServer db scope serverId force = ⟨db, [], .error internalServerError⟩) ∨
    ((force = true ∨ attachedClients db serverId = []) ∧ stillReferenced db serverId force = false ∧
      deleteServer db scope serverId force =
        ⟨withoutServer db serverId force, [], .ok (204, .noContent)⟩) := by
  rw [deleteServer, deleteServerChecks, hgate]
  simp only [bind, Except.bind]
  split
  · next hattached =>
    have h : attachedClients db serverId ≠ [] ∧ force = false := by simpa using hattached
    exact .inl ⟨h.1, h.2, _, rfl⟩
  · next hattached =>
    have h : force = true ∨ attachedClients db serverId = [] := by
      cases force <;> simp_all
    split
    · next href => exact .inr (.inl ⟨h, href, rfl⟩)
    · next href => exact .inr (.inr ⟨h, by simpa using href, rfl⟩)

theorem overlooks_server_iff : (Deletion.server serverId force).Overlooks db ↔
    (force = true ∨ attachedClients db serverId = []) ∧
      stillReferenced db serverId force = true := by
  rw [stillReferenced_iff, attachedClients_eq_nil_iff]
  cases force <;> simp [Deletion.Overlooks]

theorem respects_server_iff (hgate : serverGate db scope serverId = .ok row) :
    (Deletion.server serverId force).Respects db scope ↔
      ¬(Deletion.server serverId force).Overlooks db := by
  rw [overlooks_server_iff, Deletion.Respects, Deletion.handle]
  rcases deleteServer_cases force hgate with ⟨hattached, rfl, detail, hout⟩ | ⟨hfree, href, hout⟩ |
      ⟨hfree, href, hout⟩
  · -- refused
    rw [hout]
    refine ⟨fun _ h ↦ ?_, fun _ ↦ .inl ⟨by simp [Deletion.Forced], ⟨detail, rfl⟩, rfl⟩⟩
    exact hattached (h.1.resolve_left (by decide))
  · -- let through, and refused by the database
    rw [hout]
    refine ⟨fun h ↦ ?_, fun h ↦ absurd ⟨hfree, href⟩ h⟩
    rcases h with ⟨-, ⟨detail, hdetail⟩, -⟩ | ⟨hok, -⟩
    · cases hdetail
    · cases hok
  · -- deleted
    rw [hout]
    refine ⟨fun _ h ↦ ?_, fun _ ↦ .inr ⟨rfl, ?_, ?_⟩⟩
    · rw [href] at h
      cases h.2
    · rw [Deletion.Removed, withoutServer, Table.get_delete, if_pos rfl]
    · exact not_referenced_withoutServer (hfree.imp_right attachedClients_eq_nil_iff.mp) href

end

/-! ## SSH roles -/

section

variable {db : Db} {scope : TenantScope} {keyId : ℕ} {row : SSHKey}

theorem respects_sshKey_iff (hgate : sshKeyGate db scope keyId = .ok row) :
    (Deletion.sshKey keyId).Respects db scope ↔ ¬(Deletion.sshKey keyId).Overlooks db := by
  rw [Deletion.Respects, Deletion.handle, deleteSshKey, hgate]
  simp only [bind, Except.bind]
  split
  · next hused =>
    -- a server or a client uses the role
    refine ⟨fun _ h ↦ ?_, fun _ ↦ .inl ⟨id, ⟨_, rfl⟩, rfl⟩⟩
    simp only [Bool.or_eq_true, List.any_eq_true, beq_iff_eq] at hused
    rcases hused with ⟨s, hs, hid⟩ | ⟨c, hc, hid⟩
    · exact h.1 s hs hid
    · exact h.2.1 c hc hid
  · next hunused =>
    simp only [Bool.or_eq_true, List.any_eq_true, beq_iff_eq, not_or, not_exists,
      not_and] at hunused
    split
    · next htoken =>
      simp only [List.any_eq_true, beq_iff_eq] at htoken
      refine ⟨fun h ↦ ?_, fun h ↦ absurd ⟨hunused.1, hunused.2, htoken⟩ h⟩
      rcases h with ⟨-, ⟨detail, hdetail⟩, -⟩ | ⟨hok, -⟩
      · cases hdetail
      · cases hok
    · next htoken =>
      simp only [List.any_eq_true, beq_iff_eq] at htoken
      refine ⟨fun _ h ↦ htoken h.2.2, fun _ ↦ .inr ⟨rfl, ?_, ?_⟩⟩
      · simp [Deletion.Removed, Outcome.ofChecks]
      · rintro (⟨s, hs, hid⟩ | ⟨c, hc, hid⟩ | ht)
        · exact hunused.1 s hs hid
        · exact hunused.2 c hc hid
        · exact htoken ht

end

/-- **Deletions respect every reference, except those they overlook.**  A deletion by a caller who
may delete the row refuses with 409 and changes nothing, or deletes it and leaves nothing that
refers to it — and is not refused with `?force=true` — if and only if the handler looks at every
reference that there is. -/
theorem deletion_respects_references_iff {db : Db} {scope : TenantScope} {d : Deletion}
    (h : d.Authorised db scope) : d.Respects db scope ↔ ¬d.Overlooks db := by
  cases d with
  | server serverId force =>
    obtain ⟨row, hgate⟩ := h
    exact respects_server_iff hgate
  | sshKey keyId =>
    obtain ⟨row, hgate⟩ := h
    exact respects_sshKey_iff hgate

/-- A hub that is ready, and the SSH role it is reached with. -/
def hubAndRole : Db where
  sshKeys := .singleton { id := 1, name := "deploy", createdAt := 0 }
  servers := .singleton { exampleHub with status := .ready }

/-- A super-admin. -/
def superAdmin : TenantScope := getTenantScope ⟨.admin, .empty⟩

theorem deletion_respects_references_iff_hubAndRole :
    (Deletion.server 1 true).Authorised hubAndRole superAdmin ∧
      (Deletion.server 1 true).Respects hubAndRole superAdmin := by
  have hauth : (Deletion.server 1 true).Authorised hubAndRole superAdmin :=
    ⟨{ exampleHub with status := .ready }, by decide +kernel⟩
  refine ⟨hauth, (deletion_respects_references_iff hauth).mpr ?_⟩
  rintro ⟨t, ⟨⟩, -⟩

/-- A token is minted for the hub, and then the hub is deleted with `?force=true`. -/
theorem deletion_fails_after_token :
    let db := (createEnrollmentToken exampleContext ⟨id, fun _ ↦ none, fun _ ↦ none⟩ "join-me"
      hubAndRole superAdmin { serverId := 1, sshKeyId := 1, sshUsername := "deploy" }).db
    (Deletion.server 1 true).Authorised db superAdmin ∧
      ((Deletion.server 1 true).handle db superAdmin).response = .error internalServerError ∧
      ¬(Deletion.server 1 true).Respects db superAdmin := by
  intro db
  have hauth : (Deletion.server 1 true).Authorised db superAdmin :=
    ⟨{ exampleHub with status := .ready }, by decide +kernel⟩
  refine ⟨hauth, by decide +kernel, ?_⟩
  rintro (⟨hforced, -⟩ | ⟨hok, -⟩)
  · exact hforced rfl
  · exact absurd hok (by decide +kernel)

end WgManager
