import WgManager.Enroll.System
import WgManager.Lib.Exclusive

/-!
# A revocation is recorded once

`revoke_enrollment_token` looks at the row, and if the token is not revoked it writes `revoked_at`
and `revoked_by_cn` and an audit event.  The `UPDATE` has no condition on `revoked_at`, so what
keeps the first revocation on record is only that a later request sees it.

* `Recorded` is what is to hold: as many events as there are revocations, that is none or one.
* `UpdatesCurrent` is the condition that the `UPDATE` does not make: what the token says of its
  revocation is still what the request has read.  From there on the lock of the row sees to it.
* **`revocation_is_recorded_once`**: along every run that meets the condition, next to any other
  requests, the books are right and a revocation on record stays as it is.

`revocations_clash` is a run of two admins that does not meet it: the second one overwrites who has
revoked the token and when, and leaves a second event.
-/

set_option autoImplicit false

namespace WgManager.Enroll

/-- The revocation of a token that is on record: when, and by whom. -/
def revocation (tokenId : ℕ) (db : Db) : Option (Datetime × Option String) :=
  (db.enrollmentTokens.get tokenId).bind fun row ↦
    row.revokedAt.map fun at' ↦ (at', row.revokedByCn)

/-- An `enrollment_token.revoke` event for the token. -/
def isRevokeEvent (tokenId : ℕ) (event : AuditEvent) : Bool :=
  event.event == "enrollment_token.revoke" && event.resourceId == some tokenId

/-- The number of such events. -/
def revokeCount (tokenId : ℕ) (events : Table AuditEvent) : ℕ :=
  events.rows.countP (isRevokeEvent tokenId)

/-- There is an event for the revocation on record, and no other. -/
def Recorded (tokenId : ℕ) (db : Db) : Prop :=
  revokeCount tokenId db.auditEvents = if (revocation tokenId db).isSome then 1 else 0

/-- What a request has seen of the token and relies on: a revocation that has updated the row has
seen that there is none. -/
def Stage.sawRevocation (tokenId : ℕ) : Stage → Option (Option (Datetime × Option String))
  | marked row .. => if row.id = tokenId then some none else none
  | _ => none

def Proc.sawRevocation (tokenId : ℕ) : Proc → Option (Option (Datetime × Option String))
  | redemption .. => none
  | request _ st => st.sawRevocation tokenId

/-- The token row that a revocation has loaded and is going to update. -/
def Proc.loaded : Proc → Option EnrollmentToken
  | request _ (.revoking row ..) => some row
  | _ => none

/-- When a revocation updates the token, the token says of its revocation what the request has read.
The `UPDATE` itself has no such condition. -/
def UpdatesCurrent (tokenId : ℕ) (c : Config Shared Proc) (e : ℕ × Action) : Prop :=
  e.2 = .update → ∀ row ∈ (c.proc e.1).bind Proc.loaded, row.id = tokenId →
    revocation tokenId c.shared.db = row.revokedAt.map fun at' ↦ (at', row.revokedByCn)

instance (tokenId : ℕ) (c : Config Shared Proc) (e : ℕ × Action) :
    Decidable (UpdatesCurrent tokenId c e) :=
  inferInstanceAs (Decidable (e.2 = .update → ∀ row ∈ (c.proc e.1).bind Proc.loaded,
    row.id = tokenId →
      revocation tokenId c.shared.db = row.revokedAt.map fun at' ↦ (at', row.revokedByCn)))

/-- The token row that a process has locked. -/
def Proc.lock : Proc → Option ℕ
  | redemption _ (.consumed w) => some w.row.id
  | redemption _ (.admitted w _) => some w.row.id
  | request _ (.marked row ..) => some row.id
  | _ => none

/-! ## One step -/

/-- What is true of a request that is going to write an event: a revocation names its token, which
exists and was not revoked when it was read, and a deletion is no revocation. -/
def Stage.Logs (g : Shared) : Stage → Prop
  | deleting _ event => event.event ≠ "enrollment_token.revoke"
  | revoking row _ _ event => (event.event = "enrollment_token.revoke" ∧
      event.resourceId = some row.id ∧ (g.db.enrollmentTokens.get row.id).isSome) ∧
      row.revokedAt = none
  | marked row _ _ event => event.event = "enrollment_token.revoke" ∧
      event.resourceId = some row.id ∧ (g.db.enrollmentTokens.get row.id).isSome
  | _ => True

def Proc.Logs (g : Shared) : Proc → Prop
  | redemption .. => True
  | request _ st => st.Logs g

/-- Tokens stay. -/
def Keeps (g g' : Shared) : Prop :=
  ∀ id, (g.db.enrollmentTokens.get id).isSome → (g'.db.enrollmentTokens.get id).isSome

/-- A step that has nothing to do with the revocation of the token. -/
structure Quiet (tokenId : ℕ) (g g' : Shared) : Prop where
  revocation : revocation tokenId g'.db = revocation tokenId g.db
  count : revokeCount tokenId g'.db.auditEvents = revokeCount tokenId g.db.auditEvents
  keeps : Keeps g g'

/-- The commit of a revocation of the token. -/
structure Revokes (tokenId : ℕ) (g g' : Shared) : Prop where
  revocation : (revocation tokenId g'.db).isSome
  count : revokeCount tokenId g'.db.auditEvents = revokeCount tokenId g.db.auditEvents + 1
  keeps : Keeps g g'

section

variable {tokenId i : ℕ} {g g' : Shared} {q : Request} {r : Redemption} {st st' : Stage}
  {ph ph' : Phase} {a : Action}

theorem quiet_of_db (h : g'.db = g.db) : Quiet tokenId g g' :=
  ⟨by rw [h], by rw [h], fun _ hid ↦ by rwa [h]⟩

theorem revokeCount_insert {events : Table AuditEvent} {event : AuditEvent}
    (h : events.get event.id = none) :
    revokeCount tokenId (events.insert event) =
      revokeCount tokenId events + if isRevokeEvent tokenId event then 1 else 0 := by
  rw [revokeCount, revokeCount, Table.rows_insert h, List.countP_append, List.countP_singleton]

/-- An event of another kind does not count. -/
theorem revokeCount_insert_of_ne {events : Table AuditEvent} {event : AuditEvent}
    (h : events.get event.id = none) (hevent : event.event ≠ "enrollment_token.revoke") :
    revokeCount tokenId (events.insert event) = revokeCount tokenId events := by
  rw [revokeCount_insert h, isRevokeEvent, beq_false_of_ne hevent]
  rfl

theorem isSome_get_modify {tokens : Table EnrollmentToken} {id k : ℕ}
    {f : EnrollmentToken → EnrollmentToken} (hf : ∀ r, Keyed.pk (f r) = Keyed.pk r)
    (h : (tokens.get id).isSome) :
    ((tokens.modify k f hf).get id).isSome := by
  rw [Table.get_modify]
  split
  · rwa [Option.isSome_map]
  · exact h

/-- A use leaves the revocation as it is. -/
theorem quiet_withEnrolled {env : EnrollEnv} {row : EnrollmentToken} {client : Client}
    (hkey : g.db.auditEvents.get env.auditId = none)
    (h : g'.db = env.withEnrolled g.db row client) : Quiet tokenId g g' where
  revocation := by
    rw [h]
    simp only [revocation, EnrollEnv.withEnrolled, Table.get_modify]
    split
    · cases g.db.enrollmentTokens.get tokenId <;> rfl
    · rfl
  count := by
    rw [h]
    refine revokeCount_insert_of_ne hkey ?_
    change "client.enroll" ≠ "enrollment_token.revoke"
    decide
  keeps := fun id hid ↦ by
    rw [h]
    exact isSome_get_modify EnrollmentToken.pk_use hid

theorem quiet_of_redemptionMove (h : RedemptionMove i g r ph a g' ph') : Quiet tokenId g g' := by
  cases h with
  | commit h =>
    obtain ⟨-, -, hkey, hdb⟩ := withEnrolled_of_commit h
    exact quiet_withEnrolled hkey hdb
  | _ => exact quiet_of_db rfl

section

variable {row : EnrollmentToken} {now : Datetime} {cn : Option String} {event : AuditEvent}
  {auditEvents : Table AuditEvent}

theorem count_of_revoke (hlogs : (Stage.marked row now cn event).Logs g)
    (h : flushAudit g.db.auditEvents event = some auditEvents) :
    revokeCount tokenId auditEvents =
      revokeCount tokenId g.db.auditEvents + if row.id = tokenId then 1 else 0 := by
  obtain ⟨hkey, rfl⟩ := flushAudit_eq_some_iff.mp h
  rw [revokeCount_insert hkey]
  simp [isRevokeEvent, hlogs.1, hlogs.2.1]

theorem keeps_revoked (hdb : g'.db.enrollmentTokens = revoked g.db.enrollmentTokens row now cn) :
    Keeps g g' := fun id hget ↦ by
  rw [hdb]
  exact isSome_get_modify (pk_updateRevoked row now cn) hget

/-- The commit of a revocation of the token. -/
theorem revokes_of_revoke (hlogs : (Stage.marked row now cn event).Logs g)
    (h : flushAudit g.db.auditEvents event = some auditEvents)
    (htokens : g'.db.enrollmentTokens = revoked g.db.enrollmentTokens row now cn)
    (hevents : g'.db.auditEvents = auditEvents) (hid : row.id = tokenId) :
    Revokes tokenId g g' := by
  refine ⟨?_, ?_, keeps_revoked htokens⟩
  · obtain ⟨row₀, hrow₀⟩ := Option.isSome_iff_exists.mp hlogs.2.2
    subst hid
    rw [revocation, htokens, revoked, Table.get_modify, if_pos rfl, hrow₀]
    rfl
  · rw [hevents, count_of_revoke hlogs h, if_pos hid]

/-- The commit of a revocation of another token. -/
theorem quiet_of_revoke (hlogs : (Stage.marked row now cn event).Logs g)
    (h : flushAudit g.db.auditEvents event = some auditEvents)
    (htokens : g'.db.enrollmentTokens = revoked g.db.enrollmentTokens row now cn)
    (hevents : g'.db.auditEvents = auditEvents) (hid : row.id ≠ tokenId) : Quiet tokenId g g' := by
  refine ⟨?_, ?_, keeps_revoked htokens⟩
  · rw [revocation, htokens, revoked, Table.get_modify, if_neg hid.symm]
    rfl
  · rw [hevents, count_of_revoke hlogs h, if_neg hid, Nat.add_zero]

end

theorem Stage.Logs.keeps (h : st.Logs g) (hkeeps : Keeps g g') : st.Logs g' := by
  cases st with
  | revoking row now cn event => exact ⟨⟨h.1.1, h.1.2.1, hkeeps _ h.1.2.2⟩, h.2⟩
  | marked row now cn event => exact ⟨h.1, h.2.1, hkeeps _ h.2.2⟩
  | _ => exact h

/-- What a request knows after it has looked. -/
theorem logs_read : (q.read g.db).Logs g := by
  cases q with
  | registerClient ctx payload => rw [Request.read]; split <;> trivial
  | registerManualClient ctx payload => rw [Request.read]; split <;> trivial
  | deleteClient ctx scope clientId =>
    rw [Request.read]
    split
    · trivial
    · change "client.delete" ≠ "enrollment_token.revoke"
      decide
  | revokeEnrollmentToken ctx scope id =>
    rw [Request.read]
    split
    · trivial
    · next row hgate =>
      split
      · trivial
      · next hrevoke =>
        refine ⟨⟨rfl, rfl, ?_⟩, revokedAt_of_revokeToken hrevoke⟩
        have hget := get_of_tokenGate hgate
        rw [Table.pk_of_get hget |>.symm] at hget
        exact Option.isSome_of_eq_some hget

/-- A request that has only looked relies on nothing. -/
theorem sawRevocation_read (tokenId : ℕ) : (q.read g.db).sawRevocation tokenId = none := by
  cases q <;> rw [Request.read] <;> repeat' split
  all_goals rfl

/-- **What a step of another request does to the revocation of the token**: nothing, while it relies
on nothing or has just updated the row; or it is the commit. -/
theorem effect_of_requestMove (hlogs : st.Logs g) (h : RequestMove i g q st a g' st') :
    st'.Logs g' ∧
      (Quiet tokenId g g' ∧ (st'.sawRevocation tokenId = none ∨
          ∃ row now cn event, st = .revoking row now cn event ∧ a = .update ∧
            st' = .marked row now cn event ∧ g.rows row.id = none) ∨
        Revokes tokenId g g' ∧ st.sawRevocation tokenId = some none ∧ st' = .done) := by
  cases h with
  | read => exact ⟨logs_read, .inl ⟨quiet_of_db rfl, .inl (sawRevocation_read tokenId)⟩⟩
  | insert h => exact ⟨trivial, .inl ⟨⟨rfl, rfl, fun _ hid ↦ hid⟩, .inl rfl⟩⟩
  | delete h =>
    obtain ⟨hkey, rfl⟩ := flushAudit_eq_some_iff.mp h
    refine ⟨trivial, .inl ⟨⟨rfl, ?_, fun _ hid ↦ hid⟩, .inl rfl⟩⟩
    exact revokeCount_insert_of_ne hkey hlogs
  | mark free => exact ⟨hlogs.1, .inl ⟨quiet_of_db rfl, .inr ⟨_, _, _, _, rfl, rfl, rfl, free⟩⟩⟩
  | @revoke row now cn event auditEvents h =>
    refine ⟨trivial, ?_⟩
    by_cases hid : row.id = tokenId
    · exact .inr ⟨revokes_of_revoke hlogs h rfl rfl hid, if_pos hid, rfl⟩
    · exact .inl ⟨quiet_of_revoke hlogs h rfl rfl hid, .inl rfl⟩
  | unmark => exact ⟨trivial, .inl ⟨quiet_of_db rfl, .inl rfl⟩⟩
  | rolledBack => exact ⟨trivial, .inl ⟨quiet_of_db rfl, .inl rfl⟩⟩

/-! ## The locks of the token rows -/

theorem lockMove_of_redemptionMove (h : RedemptionMove i g r ph a g' ph') :
    Config.LockMove i g.rows (Proc.lock (.redemption r ph)) g'.rows
      (Proc.lock (.redemption r ph')) := by
  cases h with
  | refused | read | notAcquired | lock | rejected | admitClient | release => exact .keep
  | consume _ free => exact .take free
  | notAdmitted | rolledBack | commit => exact .release rfl

/-- A request that has only looked has locked nothing. -/
theorem lock_read : Proc.lock (.request q (q.read g.db)) = none := by
  cases q <;> rw [Request.read] <;> repeat' split
  all_goals rfl

theorem lockMove_of_requestMove (h : RequestMove i g q st a g' st') :
    Config.LockMove i g.rows (Proc.lock (.request q st)) g'.rows (Proc.lock (.request q st')) := by
  cases h with
  | read =>
    rw [lock_read]
    exact .idle
  | insert | delete | rolledBack => exact .idle
  | mark free => exact .take free
  | revoke | unmark => exact .release rfl

theorem lockMove_of_procStep {p p' : Option Proc} (h : procStep i g p a = some (g', p')) :
    Config.LockMove i g.rows (p.bind Proc.lock) g'.rows (p'.bind Proc.lock) := by
  rcases procStep_cases h with ⟨r, ph, ph', rfl, rfl, hmove⟩ | ⟨q, st, st', rfl, rfl, hmove⟩
  · exact lockMove_of_redemptionMove hmove
  · exact lockMove_of_requestMove hmove

/-- Whoever relies on there being no revocation has locked the row. -/
theorem lock_of_sawRevocation {q : Proc} {v : Option (Datetime × Option String)}
    (h : q.sawRevocation tokenId = some v) : v = none ∧ q.lock = some tokenId := by
  unfold Proc.sawRevocation Stage.sawRevocation at h
  split at h
  · cases h
  · split at h
    · split at h
      · next hid =>
        cases h
        exact ⟨rfl, congrArg some hid⟩
      · cases h
    · cases h

end

/-! ## Runs -/

section

variable {tokenId : ℕ} {c c' : Config Shared Proc} {e : ℕ × Action}

/-- What holds along a run: locks are on record, nobody relies on something that is not so, the
books are right, and the events that are on their way name what they are about. -/
structure Orderly (tokenId : ℕ) (c : Config Shared Proc) : Prop where
  locked : c.Locked Shared.rows Proc.lock
  exclusive : c.Exclusive (fun g ↦ revocation tokenId g.db) (Proc.sawRevocation tokenId)
  books : c.Inv (fun g ↦ Recorded tokenId g.db) fun _ g q ↦ q.Logs g

theorem Recorded.of_quiet {g g' : Shared} (h : Recorded tokenId g.db) (hq : Quiet tokenId g g') :
    Recorded tokenId g'.db := by
  rw [Recorded, hq.revocation, hq.count]
  exact h

theorem Recorded.of_revokes {g g' : Shared} (h : Recorded tokenId g.db)
    (hnone : revocation tokenId g.db = none) (hr : Revokes tokenId g g') :
    Recorded tokenId g'.db := by
  rw [Recorded, hnone] at h
  rw [Recorded, hr.count, h, hr.revocation]
  rfl

theorem Proc.Logs.keeps {g g' : Shared} {q : Proc} (h : q.Logs g) (hkeeps : Keeps g g') :
    q.Logs g' := by
  cases q with
  | redemption r ph => trivial
  | request q st => exact Stage.Logs.keeps h hkeeps

/-- A process that relies on there being no revocation after a step has just updated the row, whose
lock was free. -/
def Marks (tokenId : ℕ) (g : Shared) (p p' : Option Proc) (a : Action) : Prop :=
  ∀ q' v, p' = some q' → q'.sawRevocation tokenId = some v →
    a = .update ∧ g.rows tokenId = none ∧
      ∃ row ∈ p.bind Proc.loaded, row.id = tokenId ∧ row.revokedAt = none

/-- **What a step does to the revocation of the token**: nothing, or it is the commit of a process
that relied on there being none. -/
theorem effect_of_procStep (tokenId : ℕ) {i : ℕ} {g g' : Shared} {p p' : Option Proc} {a : Action}
    (hp : ∀ q, p = some q → q.Logs g) (h : procStep i g p a = some (g', p')) :
    (∀ q, p' = some q → q.Logs g') ∧
      (Quiet tokenId g g' ∧ Marks tokenId g p p' a ∨
        Revokes tokenId g g' ∧ (∃ q, p = some q ∧ q.sawRevocation tokenId = some none) ∧
          ∀ q, p' = some q → q.sawRevocation tokenId = none) := by
  rcases procStep_cases h with ⟨r, ph, ph', rfl, rfl, hmove⟩ | ⟨q, st, st', rfl, rfl, hmove⟩
  · refine ⟨?_, .inl ⟨quiet_of_redemptionMove hmove, ?_⟩⟩
    · rintro _ ⟨⟩
      trivial
    · rintro _ v ⟨⟩ hv
      cases hv
  · have hlogs : st.Logs g := hp _ rfl
    obtain ⟨hlogs', heffect⟩ := effect_of_requestMove hlogs hmove
    refine ⟨?_, ?_⟩
    · rintro _ ⟨⟩
      exact hlogs'
    rcases heffect with ⟨hquiet, hsaw⟩ | ⟨hrevokes, hsaw, rfl⟩
    · refine .inl ⟨hquiet, ?_⟩
      rintro _ v ⟨⟩ hv
      rw [Proc.sawRevocation] at hv
      rcases hsaw with hnone | ⟨row, now, cn, event, rfl, rfl, rfl, hfree⟩
      · rw [hnone] at hv
        cases hv
      · obtain ⟨-, hlock⟩ := lock_of_sawRevocation (q := .request q (.marked row now cn event)) hv
        obtain rfl : row.id = tokenId := Option.some.inj hlock
        exact ⟨rfl, hfree, row, rfl, rfl, hlogs.2⟩
    · refine .inr ⟨hrevokes, ⟨_, rfl, hsaw⟩, ?_⟩
      rintro _ ⟨⟩
      rfl

theorem orderly_step (hc : Orderly tokenId c) (hok : UpdatesCurrent tokenId c e)
    (h : step c e = some c') : Orderly tokenId c' := by
  refine ⟨Config.locked_step hc.locked h fun g' p' hf ↦ lockMove_of_procStep hf,
    Config.exclusive_step hc.exclusive h ?_ ?_, Config.inv_step hc.books h ?_⟩
  · intro g' p' hf
    rcases (effect_of_procStep tokenId (hc.books.proc e.1) hf).2 with
      ⟨hquiet, -⟩ | ⟨-, ⟨q, hq, hsaw⟩, -⟩
    · exact .inl hquiet.revocation
    · exact .inr ⟨q, none, hq, hsaw⟩
  · intro g' q' v hf hv
    rcases (effect_of_procStep tokenId (hc.books.proc e.1) hf).2 with
      ⟨hquiet, hmarks⟩ | ⟨-, -, hnone⟩
    · obtain ⟨hupdate, hfree, row, hrow, hid, hseen⟩ := hmarks q' v rfl hv
      refine ⟨?_, .inr fun j q _ hq ↦ ?_⟩
      · rw [(lock_of_sawRevocation hv).1, hquiet.revocation, hok hupdate row hrow hid, hseen,
          Option.map_none]
      · -- whoever relied on it would have the lock
        by_contra hholds
        obtain ⟨w, hw⟩ := Option.ne_none_iff_exists'.mp hholds
        exact hc.locked.ne_of_free hfree hq (lock_of_sawRevocation hw).2
    · rw [hnone q' rfl] at hv
      cases hv
  · intro g' p' hf
    obtain ⟨hlogs, heffect⟩ := effect_of_procStep tokenId (hc.books.proc e.1) hf
    rcases heffect with ⟨hquiet, -⟩ | ⟨hrevokes, ⟨q, hq, hsaw⟩, -⟩
    · exact ⟨hc.books.shared.of_quiet hquiet, hlogs, fun _ _ _ hj ↦ hj.keeps hquiet.keeps⟩
    · have hnone := (hc.exclusive _ _ _ hq hsaw).1.symm
      exact ⟨hc.books.shared.of_revokes hnone hrevokes, hlogs,
        fun _ _ _ hj ↦ hj.keeps hrevokes.keeps⟩

/-- A revocation on record stays as it is. -/
theorem revocation_of_step (hc : Orderly tokenId c) (h : step c e = some c')
    {mark : Datetime × Option String} (hmark : revocation tokenId c.shared.db = some mark) :
    revocation tokenId c'.shared.db = some mark := by
  obtain ⟨g', p', hf, rfl⟩ := Config.step_eq_some.mp h
  rcases (effect_of_procStep tokenId (hc.books.proc e.1) hf).2 with
    ⟨hquiet, -⟩ | ⟨-, ⟨q, hq, hsaw⟩, -⟩
  · rw [hquiet.revocation]
    exact hmark
  · have hnone : none = revocation tokenId c.shared.db := (hc.exclusive _ _ _ hq hsaw).1
    rw [hmark] at hnone
    cases hnone

theorem orderly_initial (hinit : Initial c) (hrec : Recorded tokenId c.shared.db) :
    Orderly tokenId c := by
  refine ⟨Config.locked_of_idle fun i q hq ↦ ?_, Config.exclusive_of_idle fun i q hq ↦ ?_, hrec,
    fun i q hq ↦ ?_⟩
  · rcases hinit.begun hq with ⟨r, rfl⟩ | ⟨q, rfl⟩ <;> rfl
  · rcases hinit.begun hq with ⟨r, rfl⟩ | ⟨q, rfl⟩ <;> rfl
  · rcases hinit.begun hq with ⟨r, rfl⟩ | ⟨q, rfl⟩ <;> trivial

/-- **A revocation is recorded once.**  Along every run in which no revocation updates the token
when another has been recorded since it was read: there is an event for the revocation on record and
no other, and from then on neither `revoked_at` nor `revoked_by_cn` changes. -/
theorem revocation_is_recorded_once {m : Config Shared Proc} {es es' : List (ℕ × Action)}
    (hinit : Initial c) (hrec : Recorded tokenId c.shared.db)
    (hok : Run.Meets step (UpdatesCurrent tokenId) c es) (h : Run.run step c es = some m)
    (hok' : Run.Meets step (UpdatesCurrent tokenId) m es') (h' : Run.run step m es' = some c') :
    revokeCount tokenId m.shared.db.auditEvents =
        (if (revocation tokenId m.shared.db).isSome then 1 else 0) ∧
      ∀ mark, revocation tokenId m.shared.db = some mark →
        revocation tokenId c'.shared.db = some mark := by
  have hm : Orderly tokenId m :=
    Run.run_invariant (fun _ _ _ hc hok hstep ↦ orderly_step hc hok hstep)
      (orderly_initial hinit hrec) hok h
  refine ⟨hm.books.shared, fun mark hmark ↦ ?_⟩
  refine (Run.run_invariant (I := fun c ↦ Orderly tokenId c ∧
    revocation tokenId c.shared.db = some mark) ?_ ⟨hm, hmark⟩ hok' h').2
  rintro s a s' ⟨hs, hsmark⟩ hok hstep
  exact ⟨orderly_step hs hok hstep, revocation_of_step hs hstep hsmark⟩

end

/-- Two admins who revoke the token, the second a minute after the first. -/
def twoAdmins : Config Shared Proc where
  shared := { db := joinDb }
  proc
    | 0 => some (.request (.revokeEnrollmentToken { exampleContext with actorCn := some "alice" }
        (getTenantScope ⟨.admin, .empty⟩) 1) .begun)
    | 1 => some (.request (.revokeEnrollmentToken
        { exampleContext with actorCn := some "bob", now := 60, auditId := 2 }
        (getTenantScope ⟨.admin, .empty⟩) 1) .begun)
    | _ => none

theorem initial_twoAdmins : Initial twoAdmins := by
  refine ⟨fun _ ↦ rfl, fun _ ↦ rfl, fun i p hp ↦ ?_⟩
  rcases i with _ | _ | i <;> cases hp <;> trivial

theorem recorded_twoAdmins : Recorded 1 twoAdmins.shared.db := by
  unfold Recorded
  decide +kernel

/-- Both admins look before the first commits, and the request of the second fails before its
`UPDATE`. -/
theorem revocation_is_recorded_once_overlap :
    ∃ m c', Run.run step twoAdmins [(0, .read), (1, .read), (0, .update), (0, .commit)] = some m ∧
      Run.run step m [(1, .fail)] = some c' ∧ revokeCount 1 m.shared.db.auditEvents = 1 ∧
      revocation 1 m.shared.db = some (0, some "alice") ∧
      revocation 1 c'.shared.db = some (0, some "alice") := by
  have hrun : (Run.run step twoAdmins [(0, .read), (1, .read), (0, .update), (0, .commit)]).any
      fun m ↦ decide (revocation 1 m.shared.db = some (0, some "alice")) &&
        decide (Run.Meets step (UpdatesCurrent 1) m [(1, .fail)]) &&
        (Run.run step m [(1, .fail)]).isSome := by
    decide +kernel
  obtain ⟨m, hm, hlast⟩ := (Option.any_eq_true _ _).mp hrun
  simp only [Bool.and_eq_true, decide_eq_true_iff] at hlast
  obtain ⟨⟨hmark, hok'⟩, hlast⟩ := hlast
  obtain ⟨c', hc'⟩ := Option.isSome_iff_exists.mp hlast
  obtain ⟨hcount, hkept⟩ := revocation_is_recorded_once initial_twoAdmins recorded_twoAdmins
    (by decide +kernel) hm hok' hc'
  exact ⟨m, c', hm, hc', by simpa [hmark] using hcount, hmark, hkept _ hmark⟩

/-- The request of the second goes on. -/
theorem revocations_clash :
    Initial twoAdmins ∧ Recorded 1 twoAdmins.shared.db ∧
      ∃ m c', Run.run step twoAdmins [(0, .read), (1, .read), (0, .update), (0, .commit)] = some m ∧
        Run.run step m [(1, .update), (1, .commit)] = some c' ∧
        revocation 1 m.shared.db = some (0, some "alice") ∧
        revocation 1 c'.shared.db = some (60, some "bob") ∧
        revokeCount 1 c'.shared.db.auditEvents = 2 := by
  refine ⟨initial_twoAdmins, recorded_twoAdmins, ?_⟩
  have hrun : (Run.run step twoAdmins [(0, .read), (1, .read), (0, .update), (0, .commit)]).any
      fun m ↦ decide (revocation 1 m.shared.db = some (0, some "alice")) &&
        (Run.run step m [(1, .update), (1, .commit)]).any fun c' ↦
          decide (revocation 1 c'.shared.db = some (60, some "bob")) &&
            decide (revokeCount 1 c'.shared.db.auditEvents = 2) := by
    decide +kernel
  obtain ⟨m, hm, hclash⟩ := (Option.any_eq_true _ _).mp hrun
  rw [Bool.and_eq_true, decide_eq_true_iff] at hclash
  obtain ⟨c', hc', hclash'⟩ := (Option.any_eq_true _ _).mp hclash.2
  rw [Bool.and_eq_true, decide_eq_true_iff, decide_eq_true_iff] at hclash'
  exact ⟨m, c', hm, hc', hclash.1, hclash'⟩

end WgManager.Enroll
