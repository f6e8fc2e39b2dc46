import WgManager.Certs
import WgManager.Lib.Exclusive

/-!
# The revocation of a certificate is recorded once

A certificate can be revoked over HTTP and from the command line.  `revoke_cert` of the router looks
whether the row is revoked already, and if so leaves it alone; `certs_revoke` of the CLI writes
`revoked_at` in any case.  Both look first and write later, with a call of the PKI backend between,
and neither `UPDATE` has a condition.

* `Recorded` is what is to hold: `revoked_at` is set when the certificate is revoked, and there is
  at most one `certificate.revoke` event, and none before the revocation.
* `UpdatesCurrent` is the condition that the `UPDATE`s do not make: what the row says of its
  revocation is still what the call has read, and — which only the command line does not look at —
  that is that the certificate is not revoked.  From there on the lock of the row sees to it.
* **`certificate_revocation_is_recorded_once`**: along every run that meets the condition the first
  revocation stays on record as it is.

`revoked_again` and `revoked_side_by_side` are runs that do not: a CLI revocation of a certificate
that was revoked over HTTP, and two HTTP revocations that overlap.
-/

set_option autoImplicit false

namespace WgManager.CertRevocation

/-! ## Processes -/

/-- A call that revokes a certificate. -/
inductive Call
  /-- `POST /certs/{cert_id}/revoke`. -/
  | api (role : Option OperatorRole) (certId : ℕ) (now : Datetime) (auditId : ℕ)
      (actorCn : Option String)
  /-- `certs revoke --serial`. -/
  | cli (serial : ℕ) (now : Datetime)

/-- When a call takes place. -/
def Call.now : Call → Datetime
  | api _ _ now _ _ => now
  | cli _ now => now

/-- The row that a call goes on with when it has looked. -/
def Call.load (t : CertTable) : Call → Option CertificateRow
  | api role certId _ _ _ =>
    match requireAdmin role with
    | .error _ => none
    | .ok _ => (t.certificates.get certId).filter fun row ↦ !row.revoked
  | cli serial _ => t.bySerial serial

/-- The audit row of a call; the CLI writes none. -/
def Call.event (row : CertificateRow) : Call → Option AuditEvent
  | api _ _ now auditId actorCn =>
    some
      { id := auditId
        tenantId := row.tenantId
        ts := now
        event := "certificate.revoke"
        actorCn := actorCn
        resourceType := "certificate"
        resourceId := some row.id
        action := "revoke" }
  | cli .. => none

/-- How far a call has got. -/
inductive Stage
  | begun
  | loaded (row : CertificateRow)
  /-- The PKI backend has the serial. -/
  | listed (row : CertificateRow)
  /-- The row is updated and locked. -/
  | marked (row : CertificateRow)
  | done

structure Proc where
  call : Call
  stage : Stage

/-- What can happen next. -/
inductive Action
  | read
  /-- The call of the PKI backend, which may fail. -/
  | crl (updated : Bool)
  | update
  | commit
  | fail
  deriving DecidableEq

/-- What the calls share. -/
structure Shared where
  registry : CertTable
  auditEvents : Table AuditEvent := .empty
  /-- The holder of the lock of each row. -/
  rows : ℕ → Option ℕ := fun _ ↦ none

@[simps]
def Shared.lockRow (g : Shared) (i certId : ℕ) : Shared :=
  { g with rows := Function.update g.rows certId (some i) }

@[simps]
def Shared.unlockRow (g : Shared) (certId : ℕ) : Shared :=
  { g with rows := Function.update g.rows certId none }

/-- The `UPDATE` by a session that has `loaded` the row: the columns that it has changed. -/
def updateRevoked (loaded : CertificateRow) (now : Datetime) (row : CertificateRow) :
    CertificateRow :=
  { row with
    revoked := if loaded.revoked then row.revoked else true
    revokedAt := if loaded.revokedAt = some now then row.revokedAt else some now }

theorem pk_updateRevoked (loaded : CertificateRow) (now : Datetime) (row : CertificateRow) :
    Keyed.pk (updateRevoked loaded now row) = Keyed.pk row := rfl

/-- The commit of a call; `none` when the audit row is refused. -/
def Shared.commit (g : Shared) (call : Call) (row : CertificateRow) : Option Shared :=
  let registry := g.registry.modify row.id (updateRevoked row call.now)
    (pk_updateRevoked row call.now)
  match call.event row with
  | none => some { g with registry }
  | some event =>
    if (g.auditEvents.get event.id).isSome then none
    else some { g with registry, auditEvents := g.auditEvents.insert event }

/-- A step of a call. -/
def stageStep (i : ℕ) (g : Shared) (call : Call) : Stage → Action → Option (Shared × Stage)
  | .begun, .read =>
    match call.load g.registry with
    | none => some (g, .done)
    | some row => some (g, .loaded row)
  | .loaded row, .crl updated => some (g, if updated then .listed row else .done)
  | .listed row, .update =>
    if g.rows row.id = none then some (g.lockRow i row.id, .marked row) else none
  | .marked row, .commit =>
    match g.commit call row with
    | none => some (g.unlockRow row.id, .done)
    | some g' => some (g'.unlockRow row.id, .done)
  | .marked row, .fail => some (g.unlockRow row.id, .done)
  | .done, _ => none
  | _, .fail => some (g, .done)
  | _, _ => none

def procStep (i : ℕ) (g : Shared) : Option Proc → Action → Option (Shared × Option Proc)
  | none, _ => none
  | some ⟨call, stage⟩, a => (stageStep i g call stage a).map fun s ↦ (s.1, some ⟨call, s.2⟩)

/-- A step of the system. -/
def step : Config Shared Proc → ℕ × Action → Option (Config Shared Proc) := Config.step procStep

/-- No call has begun. -/
def Initial (c : Config Shared Proc) : Prop := ∀ i p, c.proc i = some p → p.stage = .begun

/-! ## What is on record -/

/-- What the row of a certificate says about its revocation. -/
def mark (certId : ℕ) (g : Shared) : Option (Bool × Option Datetime) :=
  (g.registry.certificates.get certId).map fun row ↦ (row.revoked, row.revokedAt)

/-- A `certificate.revoke` event for the certificate. -/
def isRevokeEvent (certId : ℕ) (event : AuditEvent) : Bool :=
  event.event == "certificate.revoke" && event.resourceId == some certId

/-- The number of such events. -/
def revokeCount (certId : ℕ) (g : Shared) : ℕ := g.auditEvents.rows.countP (isRevokeEvent certId)

/-- The columns agree with each other and with the events. -/
def Recorded (certId : ℕ) (g : Shared) : Prop :=
  ∀ revoked revokedAt, mark certId g = some (revoked, revokedAt) →
    revoked = revokedAt.isSome ∧ revokeCount certId g ≤ if revoked then 1 else 0

/-- The row that a call has looked at and is going to write. -/
def Stage.row : Stage → Option CertificateRow
  | loaded row | listed row | marked row => some row
  | _ => none

/-- The row that a call has updated and locked. -/
def Stage.marks : Stage → Option CertificateRow
  | marked row => some row
  | _ => none

/-- What a call that has updated the row has seen of the certificate and relies on. -/
def Proc.saw (certId : ℕ) (p : Proc) : Option (Option (Bool × Option Datetime)) :=
  (p.stage.marks.filter (·.id = certId)).map fun row ↦ some (row.revoked, row.revokedAt)

/-- The row of which a process has the lock. -/
def Proc.lock (p : Proc) : Option ℕ := p.stage.marks.map CertificateRow.id

/-- When a call updates the certificate, the row says of its revocation what the call has read, and
that is that there is none.  The `UPDATE`s themselves have no such condition. -/
def UpdatesCurrent (certId : ℕ) (c : Config Shared Proc) (e : ℕ × Action) : Prop :=
  e.2 = .update → ∀ row ∈ (c.proc e.1).bind fun p ↦ p.stage.row, row.id = certId →
    mark certId c.shared = some (row.revoked, row.revokedAt) ∧ row.revoked = false

instance (certId : ℕ) (c : Config Shared Proc) (e : ℕ × Action) :
    Decidable (UpdatesCurrent certId c e) :=
  inferInstanceAs (Decidable (e.2 = .update → ∀ row ∈ (c.proc e.1).bind fun p ↦ p.stage.row,
    row.id = certId →
      mark certId c.shared = some (row.revoked, row.revokedAt) ∧ row.revoked = false))

/-! ## One step -/

section

variable {certId i : ℕ} {g g' : Shared} {call : Call} {st st' : Stage} {a : Action}
  {row : CertificateRow}

theorem rows_of_commit (h : g.commit call row = some g') : g'.rows = g.rows := by
  rw [Shared.commit] at h
  split at h
  · cases h; rfl
  · split at h <;> cases h
    rfl

/-- **What a step of a call can do**: nothing to the tables, while the call has not updated the row,
has just updated it, or lets go of it; or it is the commit. -/
theorem stageStep_cases (h : stageStep i g call st a = some (g', st')) :
    (g'.registry = g.registry ∧ g'.auditEvents = g.auditEvents ∧
      (st'.marks = none ∨ a = .update ∧ st'.marks = st.row ∧
        ∀ row ∈ st.row, g.rows row.id = none)) ∨
    ∃ row g₁, st.marks = some row ∧ g.commit call row = some g₁ ∧ g' = g₁.unlockRow row.id ∧
      st'.marks = none := by
  unfold stageStep at h
  split at h
  · split at h <;> cases h <;> exact .inl ⟨rfl, rfl, .inl rfl⟩
  · next row updated =>
    cases h
    refine .inl ⟨rfl, rfl, .inl ?_⟩
    cases updated <;> rfl
  · next row =>
    split at h
    · next hfree =>
      cases h
      refine .inl ⟨rfl, rfl, .inr ⟨rfl, rfl, ?_⟩⟩
      rintro _ ⟨⟩
      exact hfree
    · cases h
  · next row =>
    split at h
    · cases h; exact .inl ⟨rfl, rfl, .inl rfl⟩
    · next g₁ hcommit => cases h; exact .inr ⟨row, g₁, rfl, hcommit, rfl, rfl⟩
  · cases h; exact .inl ⟨rfl, rfl, .inl rfl⟩
  · cases h
  · cases h; exact .inl ⟨rfl, rfl, .inl rfl⟩
  · cases h

/-- The lock of the row is taken with the `UPDATE` and given back with the end. -/
theorem lockMove_of_stageStep (h : stageStep i g call st a = some (g', st')) :
    Config.LockMove i g.rows (Proc.lock ⟨call, st⟩) g'.rows (Proc.lock ⟨call, st'⟩) := by
  unfold stageStep at h
  split at h
  · split at h <;> cases h <;> exact .keep
  · next row updated =>
    cases h
    cases updated <;> exact .keep
  · split at h
    · next hfree => cases h; exact .take hfree
    · cases h
  · next row =>
    split at h
    · cases h; exact .release rfl
    · next g₁ hcommit =>
      cases h
      have hrows : (g₁.unlockRow row.id).rows = Function.update g.rows row.id none := by
        rw [← rows_of_commit hcommit]
        rfl
      rw [hrows]
      exact .release rfl
  · cases h; exact .release rfl
  · cases h
  · cases h; exact .idle
  · cases h

theorem registry_of_commit (h : g.commit call row = some g') :
    g'.registry = g.registry.modify row.id (updateRevoked row call.now)
      (pk_updateRevoked row call.now) := by
  rw [Shared.commit] at h
  split at h
  · cases h; rfl
  · split at h <;> cases h
    rfl

/-- A commit adds at most one event, about the row that it updates. -/
theorem count_of_commit (h : g.commit call row = some g') :
    revokeCount certId g' ≤ revokeCount certId g + if row.id = certId then 1 else 0 := by
  rw [Shared.commit] at h
  split at h
  · cases h
    exact Nat.le_add_right _ _
  · next event hevent =>
    split at h
    · cases h
    · next hfree =>
      cases h
      have hkey : g.auditEvents.get event.id = none := by simpa using hfree
      have hid : event.resourceId = some row.id := by
        cases call with
        | api role id now auditId actorCn => cases hevent; rfl
        | cli serial now => cases hevent
      rw [revokeCount, Table.rows_insert hkey, List.countP_append, List.countP_singleton,
        isRevokeEvent, hid]
      refine Nat.add_le_add_left ?_ _
      by_cases heq : row.id = certId
      · rw [if_pos heq]
        split <;> omega
      · rw [if_neg heq, if_neg (by simp [heq])]

theorem mark_of_commit_ne (h : g.commit call row = some g') (hid : row.id ≠ certId) :
    mark certId g' = mark certId g := by
  rw [mark, registry_of_commit h, CertTable.modify, Table.get_modify, if_neg hid.symm, mark]

/-- The commit of a call that has seen the row as it is, not revoked. -/
theorem mark_of_commit (h : g.commit call row = some g') (hid : row.id = certId)
    (hmark : mark certId g = some (row.revoked, row.revokedAt)) (hseen : row.revoked = false)
    (hseenAt : row.revokedAt = none) : mark certId g' = some (true, some call.now) := by
  obtain ⟨row₀, hrow₀, -⟩ := Option.map_eq_some_iff.mp hmark
  rw [mark, registry_of_commit h, CertTable.modify, Table.get_modify, if_pos hid.symm, hrow₀,
    Option.map_some, Option.map_some, updateRevoked, hseen, hseenAt]
  rfl

theorem saw_eq_some_iff {p : Proc} {v : Option (Bool × Option Datetime)} :
    p.saw certId = some v ↔
      ∃ row, p.stage.marks = some row ∧ row.id = certId ∧
        v = some (row.revoked, row.revokedAt) := by
  rw [Proc.saw, Option.map_eq_some_iff]
  constructor
  · rintro ⟨row, hrow, rfl⟩
    obtain ⟨hrow, hid⟩ := Option.filter_eq_some_iff.mp hrow
    exact ⟨row, hrow, by simpa using hid, rfl⟩
  · rintro ⟨row, hrow, hid, rfl⟩
    exact ⟨row, Option.filter_eq_some_iff.mpr ⟨hrow, by simpa using hid⟩, rfl⟩

end

/-! ## Runs -/

section

variable {certId : ℕ} {c c' : Config Shared Proc} {e : ℕ × Action}

/-- What is true of a call that has updated the row: it has not seen the certificate revoked. -/
def Proc.Fresh (certId : ℕ) (p : Proc) : Prop :=
  ∀ row, p.stage.marks = some row → row.id = certId → row.revoked = false

/-- What holds along a run: locks are on record, nobody relies on something that is not so, and the
columns and the events agree. -/
structure Orderly (certId : ℕ) (c : Config Shared Proc) : Prop where
  locked : c.Locked Shared.rows Proc.lock
  exclusive : c.Exclusive (mark certId) (Proc.saw certId)
  books : c.Inv (Recorded certId) fun _ _ p ↦ p.Fresh certId

theorem procStep_eq_some {i : ℕ} {g g' : Shared} {p p' : Option Proc} {a : Action}
    (h : procStep i g p a = some (g', p')) :
    ∃ call st st', p = some ⟨call, st⟩ ∧ p' = some ⟨call, st'⟩ ∧
      stageStep i g call st a = some (g', st') := by
  rcases p with _ | ⟨call, st⟩
  · cases h
  · obtain ⟨⟨g₁, st'⟩, hstep, hpair⟩ := Option.map_eq_some_iff.mp h
    cases hpair
    exact ⟨call, st, st', rfl, rfl, hstep⟩

/-- A commit, next to the invariant: the certificate was as the call has seen it. -/
theorem commit_cases {i : ℕ} {call : Call} {st : Stage} {row : CertificateRow} {g₁ : Shared}
    (hc : Orderly certId c) (hp : c.proc i = some ⟨call, st⟩) (hrow : st.marks = some row)
    (hcommit : c.shared.commit call row = some g₁) :
    (row.id ≠ certId ∧ mark certId g₁ = mark certId c.shared ∧
      revokeCount certId g₁ ≤ revokeCount certId c.shared) ∨
    (row.id = certId ∧ mark certId c.shared = some (false, none) ∧
      mark certId g₁ = some (true, some call.now) ∧ revokeCount certId g₁ ≤ 1) := by
  have hcount : revokeCount certId g₁ ≤ _ := count_of_commit hcommit
  by_cases hid : row.id = certId
  · refine .inr ⟨hid, ?_⟩
    have hmark : mark certId c.shared = some (row.revoked, row.revokedAt) :=
      (hc.exclusive i _ _ hp (saw_eq_some_iff.mpr ⟨row, hrow, hid, rfl⟩)).1.symm
    have hseen : row.revoked = false := hc.books.proc i _ hp row hrow hid
    obtain ⟨hsome, hzero⟩ := hc.books.shared _ _ hmark
    have hseenAt : row.revokedAt = none := by
      rw [hseen] at hsome
      simpa using hsome.symm
    rw [if_pos hid] at hcount
    rw [hseen] at hzero
    refine ⟨by rw [hmark, hseen, hseenAt], mark_of_commit hcommit hid hmark hseen hseenAt, ?_⟩
    simp only [Bool.false_eq_true, if_false] at hzero
    omega
  · rw [if_neg hid] at hcount
    exact .inl ⟨hid, mark_of_commit_ne hcommit hid, hcount⟩

theorem Recorded.of_eq {g g' : Shared} (h : Recorded certId g)
    (hmark : mark certId g' = mark certId g)
    (hcount : revokeCount certId g' ≤ revokeCount certId g) :
    Recorded certId g' := by
  intro revoked revokedAt hm
  obtain ⟨hsome, hle⟩ := h revoked revokedAt (hmark.symm.trans hm)
  exact ⟨hsome, hcount.trans hle⟩

/-- Next to a row whose lock is free nobody relies on what it has seen of it. -/
theorem alone_of_free (hc : Orderly certId c) (hfree : c.shared.rows certId = none) (i : ℕ) :
    c.Alone (Proc.saw certId) i := by
  intro j q _ hq
  by_contra hholds
  obtain ⟨v, hv⟩ := Option.ne_none_iff_exists'.mp hholds
  obtain ⟨row, hrow, rfl, -⟩ := saw_eq_some_iff.mp hv
  exact hc.locked.ne_of_free hfree hq (by rw [Proc.lock, hrow, Option.map_some])

theorem orderly_step (hc : Orderly certId c) (hok : UpdatesCurrent certId c e)
    (h : step c e = some c') : Orderly certId c' := by
  refine ⟨Config.locked_step hc.locked h ?_, Config.exclusive_step hc.exclusive h ?_ ?_,
    Config.inv_step hc.books h ?_⟩
  · intro g' p' hf
    obtain ⟨call, st, st', hp, rfl, hstep⟩ := procStep_eq_some hf
    rw [hp]
    exact lockMove_of_stageStep hstep
  · intro g' p' hf
    obtain ⟨call, st, st', hp, -, hstep⟩ := procStep_eq_some hf
    rcases stageStep_cases hstep with ⟨hreg, -, -⟩ | ⟨row, g₁, hrow, hcommit, rfl, -⟩
    · exact .inl (by rw [mark, hreg, mark])
    · rcases commit_cases hc hp hrow hcommit with ⟨-, hsame, -⟩ | ⟨hid, -⟩
      · exact .inl hsame
      · exact .inr ⟨_, _, hp, saw_eq_some_iff.mpr ⟨row, hrow, hid, rfl⟩⟩
  · intro g' q' v hf hv
    obtain ⟨call, st, st', hp, hq, hstep⟩ := procStep_eq_some hf
    cases hq
    obtain ⟨row, hrow, hid, rfl⟩ := saw_eq_some_iff.mp hv
    rcases stageStep_cases hstep with ⟨hreg, -, hmarks⟩ | ⟨_, _, _, _, _, hnone⟩
    · rcases hmarks with hnone | ⟨hupdate, hmarks, hfree⟩
      · rw [hrow] at hnone
        cases hnone
      · have hloaded : st.row = some row := hmarks.symm.trans hrow
        refine ⟨?_, .inr (alone_of_free hc (hid ▸ hfree row hloaded) e.1)⟩
        rw [mark, hreg]
        exact (hok hupdate row (by rw [hp]; exact hloaded) hid).1.symm
    · rw [hrow] at hnone
      cases hnone
  · intro g' p' hf
    obtain ⟨call, st, st', hp, rfl, hstep⟩ := procStep_eq_some hf
    refine ⟨?_, ?_, fun _ _ _ hfresh ↦ hfresh⟩
    · rcases stageStep_cases hstep with ⟨hreg, hevents, -⟩ | ⟨row, g₁, hrow, hcommit, rfl, -⟩
      · exact hc.books.shared.of_eq (by rw [mark, hreg, mark])
          (by rw [revokeCount, hevents, revokeCount])
      · rcases commit_cases hc hp hrow hcommit with ⟨-, hsame, hcount⟩ | ⟨-, -, hmark, hcount⟩
        · exact hc.books.shared.of_eq hsame hcount
        · intro revoked revokedAt hm
          have hpair := Option.some.inj (hmark.symm.trans hm)
          cases hpair
          exact ⟨rfl, hcount⟩
    · rintro _ ⟨⟩ row hrow hid
      rcases stageStep_cases hstep with ⟨-, -, hmarks⟩ | ⟨_, _, _, _, _, hnone⟩
      · rcases hmarks with hnone | ⟨hupdate, hmarks, -⟩
        · cases hrow.symm.trans hnone
        · exact (hok hupdate row (by rw [hp]; exact hmarks.symm.trans hrow) hid).2
      · cases hrow.symm.trans hnone

/-- A revocation on record stays as it is. -/
theorem mark_of_step (hc : Orderly certId c) (h : step c e = some c') {revokedAt : Option Datetime}
    (hmark : mark certId c.shared = some (true, revokedAt)) :
    mark certId c'.shared = some (true, revokedAt) := by
  obtain ⟨g', p', hf, rfl⟩ := Config.step_eq_some.mp h
  obtain ⟨call, st, st', hp, -, hstep⟩ := procStep_eq_some hf
  rcases stageStep_cases hstep with ⟨hreg, -, -⟩ | ⟨row, g₁, hrow, hcommit, rfl, -⟩
  · rw [mark, hreg]
    exact hmark
  · rcases commit_cases hc hp hrow hcommit with ⟨-, hsame, -⟩ | ⟨-, hfalse, -⟩
    · exact hsame.trans hmark
    · rw [hmark] at hfalse
      cases hfalse

theorem orderly_initial (hinit : Initial c) (hrec : Recorded certId c.shared) :
    Orderly certId c := by
  have hidle : ∀ i p, c.proc i = some p → p.stage.marks = none := fun i p hp ↦ by
    rw [hinit i p hp]
    rfl
  refine ⟨Config.locked_of_idle fun i p hp ↦ ?_, Config.exclusive_of_idle fun i p hp ↦ ?_, hrec,
    fun i p hp row hrow ↦ ?_⟩
  · rw [Proc.lock, hidle i p hp]
    rfl
  · rw [Proc.saw, hidle i p hp]
    rfl
  · rw [hidle i p hp] at hrow
    cases hrow

/-- **The revocation of a certificate is recorded once.**  Along every run in which no call updates
the row when it has read that the certificate is revoked, or the row has been revoked since:
`revoked_at` is set exactly when the certificate is revoked, there is at most one event, and from
then on neither column changes. -/
theorem certificate_revocation_is_recorded_once {m : Config Shared Proc}
    {es es' : List (ℕ × Action)}
    (hinit : Initial c) (hrec : Recorded certId c.shared)
    (hok : Run.Meets step (UpdatesCurrent certId) c es) (h : Run.run step c es = some m)
    (hok' : Run.Meets step (UpdatesCurrent certId) m es') (h' : Run.run step m es' = some c') :
    (∀ revoked revokedAt, mark certId m.shared = some (revoked, revokedAt) →
      revoked = revokedAt.isSome ∧ revokeCount certId m.shared ≤ 1) ∧
    ∀ revokedAt, mark certId m.shared = some (true, revokedAt) →
      mark certId c'.shared = some (true, revokedAt) := by
  have hm : Orderly certId m :=
    Run.run_invariant (fun _ _ _ hc hok hstep ↦ orderly_step hc hok hstep)
      (orderly_initial hinit hrec) hok h
  refine ⟨fun revoked revokedAt hmark ↦ ?_, fun revokedAt hmark ↦ ?_⟩
  · obtain ⟨hsome, hcount⟩ := hm.books.shared revoked revokedAt hmark
    refine ⟨hsome, hcount.trans ?_⟩
    split <;> omega
  · refine (Run.run_invariant (I := fun c ↦ Orderly certId c ∧
      mark certId c.shared = some (true, revokedAt)) ?_ ⟨hm, hmark⟩ hok' h').2
    rintro s a s' ⟨hs, hsmark⟩ hok hstep
    exact ⟨orderly_step hs hok hstep, mark_of_step hs hstep hsmark⟩

end

/-! ## Two calls -/

/-- The registry with one certificate, of serial 7. -/
def oneCertificate : CertTable where
  certificates :=
    ⟨[{ id := 1, serial := "7", certType := .cli, commonName := "ops", notBefore := 0
        notAfter := 86400, createdAt := 0 }], by decide⟩
  nextId := 2
  lt_nextId := by decide

/-- Two calls about it, at noon and an hour later. -/
def twoCalls (first second : Call) : Config Shared Proc where
  shared := { registry := oneCertificate }
  proc
    | 0 => some ⟨first, .begun⟩
    | 1 => some ⟨second, .begun⟩
    | _ => none

/-- An HTTP revocation by an admin. -/
def apiCall (now : Datetime) (auditId : ℕ) : Call := .api (some .admin) 1 now auditId (some "ops")

theorem initial_twoCalls (first second : Call) : Initial (twoCalls first second) := by
  intro i p hp
  rcases i with _ | _ | i <;> cases hp <;> rfl

theorem recorded_twoCalls (first second : Call) : Recorded 1 (twoCalls first second).shared := by
  intro revoked revokedAt hmark
  have hpair : (false, none) = (revoked, revokedAt) := Option.some.inj hmark
  cases hpair
  exact ⟨rfl, le_rfl⟩

/-- A call from its look to its commit. -/
def throughout (i : ℕ) : List (ℕ × Action) :=
  [(i, .read), (i, .crl true), (i, .update), (i, .commit)]

/-- An HTTP revocation while a CLI revocation is on its way: it has looked, and the PKI backend does
not take the serial from it. -/
def overlap : List (ℕ × Action) := (1, .read) :: throughout 0

theorem certificate_revocation_is_recorded_once_overlap :
    ∃ m c', Run.run step (twoCalls (.cli 7 43200) (apiCall 46800 1)) overlap = some m ∧
      Run.run step m [(1, .crl false)] = some c' ∧ mark 1 m.shared = some (true, some 43200) ∧
      revokeCount 1 m.shared ≤ 1 ∧ mark 1 c'.shared = some (true, some 43200) := by
  have hrun : (Run.run step (twoCalls (.cli 7 43200) (apiCall 46800 1)) overlap).any fun m ↦
      decide (mark 1 m.shared = some (true, some 43200)) &&
        decide (Run.Meets step (UpdatesCurrent 1) m [(1, .crl false)]) &&
        (Run.run step m [(1, .crl false)]).isSome := by decide +kernel
  obtain ⟨m, hm, hlast⟩ := (Option.any_eq_true _ _).mp hrun
  simp only [Bool.and_eq_true, decide_eq_true_iff] at hlast
  obtain ⟨⟨hmark, hok'⟩, hlast⟩ := hlast
  obtain ⟨c', hc'⟩ := Option.isSome_iff_exists.mp hlast
  obtain ⟨hbooks, hkept⟩ := certificate_revocation_is_recorded_once (initial_twoCalls _ _)
    (recorded_twoCalls _ _) (by decide +kernel) hm hok' hc'
  exact ⟨m, c', hm, hc', hmark, (hbooks _ _ hmark).2, hkept _ hmark⟩

/-- A certificate that was revoked over HTTP is revoked again from the command line, an hour later:
`revoked_at` changes. -/
theorem revoked_again :
    Initial (twoCalls (apiCall 43200 1) (.cli 7 46800)) ∧
      Recorded 1 (twoCalls (apiCall 43200 1) (.cli 7 46800)).shared ∧
      ∃ m c', Run.run step (twoCalls (apiCall 43200 1) (.cli 7 46800)) (throughout 0) = some m ∧
        Run.run step m (throughout 1) = some c' ∧ mark 1 m.shared = some (true, some 43200) ∧
        mark 1 c'.shared = some (true, some 46800) := by
  refine ⟨initial_twoCalls _ _, recorded_twoCalls _ _, ?_⟩
  have hrun : (Run.run step (twoCalls (apiCall 43200 1) (.cli 7 46800)) (throughout 0)).any fun m ↦
      decide (mark 1 m.shared = some (true, some 43200)) &&
        (Run.run step m (throughout 1)).any fun c' ↦
          decide (mark 1 c'.shared = some (true, some 46800)) := by decide +kernel
  obtain ⟨m, hm, hagain⟩ := (Option.any_eq_true _ _).mp hrun
  rw [Bool.and_eq_true, decide_eq_true_iff] at hagain
  obtain ⟨c', hc', hmark'⟩ := (Option.any_eq_true _ _).mp hagain.2
  exact ⟨m, c', hm, hc', hagain.1, of_decide_eq_true hmark'⟩

/-- Two HTTP revocations that have both looked before either commits: two events. -/
theorem revoked_side_by_side :
    ∃ c', Run.run step (twoCalls (apiCall 43200 1) (apiCall 46800 2))
        ([(0, .read), (1, .read), (0, .crl true), (1, .crl true)] ++
          [(0, .update), (0, .commit), (1, .update), (1, .commit)]) = some c' ∧
      mark 1 c'.shared = some (true, some 46800) ∧ revokeCount 1 c'.shared = 2 := by
  have hrun : (Run.run step (twoCalls (apiCall 43200 1) (apiCall 46800 2))
      ([(0, .read), (1, .read), (0, .crl true), (1, .crl true)] ++
        [(0, .update), (0, .commit), (1, .update), (1, .commit)])).any fun c' ↦
      decide (mark 1 c'.shared = some (true, some 46800)) &&
        decide (revokeCount 1 c'.shared = 2) := by
    decide +kernel
  obtain ⟨c', hc', hclash⟩ := (Option.any_eq_true _ _).mp hrun
  rw [Bool.and_eq_true, decide_eq_true_iff, decide_eq_true_iff] at hclash
  exact ⟨c', hc', hclash⟩

end WgManager.CertRevocation
