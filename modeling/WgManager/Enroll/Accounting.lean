import WgManager.Enroll.System

/-!
# The count of uses of a token

A redemption takes its use with a guarded `UPDATE` before it knows whether it will succeed, and
gives it back by rolling back.  However redemptions, revocations and the other requests interleave,
the books are right in every committed state: the count of uses of a token is the number of
`client.enroll` events in the audit log that name it, and never above the maximum
(`use_count_is_exact`).

The reason is the row lock.  Between its guarded `UPDATE` and its end a redemption holds the lock of
the token row, so that the row it found consumable stays so (`Taken`); and whoever changes a token
row holds its lock (`Frame`).
-/

set_option autoImplicit false

namespace WgManager.Enroll

/-- The event is the enrollment of a client with this token. -/
def usesToken (tokenId : ℕ) (e : AuditEvent) : Bool :=
  e.event == "client.enroll" && e.payloadTokenId == some tokenId

/-- The committed enrollments with a token. -/
def enrollCount (events : Table AuditEvent) (tokenId : ℕ) : ℕ :=
  events.rows.countP (usesToken tokenId)

/-- The books are right. -/
def Accounted (db : Db) : Prop :=
  ∀ id row, db.enrollmentTokens.get id = some row →
    row.useCount = enrollCount db.auditEvents id ∧ row.useCount ≤ row.maxUses

/-! ## The invariant -/

/-- Process `i` holds the lock of the token row, and the row has a use to take. -/
def Taken (i : ℕ) (g : Shared) (tokenId : ℕ) : Prop :=
  g.rows tokenId = some i ∧
    ∃ row, g.db.enrollmentTokens.get tokenId = some row ∧ row.consumable = true

/-- What is true of a redemption. -/
def PhaseInv (i : ℕ) (g : Shared) : Phase → Prop
  | .consumed w => Taken i g w.row.id
  | .admitted w _ => Taken i g w.row.id
  | _ => True

/-- What is true of another request: the event it will log is no enrollment. -/
def StageInv (i : ℕ) (g : Shared) : Stage → Prop
  | .deleting _ event => event.event ≠ "client.enroll"
  | .revoking _ _ _ event => event.event ≠ "client.enroll"
  | .marked row _ _ event => g.rows row.id = some i ∧ event.event ≠ "client.enroll"
  | _ => True

def ProcInv (i : ℕ) (g : Shared) : Proc → Prop
  | .redemption _ ph => PhaseInv i g ph
  | .request _ st => StageInv i g st

/-- A step of `i` leaves alone the token rows that others have locked. -/
def Frame (i : ℕ) (g g' : Shared) : Prop :=
  ∀ id j, j ≠ i → g.rows id = some j →
    g'.rows id = some j ∧ g'.db.enrollmentTokens.get id = g.db.enrollmentTokens.get id

section

variable {i j : ℕ} {g g' : Shared} {db : Db} {tokenId : ℕ}

/-! ## Counting -/

theorem enrollCount_insert {events : Table AuditEvent} {event : AuditEvent}
    (h : events.get event.id = none) :
    enrollCount (events.insert event) tokenId =
      enrollCount events tokenId + if usesToken tokenId event then 1 else 0 := by
  rw [enrollCount, enrollCount, Table.rows_insert h, List.countP_append, List.countP_singleton]

/-- An event that is no enrollment does not count. -/
theorem usesToken_eq_false {event : AuditEvent} (h : event.event ≠ "client.enroll") :
    usesToken tokenId event = false := by
  simp [usesToken, h]

theorem usesToken_enrollEvent {env : EnrollEnv} {row : EnrollmentToken} {client : Client} :
    usesToken tokenId (env.enrollEvent row client) = true ↔ row.id = tokenId := by
  simp [usesToken, EnrollEnv.enrollEvent]

/-- The commit of a redemption counts one use and logs one enrollment. -/
theorem accounted_commitEnroll {env : EnrollEnv} {row row₀ : EnrollmentToken} {client : Client}
    {db' : Db} (hacc : Accounted db) (hrow : db.enrollmentTokens.get row.id = some row₀)
    (huse : row₀.consumable = true)
    (h : env.commitEnroll (withUse db row.id) row client = .ok db') : Accounted db' := by
  obtain ⟨-, -, hkey, rfl⟩ := withEnrolled_of_commit h
  intro id row' hget
  have hcount : enrollCount (db.auditEvents.insert (env.enrollEvent row client)) id = _ :=
    enrollCount_insert hkey
  rw [EnrollEnv.withEnrolled_enrollmentTokens, Table.get_modify] at hget
  rw [EnrollEnv.withEnrolled_auditEvents, hcount]
  split at hget
  · next hid =>
    subst hid
    rw [hrow, Option.map_some, Option.some.injEq] at hget
    subst hget
    obtain ⟨hbooks, -⟩ := hacc _ _ hrow
    have hlt := (consumable_iff.mp huse).1
    rw [if_pos (usesToken_enrollEvent.mpr rfl)]
    simp only [EnrollmentToken.use]
    omega
  · next hid =>
    rw [if_neg (by rw [usesToken_enrollEvent]; exact Ne.symm hid), Nat.add_zero]
    exact hacc id row' hget

/-- Requests that log another event, and change of a token what is no concern of the count. -/
theorem accounted_flushAudit {event : AuditEvent} {events : Table AuditEvent}
    {clients : Table Client} {tokens : Table EnrollmentToken} (hacc : Accounted db)
    (hevent : event.event ≠ "client.enroll") (h : flushAudit db.auditEvents event = some events)
    (htokens : ∀ id row, tokens.get id = some row → ∃ row₀, db.enrollmentTokens.get id = some row₀ ∧
      row.useCount = row₀.useCount ∧ row.maxUses = row₀.maxUses) :
    Accounted
      { db with clients := clients, enrollmentTokens := tokens, auditEvents := events } := by
  obtain ⟨hkey, rfl⟩ := flushAudit_eq_some_iff.mp h
  intro id row hget
  obtain ⟨row₀, hrow₀, huse, hmax⟩ := htokens id row hget
  have hcount : enrollCount (db.auditEvents.insert event) id = _ := enrollCount_insert hkey
  rw [hcount, usesToken_eq_false hevent, huse, hmax]
  exact hacc id row₀ hrow₀

/-! ## What others have locked -/

theorem taken_of_frame (hframe : Frame i g g') (hj : j ≠ i) (h : Taken j g tokenId) :
    Taken j g' tokenId := by
  obtain ⟨hlock, row, hrow, huse⟩ := h
  obtain ⟨hlock', hget⟩ := hframe tokenId j hj hlock
  exact ⟨hlock', row, by rw [hget, hrow], huse⟩

theorem procInv_of_frame {q : Proc} (hframe : Frame i g g') (hj : j ≠ i) (h : ProcInv j g q) :
    ProcInv j g' q := by
  rcases q with ⟨r, ph⟩ | ⟨q, st⟩
  · cases ph <;> first | trivial | exact taken_of_frame hframe hj h
  · cases st <;> first | exact h | exact ⟨(hframe _ j hj h.1).1, h.2⟩

theorem frame_refl (hrows : g'.rows = g.rows)
    (htokens : g'.db.enrollmentTokens = g.db.enrollmentTokens) : Frame i g g' := by
  intro id j _ hlock
  rw [hrows, htokens]
  exact ⟨hlock, rfl⟩

/-- To take a free lock disturbs nobody. -/
theorem frame_lockRow (hfree : g.rows tokenId = none) : Frame i g (g.lockRow i tokenId) := by
  intro id j _ hlock
  have hid : id ≠ tokenId := by
    rintro rfl
    rw [hfree] at hlock
    cases hlock
  exact ⟨by rw [Shared.lockRow_rows, Function.update_of_ne hid, hlock], rfl⟩

/-- To change a token row and give its lock back disturbs nobody, when the lock is one's own. -/
theorem frame_unlockRow (hown : g.rows tokenId = some i)
    (hrows : g'.rows = Function.update g.rows tokenId none)
    (htokens : ∀ id ≠ tokenId, g'.db.enrollmentTokens.get id = g.db.enrollmentTokens.get id) :
    Frame i g g' := by
  intro id j hj hlock
  have hid : id ≠ tokenId := by
    rintro rfl
    rw [hown, Option.some.injEq] at hlock
    exact hj hlock.symm
  exact ⟨by rw [hrows, Function.update_of_ne hid, hlock], htokens id hid⟩

/-! ## Steps -/

theorem redemption_step {r : Redemption} {ph ph' : Phase} {a : Action} (hacc : Accounted g.db)
    (hph : PhaseInv i g ph) (h : RedemptionMove i g r ph a g' ph') :
    Accounted g'.db ∧ PhaseInv i g' ph' ∧ Frame i g g' := by
  cases h with
  | refused h => exact ⟨hacc, trivial, frame_refl rfl rfl⟩
  | read h => exact ⟨hacc, trivial, frame_refl rfl rfl⟩
  | notAcquired h => exact ⟨hacc, trivial, frame_refl rfl rfl⟩
  | lock h free => exact ⟨hacc, trivial, frame_refl rfl rfl⟩
  | rejected h => exact ⟨hacc, trivial, frame_refl rfl rfl⟩
  | @consume w tokens point free h =>
    obtain ⟨row, hrow, huse, -⟩ := consumeToken_eq_some_iff.mp h
    refine ⟨hacc, ⟨?_, row, hrow, huse⟩, frame_lockRow free⟩
    rw [Shared.lockRow_rows, Function.update_self]
  | notAdmitted h =>
    exact ⟨hacc, trivial, frame_unlockRow hph.1 rfl fun _ _ ↦ rfl⟩
  | admitClient h => exact ⟨hacc, hph, frame_refl rfl rfl⟩
  | rolledBack h =>
    exact ⟨hacc, trivial, frame_unlockRow hph.1 rfl fun _ _ ↦ rfl⟩
  | @commit w a db h =>
    obtain ⟨hlock, row, hrow, huse⟩ := hph
    refine ⟨accounted_commitEnroll hacc hrow huse h, trivial, frame_unlockRow hlock rfl ?_⟩
    intro id hid
    obtain ⟨-, -, -, rfl⟩ := withEnrolled_of_commit h
    rw [Shared.unlockRow_db, Shared.commit_db, EnrollEnv.withEnrolled_enrollmentTokens,
      Table.get_modify, if_neg hid]
  | release => exact ⟨hacc, trivial, frame_refl rfl rfl⟩

/-- What another request reads lets it log no enrollment. -/
theorem stageInv_read (q : Request) : StageInv i g (q.read db) := by
  cases q with
  | registerClient ctx payload =>
    rw [Request.read]
    split <;> trivial
  | registerManualClient ctx payload =>
    rw [Request.read]
    split <;> trivial
  | deleteClient ctx scope clientId =>
    rw [Request.read]
    split
    · trivial
    · show "client.delete" ≠ "client.enroll"
      decide
  | revokeEnrollmentToken ctx scope tokenId =>
    rw [Request.read]
    split
    · trivial
    · split
      · trivial
      · show "enrollment_token.revoke" ≠ "client.enroll"
        decide

theorem request_step {q : Request} {st st' : Stage} {a : Action} (hacc : Accounted g.db)
    (hst : StageInv i g st) (h : RequestMove i g q st a g' st') :
    Accounted g'.db ∧ StageInv i g' st' ∧ Frame i g g' := by
  cases h with
  | read => exact ⟨hacc, stageInv_read q, frame_refl rfl rfl⟩
  | insert h => exact ⟨hacc, trivial, frame_refl rfl rfl⟩
  | delete h =>
    refine ⟨accounted_flushAudit hacc hst h ?_, trivial, frame_refl rfl rfl⟩
    intro id row hrow
    exact ⟨row, hrow, rfl, rfl⟩
  | mark free =>
    refine ⟨hacc, ⟨?_, hst⟩, frame_lockRow free⟩
    rw [Shared.lockRow_rows, Function.update_self]
  | @revoke row now cn event auditEvents h =>
    refine ⟨accounted_flushAudit hacc hst.2 h ?_, trivial, frame_unlockRow hst.1 rfl ?_⟩
    · intro id row' hrow'
      rw [revoked, Table.get_modify] at hrow'
      split at hrow'
      · obtain ⟨row₀, hrow₀, rfl⟩ := Option.map_eq_some_iff.mp hrow'
        exact ⟨row₀, hrow₀, rfl, rfl⟩
      · exact ⟨row', hrow', rfl, rfl⟩
    · intro id hid
      rw [Shared.unlockRow_db, Shared.commit_db, revoked, Table.get_modify, if_neg hid]
  | unmark => exact ⟨hacc, trivial, frame_unlockRow hst.1 rfl fun _ _ ↦ rfl⟩
  | rolledBack => exact ⟨hacc, trivial, frame_refl rfl rfl⟩

/-- One step of a process keeps the books right, keeps what is true of the process, and leaves what
others have locked alone. -/
theorem proc_step {p p' : Option Proc} {a : Action} (hacc : Accounted g.db)
    (hp : ∀ q, p = some q → ProcInv i g q) (h : procStep i g p a = some (g', p')) :
    Accounted g'.db ∧ (∀ q, p' = some q → ProcInv i g' q) ∧ Frame i g g' := by
  rcases procStep_cases h with ⟨r, ph, ph', rfl, rfl, hmove⟩ | ⟨q, st, st', rfl, rfl, hmove⟩
  · obtain ⟨hacc', hph', hframe⟩ := redemption_step hacc (hp _ rfl) hmove
    exact ⟨hacc', by rintro _ ⟨⟩; exact hph', hframe⟩
  · obtain ⟨hacc', hst', hframe⟩ := request_step hacc (hp _ rfl) hmove
    exact ⟨hacc', by rintro _ ⟨⟩; exact hst', hframe⟩

/-! ## Runs -/

variable {c₀ c c' : Config Shared Proc} {es : List (ℕ × Action)}

theorem accounted_run (hinit : Initial c₀) (hacc : Accounted c₀.shared.db)
    (h : Run.run step c₀ es = some c) : Accounted c.shared.db := by
  have hinv : Config.Inv (fun g ↦ Accounted g.db) ProcInv c₀ := by
    refine ⟨hacc, fun i q hq ↦ ?_⟩
    rcases hinit.begun hq with ⟨r, rfl⟩ | ⟨q, rfl⟩ <;> trivial
  have hstep : ∀ (s : Config Shared Proc) e s', Config.Inv (fun g ↦ Accounted g.db) ProcInv s →
      step s e = some s' → Config.Inv (fun g ↦ Accounted g.db) ProcInv s' := by
    intro s e s' hs hstep
    refine Config.inv_step hs hstep fun g' p' hf ↦ ?_
    obtain ⟨hacc', hown, hframe⟩ := proc_step hs.shared (hs.proc e.1) hf
    exact ⟨hacc', hown, fun j q hj hq ↦ procInv_of_frame hframe hj hq⟩
  exact (Run.run_invariant' hstep hinv h).shared

/-- A redemption that has ended stays as it is. -/
theorem done_run {r : Redemption} {enrolled : Bool}
    (hdone : c.proc i = some (.redemption r (.done enrolled)))
    (h : Run.run step c es = some c') : c'.proc i = some (.redemption r (.done enrolled)) := by
  refine Run.run_invariant' (I := fun s ↦ s.proc i = some (.redemption r (.done enrolled))) ?_
    hdone h
  intro s e s' hs hstep
  obtain ⟨g', p', hf, rfl⟩ := Config.step_eq_some.mp hstep
  by_cases hi : i = e.1
  · subst hi
    rw [hs] at hf
    cases hf
  · show Function.update s.proc e.1 p' i = _
    rw [Function.update_of_ne hi, hs]

/-- A redemption that tries to take a use of a revoked token has ended, without success. -/
theorem rejected_of_revoked {r : Redemption} {w : Lookup} {row : EnrollmentToken}
    (hproc : c.proc i = some (.redemption r (.locked w)))
    (hrow : c.shared.db.enrollmentTokens.get w.row.id = some row) (hrev : row.revokedAt ≠ none)
    (h : step c (i, .consume) = some c') : c'.proc i = some (.redemption r (.done false)) := by
  obtain ⟨g', p', hf, rfl⟩ := Config.step_eq_some.mp h
  dsimp only at hf ⊢
  rw [hproc] at hf
  rw [Function.update_self]
  rcases procStep_cases hf with ⟨r', ph, ph', hp, rfl, hmove⟩ | ⟨q, st, st', hp, -⟩
  · cases hp
    cases hmove with
    | rejected => rfl
    | consume point free hconsume =>
      obtain ⟨row', hrow', huse, -⟩ := consumeToken_eq_some_iff.mp hconsume
      rw [hrow, Option.some.injEq] at hrow'
      subst hrow'
      exact absurd (consumable_iff.mp huse).2 hrev
  · cases hp

/-- **The count of uses is exact.**  Along every run from a state in which no request has begun and
the books are right: they are right in every committed state, and a redemption that runs
`consume_token` when a revocation of its token has been committed ends without having enrolled. -/
theorem use_count_is_exact (hinit : Initial c₀) (hacc : Accounted c₀.shared.db)
    (h : Run.run step c₀ es = some c) :
    (∀ id row, c.shared.db.enrollmentTokens.get id = some row →
      row.useCount = enrollCount c.shared.db.auditEvents id ∧ row.useCount ≤ row.maxUses) ∧
    ∀ es₁ es₂ c₁ i r w row, es = es₁ ++ (i, .consume) :: es₂ → Run.run step c₀ es₁ = some c₁ →
      c₁.proc i = some (.redemption r (.locked w)) →
      c₁.shared.db.enrollmentTokens.get w.row.id = some row → row.revokedAt ≠ none →
      c.proc i = some (.redemption r (.done false)) := by
  refine ⟨accounted_run hinit hacc h, ?_⟩
  rintro es₁ es₂ c₁ i r w row rfl h₁ hproc hrow hrev
  obtain ⟨m, hm, hrest⟩ := (Run.run_append_eq_some step).mp h
  rw [h₁, Option.some.injEq] at hm
  subst hm
  obtain ⟨c₂, hconsume, hrest⟩ := (Run.run_cons_eq_some step).mp hrest
  exact done_run (rejected_of_revoked hproc hrow hrev hconsume) hrest

end

/-- Two redemptions of the token, and its revocation by a super-admin. -/
def revokeStart : Config Shared Proc where
  shared := { db := twoUseDb }
  proc
    | 0 => some (.redemption ⟨joinCall, joinEnv []⟩ .begun)
    | 1 => some (.request (.revokeEnrollmentToken { exampleContext with auditId := 2 }
        (getTenantScope ⟨.admin, .empty⟩) 1) .begun)
    | 2 => some (.redemption ⟨joinCall, joinEnv []⟩ .begun)
    | _ => none

/-- The first redemption commits; the second has the lock of the hub when the revocation commits. -/
def revokeTrace : List (ℕ × Action) :=
  [(0, .read), (0, .lock), (0, .consume), (0, .admitClient), (0, .commit), (0, .release),
   (2, .read), (2, .lock), (1, .read), (1, .update), (1, .commit)]

/-- Process `i` has the lock of the hub, and its token has been revoked. -/
def lockedOnRevoked (c : Config Shared Proc) (i : ℕ) : Bool :=
  match c.proc i with
  | some (.redemption _ (.locked w)) =>
    (c.shared.db.enrollmentTokens.get w.row.id).any fun row ↦ row.revokedAt != none
  | _ => false

theorem use_count_is_exact_revokeTrace :
    ∃ c row r, Run.run step revokeStart (revokeTrace ++ [(2, .consume)]) = some c ∧
      c.shared.db.enrollmentTokens.get 1 = some row ∧ row.useCount = 1 ∧
      row.useCount = enrollCount c.shared.db.auditEvents 1 ∧ row.useCount ≤ row.maxUses ∧
      c.proc 2 = some (.redemption r (.done false)) := by
  have hinit : Initial revokeStart := by
    refine ⟨fun _ ↦ rfl, fun _ ↦ rfl, fun i p hp ↦ ?_⟩
    rcases i with _ | _ | _ | i <;> cases hp <;> trivial
  have hacc : Accounted revokeStart.shared.db := by
    intro id row hrow
    have hmem := List.mem_singleton.mp (Table.mem_of_get hrow)
    have hid : row.id = id := Table.pk_of_get hrow
    subst hid hmem
    decide
  obtain ⟨c, hc⟩ := Option.isSome_iff_exists.mp
    (by decide +kernel : (Run.run step revokeStart (revokeTrace ++ [(2, .consume)])).isSome)
  obtain ⟨c₁, hc₁⟩ := Option.isSome_iff_exists.mp
    (by decide +kernel : (Run.run step revokeStart revokeTrace).isSome)
  have hused : (Run.run step revokeStart (revokeTrace ++ [(2, .consume)])).all fun c ↦
      (c.shared.db.enrollmentTokens.get 1).any fun row ↦ row.useCount == 1 := by decide +kernel
  have hlocked : (Run.run step revokeStart revokeTrace).all fun c ↦ lockedOnRevoked c 2 := by
    decide +kernel
  rw [hc, Option.all_some] at hused
  rw [hc₁, Option.all_some, lockedOnRevoked] at hlocked
  obtain ⟨row, hrow, huse⟩ := Option.any_eq_true _ _ |>.mp hused
  have hexact := use_count_is_exact hinit hacc hc
  split at hlocked
  · next r w hproc =>
    obtain ⟨row₁, hrow₁, hrev⟩ := Option.any_eq_true _ _ |>.mp hlocked
    exact ⟨c, row, r, hc, hrow, by simpa using huse, (hexact.1 1 row hrow).1,
      (hexact.1 1 row hrow).2, hexact.2 _ _ _ _ _ _ _ rfl hc₁ hproc hrow₁ (by simpa using hrev)⟩
  · cases hlocked

end WgManager.Enroll
