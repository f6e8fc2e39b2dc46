import WgManager.Enroll.Binding
import WgManager.Enroll.System

/-!
# Tokens and the clock

The requests of `WgManager.Enroll.System`, with a clock that goes on between any two of their steps,
the minting of tokens, and the sweeps that delete dead ones.  A request takes the time when it does
its checks: that is when `is_expired` is called, and when `revoke_token` and `mint_token` take the
times that they store.

`effect_of_procStep` says once what a step can do to the tokens: a row that is there has been there
before and may have aged (`Ages`), or it is one that has just been minted (`Minted`).
-/

set_option autoImplicit false

namespace WgManager

/-- `ENROLL_TOKEN_MAX_CIDRS`. -/
def enrollTokenMaxCidrs : ℕ := 16

/-- The field `allowed_cidrs` of `EnrollmentTokenCreate`; `none` is a validation error. -/
def IPv6Library.validateCidrs (v6 : IPv6Library) :
    Option (List String) → Option (Option (List String))
  | none => some none
  | some values =>
    if values = [] ∨ enrollTokenMaxCidrs < values.length then none
    else (v6.normalizeCidrs values).map some

/-- The predicate `dead` of `delete_dead_tokens`. -/
def EnrollmentToken.isDead (row : EnrollmentToken) (cutoff : Datetime) : Bool :=
  row.expiresAt < cutoff || row.revokedAt.any (· < cutoff)

/-- The ids that `delete_dead_tokens` selects. -/
def deadTokens (tokens : Table EnrollmentToken) (retentionSeconds : ℕ) (now : Datetime) : List ℕ :=
  (tokens.select fun row ↦ row.isDead (now - retentionSeconds)).map EnrollmentToken.id

end WgManager

namespace WgManager.TokenLife

open Enroll (Phase Redemption Request Stage)

/-! ## Processes -/

/-- A `POST /enrollment-tokens` whose body the schema has accepted. -/
structure Mint (v6 : IPv6Library) where
  ctx : Context
  scope : TenantScope
  /-- What `generate_token` returns. -/
  token : String
  /-- The networks as the admin has entered them. -/
  entered : Option (List String)
  /-- The body as the schema leaves it. -/
  payload : EnrollmentTokenCreate
  normalised : v6.validateCidrs entered = some payload.allowedCidrs

inductive MintStage
  | begun
  /-- The checks have passed, and the row is to be inserted. -/
  | inserting (now : Datetime) (server : Server) (sshKey : SSHKey)
  | done

/-- How far a `sweep_enrollment_tokens_task` has got. -/
inductive SweepStage
  | begun
  | selected (ids : List ℕ)
  | done

inductive Proc (v6 : IPv6Library)
  | request (p : Enroll.Proc)
  | mint (m : Mint v6) (st : MintStage)
  | sweep (retentionSeconds : ℕ) (st : SweepStage)

inductive Action
  | tick (seconds : ℕ)
  | act (a : Enroll.Action)
  deriving DecidableEq

/-- By how much the clock goes on. -/
def Action.seconds : Action → ℕ
  | tick seconds => seconds
  | act _ => 0

/-- What the processes share. -/
structure Shared where
  base : Enroll.Shared
  clock : Datetime
  /-- The next key of the token table. -/
  nextTokenId : ℕ
  /-- The networks that were entered for a token.  No request reads this. -/
  entered : ℕ → Option (List IPNetwork) := fun _ ↦ none

abbrev Shared.tokens (g : Shared) : Table EnrollmentToken := g.base.db.enrollmentTokens

/-! ## Steps -/

/-- The request at the time of its checks. -/
def atTime (now : Datetime) : Enroll.Proc → Enroll.Proc
  | .redemption r ph => .redemption { r with env := { r.env with now } } ph
  | .request (.registerClient ctx payload) st =>
    .request (.registerClient { ctx with now } payload) st
  | .request (.registerManualClient ctx payload) st =>
    .request (.registerManualClient { ctx with now } payload) st
  | .request (.deleteClient ctx scope clientId) st =>
    .request (.deleteClient { ctx with now } scope clientId) st
  | .request (.revokeEnrollmentToken ctx scope tokenId) st =>
    .request (.revokeEnrollmentToken { ctx with now } scope tokenId) st

section

variable {v6 : IPv6Library} (sha256Hex : String → String)

/-- The row that a request mints. -/
def Mint.row (m : Mint v6) (id : ℕ) (now : Datetime) (server : Server) (sshKey : SSHKey) :
    EnrollmentToken :=
  mintToken { m.ctx with now, newId := id } (v6.tokenLibrary sha256Hex) m.token server sshKey
    m.payload

/-- The networks that were entered. -/
def Mint.networks (m : Mint v6) : Option (List IPNetwork) := m.entered.bind v6.networksOf

/-- What is shared after the commit of a minted row. -/
def Shared.withMinted (g : Shared) (m : Mint v6) (row : EnrollmentToken)
    (auditEvents : Table AuditEvent) : Shared where
  base := g.base.commit
    { g.base.db with enrollmentTokens := g.tokens.insert row, auditEvents }
  clock := g.clock
  nextTokenId := g.nextTokenId + 1
  entered := Function.update g.entered row.id m.networks

/-- A step of a request that mints a token.  The hash of a token is unique. -/
def mintStep (g : Shared) (m : Mint v6) : MintStage → Enroll.Action → Option (Shared × MintStage)
  | .begun, .read =>
    match createEnrollmentTokenChecks g.base.db m.scope m.payload with
    | .error _ => some (g, .done)
    | .ok (server, sshKey) => some (g, .inserting g.clock server sshKey)
  | .inserting now server sshKey, .commit =>
    let row := m.row sha256Hex g.nextTokenId now server sshKey
    if g.tokens.rows.any fun other ↦ other.tokenHash == row.tokenHash then some (g, .done)
    else
      let ctx := { m.ctx with now := now }
      let event := ctx.auditEvent "enrollment_token.create" "enrollment_token" "create"
        (some row.id) row.tenantId none (some (.enrollmentToken { row with tokenHash := "" }))
      match flushAudit g.base.db.auditEvents event with
      | none => some (g, .done)
      | some auditEvents => some (g.withMinted m row auditEvents, .done)
  | .done, _ => none
  | _, .fail => some (g, .done)
  | _, _ => none

/-- What is shared after the commit of a sweep. -/
def Shared.withoutTokens (g : Shared) (ids : List ℕ) : Shared :=
  let enrollmentTokens := g.tokens.filter fun row ↦ row.id ∉ ids
  { g with base := g.base.commit { g.base.db with enrollmentTokens } }

/-- A step of a sweep.  The `DELETE` waits for the locks of its rows, and the commit comes with
it. -/
def sweepStep (g : Shared) (retentionSeconds : ℕ) :
    SweepStage → Enroll.Action → Option (Shared × SweepStage)
  | .begun, .read => some (g, .selected (deadTokens g.tokens retentionSeconds g.clock))
  | .selected ids, .commit =>
    if ids.all fun id ↦ g.base.rows id = none then some (g.withoutTokens ids, .done) else none
  | .done, _ => none
  | _, .fail => some (g, .done)
  | _, _ => none

/-- A step of a process; time can go on at any moment. -/
def procStep (i : ℕ) (g : Shared) :
    Option (Proc v6) → Action → Option (Shared × Option (Proc v6))
  | p, .tick seconds => some ({ g with clock := g.clock + seconds }, p)
  | none, .act _ => none
  | some (.request p), .act a =>
    (Enroll.procStep i g.base (some (if a = .read then atTime g.clock p else p)) a).map fun s ↦
      ({ g with base := s.1 }, s.2.map .request)
  | some (.mint m st), .act a =>
    (mintStep sha256Hex g m st a).map fun s ↦ (s.1, some (.mint m s.2))
  | some (.sweep retentionSeconds st), .act a =>
    (sweepStep g retentionSeconds st a).map fun s ↦ (s.1, some (.sweep retentionSeconds s.2))

/-- A step of the system. -/
def step : Config Shared (Proc v6) → ℕ × Action → Option (Config Shared (Proc v6)) :=
  Config.step (procStep sha256Hex)

end

/-- A process that has not begun. -/
def Proc.fresh {v6 : IPv6Library} : Proc v6 → Prop
  | .request p => p.fresh
  | .mint _ .begun => True
  | .sweep _ .begun => True
  | _ => False

/-- The keys in use are below the next one. -/
def IdsBelow (g : Shared) : Prop := ∀ id row, g.tokens.get id = some row → id < g.nextTokenId

/-- No request has begun, no lock is held, and the keys in use are below the next one. -/
structure Initial {v6 : IPv6Library} (c : Config Shared (Proc v6)) : Prop where
  ipam : ∀ k, c.shared.base.ipam k = none
  rows : ∀ k, c.shared.base.rows k = none
  proc : ∀ i p, c.proc i = some p → p.fresh
  ids : IdsBelow c.shared

/-! ## What a step can do to the tokens -/

/-- What can become of a row: uses are taken, and it is revoked. -/
structure Ages (row row' : EnrollmentToken) : Prop where
  expiresAt : row'.expiresAt = row.expiresAt
  maxUses : row'.maxUses = row.maxUses
  allowedCidrs : row'.allowedCidrs = row.allowedCidrs
  useCount : row.useCount ≤ row'.useCount
  revokedAt : row.revokedAt ≠ none → row'.revokedAt ≠ none

theorem Ages.refl (row : EnrollmentToken) : Ages row row := ⟨rfl, rfl, rfl, Nat.le_refl _, id⟩

theorem Ages.trans {r₁ r₂ r₃ : EnrollmentToken} (h : Ages r₁ r₂) (h' : Ages r₂ r₃) : Ages r₁ r₃ :=
  ⟨h'.expiresAt.trans h.expiresAt, h'.maxUses.trans h.maxUses,
    h'.allowedCidrs.trans h.allowedCidrs, Nat.le_trans h.useCount h'.useCount,
    h'.revokedAt ∘ h.revokedAt⟩

theorem ages_use (row : EnrollmentToken) : Ages row row.use :=
  ⟨rfl, rfl, rfl, Nat.le_succ _, id⟩

theorem ages_updateRevoked (loaded row : EnrollmentToken) (now : Datetime) (cn : Option String) :
    Ages row (Enroll.updateRevoked loaded now cn row) :=
  ⟨rfl, rfl, rfl, Nat.le_refl _, fun _ ↦ Option.some_ne_none now⟩

/-- A table in which one row has aged. -/
theorem ages_of_modify {tokens : Table EnrollmentToken} {k id : ℕ}
    {f : EnrollmentToken → EnrollmentToken} (hf : ∀ r, Keyed.pk (f r) = Keyed.pk r)
    (hages : ∀ row, Ages row (f row)) {row' : EnrollmentToken}
    (h : (tokens.modify k f hf).get id = some row') :
    ∃ row, tokens.get id = some row ∧ Ages row row' := by
  rw [Table.get_modify] at h
  split at h
  · obtain ⟨row, hrow, rfl⟩ := Option.map_eq_some_iff.mp h
    exact ⟨row, hrow, hages row⟩
  · exact ⟨row', h, .refl row'⟩

/-- Redemptions and the other requests add no tokens. -/
theorem ages_of_enroll {i : ℕ} {g g' : Enroll.Shared} {p p' : Option Enroll.Proc}
    {a : Enroll.Action} (h : Enroll.procStep i g p a = some (g', p')) {id : ℕ}
    {row' : EnrollmentToken} (hrow : g'.db.enrollmentTokens.get id = some row') :
    ∃ row, g.db.enrollmentTokens.get id = some row ∧ Ages row row' := by
  have hsame (htokens : g'.db.enrollmentTokens = g.db.enrollmentTokens) :
      ∃ row, g.db.enrollmentTokens.get id = some row ∧ Ages row row' :=
    ⟨row', htokens ▸ hrow, .refl row'⟩
  rcases Enroll.procStep_cases h with ⟨r, ph, ph', -, -, hmove⟩ | ⟨q, st, st', -, -, hmove⟩
  · rcases hmove with - | - | - | - | - | - | - | - | - | hcommit | -
    -- the commit takes the use, and the other steps leave the tables alone
    case commit =>
      obtain ⟨-, -, -, rfl⟩ := Enroll.withEnrolled_of_commit hcommit
      exact ages_of_modify EnrollmentToken.pk_use ages_use hrow
    all_goals exact hsame rfl
  · rcases hmove with - | - | - | - | hflush | - | -
    case revoke row now cn event auditEvents =>
      exact ages_of_modify (Enroll.pk_updateRevoked row now cn)
        (ages_updateRevoked row · now cn) hrow
    all_goals exact hsame rfl

section

variable {v6 : IPv6Library} {sha256Hex : String → String} {i : ℕ} {g g' : Shared}
  {p p' : Option (Proc v6)} {a : Action}

/-- **What a step can do to the tokens.** -/
structure Effect (sha256Hex : String → String) (p : Option (Proc v6)) (a : Action) (g g' : Shared) :
    Prop where
  clock : g'.clock = g.clock + a.seconds
  next : g.nextTokenId ≤ g'.nextTokenId
  tokens : ∀ id row', g'.tokens.get id = some row' →
    (∃ row, g.tokens.get id = some row ∧ Ages row row' ∧ g'.entered id = g.entered id) ∨
    (id = g.nextTokenId ∧ id < g'.nextTokenId ∧ ∃ m st now server sshKey,
      p = some (.mint m st) ∧ row' = m.row sha256Hex id now server sshKey ∧
      g'.entered id = m.networks)

theorem Effect.refl (p : Option (Proc v6)) (a : Enroll.Action) (g : Shared) :
    Effect sha256Hex p (.act a) g g :=
  ⟨(Int.add_zero _).symm, Nat.le_refl _, fun _ row' h ↦ .inl ⟨row', h, .refl row', rfl⟩⟩

theorem effect_withMinted {m : Mint v6} {st : MintStage} {now : Datetime} {server : Server}
    {sshKey : SSHKey} {auditEvents : Table AuditEvent} {a : Enroll.Action} (hids : IdsBelow g) :
    Effect sha256Hex (some (.mint m st)) (.act a) g
      (g.withMinted m (m.row sha256Hex g.nextTokenId now server sshKey) auditEvents) := by
  refine ⟨(Int.add_zero _).symm, Nat.le_succ _, fun id row' hrow ↦ ?_⟩
  rcases Table.get_insert_cases hrow with hold | ⟨rfl, rfl⟩
  · refine .inl ⟨row', hold, .refl row', ?_⟩
    have hne : id ≠ g.nextTokenId := Nat.ne_of_lt (hids id row' hold)
    exact Function.update_of_ne hne _ _
  · refine .inr ⟨rfl, Nat.lt_succ_self _, m, st, now, server, sshKey, rfl, rfl, ?_⟩
    exact Function.update_self _ _ _

theorem effect_of_mintStep {m : Mint v6} {st st' : MintStage} {a : Enroll.Action}
    (hids : IdsBelow g)
    (h : mintStep sha256Hex g m st a = some (g', st')) :
    Effect sha256Hex (some (.mint m st)) (.act a) g g' := by
  unfold mintStep at h
  split at h
  · split at h
    · cases h
      exact .refl _ _ g
    · cases h
      exact .refl _ _ g
  · dsimp only at h
    split at h
    · cases h
      exact .refl _ _ g
    · split at h
      · cases h
        exact .refl _ _ g
      · cases h
        exact effect_withMinted hids
  · cases h
  · cases h
    exact .refl _ _ g
  · cases h

theorem effect_of_sweepStep {retentionSeconds : ℕ} {st st' : SweepStage} {a : Enroll.Action}
    (h : sweepStep g retentionSeconds st a = some (g', st')) :
    Effect sha256Hex p (.act a) g g' := by
  unfold sweepStep at h
  split at h
  · cases h
    exact .refl _ _ g
  · split at h
    · cases h
      refine ⟨(Int.add_zero _).symm, Nat.le_refl _,
        fun id row' hrow ↦ .inl ⟨row', ?_, .refl row', rfl⟩⟩
      have hfound : (g.tokens.get id).filter _ = some row' := Table.get_filter g.tokens _ id ▸ hrow
      exact (Option.filter_eq_some_iff.mp hfound).1
    · cases h
  · cases h
  · cases h
    exact .refl _ _ g
  · cases h

theorem effect_of_procStep (hids : IdsBelow g)
    (h : procStep sha256Hex i g p a = some (g', p')) : Effect sha256Hex p a g g' := by
  rcases a with seconds | a
  · cases h
    exact ⟨rfl, Nat.le_refl _, fun id row' hrow ↦ .inl ⟨row', hrow, .refl row', rfl⟩⟩
  · rcases p with _ | (q | ⟨m, st⟩ | ⟨retentionSeconds, st⟩)
    · cases h
    · obtain ⟨⟨base, q'⟩, hstep, hpair⟩ := Option.map_eq_some_iff.mp h
      cases hpair
      refine ⟨(Int.add_zero _).symm, Nat.le_refl _, fun id row' hrow ↦ ?_⟩
      obtain ⟨row, hold, hages⟩ := ages_of_enroll hstep hrow
      exact .inl ⟨row, hold, hages, rfl⟩
    · obtain ⟨⟨g₁, st'⟩, hstep, hpair⟩ := Option.map_eq_some_iff.mp h
      cases hpair
      exact effect_of_mintStep hids hstep
    · obtain ⟨⟨g₁, st'⟩, hstep, hpair⟩ := Option.map_eq_some_iff.mp h
      cases hpair
      exact effect_of_sweepStep hstep

theorem IdsBelow.of_effect (hids : IdsBelow g) (h : Effect sha256Hex p a g g') : IdsBelow g' := by
  intro id row' hrow
  rcases h.tokens id row' hrow with ⟨row, hold, -, -⟩ | ⟨-, hlt, -⟩
  · exact Nat.lt_of_lt_of_le (hids id row hold) h.next
  · exact hlt

theorem Effect.clock_le (h : Effect sha256Hex p a g g') : g.clock ≤ g'.clock := by
  rw [h.clock]
  exact Int.le_add_of_nonneg_right (Int.natCast_nonneg _)

/-- A row that was there and is there has aged. -/
theorem Effect.ages (h : Effect sha256Hex p a g g') {id : ℕ} {row row' : EnrollmentToken}
    (hids : id < g.nextTokenId) (hold : ∀ row₀, g.tokens.get id = some row₀ → Ages row row₀)
    (hrow : g'.tokens.get id = some row') : Ages row row' := by
  rcases h.tokens id row' hrow with ⟨row₀, hrow₀, hages, -⟩ | ⟨rfl, -, -⟩
  · exact (hold row₀ hrow₀).trans hages
  · exact absurd hids (Nat.lt_irrefl _)

/-- A step of a redemption is one of `WgManager.Enroll.System`, at the time of the clock. -/
theorem move_of_procStep {r' : Redemption} {ph' : Phase}
    (h : procStep sha256Hex i g p a = some (g', some (.request (.redemption r' ph')))) :
    p = some (.request (.redemption r' ph')) ∨
    ∃ r ph a', a = .act a' ∧ p = some (.request (.redemption r ph)) ∧
      (a' = .read → r'.env.now = g.clock) ∧
      Enroll.RedemptionMove i g.base r' ph a' g'.base ph' := by
  rcases a with seconds | a
  · cases h
    exact .inl rfl
  · rcases p with _ | (q | ⟨m, st⟩ | ⟨retentionSeconds, st⟩)
    · cases h
    · obtain ⟨⟨base, q'⟩, hstep, hpair⟩ := Option.map_eq_some_iff.mp h
      simp only [Prod.mk.injEq, Option.map_eq_some_iff] at hpair
      obtain ⟨rfl, q'', rfl, hrequest⟩ := hpair
      cases hrequest
      rcases Enroll.procStep_cases hstep with ⟨r, ph, ph₁, hr, hp', hmove⟩ | ⟨_, _, _, -, hp', -⟩
      · cases hp'
        by_cases hread : a = .read
        · rw [if_pos hread] at hr
          rcases q with ⟨r₀, ph₀⟩ | ⟨request, st⟩
          · cases hr
            exact .inr ⟨r₀, _, a, rfl, rfl, fun _ ↦ rfl, hmove⟩
          · rcases request with _ | _ | _ | _
            all_goals cases hr
        · rw [if_neg hread] at hr
          cases hr
          exact .inr ⟨_, _, a, rfl, rfl, fun h ↦ absurd h hread, hmove⟩
      · cases hp'
    · obtain ⟨⟨g₁, st'⟩, -, hpair⟩ := Option.map_eq_some_iff.mp h
      cases hpair
    · obtain ⟨⟨g₁, st'⟩, -, hpair⟩ := Option.map_eq_some_iff.mp h
      cases hpair

end

/-- The digest for examples. -/
def joinSha256Hex : String → String := (joinEnv []).lib.sha256Hex

/-- One process that has not begun, and no locks. -/
theorem initial_of_one {v6 : IPv6Library} {c : Config Shared (Proc v6)} {p : Proc v6}
    (hfresh : p.fresh) (hfirst : c.proc 0 = some p) (hidle : ∀ i, i ≠ 0 → c.proc i = none)
    (hipam : ∀ k, c.shared.base.ipam k = none) (hrows : ∀ k, c.shared.base.rows k = none)
    (hids : IdsBelow c.shared) : Initial c := by
  refine ⟨hipam, hrows, fun i q hq ↦ ?_, hids⟩
  by_cases hi : i = 0
  · rw [hi, hfirst, Option.some.injEq] at hq
    exact hq ▸ hfresh
  · rw [hidle i hi] at hq
    cases hq

theorem idsBelow_joinDb (clock : Datetime) :
    IdsBelow { base := { db := joinDb }, clock, nextTokenId := 2 } := by
  intro id row hrow
  have hmem := List.mem_singleton.mp (Table.mem_of_get hrow)
  have hid : row.id = id := Table.pk_of_get hrow
  rw [← hid, hmem]
  exact Nat.lt_succ_self 1

end WgManager.TokenLife
