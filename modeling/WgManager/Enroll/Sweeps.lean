import WgManager.Enroll.Life

/-!
# The life of a token

A token is active, and at some time it is revoked, expires or is used up; after that it is never
active again, whatever the requests and the sweeps do (`Ages.status`).  So the sweeps, which select
the ids of dead rows and delete by these ids later, delete none that could be redeemed
(`token_life_goes_forward`).
-/

set_option autoImplicit false

namespace WgManager.TokenLife

open Enroll (Redemption)

theorem status_active_iff {row : EnrollmentToken} {now : Datetime} :
    tokenStatus row now = .active ↔
      row.revokedAt = none ∧ now < row.expiresAt ∧ row.useCount < row.maxUses := by
  rw [tokenStatus]
  cases hrevoked : row.revokedAt with
  | some t => simp
  | none =>
    simp only [Option.isSome_none, Bool.false_eq_true, if_false, isExpired, decide_eq_true_eq]
    split
    · next h => simp [not_lt.mpr h]
    · next h =>
      split
      · next hspent => simp [Nat.not_lt.mpr hspent]
      · next hleft => simp [not_le.mp h, Nat.not_le.mp hleft]

/-- **What has ended does not begin again.** -/
theorem Ages.status {row row' : EnrollmentToken} {t t' : Datetime} (h : Ages row row') (ht : t ≤ t')
    (hended : tokenStatus row t ≠ .active) : tokenStatus row' t' ≠ .active := by
  intro hactive
  obtain ⟨hrevoked, hexpires, huses⟩ := status_active_iff.mp hactive
  refine hended (status_active_iff.mpr ⟨?_, ?_, ?_⟩)
  · by_contra hne
    exact h.revokedAt hne hrevoked
  · rw [h.expiresAt] at hexpires
    exact lt_of_le_of_lt ht hexpires
  · rw [h.maxUses] at huses
    exact Nat.lt_of_le_of_lt h.useCount huses

section

variable {v6 : IPv6Library} {sha256Hex : String → String}

/-- What a run does to the tokens: no row comes back, and those that stay age. -/
structure Evolves (g g' : Shared) : Prop where
  clock : g.clock ≤ g'.clock
  next : g.nextTokenId ≤ g'.nextTokenId
  tokens : ∀ id row', id < g.nextTokenId → g'.tokens.get id = some row' →
    ∃ row, g.tokens.get id = some row ∧ Ages row row'

theorem evolves_run {c c' : Config Shared (Proc v6)} {es : List (ℕ × Action)}
    (hids : IdsBelow c.shared) (h : Run.run (step sha256Hex) c es = some c') :
    IdsBelow c'.shared ∧ Evolves c.shared c'.shared := by
  induction es generalizing c with
  | nil =>
    cases h
    exact ⟨hids, le_refl _, Nat.le_refl _, fun _ row' _ hrow ↦ ⟨row', hrow, .refl row'⟩⟩
  | cons e es ih =>
    obtain ⟨m, hm, hrun⟩ := (Run.run_cons_eq_some _).mp h
    obtain ⟨g', p', hstep, rfl⟩ := Config.step_eq_some.mp hm
    have heffect := effect_of_procStep hids hstep
    obtain ⟨hids', hclock, hnext, htokens⟩ := ih (hids.of_effect heffect) hrun
    refine ⟨hids', le_trans heffect.clock_le hclock, Nat.le_trans heffect.next hnext, ?_⟩
    intro id row' hid hrow'
    obtain ⟨row₁, hrow₁, hages₁⟩ := htokens id row' (Nat.lt_of_lt_of_le hid heffect.next) hrow'
    rcases heffect.tokens id row₁ hrow₁ with ⟨row, hrow, hages, -⟩ | ⟨rfl, -, -⟩
    · exact ⟨row, hrow, hages.trans hages₁⟩
    · exact absurd hid (Nat.lt_irrefl _)

end

theorem mem_deadTokens_iff {tokens : Table EnrollmentToken} {retentionSeconds id : ℕ}
    {now : Datetime} : id ∈ deadTokens tokens retentionSeconds now ↔
      ∃ row, tokens.get id = some row ∧ row.isDead (now - retentionSeconds) = true := by
  simp only [deadTokens, List.mem_map, Table.select, List.mem_filter]
  constructor
  · rintro ⟨row, ⟨hrow, hdead⟩, rfl⟩
    exact ⟨row, Table.mem_rows_iff.mp hrow, hdead⟩
  · rintro ⟨row, hrow, hdead⟩
    exact ⟨row, ⟨Table.mem_of_get hrow, hdead⟩, Table.pk_of_get hrow⟩

theorem isDead_iff {row : EnrollmentToken} {cutoff : Datetime} : row.isDead cutoff = true ↔
    row.expiresAt < cutoff ∨ ∃ t, row.revokedAt = some t ∧ t < cutoff := by
  rw [EnrollmentToken.isDead, Bool.or_eq_true, decide_eq_true_eq, Option.any_eq_true]
  simp only [decide_eq_true_eq]

theorem get_withoutTokens (g : Shared) (ids : List ℕ) (id : ℕ) :
    (g.withoutTokens ids).tokens.get id = if id ∈ ids then none else g.tokens.get id := by
  show (g.tokens.filter fun row ↦ row.id ∉ ids).get id = _
  rw [Table.get_filter]
  cases hrow : g.tokens.get id with
  | none => simp
  | some row =>
    have hid : row.id = id := Table.pk_of_get hrow
    rw [Option.filter_some, hid]
    split
    · next h => simp [of_decide_eq_true h]
    · next h =>
      rw [decide_eq_true_eq, not_not] at h
      rw [if_pos h]

/-- The token expired or was revoked more than the retention ago. -/
def DeadFor (g : Shared) (retentionSeconds id : ℕ) : Prop :=
  ∃ row, g.tokens.get id = some row ∧ (row.expiresAt < g.clock - retentionSeconds ∨
    ∃ t, row.revokedAt = some t ∧ t < g.clock - retentionSeconds)

theorem deadFor_iff {g : Shared} {retentionSeconds id : ℕ} :
    DeadFor g retentionSeconds id ↔ id ∈ deadTokens g.tokens retentionSeconds g.clock := by
  rw [mem_deadTokens_iff]
  simp only [isDead_iff]
  exact Iff.rfl

section

variable {v6 : IPv6Library} {sha256Hex : String → String} {c m d d' : Config Shared (Proc v6)}
  {i retentionSeconds id : ℕ}

/-- The first step of a sweep changes nothing, and leaves it with the ids of the dead rows. -/
theorem step_select (hproc : c.proc i = some (.sweep retentionSeconds .begun))
    (h : step sha256Hex c (i, .act .read) = some m) :
    m.shared = c.shared ∧ m.proc i =
      some (.sweep retentionSeconds (.selected (deadTokens c.shared.tokens retentionSeconds
        c.shared.clock))) := by
  obtain ⟨g', p', hstep, rfl⟩ := Config.step_eq_some.mp h
  dsimp only at hstep
  rw [hproc] at hstep
  cases hstep
  exact ⟨rfl, Function.update_self ..⟩

/-- The second step deletes the rows with these ids. -/
theorem step_delete {ids : List ℕ}
    (hproc : d.proc i = some (.sweep retentionSeconds (.selected ids)))
    (h : step sha256Hex d (i, .act .commit) = some d') :
    d'.shared = d.shared.withoutTokens ids := by
  obtain ⟨g', p', hstep, rfl⟩ := Config.step_eq_some.mp h
  dsimp only at hstep
  rw [hproc] at hstep
  obtain ⟨⟨g₁, st'⟩, hsweep, hpair⟩ := Option.map_eq_some_iff.mp hstep
  cases hpair
  rw [sweepStep] at hsweep
  split at hsweep
  · cases hsweep
    rfl
  · cases hsweep

/-- A dead token that is looked up is refused, however long ago its death was noticed. -/
theorem not_redeemed_of_dead (hdead : DeadFor c.shared retentionSeconds id)
    (hevolves : Evolves c.shared d.shared) (hids : IdsBelow c.shared) {r : Redemption}
    {row : EnrollmentToken} {payload : EnrollRequest} (hnow : c.shared.clock ≤ r.env.now)
    (h : r.checks d.shared.base.db = .ok (row, payload)) : row.id ≠ id := by
  rintro rfl
  obtain ⟨row₀, hrow₀, hended⟩ := hdead
  obtain ⟨_, -, h⟩ := bind_eq_ok_iff.mp h
  obtain ⟨token, -, -, hfound, ⟨hlive, hexpired, -⟩, -, -⟩ := tokenChecks_eq_ok_iff.mp h
  obtain ⟨row₁, hrow₁, hages⟩ := hevolves.tokens _ _ (hids _ _ hrow₀) (get_of_findToken hfound)
  rw [hrow₀] at hrow₁
  cases hrow₁
  rcases hended with hpast | ⟨t, ht, -⟩
  · rw [isExpired, hages.expiresAt, decide_eq_false_iff_not] at hexpired
    have hretention : (0 : ℤ) ≤ retentionSeconds := Int.natCast_nonneg _
    have hpast' : row₀.expiresAt ≤ c.shared.clock :=
      le_trans (le_of_lt hpast) (Int.sub_le_self _ hretention)
    exact hexpired (le_trans hpast' hnow)
  · exact hages.revokedAt (by rw [ht]; exact Option.some_ne_none t) hlive

/-- **The life of a token only goes forward.**  After any run, a token that has ended is never
active again; and a sweep that now selects dead rows and deletes them later deletes the rows that
are dead now, which no redemption passes its checks with from now on, and which are not there to be
used after. -/
theorem token_life_goes_forward {c₀ : Config Shared (Proc v6)} {es : List (ℕ × Action)}
    (hinit : Initial c₀) (h : Run.run (step sha256Hex) c₀ es = some c) :
    (∀ es' d, Run.run (step sha256Hex) c es' = some d → ∀ id row row' t t',
      c.shared.tokens.get id = some row → d.shared.tokens.get id = some row' → t ≤ t' →
        tokenStatus row t ≠ .active → tokenStatus row' t' ≠ .active) ∧
    ∀ i retentionSeconds m es' d d', c.proc i = some (.sweep retentionSeconds .begun) →
      step sha256Hex c (i, .act .read) = some m → Run.run (step sha256Hex) m es' = some d →
      i ∉ es'.map Prod.fst → step sha256Hex d (i, .act .commit) = some d' → ∀ id,
        (¬ DeadFor c.shared retentionSeconds id →
          d'.shared.tokens.get id = d.shared.tokens.get id) ∧
        (DeadFor c.shared retentionSeconds id →
          (∀ es₁ x, Run.run (step sha256Hex) m es₁ = some x → ∀ (r : Redemption) row payload,
            c.shared.clock ≤ r.env.now → r.checks x.shared.base.db = .ok (row, payload) →
              row.id ≠ id) ∧
          ∀ es'' d'', Run.run (step sha256Hex) d' es'' = some d'' →
            d''.shared.tokens.get id = none ∧ consumeToken d''.shared.tokens id = none) := by
  have hids : IdsBelow c.shared := (evolves_run hinit.ids h).1
  constructor
  · intro es' d hrun id row row' t t' hrow hrow' ht hended
    obtain ⟨row₀, hrow₀, hages⟩ := (evolves_run hids hrun).2.tokens id row' (hids id row hrow) hrow'
    rw [hrow] at hrow₀
    cases hrow₀
    exact hages.status ht hended
  · intro i retentionSeconds m es' d d' hproc hselect hrun hwaits hdelete id
    obtain ⟨hshared, hselected⟩ := step_select hproc hselect
    have hproc' := (Config.proc_of_run hrun hwaits).trans hselected
    have hgone := step_delete hproc' hdelete
    have hget := get_withoutTokens d.shared
      (deadTokens c.shared.tokens retentionSeconds c.shared.clock) id
    rw [← hgone] at hget
    have hrun' : Run.run (step sha256Hex) c ((i, .act .read) :: es') = some d :=
      (Run.run_cons_eq_some _).mpr ⟨m, hselect, hrun⟩
    have hdeleted : Run.run (step sha256Hex) c ((i, .act .read) :: es' ++ [(i, .act .commit)]) =
        some d' :=
      (Run.run_append_eq_some _).mpr ⟨d, hrun', (Run.run_cons_eq_some _).mpr ⟨d', hdelete, rfl⟩⟩
    obtain ⟨hids', hevolves⟩ := evolves_run hids hdeleted
    constructor
    · intro halive
      rw [hget, if_neg fun hmem ↦ halive (deadFor_iff.mpr hmem)]
    · intro hdead
      refine ⟨fun es₁ x hx r row payload hnow hchecks ↦ ?_, ?_⟩
      · have hlater : Run.run (step sha256Hex) c ((i, .act .read) :: es₁) = some x :=
          (Run.run_cons_eq_some _).mpr ⟨m, hselect, hx⟩
        exact not_redeemed_of_dead hdead (evolves_run hids hlater).2 hids hnow hchecks
      intro es'' d'' hrun''
      have hnone : d''.shared.tokens.get id = none := by
        by_contra hne
        obtain ⟨row'', hrow''⟩ := Option.ne_none_iff_exists'.mp hne
        have hmem := deadFor_iff.mp hdead
        obtain ⟨row₀, hrow₀, -⟩ := hdead
        have hlt := Nat.lt_of_lt_of_le (hids id row₀ hrow₀) hevolves.next
        obtain ⟨row', hrow', -⟩ := (evolves_run hids' hrun'').2.tokens id row'' hlt hrow''
        rw [hget, if_pos hmem] at hrow'
        cases hrow'
      exact ⟨hnone, by rw [consumeToken, hnone]⟩

end

/-- A sweep without retention, one second after the token has expired. -/
def sweepStart : Config Shared (Proc fullV6) where
  shared := { base := { db := joinDb }, clock := 3601, nextTokenId := 2 }
  proc
    | 0 => some (.sweep 0 .begun)
    | _ => none

theorem idle_sweepStart : ∀ i, i ≠ 0 → sweepStart.proc i = none
  | 0, h => absurd rfl h
  | _ + 1, _ => rfl

theorem initial_sweepStart : Initial sweepStart :=
  initial_of_one (p := .sweep 0 .begun) trivial rfl idle_sweepStart (fun _ ↦ rfl) (fun _ ↦ rfl)
    (idsBelow_joinDb 3601)

theorem deadFor_sweepStart : DeadFor sweepStart.shared 0 1 := by
  rw [deadFor_iff]
  decide +kernel

theorem token_life_goes_forward_sweep :
    ∃ d', Run.run (step id) sweepStart [(0, .act .read), (0, .act .commit)] = some d' ∧
      ∀ es d, Run.run (step id) d' es = some d → d.shared.tokens.get 1 = none := by
  have hsome : (Run.run (step id) sweepStart [(0, .act .read), (0, .act .commit)]).isSome =
      true := by
    decide +kernel
  obtain ⟨d', hd'⟩ := Option.isSome_iff_exists.mp hsome
  obtain ⟨m, hselect, hrest⟩ := (Run.run_cons_eq_some _).mp hd'
  obtain ⟨d'', hdelete, hnil⟩ := (Run.run_cons_eq_some _).mp hrest
  cases hnil
  have hstart : Run.run (step id) sweepStart [] = some sweepStart := rfl
  have hsweep := (token_life_goes_forward initial_sweepStart hstart).2 0 0 m [] m d' rfl hselect rfl
    List.not_mem_nil hdelete 1
  exact ⟨d', hd', fun es d hrun ↦ ((hsweep.2 deadFor_sweepStart).2 es d hrun).1⟩

end WgManager.TokenLife
