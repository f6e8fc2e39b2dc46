import WgManager.Enroll.Life

/-!
# Uses that are taken in time

`is_expired` is asked before a redemption waits for the lock of its hub, and the guard of
`consume_token` does not ask again.  So a use is taken before the token expires as long as the clock
does not reach the expiry while the redemption waits (`uses_are_taken_in_time`), and else it can be
taken later (`use_taken_after_expiry`).
-/

set_option autoImplicit false

namespace WgManager.TokenLife

open Enroll (Phase Redemption RedemptionMove)

/-- What a redemption has read that has passed its checks and has taken no use yet. -/
def waiting : Phase → Option Enroll.Lookup
  | .checked w => some w
  | .locked w => some w
  | _ => none

/-- The token of a redemption that waits has not expired, and it is the one that was read. -/
structure Waits (g : Shared) (w : Enroll.Lookup) : Prop where
  id_lt : w.row.id < g.nextTokenId
  ages : ∀ row, g.tokens.get w.row.id = some row → Ages w.row row
  in_time : g.clock < w.row.expiresAt

section

variable {v6 : IPv6Library} {sha256Hex : String → String}

def ProcWaits (g : Shared) : Proc v6 → Prop
  | .request (.redemption _ ph) => ∀ w ∈ waiting ph, Waits g w
  | _ => True

/-- The clock does not reach the expiry of a token while a redemption of it waits. -/
def InTime (c : Config Shared (Proc v6)) (e : ℕ × Action) : Prop :=
  ∀ i r ph w, c.proc i = some (.request (.redemption r ph)) → w ∈ waiting ph →
    c.shared.clock + e.2.seconds < w.row.expiresAt

variable {i : ℕ} {g g' : Shared} {p p' : Option (Proc v6)} {a : Action} {w : Enroll.Lookup}

theorem Waits.of_effect (h : Waits g w) (heffect : Effect sha256Hex p a g g')
    (htime : g.clock + a.seconds < w.row.expiresAt) : Waits g' w where
  id_lt := Nat.lt_of_lt_of_le h.id_lt heffect.next
  ages _ hrow := heffect.ages h.id_lt h.ages hrow
  in_time := by
    rw [heffect.clock]
    exact htime

/-- A redemption that starts to wait has asked at that moment. -/
theorem waits_of_checks (hids : IdsBelow g) {r : Redemption} (hnow : r.env.now = g.clock)
    {row : EnrollmentToken} {payload : EnrollRequest}
    (h : r.checks g.base.db = .ok (row, payload)) : Waits g ⟨g.base.db, row, payload⟩ := by
  obtain ⟨_, -, h⟩ := bind_eq_ok_iff.mp h
  obtain ⟨token, -, -, hfound, ⟨-, hexpired, -⟩, -, -⟩ := tokenChecks_eq_ok_iff.mp h
  have hget := get_of_findToken hfound
  refine ⟨hids _ _ hget, fun row' hrow' ↦ ?_, ?_⟩
  · rw [hget] at hrow'
    cases hrow'
    exact .refl row
  · rw [isExpired, hnow, decide_eq_false_iff_not] at hexpired
    exact not_le.mp hexpired

/-- A redemption waits for the lock, and then for the row; there it takes its use or fails. -/
theorem waiting_of_move {r : Redemption} {ph ph' : Phase} {b : Enroll.Shared} {a : Enroll.Action}
    (h : RedemptionMove i g.base r ph a b ph') (hw : w ∈ waiting ph') :
    w ∈ waiting ph ∨ a = .read ∧ ∃ row payload, r.checks g.base.db = .ok (row, payload) ∧
      w = ⟨g.base.db, row, payload⟩ := by
  rcases h with - | hchecks | - | - | - | - | - | - | - | - | -
  case read =>
    cases hw
    exact .inr ⟨rfl, _, _, hchecks, rfl⟩
  case lock => exact .inl hw
  all_goals cases hw

/-- **A step keeps every redemption that waits in time.** -/
theorem inTime_step {c c' : Config Shared (Proc v6)} {e : ℕ × Action}
    (hc : Config.Inv IdsBelow (fun _ ↦ ProcWaits) c) (hok : InTime c e)
    (h : step sha256Hex c e = some c') : Config.Inv IdsBelow (fun _ ↦ ProcWaits) c' := by
  obtain ⟨g', p', hstep, rfl⟩ := Config.step_eq_some.mp h
  have heffect := effect_of_procStep hc.shared hstep
  refine ⟨hc.shared.of_effect heffect, fun j q hq ↦ ?_⟩
  -- a redemption that has waited before
  have hwaited : ∀ k r ph, c.proc k = some (.request (.redemption r ph)) →
      ∀ w ∈ waiting ph, Waits g' w := fun k r ph hproc w hw ↦
    (hc.proc k _ hproc w hw).of_effect heffect (hok k r ph w hproc hw)
  rcases q with (⟨r', ph'⟩ | ⟨q, st⟩) | _ | _
  case request.redemption =>
    intro w hw
    by_cases hj : j = e.1
    · subst hj
      have hp' : p' = some (.request (.redemption r' ph')) := by
        simpa only [Function.update_self] using hq
      subst hp'
      rcases move_of_procStep hstep with hsame | ⟨r, ph, a, ha, hp, hnow, hmove⟩
      · exact hwaited e.1 r' ph' hsame w hw
      · rcases waiting_of_move hmove hw with hold | ⟨hread, row, payload, hchecks, rfl⟩
        · exact hwaited e.1 r ph hp w hold
        · have hwaits := waits_of_checks hc.shared (hnow hread) hchecks
          refine hwaits.of_effect heffect ?_
          rw [ha]
          simpa only [Action.seconds, Nat.cast_zero, Int.add_zero] using hwaits.in_time
    · have hold : c.proc j = some (.request (.redemption r' ph')) := by
        simpa only [Function.update_of_ne hj] using hq
      exact hwaited j r' ph' hold w hw
  all_goals trivial

theorem inTime_initial {c : Config Shared (Proc v6)} (h : Initial c) :
    Config.Inv IdsBelow (fun _ ↦ ProcWaits) c := by
  refine ⟨h.ids, fun i q hq ↦ ?_⟩
  rcases q with (⟨r, ph⟩ | ⟨q, st⟩) | _ | _
  case request.redemption =>
    have hfresh : (Enroll.Proc.redemption r ph).fresh := h.proc i _ hq
    rcases ph with _ | _ | _ | _ | _ | _ | _
    case begun => exact fun w hw ↦ absurd hw (by simp [waiting])
    all_goals exact hfresh.elim
  all_goals trivial

/-- **A use is taken before the token expires**, in every run in which the clock does not reach the
expiry of a token while a redemption of it waits. -/
theorem uses_are_taken_in_time {c₀ c c' : Config Shared (Proc v6)} {es : List (ℕ × Action)}
    (hinit : Initial c₀) (hok : Run.Meets (step sha256Hex) InTime c₀ es)
    (h : Run.run (step sha256Hex) c₀ es = some c) {r r' : Redemption} {w : Enroll.Lookup}
    (hproc : c.proc i = some (.request (.redemption r (.locked w))))
    (hconsume : step sha256Hex c (i, .act .consume) = some c')
    (htaken : c'.proc i = some (.request (.redemption r' (.consumed w)))) :
    ∃ row, c.shared.tokens.get w.row.id = some row ∧ c.shared.clock < row.expiresAt := by
  have hinv := Run.run_invariant (fun _ _ _ ↦ inTime_step) (inTime_initial hinit) hok h
  have hwaits : Waits c.shared w := hinv.proc i _ hproc w rfl
  obtain ⟨g', p', hstep, rfl⟩ := Config.step_eq_some.mp hconsume
  have hp' : p' = some (.request (.redemption r' (.consumed w))) := by
    simpa only [Function.update_self] using htaken
  subst hp'
  rcases move_of_procStep hstep with hsame | ⟨_, ph, a, ha, hp, -, hmove⟩
  · have hphase := hproc.symm.trans hsame
    cases hphase
  · cases ha
    generalize g'.base = b at hmove
    rcases hmove with - | - | - | - | - | ⟨-, -, hconsumed⟩ | - | - | - | - | -
    obtain ⟨row, hrow, -, -⟩ := consumeToken_eq_some_iff.mp hconsumed
    refine ⟨row, hrow, ?_⟩
    rw [(hwaits.ages row hrow).expiresAt]
    exact hwaits.in_time

end

/-! ## A redemption that waits too long -/

/-- The host `web` presents the token at the time `clock`. -/
def joinAt (clock : Datetime) : Config Shared (Proc fullV6) where
  shared := { base := { db := joinDb }, clock, nextTokenId := 2 }
  proc
    | 0 => some (.request (.redemption ⟨joinCall, joinEnv []⟩ .begun))
    | _ => none

theorem idle_joinAt (clock : Datetime) : ∀ i, i ≠ 0 → (joinAt clock).proc i = none
  | 0, h => absurd rfl h
  | _ + 1, _ => rfl

theorem initial_joinAt (clock : Datetime) : Initial (joinAt clock) :=
  initial_of_one (p := .request (.redemption ⟨joinCall, joinEnv []⟩ .begun)) trivial rfl
    (idle_joinAt clock) (fun _ ↦ rfl) (fun _ ↦ rfl) (idsBelow_joinDb clock)

/-- The only process waits in time, if it waits. -/
def onlyInTime (c : Config Shared (Proc fullV6)) (e : ℕ × Action) : Bool :=
  e.1 = 0 && match c.proc 0 with
    | some (.request (.redemption _ ph)) =>
      (waiting ph).all fun w ↦ c.shared.clock + e.2.seconds < w.row.expiresAt
    | _ => true

theorem inTime_of_only {c : Config Shared (Proc fullV6)} {e : ℕ × Action}
    (hidle : ∀ i, i ≠ 0 → c.proc i = none) (h : onlyInTime c e = true) : InTime c e := by
  intro i r ph w hproc hw
  rw [onlyInTime, Bool.and_eq_true] at h
  by_cases hi : i = 0
  · subst hi
    have hall := h.2
    rw [hproc] at hall
    dsimp only at hall
    rw [Option.all_eq_true] at hall
    exact of_decide_eq_true (hall w hw)
  · rw [hidle i hi] at hproc
    cases hproc

theorem meets_of_only {sha256Hex : String → String} {c : Config Shared (Proc fullV6)}
    {es : List (ℕ × Action)} (hidle : ∀ i, i ≠ 0 → c.proc i = none)
    (h : Run.Meets (step sha256Hex) (fun c e ↦ onlyInTime c e = true) c es) :
    Run.Meets (step sha256Hex) InTime c es := by
  induction es generalizing c with
  | nil => trivial
  | cons e es ih =>
    refine ⟨inTime_of_only hidle h.1, fun c' hc' ↦ ih (fun i hi ↦ ?_) (h.2 c' hc')⟩
    have he : e.1 = 0 := by
      have hfirst : onlyInTime c e = true := h.1
      rw [onlyInTime, Bool.and_eq_true] at hfirst
      exact of_decide_eq_true hfirst.1
    obtain ⟨g', p', -, rfl⟩ := Config.step_eq_some.mp hc'
    have hne : i ≠ e.1 := he ▸ hi
    simp only [Function.update_of_ne hne, hidle i hi]

/-- The redemption passes its checks, waits for some time, and gets the lock. -/
def waitTrace (seconds : ℕ) : List (ℕ × Action) :=
  [(0, .act .read), (0, .tick seconds), (0, .act .lock)]

/-- The redemption has the lock of its hub. -/
def hasLock (c : Config Shared (Proc fullV6)) : Bool :=
  match c.proc 0 with
  | some (.request (.redemption _ (.locked _))) => true
  | _ => false

/-- The redemption has taken a use. -/
def hasUse (c : Config Shared (Proc fullV6)) : Bool :=
  match c.proc 0 with
  | some (.request (.redemption _ (.consumed _))) => true
  | _ => false

theorem exists_use {clock : Datetime} {seconds : ℕ}
    (hlock : (Run.run (step joinSha256Hex) (joinAt clock) (waitTrace seconds)).any hasLock = true)
    (huse : (Run.run (step joinSha256Hex) (joinAt clock)
      (waitTrace seconds ++ [(0, .act .consume)])).any hasUse = true) :
    ∃ c c' r r' w row, Run.run (step joinSha256Hex) (joinAt clock) (waitTrace seconds) = some c ∧
      c.proc 0 = some (.request (.redemption r (.locked w))) ∧
      step joinSha256Hex c (0, .act .consume) = some c' ∧
      c'.proc 0 = some (.request (.redemption r' (.consumed w))) ∧
      c.shared.tokens.get w.row.id = some row := by
  obtain ⟨c, hc, hlock⟩ := Option.any_eq_true .. |>.mp hlock
  obtain ⟨c', hc', huse⟩ := Option.any_eq_true .. |>.mp huse
  obtain ⟨m, hm, hconsume⟩ := (Run.run_append_eq_some _).mp hc'
  rw [hc, Option.some.injEq] at hm
  subst hm
  obtain ⟨c₁, hconsume, hnil⟩ := (Run.run_cons_eq_some _).mp hconsume
  cases hnil
  rw [hasLock] at hlock
  split at hlock
  · next r w hproc =>
    rw [hasUse] at huse
    split at huse
    · next r' w' hproc' =>
      obtain ⟨g', p', hstep, rfl⟩ := Config.step_eq_some.mp hconsume
      have hp' : p' = some (.request (.redemption r' (.consumed w'))) := by
        simpa only [Function.update_self] using hproc'
      subst hp'
      rcases move_of_procStep hstep with hsame | ⟨_, ph, a, -, hp, -, hmove⟩
      · have hphase := hproc.symm.trans hsame
        cases hphase
      · generalize g'.base = b at hmove
        rcases hmove with - | - | - | - | - | ⟨-, -, hconsumed⟩ | - | - | - | - | -
        have hphase := hproc.symm.trans hp
        cases hphase
        obtain ⟨row, hrow, -, -⟩ := consumeToken_eq_some_iff.mp hconsumed
        exact ⟨c, _, r, r', w, row, hc, hproc, hconsume, hproc', hrow⟩
    · cases huse
  · cases hlock

theorem uses_are_taken_in_time_ten :
    ∃ (c : Config Shared (Proc fullV6)) (w : Enroll.Lookup) (row : EnrollmentToken),
      Run.run (step joinSha256Hex) (joinAt 3000) (waitTrace 10) = some c ∧
      c.shared.tokens.get w.row.id = some row ∧ c.shared.clock < row.expiresAt := by
  have hlock : (Run.run (step joinSha256Hex) (joinAt 3000) (waitTrace 10)).any hasLock = true := by
    decide +kernel
  have huse : (Run.run (step joinSha256Hex) (joinAt 3000)
      (waitTrace 10 ++ [(0, .act .consume)])).any hasUse = true := by
    decide +kernel
  obtain ⟨c, c', r, r', w, -, hc, hproc, hconsume, htaken, -⟩ := exists_use hlock huse
  have hok : Run.Meets (step joinSha256Hex) (fun c e ↦ onlyInTime c e = true) (joinAt 3000)
      (waitTrace 10) := by
    decide +kernel
  obtain ⟨row, hrow, htime⟩ := uses_are_taken_in_time (initial_joinAt 3000)
    (meets_of_only (idle_joinAt 3000) hok) hc hproc hconsume htaken
  exact ⟨c, w, row, hc, hrow, htime⟩

/-- One second before the token expires the redemption passes its checks, and four seconds after it
takes its use. -/
theorem use_taken_after_expiry :
    ∃ (c c' : Config Shared (Proc fullV6)) (r r' : Redemption) (w : Enroll.Lookup)
      (row : EnrollmentToken), Initial (joinAt 3599) ∧
      Run.run (step joinSha256Hex) (joinAt 3599) (waitTrace 5) = some c ∧
      c.proc 0 = some (.request (.redemption r (.locked w))) ∧
      step joinSha256Hex c (0, .act .consume) = some c' ∧
      c'.proc 0 = some (.request (.redemption r' (.consumed w))) ∧
      c.shared.tokens.get w.row.id = some row ∧ row.expiresAt ≤ c.shared.clock := by
  have hlock : (Run.run (step joinSha256Hex) (joinAt 3599) (waitTrace 5)).any hasLock = true := by
    decide +kernel
  have huse : (Run.run (step joinSha256Hex) (joinAt 3599)
      (waitTrace 5 ++ [(0, .act .consume)])).any hasUse = true := by
    decide +kernel
  have hlate : (Run.run (step joinSha256Hex) (joinAt 3599) (waitTrace 5)).all (fun c ↦
      c.shared.tokens.rows.all fun row ↦ row.expiresAt ≤ c.shared.clock) = true := by
    decide +kernel
  obtain ⟨c, c', r, r', w, row, hc, hproc, hconsume, htaken, hrow⟩ := exists_use hlock huse
  rw [hc, Option.all_some, List.all_eq_true] at hlate
  exact ⟨c, c', r, r', w, row, initial_joinAt 3599, hc, hproc, hconsume, htaken, hrow,
    of_decide_eq_true (hlate row (Table.mem_of_get hrow))⟩

end WgManager.TokenLife
