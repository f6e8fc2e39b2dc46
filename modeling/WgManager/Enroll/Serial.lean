import WgManager.Enroll.Addresses
import WgManager.Enroll.AllOrNothing
import WgManager.Lib.Schedule
import Mathlib.Data.List.Permutation

/-!
# Redemptions in some order

Do redemptions that run side by side leave what they would have left one after another?  A
redemption waits for the lock of its hub so that it may allocate an address undisturbed.  But its
transaction has read the token row before that, and from then on sees the database as it was: what
others commit while it waits, it will not see when it has the lock.

In a run in which no redemption commits on an old snapshot (`CommitsCurrent`) there is such an order
(`redemptions_are_serial`).  A redemption that commits goes to the end of the order.  One that fails
goes where it has failed: to its snapshot, when `_admit` refused it there, and to the end when
something else did.  `Schedule.exists_insert` says that both can be done.  Only a redemption whose
wait for the lock runs out is in no order: by itself it would have had the lock at once.
-/

set_option autoImplicit false

namespace WgManager.Enroll

open Schedule

/-! ## One after another -/

/-- The request when nobody else has the lock: it need not wait. -/
def Redemption.alone (r : Redemption) : Redemption :=
  { r with env := { r.env with lockAcquired := true } }

/-- What request `i` leaves, when it has the database and the lock to itself. -/
def enrollAt (rs : List Redemption) (db : Db) (i : ℕ) : Db :=
  match rs[i]? with
  | none => db
  | some r => (r.alone.env.enroll db r.call).db

/-- The wait of request `i` for the lock of its hub does not run out. -/
def Granted (rs : List Redemption) (i : ℕ) : Prop :=
  ∀ r ∈ rs[i]?, r.env.lockAcquired = true

instance (rs : List Redemption) : DecidablePred (Granted rs) := fun i ↦
  inferInstanceAs (Decidable (∀ r ∈ rs[i]?, r.env.lockAcquired = true))

/-- What the transaction of a redemption leaves. -/
def Redemption.leaves (r : Redemption) (db : Db) : Db :=
  match r.env.transaction db r.call with
  | .error _ => db
  | .ok (committed, _) => committed

def leavesAt (rs : List Redemption) (db : Db) (i : ℕ) : Db :=
  match rs[i]? with
  | none => db
  | some r => r.alone.leaves db

/-- A token without its count. -/
def sansCount (row : EnrollmentToken) : EnrollmentToken := { row with useCount := 0 }

/-- Two databases have the same tokens, up to their counts. -/
def SameTokens (db db' : Db) : Prop :=
  db'.enrollmentTokens.rows.map sansCount =
    db.enrollmentTokens.rows.map sansCount

section

variable {r : Redemption} {db db' : Db} {row row' : EnrollmentToken}
  {payload payload' : EnrollRequest}

theorem alone_of_granted (h : r.env.lockAcquired = true) : r.alone = r := by
  rw [Redemption.alone, ← h]

theorem checks_eq_ok_iff : r.checks db = .ok (row, payload) ↔
    r.env.limiter = .allowed ∧ r.env.tokenChecks db r.call = .ok (row, payload) := by
  rw [Redemption.checks, bind_eq_ok_iff]
  simp [limit_eq_ok_iff]

/-- A redemption leaves the database as it is, or goes through all parts of its transaction. -/
theorem leaves_cases (r : Redemption) (db : Db) : r.leaves db = db ∨
    ∃ row payload admitted, r.checks db = .ok (row, payload) ∧
      r.env.ipamLock row.serverId = .ok () ∧ r.env.fails .consumeToken = false ∧
      (∃ tokens, consumeToken db.enrollmentTokens row.id = some tokens) ∧
      r.env.admitClient db row payload = .ok admitted ∧
      r.env.commitEnroll (withUse db row.id) row admitted.client = .ok (r.leaves db) := by
  rw [Redemption.leaves]
  split
  · exact .inl rfl
  · next committed admitted htx =>
    obtain ⟨_, hlimit, hredeem⟩ := bind_eq_ok_iff.mp htx
    obtain ⟨row, payload, tokens, hchecks, hlock, hpoint, hconsume, hadm, hcommit⟩ :=
      redeem_eq_ok_iff.mp hredeem
    obtain ⟨-, -, -, rfl⟩ := consumeToken_eq_some_iff.mp hconsume
    exact .inr ⟨row, payload, admitted, checks_eq_ok_iff.mpr ⟨limit_eq_ok_iff.mp hlimit, hchecks⟩,
      hlock, hpoint, ⟨_, hconsume⟩, hadm, hcommit⟩

/-- A redemption whose parts all succeed leaves what its commit leaves. -/
theorem leaves_of_parts {admitted : Admitted} (hchecks : r.checks db = .ok (row, payload))
    (hlock : r.env.ipamLock row.serverId = .ok ()) (hpoint : r.env.fails .consumeToken = false)
    (hadm : r.env.admitClient db row payload = .ok admitted)
    (hcommit : r.env.commitEnroll (withUse db row.id) row admitted.client = .ok db') :
    r.leaves db = db' := by
  obtain ⟨hlimit, hchecks⟩ := checks_eq_ok_iff.mp hchecks
  obtain ⟨token, -, -, hfound, ⟨hrev, -, huse⟩, -⟩ := tokenChecks_eq_ok_iff.mp hchecks
  have hredeem : r.env.redeem db r.call = .ok (db', admitted) :=
    redeem_eq_ok_iff.mpr ⟨row, payload, _, hchecks, hlock, hpoint,
      consumeToken_eq_some_iff.mpr ⟨row, get_of_findToken hfound, consumable_iff.mpr ⟨huse, hrev⟩,
        rfl⟩, hadm, hcommit⟩
  have htx : r.env.transaction db r.call = .ok (db', admitted) :=
    bind_eq_ok_iff.mpr ⟨(), limit_eq_ok_iff.mpr hlimit, hredeem⟩
  rw [Redemption.leaves, htx]

/-! ## What redemptions do to the tables -/

theorem leaves_eq_or_length (r : Redemption) (db : Db) : r.leaves db = db ∨
    (r.leaves db).clients.rows.length = db.clients.rows.length + 1 := by
  rcases leaves_cases r db with h | ⟨row, payload, admitted, -, -, -, -, -, hcommit⟩
  · exact .inl h
  · obtain ⟨hfree, -, -, hdb⟩ := withEnrolled_of_commit hcommit
    rw [hdb, EnrollEnv.withEnrolled_clients, Table.rows_insert hfree]
    simp

theorem sameTokens_leaves (r : Redemption) (db : Db) : SameTokens db (r.leaves db) := by
  rcases leaves_cases r db with h | ⟨row, payload, admitted, -, -, -, -, -, hcommit⟩
  · rw [h]
    rfl
  · obtain ⟨-, -, -, hdb⟩ := withEnrolled_of_commit hcommit
    rw [hdb, SameTokens, EnrollEnv.withEnrolled_enrollmentTokens, Table.modify, List.map_map]
    refine List.map_congr_left fun t _ ↦ ?_
    rw [Function.comp_apply]
    split <;> rfl

/-- Along an order the client table only grows, and where it has not grown nothing has happened. -/
theorem length_le_foldl (rs : List Redemption) (order : List ℕ) (db : Db) :
    db.clients.rows.length ≤ (order.foldl (leavesAt rs) db).clients.rows.length ∧
      (db.clients.rows.length = (order.foldl (leavesAt rs) db).clients.rows.length →
        order.foldl (leavesAt rs) db = db) := by
  induction order generalizing db with
  | nil => exact ⟨le_refl _, fun _ ↦ rfl⟩
  | cons i order ih =>
    rw [List.foldl_cons]
    have hone : leavesAt rs db i = db ∨
        (leavesAt rs db i).clients.rows.length = db.clients.rows.length + 1 := by
      rw [leavesAt]
      split
      · exact .inl rfl
      · exact leaves_eq_or_length _ db
    obtain ⟨hle, heq⟩ := ih (leavesAt rs db i)
    rcases hone with hsame | hmore
    · rw [hsame] at hle heq ⊢
      exact ⟨hle, heq⟩
    · exact ⟨by omega, fun h ↦ absurd h (by omega)⟩

theorem sameTokens_foldl {rs : List Redemption} (order : List ℕ) (db : Db) :
    SameTokens db (order.foldl (leavesAt rs) db) := by
  induction order generalizing db with
  | nil => rfl
  | cons i order ih =>
    have hone : SameTokens db (leavesAt rs db i) := by
      rw [leavesAt]
      split
      · rfl
      · exact sameTokens_leaves _ db
    exact (ih (leavesAt rs db i)).trans hone

/-! ## A redemption that fails would have failed -/

/-- Tokens that are the same up to their counts are found alike. -/
theorem findToken_sansCount (lib : TokenLibrary) (db : Db) (token : String) :
    (findToken lib db.enrollmentTokens token).map sansCount =
      (db.enrollmentTokens.rows.map sansCount).find? fun row ↦
        row.tokenHash == lib.sha256Hex token := by
  rw [findToken, List.find?_map]
  rfl

/-- What of a token row a redemption goes on with. -/
theorem eq_of_sansCount (h : sansCount row' = sansCount row) :
    row'.id = row.id ∧ row'.serverId = row.serverId ∧ row'.namePrefix = row.namePrefix := by
  rw [sansCount, sansCount, EnrollmentToken.mk.injEq] at h
  obtain ⟨hid, -, hserver, -, -, hnaming, -⟩ := h
  exact ⟨hid, hserver, hnaming⟩

/-- What the checks of one request yield on two databases with the same tokens. -/
theorem checks_sansCount (hsame : SameTokens db db') (h : r.checks db = .ok (row, payload))
    (h' : r.checks db' = .ok (row', payload')) :
    sansCount row' = sansCount row ∧ payload' = payload := by
  obtain ⟨token, htoken, -, hfound, -, -, hbody⟩ :=
    tokenChecks_eq_ok_iff.mp (checks_eq_ok_iff.mp h).2
  obtain ⟨token', htoken', -, hfound', -, -, hbody'⟩ :=
    tokenChecks_eq_ok_iff.mp (checks_eq_ok_iff.mp h').2
  rw [htoken, Option.some.injEq] at htoken'
  subst htoken'
  have hmap := findToken_sansCount r.env.lib db' token
  rw [hsame, ← findToken_sansCount, hfound, hfound'] at hmap
  rw [hbody, Option.some.injEq] at hbody'
  exact ⟨by simpa using hmap, hbody'.symm⟩

/-- The conditions under which the commit of a redemption succeeds do not depend on the snapshot. -/
theorem commitEnroll_of_admitClient {admitted admitted' : Admitted} {snap : Db}
    (hsame : sansCount row' = sansCount row)
    (hadm : r.env.admitClient snap row payload = .ok admitted)
    (hadm' : r.env.admitClient db row' payload = .ok admitted')
    (hcommit : r.env.commitEnroll (withUse db row'.id) row' admitted'.client = .ok db') :
    ∃ db'', r.env.commitEnroll (withUse db row.id) row admitted.client = .ok db'' := by
  obtain ⟨-, -, hnaming⟩ := eq_of_sansCount hsame
  obtain ⟨server, address, cert, -, rfl⟩ := admitClient_eq_ok_iff.mp hadm
  obtain ⟨server', address', cert', -, rfl⟩ := admitClient_eq_ok_iff.mp hadm'
  obtain ⟨hpoints, hkey, hname, haudit, -⟩ := commitEnroll_eq_ok_iff.mp hcommit
  refine ⟨_, commitEnroll_eq_ok_iff.mpr ⟨hpoints, hkey, ?_, haudit, rfl⟩⟩
  intro c hc
  have := hname c hc
  simpa only [EnrollEnv.enrolledClient, hnaming] using this

/-- A redemption that has been refused the lock, or its use, or its commit, leaves the database as
it is when it has it to itself. -/
theorem leaves_of_failed {snap : Db} (hsame : SameTokens snap db)
    (hchecks : r.checks snap = .ok (row, payload))
    (hfailed : (∃ e, r.env.ipamLock row.serverId = .error e) ∨
      r.env.fails .consumeToken = true ∨ consumeToken db.enrollmentTokens row.id = none ∨
      ∃ admitted e, r.env.admitClient snap row payload = .ok admitted ∧
        r.env.commitEnroll (withUse db row.id) row admitted.client = .error e) :
    r.leaves db = db := by
  rcases leaves_cases r db with
    h | ⟨row', payload', admitted', hchecks', hlock, hpoint, ⟨tokens, hconsume⟩, hadm, hcommit⟩
  · exact h
  obtain ⟨hrow, rfl⟩ := checks_sansCount hsame hchecks hchecks'
  obtain ⟨hid, hserver, -⟩ := eq_of_sansCount hrow
  rcases hfailed with ⟨e, he⟩ | hfail | hnone | ⟨admitted, e, hadmitted, he⟩
  · rw [hserver, he] at hlock
    cases hlock
  · rw [hpoint] at hfail
    cases hfail
  · rw [hid, hnone] at hconsume
    cases hconsume
  · obtain ⟨db'', hdb''⟩ := commitEnroll_of_admitClient hrow hadmitted hadm hcommit
    rw [hdb''] at he
    cases he

theorem leaves_of_refused {e : Rejection} (h : r.checks db = .error e) : r.leaves db = db := by
  rcases leaves_cases r db with hsame | ⟨row, payload, admitted, hchecks, -⟩
  · exact hsame
  · rw [hchecks] at h
    cases h

theorem leaves_of_notAdmitted {e : Rejection} (hchecks : r.checks db = .ok (row, payload))
    (h : r.env.admitClient db row payload = .error e) : r.leaves db = db := by
  rcases leaves_cases r db with hsame | ⟨row', payload', admitted, hchecks', -, -, -, hadm, -⟩
  · exact hsame
  · rw [hchecks, Except.ok.injEq, Prod.mk.injEq] at hchecks'
    obtain ⟨rfl, rfl⟩ := hchecks'
    rw [hadm] at h
    cases h

end

/-! ## A redemption on its own -/

section

variable {i : ℕ} {r : Redemption} {g g' : Shared} {ph ph' : Phase}

/-- A run of a redemption in which no other process takes a step. -/
abbrev Redemption.runAlone (r : Redemption) (i : ℕ) :
    Shared × Phase → List Action → Option (Shared × Phase) :=
  Run.run fun s a ↦ redemptionStep i s.1 r s.2 a

/-- It is a run of the system. -/
theorem run_of_runAlone {c : Config Shared Proc} {as : List Action}
    (hproc : c.proc i = some (.redemption r ph))
    (h : r.runAlone i (c.shared, ph) as = some (g', ph')) :
    Run.run step c (as.map fun a ↦ (i, a)) =
      some ⟨g', Function.update c.proc i (some (.redemption r ph'))⟩ := by
  induction as generalizing c ph with
  | nil =>
    cases h
    rw [List.map_nil, Run.run_nil, ← hproc, Function.update_eq_self]
  | cons a as ih =>
    obtain ⟨⟨g₁, ph₁⟩, hstep, hrest⟩ := (Run.run_cons_eq_some _).mp h
    rw [List.map_cons, Run.run_cons_eq_some]
    refine ⟨_, Config.step_eq_some.mpr ⟨g₁, some (.redemption r ph₁), ?_, rfl⟩, ?_⟩
    · rw [hproc, procStep, hstep, Option.map_some]
    · rw [ih (Function.update_self ..) hrest, Function.update_idem]

/-- A lock that is taken and given back is as it was. -/
theorem unlockIpam_lockIpam {k : ℕ} (hfree : g.ipam k = none) :
    (g.lockIpam i k).unlockIpam k = g := by
  rw [Shared.unlockIpam, Shared.lockIpam, Function.update_idem, ← hfree, Function.update_eq_self]

theorem unlockRow_lockRow {k : ℕ} (hfree : g.rows k = none) :
    (g.lockRow i k).unlockRow k = g := by
  rw [Shared.unlockRow, Shared.lockRow, Function.update_idem, ← hfree, Function.update_eq_self]

/-- From here a redemption that nothing runs beside comes to its end, and leaves `g'`. -/
def Redemption.EndsAlone (r : Redemption) (i : ℕ) (g : Shared) (ph : Phase) (g' : Shared) : Prop :=
  ∃ as enrolled, r.runAlone i (g, ph) as = some (g', .done enrolled)

theorem endsAlone_of_done (enrolled : Bool) : r.EndsAlone i g (.done enrolled) g :=
  ⟨[], enrolled, rfl⟩

theorem endsAlone_of_step {g₁ : Shared} {ph₁ : Phase} {a : Action}
    (hstep : redemptionStep i g r ph a = some (g₁, ph₁)) (h : r.EndsAlone i g₁ ph₁ g') :
    r.EndsAlone i g ph g' := by
  obtain ⟨as, enrolled, h⟩ := h
  exact ⟨a :: as, enrolled, (Run.run_cons_eq_some _).mpr ⟨_, hstep, h⟩⟩

variable {row : EnrollmentToken} {payload : EnrollRequest}

/-- With both locks, and the use of the token taken. -/
theorem endsAlone_of_consumed (hipam : g.ipam row.serverId = none) (hrows : g.rows row.id = none)
    (hchecks : r.checks g.db = .ok (row, payload)) (hlock : r.env.ipamLock row.serverId = .ok ())
    (hpoint : r.env.fails .consumeToken = false) :
    r.EndsAlone i ((g.lockIpam i row.serverId).lockRow i row.id) (.consumed ⟨g.db, row, payload⟩)
      (g.commit (r.leaves g.db)) := by
  have hback : (((g.lockIpam i row.serverId).lockRow i row.id).unlockRow row.id).unlockIpam
      row.serverId = g := by
    rw [unlockRow_lockRow (show (g.lockIpam i row.serverId).rows row.id = none from hrows),
      unlockIpam_lockIpam hipam]
  rcases hadm : r.env.admitClient g.db row payload with e | admitted
  · rw [leaves_of_notAdmitted hchecks hadm]
    refine endsAlone_of_step (a := .admitClient) ?_ (endsAlone_of_done false)
    rw [redemptionStep, hadm]
    exact congrArg (fun g : Shared ↦ some (g, Phase.done false)) hback
  · refine endsAlone_of_step (a := .admitClient) (by rw [redemptionStep, hadm]) ?_
    -- the locks are none of the committed rows
    have hdb : ((g.lockIpam i row.serverId).lockRow i row.id).db = g.db := rfl
    rcases hcommit : r.env.commitEnroll (withUse g.db row.id) row admitted.client with e | db
    · rw [leaves_of_failed rfl hchecks (.inr (.inr (.inr ⟨admitted, e, hadm, hcommit⟩)))]
      refine endsAlone_of_step (a := .commit) ?_ (endsAlone_of_done false)
      rw [redemptionStep, hdb, hcommit]
      exact congrArg (fun g : Shared ↦ some (g, Phase.done false)) hback
    · rw [leaves_of_parts hchecks hlock hpoint hadm hcommit]
      refine endsAlone_of_step (a := .commit) (by rw [redemptionStep, hdb, hcommit]) ?_
      refine endsAlone_of_step (a := .release) ?_ (endsAlone_of_done true)
      rw [redemptionStep]
      exact congrArg (fun g : Shared ↦ some (g.commit db, Phase.done true)) hback

/-- **A redemption on its own** comes to its end, gives the locks back, and leaves what its
transaction leaves of the database that it has found. -/
theorem endsAlone_of_begun (i : ℕ) (r : Redemption) (hipam : ∀ k, g.ipam k = none)
    (hrows : ∀ k, g.rows k = none) : r.EndsAlone i g .begun (g.commit (r.leaves g.db)) := by
  rcases hchecks : r.checks g.db with e | ⟨row, payload⟩
  · rw [leaves_of_refused hchecks]
    refine endsAlone_of_step (a := .read) ?_ (endsAlone_of_done false)
    rw [redemptionStep, hchecks]
    rfl
  refine endsAlone_of_step (a := .read) (by rw [redemptionStep, hchecks]) ?_
  rcases hlock : r.env.ipamLock row.serverId with e | _
  · rw [leaves_of_failed rfl hchecks (.inl ⟨e, hlock⟩)]
    refine endsAlone_of_step (a := .lock) ?_ (endsAlone_of_done false)
    rw [redemptionStep, hlock]
    rfl
  refine endsAlone_of_step (a := .lock) (by
    rw [redemptionStep, hlock]
    exact if_pos (hipam row.serverId)) ?_
  have hunlocked := unlockIpam_lockIpam (i := i) (hipam row.serverId)
  rcases hpoint : r.env.fails .consumeToken with _ | _
  · rcases hconsume : consumeToken g.db.enrollmentTokens row.id with _ | tokens
    · rw [leaves_of_failed rfl hchecks (.inr (.inr (.inl hconsume)))]
      refine endsAlone_of_step (a := .consume) ?_ (endsAlone_of_done false)
      simp only [redemptionStep, hpoint, Shared.lockIpam_rows, hrows, Shared.lockIpam_db, hconsume,
        hunlocked, Bool.false_eq_true, if_true, if_false]
      rfl
    · refine endsAlone_of_step (a := .consume) ?_
        (endsAlone_of_consumed (hipam _) (hrows _) hchecks hlock hpoint)
      simp only [redemptionStep, hpoint, Shared.lockIpam_rows, hrows, Shared.lockIpam_db, hconsume,
        Bool.false_eq_true, if_true, if_false]
  · rw [leaves_of_failed rfl hchecks (.inr (.inl hpoint))]
    refine endsAlone_of_step (a := .consume) ?_ (endsAlone_of_done false)
    simp only [redemptionStep, hpoint, if_true, hunlocked]
    rfl

end

/-! ## The order so far -/

/-- Requests that have not begun. -/
def redemptions (db : Db) (rs : List Redemption) : Config Shared Proc where
  shared := { db }
  proc i := rs[i]?.map fun r ↦ .redemption r .begun

/-- A redemption commits only when its snapshot shows all clients there are. -/
def CommitsCurrent (c : Config Shared Proc) (e : ℕ × Action) : Prop :=
  e.2 = .commit → ∀ snap ∈ (c.proc e.1).bind Proc.snapshot,
    snap.clients.rows = c.shared.db.clients.rows

instance (c : Config Shared Proc) (e : ℕ × Action) : Decidable (CommitsCurrent c e) :=
  inferInstanceAs (Decidable (e.2 = .commit → ∀ snap ∈ (c.proc e.1).bind Proc.snapshot,
    snap.clients.rows = c.shared.db.clients.rows))

/-- The transaction has ended. -/
def Phase.finished : Phase → Bool
  | .committed _ | .done _ => true
  | _ => false

def Finished (c : Config Shared Proc) (i : ℕ) : Prop :=
  ∃ r ph, c.proc i = some (.redemption r ph) ∧ ph.finished = true

theorem any_finished_iff {c : Config Shared Proc} {i : ℕ} :
    ((c.proc i).bind Proc.phase).any Phase.finished = true ↔ Finished c i := by
  constructor
  · intro h
    obtain ⟨ph, hph, hfinished⟩ := Option.any_eq_true _ _ |>.mp h
    obtain ⟨p, hproc, hp⟩ := Option.bind_eq_some_iff.mp hph
    cases p with
    | redemption r ph' => cases hp; exact ⟨r, ph, hproc, hfinished⟩
    | request => cases hp
  · rintro ⟨r, ph, hproc, hfinished⟩
    rw [hproc]
    exact hfinished

instance (c : Config Shared Proc) (i : ℕ) : Decidable (Finished c i) :=
  decidable_of_iff _ any_finished_iff

/-- What a redemption has established on its snapshot. -/
def PhaseOk (r : Redemption) : Phase → Prop
  | .checked w => r.checks w.snap = .ok (w.row, w.payload)
  | .locked w => r.checks w.snap = .ok (w.row, w.payload) ∧
      r.env.ipamLock w.row.serverId = .ok ()
  | .consumed w => r.checks w.snap = .ok (w.row, w.payload) ∧
      r.env.ipamLock w.row.serverId = .ok () ∧ r.env.fails .consumeToken = false
  | .admitted w a => r.checks w.snap = .ok (w.row, w.payload) ∧
      r.env.ipamLock w.row.serverId = .ok () ∧ r.env.fails .consumeToken = false ∧
      r.env.admitClient w.snap w.row w.payload = .ok a
  | _ => True

/-- The finished redemptions whose wait did not run out, in `order`, leave what is committed, and
the snapshots of the others are states on the way. -/
structure InOrder (rs : List Redemption) (db₀ : Db) (c : Config Shared Proc) (order : List ℕ) :
    Prop where
  nodup : order.Nodup
  mem_iff : ∀ i, i ∈ order ↔ Finished c i ∧ Granted rs i
  db : order.foldl (leavesAt rs) db₀ = c.shared.db
  proc : ∀ i p, c.proc i = some p → ∃ r ph, p = .redemption r ph ∧ rs[i]? = some r ∧
    PhaseOk r ph ∧ ∀ snap ∈ p.snapshot, Passed (leavesAt rs) db₀ order snap

section

variable {rs : List Redemption} {db₀ : Db} {c c' : Config Shared Proc} {order order' : List ℕ}
  {i : ℕ} {r : Redemption} {ph ph' : Phase} {g' : Shared}

theorem finished_update_iff {j : ℕ} (hj : j ≠ i) {p' : Option Proc} :
    Finished ⟨g', Function.update c.proc i p'⟩ j ↔ Finished c j := by
  simp only [Finished, Function.update_of_ne hj]

theorem finished_iff_of_proc (hproc : c.proc i = some (.redemption r ph)) :
    Finished c i ↔ ph.finished = true := by
  constructor
  · rintro ⟨_, _, hq, hdone⟩
    rw [hproc] at hq
    cases hq
    exact hdone
  · intro hdone
    exact ⟨r, ph, hproc, hdone⟩

theorem finished_self_iff :
    Finished ⟨g', Function.update c.proc i (some (.redemption r ph'))⟩ i ↔
      ph'.finished = true :=
  finished_iff_of_proc (Function.update_self i _ c.proc)

theorem snapshot_of_finished (h : ph'.finished = true) :
    PhaseOk r ph' ∧ (Proc.redemption r ph').snapshot = none := by
  cases ph' <;> first | exact ⟨trivial, rfl⟩ | cases h

theorem InOrder.own (h : InOrder rs db₀ c order) (hproc : c.proc i = some (.redemption r ph)) :
    rs[i]? = some r ∧ PhaseOk r ph ∧
      ∀ snap ∈ (Proc.redemption r ph).snapshot, Passed (leavesAt rs) db₀ order snap := by
  obtain ⟨_, _, hq, hown⟩ := h.proc i _ hproc
  cases hq
  exact hown

/-- What the order asks of the processes, after `i` has moved. -/
theorem InOrder.proc_update (h : InOrder rs db₀ c order)
    (hproc : c.proc i = some (.redemption r ph))
    (hpass : ∀ s, Passed (leavesAt rs) db₀ order s → Passed (leavesAt rs) db₀ order' s)
    (hph : PhaseOk r ph')
    (hsnap : ∀ snap ∈ (Proc.redemption r ph').snapshot, Passed (leavesAt rs) db₀ order' snap)
    (j : ℕ) (p : Proc) (hp : Function.update c.proc i (some (.redemption r ph')) j = some p) :
    ∃ r ph, p = .redemption r ph ∧ rs[j]? = some r ∧ PhaseOk r ph ∧
      ∀ snap ∈ p.snapshot, Passed (leavesAt rs) db₀ order' snap := by
  by_cases hj : j = i
  · subst hj
    rw [Function.update_self] at hp
    cases hp
    exact ⟨r, ph', rfl, (h.own hproc).1, hph, hsnap⟩
  · rw [Function.update_of_ne hj] at hp
    obtain ⟨r', ph'', hq, hr, hph', hsnap'⟩ := h.proc j p hp
    exact ⟨r', ph'', hq, hr, hph', fun snap hs ↦ hpass snap (hsnap' snap hs)⟩

/-- A step that ends no transaction leaves the order as it is. -/
theorem inOrder_stay (h : InOrder rs db₀ c order) (hproc : c.proc i = some (.redemption r ph))
    (hfin : ph'.finished = ph.finished) (hdb : g'.db = c.shared.db) (hph : PhaseOk r ph')
    (hsnap : ∀ snap ∈ (Proc.redemption r ph').snapshot, Passed (leavesAt rs) db₀ order snap) :
    InOrder rs db₀ ⟨g', Function.update c.proc i (some (.redemption r ph'))⟩ order := by
  refine ⟨h.nodup, fun j ↦ ?_, by rw [h.db, hdb],
    h.proc_update hproc (fun _ hs ↦ hs) hph hsnap⟩
  rw [h.mem_iff]
  refine and_congr_left fun _ ↦ ?_
  by_cases hj : j = i
  · subst hj
    rw [finished_self_iff, hfin, finished_iff_of_proc hproc]
  · rw [finished_update_iff hj]

/-- A request whose wait has run out leaves nothing, and is in no order. -/
theorem inOrder_drop (h : InOrder rs db₀ c order) (hproc : c.proc i = some (.redemption r ph))
    (hnot : r.env.lockAcquired ≠ true) (hfin : ph'.finished = true) (hdb : g'.db = c.shared.db) :
    InOrder rs db₀ ⟨g', Function.update c.proc i (some (.redemption r ph'))⟩ order := by
  obtain ⟨hph, hsnap⟩ := snapshot_of_finished (r := r) hfin
  refine ⟨h.nodup, fun j ↦ ?_, by rw [h.db, hdb],
    h.proc_update hproc (fun _ hs ↦ hs) hph (by rw [hsnap]; rintro _ ⟨⟩)⟩
  rw [h.mem_iff]
  refine and_congr_left fun hgranted ↦ ?_
  have hj : j ≠ i := by
    rintro rfl
    exact hnot (hgranted r (h.own hproc).1)
  rw [finished_update_iff hj]

/-- A step that ends the transaction of `i` adds it to the order. -/
theorem inOrder_finish (h : InOrder rs db₀ c order) (hproc : c.proc i = some (.redemption r ph))
    (hgranted : r.env.lockAcquired = true) (hrunning : ph.finished = false)
    (hfin : ph'.finished = true)
    (hperm : order'.Perm (i :: order)) (hdb : order'.foldl (leavesAt rs) db₀ = g'.db)
    (hpass : ∀ s, Passed (leavesAt rs) db₀ order s → Passed (leavesAt rs) db₀ order' s) :
    InOrder rs db₀ ⟨g', Function.update c.proc i (some (.redemption r ph'))⟩ order' := by
  have hnew : i ∉ order := by
    rw [h.mem_iff, finished_iff_of_proc hproc, hrunning]
    exact fun hmem ↦ Bool.false_ne_true hmem.1
  obtain ⟨hph, hsnap⟩ := snapshot_of_finished (r := r) hfin
  refine ⟨hperm.nodup_iff.mpr (List.nodup_cons.mpr ⟨hnew, h.nodup⟩), fun j ↦ ?_, hdb,
    h.proc_update hproc hpass hph (by rw [hsnap]; rintro _ ⟨⟩)⟩
  rw [hperm.mem_iff, List.mem_cons]
  by_cases hj : j = i
  · subst hj
    rw [finished_self_iff]
    refine iff_of_true (.inl rfl) ⟨hfin, fun r' hr' ↦ ?_⟩
    rw [(h.own hproc).1, Option.mem_some_iff] at hr'
    exact hr' ▸ hgranted
  · rw [finished_update_iff hj, ← h.mem_iff]
    simp [hj]

/-- A transaction that ends without effect is placed at a state in which it has none. -/
theorem inOrder_idle {s : Db} (h : InOrder rs db₀ c order)
    (hproc : c.proc i = some (.redemption r ph)) (hgranted : r.env.lockAcquired = true)
    (hrunning : ph.finished = false) (hfin : ph'.finished = true) (hdb : g'.db = c.shared.db)
    (hs : Passed (leavesAt rs) db₀ order s) (hidle : r.leaves s = s) :
    ∃ order', InOrder rs db₀ ⟨g', Function.update c.proc i (some (.redemption r ph'))⟩ order' := by
  have hone : leavesAt rs s i = s := by
    rw [leavesAt, (h.own hproc).1]
    dsimp only
    rw [alone_of_granted hgranted]
    exact hidle
  obtain ⟨order', hperm, hfold, hpass⟩ := exists_insert hs hone
  exact ⟨order',
    inOrder_finish h hproc hgranted hrunning hfin hperm (by rw [hfold, h.db, hdb]) hpass⟩

/-- Between a snapshot and what is committed now there are only redemptions. -/
theorem sameTokens_of_passed {snap : Db} (h : InOrder rs db₀ c order)
    (hsnap : Passed (leavesAt rs) db₀ order snap) : SameTokens snap c.shared.db := by
  obtain ⟨rest, hrest⟩ := hsnap.exists_rest
  rw [← h.db, ← hrest]
  exact sameTokens_foldl rest snap

/-- A snapshot that shows all clients there are is what is committed now. -/
theorem eq_of_passed {snap : Db} (h : InOrder rs db₀ c order)
    (hsnap : Passed (leavesAt rs) db₀ order snap)
    (hrows : snap.clients.rows = c.shared.db.clients.rows) : c.shared.db = snap := by
  obtain ⟨rest, hrest⟩ := hsnap.exists_rest
  rw [h.db] at hrest
  have hlength := (length_le_foldl rs rest snap).2
  rw [hrest, hrows] at hlength
  exact hlength rfl

theorem inOrder_step {e : ℕ × Action} (h : InOrder rs db₀ c order) (hok : CommitsCurrent c e)
    (hstep : step c e = some c') : ∃ order', InOrder rs db₀ c' order' := by
  obtain ⟨i, a⟩ := e
  obtain ⟨g', p', hf, rfl⟩ := Config.step_eq_some.mp hstep
  dsimp only at hf ⊢
  rcases procStep_cases hf with ⟨r, ph, ph', hproc, rfl, hmove⟩ | ⟨q, st, st', hproc, -⟩
  · obtain ⟨hr, hph, hsnap⟩ := h.own hproc
    have hnow : Passed (leavesAt rs) db₀ order c.shared.db := h.db ▸ passed_self
    have hgranted {serverId : ℕ} (hlock : r.env.ipamLock serverId = .ok ()) :
        r.env.lockAcquired = true := (ipamLock_eq_ok_iff.mp hlock).2.2
    cases hmove with
    | refused hchecks =>
      by_cases hlock : r.env.lockAcquired = true
      · exact inOrder_idle h hproc hlock rfl rfl rfl hnow (leaves_of_refused hchecks)
      · exact ⟨order, inOrder_drop h hproc hlock rfl rfl⟩
    | read hchecks =>
      refine ⟨order, inOrder_stay h hproc rfl rfl hchecks ?_⟩
      rintro _ ⟨⟩
      exact hnow
    | @notAcquired w e hlock =>
      by_cases hlock' : r.env.lockAcquired = true
      · exact inOrder_idle h hproc hlock' rfl rfl rfl hnow (leaves_of_failed
          (sameTokens_of_passed h (hsnap _ rfl)) hph (.inl ⟨e, hlock⟩))
      · exact ⟨order, inOrder_drop h hproc hlock' rfl rfl⟩
    | lock hlock free => exact ⟨order, inOrder_stay h hproc rfl rfl ⟨hph, hlock⟩ hsnap⟩
    | rejected hrejected =>
      exact inOrder_idle h hproc (hgranted hph.2) rfl rfl rfl hnow (leaves_of_failed
        (sameTokens_of_passed h (hsnap _ rfl)) hph.1 (.inr (hrejected.imp_right .inl)))
    | consume point free hconsume =>
      exact ⟨order, inOrder_stay h hproc rfl rfl ⟨hph.1, hph.2, point⟩ hsnap⟩
    | notAdmitted hadm =>
      exact inOrder_idle h hproc (hgranted hph.2.1) rfl rfl rfl (hsnap _ rfl)
        (leaves_of_notAdmitted hph.1 hadm)
    | admitClient hadm =>
      exact ⟨order, inOrder_stay h hproc rfl rfl ⟨hph.1, hph.2.1, hph.2.2, hadm⟩ hsnap⟩
    | @rolledBack w a e hcommit =>
      exact inOrder_idle h hproc (hgranted hph.2.1) rfl rfl rfl hnow (leaves_of_failed
        (sameTokens_of_passed h (hsnap _ rfl)) hph.1
        (.inr (.inr (.inr ⟨a, e, hph.2.2.2, hcommit⟩))))
    | @commit w a db hcommit =>
      have hrows : w.snap.clients.rows = c.shared.db.clients.rows := by
        refine hok rfl w.snap ?_
        dsimp only
        rw [hproc]
        rfl
      have heq := eq_of_passed h (hsnap _ rfl) hrows
      obtain ⟨hchecks, hlock, hpoint, hadm⟩ := hph
      rw [← heq] at hchecks hadm
      have hleaves := leaves_of_parts hchecks hlock hpoint hadm hcommit
      refine ⟨order ++ [i], inOrder_finish h hproc (hgranted hlock) rfl rfl
        (List.perm_append_singleton i order) ?_ fun s hs ↦ hs.append i⟩
      rw [List.foldl_append, h.db, List.foldl_cons, List.foldl_nil, leavesAt, hr]
      dsimp only
      rw [alone_of_granted (hgranted hlock)]
      exact hleaves
    | release => exact ⟨order, inOrder_stay h hproc rfl rfl trivial (by rintro _ ⟨⟩)⟩
  · obtain ⟨_, _, hq, -⟩ := h.proc i _ hproc
    cases hq

theorem inOrder_run {es : List (ℕ × Action)}
    (hok : Run.Meets step CommitsCurrent (redemptions db₀ rs) es)
    (h : Run.run step (redemptions db₀ rs) es = some c) : ∃ order, InOrder rs db₀ c order := by
  refine Run.run_invariant (I := fun s ↦ ∃ order, InOrder rs db₀ s order) ?_ ?_ hok h
  · rintro s e s' ⟨order, hs⟩ hok hstep
    exact inOrder_step hs hok hstep
  · refine ⟨[], List.nodup_nil, fun i ↦ ?_, rfl, fun i p hp ↦ ?_⟩
    · refine iff_of_false List.not_mem_nil ?_
      rintro ⟨⟨r, ph, hproc, hfin⟩, -⟩
      obtain ⟨_, -, ⟨⟩⟩ := Option.map_eq_some_iff.mp hproc
      cases hfin
    · obtain ⟨r, hr, rfl⟩ := Option.map_eq_some_iff.mp hp
      exact ⟨r, .begun, rfl, hr, trivial, by rintro _ ⟨⟩⟩

end

/-! ## With the rest of the handler

After its commit a redemption bumps the generation of its hub.  No redemption looks at it. -/

/-- A hub without its generations. -/
def sansGeneration (server : Server) : Server :=
  { server with reconfigRequestedGen := 0, reconfigAppliedGen := 0 }

/-- Two databases are the same up to the generations of the hubs. -/
structure SameRows (db db' : Db) : Prop where
  clients : db'.clients = db.clients
  enrollmentTokens : db'.enrollmentTokens = db.enrollmentTokens
  auditEvents : db'.auditEvents = db.auditEvents
  servers : ∀ id, (db'.servers.get id).map sansGeneration = (db.servers.get id).map sansGeneration

section

variable {db db' db'' : Db} {r : Redemption}

theorem SameRows.refl (db : Db) : SameRows db db := ⟨rfl, rfl, rfl, fun _ ↦ rfl⟩

theorem SameRows.symm (h : SameRows db db') : SameRows db' db :=
  ⟨h.clients.symm, h.enrollmentTokens.symm, h.auditEvents.symm, fun id ↦ (h.servers id).symm⟩

theorem SameRows.trans (h : SameRows db db') (h' : SameRows db' db'') : SameRows db db'' :=
  ⟨h'.clients.trans h.clients, h'.enrollmentTokens.trans h.enrollmentTokens,
    h'.auditEvents.trans h.auditEvents, fun id ↦ (h'.servers id).trans (h.servers id)⟩

theorem SameRows.withEnrolled (h : SameRows db db') (env : EnrollEnv) (row : EnrollmentToken)
    (client : Client) :
    SameRows (env.withEnrolled db row client) (env.withEnrolled db' row client) := by
  refine ⟨?_, ?_, ?_, h.servers⟩
  · rw [EnrollEnv.withEnrolled_clients, EnrollEnv.withEnrolled_clients, h.clients]
  · rw [EnrollEnv.withEnrolled_enrollmentTokens, EnrollEnv.withEnrolled_enrollmentTokens,
      h.enrollmentTokens]
  · rw [EnrollEnv.withEnrolled_auditEvents, EnrollEnv.withEnrolled_auditEvents, h.auditEvents]

/-- `_admit` does not look at generations. -/
theorem SameRows.admitClient (h : SameRows db db') {env : EnrollEnv} {row : EnrollmentToken}
    {payload : EnrollRequest} {a : Admitted} (hadm : env.admitClient db row payload = .ok a) :
    ∃ a', env.admitClient db' row payload = .ok a' ∧ a'.client = a.client := by
  obtain ⟨server, address, cert, hok, rfl⟩ := admitClient_eq_ok_iff.mp hadm
  have hserver := h.servers row.serverId
  rw [hok.hub, Option.map_some, Option.map_eq_some_iff] at hserver
  obtain ⟨server', hget, hsans⟩ := hserver
  have hready : server'.status = .ready :=
    (congrArg Server.status hsans).trans hok.ready
  have hallocate : allocateClientIp db'.clients server' = some address := by
    rw [h.clients]
    calc allocateClientIp db.clients server'
        = allocateClientIp db.clients (sansGeneration server') := rfl
      _ = allocateClientIp db.clients server := by rw [hsans]; rfl
      _ = some address := hok.address_free
  have hclient : env.enrolledClient row payload server' address cert =
      env.enrolledClient row payload server address cert := by
    calc env.enrolledClient row payload server' address cert
        = env.enrolledClient row payload (sansGeneration server') address cert := rfl
      _ = env.enrolledClient row payload server address cert := by rw [hsans]; rfl
  refine ⟨_, admitClient_eq_ok_iff.mpr ⟨server', address, cert, ⟨hget, hready, ?_, ?_, hallocate,
    hok.signed, hok.queries⟩, rfl⟩, hclient⟩
  · rw [h.clients]
    exact hok.name_free
  · rw [h.clients]
    exact hok.key_free

/-- A redemption that enrolls a client in one database enrolls it in the other. -/
theorem SameRows.leaves_of_ne (h : SameRows db db') (hne : r.leaves db ≠ db) :
    SameRows (r.leaves db) (r.leaves db') := by
  rcases leaves_cases r db with
    hsame | ⟨row, payload, a, hchecks, hlock, hpoint, -, hadm, hcommit⟩
  · exact absurd hsame hne
  have hchecks' : r.checks db' = .ok (row, payload) := by
    rw [← hchecks]
    simp only [Redemption.checks, EnrollEnv.tokenChecks, h.enrollmentTokens]
  obtain ⟨a', hadm', hclient⟩ := h.admitClient hadm
  obtain ⟨hpoints, hkey, hname, haudit, -⟩ := commitEnroll_eq_ok_iff.mp hcommit
  have hcommit' : r.env.commitEnroll (withUse db' row.id) row a'.client =
      .ok (r.env.withEnrolled db' row a.client) := by
    rw [hclient]
    refine commitEnroll_eq_ok_iff.mpr ⟨hpoints, ?_, ?_, ?_, rfl⟩
    · exact h.clients ▸ hkey
    · exact h.clients ▸ hname
    · exact h.auditEvents ▸ haudit
  obtain ⟨-, -, -, hdb⟩ := withEnrolled_of_commit hcommit
  rw [hdb, leaves_of_parts hchecks' hlock hpoint hadm' hcommit']
  exact h.withEnrolled r.env row a.client

theorem SameRows.leaves (h : SameRows db db') (r : Redemption) :
    SameRows (r.leaves db) (r.leaves db') := by
  by_cases hne : r.leaves db = db
  · by_cases hne' : r.leaves db' = db'
    · rw [hne, hne']
      exact h
    · exact (h.symm.leaves_of_ne hne').symm
  · exact h.leaves_of_ne hne

theorem sameRows_bumpRequestedGen (db : Db) (id : ℕ) : SameRows db (db.bumpRequestedGen id) := by
  refine ⟨rfl, rfl, rfl, fun j ↦ ?_⟩
  rw [Db.bumpRequestedGen]
  simp only [Table.get_modify]
  split
  · rw [Option.map_map]
    rfl
  · rfl

/-- The handler leaves what its transaction leaves. -/
theorem sameRows_enroll (r : Redemption) (db : Db) :
    SameRows (r.leaves db) (r.env.enroll db r.call).db := by
  cases htx : r.env.transaction db r.call with
  | error rejection =>
    simp only [Redemption.leaves, EnrollEnv.enroll, htx]
    exact .refl db
  | ok result =>
    simp only [Redemption.leaves, EnrollEnv.enroll, htx]
    rcases finish_db r.env result.1 result.2 with hdb | ⟨id, hdb⟩
    · rw [hdb]
      exact .refl result.1
    · rw [hdb]
      exact sameRows_bumpRequestedGen result.1 id

theorem sameRows_foldl {rs : List Redemption} (order : List ℕ) (h : SameRows db db') :
    SameRows (order.foldl (leavesAt rs) db) (order.foldl (enrollAt rs) db') := by
  induction order generalizing db db' with
  | nil => exact h
  | cons i order ih =>
    refine ih ?_
    rw [leavesAt, enrollAt]
    split
    · exact h
    · next r _ => exact (h.leaves r.alone).trans (sameRows_enroll r.alone db')

/-! ## The addresses of enrolled clients -/

/-- A client that is not in `db₀` shares its address with no other client of its hub. -/
def NewDistinct (db₀ db : Db) : Prop :=
  ∀ c₁ ∈ db.clients.rows, c₁ ∉ db₀.clients.rows → ∀ c₂ ∈ db.clients.rows,
    c₁.serverId = c₂.serverId → ∀ a b, c₁.address = some a → c₂.address = some b →
    a.ip = b.ip → c₁ = c₂

theorem newDistinct_leaves {db₀ : Db} (h : NewDistinct db₀ db) (r : Redemption) :
    NewDistinct db₀ (r.leaves db) := by
  rcases leaves_cases r db with hsame | ⟨row, payload, a, -, -, -, -, hadm, hcommit⟩
  · rw [hsame]
    exact h
  obtain ⟨hfree, -, -, hdb⟩ := withEnrolled_of_commit hcommit
  have halloc := allocated_of_admitClient hadm
  have hother : ∀ c ∈ db.clients.rows, c.serverId = a.client.serverId → ∀ x y,
      c.address = some x → a.client.address = some y → x.ip ≠ y.ip :=
    fun c hc hserver x y hx hy ↦ (address_free halloc hy fun _ hc _ ↦ hc).1 c hc hserver x hx
  have hmem : ∀ c ∈ (r.leaves db).clients.rows, c ∈ db.clients.rows ∨ c = a.client := by
    intro c hc
    rw [hdb, EnrollEnv.withEnrolled_clients, Table.rows_insert hfree, List.mem_append,
      List.mem_singleton] at hc
    exact hc
  intro c₁ h₁ hnew c₂ h₂ hserver x y hx hy hip
  rcases hmem c₁ h₁ with h₁ | rfl <;> rcases hmem c₂ h₂ with h₂ | rfl
  · exact h c₁ h₁ hnew c₂ h₂ hserver x y hx hy hip
  · exact absurd hip (hother c₁ h₁ hserver x y hx hy)
  · exact absurd hip.symm (hother c₂ h₂ hserver.symm y x hy hx)
  · rfl

theorem newDistinct_foldl {rs : List Redemption} {db₀ : Db} (order : List ℕ)
    (h : NewDistinct db₀ db) : NewDistinct db₀ (order.foldl (leavesAt rs) db) := by
  induction order generalizing db with
  | nil => exact h
  | cons i order ih =>
    refine ih ?_
    rw [leavesAt]
    split
    · exact h
    · exact newDistinct_leaves h _

/-! ## Redemptions are serial -/

/-- **Redemptions are serial** in every run in which none commits on an old snapshot: there is an
order of the redemptions that have ended, without those whose wait for the lock has run out, in
which, one after another, they leave the clients and tokens that are committed; when all have ended,
and no wait has run out, it is an order of all.  And no client that was enrolled shares its address
with another of its hub. -/
theorem redemptions_are_serial {rs : List Redemption} {db₀ : Db} {c : Config Shared Proc}
    {es : List (ℕ × Action)} (hok : Run.Meets step CommitsCurrent (redemptions db₀ rs) es)
    (h : Run.run step (redemptions db₀ rs) es = some c) :
    (∃ order : List ℕ, order.Nodup ∧ (∀ i, i ∈ order ↔ Finished c i ∧ Granted rs i) ∧
      ((∀ i < rs.length, Finished c i ∧ Granted rs i) → order.Perm (List.range rs.length)) ∧
      c.shared.db.clients = (order.foldl (enrollAt rs) db₀).clients ∧
      c.shared.db.enrollmentTokens = (order.foldl (enrollAt rs) db₀).enrollmentTokens) ∧
    ∀ c₁ ∈ c.shared.db.clients.rows, c₁ ∉ db₀.clients.rows → ∀ c₂ ∈ c.shared.db.clients.rows,
      c₁.serverId = c₂.serverId → ∀ a b, c₁.address = some a → c₂.address = some b →
      a.ip = b.ip → c₁ = c₂ := by
  obtain ⟨order, horder⟩ := inOrder_run hok h
  have hrows : SameRows c.shared.db (order.foldl (enrollAt rs) db₀) := by
    rw [← horder.db]
    exact sameRows_foldl order (.refl db₀)
  refine ⟨⟨order, horder.nodup, horder.mem_iff, fun hall ↦ ?_, hrows.clients.symm,
    hrows.enrollmentTokens.symm⟩, ?_⟩
  · rw [List.perm_ext_iff_of_nodup horder.nodup List.nodup_range]
    intro i
    rw [horder.mem_iff, List.mem_range]
    constructor
    · rintro ⟨⟨r, ph, hproc, -⟩, -⟩
      obtain ⟨_, _, -, hr, -⟩ := horder.proc i _ hproc
      exact (List.getElem?_eq_some_iff.mp hr).1
    · exact hall i
  · have hdistinct : NewDistinct db₀ (order.foldl (leavesAt rs) db₀) :=
      newDistinct_foldl order fun c₁ h₁ hnew ↦ absurd h₁ hnew
    rw [horder.db] at hdistinct
    exact hdistinct

end

/-! ## Two hosts with one token -/

/-- The hub with `10.9.0.0/29`, and the token, good for two uses. -/
def pairDb : Db :=
  { twoUseDb with
    servers := ⟨[{ exampleHub with
      status := .ready
      subnet := ⟨168361984, 29, by decide, exampleHub.subnet.lt_two_pow, by decide⟩
      address := ⟨168361985, 29⟩ }], by decide⟩ }

/-- The hosts `web` and `db`. -/
def pair : List Redemption :=
  [⟨joinCall, joinEnv []⟩,
   ⟨{ joinCall with
      body := some
        { hostname := "db"
          wgPublicKey := "ISIjJCUmJygpKissLS4vMDEyMzQ1Njc4OTo7PD0+P0A="
          sshHostPublicKey := (joinEnv []).ca.caPublicKey } },
    { joinEnv [] with newId := 2, auditId := 2 }⟩]

/-- The steps of a redemption that succeeds, after its lookup. -/
def rest (i : ℕ) : List (ℕ × Action) :=
  [(i, .lock), (i, .consume), (i, .admitClient), (i, .commit), (i, .release)]

/-- The second host looks its token up when the first is through. -/
def oneByOne : List (ℕ × Action) := (0, .read) :: rest 0 ++ (1, .read) :: rest 1

theorem redemptions_are_serial_oneByOne :
    ∃ c, Run.run step (redemptions pairDb pair) oneByOne = some c ∧
      c.shared.db.clients.rows.map Client.address =
        [some ⟨168361986, 32⟩, some ⟨168361987, 32⟩] ∧
      ∃ order : List ℕ, order.Perm [0, 1] ∧
        c.shared.db.clients = (order.foldl (enrollAt pair) pairDb).clients ∧
        c.shared.db.enrollmentTokens = (order.foldl (enrollAt pair) pairDb).enrollmentTokens := by
  obtain ⟨c, hc⟩ := Option.isSome_iff_exists.mp
    (by decide +kernel : (Run.run step (redemptions pairDb pair) oneByOne).isSome)
  have haddresses : (Run.run step (redemptions pairDb pair) oneByOne).all fun c ↦
      decide (c.shared.db.clients.rows.map Client.address =
        [some ⟨168361986, 32⟩, some ⟨168361987, 32⟩]) := by decide +kernel
  have hfinished : (Run.run step (redemptions pairDb pair) oneByOne).all fun c ↦
      decide (∀ i < pair.length, Finished c i ∧ Granted pair i) := by decide +kernel
  rw [hc, Option.all_some, decide_eq_true_iff] at haddresses hfinished
  obtain ⟨⟨order, -, -, hperm, hclients, htokens⟩, -⟩ :=
    redemptions_are_serial (by decide +kernel) hc
  exact ⟨c, hc, haddresses, order, hperm hfinished, hclients, htokens⟩

/-- Both hosts look the token up before either has the lock. -/
def sideBySide : List (ℕ × Action) := (0, .read) :: (1, .read) :: rest 0 ++ rest 1

/-- Both get the same address, which in no order they would. -/
theorem redemptions_clash_sideBySide :
    ∃ c, Run.run step (redemptions pairDb pair) sideBySide = some c ∧
      (∃ c₁ ∈ c.shared.db.clients.rows, ∃ c₂ ∈ c.shared.db.clients.rows,
        c₁.serverId = c₂.serverId ∧ c₁.address = c₂.address ∧ c₁.id ≠ c₂.id) ∧
      ∀ order : List ℕ, order.Perm [0, 1] →
        c.shared.db.clients ≠ (order.foldl (enrollAt pair) pairDb).clients := by
  obtain ⟨c, hc⟩ := Option.isSome_iff_exists.mp
    (by decide +kernel : (Run.run step (redemptions pairDb pair) sideBySide).isSome)
  have hclash : (Run.run step (redemptions pairDb pair) sideBySide).all fun c ↦
      decide (∃ c₁ ∈ c.shared.db.clients.rows, ∃ c₂ ∈ c.shared.db.clients.rows,
        c₁.serverId = c₂.serverId ∧ c₁.address = c₂.address ∧ c₁.id ≠ c₂.id) := by
    decide +kernel
  have hserial : ∀ order ∈ [0, 1].permutations',
      ¬∃ c₁ ∈ (order.foldl (enrollAt pair) pairDb).clients.rows,
        ∃ c₂ ∈ (order.foldl (enrollAt pair) pairDb).clients.rows,
        c₁.serverId = c₂.serverId ∧ c₁.address = c₂.address ∧ c₁.id ≠ c₂.id := by
    decide +kernel
  rw [hc, Option.all_some, decide_eq_true_iff] at hclash
  refine ⟨c, hc, hclash, fun order hperm heq ↦ ?_⟩
  rw [heq] at hclash
  exact hserial order (List.mem_permutations'.mpr hperm) hclash

end WgManager.Enroll
