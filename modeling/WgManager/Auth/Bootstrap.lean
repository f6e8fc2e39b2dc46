import Mathlib.Data.Fintype.EquivFin
import WgManager.Auth
import WgManager.Lib.Interleave

/-!
# Racing for the first operator

With `AUTH_BOOTSTRAP_OPERATOR_CN` set, the first request with that common name registers its own
operator: `_resolve_operator` of `auth.py` looks the name up, and when there is no row,
`_maybe_bootstrap` inserts one.  Requests that come at once may all miss the row.  The unique index
lets one of them insert it; the others wait for its commit, get an `IntegrityError`, roll back and
look again.

The lookup and the index compare names as the database does (`coll`), while the name in the settings
is compared in Python.  A transaction reads the database as it was at its first read, which is why
the look after the lost race has to begin a new one.  `stepRequest` takes a request from statement
to statement.  In the end all of them have the one row (`racing_bootstrap_requests_agree`), unless
the role in the settings is no role: then nobody is registered (`invalid_role_registers_nobody`).
-/

set_option autoImplicit false

namespace WgManager

variable {coll : Collation}

/-- Insert an operator whose name is not taken. -/
def Registry.addOperator (db : Registry coll) (row : OperatorRow)
    (h : db.operatorByCn row.cn = none) : Registry coll :=
  { db with
    operators := db.operators.insert row
    cn_unique := by
      rw [Table.insert]
      split
      · exact db.cn_unique
      · rw [List.map_append, List.map_singleton, Collation.unique_append_singleton,
          List.forall_mem_map]
        exact ⟨db.cn_unique, Registry.operatorByCn_eq_none.mp h⟩ }

namespace Bootstrap

/-! ## The requests -/

/-- The role that `_maybe_bootstrap` registers a name with, if it registers it. -/
def bootstrapRole (settings : AuthSettings) (commonName : String) : Option OperatorRole :=
  match settings.authBootstrapOperatorCn with
  | none => none
  | some bootstrapCn =>
    if bootstrapCn = "" ∨ bootstrapCn ≠ commonName then none
    else OperatorRole.ofValue settings.authBootstrapOperatorRole

/-- Where a request is in `_resolve_operator`. -/
inductive Phase
  /-- About to look the name up. -/
  | lookup
  /-- In `_maybe_bootstrap`, after there was no row. -/
  | missed
  /-- About to insert a row. -/
  | inserting (role : OperatorRole)
  /-- The row is inserted. -/
  | committing (row : OperatorRow)
  /-- It is committed, and about to be refreshed. -/
  | refreshing (id : ℕ)
  /-- After an `IntegrityError`. -/
  | rollingBack
  | refetching
  | done (operator : Option OperatorRow)
  deriving DecidableEq

structure Request (coll : Collation) where
  commonName : String
  phase : Phase := .lookup
  /-- What its transaction sees, once it has read. -/
  snapshot : Option (Registry coll) := none

/-- The registry, and the rows that have been inserted by a request and not committed yet. -/
structure Store (coll : Collation) where
  committed : Registry coll
  pending : List (ℕ × OperatorRow) := []

/-- What the transaction of a request sees. -/
def Request.view (q : Request coll) (g : Store coll) : Registry coll := q.snapshot.getD g.committed

inductive Action
  | lookup
  /-- Look at the settings. -/
  | consult
  /-- The `INSERT`, for a row with this key and this time. -/
  | insert (id : ℕ) (now : Datetime)
  | commit
  | refresh
  | rollback
  | refetch

/-- The row that a request inserts. -/
def bootstrapRow (commonName : String) (role : OperatorRole) (id : ℕ) (now : Datetime) :
    OperatorRow where
  id := id
  cn := commonName
  displayName := some s!"bootstrap:{commonName}"
  role := role
  status := .active
  createdAt := now

/-- The key belongs to a row, or to one that is being inserted. -/
def Store.taken (g : Store coll) (id : ℕ) : Bool :=
  (g.committed.operators.get id).isSome || g.pending.any (·.2.id == id)

/-- One statement of `_resolve_operator`, with `_maybe_bootstrap`. -/
def stepRequest (settings : AuthSettings) (i : ℕ) (g : Store coll) :
    Option (Request coll) → Action → Option (Store coll × Option (Request coll))
  | none, _ => none
  | some q, a =>
    match q.phase, a with
    | .lookup, .lookup =>
      let seen := q.view g
      let phase := match seen.operatorByCn q.commonName with
        | some row => .done (some row)
        | none => .missed
      some (g, some { q with snapshot := some seen, phase })
    | .missed, .consult =>
      let phase := match bootstrapRole settings q.commonName with
        | some role => .inserting role
        | none => .done none
      some (g, some { q with phase })
    | .inserting role, .insert id now =>
      let row := bootstrapRow q.commonName role id now
      -- the index knows all committed rows, and waits for those that are not committed yet
      if (g.committed.operatorByCn row.cn).isSome then
        some (g, some { q with phase := .rollingBack })
      else if g.pending.any (fun e ↦ coll.same e.2.cn row.cn) || g.taken id then none
      else
        some ({ g with pending := (i, row) :: g.pending },
          some { q with phase := .committing row })
    | .committing row, .commit =>
      if h : g.committed.operatorByCn row.cn = none then
        some (⟨g.committed.addOperator row h, g.pending.filter (·.1 ≠ i)⟩,
          some { q with snapshot := none, phase := .refreshing row.id })
      else none
    | .refreshing id, .refresh =>
      let seen := q.view g
      (seen.operators.get id).map fun row ↦
        (g, some { q with snapshot := some seen, phase := .done (some row) })
    | .rollingBack, .rollback => some (g, some { q with snapshot := none, phase := .refetching })
    | .refetching, .refetch =>
      let seen := q.view g
      some (g, some { q with
        snapshot := some seen
        phase := .done (seen.operatorByCn q.commonName) })
    | _, _ => none

/-! ## A row is added at most once -/

/-- A row that `_maybe_bootstrap` may add. -/
def Registrable (settings : AuthSettings) (row : OperatorRow) : Prop :=
  bootstrapRole settings row.cn = some row.role ∧ row.status = .active

/-- The registry is the same, or has one more row. -/
inductive Registered (settings : AuthSettings) (db : Registry coll) : Registry coll → Prop
  | same : Registered settings db db
  | added (row : OperatorRow) (h : db.operatorByCn row.cn = none)
      (hid : db.operators.get row.id = none) (hrow : Registrable settings row) :
      Registered settings db (db.addOperator row h)

section

variable {settings : AuthSettings} {db db' db'' : Registry coll} {cn : String} {row : OperatorRow}

/-- There is only one name that is registered so. -/
theorem cn_of_bootstrapRole {role : OperatorRole} (h : bootstrapRole settings cn = some role) :
    settings.authBootstrapOperatorCn = some cn := by
  rw [bootstrapRole] at h
  split at h
  · cases h
  · next bootstrapCn hcn =>
    split at h
    · cases h
    · next hname =>
      rw [not_or, not_not] at hname
      rw [hcn, hname.2]

theorem operatorByCn_addOperator (h : db.operatorByCn row.cn = none)
    (hid : db.operators.get row.id = none) :
    (db.addOperator row h).operatorByCn cn =
      if coll.same row.cn cn = true then some row else db.operatorByCn cn := by
  show (db.operators.insert row).rows.find? (fun other ↦ coll.same other.cn cn) = _
  rw [Table.rows_insert hid, List.find?_append]
  change (db.operatorByCn cn).or _ = _
  split
  · next hsame =>
    rw [← Registry.operatorByCn_congr hsame, h, List.find?_cons, hsame]
    rfl
  · next hother => simp [hother]

theorem Registered.get (h : Registered settings db db') {id : ℕ}
    (hget : db.operators.get id = some row) : db'.operators.get id = some row := by
  rcases h with _ | _
  · exact hget
  · exact Table.get_insert_of_get hget

/-- A row that a name has stays its row. -/
theorem Registered.operatorByCn (h : Registered settings db db')
    (hrow : db.operatorByCn cn = some row) : db'.operatorByCn cn = some row := by
  rcases h with _ | ⟨new, hfree, hid, -⟩
  · exact hrow
  · rw [operatorByCn_addOperator hfree hid, if_neg]
    · exact hrow
    · intro hsame
      rw [← Registry.operatorByCn_congr hsame, hfree] at hrow
      cases hrow

/-- A name gets no row, or that of the name which registers itself, if the database takes it for
that one. -/
theorem Registered.operatorByCn_cases (h : Registered settings db db') (cn : String) :
    db'.operatorByCn cn = db.operatorByCn cn ∨
      ∃ name ∈ settings.authBootstrapOperatorCn, coll.same name cn = true := by
  rcases h with _ | ⟨new, hfree, hid, hnew⟩
  · exact .inl rfl
  · rw [operatorByCn_addOperator hfree hid]
    split
    · next hsame => exact .inr ⟨new.cn, cn_of_bootstrapRole hnew.1, hsame⟩
    · exact .inl rfl

theorem Registered.mem_of_mem (h : Registered settings db db') (hrow : row ∈ db.operators.rows) :
    row ∈ db'.operators.rows :=
  Table.mem_of_get (h.get (Table.mem_rows_iff.mp hrow))

theorem Registered.mem (h : Registered settings db db') (hrow : row ∈ db'.operators.rows) :
    row ∈ db.operators.rows ∨ Registrable settings row := by
  rcases h with _ | ⟨new, hfree, hid, hnew⟩
  · exact .inl hrow
  · rcases Table.mem_insert hrow with hold | rfl
    · exact .inl hold
    · exact .inr hnew

/-- Nothing is added for a name that has a row. -/
theorem Registered.eq_of_mem (h : Registered settings db db') (hrow : row ∈ db.operators.rows)
    (hcn : settings.authBootstrapOperatorCn = some cn) (hsame : coll.same row.cn cn = true) :
    db' = db := by
  rcases h with _ | ⟨new, hfree, -, hnew⟩
  · rfl
  · have heq : cn = new.cn := Option.some.inj (hcn.symm.trans (cn_of_bootstrapRole hnew.1))
    have hother := Registry.operatorByCn_eq_none.mp hfree row hrow
    rw [← heq, hsame] at hother
    cases hother

theorem Registered.eq_of_bootstrapRole (h : Registered settings db db')
    (hnone : ∀ cn, bootstrapRole settings cn = none) : db' = db := by
  rcases h with _ | ⟨new, -, -, hnew⟩
  · rfl
  · have hrole := hnew.1
    rw [hnone] at hrole
    cases hrole

/-- Not a second time. -/
theorem Registered.trans (h : Registered settings db db') (h' : Registered settings db' db'') :
    Registered settings db db'' := by
  rcases h with _ | ⟨row, hfree, hid, hrow⟩
  · exact h'
  · rcases h' with _ | ⟨row', hfree', hid', hrow'⟩
    · exact .added row hfree hid hrow
    · have hcn : row'.cn = row.cn :=
        Option.some.inj ((cn_of_bootstrapRole hrow'.1).symm.trans (cn_of_bootstrapRole hrow.1))
      rw [operatorByCn_addOperator hfree hid, if_pos (hcn ▸ coll.refl _)] at hfree'
      cases hfree'

end

/-! ## What holds between the statements -/

/-- Of the store: rows that are not committed yet have a free name and a free key, and there is at
most one of them. -/
structure Sound (settings : AuthSettings) (db₀ : Registry coll) (names : List String)
    (g : Store coll) : Prop where
  committed : Registered settings db₀ g.committed
  registrable : ∀ e ∈ g.pending, Registrable settings e.2
  name_free : ∀ e ∈ g.pending, g.committed.operatorByCn e.2.cn = none
  key_free : ∀ e ∈ g.pending, g.committed.operators.get e.2.id = none
  owner : ∀ e ∈ g.pending, names[e.1]? = some e.2.cn
  alone : ∀ e ∈ g.pending, ∀ e' ∈ g.pending, e = e'

/-- Of a request, at each of its statements. -/
def Request.Expects (settings : AuthSettings) (db₀ : Registry coll) (i : ℕ) (g : Store coll)
    (q : Request coll) : Prop :=
  match q.phase with
  | .lookup => q.snapshot = none
  | .missed => db₀.operatorByCn q.commonName = none
  | .inserting role => bootstrapRole settings q.commonName = some role
  | .committing row => (i, row) ∈ g.pending ∧ row.cn = q.commonName
  | .refreshing id =>
    q.snapshot = none ∧ ∃ row, g.committed.operators.get id = some row ∧
      g.committed.operatorByCn q.commonName = some row
  | .rollingBack => g.committed.operatorByCn q.commonName ≠ none
  | .refetching => q.snapshot = none ∧ g.committed.operatorByCn q.commonName ≠ none
  | .done (some row) => g.committed.operatorByCn q.commonName = some row
  | .done none =>
    db₀.operatorByCn q.commonName = none ∧ bootstrapRole settings q.commonName = none

structure Owns (settings : AuthSettings) (db₀ : Registry coll) (names : List String) (i : ℕ)
    (g : Store coll) (q : Request coll) : Prop where
  name : names[i]? = some q.commonName
  pending : ∀ row, (i, row) ∈ g.pending → q.phase = .committing row
  expects : q.Expects settings db₀ i g

/-- What a step of one request leaves to the others. -/
structure Frame (settings : AuthSettings) (i : ℕ) (g g' : Store coll) : Prop where
  committed : Registered settings g.committed g'.committed
  pending : ∀ e, e.1 ≠ i → (e ∈ g'.pending ↔ e ∈ g.pending)

section

variable {settings : AuthSettings} {db₀ : Registry coll} {names : List String} {i j : ℕ}
  {g g' : Store coll} {q : Request coll}

theorem frame_refl (i : ℕ) (g : Store coll) : Frame settings i g g := ⟨.same, fun _ _ ↦ .rfl⟩

/-- A request keeps what it has while others move. -/
theorem owns_of_frame (hj : j ≠ i) (hf : Frame settings i g g')
    (hq : Owns settings db₀ names j g q) : Owns settings db₀ names j g' q where
  name := hq.name
  pending row hrow := hq.pending row ((hf.pending _ hj).mp hrow)
  expects := by
    have hexpects := hq.expects
    have hsome (hne : g.committed.operatorByCn q.commonName ≠ none) :
        g'.committed.operatorByCn q.commonName ≠ none := by
      obtain ⟨row, hrow⟩ := Option.ne_none_iff_exists'.mp hne
      rw [hf.committed.operatorByCn hrow]
      nofun
    unfold Request.Expects at hexpects ⊢
    split at hexpects
    · exact hexpects
    · exact hexpects
    · exact hexpects
    · exact ⟨(hf.pending _ hj).mpr hexpects.1, hexpects.2⟩
    · obtain ⟨hsnapshot, row, hget, hrow⟩ := hexpects
      exact ⟨hsnapshot, row, hf.committed.get hget, hf.committed.operatorByCn hrow⟩
    · exact hsome hexpects
    · exact ⟨hexpects.1, hsome hexpects.2⟩
    · exact hf.committed.operatorByCn hexpects
    · exact hexpects

/-- What holds of a request at a statement that is known. -/
theorem Owns.expects_at (hq : Owns settings db₀ names i g q) {phase : Phase}
    (hphase : q.phase = phase) : Request.Expects settings db₀ i g { q with phase } := by
  subst hphase
  exact hq.expects

/-- The request goes on, and the store stays as it is. -/
theorem Owns.move (hq : Owns settings db₀ names i g q) (hphase : ∀ row, q.phase ≠ .committing row)
    {snapshot : Option (Registry coll)} {phase : Phase}
    (hexpects : Request.Expects settings db₀ i g { q with snapshot, phase }) :
    Owns settings db₀ names i g { q with snapshot, phase } :=
  ⟨hq.name, fun row hrow ↦ absurd (hq.pending row hrow) (hphase row), hexpects⟩

/-- The row is inserted. -/
theorem inv_insert {role : OperatorRole} {id : ℕ} {now : Datetime}
    (hs : Sound settings db₀ names g) (hq : Owns settings db₀ names i g q)
    (hphase : q.phase = .inserting role)
    (hfree : g.committed.operatorByCn q.commonName = none)
    (hothers : ∀ e ∈ g.pending, coll.same e.2.cn q.commonName = false)
    (hid : g.committed.operators.get id = none) :
    let row := bootstrapRow q.commonName role id now
    let g' : Store coll := { g with pending := (i, row) :: g.pending }
    Sound settings db₀ names g' ∧ Owns settings db₀ names i g' { q with phase := .committing row } ∧
      Frame settings i g g' := by
  intro row g'
  have hrole : bootstrapRole settings q.commonName = some role := hq.expects_at hphase
  -- two rows that wait for their commit would have the same name
  have hnone : g.pending = [] := by
    rw [List.eq_nil_iff_forall_not_mem]
    intro e he
    have hname : e.2.cn = q.commonName := Option.some.inj
      ((cn_of_bootstrapRole (hs.registrable e he).1).symm.trans (cn_of_bootstrapRole hrole))
    have hother := hothers e he
    rw [hname, coll.refl] at hother
    cases hother
  have hall {P : ℕ × OperatorRow → Prop} (h : P (i, row)) : ∀ e ∈ g'.pending, P e := by
    intro e he
    change e ∈ (i, row) :: g.pending at he
    rw [hnone, List.mem_singleton] at he
    rw [he]
    exact h
  refine ⟨⟨hs.committed, hall ⟨hrole, rfl⟩, hall hfree, hall hid, hall hq.name,
    hall (hall rfl)⟩, ⟨hq.name, fun row' hrow ↦ ?_, ⟨List.mem_cons_self, rfl⟩⟩, .same,
    fun e he ↦ ?_⟩
  · exact congrArg Phase.committing (congrArg Prod.snd (hall (P := (· = (i, row))) rfl _ hrow)).symm
  · change e ∈ (i, row) :: g.pending ↔ _
    rw [List.mem_cons, or_iff_right]
    rintro rfl
    exact he rfl

/-- It is committed. -/
theorem inv_commit {row : OperatorRow} (hs : Sound settings db₀ names g)
    (hq : Owns settings db₀ names i g q) (hphase : q.phase = .committing row)
    (h : g.committed.operatorByCn row.cn = none) :
    let g' : Store coll := ⟨g.committed.addOperator row h, g.pending.filter (·.1 ≠ i)⟩
    Sound settings db₀ names g' ∧
      Owns settings db₀ names i g' { q with snapshot := none, phase := .refreshing row.id } ∧
      Frame settings i g g' := by
  intro g'
  obtain ⟨hmem, hcn⟩ : (i, row) ∈ g.pending ∧ row.cn = q.commonName := hq.expects_at hphase
  have hadded : Registered settings g.committed g'.committed :=
    .added row h (hs.key_free _ hmem) (hs.registrable _ hmem)
  have hnone : g'.pending = [] := by
    rw [List.eq_nil_iff_forall_not_mem]
    intro e he
    obtain ⟨he, hother⟩ := List.mem_filter.mp he
    rw [hs.alone e he _ hmem] at hother
    simp at hother
  have hno {P : ℕ × OperatorRow → Prop} : ∀ e ∈ g'.pending, P e := by
    rw [hnone]
    nofun
  refine ⟨⟨hs.committed.trans hadded, hno, hno, hno, hno, hno⟩,
    ⟨hq.name, fun row' hrow ↦ hno (P := fun _ ↦ _) _ hrow, rfl, row, ?_, ?_⟩, hadded,
    fun e he ↦ ?_⟩
  · exact Table.get_insert_self (hs.key_free _ hmem)
  · show (g.committed.addOperator row h).operatorByCn q.commonName = _
    rw [operatorByCn_addOperator h (hs.key_free _ hmem), if_pos (hcn ▸ coll.refl _)]
  · show e ∈ g.pending.filter _ ↔ _
    rw [List.mem_filter]
    exact and_iff_left (by simpa using he)

/-- How many statements a request still has before it, at most. -/
def Phase.rank : Phase → ℕ
  | .lookup => 5
  | .missed => 4
  | .inserting _ => 3
  | .committing _ | .rollingBack => 2
  | .refreshing _ | .refetching => 1
  | .done _ => 0

/-- What one statement keeps. -/
theorem stepRequest_inv {a : Action} {p' : Option (Request coll)} (hs : Sound settings db₀ names g)
    (hq : Owns settings db₀ names i g q) (h : stepRequest settings i g (some q) a = some (g', p')) :
    ∃ q', p' = some q' ∧ Sound settings db₀ names g' ∧ Owns settings db₀ names i g' q' ∧
      Frame settings i g g' ∧ q'.phase.rank < q.phase.rank := by
  unfold stepRequest at h
  dsimp only at h
  split at h
  · -- the first look
    next hphase =>
    have hsnapshot : q.snapshot = none := hq.expects_at hphase
    have hview : q.view g = g.committed := by rw [Request.view, hsnapshot, Option.getD_none]
    rw [hview] at h
    cases h
    refine ⟨_, rfl, hs, hq.move (by rw [hphase]; nofun) ?_, frame_refl i g, ?_⟩
    · cases hrow : g.committed.operatorByCn q.commonName with
      | some row => exact hrow
      | none =>
        show db₀.operatorByCn q.commonName = none
        cases hold : db₀.operatorByCn q.commonName with
        | none => rfl
        | some row =>
          rw [hs.committed.operatorByCn hold] at hrow
          cases hrow
    · rw [hphase]
      cases g.committed.operatorByCn q.commonName <;> simp [Phase.rank]
  · -- the settings
    next hphase =>
    have hmissed : db₀.operatorByCn q.commonName = none := hq.expects_at hphase
    cases h
    refine ⟨_, rfl, hs, hq.move (by rw [hphase]; nofun) ?_, frame_refl i g, ?_⟩
    · cases hrole : bootstrapRole settings q.commonName with
      | some role => exact hrole
      | none => exact ⟨hmissed, hrole⟩
    · rw [hphase]
      cases bootstrapRole settings q.commonName <;> simp [Phase.rank]
  · next role id now hphase =>
    rw [hphase]
    split at h
    · -- the race is lost
      next htaken =>
      cases h
      refine ⟨_, rfl, hs, hq.move (by rw [hphase]; nofun) ?_, frame_refl i g, by simp [Phase.rank]⟩
      exact Option.isSome_iff_ne_none.mp htaken
    · next hfree =>
      split at h
      · cases h
      · next hindex =>
        cases h
        simp only [Store.taken, Bool.or_eq_true, not_or, List.any_eq_true, beq_iff_eq,
          not_exists, not_and, Bool.not_eq_true, Option.isSome_eq_false_iff,
          Option.isNone_iff_eq_none] at hfree hindex
        obtain ⟨hsound, howns, hframe⟩ :=
          inv_insert hs hq hphase hfree (fun e he ↦ hindex.1 e he) hindex.2.1
        exact ⟨_, rfl, hsound, howns, hframe, by simp [Phase.rank]⟩
  · next row hphase =>
    rw [hphase]
    split at h
    · next hfree =>
      cases h
      obtain ⟨hsound, howns, hframe⟩ := inv_commit hs hq hphase hfree
      exact ⟨_, rfl, hsound, howns, hframe, by simp [Phase.rank]⟩
    · cases h
  · -- the row is read back
    next id hphase =>
    obtain ⟨hsnapshot, row, hget, hrow⟩ := hq.expects_at hphase
    change q.snapshot = none at hsnapshot
    rw [hphase]
    rw [Request.view, hsnapshot, Option.getD_none, hget] at h
    cases h
    exact ⟨_, rfl, hs, hq.move (by rw [hphase]; nofun) hrow, frame_refl i g,
      by simp [Phase.rank]⟩
  · next hphase =>
    rw [hphase]
    cases h
    exact ⟨_, rfl, hs, hq.move (by rw [hphase]; nofun) ⟨rfl, hq.expects_at hphase⟩, frame_refl i g,
      by simp [Phase.rank]⟩
  · -- the second look, in a transaction that sees the row of the winner
    next hphase =>
    obtain ⟨hsnapshot, hrow⟩ := hq.expects_at hphase
    change q.snapshot = none at hsnapshot
    rw [hphase]
    rw [Request.view, hsnapshot, Option.getD_none] at h
    cases h
    refine ⟨_, rfl, hs, hq.move (by rw [hphase]; nofun) ?_, frame_refl i g, by simp [Phase.rank]⟩
    obtain ⟨row, hsome⟩ := Option.ne_none_iff_exists'.mp hrow
    rw [hsome]
    exact hsome
  · cases h

end

/-! ## Runs -/

/-- Requests with these names that come at once. -/
def start (db₀ : Registry coll) (names : List String) : Config (Store coll) (Request coll) where
  shared := ⟨db₀, []⟩
  proc i := names[i]?.map fun commonName ↦ { commonName }

/-- What a request was resolved to, once it was. -/
def Request.result (q : Request coll) : Option (Option OperatorRow) :=
  match q.phase with
  | .done operator => some operator
  | _ => none

/-- What holds at every time. -/
structure Reached (settings : AuthSettings) (db₀ : Registry coll) (names : List String)
    (c : Config (Store coll) (Request coll)) : Prop where
  inv : Config.Inv (Sound settings db₀ names) (Owns settings db₀ names) c
  present : ∀ i, i < names.length → ∃ q, c.proc i = some q

def rankOf (p : Option (Request coll)) : ℕ := (p.map fun q ↦ q.phase.rank).getD 0

section

variable {settings : AuthSettings} {db₀ : Registry coll} {names : List String}
  {c c' : Config (Store coll) (Request coll)}

theorem reached_start : Reached settings db₀ names (start db₀ names) where
  inv := by
    refine ⟨⟨.same, nofun, nofun, nofun, nofun, nofun⟩, fun i q hq ↦ ?_⟩
    obtain ⟨commonName, hname, rfl⟩ := Option.map_eq_some_iff.mp hq
    exact ⟨hname, nofun, rfl⟩
  present i hi := ⟨_, congrArg (Option.map _) (List.getElem?_eq_getElem hi)⟩

theorem reached_step {e : ℕ × Action} (hc : Reached settings db₀ names c)
    (h : Config.step (stepRequest settings) c e = some c') :
    Reached settings db₀ names c' ∧ rankOf (c'.proc e.1) < rankOf (c.proc e.1) := by
  obtain ⟨g', p', hf, rfl⟩ := Config.step_eq_some.mp h
  cases hproc : c.proc e.1 with
  | none =>
    rw [hproc] at hf
    cases hf
  | some q =>
    rw [hproc] at hf
    obtain ⟨q', rfl, hsound, howns, hframe, hrank⟩ :=
      stepRequest_inv hc.inv.shared (hc.inv.proc _ _ hproc) hf
    refine ⟨⟨⟨hsound, fun j q₁ hq₁ ↦ ?_⟩, fun j hj ↦ ?_⟩, ?_⟩
    · change Function.update _ _ _ _ = _ at hq₁
      by_cases hji : j = e.1
      · subst hji
        rw [Function.update_self] at hq₁
        cases hq₁
        exact howns
      · rw [Function.update_of_ne hji] at hq₁
        exact owns_of_frame hji hframe (hc.inv.proc j q₁ hq₁)
    · show ∃ q, Function.update _ _ _ _ = _
      by_cases hji : j = e.1
      · subst hji
        exact ⟨q', Function.update_self _ _ _⟩
      · rw [Function.update_of_ne hji]
        exact hc.present j hj
    · show rankOf (Function.update c.proc e.1 (some q') e.1) < _
      rw [Function.update_self]
      exact hrank

theorem reached_of_run {es : List (ℕ × Action)}
    (hrun : Run.run (Config.step (stepRequest settings)) (start db₀ names) es = some c) :
    Reached settings db₀ names c :=
  Run.run_invariant' (fun _ _ _ hc h ↦ (reached_step hc h).1) reached_start hrun

theorem exists_step_of_isSome {i : ℕ} {a : Action}
    (h : (stepRequest settings i c.shared (c.proc i) a).isSome = true) :
    ∃ e c', Config.step (stepRequest settings) c e = some c' := by
  obtain ⟨r, hr⟩ := Option.isSome_iff_exists.mp h
  exact ⟨(i, a), _, Config.step_eq_some.mpr ⟨r.1, r.2, hr, rfl⟩⟩

/-- Whoever waits for the index waits for a request that can commit. -/
theorem exists_step_of_pending (hc : Reached settings db₀ names c) {e : ℕ × OperatorRow}
    (he : e ∈ c.shared.pending) : ∃ e c', Config.step (stepRequest settings) c e = some c' := by
  have hname := hc.inv.shared.owner e he
  obtain ⟨q, hq⟩ := hc.present e.1 (List.getElem?_eq_some_iff.mp hname).1
  have hphase := (hc.inv.proc _ _ hq).pending e.2 he
  refine exists_step_of_isSome (i := e.1) (a := .commit) ?_
  simp [hq, stepRequest, hphase, hc.inv.shared.name_free e he]

/-- No request is stuck. -/
theorem exists_step (hc : Reached settings db₀ names c) {i : ℕ} {q : Request coll}
    (hq : c.proc i = some q) (hresult : q.result = none) :
    ∃ e c', Config.step (stepRequest settings) c e = some c' := by
  have howns := hc.inv.proc i q hq
  rw [Request.result] at hresult
  cases hphase : q.phase with
  | lookup =>
    exact exists_step_of_isSome (i := i) (a := .lookup) (by simp [hq, stepRequest, hphase])
  | missed =>
    exact exists_step_of_isSome (i := i) (a := .consult) (by simp [hq, stepRequest, hphase])
  | inserting role =>
    cases hpending : c.shared.pending with
    | cons e _ => exact exists_step_of_pending hc (hpending ▸ List.mem_cons_self)
    | nil =>
      obtain ⟨id, hid⟩ :=
        Infinite.exists_notMem_finset (c.shared.committed.operators.rows.map Keyed.pk).toFinset
      have hfree : c.shared.committed.operators.get id = none := by
        refine Table.get_eq_none_iff.mpr fun row hrow heq ↦ hid ?_
        exact List.mem_toFinset.mpr (List.mem_map.mpr ⟨row, hrow, heq⟩)
      refine exists_step_of_isSome (i := i) (a := .insert id 0) ?_
      simp only [hq, stepRequest, hphase]
      split
      · rfl
      · simp [Store.taken, hfree, hpending]
  | committing row => exact exists_step_of_pending hc (howns.expects_at hphase).1
  | refreshing id =>
    obtain ⟨hsnapshot, row, hget, -⟩ := howns.expects_at hphase
    change q.snapshot = none at hsnapshot
    refine exists_step_of_isSome (i := i) (a := .refresh) ?_
    simp [hq, stepRequest, hphase, Request.view, hsnapshot, hget]
  | rollingBack =>
    exact exists_step_of_isSome (i := i) (a := .rollback) (by simp [hq, stepRequest, hphase])
  | refetching =>
    exact exists_step_of_isSome (i := i) (a := .refetch) (by simp [hq, stepRequest, hphase])
  | done operator =>
    rw [hphase] at hresult
    cases hresult

/-- What a request that is through was resolved to. -/
theorem Reached.result (hc : Reached settings db₀ names c) {i : ℕ} {cn : String}
    {operator : Option OperatorRow} (hname : names[i]? = some cn)
    (hresult : (c.proc i).bind Request.result = some operator) :
    (∀ row, operator = some row → c.shared.committed.operatorByCn cn = some row) ∧
      (operator = none → db₀.operatorByCn cn = none ∧ bootstrapRole settings cn = none) := by
  obtain ⟨q, hq, hdone⟩ := Option.bind_eq_some_iff.mp hresult
  have howns := hc.inv.proc i q hq
  rw [Option.some.inj (hname.symm.trans howns.name)]
  unfold Request.result at hdone
  split at hdone
  · next hphase =>
    cases hdone
    have hexpects := howns.expects_at hphase
    cases operator with
    | none => exact ⟨nofun, fun _ ↦ hexpects⟩
    | some row =>
      refine ⟨?_, nofun⟩
      rintro _ ⟨⟩
      exact hexpects
  · cases hdone

/-- A request with another name leaves the store alone. -/
theorem shared_of_step (hc : Reached settings db₀ names c) {i : ℕ} {a : Action} {cn : String}
    (hname : names[i]? = some cn) (hcn : bootstrapRole settings cn = none)
    (h : Config.step (stepRequest settings) c (i, a) = some c') : c'.shared = c.shared := by
  obtain ⟨g', p', hf, rfl⟩ := Config.step_eq_some.mp h
  dsimp only at hf ⊢
  cases hproc : c.proc i with
  | none =>
    rw [hproc] at hf
    cases hf
  | some q =>
    have howns := hc.inv.proc _ q hproc
    have hown : bootstrapRole settings q.commonName = none :=
      Option.some.inj (hname.symm.trans howns.name) ▸ hcn
    rw [hproc] at hf
    unfold stepRequest at hf
    dsimp only at hf
    split at hf
    · cases hf
      rfl
    · cases hf
      rfl
    · next role _ _ hphase =>
      have hrole : bootstrapRole settings q.commonName = some role := howns.expects_at hphase
      rw [hown] at hrole
      cases hrole
    · next row hphase =>
      obtain ⟨hmem, hcn'⟩ := howns.expects_at hphase
      have hrow := (hc.inv.shared.registrable _ hmem).1
      rw [hcn', hown] at hrow
      cases hrow
    · obtain ⟨row, -, heq⟩ := Option.map_eq_some_iff.mp hf
      cases heq
      rfl
    · cases hf
      rfl
    · cases hf
      rfl
    · cases hf

/-- The name of the settings is registered with the role of the settings, and no other is. -/
theorem bootstrapRole_eq {b : String} (hb : settings.authBootstrapOperatorCn = some b)
    (hne : b ≠ "") (cn : String) :
    bootstrapRole settings cn =
      if cn = b then OperatorRole.ofValue settings.authBootstrapOperatorRole else none := by
  rw [bootstrapRole, hb]
  by_cases hcn : cn = b
  · subst hcn
    simp [hne]
  · simp [hcn, Ne.symm hcn]

/-- **Racing requests agree.**  Requests come at once, some with the name that registers itself and
some with others, and their statements interleave in any way.  Names are compared as the database
does.  A request with the name that registers itself that is through was resolved to the row of the
name, and there is one such row, if there was one before or the role in the settings is a role.  All
rows there were are as they were; when the name had a row or the role is none, nothing is added, and
else at most the row of the name.  Requests with other names find what there was, or the row of the
name if the database takes theirs for it, and never change anything.  No request takes more than
five statements, and as long as one is not through, one can go on. -/
theorem racing_bootstrap_requests_agree {b : String}
    (hb : settings.authBootstrapOperatorCn = some b) (hne : b ≠ "") {es : List (ℕ × Action)}
    (hrun : Run.run (Config.step (stepRequest settings)) (start db₀ names) es = some c) :
    (∀ i operator, names[i]? = some b → (c.proc i).bind Request.result = some operator →
      (∃ row ∈ db₀.operators.rows, coll.same row.cn b = true) ∨
        OperatorRole.ofValue settings.authBootstrapOperatorRole ≠ none →
      ∃ row ∈ c.shared.committed.operators.rows, operator = some row ∧
        coll.same row.cn b = true ∧
        ∀ other ∈ c.shared.committed.operators.rows, coll.same other.cn b = true → other = row) ∧
    (∀ row ∈ db₀.operators.rows, row ∈ c.shared.committed.operators.rows) ∧
    ((∃ row ∈ db₀.operators.rows, coll.same row.cn b = true) ∨
        OperatorRole.ofValue settings.authBootstrapOperatorRole = none →
      c.shared.committed = db₀) ∧
    (∀ row ∈ c.shared.committed.operators.rows, row ∉ db₀.operators.rows →
      row.cn = b ∧ OperatorRole.ofValue settings.authBootstrapOperatorRole = some row.role ∧
        row.status = .active) ∧
    (∀ i cn, names[i]? = some cn → cn ≠ b →
      (∀ operator, (c.proc i).bind Request.result = some operator →
        operator = db₀.operatorByCn cn ∨
          coll.same b cn = true ∧ operator = c.shared.committed.operatorByCn b) ∧
      ∀ a c', Config.step (stepRequest settings) c (i, a) = some c' → c'.shared = c.shared) ∧
    (∀ i, (es.map Prod.fst).count i ≤ 5) ∧
    ((∀ i, i < names.length → ∃ operator, (c.proc i).bind Request.result = some operator) ∨
      ∃ e c', Config.step (stepRequest settings) c e = some c') := by
  have hc := reached_of_run hrun
  have hcn := bootstrapRole_eq hb hne
  have hregistered := hc.inv.shared.committed
  refine ⟨fun i operator hname hresult hwhen ↦ ?_, fun row hrow ↦ ?_, ?_, fun row hrow hnew ↦ ?_,
    fun i cn hname hother ↦ ⟨fun operator hresult ↦ ?_, fun a c' h ↦ ?_⟩, fun i ↦ ?_, ?_⟩
  · obtain ⟨hlookup, hnone⟩ := hc.result hname hresult
    cases operator with
    | none =>
      obtain ⟨hold, hinvalid⟩ := hnone rfl
      rw [hcn, if_pos rfl] at hinvalid
      obtain ⟨row, hrow, hsame⟩ := hwhen.resolve_right (not_not_intro hinvalid)
      exact absurd hsame (Bool.eq_false_iff.mp (Registry.operatorByCn_eq_none.mp hold row hrow))
    | some row =>
      obtain ⟨hmem, hsame⟩ := Registry.operatorByCn_eq_some (hlookup row rfl)
      refine ⟨row, hmem, rfl, hsame, fun other hmem' hsame' ↦ ?_⟩
      exact c.shared.committed.cn_unique.eq_of_same hmem' hmem
        (coll.trans hsame' (coll.symm hsame))
  · exact hregistered.mem_of_mem hrow
  · rintro (⟨row, hrow, hsame⟩ | hinvalid)
    · exact hregistered.eq_of_mem hrow hb hsame
    · exact hregistered.eq_of_bootstrapRole fun cn ↦ by rw [hcn, hinvalid, ite_self]
  · obtain ⟨hown, hactive⟩ := (hregistered.mem hrow).resolve_left hnew
    rw [hcn, Option.ite_none_right_eq_some] at hown
    exact ⟨hown.1, hown.2, hactive⟩
  · obtain ⟨hlookup, hnone⟩ := hc.result hname hresult
    cases operator with
    | none => exact .inl (hnone rfl).1.symm
    | some row =>
      refine (hregistered.operatorByCn_cases cn).imp (fun heq ↦ ?_) fun hname ↦ ?_
      · rw [← heq, hlookup row rfl]
      · obtain ⟨name, hname, hsame⟩ := hname
        obtain rfl : b = name := Option.some.inj (hb.symm.trans hname)
        exact ⟨hsame, by rw [Registry.operatorByCn_congr hsame, hlookup row rfl]⟩
  · exact shared_of_step hc hname (by rw [hcn, if_neg hother]) h
  · refine (Config.count_le_rank (K := Reached settings db₀ names) (fun _ _ _ hc h ↦
      reached_step hc h) reached_start hrun i).trans ?_
    show rankOf (names[i]?.map _) ≤ 5
    cases names[i]? <;> simp [rankOf, Phase.rank]
  · by_cases hall : ∀ i, i < names.length →
        ∃ operator, (c.proc i).bind Request.result = some operator
    · exact .inl hall
    · right
      push Not at hall
      obtain ⟨i, hi, hnot⟩ := hall
      obtain ⟨q, hq⟩ := hc.present i hi
      refine exists_step hc hq (Option.eq_none_iff_forall_ne_some.mpr fun operator heq ↦ ?_)
      exact hnot operator (by rw [hq, Option.bind_some, heq])

end

/-! ## Two requests -/

def noRows : Registry .binary := ⟨.empty, .empty, .empty, .nil, List.nodup_nil, .nil⟩

/-- The first two operators of a fresh hub. -/
def race : List (ℕ × Action) :=
  [(0, .lookup), (1, .lookup), (0, .consult), (1, .consult), (0, .insert 1 0), (0, .commit),
    (1, .insert 2 5), (1, .rollback), (0, .refresh), (1, .refetch)]

/-- Both get the same row. -/
theorem racing_bootstrap_requests_agree_race :
    let settings : AuthSettings := { tlsRequired := true, authBootstrapOperatorCn := some "ops" }
    ∃ c, Run.run (Config.step (stepRequest settings)) (start noRows ["ops", "ops"]) race = some c ∧
      ∃ row, (c.proc 0).bind Request.result = some (some row) ∧
        (c.proc 1).bind Request.result = some (some row) := by
  intro settings
  have hrun : (Run.run (Config.step (stepRequest settings)) (start noRows ["ops", "ops"])
      race).any (fun c ↦ ((c.proc 0).bind Request.result).isSome &&
        ((c.proc 1).bind Request.result).isSome) = true := by decide +kernel
  obtain ⟨c, hc, hresults⟩ := (Option.any_eq_true _ _).mp hrun
  rw [Bool.and_eq_true, Option.isSome_iff_exists, Option.isSome_iff_exists] at hresults
  obtain ⟨⟨operator₀, h₀⟩, operator₁, h₁⟩ := hresults
  have hagree := (racing_bootstrap_requests_agree (b := "ops") rfl (by decide) hc).1
  obtain ⟨row₀, hrow₀, rfl, hcn₀, -⟩ := hagree 0 operator₀ rfl h₀ (.inr (by decide))
  obtain ⟨row₁, -, rfl, -, honly⟩ := hagree 1 operator₁ rfl h₁ (.inr (by decide))
  exact ⟨c, hc, row₁, by rw [h₀, honly row₀ hrow₀ hcn₀], h₁⟩

/-- A role that is none registers nobody. -/
theorem invalid_role_registers_nobody :
    let settings : AuthSettings :=
      { tlsRequired := true
        authBootstrapOperatorCn := some "ops"
        authBootstrapOperatorRole := "root" }
    ∃ c, Run.run (Config.step (stepRequest settings)) (start noRows ["ops"])
        [(0, .lookup), (0, .consult)] = some c ∧
      (c.proc 0).bind Request.result = some none ∧ c.shared.committed.operators.rows = [] := by
  intro settings
  have hrun : (Run.run (Config.step (stepRequest settings)) (start noRows ["ops"])
      [(0, .lookup), (0, .consult)]).any (fun c ↦ (c.proc 0).bind Request.result = some none &&
        c.shared.committed.operators.rows = []) = true := by decide +kernel
  obtain ⟨c, hc, hresult⟩ := (Option.any_eq_true _ _).mp hrun
  rw [Bool.and_eq_true, decide_eq_true_iff, decide_eq_true_iff] at hresult
  exact ⟨c, hc, hresult⟩

end Bootstrap

end WgManager
