import WgManager.Certs
import WgManager.Lib.Paging

/-!
# The `/audit` router

`list_audit_events` of `routers/audit.py` counts the rows that match the filters of a request, and
answers with a page of them, newest first.  The filters are written out for both queries.  The log
is a table whose payloads are texts that `json.loads` reads as a `dict`, as `audit.persist` writes
them.

How the database compares texts is a parameter, and so is the order in which it gives the rows of a
query, as far as `ORDER BY ts DESC, id DESC` leaves it open.  It does not: the id tells the rows of
one moment apart (`tellsApart_newer`).  So whoever walks through the pages sees each matching row
once (`audit_walk_misses_and_repeats_nothing`).
-/

set_option autoImplicit false

namespace WgManager.AuditLog

open Paging

/-! ## The table -/

/-- A row of `auditevent`. -/
structure Row where
  id : ℕ
  ts : Datetime
  event : String
  actorCn : Option String := none
  actorSerial : Option String := none
  actorRole : Option String := none
  resourceType : String
  resourceId : Option ℤ := none
  action : String
  beforeHash : Option String := none
  afterHash : Option String := none
  payload : Option String := none
  requestId : Option String := none
  deriving DecidableEq

instance : Keyed Row := ⟨Row.id⟩

/-- `AuditEventRead`, with a payload of type `Dict`. -/
structure AuditEventRead (Dict : Type*) where
  id : ℕ
  ts : Datetime
  event : String
  actorCn : Option String
  actorSerial : Option String
  actorRole : Option String
  resourceType : String
  resourceId : Option ℤ
  action : String
  beforeHash : Option String
  afterHash : Option String
  payload : Option Dict
  requestId : Option String

/-- `AuditEventListResponse`. -/
structure AuditEventListResponse (Dict : Type*) where
  items : List (AuditEventRead Dict)
  total : ℕ
  limit : ℕ
  offset : ℕ

/-- The log: `json.loads` reads every payload. -/
structure Log {Dict : Type*} (loads : String → Option Dict) where
  table : Table Row
  readable : ∀ row ∈ table.rows, ∀ blob ∈ row.payload, (loads blob).isSome

/-! ## The request -/

/-- The optional filters of a request. -/
structure Filters where
  event : Option String := none
  actorCn : Option String := none
  resourceType : Option String := none
  resourceId : Option ℤ := none
  since : Option Datetime := none
  until_ : Option Datetime := none

/-- `_MAX_LIMIT`. -/
def maxLimit : ℕ := 500

/-- `Query(gt=0, le=_MAX_LIMIT)`. -/
structure Limit where
  val : ℕ
  pos : 0 < val
  le : val ≤ maxLimit

/-- `_RequireAdminOrAuditor`, on the role of the operator that the middleware has put into the
request. -/
def requireAdminOrAuditor : Option OperatorRole → Except HttpError Unit
  | none => .error ⟨401, "operator unknown"⟩
  | some .admin | some .auditor => .ok ()
  | some _ => .error ⟨403, "role not permitted"⟩

/-! ## The handler -/

/-- The condition of an optional filter. -/
def whereSome {β : Type} (filter : Option β) (condition : β → Row → Bool) : List (Row → Bool) :=
  match filter with
  | none => []
  | some value => [condition value]

/-- `SELECT … WHERE`, with conditions that are joined by `AND`. -/
def select (rows : List Row) (conditions : List (Row → Bool)) : List Row :=
  rows.filter fun row ↦ conditions.all (· row)

/-- `ORDER BY ts DESC, id DESC`. -/
def Newer (a b : Row) : Prop := b.ts < a.ts ∨ b.ts = a.ts ∧ b.id < a.id

instance (a b : Row) : Decidable (Newer a b) := inferInstanceAs (Decidable (_ ∨ _))

section

variable {Dict : Type} (loads : String → Option Dict) (sameText : String → String → Bool)

/-- `_row_to_read`.  `none` is what `json.loads` or the schema raises. -/
def rowToRead (row : Row) : Option (AuditEventRead Dict) := do
  let payload ← match row.payload with
    | none => some none
    | some blob => (loads blob).map some
  some { row with payload }

/-- The conditions of `base`. -/
def base (f : Filters) : List (Row → Bool) :=
  whereSome f.event (fun event row ↦ sameText row.event event) ++
    whereSome f.actorCn (fun cn row ↦ row.actorCn.any (sameText · cn)) ++
    whereSome f.resourceType (fun resource row ↦ sameText row.resourceType resource) ++
    whereSome f.resourceId (fun id row ↦ row.resourceId == some id) ++
    whereSome f.since (fun since row ↦ decide (since ≤ row.ts)) ++
    whereSome f.until_ (fun bound row ↦ decide (row.ts < bound))

/-- The conditions of `count_base`. -/
def countBase (f : Filters) : List (Row → Bool) :=
  whereSome f.event (fun event row ↦ sameText row.event event) ++
    whereSome f.actorCn (fun cn row ↦ row.actorCn.any (sameText · cn)) ++
    whereSome f.resourceType (fun resource row ↦ sameText row.resourceType resource) ++
    whereSome f.resourceId (fun id row ↦ row.resourceId == some id) ++
    whereSome f.since (fun since row ↦ decide (since ≤ row.ts)) ++
    whereSome f.until_ (fun bound row ↦ decide (row.ts < bound))

/-- `list_audit_events`, with its `query`th query for rows.  What `_row_to_read` raises ends in a
500. -/
def listAuditEvents (sql : OrderBy Newer) (query : ℕ) (operator : Option OperatorRole)
    (table : Table Row) (f : Filters) (limit : Limit) (offset : ℕ) :
    Except HttpError (AuditEventListResponse Dict) := do
  requireAdminOrAuditor operator
  let total := (select table.rows (countBase sameText f)).length
  let pageRows := page limit.val offset
    (sql.arrange query (select table.rows (base sameText f)))
  match pageRows.mapM (rowToRead loads) with
  | none => .error ⟨500, "Internal Server Error"⟩
  | some items => .ok ⟨items, total, limit.val, offset⟩

end

/-! ## What matches -/

section

variable {Dict : Type} {loads : String → Option Dict} {sameText : String → String → Bool}

/-- The row passes every filter that is given. -/
def Filters.Matches (sameText : String → String → Bool) (f : Filters) (row : Row) : Prop :=
  (∀ event ∈ f.event, sameText row.event event) ∧
    (∀ cn ∈ f.actorCn, ∃ actorCn ∈ row.actorCn, sameText actorCn cn) ∧
    (∀ resource ∈ f.resourceType, sameText row.resourceType resource) ∧
    (∀ id ∈ f.resourceId, row.resourceId = some id) ∧
    (∀ since ∈ f.since, since ≤ row.ts) ∧ ∀ bound ∈ f.until_, row.ts < bound

theorem all_whereSome {β : Type} (filter : Option β) (condition : β → Row → Bool) (row : Row) :
    (whereSome filter condition).all (· row) = true ↔
      ∀ value ∈ filter, condition value row = true := by
  cases filter <;> simp [whereSome]

theorem all_base {f : Filters} {row : Row} :
    (base sameText f).all (· row) = true ↔ f.Matches sameText row := by
  simp only [base, List.all_append, Bool.and_eq_true, all_whereSome, Option.any_eq_true,
    beq_iff_eq, decide_eq_true_eq, and_assoc, Filters.Matches, Option.mem_def]

instance (f : Filters) : DecidablePred (f.Matches sameText) := fun _ ↦
  decidable_of_iff _ all_base

/-- The rows that match. -/
def matching (sameText : String → String → Bool) (f : Filters) (rows : List Row) : List Row :=
  rows.filter (f.Matches sameText)

theorem select_base (f : Filters) (rows : List Row) :
    select rows (base sameText f) = matching sameText f rows :=
  List.filter_congr fun row _ ↦ by
    rw [Bool.eq_iff_iff, all_base, decide_eq_true_eq]

/-- Both queries have the same conditions. -/
theorem select_countBase (f : Filters) (rows : List Row) :
    select rows (countBase sameText f) = matching sameText f rows :=
  select_base f rows

/-! ## The order -/

variable {table : Table Row} {f : Filters} {rows : List Row}

theorem newer_asymm {a b : Row} (h : Newer a b) : ¬Newer b a := by
  rcases h with hts | ⟨hts, hid⟩ <;> rintro (hts' | ⟨hts', hid'⟩)
  · exact lt_asymm hts hts'
  · exact lt_irrefl _ (hts' ▸ hts)
  · exact lt_irrefl _ (hts ▸ hts')
  · exact lt_asymm hid hid'

/-- Rows of one moment have different ids. -/
theorem tellsApart_newer (h : ∀ row ∈ rows, row ∈ table.rows) : TellsApart Newer rows := by
  intro a ha b hb hab hba
  have hts : a.ts = b.ts :=
    le_antisymm (not_lt.mp fun hlt ↦ hab (.inl hlt)) (not_lt.mp fun hlt ↦ hba (.inl hlt))
  have hid : a.id = b.id := le_antisymm (not_lt.mp fun hlt ↦ hab (.inr ⟨hts.symm, hlt⟩))
    (not_lt.mp fun hlt ↦ hba (.inr ⟨hts, hlt⟩))
  exact table.eq_of_pk_eq (h a ha) (h b hb) hid

theorem mem_of_mem_matching {row : Row} (h : row ∈ matching sameText f rows) : row ∈ rows :=
  List.mem_of_mem_filter h

/-- The matching rows, each of them once, newest first. -/
structure Trail (sameText : String → String → Bool) (table : Table Row) (f : Filters)
    (rows : List Row) : Prop where
  perm : rows.Perm (matching sameText f table.rows)
  sorted : rows.Pairwise Newer

theorem Trail.nodup (h : Trail sameText table f rows) : rows.Nodup :=
  h.sorted.imp fun {a b} hnewer (heq : a = b) ↦ by
    subst heq
    exact newer_asymm hnewer hnewer

theorem Trail.mem_iff (h : Trail sameText table f rows) {row : Row} :
    row ∈ rows ↔ row ∈ table.rows ∧ f.Matches sameText row := by
  rw [h.perm.mem_iff, matching, List.mem_filter, decide_eq_true_eq]

/-- Whatever the database does, it gives the trail. -/
theorem trail_arrange (sql : OrderBy Newer) (query : ℕ) (table : Table Row) (f : Filters) :
    Trail sameText table f (sql.arrange query (matching sameText f table.rows)) where
  perm := sql.perm query _
  sorted := by
    have hnodup : (matching sameText f table.rows).Nodup :=
      (List.Nodup.of_map _ table.nodup).filter _
    have happart : TellsApart Newer (matching sameText f table.rows) :=
      tellsApart_newer fun _ ↦ mem_of_mem_matching
    have hperm := sql.perm query (matching sameText f table.rows)
    have hne := hperm.nodup_iff.mpr hnodup
    refine ((sql.sorted query _).and hne).imp_of_mem fun {a b} ha hb hab ↦ ?_
    by_contra hnewer
    exact hab.2 (happart a (hperm.mem_iff.mp ha) b (hperm.mem_iff.mp hb) hnewer hab.1)

theorem Trail.eq_arrange (h : Trail sameText table f rows) (sql : OrderBy Newer) (query : ℕ) :
    sql.arrange query (matching sameText f table.rows) = rows :=
  sql.arrange_eq query (tellsApart_newer fun _ ↦ mem_of_mem_matching) h.perm
    (h.sorted.imp fun hnewer ↦ newer_asymm hnewer)

/-! ## Pages -/

/-- Every row of the log can be shown. -/
theorem exists_reads (log : Log loads) (h : ∀ row ∈ rows, row ∈ log.table.rows) :
    ∃ items, rows.mapM (rowToRead loads) = some items := by
  have hone : ∀ row ∈ log.table.rows, ∃ item, rowToRead loads row = some item := by
    intro row hrow
    rw [rowToRead]
    cases hpayload : row.payload with
    | none => exact ⟨_, rfl⟩
    | some blob =>
      obtain ⟨dict, hdict⟩ := Option.isSome_iff_exists.mp (log.readable row hrow blob hpayload)
      dsimp only
      rw [hdict]
      exact ⟨_, rfl⟩
  induction rows with
  | nil => exact ⟨[], rfl⟩
  | cons row rows ih =>
    rw [List.forall_mem_cons] at h
    obtain ⟨item, hitem⟩ := hone row h.1
    obtain ⟨items, hitems⟩ := ih h.2
    exact ⟨item :: items, by rw [List.mapM_cons, hitem, hitems]; rfl⟩

theorem mapM_page {items : List (AuditEventRead Dict)}
    (h : rows.mapM (rowToRead loads) = some items) (limit offset : ℕ) :
    (page limit offset rows).mapM (rowToRead loads) = some (page limit offset items) := by
  rw [mapM_eq_some_iff] at h ⊢
  exact List.forall₂_take _ (List.forall₂_drop _ h)

/-- A page of the trail, with the number of rows in it. -/
theorem listAuditEvents_eq {operator : Option OperatorRole} {items : List (AuditEventRead Dict)}
    (hop : requireAdminOrAuditor operator = .ok ()) (htrail : Trail sameText table f rows)
    (hitems : rows.mapM (rowToRead loads) = some items) (sql : OrderBy Newer) (query : ℕ)
    (limit : Limit) (offset : ℕ) :
    listAuditEvents loads sameText sql query operator table f limit offset =
      .ok ⟨page limit.val offset items, rows.length, limit.val, offset⟩ := by
  have hpage :
      (page limit.val offset (sql.arrange query (select table.rows (base sameText f)))).mapM
        (rowToRead loads) = some (page limit.val offset items) := by
    rw [select_base, htrail.eq_arrange sql query, mapM_page hitems]
  have htotal : (select table.rows (countBase sameText f)).length = rows.length := by
    rw [select_countBase, htrail.perm.length_eq]
  rw [listAuditEvents, hop, htotal]
  dsimp only [bind, Except.bind]
  rw [hpage]

/-- The pages at offsets `0`, `limit`, `2 * limit` and so on, one after another. -/
def walk (loads : String → Option Dict) (sameText : String → String → Bool) (sql : OrderBy Newer)
    (operator : Option OperatorRole) (table : Table Row) (f : Filters) (limit : Limit) (n : ℕ) :
    Except HttpError (List (AuditEventRead Dict)) := do
  let pages ← (List.range n).mapM fun k ↦
    listAuditEvents loads sameText sql k operator table f limit (k * limit.val)
  .ok (pages.flatMap (·.items))

theorem walk_eq {operator : Option OperatorRole} {items : List (AuditEventRead Dict)}
    (hop : requireAdminOrAuditor operator = .ok ()) (htrail : Trail sameText table f rows)
    (hitems : rows.mapM (rowToRead loads) = some items) (sql : OrderBy Newer) (limit : Limit)
    {n : ℕ} (hn : rows.length ≤ n * limit.val) :
    walk loads sameText sql operator table f limit n = .ok items := by
  have hlen : rows.length = items.length := (mapM_eq_some_iff.mp hitems).length_eq
  have hpages : (fun k ↦ listAuditEvents loads sameText sql k operator table f limit
      (k * limit.val)) = fun k ↦ (pure ⟨page limit.val (k * limit.val) items, rows.length,
        limit.val, k * limit.val⟩ : Except HttpError (AuditEventListResponse Dict)) :=
    funext fun k ↦ listAuditEvents_eq hop htrail hitems sql k limit _
  have hflat : ((List.range n).map fun k ↦ (⟨page limit.val (k * limit.val) items, rows.length,
      limit.val, k * limit.val⟩ : AuditEventListResponse Dict)).flatMap (·.items) = items := by
    rw [List.flatMap_map]
    exact (flatMap_page limit.val items n).trans (List.take_of_length_le (hlen ▸ hn))
  rw [walk, hpages, List.mapM_pure]
  dsimp only [bind, Except.bind, pure, Except.pure]
  rw [hflat]

/-! ## Windows -/

/-- The filters, with this window. -/
def Filters.window (f : Filters) (since until_ : Datetime) : Filters :=
  { f with since := some since, until_ := some until_ }

theorem matches_window {since bound : Datetime} {row : Row} :
    (f.window since bound).Matches sameText row ↔
      ({ f with since := none, until_ := none } : Filters).Matches sameText row ∧
        since ≤ row.ts ∧ row.ts < bound := by
  simp only [Filters.Matches, Filters.window, Option.mem_def, Option.some_inj, forall_eq',
    reduceCtorEq, false_implies, implies_true, and_true, and_assoc]

/-- A window that is cut in two: the rows of the later part come first. -/
theorem trail_window {since mid bound : Datetime} {rows₁ rows₂ : List Row} (hsince : since ≤ mid)
    (hbound : mid ≤ bound) (h : Trail sameText table (f.window since bound) rows)
    (h₁ : Trail sameText table (f.window since mid) rows₁)
    (h₂ : Trail sameText table (f.window mid bound) rows₂) :
    rows = rows₂ ++ rows₁ ∧ rows₁.Disjoint rows₂ := by
  have hearlier : ∀ row ∈ rows₁, row.ts < mid := fun row hrow ↦
    (matches_window.mp (h₁.mem_iff.mp hrow).2).2.2
  have hlater : ∀ row ∈ rows₂, mid ≤ row.ts := fun row hrow ↦
    (matches_window.mp (h₂.mem_iff.mp hrow).2).2.1
  have hsorted : (rows₂ ++ rows₁).Pairwise Newer := by
    rw [List.pairwise_append]
    exact ⟨h₂.sorted, h₁.sorted, fun a ha b hb ↦
      .inl (lt_of_lt_of_le (hearlier b hb) (hlater a ha))⟩
  have hdisjoint : rows₁.Disjoint rows₂ := fun row hrow hrow' ↦
    absurd (hearlier row hrow) (not_lt.mpr (hlater row hrow'))
  have hnodup : (rows₂ ++ rows₁).Nodup := by
    rw [List.nodup_append_comm]
    exact h₁.nodup.append h₂.nodup hdisjoint
  have hperm : rows.Perm (rows₂ ++ rows₁) := by
    rw [List.perm_ext_iff_of_nodup h.nodup hnodup]
    intro row
    rw [List.mem_append, h.mem_iff, h₁.mem_iff, h₂.mem_iff, matches_window, matches_window,
      matches_window]
    constructor
    · rintro ⟨hrow, hrest, hge, hlt⟩
      rcases lt_or_ge row.ts mid with hmid | hmid
      · exact .inr ⟨hrow, hrest, hge, hmid⟩
      · exact .inl ⟨hrow, hrest, hmid, hlt⟩
    · rintro (⟨hrow, hrest, hge, hlt⟩ | ⟨hrow, hrest, hge, hlt⟩)
      · exact ⟨hrow, hrest, le_trans hsince hge, hlt⟩
      · exact ⟨hrow, hrest, hge, lt_of_lt_of_le hlt hbound⟩
  refine ⟨List.Perm.eq_of_pairwise (fun a b _ _ hab hba ↦ ?_) h.sorted hsorted hperm, hdisjoint⟩
  exact absurd hba (newer_asymm hab)

/-- **Walking the audit log misses and repeats nothing.**  The pages that an admin or auditor asks
for one after another are the matching rows, each once, newest first and those of one moment by
descending id; each page tells how many they are; and a window can be cut in two anywhere. -/
theorem audit_walk_misses_and_repeats_nothing (sql : OrderBy Newer) (log : Log loads)
    {operator : Option OperatorRole} (hop : operator = some .admin ∨ operator = some .auditor) :
    (∀ f limit, ∃ rows items, Trail sameText log.table f rows ∧
        rows.mapM (rowToRead loads) = some items ∧
        (∀ query offset,
          listAuditEvents loads sameText sql query operator log.table f limit offset =
            .ok ⟨page limit.val offset items, (matching sameText f log.table.rows).length,
              limit.val, offset⟩) ∧
        ∀ n, (matching sameText f log.table.rows).length ≤ n * limit.val →
          walk loads sameText sql operator log.table f limit n = .ok items) ∧
      ∀ (f : Filters) (since mid bound : Datetime) (rows rows₁ rows₂ : List Row), since ≤ mid →
        mid ≤ bound → Trail sameText log.table (f.window since bound) rows →
        Trail sameText log.table (f.window since mid) rows₁ →
        Trail sameText log.table (f.window mid bound) rows₂ →
          rows = rows₂ ++ rows₁ ∧ rows₁.Disjoint rows₂ := by
  have hallowed : requireAdminOrAuditor operator = .ok () := by
    rcases hop with rfl | rfl <;> rfl
  refine ⟨fun f limit ↦ ?_, fun f since mid bound rows rows₁ rows₂ hsince hbound h h₁ h₂ ↦
    trail_window hsince hbound h h₁ h₂⟩
  have htrail : Trail sameText log.table f _ := trail_arrange sql 0 log.table f
  obtain ⟨items, hitems⟩ := exists_reads log fun row hrow ↦ (htrail.mem_iff.mp hrow).1
  refine ⟨_, items, htrail, hitems, fun query offset ↦ ?_, fun n hn ↦ ?_⟩
  · rw [← htrail.perm.length_eq]
    exact listAuditEvents_eq hallowed htrail hitems sql query limit offset
  · rw [← htrail.perm.length_eq] at hn
    exact walk_eq hallowed htrail hitems sql limit hn

end

/-- A database that sorts by insertion. -/
def insertionOrder : OrderBy Newer :=
  have htotal : Std.Total fun a b : Row ↦ ¬Newer b a :=
    ⟨fun a b ↦ or_iff_not_imp_left.mpr fun h ↦ newer_asymm (not_not.mp h)⟩
  have htrans : IsTrans Row fun a b ↦ ¬Newer b a := ⟨fun a b c hab hbc hca ↦ by
    simp only [Newer, not_or, not_lt, not_and] at hab hbc hca
    rcases hca with hts | ⟨hts, hid⟩
    · exact absurd hts (not_lt.mpr (le_trans hbc.1 hab.1))
    · have hbc' : b.ts = c.ts := le_antisymm (hts ▸ hab.1) hbc.1
      have hab' : a.ts = b.ts := hts.trans hbc'.symm
      exact absurd hid (not_lt.mpr (le_trans (hbc.2 hbc') (hab.2 hab')))⟩
  { arrange _ rows := rows.insertionSort fun a b ↦ ¬Newer b a
    perm _ rows := rows.perm_insertionSort _
    sorted _ rows := rows.pairwise_insertionSort _ }

/-- Three rows of one moment. -/
def burst : Log (fun blob ↦ if blob = "[]" then some () else none) where
  table :=
    { rows := [1, 2, 3].map fun id ↦
        { id, ts := 10, event := "server.create", resourceType := "server", action := "create",
          payload := some "[]" }
      nodup := by decide }
  readable := by
    intro row hrow blob hblob
    obtain ⟨id, -, rfl⟩ := List.mem_map.mp hrow
    cases hblob
    rfl

/-- Two pages of two rows have all three. -/
theorem audit_walk_misses_and_repeats_nothing_burst :
    ∃ items, walk (fun blob ↦ if blob = "[]" then some () else none) (· == ·) insertionOrder
      (some .auditor) burst.table {} ⟨2, by decide, by decide⟩ 2 = .ok items ∧
        items.length = 3 := by
  obtain ⟨rows, items, htrail, hitems, -, hwalk⟩ :=
    (@audit_walk_misses_and_repeats_nothing _ _ (· == ·) insertionOrder burst _
      (.inr rfl)).1 {} ⟨2, by decide, by decide⟩
  have htotal : (matching (· == ·) {} burst.table.rows).length = 3 := by decide +kernel
  refine ⟨items, hwalk 2 (by rw [htotal]; decide), ?_⟩
  rw [← (mapM_eq_some_iff.mp hitems).length_eq, htrail.perm.length_eq, htotal]

end WgManager.AuditLog
