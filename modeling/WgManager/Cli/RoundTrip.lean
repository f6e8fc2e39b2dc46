import WgManager.Cli.Backup
import Mathlib.Data.List.Perm.Basic

/-!
# Restore undoes backup

A backup of a database that is restored with `--drop-existing`, into a database of any content and
possibly of another kind, leaves exactly the rows that were backed up (`restore_undoes_backup`).
The other kind must take no texts for the same that the first one tells apart, and keep the times
that the first one keeps: a plain `DATETIME` of MySQL rounds what SQLite keeps to whole seconds.

* A value is read from its cell, written to JSON, read from JSON and stored in a cell again.  The
  type of its column decides each time what becomes of it, and `exists_survives` goes through the
  types.  A row is `carry`ed over column by column.
* The tables are emptied from the last to the first and filled from the first to the last
  (`deleteTables_eq`, `restoreTables_eq`), so that no statement meets a foreign key that is not
  satisfied.  All that is used of the order is that parents come before children.
* The document is read back with sorted keys, and out of its envelope (`readDocument_encrypted`).

JSON text, ISO times and the cryptography are parameters, and what is assumed of them is that they
read what they have written.
-/

set_option autoImplicit false

namespace WgManager.Backup

open Metadata PyBytes

/-! ## One value -/

section

variable {env : Env} {d d₁ d₂ : Dialect} {type : ColumnType} {cell : Cell} {c : Column}
  {t : TableDef} {row : Row}

/-- A cell of the type of a column. -/
def fits (d : Dialect) : ColumnType → Cell → Bool
  | .integer, .int _ => true
  | .unsignedBigInteger, .int n =>
    if d.native then decide (0 ≤ n ∧ n < uint64Limit)
    else decide (-int64Limit ≤ n ∧ n < int64Limit)
  | .boolean, .bool _ => true
  | .string, .text _ => true
  | .utcDateTime, .datetime micros => d.keeps micros == micros
  | .enum cls, .text name => cls.members.any (·.1 == name)
  | _, _ => false

/-- A cell that a column can have. -/
def holds (d : Dialect) (c : Column) (cell : Cell) : Bool :=
  if cell = .null then c.nullable else fits d c.type cell

/-- The cell that stands for the same value in another database. -/
def rebind (d₁ d₂ : Dialect) : ColumnType → Cell → Cell
  | .unsignedBigInteger, .int n =>
    .int ((processBindParam d₂.native (processResultValue d₁.native n)).getD 0)
  | _, cell => cell

/-- `datetime.fromisoformat` reads what `isoformat` has written for the cell. -/
def IsoRoundTrips (env : Env) (cell : Cell) : Prop :=
  ∀ micros, cell = .datetime micros →
    env.fromisoformat (env.isoformat ⟨micros, some 0⟩) = some ⟨micros, some 0⟩

/-- A database keeps the time in the cell as it is. -/
def Kept (d : Dialect) (cell : Cell) : Prop :=
  ∀ micros, cell = .datetime micros → d.keeps micros = micros

/-- The time in a cell is one that its column keeps. -/
theorem kept_of_holds (h : holds d c cell = true) : Kept d cell := by
  rintro micros rfl
  rw [holds, if_neg (by simp)] at h
  rw [fits.eq_def] at h
  split at h
  case h_5 heq =>
    cases heq
    exact beq_iff_eq.mp h
  all_goals simp_all

/-- The members of an enumeration have different values. -/
theorem find_memberValue {cls : EnumClass} {name : String}
    (h : cls.members.any (·.1 == name) = true) :
    cls.members.find? (·.2 == memberValue cls name) = some (name, memberValue cls name) := by
  obtain ⟨m, hm, hname⟩ := List.any_eq_true.mp h
  obtain rfl : m.1 = name := by simpa using hname
  have hall : ∀ cls : EnumClass, ∀ m ∈ cls.members,
      cls.members.find? (·.2 == memberValue cls m.1) = some (m.1, memberValue cls m.1) := by
    rintro (_ | _ | _ | _ | _) <;> decide
  exact hall cls m hm

/-- The number that a cell of an unsigned column stands for. -/
theorem processResultValue_bounds {n : ℤ} (h : fits d .unsignedBigInteger (.int n) = true) :
    0 ≤ processResultValue d.native n ∧ processResultValue d.native n < uint64Limit := by
  rw [fits] at h
  rw [processResultValue]
  split at h <;> simp only [decide_eq_true_iff] at h
  · rw [if_pos ‹_›]
    exact h
  · rw [if_neg ‹_›]
    rw [uint64Limit, int64Limit] at *
    split <;> omega

/-- What is folded on the way in is unfolded on the way out. -/
theorem processResultValue_of_bind {native : Bool} {value n : ℤ}
    (h : processBindParam native value = some n) : processResultValue native n = value := by
  rw [processBindParam] at h
  split at h
  · cases h
  rename_i hrange
  split at h
  · rename_i hfold
    cases h
    rw [processResultValue, hfold.1]
    rw [if_neg (by decide), if_pos (by omega)]
    omega
  · rename_i hfold
    cases h
    rw [processResultValue]
    cases native with
    | true => rfl
    | false =>
      rw [if_neg (by decide), if_neg (by omega)]

theorem processBindParam_isSome {native : Bool} {value : ℤ} (h : 0 ≤ value ∧ value < uint64Limit) :
    ∃ n, processBindParam native value = some n := by
  rw [processBindParam, if_neg (not_not.mpr h)]
  split
  · exact ⟨_, rfl⟩
  · exact ⟨_, rfl⟩

/-- What a value is to survive: it is read, written to JSON, read from JSON, and stored. -/
structure Survives (env : Env) (d₁ d₂ : Dialect) (type : ColumnType) (cell : Cell) (v : PyVal) :
    Prop where
  read : result d₁ type cell = some v
  json : deserializeValue env type (serializeValue env v).sortKeys = some v
  stored : bind d₂ type v = some (rebind d₁ d₂ type cell)
  reread : result d₂ type (rebind d₁ d₂ type cell) = some v

theorem survives_null : Survives env d₁ d₂ type .null (.json .null) := by
  cases type <;> exact ⟨rfl, rfl, rfl, rfl⟩

theorem survives_unsigned {n : ℤ} (h : fits d₁ .unsignedBigInteger (.int n) = true) :
    Survives env d₁ d₂ .unsignedBigInteger (.int n)
      (.json (.int (processResultValue d₁.native n))) := by
  have hbounds := processResultValue_bounds h
  obtain ⟨m, hm⟩ : ∃ m, processBindParam d₂.native (processResultValue d₁.native n) = some m :=
    processBindParam_isSome hbounds
  have hcell : rebind d₁ d₂ .unsignedBigInteger (.int n) = .int m := by
    rw [rebind, hm, Option.getD_some]
  refine ⟨rfl, rfl, ?_, ?_⟩
  · rw [hcell, Metadata.bind, hm, Option.map_some]
  · rw [hcell, result, processResultValue_of_bind hm]

theorem survives_member {cls : EnumClass} {name : String}
    (h : cls.members.any (·.1 == name) = true) :
    Survives env d₁ d₂ (.enum cls) (.text name) (.member cls name) := by
  have hread (d : Dialect) : result d (.enum cls) (.text name) = some (.member cls name) := by
    rw [result, if_pos h]
  refine ⟨hread d₁, ?_, ?_, hread d₂⟩
  · rw [serializeValue, Json.sortKeys, deserializeValue]
    simp only [find_memberValue h]
    rfl
  · rw [Metadata.bind, if_pos rfl]
    rfl

theorem survives_datetime {micros : ℤ} (h : IsoRoundTrips env (.datetime micros))
    (hkept : d₂.keeps micros = micros) :
    Survives env d₁ d₂ .utcDateTime (.datetime micros) (.datetime ⟨micros, some 0⟩) := by
  refine ⟨rfl, ?_, ?_, rfl⟩
  · rw [serializeValue, Json.sortKeys, deserializeValue]
    simp only [h micros rfl]
    rfl
  · simp [Metadata.bind, rebind, hkept]

/-- **Every value survives**, in every column. -/
theorem exists_survives (h : holds d₁ c cell = true) (hiso : IsoRoundTrips env cell)
    (hkept : Kept d₂ cell) :
    ∃ v, Survives env d₁ d₂ c.type cell v := by
  rw [holds] at h
  split at h
  · rename_i hnull
    exact ⟨_, hnull ▸ survives_null⟩
  · generalize c.type = type at h
    have hfits := h
    rw [fits.eq_def] at h
    split at h
    · exact ⟨_, rfl, rfl, rfl, rfl⟩
    · exact ⟨_, survives_unsigned hfits⟩
    · exact ⟨_, rfl, rfl, rfl, rfl⟩
    · exact ⟨_, rfl, rfl, rfl, rfl⟩
    · exact ⟨_, survives_datetime hiso (hkept _ rfl)⟩
    · exact ⟨_, survives_member h⟩
    · cases h

/-- The keys and the texts of a row are stored the same everywhere. -/
theorem rebind_of_ne (h : type ≠ .unsignedBigInteger) : rebind d₁ d₂ type cell = cell := by
  rw [rebind.eq_def]
  split
  · exact absurd rfl h
  · rfl

theorem rebind_eq_null (hnull : rebind d₁ d₂ type cell = .null) : cell = .null := by
  rw [rebind.eq_def] at hnull
  split at hnull
  · cases hnull
  · exact hnull

/-! ## One row -/

/-- What is used of the tables: columns have different keys, one of them is `id`, and no column that
is compared with another is an unsigned one; no table refers to itself. -/
structure TableOk (t : TableDef) : Prop where
  keys : (t.columns.map (·.key)).Nodup
  id : idColumn ∈ t.columns
  unique : ∀ keys ∈ t.unique, ∀ key ∈ keys,
    ∃ c ∈ t.columns, c.key = key ∧ c.type ≠ .unsignedBigInteger
  foreignKey : ∀ c ∈ t.columns, c.foreignKey ≠ none → c.type ≠ .unsignedBigInteger
  notSelf : ∀ c ∈ t.columns, c.foreignKey ≠ some t.name

theorem tableOk (h : t ∈ metadata) : TableOk t where
  keys := (by decide +kernel : ∀ t ∈ metadata, (t.columns.map (·.key)).Nodup) t h
  id := (by decide +kernel : ∀ t ∈ metadata, idColumn ∈ t.columns) t h
  unique := (by decide +kernel : ∀ t ∈ metadata, ∀ keys ∈ t.unique, ∀ key ∈ keys,
    ∃ c ∈ t.columns, c.key = key ∧ c.type ≠ .unsignedBigInteger) t h
  foreignKey := (by decide +kernel : ∀ t ∈ metadata, ∀ c ∈ t.columns, c.foreignKey ≠ none →
    c.type ≠ .unsignedBigInteger) t h
  notSelf := (by decide +kernel : ∀ t ∈ metadata, ∀ c ∈ t.columns,
    c.foreignKey ≠ some t.name) t h

/-- The cells are of the types of their columns, and their times can be written, and kept by the
other database. -/
def RowOk (env : Env) (d₁ d₂ : Dialect) (t : TableDef) (row : Row) : Prop :=
  ∀ c ∈ t.columns, holds d₁ c (row c.key) = true ∧ IsoRoundTrips env (row c.key) ∧
    Kept d₂ (row c.key)

/-- What a program sees in a column. -/
def valueOf (d : Dialect) (row : Row) (c : Column) : PyVal :=
  (result d c.type (row c.key)).getD (.json .null)

/-- What a program sees of a row. -/
def valuesOf (d : Dialect) (t : TableDef) (row : Row) : List (String × PyVal) :=
  t.columns.map fun c ↦ (c.key, valueOf d row c)

/-- The row in JSON. -/
def jsonRow (env : Env) (d : Dialect) (t : TableDef) (row : Row) : Json :=
  .obj (t.columns.map fun c ↦ (c.key, serializeValue env (valueOf d row c)))

/-- The row in another database. -/
def carry (d₁ d₂ : Dialect) (t : TableDef) (row : Row) : Row := fun key ↦
  ((t.columns.map fun c ↦ (c.key, rebind d₁ d₂ c.type (row c.key))).lookup key).getD .null

theorem RowOk.survives (h : RowOk env d₁ d₂ t row) (hc : c ∈ t.columns) :
    Survives env d₁ d₂ c.type (row c.key) (valueOf d₁ row c) := by
  obtain ⟨v, hv⟩ := exists_survives (h c hc).1 (h c hc).2.1 (h c hc).2.2
  rwa [valueOf, hv.read, Option.getD_some]

theorem carry_key (ht : TableOk t) (hc : c ∈ t.columns) :
    carry d₁ d₂ t row c.key = rebind d₁ d₂ c.type (row c.key) := by
  rw [carry, Json.lookup_map_of_nodup ht.keys hc, Option.getD_some]

theorem carry_id (ht : TableOk t) : carry d₁ d₂ t row "id" = row "id" :=
  (carry_key ht ht.id).trans (rebind_of_ne (by decide))

theorem mapM_eq_some_map {α β : Type} {f : α → Option β} {g : α → β} {l : List α}
    (h : ∀ a ∈ l, f a = some (g a)) : l.mapM f = some (l.map g) := by
  induction l with
  | nil => rfl
  | cons a rest ih =>
    rw [List.mapM_cons, h a List.mem_cons_self, ih fun b hb ↦ h b (List.mem_cons_of_mem _ hb)]
    rfl

theorem serializeRow_eq (h : RowOk env d₁ d₂ t row) :
    serializeRow env d₁ t row = some (jsonRow env d₁ t row) := by
  have hfields : (t.columns.mapM fun c ↦ do
      let val ← result d₁ c.type (row c.key)
      return (c.key, serializeValue env val)) =
      some (t.columns.map fun c ↦ (c.key, serializeValue env (valueOf d₁ row c))) := by
    refine mapM_eq_some_map fun c hc ↦ ?_
    have hvalue : Survives env d₁ d₂ c.type (row c.key) (valueOf d₁ row c) := h.survives hc
    rw [hvalue.read]
    rfl
  rw [serializeRow, hfields]
  rfl

theorem deserializeColumns_eq {json : Json} {v : Column → PyVal} {j : Column → Json}
    {columns : List Column} (hcontains : ∀ c ∈ columns, json.contains c.key = some true)
    (hget : ∀ c ∈ columns, json.getItem c.key = some (j c))
    (hvalue : ∀ c ∈ columns, deserializeValue env c.type (j c) = some (v c)) :
    deserializeColumns env json columns = some (columns.map fun c ↦ (c.key, v c)) := by
  induction columns with
  | nil => rfl
  | cons c rest ih =>
    have hrest := ih (fun c hc ↦ hcontains c (List.mem_cons_of_mem _ hc))
      (fun c hc ↦ hget c (List.mem_cons_of_mem _ hc))
      (fun c hc ↦ hvalue c (List.mem_cons_of_mem _ hc))
    rw [deserializeColumns, hcontains c List.mem_cons_self]
    simp only [Option.bind_eq_bind, Option.bind_some, if_true, hget c List.mem_cons_self,
      hvalue c List.mem_cons_self, hrest]
    rfl

theorem deserializeRow_eq (ht : TableOk t) (h : RowOk env d₁ d₂ t row) :
    deserializeRow env t (jsonRow env d₁ t row).sortKeys = some (valuesOf d₁ t row) := by
  have hkeys : ((t.columns.map fun c ↦
      (c.key, serializeValue env (valueOf d₁ row c))).map Prod.fst).Nodup := by
    rw [List.map_map]
    exact ht.keys
  refine deserializeColumns_eq (j := fun c ↦ (serializeValue env (valueOf d₁ row c)).sortKeys)
    (fun c hc ↦ ?_) (fun c hc ↦ ?_) fun c hc ↦ ?_
  · rw [jsonRow, Json.contains_sortKeys hkeys, Json.lookup_map_of_nodup ht.keys hc]
    rfl
  · rw [jsonRow, Json.getItem_sortKeys hkeys, Json.lookup_map_of_nodup ht.keys hc]
    rfl
  · have hvalue : Survives env d₁ d₂ c.type (row c.key) (valueOf d₁ row c) := h.survives hc
    exact hvalue.json

theorem id_ne_null (ht : TableOk t) (h : RowOk env d₁ d₂ t row) : row "id" ≠ .null := by
  intro hnull
  have hid : holds d₁ idColumn (row "id") = true := (h idColumn ht.id).1
  rw [hnull] at hid
  cases hid

theorem bindRow_eq (db : Database) (ht : TableOk t) (h : RowOk env d₁ d₂ t row) :
    bindRow d₂ t db ((valuesOf d₁ t row).map Prod.fst) (valuesOf d₁ t row) =
      some (carry d₁ d₂ t row) := by
  have hkeys : (valuesOf d₁ t row).map Prod.fst = t.columns.map (·.key) := by
    rw [valuesOf, List.map_map]
    rfl
  have hcells : (t.columns.mapM fun c ↦
      if c.key ∈ (valuesOf d₁ t row).map Prod.fst then do
        let v ← (valuesOf d₁ t row).lookup c.key
        let cell ← Metadata.bind d₂ c.type v
        return (c.key, cell)
      else some (c.key, d₂.absent t.name c.key)) =
      some (t.columns.map fun c ↦ (c.key, rebind d₁ d₂ c.type (row c.key))) := by
    refine mapM_eq_some_map fun c hc ↦ ?_
    have hvalue : Survives env d₁ d₂ c.type (row c.key) (valueOf d₁ row c) := h.survives hc
    rw [if_pos (hkeys ▸ List.mem_map_of_mem hc), valuesOf, Json.lookup_map_of_nodup ht.keys hc]
    simp only [Option.bind_eq_bind, Option.bind_some, hvalue.stored]
    rfl
  have hid : carry d₁ d₂ t row "id" ≠ .null := by
    rw [carry_id ht]
    exact id_ne_null ht h
  rw [bindRow, hcells]
  exact if_neg hid

end

/-! ## One table -/

/-- The database meets its schema. -/
structure Valid (d : Dialect) (db : Database) : Prop where
  holds : ∀ t ∈ metadata, ∀ r ∈ db t.name, ∀ c ∈ t.columns, holds d c (r c.key) = true
  primaryKey : ∀ t ∈ metadata, (db t.name).Pairwise fun r s ↦ r "id" ≠ s "id"
  unique : ∀ t ∈ metadata, ∀ r ∈ db t.name, ∀ s ∈ db t.name, r "id" ≠ s "id" →
    ∀ keys ∈ t.unique, (keys.all fun key ↦ d.same (r key) (s key)) = false
  foreignKey : ∀ t ∈ metadata, ∀ r ∈ db t.name, ∀ c ∈ t.columns, ∀ target,
    c.foreignKey = some target → refers db target (r c.key) = true

/-- The times of the database can be written and read. -/
def TimesRoundTrip (env : Env) (db : Database) : Prop :=
  ∀ t ∈ metadata, ∀ r ∈ db t.name, ∀ c ∈ t.columns, IsoRoundTrips env (r c.key)

/-- The times survive the way into another database. -/
def TimesSurvive (env : Env) (d : Dialect) (db : Database) : Prop :=
  ∀ t ∈ metadata, ∀ r ∈ db t.name, ∀ c ∈ t.columns, IsoRoundTrips env (r c.key) ∧ Kept d (r c.key)

section

variable {env : Env} {d₁ d₂ : Dialect} {t : TableDef} {src db : Database} {row s : Row}

/-- A database that keeps the times that the other one keeps keeps those of its rows. -/
theorem timesSurvive (hsrc : Valid d₁ src)
    (hkeeps : ∀ micros, d₁.keeps micros = micros → d₂.keeps micros = micros)
    (htimes : TimesRoundTrip env src) : TimesSurvive env d₂ src := by
  intro t ht r hr c hc
  refine ⟨htimes t ht r hr c hc, fun micros hmicros ↦ hkeeps micros ?_⟩
  exact kept_of_holds (hsrc.holds t ht r hr c hc) micros hmicros

/-- A database that compares texts as exactly as another finds no more of them the same. -/
theorem same_mono (h : ∀ a b, d₂.sameText a b = true → d₁.sameText a b = true) {a b : Cell}
    (hab : d₂.same a b = true) : d₁.same a b = true := by
  rw [Dialect.same.eq_def] at hab ⊢
  split at hab
  · cases hab
  · exact h _ _ hab
  · exact hab

theorem rowOk (hsrc : Valid d₁ src) (htimes : TimesSurvive env d₂ src) (ht : t ∈ metadata)
    (hrow : row ∈ src t.name) : RowOk env d₁ d₂ t row :=
  fun c hc ↦ ⟨hsrc.holds t ht row hrow c hc, htimes t ht row hrow c hc⟩

theorem carry_unique (ht : TableOk t) {keys : List String} (hkeys : keys ∈ t.unique) {key : String}
    (hkey : key ∈ keys) : carry d₁ d₂ t row key = row key := by
  obtain ⟨c, hc, rfl, htype⟩ := ht.unique keys hkeys key hkey
  exact (carry_key ht hc).trans (rebind_of_ne htype)

theorem nullViolation_carry (hsrc : Valid d₁ src) (ht : t ∈ metadata) (hrow : row ∈ src t.name) :
    nullViolation t (carry d₁ d₂ t row) = false := by
  rw [nullViolation, List.any_eq_false]
  intro c hc hviolation
  rw [Bool.and_eq_true, Bool.not_eq_true', beq_iff_eq, carry_key (tableOk ht) hc] at hviolation
  have hholds := hsrc.holds t ht row hrow c hc
  rw [holds, if_pos (rebind_eq_null hviolation.2), hviolation.1] at hholds
  cases hholds

theorem uniqueViolation_carry (hsame : ∀ a b, d₂.sameText a b = true → d₁.sameText a b = true)
    (hsrc : Valid d₁ src) (ht : t ∈ metadata) (hrow : row ∈ src t.name) {done : List Row}
    (hdone : ∀ s ∈ done, s ∈ src t.name ∧ s "id" ≠ row "id")
    (hdb : db t.name = done.map (carry d₁ d₂ t)) :
    uniqueViolation d₂ t db (carry d₁ d₂ t row) = false := by
  rw [uniqueViolation, List.any_eq_false, hdb]
  intro r hr hviolation
  obtain ⟨s, hs, rfl⟩ := List.mem_map.mp hr
  obtain ⟨hsmem, hne⟩ := hdone s hs
  rw [Bool.or_eq_true, beq_iff_eq, carry_id (tableOk ht), carry_id (tableOk ht)] at hviolation
  have hany := hviolation.resolve_left hne
  obtain ⟨keys, hkeys, hall⟩ := List.any_eq_true.mp hany
  have hclash : (keys.all fun key ↦ d₁.same (s key) (row key)) = true := by
    refine List.all_eq_true.mpr fun key hkey ↦ same_mono hsame ?_
    have hkey' := List.all_eq_true.mp hall key hkey
    rwa [carry_unique (tableOk ht) hkeys hkey, carry_unique (tableOk ht) hkeys hkey] at hkey'
  rw [hsrc.unique t ht s hsmem row hrow hne keys hkeys] at hclash
  cases hclash

/-- The tables that a table refers to are restored. -/
def TargetsRestored (d₁ d₂ : Dialect) (src db : Database) (t : TableDef) : Prop :=
  ∀ c ∈ t.columns, ∀ target, c.foreignKey = some target → ∃ u ∈ metadata, u.name = target ∧
    ∀ s ∈ src target, carry d₁ d₂ u s ∈ db target

theorem foreignKeyViolation_carry (hsrc : Valid d₁ src) (ht : t ∈ metadata)
    (hrow : row ∈ src t.name) (htargets : TargetsRestored d₁ d₂ src db t) :
    foreignKeyViolation d₂ t db (carry d₁ d₂ t row) = false := by
  rw [foreignKeyViolation, Bool.and_eq_false_iff]
  refine .inr (List.any_eq_false.mpr fun c hc hviolation ↦ ?_)
  obtain ⟨target, htarget, hrefers⟩ := (Option.any_eq_true _ _).mp hviolation
  obtain ⟨u, hu, -, hrestored⟩ := htargets c hc target htarget
  have hplain := (tableOk ht).foreignKey c hc (by rw [htarget]; exact Option.some_ne_none _)
  rw [carry_key (tableOk ht) hc, rebind_of_ne hplain, Bool.not_eq_true', refers,
    Bool.or_eq_false_iff] at hrefers
  have hsome := hsrc.foreignKey t ht row hrow c hc target htarget
  rw [refers, hrefers.1, Bool.false_or] at hsome
  obtain ⟨s, hs, hid⟩ := List.any_eq_true.mp hsome
  refine absurd hid (List.any_eq_false.mp hrefers.2 _ (hrestored s hs) ∘ ?_)
  rw [carry_id (tableOk hu)]
  exact id

theorem insertRow_carry (hsame : ∀ a b, d₂.sameText a b = true → d₁.sameText a b = true)
    (hsrc : Valid d₁ src) (ht : t ∈ metadata) (hrow : row ∈ src t.name) {done : List Row}
    (hdone : ∀ s ∈ done, s ∈ src t.name ∧ s "id" ≠ row "id")
    (hdb : db t.name = done.map (carry d₁ d₂ t)) (htargets : TargetsRestored d₁ d₂ src db t) :
    insertRow d₂ t db (carry d₁ d₂ t row) =
      some (Function.update db t.name ((done ++ [row]).map (carry d₁ d₂ t))) := by
  rw [insertRow, nullViolation_carry hsrc ht hrow,
    uniqueViolation_carry hsame hsrc ht hrow hdone hdb,
    foreignKeyViolation_carry hsrc ht hrow htargets, hdb, List.map_append]
  rfl

theorem TargetsRestored.update (h : TargetsRestored d₁ d₂ src db t) (ht : t ∈ metadata)
    (rows : List Row) : TargetsRestored d₁ d₂ src (Function.update db t.name rows) t := by
  intro c hc target htarget
  obtain ⟨u, hu, hname, hrestored⟩ := h c hc target htarget
  have hne : target ≠ t.name := fun heq ↦ (tableOk ht).notSelf c hc (heq ▸ htarget)
  refine ⟨u, hu, hname, fun s hs ↦ ?_⟩
  rw [Function.update_of_ne hne]
  exact hrestored s hs

theorem execute_eq_ok {statement : Database → Option Database} {db' : Database}
    (h : statement db = some db') : execute statement db = .ok () db' := by
  rw [execute, h]

theorem orRaise_eq_ok {α : Type} {x : Option α} {a : α} (h : x = some a) :
    orRaise x db = .ok a db := by
  rw [h]
  rfl

/-- The rows of a table are inserted one after the other. -/
theorem insertRows_eq (hsame : ∀ a b, d₂.sameText a b = true → d₁.sameText a b = true)
    (hsrc : Valid d₁ src) (htimes : TimesSurvive env d₂ src) (ht : t ∈ metadata)
    (done : List Row) {rest : List Row} (hrows : ∀ r ∈ done ++ rest, r ∈ src t.name)
    (hids : (done ++ rest).Pairwise fun r s ↦ r "id" ≠ s "id")
    (hdb : db t.name = done.map (carry d₁ d₂ t)) (htargets : TargetsRestored d₁ d₂ src db t) :
    insertRows d₂ t (t.columns.map (·.key)) (rest.map (valuesOf d₁ t)) db =
      .ok () (Function.update db t.name ((done ++ rest).map (carry d₁ d₂ t))) := by
  induction rest generalizing done db with
  | nil =>
    rw [List.append_nil, ← hdb, Function.update_eq_self]
    rfl
  | cons row rest ih =>
    have hrow : row ∈ src t.name := hrows row (by simp)
    have hbind : bindRow d₂ t db ((valuesOf d₁ t row).map Prod.fst) (valuesOf d₁ t row) =
        some (carry d₁ d₂ t row) := bindRow_eq db (tableOk ht) (rowOk hsrc htimes ht hrow)
    have hkeys : (valuesOf d₁ t row).map Prod.fst = t.columns.map (·.key) := by
      rw [valuesOf, List.map_map]
      rfl
    rw [hkeys] at hbind
    have hdone : ∀ s ∈ done, s ∈ src t.name ∧ s "id" ≠ row "id" := fun s hs ↦
      ⟨hrows s (List.mem_append_left _ hs),
        (List.pairwise_append.mp hids).2.2 s hs row List.mem_cons_self⟩
    have hinsert := insertRow_carry hsame hsrc ht hrow hdone hdb htargets
    have happend : done ++ row :: rest = done ++ [row] ++ rest := by simp
    rw [happend] at hrows hids ⊢
    have hrest := ih _ hrows hids (Function.update_self ..)
      (htargets.update ht ((done ++ [row]).map (carry d₁ d₂ t)))
    rw [Function.update_idem] at hrest
    exact Command.bind_eq_ok.mpr ⟨db, db, rfl, Command.bind_eq_ok.mpr ⟨_, db, orRaise_eq_ok hbind,
      Command.bind_eq_ok.mpr ⟨(), _, execute_eq_ok hinsert, hrest⟩⟩⟩

/-- The rows of a table after the restore. -/
def restored (d₁ d₂ : Dialect) (src : Database) (t : TableDef) : List Row :=
  (orderById (src t.name)).map (carry d₁ d₂ t)

theorem mem_orderById {rows : List Row} {r : Row} : r ∈ orderById rows ↔ r ∈ rows :=
  List.mem_insertionSort _

/-- **One table is restored.** -/
theorem restoreTable_eq (hsame : ∀ a b, d₂.sameText a b = true → d₁.sameText a b = true)
    (hsrc : Valid d₁ src) (htimes : TimesSurvive env d₂ src) (ht : t ∈ metadata) {tablesData : Json}
    (hdata : tablesData.getItem t.name =
      some (Json.arr ((orderById (src t.name)).map (jsonRow env d₁ t))).sortKeys)
    (hempty : db t.name = []) (htargets : TargetsRestored d₁ d₂ src db t) :
    ∃ line, restoreTable env d₂ tablesData t db =
      .ok line (Function.update db t.name (restored d₁ d₂ src t)) := by
  have hiter : (Json.arr ((orderById (src t.name)).map (jsonRow env d₁ t))).sortKeys.iter =
      some ((orderById (src t.name)).map fun row ↦ (jsonRow env d₁ t row).sortKeys) := by
    rw [Json.iter_sortKeys, List.map_map]
    rfl
  have hvalues : ((orderById (src t.name)).map fun row ↦ (jsonRow env d₁ t row).sortKeys).mapM
      (deserializeRow env t) = some ((orderById (src t.name)).map (valuesOf d₁ t)) := by
    rw [List.mapM_map]
    refine mapM_eq_some_map fun row hrow ↦ ?_
    exact deserializeRow_eq (tableOk ht) (rowOk hsrc htimes ht (mem_orderById.mp hrow))
  have hinsert : insertMany d₂ t ((orderById (src t.name)).map (valuesOf d₁ t)) db =
      .ok () (Function.update db t.name (restored d₁ d₂ src t)) := by
    have hids : (orderById (src t.name)).Pairwise fun r s ↦ r "id" ≠ s "id" :=
      (List.perm_insertionSort _ _).symm.pairwise (hsrc.primaryKey t ht) fun h ↦ h.symm
    have hall : insertRows d₂ t (t.columns.map (·.key))
        ((orderById (src t.name)).map (valuesOf d₁ t)) db =
        .ok () (Function.update db t.name (restored d₁ d₂ src t)) :=
      insertRows_eq hsame hsrc htimes ht [] (fun r hr ↦ mem_orderById.mp hr) hids hempty htargets
    rcases hrows : orderById (src t.name) with - | ⟨row, rest⟩
    · rw [hrows] at hall
      exact hall
    · rw [hrows] at hall
      have hkeys : (valuesOf d₁ t row).map Prod.fst = t.columns.map (·.key) := by
        rw [valuesOf, List.map_map]
        rfl
      rw [List.map_cons, insertMany, hkeys]
      exact hall
  exact ⟨_, Command.bind_eq_ok.mpr ⟨_, db, orRaise_eq_ok hdata, Command.bind_eq_ok.mpr ⟨_, db,
    orRaise_eq_ok hiter, Command.bind_eq_ok.mpr ⟨_, db, orRaise_eq_ok hvalues,
      Command.bind_eq_ok.mpr ⟨(), _, hinsert, rfl⟩⟩⟩⟩⟩

end

/-! ## All tables -/

/-- Every foreign key names a table that comes before, or one of `seen`. -/
def fkOrdered : List String → List TableDef → Bool
  | _, [] => true
  | seen, t :: rest =>
    (t.columns.all fun c ↦ c.foreignKey.all (· ∈ seen)) && fkOrdered (t.name :: seen) rest

/-- What `sorted_tables` is: all tables, with parents before children. -/
structure SortedTables (tables : List TableDef) : Prop where
  perm : tables.Perm metadata
  ordered : fkOrdered [] tables = true

section

variable {env : Env} {d₁ d₂ : Dialect} {t : TableDef} {src db : Database}
  {tables : List TableDef} {seen : List String}

theorem SortedTables.mem_iff (h : SortedTables tables) : t ∈ tables ↔ t ∈ metadata :=
  h.perm.mem_iff

theorem SortedTables.names (h : SortedTables tables) : (tables.map (·.name)).Nodup :=
  (h.perm.map _).nodup_iff.mpr (by decide +kernel)

/-- The tables that come before are restored, and the ones that come after are empty. -/
structure Halfway (d₁ d₂ : Dialect) (src db : Database) (seen : List String)
    (rest : List TableDef) : Prop where
  restored : ∀ u ∈ metadata, u.name ∈ seen → db u.name = restored d₁ d₂ src u
  empty : ∀ u ∈ rest, db u.name = []

/-- **All tables are restored**, in the order of their foreign keys. -/
theorem restoreTables_eq (seen : List String)
    (hsame : ∀ a b, d₂.sameText a b = true → d₁.sameText a b = true)
    (hsrc : Valid d₁ src) (htimes : TimesSurvive env d₂ src) {tablesData : Json}
    (hdata : ∀ t ∈ metadata, tablesData.getItem t.name =
      some (Json.arr ((orderById (src t.name)).map (jsonRow env d₁ t))).sortKeys)
    (htables : ∀ t ∈ tables, t ∈ metadata) (hnames : (tables.map (·.name)).Nodup)
    (hseen : ∀ name ∈ seen, ∃ u ∈ metadata, u.name = name)
    (hordered : fkOrdered seen tables = true) (hdb : Halfway d₁ d₂ src db seen tables) :
    ∃ lines db', restoreTables env d₂ tablesData tables db = .ok lines db' ∧
      ∀ u ∈ metadata, u.name ∈ seen ∨ u ∈ tables → db' u.name = restored d₁ d₂ src u := by
  induction tables generalizing seen db with
  | nil => exact ⟨[], db, rfl, fun u hu hor ↦ hdb.restored u hu (hor.resolve_right (by simp))⟩
  | cons t rest ih =>
    have ht : t ∈ metadata := htables t List.mem_cons_self
    rw [List.map_cons, List.nodup_cons] at hnames
    rw [fkOrdered, Bool.and_eq_true] at hordered
    have htargets : TargetsRestored d₁ d₂ src db t := by
      intro c hc target htarget
      have hall := List.all_eq_true.mp hordered.1 c hc
      rw [htarget, Option.all_some, decide_eq_true_iff] at hall
      obtain ⟨u, hu, hname⟩ := hseen target hall
      refine ⟨u, hu, hname, fun s hs ↦ ?_⟩
      rw [← hname, hdb.restored u hu (hname ▸ hall)]
      exact List.mem_map_of_mem (mem_orderById.mpr (hname ▸ hs))
    obtain ⟨line, hline⟩ := restoreTable_eq hsame hsrc htimes ht (hdata t ht)
      (hdb.empty t List.mem_cons_self) htargets
    have hnext : Halfway d₁ d₂ src (Function.update db t.name (restored d₁ d₂ src t))
        (t.name :: seen) rest := by
      refine ⟨fun u hu hmem ↦ ?_, fun u hu ↦ ?_⟩
      · by_cases hname : u.name = t.name
        · obtain rfl : u = t :=
            (by decide +kernel : ∀ u ∈ metadata, ∀ t ∈ metadata, u.name = t.name → u = t)
              u hu t ht hname
          exact Function.update_self ..
        · rw [Function.update_of_ne hname]
          exact hdb.restored u hu ((List.mem_cons.mp hmem).resolve_left hname)
      · have hname : u.name ≠ t.name := fun heq ↦ hnames.1 (heq ▸ List.mem_map_of_mem hu)
        rw [Function.update_of_ne hname]
        exact hdb.empty u (List.mem_cons_of_mem _ hu)
    have hseen' : ∀ name ∈ t.name :: seen, ∃ u ∈ metadata, u.name = name := by
      intro name hname
      rcases List.mem_cons.mp hname with rfl | hname
      · exact ⟨t, ht, rfl⟩
      · exact hseen name hname
    obtain ⟨lines, db', hlines, hrestored⟩ := ih _
      (fun u hu ↦ htables u (List.mem_cons_of_mem _ hu)) hnames.2 hseen' hordered.2 hnext
    refine ⟨line :: lines, db', Command.bind_eq_ok.mpr ⟨line, _, hline,
      Command.bind_eq_ok.mpr ⟨lines, db', hlines, rfl⟩⟩, fun u hu hor ↦ hrestored u hu ?_⟩
    rcases hor with hmem | hmem
    · exact .inl (List.mem_cons_of_mem _ hmem)
    · rcases List.mem_cons.mp hmem with rfl | hmem
      · exact .inl List.mem_cons_self
      · exact .inr hmem

/-- A foreign key of one of the first tables names one of them. -/
theorem foreignKey_mem {pre rest : List TableDef} (h : fkOrdered seen (pre ++ rest) = true)
    (ht : t ∈ pre) {c : Column} (hc : c ∈ t.columns) {target : String}
    (htarget : c.foreignKey = some target) : target ∈ seen ∨ target ∈ pre.map (·.name) := by
  induction pre generalizing seen with
  | nil => cases ht
  | cons u pre ih =>
    rw [List.cons_append, fkOrdered, Bool.and_eq_true] at h
    rcases List.mem_cons.mp ht with rfl | ht
    · have hall := List.all_eq_true.mp h.1 c hc
      rw [htarget, Option.all_some, decide_eq_true_iff] at hall
      exact .inl hall
    · rw [List.map_cons, List.mem_cons]
      rcases ih h.2 ht with hmem | hmem
      · rcases List.mem_cons.mp hmem with heq | hmem
        · exact .inr (.inl heq)
        · exact .inl hmem
      · exact .inr (.inr hmem)

/-- A table can be emptied when the tables that come after it are empty: only these refer to it. -/
theorem deleteAll_eq {pre after : List TableDef} (hsorted : SortedTables (pre ++ t :: after))
    (hafter : ∀ u ∈ after, db u.name = []) :
    deleteAll d₂ t db = some (Function.update db t.name []) := by
  have hreferenced : isReferenced t db = false := by
    rw [isReferenced, List.any_eq_false]
    intro other hother hrefers
    rw [Bool.and_eq_true, bne_iff_ne] at hrefers
    obtain ⟨c, hc, hcolumn⟩ := List.any_eq_true.mp hrefers.2
    rw [Bool.and_eq_true, beq_iff_eq] at hcolumn
    have hempty : db other.name = [] := by
      rcases List.mem_append.mp (hsorted.mem_iff.mpr hother) with hpre | hmem
      · -- a table that comes before refers to tables before it only
        have hnames := hsorted.names
        rw [List.map_append, List.map_cons, List.nodup_append'] at hnames
        have hmem := (foreignKey_mem hsorted.ordered hpre hc hcolumn.1).resolve_left (by simp)
        exact absurd List.mem_cons_self (hnames.2.2 hmem)
      · rcases List.mem_cons.mp hmem with rfl | hmem
        · exact absurd rfl hrefers.1
        · exact hafter other hmem
    rw [hempty] at hcolumn
    cases hcolumn.2
  rw [deleteAll, hreferenced, Bool.and_false]
  rfl

/-- **All tables are emptied**, in the opposite order. -/
theorem deleteTables_eq {pre after : List TableDef} (hsorted : SortedTables (pre ++ after))
    (hafter : ∀ u ∈ after, db u.name = []) :
    ∃ db', deleteTables d₂ pre.reverse db = .ok () db' ∧ ∀ u ∈ pre ++ after, db' u.name = [] := by
  induction pre using List.reverseRecOn generalizing after db with
  | nil => exact ⟨db, rfl, hafter⟩
  | append_singleton pre t ih =>
    rw [List.append_assoc, List.singleton_append] at hsorted ⊢
    have hdelete : deleteAll d₂ t db = some (Function.update db t.name []) :=
      deleteAll_eq hsorted hafter
    have hnext : ∀ u ∈ t :: after, Function.update db t.name [] u.name = [] := by
      intro u hu
      by_cases hname : u.name = t.name
      · rw [hname, Function.update_self]
      · rw [Function.update_of_ne hname]
        exact hafter u ((List.mem_cons.mp hu).resolve_left fun heq ↦ hname (heq ▸ rfl))
    obtain ⟨db', hrun, hempty⟩ := ih hsorted hnext
    rw [List.reverse_append, List.reverse_singleton, List.singleton_append]
    exact ⟨db', Command.bind_eq_ok.mpr ⟨(), _, execute_eq_ok hdelete, hrun⟩, hempty⟩

end

/-! ## The document -/

section

variable {env : Env} {d₁ d₂ : Dialect} {t : TableDef} {src db : Database}
  {tables : List TableDef}

/-- The rows of a table in JSON. -/
def jsonTable (env : Env) (d : Dialect) (db : Database) (t : TableDef) : Json :=
  .arr ((orderById (db t.name)).map (jsonRow env d t))

/-- All rows in JSON. -/
def jsonTables (env : Env) (d : Dialect) (tables : List TableDef) (db : Database) : Json :=
  .obj (tables.map fun t ↦ (t.name, jsonTable env d db t))

/-- What a backup writes. -/
def document (env : Env) (d : Dialect) (tables : List TableDef) (db : Database) : Json :=
  .obj [("version", .int backupVersion), ("tables", jsonTables env d tables db)]

theorem dump_eq (hsorted : SortedTables tables) (hsrc : Valid d₁ src)
    (htimes : TimesSurvive env d₂ src) :
    dump env d₁ tables src = some (document env d₁ tables src) := by
  have htable : ∀ t ∈ tables, dumpTable env d₁ src t = some (t.name, jsonTable env d₁ src t) := by
    intro t ht
    have hrows : (orderById (src t.name)).mapM (serializeRow env d₁ t) =
        some ((orderById (src t.name)).map (jsonRow env d₁ t)) :=
      mapM_eq_some_map fun row hrow ↦
        serializeRow_eq (rowOk hsrc htimes (hsorted.mem_iff.mp ht) (mem_orderById.mp hrow))
    rw [dumpTable, hrows]
    rfl
  rw [dump, mapM_eq_some_map htable]
  rfl

theorem carriedTables_eq {tablesData : Json}
    (h : ∀ t ∈ tables, tablesData.contains t.name = some true) :
    carriedTables tablesData tables = some tables := by
  induction tables with
  | nil => rfl
  | cons t rest ih =>
    rw [carriedTables, h t List.mem_cons_self, ih fun u hu ↦ h u (List.mem_cons_of_mem _ hu)]
    rfl

theorem tables_keys (hsorted : SortedTables tables) : ((tables.map fun t ↦
    (t.name, jsonTable env d₁ src t)).map Prod.fst).Nodup := by
  rw [List.map_map]
  exact hsorted.names

theorem getItem_jsonTables (hsorted : SortedTables tables) (ht : t ∈ tables) :
    (jsonTables env d₁ tables src).sortKeys.getItem t.name =
      some (jsonTable env d₁ src t).sortKeys := by
  rw [jsonTables, Json.getItem_sortKeys (tables_keys hsorted),
    Json.lookup_map_of_nodup hsorted.names ht]
  rfl

theorem contains_jsonTables (hsorted : SortedTables tables) (ht : t ∈ tables) :
    (jsonTables env d₁ tables src).sortKeys.contains t.name = some true := by
  rw [jsonTables, Json.contains_sortKeys (tables_keys hsorted),
    Json.lookup_map_of_nodup hsorted.names ht]
  rfl

/-- The document is of a supported version, and it carries all tables. -/
theorem readTables_eq (hsorted : SortedTables tables) :
    readTables env tables (document env d₁ tables src).sortKeys db =
      .ok ((jsonTables env d₁ tables src).sortKeys, tables) db := by
  have hversion : (document env d₁ tables src).sortKeys.get? "version" =
      some (some (.int backupVersion)) := by
    rw [document, Json.get?_sortKeys (by simp)]
    rfl
  have htables : (document env d₁ tables src).sortKeys.getItem "tables" =
      some (jsonTables env d₁ tables src).sortKeys := by
    rw [document, Json.getItem_sortKeys (by simp)]
    rfl
  have hcarried : carriedTables (jsonTables env d₁ tables src).sortKeys tables = some tables :=
    carriedTables_eq fun t ht ↦ contains_jsonTables hsorted ht
  exact Command.bind_eq_ok.mpr ⟨_, db, orRaise_eq_ok hversion, Command.bind_eq_ok.mpr ⟨_, db,
    orRaise_eq_ok htables, Command.bind_eq_ok.mpr ⟨_, db, orRaise_eq_ok hcarried, rfl⟩⟩⟩

theorem safetyCheck_true (tables : List TableDef) : safetyCheck true tables db = .ok () db := by
  induction tables with
  | nil => rfl
  | cons t rest ih =>
    refine Command.bind_eq_ok.mpr ⟨db, db, rfl, ?_⟩
    rw [if_neg (by simp)]
    exact ih

/-- What the transaction of a restore of a backup does. -/
theorem restoreBody_eq (hsame : ∀ a b, d₂.sameText a b = true → d₁.sameText a b = true)
    (hsorted : SortedTables tables) (hsrc : Valid d₁ src) (htimes : TimesSurvive env d₂ src) :
    ∃ lines db', restoreBody env d₂ true (jsonTables env d₁ tables src).sortKeys tables db =
      .ok lines db' ∧ ∀ t ∈ metadata, db' t.name = restored d₁ d₂ src t := by
  obtain ⟨db₁, hdelete, hempty⟩ : ∃ db₁, deleteTables d₂ tables.reverse db = .ok () db₁ ∧
      ∀ u ∈ tables ++ [], db₁ u.name = [] := by
    refine deleteTables_eq ?_ (by simp)
    rwa [List.append_nil]
  rw [List.append_nil] at hempty
  obtain ⟨lines, db', hrun, hrestored⟩ := restoreTables_eq [] hsame hsrc htimes
    (fun t ht ↦ getItem_jsonTables hsorted (hsorted.mem_iff.mpr ht))
    (fun t ht ↦ hsorted.mem_iff.mp ht) hsorted.names (by simp) hsorted.ordered
    ⟨by simp, hempty⟩
  refine ⟨lines, db', ?_, fun t ht ↦ hrestored t ht (.inr (hsorted.mem_iff.mpr ht))⟩
  exact Command.bind_eq_ok.mpr ⟨(), db, safetyCheck_true tables,
    Command.bind_eq_ok.mpr ⟨(), db₁, hdelete, hrun⟩⟩

/-- What a program sees of a row does not change on the way. -/
theorem valuesOf_carry (ht : TableOk t) {row : Row} (h : RowOk env d₁ d₂ t row) :
    valuesOf d₂ t (carry d₁ d₂ t row) = valuesOf d₁ t row := by
  refine List.map_congr_left fun c hc ↦ ?_
  have hvalue : Survives env d₁ d₂ c.type (row c.key) (valueOf d₁ row c) := h.survives hc
  have hcarried : valueOf d₂ (carry d₁ d₂ t row) c = valueOf d₁ row c := by
    rw [valueOf, carry_key ht hc, hvalue.reread, Option.getD_some]
  rw [hcarried]

theorem perm_restored (hsrc : Valid d₁ src) (htimes : TimesSurvive env d₂ src) (ht : t ∈ metadata) :
    ((restored d₁ d₂ src t).map (valuesOf d₂ t)).Perm ((src t.name).map (valuesOf d₁ t)) := by
  have hvalues : (restored d₁ d₂ src t).map (valuesOf d₂ t) =
      (orderById (src t.name)).map (valuesOf d₁ t) := by
    rw [restored, List.map_map]
    exact List.map_congr_left fun row hrow ↦
      valuesOf_carry (tableOk ht) (rowOk hsrc htimes ht (mem_orderById.mp hrow))
  rw [hvalues]
  exact (List.perm_insertionSort _ _).map _

/-! ## The envelope -/

/-- The crypto backend and AES-GCM decrypt what they have encrypted. -/
structure Unlocks (env : Env) (dekCt : String) : Prop where
  wrap : env.wrap env.dek env.context = some dekCt
  unwrap : env.unwrap (.str dekCt) (.str env.context) = .ok env.dek
  aes : ∀ plaintext, env.aesDecrypt env.dek env.nonce
    (env.aesEncrypt env.dek env.nonce plaintext) = .ok plaintext

theorem b64decode_b64 (raw : Bytes) : b64decode (.str (b64 raw)) = .ok raw := by
  have hascii : ((b64 raw).toList.all fun c ↦ c.val < 128) = true := by
    rw [b64, String.toList_ofList, List.all_eq_true]
    exact fun c hc ↦ decide_eq_true (Base64.encode_lt raw c hc)
  rw [b64decode, if_pos hascii, b64, String.toList_ofList, Base64.lenient_encode]

/-- The fields of the envelope around a text. -/
def envelopeFields (env : Env) (dekCt : String) (plaintext : Bytes) : List (String × Json) :=
  [("version", .int backupVersion), ("encrypted", .bool true), ("created_at", .str env.createdAt),
    ("context", .str env.context), ("dek_ct", .str dekCt), ("nonce_b64", .str (b64 env.nonce)),
    ("ciphertext_b64", .str (b64 (env.aesEncrypt env.dek env.nonce plaintext)))]

section

variable {dekCt : String} {plaintext : Bytes}

theorem nodup_envelopeFields : ((envelopeFields env dekCt plaintext).map Prod.fst).Nodup := by
  change ["version", "encrypted", "created_at", "context", "dek_ct", "nonce_b64",
    "ciphertext_b64"].Nodup
  decide

theorem envelopeEncrypt_eq (h : Unlocks env dekCt) :
    envelopeEncrypt env plaintext = some (.obj (envelopeFields env dekCt plaintext)) := by
  rw [envelopeEncrypt, h.wrap]
  rfl

theorem getItem_envelope {key s : String}
    (h : (envelopeFields env dekCt plaintext).lookup key = some (.str s)) :
    (Json.obj (envelopeFields env dekCt plaintext)).sortKeys.getItem key = some (.str s) := by
  rw [Json.getItem_sortKeys nodup_envelopeFields, h, Option.map_some, Json.sortKeys]

theorem envelopeDecrypt_eq (h : Unlocks env dekCt) :
    envelopeDecrypt env (Json.obj (envelopeFields env dekCt plaintext)).sortKeys =
      .ok plaintext := by
  set raw := (Json.obj (envelopeFields env dekCt plaintext)).sortKeys with hraw
  have hciphertext : raw.getItem "ciphertext_b64" =
      some (.str (b64 (env.aesEncrypt env.dek env.nonce plaintext))) := getItem_envelope rfl
  have hcontext : raw.getItem "context" = some (.str env.context) := getItem_envelope rfl
  have hdek : raw.getItem "dek_ct" = some (.str dekCt) := getItem_envelope rfl
  have hnonce : raw.getItem "nonce_b64" = some (.str (b64 env.nonce)) := getItem_envelope rfl
  have hmissing : (requiredFields.filter fun key ↦ (raw.getItem key).isNone) = [] := by
    simp [requiredFields, hciphertext, hcontext, hdek, hnonce]
  rw [envelopeDecrypt, hmissing]
  simp only [envelopeField, hciphertext, hcontext, hdek, hnonce, Option.getD_some, h.unwrap,
    b64decode_b64]
  exact h.aes plaintext

end

/-! ## The commands -/

/-- JSON that is written and read again has its keys sorted. -/
def JsonRoundTrips (env : Env) (j : Json) : Prop := env.loads (env.dumps j) = .ok j.sortKeys

theorem readDocument_plain (hjson : JsonRoundTrips env (document env d₁ tables src)) :
    readDocument env (env.dumps (document env d₁ tables src)) false db =
      .ok (document env d₁ tables src).sortKeys db := by
  have hplain : (document env d₁ tables src).sortKeys.get? "encrypted" = some none := by
    rw [document, Json.get?_sortKeys (by simp)]
    rfl
  rw [readDocument, hjson]
  exact Command.bind_eq_ok.mpr ⟨none, db, orRaise_eq_ok hplain, rfl⟩

theorem readDocument_encrypted {dekCt : String} (h : Unlocks env dekCt) {doc : Json}
    (hdoc : JsonRoundTrips env doc)
    (henvelope : JsonRoundTrips env
      (.obj (envelopeFields env dekCt (encodeUtf8 (env.dumps doc))))) :
    readDocument env (env.dumps (.obj (envelopeFields env dekCt (encodeUtf8 (env.dumps doc))))) true
      db = .ok doc.sortKeys db := by
  have hencrypted : (Json.obj (envelopeFields env dekCt
      (encodeUtf8 (env.dumps doc)))).sortKeys.get? "encrypted" = some (some (.bool true)) := by
    rw [Json.get?_sortKeys nodup_envelopeFields]
    rfl
  rw [readDocument, henvelope]
  refine Command.bind_eq_ok.mpr ⟨_, db, orRaise_eq_ok hencrypted, ?_⟩
  have hloads : (env.loads (env.dumps doc)).toOption = some doc.sortKeys := by
    rw [hdoc]
    rfl
  simp only [Option.getD_some, Json.truthy, Bool.not_true, Bool.and_false, Bool.false_eq_true,
    if_false, if_true, envelopeDecrypt_eq h]
  exact Command.bind_eq_ok.mpr ⟨_, db, orRaise_eq_ok (decodeUtf8_encodeUtf8 _),
    orRaise_eq_ok hloads⟩

/-- The rest of a restore, once the document is read. -/
theorem dbRestore_of_document (hsame : ∀ a b, d₂.sameText a b = true → d₁.sameText a b = true)
    (hsorted : SortedTables tables) (hsrc : Valid d₁ src) (htimes : TimesSurvive env d₂ src)
    {inputFile text : String} {decrypt : Bool}
    (hread : readDocument env text decrypt db = .ok (document env d₁ tables src).sortKeys db) :
    ∃ lines db', dbRestore env d₂ tables inputFile text true decrypt db = .ok lines db' ∧
      ∀ t ∈ metadata, db' t.name = restored d₁ d₂ src t := by
  obtain ⟨lines, db', hbody, hrestored⟩ := restoreBody_eq hsame hsorted hsrc htimes
  refine ⟨_, db', Command.bind_eq_ok.mpr ⟨_, db, hread, Command.bind_eq_ok.mpr ⟨_, db,
    readTables_eq hsorted, Command.bind_eq_ok.mpr ⟨lines, db', ?_, rfl⟩⟩⟩, hrestored⟩
  exact Command.transaction_eq_ok.mpr hbody

/-- **Restore undoes backup.**  A backup of a database that meets its schema, restored with
`--drop-existing` into a database of any content, completes and leaves the rows of the backup: in
every table, what a program sees of its rows is what it has seen of the rows that were backed up. -/
theorem restore_undoes_backup {encrypt : Bool} (dekCt inputFile : String) (dst : Database)
    (hsorted : SortedTables tables) (hsrc : Valid d₁ src)
    (hsame : ∀ a b, d₂.sameText a b = true → d₁.sameText a b = true)
    (hkeeps : ∀ micros, d₁.keeps micros = micros → d₂.keeps micros = micros)
    (htimes : TimesRoundTrip env src)
    (hdump : ∀ j, dump env d₁ tables src = some j → JsonRoundTrips env j)
    (hencrypt : encrypt = true → Unlocks env dekCt ∧
      ∀ plaintext j, envelopeEncrypt env plaintext = some j → JsonRoundTrips env j) :
    ∃ text lines dst', dbBackup env d₁ tables src encrypt = some text ∧
      dbRestore env d₂ tables inputFile text true encrypt dst = .ok lines dst' ∧
      ∀ t ∈ metadata,
        ((dst' t.name).map (valuesOf d₂ t)).Perm ((src t.name).map (valuesOf d₁ t)) := by
  have htimes := timesSurvive hsrc hkeeps htimes
  have hdocument := hdump _ (dump_eq hsorted hsrc htimes)
  have hread : ∃ text, dbBackup env d₁ tables src encrypt = some text ∧
      readDocument env text encrypt dst = .ok (document env d₁ tables src).sortKeys dst := by
    cases encrypt with
    | false =>
      refine ⟨env.dumps (document env d₁ tables src), ?_, readDocument_plain hdocument⟩
      rw [dbBackup, dump_eq hsorted hsrc htimes]
      rfl
    | true =>
      obtain ⟨hunlocks, henvelope⟩ := hencrypt rfl
      refine ⟨_, ?_, readDocument_encrypted hunlocks hdocument
        (henvelope _ _ (envelopeEncrypt_eq hunlocks))⟩
      rw [dbBackup, dump_eq hsorted hsrc htimes]
      simp only [Option.bind_eq_bind, Option.bind_some, if_true, envelopeEncrypt_eq hunlocks]
      rfl
  obtain ⟨text, hbackup, hdoc⟩ := hread
  obtain ⟨lines, dst', hrestore, hrestored⟩ := dbRestore_of_document hsame hsorted hsrc htimes hdoc
  refine ⟨text, lines, dst', hbackup, hrestore, fun t ht ↦ ?_⟩
  rw [hrestored t ht]
  exact perm_restored hsrc htimes ht

end

/-! ## An example -/

/-- The order in which the tables come. -/
def sortedTables : List TableDef :=
  [tenant, auditevent, operator, sshkey, certificate, operatortenant, server, client,
    discoveredpeer, enrollmenttoken]

theorem sortedTables_ok : SortedTables sortedTables := ⟨by decide +kernel, by decide +kernel⟩

/-- A database without an unsigned type. -/
def plainDialect : Dialect where
  native := false
  enforcesForeignKeys := true
  sameText := (· == ·)
  keeps := id
  coerce := fun _ _ ↦ none
  absent := fun _ _ ↦ .null
  autoId := fun rows ↦ rows.length + 1

/-- The tenant of a new deployment. -/
def defaultTenant : Row
  | "id" => .int 1
  | "name" => .text "Default"
  | "slug" => .text "default"
  | "subnet_pool" => .text "10.0.0.0/8"
  | "created_at" => .datetime 0
  | _ => .null

/-- A certificate of the type whose name is not its value. -/
def mysqlClient : Row
  | "id" => .int 1
  | "serial" => .text "7"
  | "cert_type" => .text "mysql_client"
  | "common_name" => .text "db"
  | "sans" => .text ""
  | "not_before" => .datetime 0
  | "not_after" => .datetime 0
  | "revoked" => .bool false
  | "created_at" => .datetime 0
  | _ => .null

def twoRows : Database
  | "tenant" => [defaultTenant]
  | "certificate" => [mysqlClient]
  | _ => []

/-- The file of a backup of the two rows. -/
def twoRowsText : String := String.intercalate "\n"
  ["\x7b", "  \"tables\": \x7b", "    \"auditevent\": [],", "    \"certificate\": [", "      \x7b",
    "        \"cert_type\": \"mysql-client\",", "        \"common_name\": \"db\",",
    "        \"created_at\": \"1970-01-01T00:00:00+00:00\",", "        \"id\": 1,",
    "        \"not_after\": \"1970-01-01T00:00:00+00:00\",",
    "        \"not_before\": \"1970-01-01T00:00:00+00:00\",", "        \"operator_id\": null,",
    "        \"out_cert_path\": null,", "        \"out_chain_path\": null,",
    "        \"out_key_path\": null,", "        \"revoked\": false,",
    "        \"revoked_at\": null,",
    "        \"sans\": \"\",", "        \"serial\": \"7\",", "        \"tenant_id\": null",
    "      \x7d", "    ],", "    \"client\": [],", "    \"discoveredpeer\": [],",
    "    \"enrollmenttoken\": [],", "    \"operator\": [],", "    \"operatortenant\": [],",
    "    \"server\": [],", "    \"sshkey\": [],", "    \"tenant\": [", "      \x7b",
    "        \"created_at\": \"1970-01-01T00:00:00+00:00\",", "        \"id\": 1,",
    "        \"name\": \"Default\",", "        \"slug\": \"default\",",
    "        \"subnet_pool\": \"10.0.0.0/8\"", "      \x7d", "    ]", "  \x7d,", "  \"version\": 2",
    "\x7d"]

/-- What is used of Python when there is only one time. -/
def atEpoch : Env where
  isoformat := fun d ↦ if d = ⟨0, some 0⟩ then "1970-01-01T00:00:00+00:00" else ""
  fromisoformat := fun s ↦ if s = "1970-01-01T00:00:00+00:00" then some ⟨0, some 0⟩ else none
  dumps := fun _ ↦ twoRowsText
  loads := fun _ ↦ .error "Expecting value"
  str := fun _ ↦ ""
  dek := []
  nonce := []
  createdAt := ""
  context := ""
  aesEncrypt := fun _ _ plaintext ↦ plaintext
  aesDecrypt := fun _ _ _ ↦ .error ""
  wrap := fun _ _ ↦ none
  unwrap := fun _ _ ↦ .error ""

/-- The same, with a `json.loads` that knows the file. -/
def twoRowsEnv : Env :=
  { atEpoch with
    loads := fun text ↦
      if text = twoRowsText then .ok (document atEpoch plainDialect sortedTables twoRows).sortKeys
      else .error "Expecting value" }

theorem loads_twoRowsText : twoRowsEnv.loads twoRowsText =
    .ok (document atEpoch plainDialect sortedTables twoRows).sortKeys := by
  unfold twoRowsEnv
  generalize twoRowsText = text
  exact if_pos rfl

theorem valid_twoRows : Valid plainDialect twoRows where
  holds := by decide +kernel
  primaryKey := by decide +kernel
  unique := by decide +kernel
  foreignKey := by
    have hall : ∀ t ∈ metadata, ∀ r ∈ twoRows t.name, ∀ c ∈ t.columns,
        (c.foreignKey.all fun target ↦ refers twoRows target (r c.key)) = true := by
      decide +kernel
    intro t ht r hr c hc target htarget
    have hrefers := hall t ht r hr c hc
    rwa [htarget, Option.all_some] at hrefers

/-- The only time that is there. -/
def isEpoch : Cell → Bool
  | .datetime micros => micros == 0
  | _ => true

theorem times_twoRows : TimesRoundTrip twoRowsEnv twoRows := by
  have hall : ∀ t ∈ metadata, ∀ r ∈ twoRows t.name, ∀ c ∈ t.columns,
      isEpoch (r c.key) = true := by
    decide +kernel
  intro t ht r hr c hc micros hmicros
  have hzero := hall t ht r hr c hc
  rw [hmicros] at hzero
  obtain rfl : micros = 0 := by simpa [isEpoch] using hzero
  decide +kernel

/-- Two rows are backed up and restored over themselves. -/
theorem restore_undoes_backup_twoRows :
    ∃ text lines dst', dbBackup twoRowsEnv plainDialect sortedTables twoRows false = some text ∧
      dbRestore twoRowsEnv plainDialect sortedTables "backup.json" text true false twoRows =
        .ok lines dst' ∧
      ∀ t ∈ metadata, ((dst' t.name).map (valuesOf plainDialect t)).Perm
        ((twoRows t.name).map (valuesOf plainDialect t)) := by
  refine restore_undoes_backup "" "backup.json" twoRows sortedTables_ok valid_twoRows
    (fun _ _ h ↦ h) (fun _ h ↦ h) times_twoRows (fun j hj ↦ ?_) (by simp)
  have hdocument : dump twoRowsEnv plainDialect sortedTables twoRows =
      some (document atEpoch plainDialect sortedTables twoRows) :=
    dump_eq sortedTables_ok valid_twoRows
      (timesSurvive valid_twoRows (fun _ h ↦ h) times_twoRows)
  rw [hdocument, Option.some.injEq] at hj
  rw [← hj]
  exact loads_twoRowsText

end WgManager.Backup
