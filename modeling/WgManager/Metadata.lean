import WgManager.Lib.Json
import Mathlib.Data.List.Basic
import Mathlib.Logic.Function.Basic

/-!
# The tables as the database sees them

`SQLModel.metadata` is the description of all tables: their columns with their types, what may be
`NULL`, the foreign keys and the unique constraints.  A database of this schema has `Cell`s; a
program sees `PyVal`s, and the type of a column says how the one becomes the other, on the way in
(`bind`) and on the way out (`result`).

* `UTCDateTime` takes aware values only and stores them in UTC.
* An enumeration is stored by the *name* of its members.
* `UnsignedBigInteger` stores a number above `2 ^ 63` as a negative one where the database has no
  unsigned type.

Databases differ, and `Dialect` is what they differ in.  `insertRow` and `deleteAll` are the
statements that matter here, with the constraints that they are checked against.
-/

set_option autoImplicit false

namespace WgManager.Metadata

/-! ## Columns and tables -/

/-- The enumerations that are the type of a column. -/
inductive EnumClass
  | nodeStatus
  | operatorRole
  | operatorStatus
  | certificateType
  | sshKeyMode
  deriving DecidableEq

/-- The members, with their names and their values. -/
def EnumClass.members : EnumClass → List (String × String)
  | nodeStatus => [("pending", "pending"), ("ready", "ready"), ("error", "error")]
  | operatorRole => [("admin", "admin"), ("operator", "operator"), ("auditor", "auditor")]
  | operatorStatus => [("active", "active"), ("disabled", "disabled")]
  | certificateType => [("api", "api"), ("cli", "cli"), ("dashboard", "dashboard"),
      ("mysql", "mysql"), ("mysql_client", "mysql-client")]
  | sshKeyMode => [("legacy", "legacy"), ("ca", "ca")]

inductive ColumnType
  | integer
  | unsignedBigInteger
  | boolean
  | string
  | utcDateTime
  | enum (cls : EnumClass)
  deriving DecidableEq

structure Column where
  key : String
  type : ColumnType
  nullable : Bool := false
  /-- The table whose `id` the column refers to. -/
  foreignKey : Option String := none
  deriving DecidableEq

structure TableDef where
  name : String
  columns : List Column
  /-- The unique constraints, next to the primary key `id`. -/
  unique : List (List String) := []
  deriving DecidableEq

/-- The primary key that every table has. -/
def idColumn : Column := { key := "id", type := .integer }

/-- The namespace that a resource is in. -/
def tenantId : Column :=
  { key := "tenant_id", type := .integer, nullable := true, foreignKey := some "tenant" }

def createdAt : Column := { key := "created_at", type := .utcDateTime }

def tenant : TableDef where
  name := "tenant"
  columns := [idColumn, { key := "name", type := .string }, { key := "slug", type := .string },
    { key := "subnet_pool", type := .string }, createdAt]
  unique := [["name"], ["slug"]]

def sshkey : TableDef where
  name := "sshkey"
  columns := [idColumn, tenantId, { key := "name", type := .string },
    { key := "mode", type := .enum .sshKeyMode }, createdAt]
  unique := [["name"]]

/-- The snapshot of the host certificate, which servers and clients have. -/
def hostCertColumns : List Column :=
  [{ key := "host_cert_pem", type := .string, nullable := true },
    { key := "host_cert_serial", type := .unsignedBigInteger, nullable := true },
    { key := "host_cert_principals", type := .string, nullable := true },
    { key := "host_cert_valid_after", type := .utcDateTime, nullable := true },
    { key := "host_cert_valid_before", type := .utcDateTime, nullable := true },
    { key := "host_cert_ca_public_key", type := .string, nullable := true }]

def server : TableDef where
  name := "server"
  columns := [idColumn, tenantId, { key := "hostname", type := .string },
    { key := "ssh_port", type := .integer }, { key := "ssh_username", type := .string },
    { key := "ssh_key_id", type := .integer, foreignKey := some "sshkey" },
    { key := "endpoint_host", type := .string }, { key := "endpoint_port", type := .integer },
    { key := "interface", type := .string }, { key := "subnet", type := .string },
    { key := "address", type := .string }, { key := "public_key", type := .string },
    { key := "status", type := .enum .nodeStatus }, createdAt] ++ hostCertColumns ++
    [{ key := "reconfig_requested_gen", type := .integer },
      { key := "reconfig_applied_gen", type := .integer }]

def client : TableDef where
  name := "client"
  columns := [idColumn, tenantId, { key := "name", type := .string },
    { key := "hostname", type := .string, nullable := true },
    { key := "ssh_port", type := .integer },
    { key := "ssh_username", type := .string, nullable := true },
    { key := "ssh_key_id", type := .integer, nullable := true, foreignKey := some "sshkey" },
    { key := "server_id", type := .integer, foreignKey := some "server" },
    { key := "address", type := .string }, { key := "public_key", type := .string },
    { key := "is_manual", type := .boolean }, { key := "status", type := .enum .nodeStatus },
    createdAt] ++ hostCertColumns
  unique := [["name"]]

def operator : TableDef where
  name := "operator"
  columns := [idColumn, tenantId, { key := "cn", type := .string },
    { key := "display_name", type := .string, nullable := true },
    { key := "role", type := .enum .operatorRole },
    { key := "status", type := .enum .operatorStatus }, createdAt]
  unique := [["cn"]]

def operatortenant : TableDef where
  name := "operatortenant"
  columns := [idColumn, { key := "operator_id", type := .integer, foreignKey := some "operator" },
    { key := "tenant_id", type := .integer, foreignKey := some "tenant" },
    { key := "role", type := .enum .operatorRole }, createdAt]
  unique := [["operator_id", "tenant_id"]]

def discoveredpeer : TableDef where
  name := "discoveredpeer"
  columns := [idColumn, { key := "server_id", type := .integer, foreignKey := some "server" },
    { key := "public_key", type := .string }, { key := "allowed_ips", type := .string },
    { key := "endpoint", type := .string, nullable := true },
    { key := "last_handshake_at", type := .utcDateTime, nullable := true },
    { key := "rx_bytes", type := .integer }, { key := "tx_bytes", type := .integer },
    { key := "persistent_keepalive", type := .integer, nullable := true },
    { key := "is_managed", type := .boolean }, { key := "first_seen_at", type := .utcDateTime },
    { key := "last_seen_at", type := .utcDateTime }]
  unique := [["server_id", "public_key"]]

def certificate : TableDef where
  name := "certificate"
  columns := [idColumn, tenantId, { key := "serial", type := .string },
    { key := "cert_type", type := .enum .certificateType },
    { key := "operator_id", type := .integer, nullable := true, foreignKey := some "operator" },
    { key := "common_name", type := .string }, { key := "sans", type := .string },
    { key := "not_before", type := .utcDateTime }, { key := "not_after", type := .utcDateTime },
    { key := "revoked", type := .boolean },
    { key := "revoked_at", type := .utcDateTime, nullable := true }, createdAt,
    { key := "out_cert_path", type := .string, nullable := true },
    { key := "out_key_path", type := .string, nullable := true },
    { key := "out_chain_path", type := .string, nullable := true }]
  unique := [["serial"]]

def auditevent : TableDef where
  name := "auditevent"
  columns := [idColumn, tenantId, { key := "ts", type := .utcDateTime },
    { key := "event", type := .string },
    { key := "actor_cn", type := .string, nullable := true },
    { key := "actor_serial", type := .string, nullable := true },
    { key := "actor_role", type := .string, nullable := true },
    { key := "resource_type", type := .string },
    { key := "resource_id", type := .integer, nullable := true },
    { key := "action", type := .string },
    { key := "before_hash", type := .string, nullable := true },
    { key := "after_hash", type := .string, nullable := true },
    { key := "payload", type := .string, nullable := true },
    { key := "request_id", type := .string, nullable := true }]

def enrollmenttoken : TableDef where
  name := "enrollmenttoken"
  columns := [idColumn, tenantId,
    { key := "server_id", type := .integer, foreignKey := some "server" },
    { key := "ssh_key_id", type := .integer, foreignKey := some "sshkey" },
    { key := "ssh_username", type := .string }, { key := "name_prefix", type := .string },
    { key := "token_hash", type := .string }, { key := "max_uses", type := .integer },
    { key := "use_count", type := .integer }, { key := "expires_at", type := .utcDateTime },
    { key := "created_by_cn", type := .string, nullable := true }, createdAt,
    { key := "revoked_at", type := .utcDateTime, nullable := true },
    { key := "revoked_by_cn", type := .string, nullable := true },
    { key := "allowed_cidrs", type := .string, nullable := true }]
  unique := [["token_hash"]]

/-- `SQLModel.metadata`. -/
def metadata : List TableDef :=
  [tenant, sshkey, server, client, operator, operatortenant, discoveredpeer, certificate,
    auditevent, enrollmenttoken]

/-! ## Values -/

/-- A `datetime`: the wall clock in microseconds, and the distance from UTC unless it is naive. -/
structure PyDatetime where
  wall : ℤ
  offset : Option ℤ
  deriving DecidableEq

/-- What a program sees in a column.  Everything that is neither a `datetime` nor a member of an
enumeration is the same in JSON. -/
inductive PyVal
  | json (j : Json)
  | datetime (d : PyDatetime)
  | member (cls : EnumClass) (name : String)

/-- What a database has in a column; a `datetime` is in UTC. -/
inductive Cell
  | null
  | bool (b : Bool)
  | int (n : ℤ)
  | text (s : String)
  | datetime (micros : ℤ)
  deriving DecidableEq

/-- A row, by the keys of its columns. -/
abbrev Row := String → Cell

/-- The rows of each table. -/
abbrev Database := String → List Row

/-- What databases and their drivers differ in. -/
structure Dialect where
  /-- There is a `BIGINT UNSIGNED` (MySQL, MariaDB). -/
  native : Bool
  enforcesForeignKeys : Bool
  /-- How texts compare in a unique constraint. -/
  sameText : String → String → Bool
  /-- What a column of times keeps of a time in UTC, in microseconds.  MySQL's `DATETIME` keeps
  whole seconds. -/
  keeps : ℤ → ℤ
  /-- What becomes of a value that is not of the type of the column, if it is not refused. -/
  coerce : ColumnType → PyVal → Option Cell
  /-- What a column gets that the statement leaves out, by table and column. -/
  absent : String → String → Cell
  /-- The next auto-increment key of a table. -/
  autoId : List Row → ℤ

/-- `2 ** 64`. -/
def uint64Limit : ℤ := 18446744073709551616

/-- `2 ** 63`. -/
def int64Limit : ℤ := 9223372036854775808

/-- `UnsignedBigInteger.process_bind_param`; `none` is a `ValueError`. -/
def processBindParam (native : Bool) (value : ℤ) : Option ℤ :=
  if ¬(0 ≤ value ∧ value < uint64Limit) then none
  else if native = false ∧ int64Limit ≤ value then some (value - uint64Limit)
  else some value

/-- `UnsignedBigInteger.process_result_value`. -/
def processResultValue (native : Bool) (value : ℤ) : ℤ :=
  if native = true then value else if value < 0 then value + uint64Limit else value

/-- What is stored for a value; `none` is an error of the driver or of the type. -/
def bind (d : Dialect) : ColumnType → PyVal → Option Cell
  | _, .json .null => some .null
  | .integer, .json (.int n) => some (.int n)
  | .unsignedBigInteger, .json (.int n) => (processBindParam d.native n).map .int
  | .boolean, .json (.bool b) => some (.bool b)
  | .string, .json (.str s) => some (.text s)
  | .utcDateTime, .datetime dt => dt.offset.map fun offset ↦ .datetime (d.keeps (dt.wall - offset))
  | .enum cls, .member cls' name => if cls = cls' then some (.text name) else none
  | type, v => d.coerce type v

/-- What is read; `none` for a cell that is not of the type of the column. -/
def result (d : Dialect) : ColumnType → Cell → Option PyVal
  | _, .null => some (.json .null)
  | .integer, .int n => some (.json (.int n))
  | .unsignedBigInteger, .int n => some (.json (.int (processResultValue d.native n)))
  | .boolean, .bool b => some (.json (.bool b))
  | .string, .text s => some (.json (.str s))
  | .utcDateTime, .datetime micros => some (.datetime ⟨micros, some 0⟩)
  | .enum cls, .text name =>
    if cls.members.any (·.1 == name) then some (.member cls name) else none
  | _, _ => none

/-! ## Statements -/

section

variable (d : Dialect) (t : TableDef) (db : Database)

/-- Two cells that a unique constraint takes for the same. -/
def Dialect.same : Cell → Cell → Bool
  | .null, _ => false
  | .text s, .text s' => d.sameText s s'
  | cell, cell' => cell == cell'

/-- The row that a foreign key names is there. -/
def refers (target : String) (cell : Cell) : Bool :=
  cell == .null || (db target).any fun r ↦ r "id" == cell

/-- A `NULL` where there may be none. -/
def nullViolation (row : Row) : Bool :=
  t.columns.any fun c ↦ !c.nullable && row c.key == .null

/-- The primary key or a unique constraint has the row already. -/
def uniqueViolation (row : Row) : Bool :=
  (db t.name).any fun r ↦ r "id" == row "id" ||
    t.unique.any fun keys ↦ keys.all fun key ↦ d.same (r key) (row key)

def foreignKeyViolation (row : Row) : Bool :=
  d.enforcesForeignKeys &&
    t.columns.any fun c ↦ c.foreignKey.any fun target ↦ !refers db target (row c.key)

/-- An `INSERT` of one row; `none` is an `IntegrityError`. -/
def insertRow (row : Row) : Option Database :=
  if nullViolation t row || uniqueViolation d t db row || foreignKeyViolation d t db row then none
  else some (Function.update db t.name (db t.name ++ [row]))

/-- Some row of another table names a row of this one. -/
def isReferenced : Bool :=
  metadata.any fun other ↦ other.name != t.name && other.columns.any fun c ↦
    c.foreignKey == some t.name && (db other.name).any fun r ↦
      r c.key != .null && (db t.name).any fun s ↦ s "id" == r c.key

/-- A `DELETE` without a condition. -/
def deleteAll : Option Database :=
  if d.enforcesForeignKeys && isReferenced t db then none
  else some (Function.update db t.name [])

/-- The row of a statement with these columns: the others get what they get when they are left out,
and a `NULL` for the primary key makes the database choose one. -/
def bindRow (keys : List String) (values : List (String × PyVal)) : Option Row := do
  let cells ← t.columns.mapM fun c ↦
    if c.key ∈ keys then do
      let v ← values.lookup c.key
      let cell ← bind d c.type v
      return (c.key, cell)
    else some (c.key, d.absent t.name c.key)
  let row : Row := fun key ↦ (cells.lookup key).getD .null
  if row "id" = .null then return Function.update row "id" (.int (d.autoId (db t.name)))
  else return row

end

end WgManager.Metadata
