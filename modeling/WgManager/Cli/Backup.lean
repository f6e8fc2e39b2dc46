import WgManager.Metadata
import WgManager.Lib.Base64
import WgManager.Lib.PyBytes
import WgManager.Lib.Command
import Mathlib.Data.List.Sort

/-!
# `db backup` and `db restore`

`db backup` writes the rows of all tables to a JSON file, and `db restore` reads such a file into a
database.  With `--encrypt` the document is encrypted with a fresh key, which is itself encrypted by
the crypto backend, and what is written is an envelope around both; `--decrypt` opens it.

A restore is a program that changes the database step by step and may end with an error at each of
them, in a file of any content: `Cmd` keeps the changes that were made before the error.  What takes
them back is the transaction around them (`Command.transaction`).

`restore_is_atomic` is what follows: a restore that does not complete leaves all rows as they were
(`atomic_dbRestore`), and one that completes without `--drop-existing` has only added rows
(`grows_dbRestore`).
-/

set_option autoImplicit false

namespace WgManager.Backup

open Metadata PyBytes

/-! ## Rows in JSON -/

/-- What the commands use of Python, of the crypto backend and of their surroundings. -/
structure Env where
  isoformat : PyDatetime → String
  /-- `datetime.fromisoformat`; `none` is a `ValueError`. -/
  fromisoformat : String → Option PyDatetime
  /-- `json.dumps` with sorted keys. -/
  dumps : Json → String
  /-- `json.loads`, with the text of the error. -/
  loads : String → Except String Json
  /-- `str`, for what is put into a message. -/
  str : Json → String
  /-- `secrets.token_bytes`, for the key and for the nonce. -/
  dek : Bytes
  nonce : Bytes
  /-- The times of the envelope, as texts. -/
  createdAt : String
  context : String
  aesEncrypt : Bytes → Bytes → Bytes → Bytes
  aesDecrypt : Bytes → Bytes → Bytes → Except String Bytes
  /-- `backend.encrypt` and `backend.decrypt`, with their context. -/
  wrap : Bytes → String → Option String
  unwrap : Json → Json → Except String Bytes

/-- The value of a member of an enumeration. -/
def memberValue (cls : EnumClass) (name : String) : String := (cls.members.lookup name).getD name

section

variable (env : Env)

/-- `_serialize_row`, for one column. -/
def serializeValue : PyVal → Json
  | .datetime d => .str (env.isoformat d)
  | .member cls name => .str (memberValue cls name)
  | .json j => j

/-- `_serialize_row`. -/
def serializeRow (d : Dialect) (t : TableDef) (row : Row) : Option Json := do
  let fields ← t.columns.mapM fun c ↦ do
    let val ← result d c.type (row c.key)
    return (c.key, serializeValue env val)
  return .obj fields

/-- `_deserialize_row`, for one column.  Only a text may stand for something else. -/
def deserializeValue (type : ColumnType) : Json → Option PyVal
  | .str s =>
    match type with
    | .utcDateTime => do
      let d ← env.fromisoformat s
      return .datetime (if d.offset.isNone then { d with offset := some 0 } else d)
    | .enum cls => do
      let m ← cls.members.find? (·.2 == s)
      return .member cls m.1
    | _ => some (.json (.str s))
  | val => some (.json val)

/-- `_deserialize_row`: the columns that the row has, and nothing else of it. -/
def deserializeColumns (row : Json) : List Column → Option (List (String × PyVal))
  | [] => some []
  | c :: rest => do
    if ← row.contains c.key then
      let val ← row.getItem c.key
      let val ← deserializeValue env c.type val
      let out ← deserializeColumns row rest
      return (c.key, val) :: out
    else deserializeColumns row rest

def deserializeRow (t : TableDef) (row : Json) : Option (List (String × PyVal)) :=
  deserializeColumns env row t.columns

/-! ## The envelope -/

def backupVersion : ℤ := 2

def supportedBackupVersions : List ℤ := [1, 2]

/-- `_b64`. -/
def b64 (raw : Bytes) : String := String.ofList (Base64.encode raw)

/-- `b64decode`, of a value of a document. -/
def b64decode : Json → Except String Bytes
  | .str s =>
    if s.toList.all (·.val < 128) then
      match Base64.lenient [] 0 s.toList with
      | some raw => .ok raw
      | none => .error "Incorrect padding"
    else .error "string argument should contain only ASCII characters"
  | _ => .error "argument should be a bytes-like object or ASCII string"

/-- `_envelope_encrypt`. -/
def envelopeEncrypt (plaintext : Bytes) : Option Json := do
  let dekCt ← env.wrap env.dek env.context
  return .obj [("version", .int backupVersion), ("encrypted", .bool true),
    ("created_at", .str env.createdAt), ("context", .str env.context), ("dek_ct", .str dekCt),
    ("nonce_b64", .str (b64 env.nonce)),
    ("ciphertext_b64", .str (b64 (env.aesEncrypt env.dek env.nonce plaintext)))]

def requiredFields : List String := ["ciphertext_b64", "context", "dek_ct", "nonce_b64"]

/-- A field of the envelope, once it is known that none is missing. -/
def envelopeField (envelope : Json) (key : String) : Json := (envelope.getItem key).getD .null

/-- `_envelope_decrypt`. -/
def envelopeDecrypt (envelope : Json) : Except String Bytes := do
  let missing := requiredFields.filter fun key ↦ (envelope.getItem key).isNone
  if missing ≠ [] then
    throw ("envelope missing required fields: " ++ env.str (.arr (missing.map .str)))
  let dek ← env.unwrap (envelopeField envelope "dek_ct") (envelopeField envelope "context")
  let nonce ← b64decode (envelopeField envelope "nonce_b64")
  let ciphertext ← b64decode (envelopeField envelope "ciphertext_b64")
  env.aesDecrypt dek nonce ciphertext

/-! ## `db backup` -/

/-- The number of a row, by which the rows are ordered. -/
def rowId (row : Row) : ℤ :=
  match row "id" with
  | .int n => n
  | _ => 0

/-- The rows in the order of their primary keys. -/
def orderById (rows : List Row) : List Row := rows.insertionSort fun r s ↦ rowId r ≤ rowId s

def dumpTable (d : Dialect) (db : Database) (t : TableDef) : Option (String × Json) := do
  let rows ← (orderById (db t.name)).mapM (serializeRow env d t)
  return (t.name, .arr rows)

/-- The document of a backup; `tables` is `_backup_tables()`. -/
def dump (d : Dialect) (tables : List TableDef) (db : Database) : Option Json := do
  let fields ← tables.mapM (dumpTable env d db)
  return .obj [("version", .int backupVersion), ("tables", .obj fields)]

/-- What `db backup` writes. -/
def dbBackup (d : Dialect) (tables : List TableDef) (db : Database) (encrypt : Bool) :
    Option String := do
  let doc ← dump env d tables db
  let plaintext := env.dumps doc
  if encrypt then
    let envelope ← envelopeEncrypt env (encodeUtf8 plaintext)
    return env.dumps envelope
  else return plaintext

/-! ## `db restore` -/

/-- How a command ends that does not complete: with a message and exit code 1, or with an exception
that nothing catches. -/
inductive Failure
  | exit (message : String)
  | raised
  deriving DecidableEq

/-- A command on the database, which keeps what was done before a failure. -/
abbrev Cmd := EStateM Failure Database

/-- An exception of Python that nothing catches. -/
def orRaise {α : Type} : Option α → Cmd α
  | some a => pure a
  | none => throw .raised

/-- A statement that changes the database, or fails without an effect. -/
def execute (statement : Database → Option Database) : Cmd Unit := fun db ↦
  match statement db with
  | some db' => .ok () db'
  | none => .error .raised db

/-- The document that is to be restored. -/
def readDocument (rawText : String) (decrypt : Bool) : Cmd Json :=
  match env.loads rawText with
  | .error exc => throw (.exit ("backup file is not valid JSON: " ++ exc))
  | .ok raw => do
    let encrypted ← orRaise (raw.get? "encrypted")
    let fileIsEncrypted := (encrypted.getD .null).truthy
    if fileIsEncrypted && !decrypt then
      throw (.exit "backup file is encrypted; pass --decrypt to restore")
    else if decrypt && !fileIsEncrypted then
      throw (.exit "backup file is plain JSON, not encrypted — drop --decrypt")
    else if decrypt then
      match envelopeDecrypt env raw with
      | .error exc => throw (.exit ("decrypt failed: " ++ exc))
      | .ok plaintext => do
        let text ← orRaise (decodeUtf8 plaintext)
        orRaise (env.loads text).toOption
    else pure raw

/-- The tables that the file carries. -/
def carriedTables (tablesData : Json) : List TableDef → Option (List TableDef)
  | [] => some []
  | t :: rest => do
    if ← tablesData.contains t.name then
      let carried ← carriedTables tablesData rest
      return t :: carried
    else carriedTables tablesData rest

/-- The version check, and the tables of the file with their rows. -/
def readTables (tables : List TableDef) (raw : Json) : Cmd (Json × List TableDef) := do
  let found ← orRaise (raw.get? "version")
  let version := found.getD (.int 0)
  if supportedBackupVersions.any version.eqInt then
    let tablesData ← orRaise (raw.getItem "tables")
    let carried ← orRaise (carriedTables tablesData tables)
    return (tablesData, carried)
  else throw (.exit ("unsupported backup version " ++ env.str version ++
    " (expected one of (1, 2))"))

/-- Without `--drop-existing`, the tables of the file have to be empty. -/
def safetyCheck (dropExisting : Bool) : List TableDef → Cmd Unit
  | [] => pure ()
  | t :: rest => do
    let db ← get
    let existing := (db t.name).length
    if 0 < existing ∧ dropExisting = false then
      throw (.exit ("table '" ++ t.name ++ "' has " ++ toString existing ++
        " existing row(s); pass --drop-existing to truncate before restore"))
    else safetyCheck dropExisting rest

def deleteTables (d : Dialect) : List TableDef → Cmd Unit
  | [] => pure ()
  | t :: rest => do
    execute (deleteAll d t)
    deleteTables d rest

/-- `execute(table.insert(), rows)`, row by row. -/
def insertRows (d : Dialect) (t : TableDef) (keys : List String) :
    List (List (String × PyVal)) → Cmd Unit
  | [] => pure ()
  | values :: rest => do
    let db ← get
    let row ← orRaise (bindRow d t db keys values)
    execute fun db ↦ insertRow d t db row
    insertRows d t keys rest

/-- The first row says which columns the statement has. -/
def insertMany (d : Dialect) (t : TableDef) : List (List (String × PyVal)) → Cmd Unit
  | [] => pure ()
  | values :: rest => insertRows d t (values.map Prod.fst) (values :: rest)

/-- The rows of one table. -/
def restoreTable (d : Dialect) (tablesData : Json) (t : TableDef) : Cmd String := do
  let data ← orRaise (tablesData.getItem t.name)
  let items ← orRaise data.iter
  let rows ← orRaise (items.mapM (deserializeRow env t))
  insertMany d t rows
  return "  " ++ t.name ++ ": " ++ toString rows.length ++ " row(s) restored"

def restoreTables (d : Dialect) (tablesData : Json) : List TableDef → Cmd (List String)
  | [] => pure []
  | t :: rest => do
    let line ← restoreTable env d tablesData t
    let lines ← restoreTables d tablesData rest
    return line :: lines

/-- What happens in the transaction. -/
def restoreBody (d : Dialect) (dropExisting : Bool) (tablesData : Json) (tables : List TableDef) :
    Cmd (List String) := do
  safetyCheck dropExisting tables
  if dropExisting then
    deleteTables d tables.reverse
  restoreTables env d tablesData tables

/-- `db restore`: the lines that it prints when it completes. -/
def dbRestore (d : Dialect) (tables : List TableDef) (inputFile rawText : String)
    (dropExisting decrypt : Bool) : Cmd (List String) := do
  let raw ← readDocument env rawText decrypt
  let (tablesData, carried) ← readTables env tables raw
  let lines ← Command.transaction (restoreBody env d dropExisting tablesData carried)
  return lines ++ ["restore complete from " ++ inputFile]

/-! ## A failed restore changes nothing -/

variable {env}

theorem readOnly_orRaise {α : Type} (x : Option α) : Command.ReadOnly (orRaise x) := by
  cases x with
  | none => exact Command.readOnly_throw _
  | some a => exact Command.readOnly_pure a

theorem readOnly_readDocument (rawText : String) (decrypt : Bool) :
    Command.ReadOnly (readDocument env rawText decrypt) := by
  rw [readDocument]
  split
  · exact Command.readOnly_throw _
  · refine (readOnly_orRaise _).bind fun encrypted ↦ ?_
    dsimp only
    split
    · exact Command.readOnly_throw _
    split
    · exact Command.readOnly_throw _
    split
    · split
      · exact Command.readOnly_throw _
      · exact (readOnly_orRaise _).bind fun _ ↦ readOnly_orRaise _
    · exact Command.readOnly_pure _

theorem readOnly_readTables (tables : List TableDef) (raw : Json) :
    Command.ReadOnly (readTables env tables raw) := by
  refine (readOnly_orRaise _).bind fun found ↦ ?_
  dsimp only
  split
  · exact (readOnly_orRaise _).bind fun _ ↦ (readOnly_orRaise _).bind fun _ ↦
      Command.readOnly_pure _
  · exact Command.readOnly_throw _

/-- Everything that changes the database is in the transaction. -/
theorem atomic_dbRestore (d : Dialect) (tables : List TableDef) (inputFile rawText : String)
    (dropExisting decrypt : Bool) :
    Command.Atomic (dbRestore env d tables inputFile rawText dropExisting decrypt) :=
  (readOnly_readDocument _ _).bind_atomic fun _ ↦ (readOnly_readTables _ _).bind_atomic fun _ ↦
    (Command.atomic_transaction _).bind_pure _

/-! ## A restore that drops nothing -/

/-- No row is gone, and no row has changed. -/
def Grows (db db' : Database) : Prop := ∀ name, db name <+: db' name

instance : Std.Refl Grows := ⟨fun _ _ ↦ List.prefix_rfl⟩

instance : IsTrans Database Grows := ⟨fun _ _ _ h h' name ↦ (h name).trans (h' name)⟩

theorem grows_insertRow {d : Dialect} {t : TableDef} {db db' : Database} {row : Row}
    (h : insertRow d t db row = some db') : Grows db db' := by
  rw [insertRow] at h
  split at h
  · cases h
  · cases h
    intro name
    by_cases hname : name = t.name
    · rw [hname, Function.update_self]
      exact List.prefix_append _ _
    · rw [Function.update_of_ne hname]

theorem within_execute {statement : Database → Option Database} {R : Database → Database → Prop}
    (h : ∀ db db', statement db = some db' → R db db') : Command.Within R (execute statement) := by
  intro db a db' hrun
  rw [execute] at hrun
  split at hrun
  · cases hrun
    exact h _ _ ‹_›
  · cases hrun

theorem readOnly_safetyCheck (dropExisting : Bool) (tables : List TableDef) :
    Command.ReadOnly (safetyCheck dropExisting tables) := by
  induction tables with
  | nil => exact Command.readOnly_pure ()
  | cons t rest ih =>
    refine Command.readOnly_get.bind fun db ↦ ?_
    dsimp only
    split
    · exact Command.readOnly_throw _
    · exact ih

theorem grows_insertRows (d : Dialect) (t : TableDef) (keys : List String)
    (rows : List (List (String × PyVal))) : Command.Within Grows (insertRows d t keys rows) := by
  induction rows with
  | nil => exact Command.within_pure ()
  | cons values rest ih =>
    refine Command.readOnly_get.within.bind fun db ↦ ?_
    refine (readOnly_orRaise _).within.bind fun row ↦ ?_
    exact (within_execute fun _ _ ↦ grows_insertRow).bind fun _ ↦ ih

theorem grows_restoreTable (d : Dialect) (tablesData : Json) (t : TableDef) :
    Command.Within Grows (restoreTable env d tablesData t) := by
  refine (readOnly_orRaise _).within.bind fun data ↦ ?_
  refine (readOnly_orRaise _).within.bind fun items ↦ ?_
  refine (readOnly_orRaise _).within.bind fun rows ↦ ?_
  have hinsert : Command.Within Grows (insertMany d t rows) := by
    cases rows with
    | nil => exact Command.within_pure ()
    | cons values rest => exact grows_insertRows d t _ _
  exact hinsert.bind fun _ ↦ Command.within_pure _

theorem grows_restoreTables (d : Dialect) (tablesData : Json) (tables : List TableDef) :
    Command.Within Grows (restoreTables env d tablesData tables) := by
  induction tables with
  | nil => exact Command.within_pure []
  | cons t rest ih =>
    exact (grows_restoreTable d tablesData t).bind fun _ ↦ ih.bind fun _ ↦ Command.within_pure _

theorem grows_dbRestore (d : Dialect) (tables : List TableDef) (inputFile rawText : String)
    (decrypt : Bool) :
    Command.Within Grows (dbRestore env d tables inputFile rawText false decrypt) := by
  refine (readOnly_readDocument _ _).within.bind fun raw ↦ ?_
  refine (readOnly_readTables _ _).within.bind fun carried ↦ ?_
  have hbody : Command.Within Grows (restoreBody env d false carried.1 carried.2) :=
    (readOnly_safetyCheck _ _).within.bind fun _ ↦ grows_restoreTables d _ _
  exact hbody.transaction.bind fun _ ↦ Command.within_pure _

/-- **A failed restore changes nothing**, whatever is in the file, in the database and in its way;
and one that completes without `--drop-existing` has only added rows. -/
theorem restore_is_atomic (env : Env) (d : Dialect) (tables : List TableDef)
    (inputFile rawText : String) (dropExisting decrypt : Bool) (db : Database) :
    match dbRestore env d tables inputFile rawText dropExisting decrypt db with
    | .error _ db' => db' = db
    | .ok _ db' => dropExisting = true ∨ ∀ name, db name <+: db' name := by
  split
  · rename_i e db' hrun
    exact atomic_dbRestore d tables inputFile rawText dropExisting decrypt db e db' hrun
  · rename_i lines db' hrun
    cases dropExisting with
    | true => exact .inl rfl
    | false => exact .inr (grows_dbRestore d tables inputFile rawText decrypt db lines db' hrun)

end

end WgManager.Backup
