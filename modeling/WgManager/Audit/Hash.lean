import WgManager.Lib.JsonOrder
import WgManager.Lib.JsonText
import WgManager.Lib.PyBytes

/-!
# Hashes in the audit log

`persist` does not keep the contents of a row that is changed, it keeps the SHA-256 of their
canonical JSON text.  That text is the document with the keys of every object sorted, in compact
form.  Two rows have one text when they differ in the order of keys only, and then only
(`canonicalJson_eq_iff`); as far as SHA-256 has no collision, the hashes in an event are equal when
the row is what it was (`audit_hash_identifies_row`).
-/

set_option autoImplicit false

namespace WgManager.Audit

open JsonText PyBytes

/-- A `dict` that represents a row: its values are made of JSON values without floats, and no `dict`
has a key twice. -/
structure RowDict where
  fields : List (String × Json)
  noFloat : NoFloat (.obj fields)
  distinctKeys : Json.DistinctKeys (.obj fields)

/-- The `dict` as a document. -/
def RowDict.json (row : RowDict) : Json := .obj row.fields

/-- The rows are equal but for the order of keys. -/
def RowDict.Same (a b : RowDict) : Prop := a.json.Same b.json

section

variable (floatRepr : Option ℚ → List Char)

/-- The text that `canonical_json_hash` hashes.  `none` is the `ValueError` about an integer that
has too many digits. -/
def canonicalJson (row : RowDict) : Option String := dumps floatRepr row.json.sortKeys

/-- `canonical_json_hash`. -/
def canonicalJsonHash (sha256 : Bytes → String) : Option RowDict → Option (Option String)
  | none => some none
  | some row => do
    let body ← canonicalJson floatRepr row
    some (some (sha256 (encodeUtf8 body)))

/-- The columns `before_hash` and `after_hash` of the event that `persist` writes. -/
def persistHashes (sha256 : Bytes → String) (before after : Option RowDict) :
    Option (Option String × Option String) := do
  let beforeHash ← canonicalJsonHash floatRepr sha256 before
  let afterHash ← canonicalJsonHash floatRepr sha256 after
  some (beforeHash, afterHash)

end

section

variable {floatRepr : Option ℚ → List Char} {sha256 : Bytes → String}

/-- **The canonical text identifies the row.** -/
theorem canonicalJson_eq_iff {a b : RowDict} (h : (canonicalJson floatRepr a).isSome) :
    canonicalJson floatRepr a = canonicalJson floatRepr b ↔ a.Same b := by
  rw [RowDict.Same,
    Json.same_iff_sortKeys (a := a.json) (b := b.json) a.distinctKeys b.distinctKeys]
  constructor
  · intro heq
    obtain ⟨text, htext⟩ := Option.isSome_iff_exists.mp h
    exact dumps_unique (noFloat_sortKeys a.noFloat) (noFloat_sortKeys b.noFloat) htext
      (heq.symm.trans htext)
  · intro heq
    rw [canonicalJson, canonicalJson, heq]

theorem encodeUtf8_injective : Function.Injective encodeUtf8 := fun s t h ↦
  Option.some.inj (by rw [← decodeUtf8_encodeUtf8 s, h, decodeUtf8_encodeUtf8])

/-- SHA-256 has no collision between the texts of two rows. -/
def CollisionFree (floatRepr : Option ℚ → List Char) (sha256 : Bytes → String)
    (before after : Option RowDict) : Prop :=
  ∀ a ∈ before, ∀ b ∈ after, ∀ s ∈ canonicalJson floatRepr a, ∀ t ∈ canonicalJson floatRepr b,
    sha256 (encodeUtf8 s) = sha256 (encodeUtf8 t) → encodeUtf8 s = encodeUtf8 t

theorem canonicalJsonHash_eq_iff {before after : Option RowDict} {hash hash' : Option String}
    (hfree : CollisionFree floatRepr sha256 before after)
    (hbefore : canonicalJsonHash floatRepr sha256 before = some hash)
    (hafter : canonicalJsonHash floatRepr sha256 after = some hash') :
    hash = hash' ↔ Option.Rel RowDict.Same before after := by
  cases before with
  | none =>
    cases hbefore
    cases after with
    | none =>
      cases hafter
      exact ⟨fun _ ↦ .none, fun _ ↦ rfl⟩
    | some b =>
      obtain ⟨t, -, ht⟩ := Option.bind_eq_some_iff.mp hafter
      cases ht
      exact ⟨nofun, nofun⟩
  | some a =>
    obtain ⟨s, hs, hhash⟩ := Option.bind_eq_some_iff.mp hbefore
    cases hhash
    cases after with
    | none =>
      cases hafter
      exact ⟨nofun, nofun⟩
    | some b =>
      obtain ⟨t, ht, hhash⟩ := Option.bind_eq_some_iff.mp hafter
      cases hhash
      have hsome : (canonicalJson floatRepr a).isSome := by rw [hs]; rfl
      rw [Option.rel_some_some, ← canonicalJson_eq_iff hsome, hs, ht, Option.some_inj,
        Option.some_inj]
      exact ⟨fun h ↦ encodeUtf8_injective (hfree a rfl b rfl s hs t ht h), fun h ↦ h ▸ rfl⟩

/-- **The audit hash identifies the row.**  Where there are canonical texts at all, two of them are
equal when the rows are equal up to the order of keys; and an event has equal hashes before and
after when there was no row before and after, or one that has not changed. -/
theorem audit_hash_identifies_row (floatRepr : Option ℚ → List Char) :
    (∀ a b : RowDict, (canonicalJson floatRepr a).isSome →
        (canonicalJson floatRepr a = canonicalJson floatRepr b ↔ a.Same b)) ∧
      ∀ sha256 before after hashes, CollisionFree floatRepr sha256 before after →
        persistHashes floatRepr sha256 before after = some hashes →
          (hashes.1 = hashes.2 ↔ Option.Rel RowDict.Same before after) := by
  refine ⟨fun a b ↦ canonicalJson_eq_iff, fun sha256 before after hashes hfree hpersist ↦ ?_⟩
  obtain ⟨hash, hbefore, hpersist⟩ := Option.bind_eq_some_iff.mp hpersist
  obtain ⟨hash', hafter, hpersist⟩ := Option.bind_eq_some_iff.mp hpersist
  cases hpersist
  exact canonicalJsonHash_eq_iff hfree hbefore hafter

end

/-- A row, with its keys in two orders. -/
def hubRow : RowDict where
  fields := [("name", .str "hub-1"), ("address", .str "1.2.3.4")]
  noFloat := by simp [NoFloat, NoFloatFields]
  distinctKeys := by simp [Json.DistinctKeys, Json.DistinctFields]

def hubRowSorted : RowDict where
  fields := [("address", .str "1.2.3.4"), ("name", .str "hub-1")]
  noFloat := by simp [NoFloat, NoFloatFields]
  distinctKeys := by simp [Json.DistinctKeys, Json.DistinctFields]

/-- The hash of both is that of one text. -/
theorem audit_hash_identifies_row_hub :
    (canonicalJson (fun _ ↦ []) hubRow = canonicalJson (fun _ ↦ []) hubRowSorted ↔
        hubRow.Same hubRowSorted) ∧
      Option.Rel RowDict.Same (some hubRow) (some hubRowSorted) := by
  have htext : canonicalJson (fun _ ↦ []) hubRow =
      some "\x7b\"address\":\"1.2.3.4\",\"name\":\"hub-1\"\x7d" := by decide +kernel
  have htext' : canonicalJson (fun _ ↦ []) hubRowSorted =
      some "\x7b\"address\":\"1.2.3.4\",\"name\":\"hub-1\"\x7d" := by decide +kernel
  have hfree : CollisionFree (fun _ ↦ [])
      (fun _ ↦ "3d13198f10c33ed5341818dd74d0b467818ed76019bd6aeb939046fd021fd88d")
      (some hubRow) (some hubRowSorted) := by
    rintro a ⟨⟩ b ⟨⟩ s hs t ht -
    rw [htext] at hs
    rw [htext'] at ht
    cases hs
    cases ht
    rfl
  refine ⟨(audit_hash_identifies_row _).1 hubRow hubRowSorted (by rw [htext]; rfl), ?_⟩
  refine ((audit_hash_identifies_row _).2 _ _ _ (some
    "3d13198f10c33ed5341818dd74d0b467818ed76019bd6aeb939046fd021fd88d", some
    "3d13198f10c33ed5341818dd74d0b467818ed76019bd6aeb939046fd021fd88d") hfree ?_).mp rfl
  rw [persistHashes, canonicalJsonHash, canonicalJsonHash, htext, htext']
  rfl

end WgManager.Audit
