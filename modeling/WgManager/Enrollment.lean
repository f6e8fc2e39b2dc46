import WgManager.Models
import WgManager.Lib.PyStr

/-!
# Enrollment tokens

The rules of `enrollment.py`: how a token is found, when it is redeemable, how a use is taken and
how it is revoked.

`consumeToken` is the guarded `UPDATE`.  It looks at the row as it is committed, not at what the
caller has loaded, and this is the only thing that keeps the count of uses right when redemptions
overlap.
-/

set_option autoImplicit false

namespace WgManager

/-- The functions outside the repository that tokens rest on. -/
structure TokenLibrary where
  /-- The SHA-256 hex digest of the UTF-8 text. -/
  sha256Hex : String → String
  /-- `ipaddress.ip_network`; `none` is a `ValueError`. -/
  ipNetwork : String → Option IPNetwork
  /-- `ipaddress.ip_address`; `none` is a `ValueError`. -/
  ipAddress : String → Option IPAddress

/-- `find_token`: the row whose hash is that of the presented token.  Hashes are lower-case hex, and
all databases tell different ones apart. -/
def findToken (lib : TokenLibrary) (tokens : Table EnrollmentToken) (token : String) :
    Option EnrollmentToken :=
  tokens.rows.find? fun row ↦ row.tokenHash == lib.sha256Hex token

/-- `is_expired`. -/
def isExpired (row : EnrollmentToken) (now : Datetime) : Bool := row.expiresAt ≤ now

/-- `allowed_networks`: `none` when the token is not bound, and an inner `none` for a stored text
that does not parse. -/
def allowedNetworks (lib : TokenLibrary) (row : EnrollmentToken) :
    Option (Option (List IPNetwork)) :=
  match row.allowedCidrs with
  | none => none
  | some "" => none
  | some cidrs => some ((PyStr.splitOn ',' cidrs).mapM lib.ipNetwork)

/-- `source_allowed`; `none` when the stored networks do not parse, which is an uncaught
`ValueError`. -/
def sourceAllowed (lib : TokenLibrary) (row : EnrollmentToken) (host : Option String) :
    Option Bool :=
  match allowedNetworks lib row with
  | none => some true
  | some none => none
  | some (some networks) =>
    match lib.ipAddress (host.getD "") with
    | none => some false
    | some addr => some (networks.any (·.contains addr.unmapped))

/-- The guard of `consume_token`: a use is left, and the token is not revoked. -/
def EnrollmentToken.consumable (row : EnrollmentToken) : Bool :=
  row.useCount < row.maxUses && row.revokedAt.isNone

/-- Take one use. -/
def EnrollmentToken.use (row : EnrollmentToken) : EnrollmentToken :=
  { row with useCount := row.useCount + 1 }

theorem EnrollmentToken.pk_use (row : EnrollmentToken) : Keyed.pk row.use = Keyed.pk row := rfl

/-- `consume_token`: the guarded update; `none` when it matches no row. -/
def consumeToken (tokens : Table EnrollmentToken) (tokenId : ℕ) :
    Option (Table EnrollmentToken) :=
  match tokens.get tokenId with
  | none => none
  | some row =>
    if row.consumable then
      some (tokens.modify tokenId EnrollmentToken.use EnrollmentToken.pk_use)
    else none

/-- The columns a revocation sets. -/
def EnrollmentToken.markRevoked (now : Datetime) (revokedByCn : Option String)
    (row : EnrollmentToken) : EnrollmentToken :=
  { row with revokedAt := some now, revokedByCn }

theorem EnrollmentToken.pk_markRevoked (now : Datetime) (revokedByCn : Option String)
    (row : EnrollmentToken) : Keyed.pk (row.markRevoked now revokedByCn) = Keyed.pk row := rfl

/-- `revoke_token`; `none` when the token is revoked already. -/
def revokeToken (row : EnrollmentToken) (now : Datetime) (revokedByCn : Option String) :
    Option EnrollmentToken :=
  if row.revokedAt.isSome then none else some (row.markRevoked now revokedByCn)

theorem revokedAt_of_revokeToken {row row' : EnrollmentToken} {now : Datetime}
    {revokedByCn : Option String} (h : revokeToken row now revokedByCn = some row') :
    row.revokedAt = none := by
  rw [revokeToken] at h
  split at h
  · cases h
  · next hnone => simpa using hnone

/-! ## What the table shows -/

theorem get_of_findToken {lib : TokenLibrary} {tokens : Table EnrollmentToken} {token : String}
    {row : EnrollmentToken} (h : findToken lib tokens token = some row) :
    tokens.get row.id = some row :=
  Table.mem_rows_iff.mp (List.mem_of_find?_eq_some h)

theorem consumable_iff {row : EnrollmentToken} :
    row.consumable = true ↔ row.useCount < row.maxUses ∧ row.revokedAt = none := by
  simp [EnrollmentToken.consumable]

theorem consumeToken_eq_some_iff {tokens tokens' : Table EnrollmentToken} {tokenId : ℕ} :
    consumeToken tokens tokenId = some tokens' ↔
      ∃ row, tokens.get tokenId = some row ∧ row.consumable = true ∧
        tokens' = tokens.modify tokenId EnrollmentToken.use EnrollmentToken.pk_use := by
  rw [consumeToken]
  split
  · next hnone => simp [hnone]
  · next row hrow =>
    split
    · next hconsumable =>
      constructor
      · intro h
        cases h
        exact ⟨row, hrow, hconsumable, rfl⟩
      · rintro ⟨_, _, _, rfl⟩
        rfl
    · next hspent =>
      constructor
      · intro h
        cases h
      · rintro ⟨row', hrow', hconsumable, _⟩
        rw [hrow] at hrow'
        cases hrow'
        exact absurd hconsumable hspent

end WgManager
