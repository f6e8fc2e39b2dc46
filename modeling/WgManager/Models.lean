import WgManager.Ipaddress
import WgManager.Lib.Table

/-!
# The tables of wg-manager

The SQLModel tables of `models.py`, one structure a table and one field a column, and the database
they make up.  Three columns are kept in the form the code reads them back in rather than as the
text they are stored as: `server.subnet` is a network, `server.address` and `client.address` are
interfaces (the empty string of a client that has no address is `none`).  `tenant.subnet_pool` is a
text that the requests write as it was given to them, so it is kept with the network that it is read
as.  The six `host_cert_*` columns, which `Server` and `Client` share, are grouped in
`HostCertColumns`.

Times are seconds since the epoch, as integers.
-/

set_option autoImplicit false

namespace WgManager

/-- A point in time, in seconds since the epoch, UTC. -/
abbrev Datetime := ℤ

/-- Lifecycle state of a provisioned node. -/
inductive NodeStatus
  | pending
  | ready
  | error
  deriving DecidableEq, Repr

/-- `status.value`, as it is shown in error messages. -/
def NodeStatus.value : NodeStatus → String
  | pending => "pending"
  | ready => "ready"
  | error => "error"

/-- Role of an operator, globally or on one tenant. -/
inductive OperatorRole
  | admin
  | operator
  | auditor
  deriving DecidableEq, Repr

/-- How the control plane authenticates with an SSH role. -/
inductive SSHKeyMode
  | legacy
  | ca
  deriving DecidableEq, Repr

/-- A host certificate as the SSH CA returns it. -/
structure HostCert where
  certPem : String
  validAfter : Datetime
  validBefore : Datetime
  serial : ℕ
  principals : List String
  deriving DecidableEq

/-- The `host_cert_*` columns that servers and clients share. -/
structure HostCertColumns where
  pem : Option String := none
  serial : Option ℕ := none
  /-- Comma-separated principals of the certificate last recorded. -/
  principals : Option String := none
  validAfter : Option Datetime := none
  validBefore : Option Datetime := none
  caPublicKey : Option String := none
  deriving DecidableEq

/-- A pool as a tenant row has it: a text that has been read as a network. -/
structure SubnetPool where
  text : String
  network : IPv4Network
  parse_text : IPv4Network.parse text = some network
  deriving DecidableEq

namespace SubnetPool

/-- The pool that a text denotes. -/
def parse (text : String) : Option SubnetPool :=
  match h : IPv4Network.parse text with
  | some network => some ⟨text, network, h⟩
  | none => none

/-- The default of the column, `10.0.0.0/8`. -/
def fallback : SubnetPool where
  text := "10.0.0.0/8"
  network := ⟨167772160, 8, by decide, by decide, by decide⟩
  parse_text := by
    rw [IPv4Network.parse, String.toList_ofList]
    rfl

theorem text_ne_empty (pool : SubnetPool) : pool.text ≠ "" := by
  intro h
  have hparse := pool.parse_text
  rw [h, IPv4Network.parse_empty] at hparse
  cases hparse

end SubnetPool

structure Tenant where
  id : ℕ
  name : String
  slug : String
  subnetPool : SubnetPool := .fallback
  createdAt : Datetime
  deriving DecidableEq

structure SSHKey where
  id : ℕ
  tenantId : Option ℕ := none
  name : String
  mode : SSHKeyMode := .ca
  createdAt : Datetime
  deriving DecidableEq

/-- A WireGuard hub. -/
structure Server where
  id : ℕ
  tenantId : Option ℕ := none
  hostname : String
  sshPort : ℕ := 22
  sshUsername : String
  sshKeyId : ℕ
  endpointHost : String
  endpointPort : ℤ := 51820
  interface : String := "wg0"
  subnet : IPv4Network
  address : IPv4Interface
  publicKey : String := ""
  status : NodeStatus := .pending
  createdAt : Datetime
  hostCert : HostCertColumns := {}
  /-- Bumped whenever the peer list on the hub must catch up. -/
  reconfigRequestedGen : ℕ := 0
  /-- The highest requested generation whose client list has been written to the hub. -/
  reconfigAppliedGen : ℕ := 0
  deriving DecidableEq

/-- A WireGuard spoke attached to a server. -/
structure Client where
  id : ℕ
  tenantId : Option ℕ := none
  name : String
  hostname : Option String := none
  sshPort : ℕ := 22
  sshUsername : Option String := none
  sshKeyId : Option ℕ := none
  serverId : ℕ
  address : Option IPv4Interface := none
  publicKey : String := ""
  isManual : Bool := false
  status : NodeStatus := .pending
  createdAt : Datetime
  hostCert : HostCertColumns := {}
  deriving DecidableEq

/-- A peer observed on a server by discovery. -/
structure DiscoveredPeer where
  id : ℕ
  serverId : ℕ
  publicKey : String
  allowedIps : String := ""
  endpoint : Option String := none
  lastHandshakeAt : Option Datetime := none
  rxBytes : ℕ := 0
  txBytes : ℕ := 0
  persistentKeepalive : Option ℕ := none
  isManaged : Bool := false
  firstSeenAt : Datetime
  lastSeenAt : Datetime
  deriving DecidableEq

/-- A token a fresh host redeems to join the fleet. -/
structure EnrollmentToken where
  id : ℕ
  tenantId : Option ℕ := none
  serverId : ℕ
  sshKeyId : ℕ
  sshUsername : String
  namePrefix : String := "node"
  tokenHash : String
  maxUses : ℕ := 1
  useCount : ℕ := 0
  expiresAt : Datetime
  createdByCn : Option String := none
  createdAt : Datetime
  revokedAt : Option Datetime := none
  revokedByCn : Option String := none
  /-- Comma-separated networks the token may be redeemed from. -/
  allowedCidrs : Option String := none
  deriving DecidableEq

/-- A row as `row.model_dump(mode="json")` shows it to the audit log. -/
inductive RowImage
  | server (row : Server)
  | client (row : Client)
  | sshKey (row : SSHKey)
  /-- Without `token_hash`, which is never shown. -/
  | enrollmentToken (row : EnrollmentToken)

/-- One entry of the persisted audit log. -/
structure AuditEvent where
  id : ℕ
  tenantId : Option ℕ := none
  ts : Datetime
  event : String
  actorCn : Option String := none
  resourceType : String
  resourceId : Option ℕ := none
  action : String
  /-- The hash of the row before and after the event. -/
  beforeHash : Option String := none
  afterHash : Option String := none
  /-- The token a `client.enroll` event names in its payload. -/
  payloadTokenId : Option ℕ := none
  deriving DecidableEq

instance : Keyed Tenant := ⟨Tenant.id⟩
instance : Keyed SSHKey := ⟨SSHKey.id⟩
instance : Keyed Server := ⟨Server.id⟩
instance : Keyed Client := ⟨Client.id⟩
instance : Keyed DiscoveredPeer := ⟨DiscoveredPeer.id⟩
instance : Keyed EnrollmentToken := ⟨EnrollmentToken.id⟩
instance : Keyed AuditEvent := ⟨AuditEvent.id⟩

/-- A database: the content of the tables above. -/
structure Db where
  tenants : Table Tenant := .empty
  sshKeys : Table SSHKey := .empty
  servers : Table Server := .empty
  clients : Table Client := .empty
  discoveredPeers : Table DiscoveredPeer := .empty
  enrollmentTokens : Table EnrollmentToken := .empty
  auditEvents : Table AuditEvent := .empty

/-! ## A hub for examples -/

/-- `10.9.0.0/30`: two usable addresses, one of which is the hub's. -/
def exampleSubnet : IPv4Network where
  networkAddress := 168361984
  prefixlen := 30
  prefixlen_le := by decide
  lt_two_pow := by decide
  aligned := by decide

/-- A hub at `10.9.0.1`. -/
def exampleHub : Server where
  id := 1
  hostname := "hub.example"
  sshUsername := "deploy"
  sshKeyId := 1
  endpointHost := "hub.example"
  subnet := exampleSubnet
  address := ⟨168361985, 30⟩
  createdAt := 0

end WgManager
