import WgManager.Lib.Exclusive
import WgManager.Lib.Schedule
import WgManager.Lib.Command
import WgManager.Lib.Json
import WgManager.Lib.Table
import WgManager.Lib.Collation
import WgManager.Lib.PyStr
import WgManager.Lib.Base64
import WgManager.Lib.Lines
import WgManager.Lib.PosixSh
import WgManager.Lib.WgConf
import WgManager.Ipaddress
import WgManager.Models
import WgManager.Wireguard
import WgManager.RemoteWrite
import WgManager.HubConfig
import WgManager.Tasks.Fleet
import WgManager.Tasks.Moves
import WgManager.Tasks.Generations
import WgManager.Tasks.Reconfigure
import WgManager.Tasks.Pending
import WgManager.Tasks.Discovery
import WgManager.Ssh
import WgManager.Tasks.HostCerts
import WgManager.TenantScope
import WgManager.Auth
import WgManager.Ipam
import WgManager.Enrollment
import WgManager.Routers.Outcome
import WgManager.Routers.Servers
import WgManager.Routers.Clients
import WgManager.Routers.SshKeys
import WgManager.Routers.EnrollmentTokens
import WgManager.Routers.Tenants
import WgManager.Routers.References
import WgManager.Routers.WriteIsolation
import WgManager.Routers.ReadIsolation
import WgManager.Certs
import WgManager.Certs.Revocation
import WgManager.Certs.Renewal
import WgManager.Certs.Retirement
import WgManager.Metadata
import WgManager.Cli.Backup
import WgManager.Cli.RoundTrip
import WgManager.EnrollApp
import WgManager.Enroll.Keys
import WgManager.Enroll.AllOrNothing
import WgManager.Enroll.System
import WgManager.Enroll.Accounting
import WgManager.Enroll.Revocation
import WgManager.Enroll.Addresses
import WgManager.Enroll.Certificates
import WgManager.Tasks.PeerKeys
import WgManager.Enroll.Serial
import WgManager.ControlPlane
import WgManager.ControlPlane.Pools
import WgManager.ControlPlane.Tenancy
import WgManager.Tasks.HubRuns
import WgManager.Tasks.Homes
import WgManager.Tasks.Convergence
import WgManager.Audit
import WgManager.Audit.Completeness
import WgManager.Certs.Atomicity
import WgManager.ControlPlane.Addresses
import WgManager.Lib.FixedWindow
import WgManager.RateLimit
import WgManager.Lib.Once
import WgManager.RateLimit.Lockout
import WgManager.Lib.Except
import WgManager.Lib.Incremental
import WgManager.ProxyProtocol
import WgManager.ProxyProtocol.Stream
import WgManager.ProxyProtocol.Listener
import WgManager.ProxyProtocol.Serving
import WgManager.Lib.PyBytes
import WgManager.Lib.Ipv6Text
import WgManager.ProxyProtocol.Grammar
import WgManager.ProxyProtocol.Codec
import WgManager.Cidrs
import WgManager.Enroll.Binding
import WgManager.Enroll.Life
import WgManager.Enroll.Expiry
import WgManager.Enroll.Sweeps
import WgManager.Enroll.Rejections
import WgManager.Crypto
import WgManager.RateLimit.RetryAfter
import WgManager.Tasks.Rotation
import WgManager.Certs.Identity
import WgManager.Certs.Walker
import WgManager.Lib.PyInt
import WgManager.Wireguard.Dump
import WgManager.Tasks.DiscoverPeers
import WgManager.Tasks.OddLines
import WgManager.Pki.Serials
import WgManager.Pki.Chains
import WgManager.Audit.Hash
import WgManager.Routers.AuditLog
import WgManager.Locks
import WgManager.Auth.Bootstrap
import WgManager.Evidence.Pairing
import WgManager.Enroll.Protocol
import WgManager.Lib.JsonRead
import WgManager.Audit.Stream
import WgManager.Evidence.Pack
import WgManager.Lib.UnixFiles
import WgManager.Lib.Sed
import WgManager.Wireguard.Host
import WgManager.Wireguard.Host.Keys
import WgManager.Wireguard.Host.Privacy
import WgManager.Wireguard.Host.Settling
import WgManager.Wireguard.Host.Configs
