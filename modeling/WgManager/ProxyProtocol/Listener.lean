import WgManager.Cidrs
import WgManager.Lib.Interleave
import WgManager.ProxyProtocol.Stream

/-!
# The life of a connection to the enrollment port

`ProxyProtocolTLS`: the callbacks that the event loop calls on each connection, from
`connection_made` to `connection_lost`, with the timer of the header and the switch to TLS.  Any
number of connections are open at once, and their events come in any order; what they share is the
clock of the loop.

What the event loop promises is in `connStep`: which callback can come when.  A transport that is
aborted or closed delivers nothing more, and a timer that is cancelled does not go off.  TLS and the
HTTP protocol behind it are told apart only by what they do to the connection: the handshake is
done, a request comes, TLS gives up.
-/

set_option autoImplicit false

namespace WgManager.ProxyProtocol

open PyBytes

/-! ## The settings -/

/-- The fields of `Settings` about the proxies. -/
structure ProxySettings where
  enrollProxyProtocol : Bool := false
  enrollProxyTrustedCidrs : String := ""

/-- `_parse_cidrs`; `none` is a `ValueError`. -/
def parseCidrs (v6 : IPv6Library) (value : String) : Option (List IPNetwork) :=
  (((PyStr.splitOn ',' value).map PyStr.strip).filter (· ≠ "")).mapM v6.ipNetwork

/-- `Settings.enroll_proxy_trusted_networks`. -/
def ProxySettings.enrollProxyTrustedNetworks (v6 : IPv6Library) (settings : ProxySettings) :
    Option (List IPNetwork) :=
  parseCidrs v6 settings.enrollProxyTrustedCidrs

/-- `_validate_enroll_proxy_cidrs` and `_validate_enroll_proxy_protocol`: the text can be read, and
names a network when the protocol is on.  An error without a text is that of `ip_network`. -/
def ProxySettings.validate (v6 : IPv6Library) (settings : ProxySettings) :
    Except (Option String) Unit :=
  match settings.enrollProxyTrustedNetworks v6 with
  | none => .error none
  | some networks =>
    if settings.enrollProxyProtocol ∧ networks = [] then
      .error (some ("ENROLL_PROXY_PROTOCOL=true requires ENROLL_PROXY_TRUSTED_CIDRS " ++
        "(the networks your load balancers connect from)"))
    else .ok ()

/-- The attributes of the class that `make_proxy_protocol_class` builds.  Times are in units of the
clock. -/
structure ProtocolClass where
  trusted : List IPNetwork
  headerTimeout : ℕ
  trusted_ne_nil : trusted ≠ []

/-- `make_proxy_protocol_class`. -/
def makeProxyProtocolClass (trusted : List IPNetwork) (headerTimeout : ℕ) :
    Except String ProtocolClass :=
  if h : trusted = [] then .error "PROXY protocol needs at least one trusted proxy network"
  else .ok ⟨trusted, headerTimeout, h⟩

/-- Settings with the protocol on are accepted when the class can be built from them. -/
theorem validate_eq_ok_iff {v6 : IPv6Library} {settings : ProxySettings}
    (hon : settings.enrollProxyProtocol = true) (headerTimeout : ℕ) :
    settings.validate v6 = .ok () ↔ ∃ networks cls,
      settings.enrollProxyTrustedNetworks v6 = some networks ∧
      makeProxyProtocolClass networks headerTimeout = .ok cls := by
  rw [ProxySettings.validate]
  cases settings.enrollProxyTrustedNetworks v6 with
  | none => simp
  | some networks =>
    by_cases hempty : networks = [] <;> simp [hon, hempty, makeProxyProtocolClass]

/-- `_is_trusted`: a dual-stack socket reports peers of version 4 as `::ffff:a.b.c.d`. -/
def isTrusted (lib : Library) (host : String) (trusted : List IPNetwork) : Bool :=
  match lib.ipAddress host with
  | none => false
  | some addr => trusted.any (·.contains addr.unmapped)

/-! ## A connection -/

inductive Link
  | connected
  /-- Aborted, or closed: `connection_lost` is still to be called. -/
  | closing
  | lost
  deriving DecidableEq

/-- The transport of a connection.  When it was made and what it has delivered so far are there for
the statements only. -/
structure Transport where
  peername : Option Client
  madeAt : ℕ
  link : Link := .connected
  delivered : List Bytes := []

/-- `abort()`, and `close()` as far as the protocol sees it. -/
def Transport.abort (transport : Transport) : Transport :=
  { transport with
    link := if transport.link = .connected then .closing else transport.link }

/-- The `SSLProtocol` of a connection, with the `_ProxiedHTTPProtocol` behind it. -/
structure Session where
  proxiedClient : Option Client
  /-- What TLS has been fed. -/
  fed : List Bytes
  /-- `client` of the HTTP protocol, from `connection_made` on. -/
  client : Option (Option Client) := none
  /-- The `client` of each request. -/
  served : List (Option Client) := []

/-- A `ProxyProtocolTLS`.  `timer` is the time at which it goes off; with `session` the transport
has been given another protocol. -/
structure Conn where
  transport : Transport
  buf : Bytes := []
  timer : Option ℕ := none
  peer : String := "?"
  session : Option Session := none

section

variable (lib : Library) (cls : ProtocolClass) (size : ℕ → ℕ → ℕ+)

/-- `connection_made`. -/
def connectionMade (now : ℕ) (peername : Option Client) : Conn :=
  let peer := (peername.map Prod.fst).getD "?"
  let transport : Transport := { peername, madeAt := now }
  if isTrusted lib peer cls.trusted then
    { transport, peer, timer := some (now + cls.headerTimeout) }
  else { transport := transport.abort, peer }

/-- `_cancel_timer`. -/
def Conn.cancelTimer (c : Conn) : Conn := { c with timer := none }

/-- `_close`. -/
def Conn.close (c : Conn) : Conn :=
  { c.cancelTimer with transport := c.transport.abort }

/-- `_start_tls`. -/
def Conn.startTls (c : Conn) (client : Option Client) (leftover : Bytes) : Conn :=
  { c with
    session := some { proxiedClient := client, fed := feedTls size 0 leftover }
    buf := [] }

/-- `data_received`. -/
def Conn.dataReceived (c : Conn) (data : Bytes) : Conn :=
  let c := { c with buf := c.buf ++ data }
  match parseHeader lib c.buf with
  | .error _ => c.close
  | .ok none => c
  | .ok (some (client, consumed)) => c.cancelTimer.startTls size client (c.buf.drop consumed)

/-- The transport hands data to its protocol. -/
def Conn.deliver (c : Conn) (data : Bytes) : Conn :=
  let c := { c with
    transport := { c.transport with delivered := c.transport.delivered ++ [data] } }
  match c.session with
  | none => c.dataReceived lib size data
  | some s => { c with session := some { s with fed := s.fed ++ [data] } }

/-- `eof_received` returns `False`, and the transport closes itself; TLS has a say of its own. -/
def Conn.eofReceived (c : Conn) : Conn :=
  match c.session with
  | none => { c with transport := c.transport.abort }
  | some _ => c

/-- `connection_lost`. -/
def Conn.connectionLost (c : Conn) : Conn :=
  let c := { c with transport := { c.transport with link := .lost } }
  match c.session with
  | none => c.cancelTimer
  | some _ => c

/-- `_ProxiedHTTPProtocol.connection_made`.  uvicorn asks the socket for its peer, which it no
longer knows when the connection is gone. -/
def Session.connectionMade (s : Session) (peername : Option Client) : Session :=
  { s with client := some (s.proxiedClient <|> peername) }

/-- A request is parsed and handed to the application with the `client` of its connection. -/
def Session.request (s : Session) (client : Option Client) : Session :=
  { s with served := s.served ++ [client] }

/-! ## The event loop -/

inductive Event
  | connectionMade (peername : Option Client)
  | dataReceived (data : Bytes)
  | eofReceived
  /-- The timer goes off. -/
  | timeout
  | connectionLost
  /-- TLS is established; `known` says whether the socket still knows its peer. -/
  | handshake (known : Bool)
  | request
  /-- TLS gives up: a bad record, its own timeout, or its end. -/
  | tlsClosed
  | tick (elapsed : ℕ)
  deriving DecidableEq

/-- What an event does to a connection; `none` when it cannot come. -/
def connStep (now : ℕ) : Option Conn → Event → Option Conn
  | none, .connectionMade peername => some (connectionMade lib cls now peername)
  | some c, .dataReceived data =>
    if c.transport.link = .connected then some (c.deliver lib size data) else none
  | some c, .eofReceived =>
    if c.transport.link = .connected then some c.eofReceived else none
  | some c, .timeout => c.timer.bind fun due ↦ if due ≤ now then some c.close else none
  | some c, .connectionLost => if c.transport.link = .lost then none else some c.connectionLost
  | some c, .handshake known =>
    match c.session with
    | some s =>
      if s.client = none ∧ c.transport.link ≠ .lost then
        some { c with
          session := some (s.connectionMade (if known then c.transport.peername else none)) }
      else none
    | none => none
  | some c, .request =>
    match c.session with
    | some s => s.client.map fun client ↦ { c with session := some (s.request client) }
    | none => none
  | some c, .tlsClosed =>
    if c.session.isSome then some { c with transport := c.transport.abort } else none
  | _, _ => none

/-- One event of one connection, or time passes. -/
def loopStep (_ : ℕ) (now : ℕ) (c : Option Conn) (e : Event) : Option (ℕ × Option Conn) :=
  match e with
  | .tick elapsed => some (now + elapsed, c)
  | e => (connStep lib cls size now c e).map fun c' ↦ (now, some c')

end

/-- What an event can do. -/
inductive Move (lib : Library) (cls : ProtocolClass) (size : ℕ → ℕ → ℕ+) (now : ℕ) :
    Option Conn → Event → Conn → Prop
  | connectionMade (peername : Option Client) :
      Move lib cls size now none (.connectionMade peername) (connectionMade lib cls now peername)
  | dataReceived {c : Conn} (hlink : c.transport.link = .connected) (data : Bytes) :
      Move lib cls size now (some c) (.dataReceived data) (c.deliver lib size data)
  | eofReceived {c : Conn} : Move lib cls size now (some c) .eofReceived c.eofReceived
  | timeout {c : Conn} {due : ℕ} (htimer : c.timer = some due) (hdue : due ≤ now) :
      Move lib cls size now (some c) .timeout c.close
  | connectionLost {c : Conn} : Move lib cls size now (some c) .connectionLost c.connectionLost
  | handshake {c : Conn} {s : Session} (known : Bool) (hs : c.session = some s)
      (hclient : s.client = none) :
      Move lib cls size now (some c) (.handshake known) { c with
        session := some (s.connectionMade (if known then c.transport.peername else none)) }
  | request {c : Conn} {s : Session} {client : Option Client} (hs : c.session = some s)
      (hclient : s.client = some client) :
      Move lib cls size now (some c) .request { c with session := some (s.request client) }
  | tlsClosed {c : Conn} (hs : c.session ≠ none) :
      Move lib cls size now (some c) .tlsClosed { c with transport := c.transport.abort }

/-! ## What each event leaves alone -/

section

variable {lib : Library} {cls : ProtocolClass} {size : ℕ → ℕ → ℕ+} {c : Conn}

theorem move_of_connStep {now : ℕ} {conn : Option Conn} {e : Event} {c' : Conn}
    (h : connStep lib cls size now conn e = some c') : Move lib cls size now conn e c' := by
  revert h
  fun_cases connStep lib cls size now conn e
  all_goals
    rintro h
    try cases h
  · exact .connectionMade _
  · exact .dataReceived ‹_› _
  · exact .eofReceived
  · obtain ⟨due, hdue, hclose⟩ := Option.bind_eq_some_iff.mp h
    obtain ⟨hle, hc'⟩ := Option.ite_none_right_eq_some.mp hclose
    cases hc'
    exact .timeout hdue hle
  · exact .connectionLost
  · next hs hmade => exact .handshake _ hs hmade.1
  · obtain ⟨client, hclient, rfl⟩ := Option.map_eq_some_iff.mp h
    exact .request ‹_› hclient
  · next hs => exact .tlsClosed (Option.isSome_iff_ne_none.mp hs)

@[simp]
theorem Transport.abort_peername (t : Transport) : t.abort.peername = t.peername := rfl

@[simp]
theorem Transport.abort_madeAt (t : Transport) : t.abort.madeAt = t.madeAt := rfl

@[simp]
theorem Transport.abort_delivered (t : Transport) : t.abort.delivered = t.delivered := rfl

@[simp]
theorem Transport.abort_ne_connected (t : Transport) : t.abort.link ≠ .connected := by
  rw [Transport.abort]
  split <;> simp_all

@[simp]
theorem Session.connectionMade_proxiedClient (s : Session) (peername : Option Client) :
    (s.connectionMade peername).proxiedClient = s.proxiedClient := rfl

theorem Transport.abort_link {t : Transport} (h : t.link ≠ .lost) : t.abort.link = .closing := by
  rw [Transport.abort]
  cases hlink : t.link <;> simp_all

/-- What the socket's peer is called. -/
def Transport.host (t : Transport) : String := (t.peername.map Prod.fst).getD "?"

/-! ## What holds of a connection -/

/-- TLS has been started for the client that the header names, and has been fed what came after the
header.  Each request is told this client, or, when the header names none, the peer. -/
structure Session.Sound (lib : Library) (t : Transport) (s : Session) : Prop where
  header : ∃ consumed, parseHeader lib t.delivered.flatten =
      .ok (some (s.proxiedClient, consumed)) ∧
    s.fed.flatten = t.delivered.flatten.drop consumed
  client : ∀ client ∈ s.client, client = s.proxiedClient ∨
    s.proxiedClient = none ∧ client = t.peername
  served : ∀ client ∈ s.served, s.client = some client

/-- The invariant of a connection. -/
structure Conn.Sound (lib : Library) (cls : ProtocolClass) (c : Conn) : Prop where
  peer : c.peer = c.transport.host
  /-- An untrusted peer is dropped before anything is read. -/
  trusted : c.transport.link = .connected ∨ c.transport.delivered ≠ [] →
    isTrusted lib c.peer cls.trusted = true
  /-- The timer is that of the header, and runs while there is neither a header nor an end. -/
  timer : ∀ due ∈ c.timer, due = c.transport.madeAt + cls.headerTimeout ∧
    c.session = none ∧ c.transport.link ≠ .lost
  buffered : c.session = none → c.buf = c.transport.delivered.flatten
  waiting : c.session = none → c.transport.link = .connected →
    parseHeader lib c.buf = .ok none ∧ c.timer ≠ none
  session : ∀ s ∈ c.session, s.Sound lib c.transport

/-- TLS has no timer of the header. -/
theorem Conn.Sound.timer_eq_none (h : c.Sound lib cls) {s : Session} (hs : c.session = some s) :
    c.timer = none := by
  rw [Option.eq_none_iff_forall_not_mem]
  intro due hdue
  have hnone := (h.timer due hdue).2.1
  rw [hs] at hnone
  cases hnone

theorem sound_connectionMade (now : ℕ) (peername : Option Client) :
    (connectionMade lib cls now peername).Sound lib cls := by
  rw [connectionMade]
  split
  · next htrusted =>
    exact ⟨rfl, fun _ ↦ htrusted, by simp, fun _ ↦ rfl, fun _ _ ↦ ⟨rfl, by simp⟩, by simp⟩
  · exact ⟨rfl, by simp, by simp, fun _ ↦ rfl, by simp, by simp⟩

/-- A connection that is given up. -/
theorem Conn.Sound.abort (h : c.Sound lib cls) {timer : Option ℕ}
    (htimer : timer = none ∨ timer = c.timer) :
    ({ c with transport := c.transport.abort, timer } : Conn).Sound lib cls where
  peer := h.peer
  trusted := by simpa using fun hne ↦ h.trusted (.inr hne)
  timer := by
    rcases htimer with rfl | rfl
    · simp
    · intro due hdue
      obtain ⟨hmade, hsession, hlink⟩ := h.timer due hdue
      exact ⟨hmade, hsession, by simp [Transport.abort_link hlink]⟩
  buffered := h.buffered
  waiting := by simp
  session := fun s hs ↦ ⟨(h.session s hs).header, (h.session s hs).client, (h.session s hs).served⟩

theorem Conn.Sound.close (h : c.Sound lib cls) : c.close.Sound lib cls := h.abort (.inl rfl)

/-- TLS is fed whatever comes after the header. -/
theorem Session.Sound.fed {t : Transport} {s : Session} (h : s.Sound lib t) (data : Bytes) :
    ({ s with fed := s.fed ++ [data] } : Session).Sound lib
      { t with delivered := t.delivered ++ [data] } := by
  obtain ⟨consumed, hparse, hfed⟩ := h.header
  refine ⟨⟨consumed, ?_, ?_⟩, h.client, h.served⟩
  · rw [List.flatten_append, parseHeader_stable lib _ _ (by simp [hparse]), hparse]
  · rw [List.flatten_append, List.flatten_append, hfed,
      List.drop_append_of_le_length (length_of_parsed hparse)]

/-- **Data is delivered**: to the header, as long as there is none, or else to TLS. -/
theorem Conn.Sound.deliver (h : c.Sound lib cls) (hlink : c.transport.link = .connected)
    (data : Bytes) : (c.deliver lib size data).Sound lib cls := by
  have htrusted := h.trusted (.inl hlink)
  rw [Conn.deliver]
  cases hs : c.session with
  | some s =>
    refine ⟨h.peer, fun _ ↦ htrusted, by simp [h.timer_eq_none hs], by simp, by simp, ?_⟩
    simpa using (h.session s hs).fed data
  | none =>
    have hbuf : c.buf ++ data = (c.transport.delivered ++ [data]).flatten := by
      simp [h.buffered hs]
    dsimp only [Conn.dataReceived]
    split
    · refine ⟨h.peer, fun _ ↦ htrusted, by simp [Conn.close, Conn.cancelTimer], fun _ ↦ hbuf,
        by simp [Conn.close], by simp [Conn.close, Conn.cancelTimer]⟩
    · next hparse =>
      refine ⟨h.peer, fun _ ↦ htrusted, fun due hdue ↦ ?_, fun _ ↦ hbuf,
        fun _ _ ↦ ⟨hparse, (h.waiting hs hlink).2⟩, by simp⟩
      exact ⟨(h.timer due hdue).1, rfl, (h.timer due hdue).2.2⟩
    · next client consumed hparse =>
      refine ⟨h.peer, fun _ ↦ htrusted, by simp [Conn.startTls, Conn.cancelTimer],
        by simp [Conn.startTls], by simp [Conn.startTls], ?_⟩
      rintro s' hs'
      simp only [Conn.startTls, Option.mem_def, Option.some.injEq] at hs'
      subst hs'
      refine ⟨⟨consumed, ?_, ?_⟩, by simp, by simp⟩
      · exact hbuf ▸ hparse
      · rw [flatten_feedTls]
        exact congrArg (List.drop consumed) hbuf

theorem Conn.Sound.eofReceived (h : c.Sound lib cls) : c.eofReceived.Sound lib cls := by
  rw [Conn.eofReceived]
  split
  · exact h.abort (.inr rfl)
  · exact h

theorem Conn.Sound.connectionLost (h : c.Sound lib cls) : c.connectionLost.Sound lib cls := by
  have htrusted : c.transport.delivered ≠ [] → isTrusted lib c.peer cls.trusted = true :=
    fun hne ↦ h.trusted (.inr hne)
  rw [Conn.connectionLost]
  cases hs : c.session with
  | none =>
    refine ⟨h.peer, by simpa [Conn.cancelTimer] using htrusted, by simp [Conn.cancelTimer],
      fun _ ↦ h.buffered hs, by simp [Conn.cancelTimer], by simp [Conn.cancelTimer]⟩
  | some s =>
    refine ⟨h.peer, by simpa using htrusted, by simp [h.timer_eq_none hs], by simp, by simp, ?_⟩
    obtain ⟨hheader, hclient, hserved⟩ := h.session s hs
    simpa using ⟨hheader, hclient, hserved⟩

/-- What the HTTP protocol does leaves the rest alone. -/
theorem Conn.Sound.withSession (h : c.Sound lib cls) {s s' : Session} (hs : c.session = some s)
    (hs' : s'.Sound lib c.transport) :
    ({ c with session := some s' } : Conn).Sound lib cls where
  peer := h.peer
  trusted := h.trusted
  timer := by simp [h.timer_eq_none hs]
  buffered := by simp
  waiting := by simp
  session := by simpa using hs'

theorem Session.Sound.connectionMade {t : Transport} {s : Session} (h : s.Sound lib t)
    (hclient : s.client = none) (known : Bool) :
    (s.connectionMade (if known then t.peername else none)).Sound lib t := by
  refine ⟨h.header, fun client hmade ↦ ?_, fun client hc ↦ ?_⟩
  · obtain rfl := Option.some.inj hmade
    rw [Session.connectionMade_proxiedClient]
    cases s.proxiedClient with
    | some client => exact .inl rfl
    | none => cases known <;> simp
  · have hsome := h.served client hc
    rw [hclient] at hsome
    cases hsome

theorem Session.Sound.request {t : Transport} {s : Session} (h : s.Sound lib t)
    {client : Option Client} (hclient : s.client = some client) :
    (s.request client).Sound lib t := by
  refine ⟨h.header, h.client, fun other hother ↦ ?_⟩
  rw [Session.request, List.mem_append, List.mem_singleton] at hother
  rcases hother with hother | rfl
  · exact h.served other hother
  · exact hclient

/-- **Every event keeps the invariant.** -/
theorem Move.sound {now : ℕ} {conn : Option Conn} {e : Event} {c' : Conn}
    (hmove : Move lib cls size now conn e c') (h : ∀ c ∈ conn, c.Sound lib cls) :
    c'.Sound lib cls := by
  cases hmove with
  | connectionMade peername => exact sound_connectionMade now peername
  | dataReceived hlink data => exact (h _ rfl).deliver hlink data
  | eofReceived => exact (h _ rfl).eofReceived
  | timeout => exact (h _ rfl).close
  | connectionLost => exact (h _ rfl).connectionLost
  | handshake known hs hclient =>
    exact (h _ rfl).withSession hs (((h _ rfl).session _ hs).connectionMade hclient known)
  | request hs hclient => exact (h _ rfl).withSession hs (((h _ rfl).session _ hs).request hclient)
  | tlsClosed => exact (h _ rfl).abort (.inr rfl)

end

end WgManager.ProxyProtocol
