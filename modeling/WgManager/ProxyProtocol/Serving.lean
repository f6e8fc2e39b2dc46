import WgManager.Models
import WgManager.ProxyProtocol.Codec
import WgManager.ProxyProtocol.Listener

/-!
# Who is served on the enrollment port

Runs of the event loop: any number of connections, from whatever peers, with their events in any
order.

* `requests_name_their_client`: nobody but a trusted proxy gets anything read, and the application
  is told the client that the header of this very connection names.
* `header_in_time`: a connection without a header is as young as the timeout allows and holds few
  bytes, and the timer never ends another.
* `relayed_client`: a client behind a trusted proxy gets through to TLS, with all of its bytes and
  under its own address, whatever the other connections do.
-/

set_option autoImplicit false

namespace WgManager.ProxyProtocol

open PyBytes

/-- The clock of the loop, and its connections. -/
abbrev Loop := Config ℕ Conn

/-- Before the first connection. -/
def startLoop (now : ℕ) : Loop := ⟨now, fun _ ↦ none⟩

section

variable (lib : Library) (cls : ProtocolClass) (size : ℕ → ℕ → ℕ+)

/-- The events of the connections, in the order in which the loop comes to them. -/
def serve : Loop → List (ℕ × Event) → Option Loop :=
  Run.run (Config.step (loopStep lib cls size))

end

/-! ## Two connections -/

/-- Only the hosts of `10.9.0.0/30` are proxies. -/
def internalProxies : ProtocolClass where
  trusted := [.v4 exampleSubnet]
  headerTimeout := 5
  trusted_ne_nil := List.cons_ne_nil _ _

def helloHeader : Bytes := hostToHost.encodeV2 []

def exampleProxy : Client := ("10.9.0.2", 40000)

/-- A proxy relays `hostToHost` in two pieces, while another host tries its luck. -/
def twoPeers : List (ℕ × Event) :=
  [(0, .connectionMade (some exampleProxy)), (1, .connectionMade (some ("203.0.113.9", 1))),
    (0, .dataReceived (helloHeader.take 20)), (1, .connectionLost), (0, .tick 3),
    (0, .dataReceived (helloHeader.drop 20 ++ [22, 3, 1])), (0, .handshake true), (0, .request)]

/-- The events of the proxy's connection, from the first piece on. -/
def relayedEvents : List Event :=
  [.dataReceived (helloHeader.take 20), .tick 3, .dataReceived (helloHeader.drop 20 ++ [22, 3, 1]),
    .handshake true, .request]

/-- TLS takes whatever it is given at once. -/
def wholeBuffer (_ asked : ℕ) : ℕ+ := asked.succPNat

/-- A run that can be evaluated, with a connection of it. -/
theorem exists_twoPeers (es : List (ℕ × Event)) {i : ℕ} {p : Conn → Bool}
    (h : ((serve fullLibrary internalProxies wholeBuffer (startLoop 0) es).bind
      (·.proc i)).any p = true) :
    ∃ l c, serve fullLibrary internalProxies wholeBuffer (startLoop 0) es = some l ∧
      l.proc i = some c ∧ p c = true := by
  cases hl : serve fullLibrary internalProxies wholeBuffer (startLoop 0) es with
  | none => simp [hl] at h
  | some l =>
    cases hc : l.proc i with
    | none => simp [hl, hc] at h
    | some c => exact ⟨l, c, rfl, hc, by simpa [hl, hc] using h⟩

theorem serve_twoPeers : ∃ l c,
    serve fullLibrary internalProxies wholeBuffer (startLoop 0) twoPeers = some l ∧
      l.proc 1 = some c ∧
      (!isTrusted fullLibrary c.transport.host internalProxies.trusted) = true :=
  exists_twoPeers twoPeers (by decide +kernel)

section

variable {lib : Library} {cls : ProtocolClass} {size : ℕ → ℕ → ℕ+} {l l' : Loop}

theorem loopStep_eq_some {i now now' : ℕ} {conn conn' : Option Conn} {e : Event}
    (h : loopStep lib cls size i now conn e = some (now', conn')) :
    (∃ elapsed, e = .tick elapsed ∧ now' = now + elapsed ∧ conn' = conn) ∨
      ∃ c', now' = now ∧ conn' = some c' ∧ Move lib cls size now conn e c' := by
  unfold loopStep at h
  split at h
  · next elapsed =>
    cases h
    exact .inl ⟨elapsed, rfl, rfl, rfl⟩
  · obtain ⟨c', hc', heq⟩ := Option.map_eq_some_iff.mp h
    cases heq
    exact .inr ⟨c', rfl, rfl, move_of_connStep hc'⟩

/-- An event moves its own connection, if any, and leaves the others alone. -/
theorem proc_of_step {e : ℕ × Event} (h : Config.step (loopStep lib cls size) l e = some l')
    (j : ℕ) : l'.proc j = l.proc j ∧ (e.1 = j → ∃ elapsed, e.2 = .tick elapsed) ∨
      e.1 = j ∧ ∃ c', l'.proc j = some c' ∧ Move lib cls size l.shared (l.proc j) e.2 c' := by
  obtain ⟨now', conn', hstep, rfl⟩ := Config.step_eq_some.mp h
  by_cases hj : j = e.1
  · subst hj
    obtain ⟨elapsed, htick, -, rfl⟩ | ⟨c', -, rfl, hmove⟩ := loopStep_eq_some hstep
    · exact .inl ⟨Function.update_self .., fun _ ↦ ⟨elapsed, htick⟩⟩
    · exact .inr ⟨rfl, c', Function.update_self .., hmove⟩
  · exact .inl ⟨Function.update_of_ne hj .., fun he ↦ absurd he.symm hj⟩

/-- Every connection is sound. -/
def AllSound (lib : Library) (cls : ProtocolClass) (l : Loop) : Prop :=
  ∀ i, ∀ c ∈ l.proc i, c.Sound lib cls

theorem allSound_step {e : ℕ × Event} (hl : AllSound lib cls l)
    (h : Config.step (loopStep lib cls size) l e = some l') : AllSound lib cls l' := by
  intro j c hc
  obtain ⟨hsame, -⟩ | ⟨-, c', hc', hmove⟩ := proc_of_step h j
  · rw [hsame] at hc
    exact hl j c hc
  · rw [hc'] at hc
    cases hc
    exact hmove.sound (hl j)

theorem allSound_serve {now : ℕ} {es : List (ℕ × Event)}
    (h : serve lib cls size (startLoop now) es = some l) : AllSound lib cls l :=
  Run.run_invariant' (fun _ _ _ hs hstep ↦ allSound_step hs hstep) (fun _ c hc ↦ by cases hc) h

/-! ## Whom the application is told about -/

/-- **Requests name their client.**  Whatever connects, sends or hangs up, in any order:

* From a peer that is no trusted proxy nothing is read, and TLS is not started.
* Elsewhere TLS is started only after a whole header, and is fed exactly the bytes after it, in
  their order.
* Each request is served with the client of this header; where the header names none, with the
  proxy, or nobody when the connection is gone. -/
theorem requests_name_their_client {now : ℕ} {es : List (ℕ × Event)}
    (hrun : serve lib cls size (startLoop now) es = some l) {i : ℕ} {c : Conn}
    (hc : l.proc i = some c) :
    (isTrusted lib c.transport.host cls.trusted = false →
      c.transport.link ≠ .connected ∧ c.transport.delivered = [] ∧ c.session = none) ∧
    ∀ s, c.session = some s →
      (∃ consumed, parseHeader lib c.transport.delivered.flatten =
          .ok (some (s.proxiedClient, consumed)) ∧
        s.fed.flatten = c.transport.delivered.flatten.drop consumed) ∧
      ∀ client ∈ s.served, client = s.proxiedClient ∨
        s.proxiedClient = none ∧ client = c.transport.peername := by
  have hsound := allSound_serve hrun i c hc
  constructor
  · intro huntrusted
    have hnot : ¬(c.transport.link = .connected ∨ c.transport.delivered ≠ []) := by
      intro h
      rw [← hsound.peer, hsound.trusted h] at huntrusted
      cases huntrusted
    rw [not_or, not_not] at hnot
    refine ⟨hnot.1, hnot.2, Option.eq_none_iff_forall_not_mem.mpr fun s hs ↦ ?_⟩
    -- without bytes there is no header
    obtain ⟨consumed, hparse, -⟩ := (hsound.session s hs).header
    rw [hnot.2] at hparse
    cases hparse
  · intro s hs
    have h := hsound.session s hs
    exact ⟨h.header, fun client hclient ↦ h.client client (h.served client hclient)⟩

/-- The other host of `twoPeers` is not listened to. -/
theorem requests_name_their_client_twoPeers :
    ∃ l c, serve fullLibrary internalProxies wholeBuffer (startLoop 0) twoPeers = some l ∧
      l.proc 1 = some c ∧ c.transport.delivered = [] ∧ c.session = none := by
  obtain ⟨l, c, hl, hc, hhost⟩ := serve_twoPeers
  obtain ⟨-, hdelivered, hsession⟩ := (requests_name_their_client hl hc).1 (by simpa using hhost)
  exact ⟨l, c, hl, hc, hdelivered, hsession⟩

/-! ## The timer -/

/-- **A header comes in time.**  In every state of every run:

* A connection without a header holds fewer than 16 + 4096 bytes, and its timer is set for the
  timeout after it was made: it is younger than that once the loop has run what is due.
* The timer goes off on no other connection than one that has had its time and has no header, and
  ends it.
* No timer outlives its connection. -/
theorem header_in_time {now : ℕ} {es : List (ℕ × Event)}
    (hrun : serve lib cls size (startLoop now) es = some l) {i : ℕ} {c : Conn}
    (hc : l.proc i = some c) :
    (c.session = none → c.transport.link = .connected →
      c.transport.delivered.flatten.length < v2HeaderLen + v2MaxBody ∧
      c.timer = some (c.transport.madeAt + cls.headerTimeout) ∧
      ((∀ due ∈ c.timer, l.shared < due) →
        l.shared < c.transport.madeAt + cls.headerTimeout)) ∧
    (∀ l', serve lib cls size l [(i, .timeout)] = some l' →
      c.session = none ∧ c.transport.madeAt + cls.headerTimeout ≤ l.shared ∧
      ∃ c', l'.proc i = some c' ∧ c'.transport.link = .closing ∧ c'.timer = none) ∧
    (c.session ≠ none ∨ c.transport.link = .lost → c.timer = none) := by
  have hsound := allSound_serve hrun i c hc
  refine ⟨fun hsession hlink ↦ ?_, fun l' hl' ↦ ?_, fun hover ↦ ?_⟩
  · obtain ⟨hparse, htimer⟩ := hsound.waiting hsession hlink
    have hlen := (length_of_waiting hparse).2
    rw [hsound.buffered hsession] at hlen
    obtain ⟨due, hdue⟩ := Option.ne_none_iff_exists'.mp htimer
    obtain ⟨rfl, -, -⟩ := hsound.timer due hdue
    exact ⟨hlen, hdue, fun hcaught ↦ hcaught _ hdue⟩
  · obtain ⟨m, hm, hl'⟩ := (Run.run_cons_eq_some _).mp hl'
    cases hl'
    obtain ⟨-, htick⟩ | ⟨-, c', hc', hmove⟩ := proc_of_step hm i
    · obtain ⟨elapsed, htick⟩ := htick rfl
      cases htick
    · rw [hc] at hmove
      cases hmove with
      | timeout htimer hdue =>
        obtain ⟨rfl, hsession, hlink⟩ := hsound.timer _ htimer
        exact ⟨hsession, hdue, _, hc', Transport.abort_link hlink, rfl⟩
  · rw [Option.eq_none_iff_forall_not_mem]
    intro due hdue
    obtain ⟨-, hsession, hlink⟩ := hsound.timer due hdue
    exact hover.elim (· hsession) hlink

/-- In `twoPeers`, after the first piece. -/
theorem header_in_time_twoPeers :
    ∃ l c, serve fullLibrary internalProxies wholeBuffer (startLoop 0) (twoPeers.take 5) = some l ∧
      l.proc 0 = some c ∧ c.timer = some (c.transport.madeAt + 5) := by
  obtain ⟨l, c, hl, hc, hwaiting⟩ := exists_twoPeers (twoPeers.take 5) (i := 0)
    (p := fun c ↦ c.session.isNone && c.transport.link == .connected) (by decide +kernel)
  rw [Bool.and_eq_true, Option.isNone_iff_eq_none, beq_iff_eq] at hwaiting
  obtain ⟨-, htimer, -⟩ := (header_in_time hl hc).1 hwaiting.1 hwaiting.2
  exact ⟨l, c, hl, hc, htimer⟩

/-! ## A client behind a proxy -/

/-- The data that an event delivers. -/
def Event.data : Event → List Bytes
  | .dataReceived data => [data]
  | _ => []

/-- The connection comes to its end, or is given up. -/
def Event.Ends : Event → Prop
  | .eofReceived | .timeout | .connectionLost | .tlsClosed => True
  | _ => False

/-- The events of one connection. -/
def eventsOf (i : ℕ) (es : List (ℕ × Event)) : List Event := (es.filter (·.1 = i)).map Prod.snd

theorem eventsOf_cons_self (e : ℕ × Event) (es : List (ℕ × Event)) :
    eventsOf e.1 (e :: es) = e.2 :: eventsOf e.1 es := by
  simp [eventsOf]

/-- An event that leaves a connection alone is another's, or time passes. -/
theorem eventsOf_cons {i : ℕ} {e : ℕ × Event} (h : e.1 = i → ∃ elapsed, e.2 = .tick elapsed)
    (es : List (ℕ × Event)) : eventsOf i (e :: es) = eventsOf i es ∨
      ∃ elapsed, eventsOf i (e :: es) = .tick elapsed :: eventsOf i es := by
  by_cases hi : e.1 = i
  · obtain ⟨elapsed, htick⟩ := h hi
    subst hi
    exact .inr ⟨elapsed, by rw [eventsOf_cons_self, htick]⟩
  · exact .inl (by simp [eventsOf, hi])

/-- The beginning of a header is no error. -/
theorem no_error_of_append {buf more : Bytes} {result : Option (Option Client × ℕ)}
    (h : parseHeader lib (buf ++ more) = .ok result) (reason : String) :
    parseHeader lib buf ≠ .error reason := by
  intro herror
  rw [parseHeader_stable lib _ _ (by simp [herror]), herror] at h
  cases h

/-- Data leaves a connection open as long as it can be a header. -/
theorem Conn.Sound.deliver_transport {c : Conn} (h : c.Sound lib cls) (data : Bytes)
    (hok : ∀ reason, parseHeader lib (c.transport.delivered.flatten ++ data) ≠ .error reason) :
    (c.deliver lib size data).transport =
      { c.transport with delivered := c.transport.delivered ++ [data] } := by
  rw [Conn.deliver]
  cases hs : c.session with
  | some s => rfl
  | none =>
    rw [← h.buffered hs] at hok
    dsimp only [Conn.dataReceived]
    split
    · next reason hparse => exact absurd hparse (hok reason)
    · rfl
    · rfl

/-- What an event that is no end does to the transport. -/
theorem Move.keeps {now : ℕ} {c c' : Conn} {e : Event}
    (hmove : Move lib cls size now (some c) e c') (h : c.Sound lib cls) (hkeep : ¬e.Ends)
    (hok : ∀ reason,
      parseHeader lib (c.transport.delivered.flatten ++ e.data.flatten) ≠ .error reason) :
    c'.transport = { c.transport with delivered := c.transport.delivered ++ e.data } := by
  cases hmove with
  | dataReceived hlink data => exact h.deliver_transport data (by simpa [Event.data] using hok)
  | handshake | request => simp [Event.data]
  | eofReceived | timeout | connectionLost | tlsClosed => exact absurd trivial hkeep

/-- **While it does not end, a connection whose stream starts with a header stays open**, and
everything is delivered. -/
theorem transport_of_serve {es : List (ℕ × Event)} (hrun : serve lib cls size l es = some l')
    (hsound : AllSound lib cls l) {i : ℕ} {c : Conn} (hc : l.proc i = some c)
    (hkeep : ∀ e ∈ eventsOf i es, ¬e.Ends) {result : Option (Option Client × ℕ)}
    (hok : parseHeader lib (c.transport.delivered.flatten ++
      ((eventsOf i es).flatMap Event.data).flatten) = .ok result) :
    ∃ c', l'.proc i = some c' ∧ c'.transport = { c.transport with
      delivered := c.transport.delivered ++ (eventsOf i es).flatMap Event.data } := by
  induction es generalizing l c with
  | nil =>
    cases hrun
    exact ⟨c, hc, by simp [eventsOf]⟩
  | cons e es ih =>
    obtain ⟨m, hm, hrun⟩ := (Run.run_cons_eq_some _).mp hrun
    have hsound' := allSound_step hsound hm
    obtain ⟨hsame, htick⟩ | ⟨rfl, c', hc', hmove⟩ := proc_of_step hm i
    · rw [hc] at hsame
      obtain hevents | ⟨elapsed, hevents⟩ := eventsOf_cons htick es
      · rw [hevents] at hkeep hok ⊢
        exact ih hrun hsound' hsame hkeep hok
      · rw [hevents] at hkeep hok ⊢
        exact ih hrun hsound' hsame (fun e he ↦ hkeep e (List.mem_cons_of_mem _ he)) hok
    · rw [hc] at hmove
      rw [eventsOf_cons_self] at hkeep hok ⊢
      rw [List.flatMap_cons, List.flatten_append, ← List.append_assoc] at hok
      have htransport := hmove.keeps (hsound _ c hc) (hkeep _ List.mem_cons_self)
        (no_error_of_append hok)
      obtain ⟨c'', hc'', heq⟩ := ih hrun hsound' hc'
        (fun e he ↦ hkeep e (List.mem_cons_of_mem _ he))
        (by rw [htransport, List.flatten_append]; exact hok)
      refine ⟨c'', hc'', ?_⟩
      rw [heq, htransport, List.flatMap_cons, List.append_assoc]

/-- The same, from the making of the connection on. -/
theorem transport_of_made {es : List (ℕ × Event)} (hrun : serve lib cls size l es = some l')
    (hsound : AllSound lib cls l) {i : ℕ} (hnone : l.proc i = none) {proxy : Client}
    (htrusted : isTrusted lib proxy.1 cls.trusted = true) {events : List Event}
    (hevents : eventsOf i es = .connectionMade (some proxy) :: events)
    (hkeep : ∀ e ∈ events, ¬e.Ends) {result : Option (Option Client × ℕ)}
    (hok : parseHeader lib (events.flatMap Event.data).flatten = .ok result) :
    ∃ c, l'.proc i = some c ∧ c.transport.link = .connected ∧
      c.transport.delivered = events.flatMap Event.data := by
  induction es generalizing l with
  | nil => cases hevents
  | cons e es ih =>
    obtain ⟨m, hm, hrun⟩ := (Run.run_cons_eq_some _).mp hrun
    have hsound' := allSound_step hsound hm
    obtain ⟨hsame, htick⟩ | ⟨rfl, c, hc, hmove⟩ := proc_of_step hm i
    · rw [hnone] at hsame
      obtain hrest | ⟨elapsed, hrest⟩ := eventsOf_cons htick es
      · exact ih hrun hsound' hsame (hrest ▸ hevents)
      · rw [hrest] at hevents
        cases hevents
    · rw [eventsOf_cons_self, List.cons.injEq] at hevents
      obtain ⟨hmade, rfl⟩ := hevents
      rw [hnone, hmade] at hmove
      cases hmove with
      | connectionMade =>
        have htransport : (connectionMade lib cls l.shared (some proxy)).transport =
            { peername := some proxy, madeAt := l.shared } := by
          rw [connectionMade, Option.map_some, Option.getD_some, if_pos htrusted]
        obtain ⟨c, hc, heq⟩ := transport_of_serve hrun hsound' hc hkeep
          (by rw [htransport]; exact hok)
        rw [htransport] at heq
        exact ⟨c, hc, by rw [heq], by rw [heq]; rfl⟩

/-- **A client behind a proxy gets through under its own address.**  A trusted proxy connects and
relays a client, with a header of either version before the client's bytes, cut in any way; until
the connection ends, and whatever the other connections do: TLS is started and has been fed exactly
the bytes of the client, and each request is served with the client's address and port. -/
theorem relayed_client (hlib : lib.Lawful) {now : ℕ} {es : List (ℕ × Event)}
    (hrun : serve lib cls size (startLoop now) es = some l) {i : ℕ} {proxy : Client}
    (htrusted : isTrusted lib proxy.1 cls.trusted = true) {events : List Event}
    (hevents : eventsOf i es = .connectionMade (some proxy) :: events)
    (hkeep : ∀ e ∈ events, ¬e.Ends) {ends : Endpoints} {header payload : Bytes}
    (hheader : header = ends.encodeV1 lib ∨
      ∃ tlvs, (ends.v2Body tlvs).length ≤ v2MaxBody ∧ header = ends.encodeV2 tlvs)
    (hdata : (events.flatMap Event.data).flatten = header ++ payload) :
    ∃ c s, l.proc i = some c ∧ c.transport.link = .connected ∧ c.session = some s ∧
      s.proxiedClient = some (lib.str ends.src, ends.sport) ∧ s.fed.flatten = payload ∧
      ∀ client ∈ s.served, client = some (lib.str ends.src, ends.sport) := by
  have hparse : parseHeader lib (header ++ payload) =
      .ok (some (some (lib.str ends.src, ends.sport), header.length)) := by
    rcases hheader with hv1 | ⟨tlvs, hlen, hv2⟩
    · rw [hv1]
      exact ends.parseHeader_encodeV1 hlib payload
    · rw [hv2]
      exact ends.parseHeader_encodeV2 hlen payload
  obtain ⟨c, hc, hlink, hdelivered⟩ := transport_of_made hrun (fun _ c hc ↦ by cases hc) rfl
    htrusted hevents hkeep (by rw [hdata]; exact hparse)
  have hsound := allSound_serve hrun i c hc
  have hstream : c.transport.delivered.flatten = header ++ payload := by rw [hdelivered, hdata]
  cases hs : c.session with
  | none =>
    -- it would still be waiting for the header
    have hwaiting := (hsound.waiting hs hlink).1
    rw [hsound.buffered hs, hstream, hparse] at hwaiting
    cases hwaiting
  | some s =>
    obtain ⟨⟨consumed, hread, hfed⟩, hclient, hserved⟩ := hsound.session s hs
    rw [hstream, hparse, Except.ok.injEq, Option.some.injEq, Prod.mk.injEq] at hread
    obtain ⟨hproxied, rfl⟩ := hread
    rw [hstream, List.drop_left] at hfed
    refine ⟨c, s, hc, hlink, hs, hproxied.symm, hfed, fun client hmem ↦ ?_⟩
    obtain rfl | ⟨hnone, -⟩ := hclient client (hserved client hmem)
    · exact hproxied.symm
    · rw [hnone] at hproxied
      cases hproxied

end

/-- The client of `twoPeers` gets through. -/
theorem relayed_client_twoPeers :
    ∃ l c s, serve fullLibrary internalProxies wholeBuffer (startLoop 0) twoPeers = some l ∧
      l.proc 0 = some c ∧ c.session = some s ∧ s.fed.flatten = [22, 3, 1] ∧
      s.proxiedClient = some (fullLibrary.str hostToHost.src, 56324) := by
  obtain ⟨l, -, hl, -, -⟩ := serve_twoPeers
  have hparse : IPv4Address.parse "10.9.0.2".toList = some 168361986 := by decide +kernel
  have htrusted : isTrusted fullLibrary exampleProxy.1 internalProxies.trusted = true := by
    rw [isTrusted, exampleProxy, Library.ipAddress, hparse]
    decide
  have hevents : eventsOf 0 twoPeers = .connectionMade (some exampleProxy) :: relayedEvents := rfl
  have hkeep : ∀ e ∈ relayedEvents, ¬e.Ends := by simp [relayedEvents, Event.Ends]
  have hdata : (relayedEvents.flatMap Event.data).flatten = helloHeader ++ [22, 3, 1] := by
    simp [relayedEvents, Event.data, ← List.append_assoc]
  have hheader : ∃ tlvs, (hostToHost.v2Body tlvs).length ≤ v2MaxBody ∧
      helloHeader = hostToHost.encodeV2 tlvs := ⟨[], by decide +kernel, rfl⟩
  obtain ⟨c, s, hc, -, hs, hproxied, hfed, -⟩ :=
    relayed_client fullLibrary_lawful hl htrusted hevents hkeep (.inr hheader) hdata
  exact ⟨l, c, s, hl, hc, hs, hfed, hproxied⟩

end WgManager.ProxyProtocol
