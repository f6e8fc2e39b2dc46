import WgManager.Enroll.System
import WgManager.Tasks.Fleet

/-!
# The keys of the peers of a hub

WireGuard knows a peer by its public key: of two `[Peer]` sections with one key the last one has the
address, and the client of the other is cut off without a word.  So the ready clients of a hub must
have different keys.

A key gets into a client row in three ways.  A manual registration generates one; a redemption takes
the one that the host sends, and checks that no client has it; and `provision_client_task` takes the
one that it finds on the host, or generates it there.  Only the second has a check, and that is made
on the snapshot of its transaction.

This file puts the three together: the requests of `Enroll.System`, with their snapshots and locks,
and the runs of `provision_client_task`, which reach machines that keep their private keys.
`ready_peers_have_distinct_keys` says that keys stay different along every run in which a provision
commits only if its machine is no other ready client's of the hub, and a redemption only if its
snapshot shows the keys of all ready clients of the hub.  A machine is a client's when the client
was provisioned on it, or enrolled from it.  So it takes two clients for one machine to make two
peers with one key; in `sharedHostTrace` they are registered.

The state has a history that no step reads: on which machine a client was last provisioned, and
which keys were generated.
-/

set_option autoImplicit false

namespace WgManager.PeerKeys

open Tasks (readyClientsFor flushStatus)

/-! ## The system -/

/-- How far a run of `provision_client_task` has got.  `status` is the status of the row when it was
loaded. -/
inductive Phase
  | begun
  | locked
  | loaded (status : NodeStatus)
  /-- The session is open, to this machine. -/
  | connected (status : NodeStatus) (machine : ℕ)
  /-- `_ensure_keypair` has returned. -/
  | keyed (status : NodeStatus) (machine : ℕ) (publicKey : String)
  | failing (status : NodeStatus)
  | exiting
  deriving DecidableEq

inductive Proc
  | request (p : Enroll.Proc)
  | provision (clientId : ℕ) (ph : Phase)

inductive Action
  /-- A step of a redemption or another request. -/
  | request (a : Enroll.Action)
  /-- `POST /clients/{id}/reprovision`. -/
  | reprovision (ctx : Context) (clientId : ℕ)
  /-- The broker hands out a `provision_client_task`. -/
  | deliver (clientId : ℕ)
  /-- A machine that has no key yet makes one, as a host does before it enrolls. -/
  | generateKey (machine : ℕ) (publicKey : String)
  | lock
  | notAcquired
  | load
  /-- The session is opened; the machine is the one that the hostname of the row leads to. -/
  | connect (machine : ℕ)
  /-- `_ensure_keypair`; `fresh` is what `wg genkey` would come up with. -/
  | ensureKeypair (fresh : String)
  | sshFail
  | commit (cert : HostCertColumns)
  | markError
  | release
  /-- The run ends with an error that is not caught, or with its worker. -/
  | lost

/-- What the processes share. -/
structure Shared where
  enroll : Enroll.Shared
  /-- The holder of the lock of each client row. -/
  locks : ℕ → Option ℕ := fun _ ↦ none
  /-- The public key of `/etc/wireguard/privatekey` on each machine. -/
  machines : ℕ → Option String := fun _ ↦ none
  /-- The machine on which each client was last provisioned. -/
  homes : ℕ → Option ℕ := fun _ ↦ none
  /-- The keys that were generated so far. -/
  keys : List String := []

namespace Shared

def clients (g : Shared) : Table Client := g.enroll.db.clients

def withClients (g : Shared) (clients : Table Client) : Shared :=
  { g with enroll := g.enroll.commit { g.enroll.db with clients } }

def unlock (g : Shared) (clientId : ℕ) : Shared :=
  { g with locks := Function.update g.locks clientId none }

/-- A machine has this key, which it has had before or has just generated. -/
def setKey (g : Shared) (machine : ℕ) (publicKey : String) : Shared :=
  { g with
    machines := Function.update g.machines machine (some publicKey)
    keys := publicKey :: g.keys }

/-- A client is provisioned on a machine. -/
def settle (g : Shared) (clientId machine : ℕ) : Shared :=
  { g with homes := Function.update g.homes clientId (some machine) }

/-- What a step of a request leaves, with the key that it generates.  A row that was not there
before is on no machine. -/
def withRequest (g : Shared) (enroll : Enroll.Shared) (drawn : Option String) : Shared :=
  { g with
    enroll
    homes := fun id ↦ if g.clients.get id = none then none else g.homes id
    keys := drawn.toList ++ g.keys }

end Shared

/-- The key of a machine after `_ensure_keypair`: the one that is there, or else a new one. -/
def ensureKeypair (present : Option String) (fresh : String) : String := present.getD fresh

/-- The columns that `provision_client_task` commits. -/
def provisioned (status : NodeStatus) (publicKey : String) (cert : HostCertColumns)
    (row : Client) : Client :=
  { row with publicKey, hostCert := cert, status := flushStatus status .ready row.status }

/-- `_mark_error`. -/
def markedError (status : NodeStatus) (row : Client) : Client :=
  { row with status := flushStatus status .error row.status }

/-- A step of `provision_client_task`. -/
def provisionStep (i : ℕ) (g : Shared) (clientId : ℕ) :
    Phase → Action → Option (Shared × Option Phase)
  | .begun, .lock =>
    match g.locks clientId with
    | some _ => none
    | none => some ({ g with locks := Function.update g.locks clientId (some i) }, some .locked)
  | .begun, .notAcquired => some (g, none)
  | .begun, .lost => some (g, none)
  | .locked, .load =>
    match g.clients.get clientId with
    | none => some (g.unlock clientId, none)
    | some row =>
      match g.enroll.db.servers.get row.serverId with
      | none => some (g, some (.failing row.status))
      | some _ => some (g, some (.loaded row.status))
  | .loaded status, .connect machine => some (g, some (.connected status machine))
  | .connected status machine, .ensureKeypair fresh =>
    let publicKey := ensureKeypair (g.machines machine) fresh
    some (g.setKey machine publicKey, some (.keyed status machine publicKey))
  | .loaded status, .sshFail => some (g, some (.failing status))
  | .connected status _, .sshFail => some (g, some (.failing status))
  | .keyed status _ _, .sshFail => some (g, some (.failing status))
  | .keyed status machine publicKey, .commit cert =>
    match g.clients.get clientId with
    | none => some (g.unlock clientId, none)
    | some _ =>
      let clients := g.clients.modify clientId (provisioned status publicKey cert)
      some ((g.withClients clients).settle clientId machine, some .exiting)
  | .failing status, .markError =>
    some ((g.withClients (g.clients.modify clientId (markedError status))).unlock clientId, none)
  | .exiting, .release => some (g.unlock clientId, none)
  | _, .lost => some (g.unlock clientId, none)
  | _, _ => none

/-- The row with a generated key that a request is about to insert. -/
def generating : Enroll.Proc → Option Client
  | .request (.registerManualClient _ _) (.inserting _ row) => some row
  | _ => none

/-- The key that a step of a request generates. -/
def drawn (p : Enroll.Proc) (a : Enroll.Action) : Option String :=
  if a = .commit then (generating p).map Client.publicKey else none

/-- A step of a process, or of the handler or host that it stands for while it has not started. -/
def procStep (i : ℕ) (g : Shared) : Option Proc → Action → Option (Shared × Option Proc)
  | none, .deliver clientId => some (g, some (.provision clientId .begun))
  | none, .reprovision ctx clientId =>
    some ({ g with enroll := g.enroll.commit (reprovisionClient ctx g.enroll.db clientId).db },
      none)
  | none, .generateKey machine publicKey =>
    match g.machines machine with
    | some _ => none
    | none => some (g.setKey machine publicKey, none)
  | some (.request p), .request a =>
    (Enroll.procStep i g.enroll (some p) a).map fun r ↦
      (g.withRequest r.1 (drawn p a), r.2.map Proc.request)
  | some (.provision clientId ph), a =>
    (provisionStep i g clientId ph a).map fun r ↦ (r.1, r.2.map (Proc.provision clientId))
  | _, _ => none

def step : Config Shared Proc → ℕ × Action → Option (Config Shared Proc) := Config.step procStep

/-- No request has begun, and no run of the task is past its beginning. -/
def Initial (c : Config Shared Proc) : Prop :=
  ∀ i p, c.proc i = some p → (∃ q, p = .request q ∧ q.fresh) ∨ ∃ id, p = .provision id .begun

/-! ## When a step is harmless -/

/-- The commit of a transaction. -/
def Action.isCommit : Action → Bool
  | request .commit => true
  | commit _ => true
  | _ => false

/-- The redemption that is about to insert a client: its snapshot and the row. -/
def Proc.enrolling : Proc → Option (Db × Client)
  | request (.redemption _ (.admitted w a)) => some (w.snap, a.client)
  | _ => none

/-- The run that is about to commit: its client and the machine it is on. -/
def Proc.provisioning : Proc → Option (ℕ × ℕ)
  | provision clientId (.keyed _ machine _) => some (clientId, machine)
  | _ => none

/-- The key that a step generates, for a manual client or on a machine. -/
def generated (c : Config Shared Proc) (e : ℕ × Action) : Option String :=
  match c.proc e.1, e.2 with
  | none, .generateKey _ publicKey => some publicKey
  | some (.request p), .request a => drawn p a
  | some (.provision _ (.connected _ machine)), .ensureKeypair fresh =>
    if c.shared.machines machine = none then some fresh else none
  | _, _ => none

/-- Generated keys do not collide: with one another, or with the key of a client. -/
def KeysFresh (c : Config Shared Proc) (e : ℕ × Action) : Prop :=
  ∀ key ∈ generated c e, key ∉ c.shared.keys ∧ ∀ row ∈ c.shared.clients.rows, row.publicKey ≠ key

instance (c : Config Shared Proc) (e : ℕ × Action) : Decidable (KeysFresh c e) :=
  inferInstanceAs (Decidable (∀ key ∈ generated c e, _))

/-- When a redemption commits, its snapshot shows the keys of all ready clients of the hub. -/
def EnrollsCurrent (c : Config Shared Proc) (e : ℕ × Action) : Prop :=
  ∀ new ∈ (c.proc e.1).bind Proc.enrolling, ∀ row ∈ c.shared.clients.rows,
    row.serverId = new.2.serverId → row.status = .ready →
      ∃ seen ∈ new.1.clients.rows, seen.publicKey = row.publicKey

instance (c : Config Shared Proc) (e : ℕ × Action) : Decidable (EnrollsCurrent c e) :=
  inferInstanceAs (Decidable (∀ new ∈ (c.proc e.1).bind Proc.enrolling, _))

/-- A machine is a client's: the client was last provisioned on it, or it was enrolled, with the key
of the machine. -/
def IsOn (g : Shared) (machine : ℕ) (row : Client) : Prop :=
  g.homes row.id = some machine ∨
    g.homes row.id = none ∧ row.isManual = false ∧ g.machines machine = some row.publicKey

instance (g : Shared) (machine : ℕ) (row : Client) : Decidable (IsOn g machine row) :=
  inferInstanceAs (Decidable (_ ∨ _))

/-- When a provision commits, its machine is no other ready client's of the hub. -/
def ProvisionsAlone (c : Config Shared Proc) (e : ℕ × Action) : Prop :=
  ∀ run ∈ (c.proc e.1).bind Proc.provisioning, ∀ row ∈ c.shared.clients.rows, row.id = run.1 →
    ∀ other ∈ c.shared.clients.rows, other.id ≠ run.1 → other.serverId = row.serverId →
      other.status = .ready → ¬IsOn c.shared run.2 other

instance (c : Config Shared Proc) (e : ℕ × Action) : Decidable (ProvisionsAlone c e) :=
  inferInstanceAs (Decidable (∀ run ∈ (c.proc e.1).bind Proc.provisioning, _))

/-- Both conditions, which concern commits only. -/
def CommitOk (c : Config Shared Proc) (e : ℕ × Action) : Prop :=
  e.2.isCommit = true → EnrollsCurrent c e ∧ ProvisionsAlone c e

instance (c : Config Shared Proc) (e : ℕ × Action) : Decidable (CommitOk c e) :=
  inferInstanceAs (Decidable (e.2.isCommit = true → EnrollsCurrent c e ∧ ProvisionsAlone c e))

/-! ## Tables with different keys -/

/-- No two ready clients of a hub have one key. -/
def KeysDistinct (t : Table Client) : Prop :=
  ∀ c₁ ∈ t.rows, ∀ c₂ ∈ t.rows, c₁.serverId = c₂.serverId → c₁.status = .ready →
    c₂.status = .ready → c₁.publicKey = c₂.publicKey → c₁ = c₂

/-- No other ready client of the hub of `row` has its key. -/
def KeyFree (t : Table Client) (row : Client) : Prop :=
  ∀ c ∈ t.rows, c.id ≠ row.id → c.serverId = row.serverId → c.status = .ready →
    c.publicKey ≠ row.publicKey

section

variable {t t' : Table Client} {row : Client}

theorem nodup_of_keysDistinct (h : KeysDistinct t) (serverId : ℕ) :
    ((readyClientsFor t serverId).map Client.publicKey).Nodup := by
  refine (List.Nodup.filter _ t.nodup.of_map).map_on fun c₁ h₁ c₂ h₂ hkey ↦ ?_
  rw [readyClientsFor, Table.select, List.mem_filter, Bool.and_eq_true, beq_iff_eq,
    beq_iff_eq] at h₁ h₂
  exact h c₁ h₁.1 c₂ h₂.1 (h₁.2.1.trans h₂.2.1.symm) h₁.2.2 h₂.2.2 hkey

theorem keysDistinct_of_subset (h : KeysDistinct t) (hrows : ∀ c ∈ t'.rows, c ∈ t.rows) :
    KeysDistinct t' := by
  intro c₁ h₁ c₂ h₂
  exact h c₁ (hrows c₁ h₁) c₂ (hrows c₂ h₂)

/-- One row is new or changed, and its key is free; all others are as they were. -/
theorem keysDistinct_of_keyFree (h : KeysDistinct t) (hfree : row.status = .ready → KeyFree t row)
    (hrows : ∀ c ∈ t'.rows, (c ∈ t.rows ∧ c.id ≠ row.id) ∨ c = row) : KeysDistinct t' := by
  intro c₁ h₁ c₂ h₂ hserver hready₁ hready₂ hkey
  rcases hrows c₁ h₁ with ⟨h₁, hid₁⟩ | rfl <;> rcases hrows c₂ h₂ with ⟨h₂, hid₂⟩ | rfl
  · exact h c₁ h₁ c₂ h₂ hserver hready₁ hready₂ hkey
  · exact absurd hkey (hfree hready₂ c₁ h₁ hid₁ hserver hready₁)
  · exact absurd hkey.symm (hfree hready₁ c₂ h₂ hid₂ hserver.symm hready₂)
  · rfl

theorem keysDistinct_insert (h : KeysDistinct t) (hid : t.get row.id = none)
    (hfree : row.status = .ready → KeyFree t row) : KeysDistinct (t.insert row) := by
  refine keysDistinct_of_keyFree h hfree fun c hc ↦ ?_
  rcases Table.mem_insert hc with hold | hnew
  · exact .inl ⟨hold, Table.get_eq_none_iff.mp hid c hold⟩
  · exact .inr hnew

theorem keysDistinct_modify {id : ℕ} {f : Client → Client} (hf : ∀ r, (f r).id = r.id)
    (h : KeysDistinct t)
    (hfree : ∀ r ∈ t.rows, r.id = id → (f r).status = .ready → KeyFree t (f r)) :
    KeysDistinct (t.modify id f hf) := by
  cases hget : t.get id with
  | none =>
    refine keysDistinct_of_subset h fun c hc ↦ ?_
    rcases Table.mem_modify hf hc with ⟨hold, -⟩ | ⟨r, hr, hid, -⟩
    · exact hold
    · exact absurd hid (Table.get_eq_none_iff.mp hget r hr)
  | some r =>
    have hr : r.id = id := Table.pk_of_get hget
    have hfr := hfree r (Table.mem_of_get hget) hr
    refine keysDistinct_of_keyFree h hfr fun c hc ↦ ?_
    rcases Table.mem_modify hf hc with ⟨hold, hne⟩ | ⟨r', hr', hid, rfl⟩
    · exact .inl ⟨hold, by rw [hf, hr]; exact hne⟩
    · rw [Table.eq_of_pk_eq hr' (Table.mem_of_get hget) (hid.trans hr.symm)]
      exact .inr rfl

theorem keysDistinct_delete (h : KeysDistinct t) (id : ℕ) : KeysDistinct (t.delete id) :=
  keysDistinct_of_subset h fun _ hc ↦ (List.mem_filter.mp hc).1

end

/-! ## The invariant -/

/-- What is true of the keys.  They are different for machines, and a client that was provisioned
has the key of its machine, while one that was registered with a generated key has that of none. -/
structure KeysOk (g : Shared) : Prop where
  distinct : KeysDistinct g.clients
  drawn : ∀ machine key, g.machines machine = some key → key ∈ g.keys
  machines : ∀ m₁ m₂ key, g.machines m₁ = some key → g.machines m₂ = some key → m₁ = m₂
  home : ∀ row ∈ g.clients.rows, ∀ machine ∈ g.homes row.id,
    g.machines machine = some row.publicKey
  manual : ∀ row ∈ g.clients.rows, row.isManual = true → g.homes row.id = none →
    row.publicKey ∈ g.keys ∧ ∀ machine, g.machines machine ≠ some row.publicKey

/-- What is true of a request: a redemption that is about to insert a client has found its key free,
and a client that is registered is not ready and not manual. -/
def RequestOk : Enroll.Proc → Prop
  | .redemption _ (.admitted w a) => a.client.isManual = false ∧
      ∀ c ∈ w.snap.clients.rows, c.publicKey ≠ a.client.publicKey
  | .request (.registerManualClient _ _) _ => True
  | .request _ (.inserting _ row) => row.status ≠ .ready ∧ row.isManual = false
  | _ => True

/-- What is true of a run of the task: the key that it has read is the key of the machine. -/
def PhaseOk (g : Shared) : Phase → Prop
  | .keyed _ machine publicKey => g.machines machine = some publicKey
  | _ => True

def ProcOk (g : Shared) : Proc → Prop
  | .request p => RequestOk p
  | .provision _ ph => PhaseOk g ph

/-- Machines keep their keys. -/
def KeysKept (g g' : Shared) : Prop :=
  ∀ machine key, g.machines machine = some key → g'.machines machine = some key

section

variable {i : ℕ} {g g' : Shared}

theorem KeysKept.refl (g : Shared) : KeysKept g g := fun _ _ hk ↦ hk

theorem ProcOk.of_kept {p : Proc} (h : ProcOk g p) (hkept : KeysKept g g') : ProcOk g' p := by
  cases p with
  | request p => exact h
  | provision clientId ph =>
    cases ph with
    | keyed status machine publicKey => exact hkept machine publicKey h
    | _ => trivial

theorem KeysOk.unlock (h : KeysOk g) (clientId : ℕ) : KeysOk (g.unlock clientId) :=
  ⟨h.distinct, h.drawn, h.machines, h.home, h.manual⟩

/-- A machine that is no other ready client's of the hub has a key that is free there. -/
theorem KeysOk.keyFree {machine : ℕ} {key : String} {row : Client} (h : KeysOk g)
    (hkey : g.machines machine = some key) (halone : ∀ other ∈ g.clients.rows, other.id ≠ row.id →
      other.serverId = row.serverId → other.status = .ready → ¬IsOn g machine other)
    (hrow : row.publicKey = key) : KeyFree g.clients row := by
  intro other hother hid hserver hready hsame
  rw [hrow] at hsame
  refine halone other hother hid hserver hready ?_
  cases hhome : g.homes other.id with
  | some home =>
    -- it has the key of its machine, and this is the key of one machine only
    have hown := h.home other hother home hhome
    rw [hsame] at hown
    exact .inl (hhome.trans (congrArg some (h.machines home machine key hown hkey)))
  | none =>
    cases hmanual : other.isManual with
    | false => exact .inr ⟨hhome, hmanual, hsame ▸ hkey⟩
    | true => exact absurd (hsame ▸ hkey) ((h.manual other hother hmanual hhome).2 machine)

/-- Rows that keep their keys. -/
theorem KeysOk.withClients {t : Table Client} (h : KeysOk g) (hdistinct : KeysDistinct t)
    (hrows : ∀ c ∈ t.rows, ∃ old ∈ g.clients.rows,
      old.id = c.id ∧ old.publicKey = c.publicKey ∧ old.isManual = c.isManual) :
    KeysOk (g.withClients t) where
  distinct := hdistinct
  drawn := h.drawn
  machines := h.machines
  home c hc machine hmachine := by
    obtain ⟨old, hold, hid, hkey, -⟩ := hrows c hc
    rw [← hkey]
    exact h.home old hold machine (hid ▸ hmachine)
  manual c hc hmanual hhome := by
    obtain ⟨old, hold, hid, hkey, hsame⟩ := hrows c hc
    rw [← hkey]
    exact h.manual old hold (hsame.trans hmanual) ((congrArg g.homes hid).trans hhome)

/-- The key of a machine is set to what it is, or to a new one when it has none. -/
theorem setKey_keeps {machine : ℕ} {key : String} (h : KeysOk g)
    (hkey : g.machines machine = some key ∨ g.machines machine = none ∧ key ∉ g.keys) :
    KeysOk (g.setKey machine key) ∧ KeysKept g (g.setKey machine key) := by
  have hself : (g.setKey machine key).machines machine = some key := Function.update_self ..
  have hother {m : ℕ} (hm : m ≠ machine) : (g.setKey machine key).machines m = g.machines m :=
    Function.update_of_ne hm ..
  have hkept : KeysKept g (g.setKey machine key) := by
    intro m k hk
    by_cases hm : m = machine
    · subst hm
      rcases hkey with hsome | ⟨hnone, -⟩
      · rw [hself, ← hsome, hk]
      · rw [hnone] at hk
        cases hk
    · rw [hother hm, hk]
  -- another machine with this key would have had it before, and so would this one
  have honly {m : ℕ} (hm : m ≠ machine) : g.machines m ≠ some key := by
    intro hk
    rcases hkey with hsome | ⟨-, hnew⟩
    · exact hm (h.machines m machine key hk hsome)
    · exact hnew (h.drawn m key hk)
  refine ⟨⟨h.distinct, fun m k hk ↦ ?_, fun m₁ m₂ k h₁ h₂ ↦ ?_, fun row hrow m hm ↦
    hkept m _ (h.home row hrow m hm), fun row hrow hmanual hhome ↦ ?_⟩, hkept⟩
  · by_cases hm : m = machine
    · rw [hm, hself, Option.some.injEq] at hk
      exact hk ▸ List.mem_cons_self
    · rw [hother hm] at hk
      exact List.mem_cons_of_mem key (h.drawn m k hk)
  · by_cases hm₁ : m₁ = machine <;> by_cases hm₂ : m₂ = machine
    · rw [hm₁, hm₂]
    · rw [hm₁, hself] at h₁
      rw [hother hm₂, ← h₁] at h₂
      exact absurd h₂ (honly hm₂)
    · rw [hm₂, hself] at h₂
      rw [hother hm₁, ← h₂] at h₁
      exact absurd h₁ (honly hm₁)
    · rw [hother hm₁] at h₁
      rw [hother hm₂] at h₂
      exact h.machines m₁ m₂ k h₁ h₂
  · obtain ⟨hmem, hnone⟩ := h.manual row hrow hmanual hhome
    refine ⟨List.mem_cons_of_mem key hmem, fun m hk ↦ ?_⟩
    by_cases hm : m = machine
    · rw [hm, hself, Option.some.injEq] at hk
      rcases hkey with hsome | ⟨-, hnew⟩
      · exact hnone machine (hk ▸ hsome)
      · exact hnew (hk ▸ hmem)
    · exact hnone m (by rwa [hother hm] at hk)

/-! ## Steps of the requests -/

theorem requestOk_read (q : Enroll.Request) (db : Db) : RequestOk (.request q (q.read db)) := by
  cases q with
  | registerClient ctx payload =>
    rw [Enroll.Request.read]
    split
    · trivial
    · exact ⟨(by decide : NodeStatus.pending ≠ .ready), rfl⟩
  | registerManualClient ctx payload => trivial
  | deleteClient ctx scope clientId =>
    rw [Enroll.Request.read]
    split <;> trivial
  | revokeEnrollmentToken ctx scope tokenId =>
    rw [Enroll.Request.read]
    split
    · trivial
    · split <;> trivial

/-- A request inserts a row whose key is free, and which has a generated key if it is manual. -/
theorem insert_free {q : Enroll.Request} {snap : Db} {row : Client} {t : Table Client}
    (hp : RequestOk (.request q (.inserting snap row)))
    (hfresh : ∀ new ∈ generating (.request q (.inserting snap row)),
      ∀ other ∈ t.rows, other.publicKey ≠ new.publicKey) :
    (row.status = .ready → KeyFree t row) ∧
      (row.isManual = true → generating (.request q (.inserting snap row)) = some row) := by
  cases q with
  | registerManualClient ctx payload => exact ⟨fun _ c hc _ _ _ ↦ hfresh row rfl c hc, fun _ ↦ rfl⟩
  | _ => exact ⟨fun hready ↦ absurd hready hp.1, fun hmanual ↦ by cases hp.2.symm.trans hmanual⟩

/-- What a step of a request does to the client table: a row stays, or it is new, with a generated
key if it is manual. -/
theorem request_keeps {e e' : Enroll.Shared} {p : Enroll.Proc} {p' : Option Enroll.Proc}
    {a : Enroll.Action} (hkeys : KeysDistinct e.db.clients) (hp : RequestOk p)
    (hfresh : ∀ key ∈ drawn p a, ∀ other ∈ e.db.clients.rows, other.publicKey ≠ key)
    (hcurrent : a = .commit → ∀ new ∈ (Proc.request p).enrolling, ∀ row ∈ e.db.clients.rows,
      row.serverId = new.2.serverId → row.status = .ready →
        ∃ seen ∈ new.1.clients.rows, seen.publicKey = row.publicKey)
    (h : Enroll.procStep i e (some p) a = some (e', p')) :
    KeysDistinct e'.db.clients ∧
      (∀ c ∈ e'.db.clients.rows, c ∈ e.db.clients.rows ∨
        e.db.clients.get c.id = none ∧ (c.isManual = true → drawn p a = some c.publicKey)) ∧
      ∀ q, p' = some q → RequestOk q := by
  have hstay : ∀ c ∈ e.db.clients.rows, c ∈ e.db.clients.rows ∨
      e.db.clients.get c.id = none ∧ (c.isManual = true → drawn p a = some c.publicKey) :=
    fun c hc ↦ .inl hc
  rcases Enroll.procStep_cases h with ⟨r, ph, ph', hph, rfl, hmove⟩ | ⟨q, st, st', hst, rfl, hmove⟩
  · cases hph
    cases hmove with
    | admitClient hadm =>
      obtain ⟨server, address, cert, hok, rfl⟩ := admitClient_eq_ok_iff.mp hadm
      refine ⟨hkeys, hstay, ?_⟩
      rintro q ⟨⟩
      exact ⟨rfl, fun c hc ↦ Collation.ne_of_not_same (hok.key_free c hc)⟩
    | @commit w adm db hcommit =>
      obtain ⟨hid, -, -, rfl⟩ := Enroll.withEnrolled_of_commit hcommit
      refine ⟨keysDistinct_insert hkeys hid fun _ c hc _ hserver hready hkey ↦ ?_, ?_, ?_⟩
      · obtain ⟨seen, hseen, hsame⟩ := hcurrent rfl _ rfl c hc hserver hready
        exact hp.2 seen hseen (hsame.trans hkey)
      · intro c hc
        rcases Table.mem_insert hc with hold | rfl
        · exact .inl hold
        · exact .inr ⟨hid, fun hmanual ↦ by cases hp.1.symm.trans hmanual⟩
      · rintro q ⟨⟩
        trivial
    | _ => exact ⟨hkeys, hstay, by rintro q ⟨⟩; trivial⟩
  · cases hst
    have hdone : ∀ q', some (Enroll.Proc.request q .done) = some q' → RequestOk q' := by
      rintro q' ⟨⟩
      cases q <;> trivial
    cases hmove with
    | read => exact ⟨hkeys, hstay, by rintro q' ⟨⟩; exact requestOk_read q e.db⟩
    | @insert snap row clients hflush =>
      obtain ⟨hid, -, rfl⟩ := flushClient_eq_some_iff.mp hflush
      obtain ⟨hfree, hmanual⟩ := insert_free hp fun new hnew ↦
        hfresh new.publicKey (Option.mem_map_of_mem Client.publicKey hnew)
      refine ⟨keysDistinct_insert hkeys hid hfree, fun c hc ↦ ?_, hdone⟩
      rcases Table.mem_insert hc with hold | rfl
      · exact .inl hold
      · exact .inr ⟨hid, fun h ↦ congrArg (Option.map Client.publicKey) (hmanual h)⟩
    | delete hflush =>
      exact ⟨keysDistinct_delete hkeys _, fun c hc ↦ .inl (List.mem_filter.mp hc).1, hdone⟩
    | mark free => exact ⟨hkeys, hstay, by rintro q' ⟨⟩; cases q <;> trivial⟩
    | revoke hflush => exact ⟨hkeys, hstay, hdone⟩
    | unmark => exact ⟨hkeys, hstay, hdone⟩
    | rolledBack => exact ⟨hkeys, hstay, hdone⟩

theorem homes_withRequest_old {row : Client} (hrow : row ∈ g.clients.rows) (e' : Enroll.Shared)
    (key : Option String) : (g.withRequest e' key).homes row.id = g.homes row.id := by
  have hget : g.clients.get row.id = some row := Table.mem_rows_iff.mp hrow
  refine if_neg ?_
  rw [hget]
  exact Option.some_ne_none row

theorem homes_withRequest_new {id : ℕ} (hnew : g.clients.get id = none) (e' : Enroll.Shared)
    (key : Option String) : (g.withRequest e' key).homes id = none := if_pos hnew

/-- A step of a request, with the history. -/
theorem KeysOk.withRequest {e' : Enroll.Shared} {key : Option String} (h : KeysOk g)
    (hfresh : ∀ k ∈ key, k ∉ g.keys) (hdistinct : KeysDistinct e'.db.clients)
    (hrows : ∀ c ∈ e'.db.clients.rows, c ∈ g.clients.rows ∨
      g.clients.get c.id = none ∧ (c.isManual = true → key = some c.publicKey)) :
    KeysOk (g.withRequest e' key) where
  distinct := hdistinct
  drawn machine k hk := List.mem_append_right _ (h.drawn machine k hk)
  machines := h.machines
  home c hc machine hmachine := by
    rcases hrows c hc with hold | ⟨hnew, -⟩
    · rw [homes_withRequest_old hold] at hmachine
      exact h.home c hold machine hmachine
    · rw [homes_withRequest_new hnew] at hmachine
      cases hmachine
  manual c hc hmanual hhome := by
    rcases hrows c hc with hold | ⟨-, hdrawn⟩
    · rw [homes_withRequest_old hold] at hhome
      obtain ⟨hmem, hnone⟩ := h.manual c hold hmanual hhome
      exact ⟨List.mem_append_right _ hmem, hnone⟩
    · have hkey := hdrawn hmanual
      refine ⟨List.mem_append_left _ (by rw [hkey]; exact List.mem_singleton_self _), fun m hm ↦ ?_⟩
      exact hfresh c.publicKey hkey (h.drawn m c.publicKey hm)

/-! ## Steps of the task -/

theorem pk_provisioned (status : NodeStatus) (publicKey : String) (cert : HostCertColumns)
    (row : Client) : (provisioned status publicKey cert row).id = row.id := rfl

theorem pk_markedError (status : NodeStatus) (row : Client) :
    (markedError status row).id = row.id := rfl

theorem flushStatus_error {loaded current : NodeStatus}
    (h : flushStatus loaded .error current = .ready) :
    current = .ready := by
  rw [flushStatus] at h
  split at h
  · exact h
  · cases h

theorem keyFree_of_mem {t : Table Client} {row : Client} (h : KeysDistinct t) (hrow : row ∈ t.rows)
    (hready : row.status = .ready) : KeyFree t row := by
  intro c hc hid hserver hc' hkey
  exact hid (congrArg Client.id (h c hc row hrow hserver hc' hready hkey))

/-- A row that is changed under its id, with its key, is a row as before. -/
theorem exists_row_of_modify {t : Table Client} {id : ℕ} {f : Client → Client}
    (hf : ∀ r, (f r).id = r.id) (hkey : ∀ r, (f r).publicKey = r.publicKey)
    (hmanual : ∀ r, (f r).isManual = r.isManual) {c : Client} (hc : c ∈ (t.modify id f hf).rows) :
    ∃ old ∈ t.rows, old.id = c.id ∧ old.publicKey = c.publicKey ∧ old.isManual = c.isManual := by
  rcases Table.mem_modify hf hc with ⟨hold, -⟩ | ⟨r, hr, -, rfl⟩
  · exact ⟨c, hold, rfl, rfl, rfl⟩
  · exact ⟨r, hr, (hf r).symm, (hkey r).symm, (hmanual r).symm⟩

/-- The commit of a provision. -/
theorem KeysOk.provision {clientId machine : ℕ} {publicKey : String} {status : NodeStatus}
    {cert : HostCertColumns} (h : KeysOk g) (hkey : g.machines machine = some publicKey)
    (halone : ∀ row ∈ g.clients.rows, row.id = clientId → ∀ other ∈ g.clients.rows,
      other.id ≠ clientId → other.serverId = row.serverId → other.status = .ready →
        ¬IsOn g machine other) :
    KeysOk ((g.withClients (g.clients.modify clientId
      (provisioned status publicKey cert))).settle clientId machine) := by
  have hhomes {id : ℕ} (hid : id ≠ clientId) :
      Function.update g.homes clientId (some machine) id = g.homes id :=
    Function.update_of_ne hid ..
  -- the row that is provisioned, and the others
  have hrows {c : Client} (hc : c ∈ ((g.withClients (g.clients.modify clientId
      (provisioned status publicKey cert))).settle clientId machine).clients.rows) :
      (c ∈ g.clients.rows ∧ c.id ≠ clientId) ∨
        ∃ r ∈ g.clients.rows, r.id = clientId ∧ c = provisioned status publicKey cert r :=
    Table.mem_modify (f := provisioned status publicKey cert)
      (pk_provisioned status publicKey cert) hc
  refine ⟨?_, h.drawn, h.machines, fun c hc m hm ↦ ?_, fun c hc hmanual hhome ↦ ?_⟩
  · refine keysDistinct_modify (pk_provisioned status publicKey cert) h.distinct ?_
    intro r hr hid _
    refine h.keyFree hkey (fun other hother hne ↦ ?_) rfl
    rw [pk_provisioned, hid] at hne
    exact halone r hr hid other hother hne
  · rcases hrows hc with ⟨hold, hne⟩ | ⟨r, hr, hid, rfl⟩
    · exact h.home c hold m ((hhomes hne).symm.trans hm)
    · have hsame : Function.update g.homes clientId (some machine) r.id = some m := hm
      rw [hid, Function.update_self, Option.some.injEq] at hsame
      exact hsame ▸ hkey
  · rcases hrows hc with ⟨hold, hne⟩ | ⟨r, hr, hid, rfl⟩
    · exact h.manual c hold hmanual ((hhomes hne).symm.trans hhome)
    · have hsame : Function.update g.homes clientId (some machine) r.id = none := hhome
      rw [hid, Function.update_self] at hsame
      cases hsame

theorem provision_keeps {clientId : ℕ} {ph : Phase} {ph' : Option Phase} {a : Action}
    (hkeys : KeysOk g) (hph : PhaseOk g ph)
    (hfresh : ∀ status machine fresh, ph = .connected status machine → a = .ensureKeypair fresh →
      g.machines machine = none → fresh ∉ g.keys)
    (halone : a.isCommit = true → ∀ run ∈ (Proc.provision clientId ph).provisioning,
      ∀ row ∈ g.clients.rows, row.id = run.1 → ∀ other ∈ g.clients.rows, other.id ≠ run.1 →
        other.serverId = row.serverId → other.status = .ready → ¬IsOn g run.2 other)
    (h : provisionStep i g clientId ph a = some (g', ph')) :
    KeysOk g' ∧ KeysKept g g' ∧ ∀ q, ph' = some q → PhaseOk g' q := by
  unfold provisionStep at h
  split at h
  · split at h
    · cases h
    · cases h
      exact ⟨⟨hkeys.distinct, hkeys.drawn, hkeys.machines, hkeys.home, hkeys.manual⟩, .refl g,
        by rintro q ⟨⟩; trivial⟩
  · cases h
    exact ⟨hkeys, .refl g, nofun⟩
  · cases h
    exact ⟨hkeys, .refl g, nofun⟩
  · split at h
    · cases h
      exact ⟨hkeys.unlock clientId, .refl g, nofun⟩
    · split at h
      · cases h
        exact ⟨hkeys, .refl g, by rintro q ⟨⟩; trivial⟩
      · cases h
        exact ⟨hkeys, .refl g, by rintro q ⟨⟩; trivial⟩
  · cases h
    exact ⟨hkeys, .refl g, by rintro q ⟨⟩; trivial⟩
  · -- `_ensure_keypair`
    next status machine fresh =>
    have hkey : g.machines machine = some (ensureKeypair (g.machines machine) fresh) ∨
        g.machines machine = none ∧ ensureKeypair (g.machines machine) fresh ∉ g.keys := by
      cases hpresent : g.machines machine with
      | none => exact .inr ⟨rfl, hfresh status machine fresh rfl rfl hpresent⟩
      | some key => exact .inl rfl
    obtain ⟨hok, hkept⟩ := setKey_keeps hkeys hkey
    cases h
    refine ⟨hok, hkept, ?_⟩
    rintro q ⟨⟩
    exact Function.update_self ..
  · cases h
    exact ⟨hkeys, .refl g, by rintro q ⟨⟩; trivial⟩
  · cases h
    exact ⟨hkeys, .refl g, by rintro q ⟨⟩; trivial⟩
  · cases h
    exact ⟨hkeys, .refl g, by rintro q ⟨⟩; trivial⟩
  · -- the commit
    next status machine publicKey cert =>
    split at h
    · cases h
      exact ⟨hkeys.unlock clientId, .refl g, nofun⟩
    · cases h
      exact ⟨hkeys.provision hph (halone rfl _ rfl), .refl g, by rintro q ⟨⟩; trivial⟩
  · -- `_mark_error`
    next status =>
    cases h
    refine ⟨(hkeys.withClients ?_ fun c hc ↦ exists_row_of_modify (pk_markedError status)
      (fun _ ↦ rfl) (fun _ ↦ rfl) hc).unlock clientId, .refl g, nofun⟩
    refine keysDistinct_modify (pk_markedError status) hkeys.distinct fun r hr _ hready ↦ ?_
    have hfree : KeyFree g.clients r :=
      keyFree_of_mem hkeys.distinct hr (flushStatus_error hready)
    exact hfree
  · cases h
    exact ⟨hkeys.unlock clientId, .refl g, nofun⟩
  · cases h
    exact ⟨hkeys.unlock clientId, .refl g, nofun⟩
  · cases h

theorem KeysOk.reprovision (h : KeysOk g) (ctx : Context) (clientId : ℕ) :
    KeysOk { g with
      enroll := g.enroll.commit (reprovisionClient ctx g.enroll.db clientId).db } := by
  rw [reprovisionClient]
  cases hchecks : reprovisionClientChecks g.enroll.db clientId with
  | error e => exact ⟨h.distinct, h.drawn, h.machines, h.home, h.manual⟩
  | ok row =>
    refine h.withClients ?_ fun c hc ↦ exists_row_of_modify
      (f := fun r ↦ { r with status := .pending }) (fun _ ↦ rfl) (fun _ ↦ rfl) (fun _ ↦ rfl) hc
    refine keysDistinct_modify (f := fun r ↦ { r with status := .pending }) (fun _ ↦ rfl)
      h.distinct ?_
    intro r _ _ hready
    cases hready

/-! ## Runs -/

theorem inv_step {c c' : Config Shared Proc} {e : ℕ × Action}
    (hc : Config.Inv KeysOk (fun _ ↦ ProcOk) c) (hfresh : KeysFresh c e) (hok : CommitOk c e)
    (h : step c e = some c') : Config.Inv KeysOk (fun _ ↦ ProcOk) c' := by
  refine Config.inv_step hc h fun g' p' hmove ↦ ?_
  obtain ⟨i, a⟩ := e
  -- it is enough that machines keep their keys while others are in the middle of their runs
  suffices hmain : KeysOk g' ∧ KeysKept c.shared g' ∧ ∀ q, p' = some q → ProcOk g' q from
    ⟨hmain.1, hmain.2.2, fun j q _ hq ↦ hq.of_kept hmain.2.1⟩
  dsimp only at hmove
  unfold procStep at hmove
  split at hmove
  · cases hmove
    exact ⟨hc.shared, .refl _, by rintro q ⟨⟩; trivial⟩
  · cases hmove
    exact ⟨hc.shared.reprovision _ _, .refl _, by rintro q ⟨⟩⟩
  · next machine key hproc =>
    split at hmove
    · cases hmove
    · next hnone =>
      have hnew : generated c (i, .generateKey machine key) = some key := by
        rw [generated, hproc]
      obtain ⟨hkeys, hkept⟩ := setKey_keeps hc.shared (.inr ⟨hnone, (hfresh key hnew).1⟩)
      cases hmove
      exact ⟨hkeys, hkept, by rintro q ⟨⟩⟩
  · next p a hproc =>
    obtain ⟨⟨e', q'⟩, hreq, hpair⟩ := Option.map_eq_some_iff.mp hmove
    cases hpair
    have hdrawn : generated c (i, .request a) = drawn p a := by rw [generated, hproc]
    rw [KeysFresh, hdrawn] at hfresh
    obtain ⟨hdistinct, hrows, hown⟩ := request_keeps hc.shared.distinct (hc.proc i _ hproc)
      (fun key hkey ↦ (hfresh key hkey).2)
      (fun ha new hnew ↦ (hok (by rw [ha]; rfl)).1 new (by rw [hproc]; exact hnew)) hreq
    refine ⟨hc.shared.withRequest (fun key hkey ↦ (hfresh key hkey).1) hdistinct hrows, .refl _,
      fun q hq ↦ ?_⟩
    obtain ⟨p₁, hp₁, rfl⟩ := Option.map_eq_some_iff.mp hq
    exact hown p₁ hp₁
  · next clientId ph a hproc =>
    obtain ⟨⟨g₁, ph₁⟩, hrun, hpair⟩ := Option.map_eq_some_iff.mp hmove
    cases hpair
    obtain ⟨hkeys, hkept, hown⟩ := provision_keeps hc.shared (hc.proc i _ hproc)
      (fun status machine fresh hph ha hnone ↦ by
        refine (hfresh fresh ?_).1
        rw [generated, hproc, hph, ha]
        exact if_pos hnone)
      (fun ha run hrun' ↦ (hok ha).2 run (by rw [hproc]; exact hrun')) hrun
    refine ⟨hkeys, hkept, fun q hq ↦ ?_⟩
    obtain ⟨ph₂, hph₂, rfl⟩ := Option.map_eq_some_iff.mp hq
    exact hown ph₂ hph₂
  · cases hmove

theorem inv_initial {c : Config Shared Proc} (hinit : Initial c) (hkeys : KeysOk c.shared) :
    Config.Inv KeysOk (fun _ ↦ ProcOk) c := by
  refine ⟨hkeys, fun i p hp ↦ ?_⟩
  rcases hinit i p hp with ⟨q, rfl, hq⟩ | ⟨id, rfl⟩
  · rcases q with ⟨r, ph⟩ | ⟨q, st⟩
    · cases ph with
      | begun => trivial
      | _ => exact hq.elim
    · cases st with
      | begun => cases q <;> trivial
      | _ => exact hq.elim
  · trivial

/-- **The ready peers of a hub have different keys**, along every run of registrations, redemptions,
deletions and runs of `provision_client_task` in which a provision commits only if its machine is no
other ready client's of the hub, and a redemption only if its snapshot shows the keys of all ready
clients of the hub; given that generated keys do not collide.  So the list that
`_render_server_config` is given has one entry for each key. -/
theorem ready_peers_have_distinct_keys {c₀ c : Config Shared Proc} {es : List (ℕ × Action)}
    (hinit : Initial c₀) (hkeys : KeysOk c₀.shared) (hfresh : Run.Meets step KeysFresh c₀ es)
    (hok : Run.Meets step CommitOk c₀ es) (h : Run.run step c₀ es = some c) (serverId : ℕ) :
    ((readyClientsFor c.shared.clients serverId).map Client.publicKey).Nodup := by
  have hinv := Run.run_invariant (fun _ _ _ hc hok h ↦ inv_step hc hok.1 hok.2 h)
    (inv_initial hinit hkeys) (hfresh.and hok) h
  exact nodup_of_keysDistinct hinv.shared.distinct serverId

end

/-! ## Clients on machines of their own, and two clients on one -/

theorem prefixlen_widerSubnet : 29 ≤ 32 := by decide

theorem aligned_widerSubnet : (168361984 : IPv4Address) % 2 ^ (32 - 29) = 0 := by decide

/-- `10.9.0.0/29`. -/
def widerSubnet : IPv4Network where
  networkAddress := 168361984
  prefixlen := 29
  prefixlen_le := prefixlen_widerSubnet
  lt_two_pow := exampleSubnet.lt_two_pow
  aligned := aligned_widerSubnet

/-- A hub with some room, an SSH key and the token `join-me`. -/
def roomyDb : Db where
  sshKeys := .singleton ⟨1, none, "deploy", .ca, 0⟩
  servers := .singleton { exampleHub with
    subnet := widerSubnet, address := ⟨168361985, 29⟩, status := .ready }
  enrollmentTokens := .singleton joinToken

def boxPayload (name : String) : ClientCreate where
  name := name
  hostname := "box.example"
  sshUsername := "root"
  sshKeyId := 1
  serverId := 1

/-- Two registrations, a manual one, and a redemption. -/
def peersStart : Config Shared Proc where
  shared := { enroll := { db := roomyDb } }
  proc
    | 0 => some (.request (.request (.registerClient exampleContext (boxPayload "a")) .begun))
    | 1 => some (.request (.request
        (.registerClient { exampleContext with newId := 3 } (boxPayload "b")) .begun))
    | 2 => some (.request (.request
        (.registerManualClient { exampleContext with newId := 4 } ⟨"phone", 1⟩) .begun))
    | 3 => some (.request (.redemption ⟨joinCall, { joinEnv [] with newId := 5 }⟩ .begun))
    | _ => none

theorem keysOk_peersStart : KeysOk peersStart.shared :=
  ⟨by rintro c₁ ⟨⟩, nofun, nofun, by rintro c₁ ⟨⟩, by rintro c₁ ⟨⟩⟩

theorem initial_peersStart : Initial peersStart := by
  intro i p hp
  rcases i with _ | _ | _ | _ | i <;> cases hp <;> exact .inl ⟨_, rfl, trivial⟩

def requested (i : ℕ) : List (ℕ × Action) := [(i, .request .read), (i, .request .commit)]

def redeemed (i : ℕ) : List (ℕ × Action) :=
  [(i, .request .read), (i, .request .lock), (i, .request .consume), (i, .request .admitClient),
   (i, .request .commit), (i, .request .release)]

/-- Process `i` provisions a client on a machine, where `wg genkey` would come up with `fresh`. -/
def provisionedOn (i clientId machine : ℕ) (fresh : String) : List (ℕ × Action) :=
  [(i, .deliver clientId), (i, .lock), (i, .load), (i, .connect machine), (i, .ensureKeypair fresh),
   (i, .commit {}), (i, .release)]

def firstKey : String := "ISIjJCUmJygpKissLS4vMDEyMzQ1Njc4OTo7PD0+P0A="

def secondKey : String := "QUJDREVGR0hJSktMTU5PUFFSU1RVVldYWVpbXF1eX2A="

/-- Each client is on a machine of its own. -/
def ownHostsTrace : List (ℕ × Action) :=
  requested 0 ++ requested 1 ++ requested 2 ++ redeemed 3 ++ provisionedOn 4 2 0 firstKey ++
    provisionedOn 5 3 1 secondKey

/-- Both clients are on the machine `box.example`. -/
def sharedHostTrace : List (ℕ × Action) :=
  requested 0 ++ requested 1 ++ provisionedOn 4 2 0 firstKey ++ provisionedOn 5 3 0 secondKey

theorem ready_peers_have_distinct_keys_ownHostsTrace :
    ∃ c, Run.run step peersStart ownHostsTrace = some c ∧
      (readyClientsFor c.shared.clients 1).length = 4 ∧
      ((readyClientsFor c.shared.clients 1).map Client.publicKey).Nodup := by
  have hrun : (Run.run step peersStart ownHostsTrace).any
      (fun c ↦ (readyClientsFor c.shared.clients 1).length = 4) = true := by decide +kernel
  obtain ⟨c, hc, hlength⟩ := (Option.any_eq_true _ _).mp hrun
  exact ⟨c, hc, of_decide_eq_true hlength, ready_peers_have_distinct_keys initial_peersStart
    keysOk_peersStart (by decide +kernel) (by decide +kernel) hc 1⟩

/-- **Two clients on one machine have one key**: the second provision finds the key of the first. -/
theorem ready_peers_share_key_sharedHostTrace :
    Initial peersStart ∧ KeysOk peersStart.shared ∧
    Run.Meets step KeysFresh peersStart sharedHostTrace ∧
    ∃ c, Run.run step peersStart sharedHostTrace = some c ∧
      (readyClientsFor c.shared.clients 1).map Client.publicKey = [firstKey, firstKey] := by
  have hrun : (Run.run step peersStart sharedHostTrace).any (fun c ↦
      (readyClientsFor c.shared.clients 1).map Client.publicKey = [firstKey, firstKey]) = true := by
    decide +kernel
  obtain ⟨c, hc, hclash⟩ := (Option.any_eq_true _ _).mp hrun
  exact ⟨initial_peersStart, keysOk_peersStart, by decide +kernel, c, hc,
    of_decide_eq_true hclash⟩

end WgManager.PeerKeys
