import Mathlib.Data.List.Find
import WgManager.Tasks.Discovery

/-!
# A discovery from end to end

`Tasks.Discovery` has the statements of `discover_peers_task` and lets two runs overlap.  Here one
run is alone, and is followed from the table it finds to the one it leaves: the loop that updates or
inserts a row for each line, which has to see its own inserts when a key is repeated, the deletion
of the rows whose keys were not seen, and what the task returns.

A line can stop it.  `datetime.fromtimestamp` knows no year after 9999, and the columns of the table
have a length and a range (`DiscoverEnv.takes`); either exception ends the task, and the session is
rolled back.  And a line can be taken for another one: the database looks rows up by its own
comparison of texts (`DiscoverEnv.coll`), so that two keys which it takes for the same share a row.
`Through` says what the loop does by that comparison.

**`discovery_leaves_observed_iff`**: a run leaves exactly what it has observed when no line does
either, and only then.
-/

set_option autoImplicit false

namespace WgManager.Discovery

/-! ## The task -/

/-- The last second of the year 9999, which is as far as `datetime.fromtimestamp` goes. -/
def maxEpoch : ℕ := 253402300799

/-- What the loop has done so far. -/
structure Progress where
  rows : Table DiscoveredPeer
  /-- The next auto-increment key. -/
  nextId : ℕ
  newCount : ℕ := 0
  updatedCount : ℕ := 0

/-- One turn of the loop, when nothing is raised. -/
def Task.upsert (task : Task) (coll : Collation) (serverId : ℕ) (s : Progress) (peer : Peer) :
    Progress :=
  match findPeer coll serverId s.rows peer.publicKey with
  | none =>
    { s with
      rows := task.apply s.rows (.insert (task.newRow serverId s.nextId peer))
      nextId := s.nextId + 1
      newCount := s.newCount + 1 }
  | some row =>
    { s with
      rows := task.apply s.rows (.update row.id peer)
      updatedCount := s.updatedCount + 1 }

/-- The loop; `none` when a line raises. -/
def Task.recordAll (task : Task) (coll : Collation) (takes : Peer → Bool) (serverId : ℕ) :
    Progress → List Peer → Option Progress
  | s, [] => some s
  | s, peer :: peers =>
    if peer.lastHandshakeEpoch ≤ maxEpoch ∧ takes peer = true then
      task.recordAll coll takes serverId (task.upsert coll serverId s peer) peers
    else none

/-- `stale_rows`. -/
def staleRows (coll : Collation) (serverId : ℕ) (observedKeys : List String)
    (rows : Table DiscoveredPeer) : List DiscoveredPeer :=
  let staleQuery := rows.select fun row ↦ row.serverId == serverId
  if observedKeys ≠ [] then
    staleQuery.filter fun row ↦ !observedKeys.any fun key ↦ coll.same row.publicKey key
  else staleQuery

/-- Delete the rows one by one. -/
def deleteAll (rows : Table DiscoveredPeer) (stale : List DiscoveredPeer) : Table DiscoveredPeer :=
  stale.foldl (fun rows row ↦ rows.delete row.id) rows

/-- Why `discover_peers` has no answer. -/
inductive DiscoverFault
  /-- One of `_SSH_EXPECTED_ERRORS`. -/
  | ssh
  | other

/-- What a run meets. -/
structure DiscoverEnv where
  now : Datetime
  /-- The answer of `discover_peers`. -/
  discover : Except DiscoverFault (List Peer)
  /-- The database takes the values of the peer, which have to fit their columns. -/
  takes : Peer → Bool := fun _ ↦ true
  /-- How the database compares keys. -/
  coll : Collation := .binary

/-- How a run ends. -/
inductive DiscoverResult
  | ok (peerCount newCount updatedCount prunedCount : ℕ)
  | sshFailed
  | raised
  deriving DecidableEq

/-- `managed_keys`. -/
def managedKeys (db : Db) (serverId : ℕ) : List String :=
  ((db.clients.select fun client ↦ client.serverId == serverId).map Client.publicKey).filter
    (· ≠ "")

/-- `discover_peers_task`.  An exception rolls the session back. -/
def discoverPeersTask (env : DiscoverEnv) (db : Db) (nextId serverId : ℕ) : Db × DiscoverResult :=
  match db.servers.get serverId with
  | none => (db, .raised)
  | some server =>
    match db.sshKeys.get server.sshKeyId with
    | none => (db, .raised)
    | some _ =>
      match env.discover with
      | .error .ssh => (db, .sshFailed)
      | .error .other => (db, .raised)
      | .ok peers =>
        let task : Task := ⟨peers, managedKeys db serverId, env.now⟩
        let start : Progress := { rows := db.discoveredPeers, nextId }
        match task.recordAll env.coll env.takes serverId start peers with
        | none => (db, .raised)
        | some s =>
          let stale := staleRows env.coll serverId (peers.map Peer.publicKey) s.rows
          ({ db with discoveredPeers := deleteAll s.rows stale },
            .ok peers.length s.newCount s.updatedCount stale.length)

/-! ## What a run should leave -/

/-- The last line for a key. -/
def lastFor (peers : List Peer) (publicKey : String) : Option Peer :=
  peers.reverse.find? (·.publicKey == publicKey)

/-- The columns of the row that are refreshed are those of the peer. -/
structure ShowsValues (row : DiscoveredPeer) (peer : Peer) : Prop where
  allowedIps : row.allowedIps = peer.allowedIps
  endpoint : row.endpoint = peer.endpoint
  lastHandshakeAt : row.lastHandshakeAt = peer.handshakeAt
  rxBytes : row.rxBytes = peer.rxBytes
  txBytes : row.txBytes = peer.txBytes
  persistentKeepalive : row.persistentKeepalive = peer.persistentKeepalive

/-- The row has the values of the peer. -/
structure Shows (row : DiscoveredPeer) (peer : Peer) : Prop extends ShowsValues row peer where
  publicKey : row.publicKey = peer.publicKey

/-- The client has the key; before it is provisioned its column is empty. -/
def HasKey (client : Client) (publicKey : String) : Prop :=
  client.publicKey = publicKey ∧ publicKey ≠ ""

/-- **What was observed, and nothing else.** -/
structure LeavesObserved (db db' : Db) (serverId : ℕ) (peers : List Peer)
    (result : DiscoverResult) : Prop where
  /-- Only the rows of discovered peers change. -/
  frame : db' = { db with discoveredPeers := db'.discoveredPeers }
  exists_row : ∀ peer ∈ peers, ∃ row ∈ db'.discoveredPeers.rows,
    row.serverId = serverId ∧ row.publicKey = peer.publicKey
  unique : ∀ row ∈ db'.discoveredPeers.rows, ∀ row' ∈ db'.discoveredPeers.rows,
    row.serverId = serverId → row'.serverId = serverId → row.publicKey = row'.publicKey → row = row'
  /-- In particular the key of each row has been observed. -/
  values : ∀ row ∈ db'.discoveredPeers.rows, row.serverId = serverId →
    ∃ peer, lastFor peers row.publicKey = some peer ∧ Shows row peer ∧
      (row.isManaged = true ↔ ∃ client ∈ db.clients.rows, client.serverId = serverId ∧
        HasKey client row.publicKey)
  kept : ∀ old ∈ db.discoveredPeers.rows, old.serverId = serverId →
    (∃ peer ∈ peers, peer.publicKey = old.publicKey) →
      ∃ row ∈ db'.discoveredPeers.rows, SameKey row old ∧ row.firstSeenAt = old.firstSeenAt
  others : ∀ row, row.serverId ≠ serverId →
    (row ∈ db'.discoveredPeers.rows ↔ row ∈ db.discoveredPeers.rows)
  counts : ∃ newCount updatedCount prunedCount,
    result = .ok peers.length newCount updatedCount prunedCount ∧
      newCount + updatedCount = peers.length ∧
      prunedCount = (db.discoveredPeers.rows.filter fun row ↦
        (db'.discoveredPeers.get row.id).isNone).length

/-! ## The loop -/

/-- A line is about the row, as the database sees it. -/
def concerns (coll : Collation) (serverId : ℕ) (peers : List Peer) (row : DiscoveredPeer) : Bool :=
  row.serverId == serverId && peers.any fun peer ↦ coll.same row.publicKey peer.publicKey

/-- The last line that the database takes to be about the key. -/
def lastSame (coll : Collation) (peers : List Peer) (publicKey : String) : Option Peer :=
  peers.reverse.find? fun peer ↦ coll.same publicKey peer.publicKey

/-- The row has the values of the peer, and says whether it is a client. -/
structure Task.Records (task : Task) (peer : Peer) (row : DiscoveredPeer) : Prop
    extends ShowsValues row peer where
  isManaged : row.isManaged = task.managedKeys.contains peer.publicKey

/-- What holds in the loop when it is through with `peers`. -/
structure Through (task : Task) (coll : Collation) (serverId : ℕ) (before : Table DiscoveredPeer)
    (peers : List Peer) (s : Progress) : Prop where
  unique : UniqueKeys coll s.rows
  lt_nextId : ∀ r ∈ s.rows.rows, r.id < s.nextId
  /-- A key is observed, or from before. -/
  origin : ∀ r ∈ s.rows.rows, r.serverId = serverId →
    r.publicKey ∈ peers.map (·.publicKey) ++ keysOf serverId before
  untouched : s.rows.rows.filter (fun r ↦ !concerns coll serverId peers r) =
    before.rows.filter fun r ↦ !concerns coll serverId peers r
  exists_row : ∀ peer ∈ peers, ∃ r ∈ s.rows.rows,
    r.serverId = serverId ∧ coll.same r.publicKey peer.publicKey = true
  shows : ∀ r ∈ s.rows.rows, r.serverId = serverId → ∀ peer,
    lastSame coll peers r.publicKey = some peer → task.Records peer r
  kept : ∀ old ∈ before.rows, ∃ r ∈ s.rows.rows, SameKey r old ∧ r.firstSeenAt = old.firstSeenAt
  counts : s.newCount + s.updatedCount = peers.length

section

variable {task : Task} {coll : Collation} {takes : Peer → Bool} {serverId : ℕ}
  {before : Table DiscoveredPeer} {peers : List Peer} {peer : Peer} {s s' : Progress}
  {r row : DiscoveredPeer} {key : String}

theorem lastSame_append (peers : List Peer) (peer : Peer) (key : String) :
    lastSame coll (peers ++ [peer]) key =
      if coll.same key peer.publicKey = true then some peer else lastSame coll peers key := by
  rw [lastSame, List.reverse_append, List.reverse_singleton, List.singleton_append, List.find?_cons]
  cases coll.same key peer.publicKey <;> rfl

theorem lastFor_eq_some (h : lastFor peers key = some peer) :
    peer ∈ peers ∧ peer.publicKey = key :=
  ⟨List.mem_reverse.mp (List.mem_of_find?_eq_some h), by simpa using List.find?_some h⟩

theorem exists_lastFor (h : peer ∈ peers) : ∃ last, lastFor peers peer.publicKey = some last := by
  refine Option.isSome_iff_exists.mp (List.find?_isSome.mpr ?_)
  exact ⟨peer, List.mem_reverse.mpr h, by simp⟩

/-- When the database takes no line for one about the key, the last of them is the last one. -/
theorem lastSame_eq_lastFor
    (h : ∀ peer ∈ peers, coll.same key peer.publicKey = true → key = peer.publicKey) :
    lastSame coll peers key = lastFor peers key := by
  rw [lastSame, lastFor]
  refine List.find?_congr fun peer hpeer ↦ ?_
  rw [List.mem_reverse] at hpeer
  rw [Bool.eq_iff_iff, beq_iff_eq]
  exact ⟨fun hsame ↦ (h peer hpeer hsame).symm, fun hkey ↦ hkey ▸ coll.refl _⟩

theorem concerns_append (r : DiscoveredPeer) : (!concerns coll serverId (peers ++ [peer]) r) =
    (!concerns coll serverId peers r && !concerns coll serverId [peer] r) := by
  simp only [concerns, List.any_append]
  cases r.serverId == serverId <;> simp

theorem concerns_singleton : concerns coll serverId [peer] r = true ↔
    r.serverId = serverId ∧ coll.same r.publicKey peer.publicKey = true := by
  simp [concerns]

/-- A turn of the loop changes only the row of its peer. -/
theorem filter_upsert (hs : ∀ r ∈ s.rows.rows, r.id < s.nextId) :
    (task.upsert coll serverId s peer).rows.rows.filter
        (fun r ↦ !concerns coll serverId [peer] r) =
      s.rows.rows.filter fun r ↦ !concerns coll serverId [peer] r := by
  rw [Task.upsert]
  split
  · have hrows : (task.apply s.rows (.insert (task.newRow serverId s.nextId peer))).rows =
        s.rows.rows ++ [task.newRow serverId s.nextId peer] := rows_insert_of_lt task hs
    have hnew : concerns coll serverId [peer] (task.newRow serverId s.nextId peer) = true :=
      concerns_singleton.mpr ⟨rfl, coll.refl _⟩
    dsimp only
    rw [hrows, List.filter_append, List.filter_singleton, hnew]
    exact List.append_nil _
  · next row hfind =>
    obtain ⟨hrow, hserver, hkey⟩ := findPeer_eq_some hfind
    set f : DiscoveredPeer → DiscoveredPeer := fun r ↦
      if Keyed.pk r = row.id then task.refresh peer r else r with hf
    have hrows : (task.apply s.rows (.update row.id peer)).rows = s.rows.rows.map f := rfl
    have hsame : ((fun r ↦ !concerns coll serverId [peer] r) ∘ f) =
        fun r ↦ !concerns coll serverId [peer] r := by
      funext r
      rw [Function.comp_apply, hf]
      dsimp only
      split <;> rfl
    dsimp only
    rw [hrows, List.filter_map, hsame]
    refine (List.map_congr_left fun r hr ↦ ?_).trans (List.map_id _)
    obtain ⟨hmem, hother⟩ := List.mem_filter.mp hr
    refine if_neg fun hid ↦ ?_
    -- the row with this id is that of the peer
    rw [Table.eq_of_pk_eq hmem hrow hid, concerns_singleton.mpr ⟨hserver, hkey⟩] at hother
    cases hother

theorem through_start (hunique : UniqueKeys coll before) {nextId : ℕ}
    (hnext : ∀ r ∈ before.rows, r.id < nextId) :
    Through task coll serverId before [] ⟨before, nextId, 0, 0⟩ where
  unique := hunique
  lt_nextId := hnext
  origin := fun _ hr hserver ↦ mem_keysOf hr hserver
  untouched := rfl
  exists_row := by simp
  shows := by rintro r - - peer ⟨⟩
  kept := fun old hold ↦ ⟨old, hold, ⟨rfl, rfl, rfl⟩, rfl⟩
  counts := rfl

/-- The row of the peer after its turn. -/
def Task.rowFor (task : Task) (coll : Collation) (serverId : ℕ) (s : Progress) (peer : Peer) :
    DiscoveredPeer :=
  match findPeer coll serverId s.rows peer.publicKey with
  | none => task.newRow serverId s.nextId peer
  | some row => task.refresh peer row

/-- It is a row of the server for the key of the peer, as the database sees it, and has the values
of the peer. -/
theorem records_rowFor (task : Task) (coll : Collation) (serverId : ℕ) (s : Progress)
    (peer : Peer) :
    (task.rowFor coll serverId s peer).serverId = serverId ∧
      coll.same (task.rowFor coll serverId s peer).publicKey peer.publicKey = true ∧
      task.Records peer (task.rowFor coll serverId s peer) := by
  rw [Task.rowFor]
  split
  · exact ⟨rfl, coll.refl _, ⟨rfl, rfl, rfl, rfl, rfl, rfl⟩, rfl⟩
  · next row hfind =>
    obtain ⟨-, hserver, hkey⟩ := findPeer_eq_some hfind
    exact ⟨hserver, hkey, ⟨rfl, rfl, rfl, rfl, rfl, rfl⟩, rfl⟩

/-- A row that was there keeps its key and the time it was first seen. -/
theorem rowFor_of_mem (task : Task) (hunique : UniqueKeys coll s.rows) (hr : r ∈ s.rows.rows)
    (hserver : r.serverId = serverId) (hkey : coll.same r.publicKey peer.publicKey = true) :
    SameKey (task.rowFor coll serverId s peer) r ∧
      (task.rowFor coll serverId s peer).firstSeenAt = r.firstSeenAt := by
  rw [Task.rowFor]
  split
  · next hfind =>
    have hfree := findPeer_eq_none.mp hfind r hr hserver
    rw [hkey] at hfree
    cases hfree
  · next row hfind =>
    obtain ⟨hrow, hserver', hkey'⟩ := findPeer_eq_some hfind
    have hid : row.id = r.id :=
      hunique row hrow r hr (hserver'.trans hserver.symm) (coll.trans hkey' (coll.symm hkey))
    rw [Table.eq_of_pk_eq hrow hr hid]
    exact ⟨⟨rfl, rfl, rfl⟩, rfl⟩

theorem origin_rowFor (task : Task) (coll : Collation) (serverId : ℕ) (s : Progress)
    (peer : Peer) :
    (task.rowFor coll serverId s peer).publicKey = peer.publicKey ∨
      ∃ r ∈ s.rows.rows, r.serverId = serverId ∧
        (task.rowFor coll serverId s peer).publicKey = r.publicKey := by
  rw [Task.rowFor]
  split
  · exact .inl rfl
  · next row hfind =>
    obtain ⟨hrow, hserver, -⟩ := findPeer_eq_some hfind
    exact .inr ⟨row, hrow, hserver, rfl⟩

/-- **What a turn of the loop does**: the row of the peer is there, and the others are as before. -/
theorem mem_upsert (hunique : UniqueKeys coll s.rows)
    (hnext : ∀ r ∈ s.rows.rows, r.id < s.nextId) :
    r ∈ (task.upsert coll serverId s peer).rows.rows ↔
      (r ∈ s.rows.rows ∧
        ¬(r.serverId = serverId ∧ coll.same r.publicKey peer.publicKey = true)) ∨
        r = task.rowFor coll serverId s peer := by
  rw [Task.upsert, Task.rowFor]
  cases hfind : findPeer coll serverId s.rows peer.publicKey with
  | none =>
    dsimp only
    rw [rows_insert_of_lt task hnext, List.mem_append, List.mem_singleton]
    refine or_congr_left ⟨fun hr ↦ ⟨hr, fun hkey ↦ ?_⟩, And.left⟩
    exact Bool.eq_false_iff.mp (findPeer_eq_none.mp hfind r hr hkey.1) hkey.2
  | some row =>
    obtain ⟨hrow, hserver, hkey⟩ := findPeer_eq_some hfind
    dsimp only
    constructor
    · intro hr
      rcases Table.mem_modify (task.pk_refresh peer) hr with ⟨hold, hne⟩ | ⟨r₀, hr₀, hid, rfl⟩
      · refine .inl ⟨hold, fun hkeys ↦ hne ?_⟩
        exact hunique r hold row hrow (hkeys.1.trans hserver.symm)
          (coll.trans hkeys.2 (coll.symm hkey))
      · rw [Table.eq_of_pk_eq hr₀ hrow hid]
        exact .inr rfl
    · rintro (⟨hold, hother⟩ | rfl)
      · refine List.mem_map.mpr ⟨r, hold, if_neg fun hid ↦ hother ?_⟩
        rw [Table.eq_of_pk_eq hold hrow hid]
        exact ⟨hserver, hkey⟩
      · exact List.mem_map.mpr ⟨row, hrow, if_pos rfl⟩

theorem nextId_upsert (task : Task) (coll : Collation) (serverId : ℕ) (peer : Peer)
    (hnext : ∀ r ∈ s.rows.rows, r.id < s.nextId) :
    s.nextId ≤ (task.upsert coll serverId s peer).nextId ∧
      (task.rowFor coll serverId s peer).id < (task.upsert coll serverId s peer).nextId := by
  rw [Task.upsert, Task.rowFor]
  cases hfind : findPeer coll serverId s.rows peer.publicKey with
  | none => exact ⟨Nat.le_succ _, Nat.lt_succ_self _⟩
  | some row => exact ⟨Nat.le_refl _, hnext row (findPeer_eq_some hfind).1⟩

theorem counts_upsert : (task.upsert coll serverId s peer).newCount +
    (task.upsert coll serverId s peer).updatedCount = s.newCount + s.updatedCount + 1 := by
  rw [Task.upsert]
  split
  · exact Nat.add_right_comm _ _ _
  · rfl

theorem Through.untouched_upsert (h : Through task coll serverId before peers s) :
    (task.upsert coll serverId s peer).rows.rows.filter
        (fun r ↦ !concerns coll serverId (peers ++ [peer]) r) =
      before.rows.filter fun r ↦ !concerns coll serverId (peers ++ [peer]) r := by
  have hswap (rows : List DiscoveredPeer) :
      rows.filter (fun r ↦ !concerns coll serverId (peers ++ [peer]) r) =
        (rows.filter fun r ↦ !concerns coll serverId peers r).filter
          fun r ↦ !concerns coll serverId [peer] r := by
    rw [List.filter_filter]
    exact List.filter_congr fun r _ ↦ by rw [concerns_append, Bool.and_comm]
  have hother (rows : List DiscoveredPeer) :
      rows.filter (fun r ↦ !concerns coll serverId (peers ++ [peer]) r) =
        (rows.filter fun r ↦ !concerns coll serverId [peer] r).filter
          fun r ↦ !concerns coll serverId peers r := by
    rw [List.filter_filter]
    exact List.filter_congr fun r _ ↦ concerns_append r
  rw [hother, filter_upsert h.lt_nextId, ← hother, hswap, h.untouched, ← hswap]

/-- A turn of the loop. -/
theorem through_upsert (h : Through task coll serverId before peers s) (peer : Peer) :
    Through task coll serverId before (peers ++ [peer]) (task.upsert coll serverId s peer) := by
  obtain ⟨hserver, hkey, hrecords⟩ := records_rowFor task coll serverId s peer
  obtain ⟨hle, hlt⟩ := nextId_upsert task coll serverId peer h.lt_nextId
  have hmem {r : DiscoveredPeer} : r ∈ (task.upsert coll serverId s peer).rows.rows ↔
      (r ∈ s.rows.rows ∧
        ¬(r.serverId = serverId ∧ coll.same r.publicKey peer.publicKey = true)) ∨
        r = task.rowFor coll serverId s peer := mem_upsert h.unique h.lt_nextId
  have horigin {r : DiscoveredPeer} (hr : r ∈ s.rows.rows) (hserver : r.serverId = serverId) :
      r.publicKey ∈ (peers ++ [peer]).map (·.publicKey) ++ keysOf serverId before := by
    rcases List.mem_append.mp (h.origin r hr hserver) with hobserved | hbefore
    · rw [List.map_append]
      exact List.mem_append_left _ (List.mem_append_left _ hobserved)
    · exact List.mem_append_right _ hbefore
  refine ⟨fun r hr r' hr' hservers hkeys ↦ ?_, fun r hr ↦ ?_, fun r hr hserver' ↦ ?_,
    h.untouched_upsert, fun p hp ↦ ?_, fun r hr hserver' p hlast ↦ ?_, fun old hold ↦ ?_, ?_⟩
  · rcases hmem.mp hr with ⟨hold, hother⟩ | rfl <;> rcases hmem.mp hr' with ⟨hold', hother'⟩ | rfl
    · exact h.unique r hold r' hold' hservers hkeys
    · exact absurd ⟨hservers.trans hserver, coll.trans hkeys hkey⟩ hother
    · exact absurd ⟨hservers.symm.trans hserver, coll.trans (coll.symm hkeys) hkey⟩ hother'
    · rfl
  · rcases hmem.mp hr with ⟨hold, -⟩ | rfl
    · exact Nat.lt_of_lt_of_le (h.lt_nextId r hold) hle
    · exact hlt
  · rcases hmem.mp hr with ⟨hold, -⟩ | rfl
    · exact horigin hold hserver'
    · rcases origin_rowFor task coll serverId s peer with hnew | ⟨r, hr, hold, heq⟩
      · rw [hnew, List.map_append]
        exact List.mem_append_left _ (List.mem_append_right _ (List.mem_singleton_self _))
      · rw [heq]
        exact horigin hr hold
  · rcases List.mem_append.mp hp with hp | hp
    · obtain ⟨r, hr, hserver', hkey'⟩ := h.exists_row p hp
      by_cases hsame : coll.same r.publicKey peer.publicKey = true
      · refine ⟨_, hmem.mpr (.inr rfl), hserver, ?_⟩
        exact coll.trans hkey (coll.trans (coll.symm hsame) hkey')
      · exact ⟨r, hmem.mpr (.inl ⟨hr, fun hboth ↦ hsame hboth.2⟩), hserver', hkey'⟩
    · rw [List.mem_singleton.mp hp]
      exact ⟨_, hmem.mpr (.inr rfl), hserver, hkey⟩
  · rw [lastSame_append] at hlast
    rcases hmem.mp hr with ⟨hold, hother⟩ | rfl
    · rw [if_neg fun hsame ↦ hother ⟨hserver', hsame⟩] at hlast
      exact h.shows r hold hserver' p hlast
    · rw [if_pos hkey] at hlast
      cases hlast
      exact hrecords
  · obtain ⟨r, hr, hsame, hfirst⟩ := h.kept old hold
    by_cases hkeys : r.serverId = serverId ∧ coll.same r.publicKey peer.publicKey = true
    · obtain ⟨hsame', hfirst'⟩ := rowFor_of_mem task h.unique hr hkeys.1 hkeys.2
      exact ⟨_, hmem.mpr (.inr rfl), ⟨hsame'.id.trans hsame.id,
        hsame'.serverId.trans hsame.serverId, hsame'.publicKey.trans hsame.publicKey⟩,
        hfirst'.trans hfirst⟩
    · exact ⟨r, hmem.mpr (.inl ⟨hr, hkeys⟩), hsame, hfirst⟩
  · rw [counts_upsert, h.counts, List.length_append, List.length_singleton]

/-- The loop is through with all lines, unless one of them raises. -/
theorem recordAll_cases (h : Through task coll serverId before peers s) (todo : List Peer) :
    ((∀ peer ∈ todo, peer.lastHandshakeEpoch ≤ maxEpoch ∧ takes peer = true) ∧
      ∃ s', task.recordAll coll takes serverId s todo = some s' ∧
        Through task coll serverId before (peers ++ todo) s') ∨
    (¬(∀ peer ∈ todo, peer.lastHandshakeEpoch ≤ maxEpoch ∧ takes peer = true) ∧
      task.recordAll coll takes serverId s todo = none) := by
  induction todo generalizing peers s with
  | nil => exact .inl ⟨by simp, s, rfl, by rwa [List.append_nil]⟩
  | cons peer todo ih =>
    rw [Task.recordAll, List.forall_mem_cons]
    split
    · next hpeer =>
      have hrest := ih (through_upsert h peer)
      rw [List.append_assoc, List.singleton_append] at hrest
      refine hrest.imp ?_ ?_
      · rintro ⟨hall, hs'⟩
        exact ⟨⟨hpeer, hall⟩, hs'⟩
      · rintro ⟨hnot, hnone⟩
        exact ⟨fun hall ↦ hnot hall.2, hnone⟩
    · next hpeer => exact .inr ⟨fun hall ↦ hpeer hall.1, rfl⟩

/-! ## The rows that are deleted -/

/-- Without keys the condition is left out, which is the same. -/
theorem staleRows_eq (coll : Collation) (serverId : ℕ) (peers : List Peer)
    (rows : Table DiscoveredPeer) :
    staleRows coll serverId (peers.map Peer.publicKey) rows =
      rows.rows.filter (isStale coll serverId peers) := by
  rw [staleRows, Table.select]
  split
  · rw [List.filter_filter]
    refine List.filter_congr fun row _ ↦ ?_
    rw [List.any_map, isStale, Bool.and_comm]
    rfl
  · next hempty =>
    rw [ne_eq, not_not, List.map_eq_nil_iff] at hempty
    subst hempty
    exact List.filter_congr fun row _ ↦ by simp [isStale]

theorem mem_deleteAll {rows : Table DiscoveredPeer} {stale : List DiscoveredPeer} :
    r ∈ (deleteAll rows stale).rows ↔ r ∈ rows.rows ∧ ∀ row ∈ stale, r.id ≠ row.id := by
  induction stale generalizing rows with
  | nil => simp [deleteAll]
  | cons row stale ih =>
    rw [deleteAll, List.foldl_cons, ← deleteAll, ih, List.forall_mem_cons, ← and_assoc]
    refine and_congr_left fun _ ↦ ?_
    simp only [Table.delete, Table.filter, List.mem_filter, bne_iff_ne]
    rfl

/-- The rows that are left. -/
theorem mem_pruned {rows : Table DiscoveredPeer} :
    r ∈ (deleteAll rows (rows.rows.filter (isStale coll serverId peers))).rows ↔
      r ∈ rows.rows ∧ isStale coll serverId peers r = false := by
  rw [mem_deleteAll]
  refine and_congr_right fun hr ↦ ⟨fun hids ↦ ?_, fun hfresh row hrow hid ↦ ?_⟩
  · by_contra hstale
    exact hids r (List.mem_filter.mpr ⟨hr, by simpa using hstale⟩) rfl
  · obtain ⟨hrow, hstale⟩ := List.mem_filter.mp hrow
    rw [← Table.eq_of_pk_eq hr hrow hid, hfresh] at hstale
    cases hstale

theorem isStale_of_sameKey (h : SameKey r row) :
    isStale coll serverId peers r = isStale coll serverId peers row := by
  rw [isStale, isStale, h.serverId, h.publicKey]

/-- As many rows are gone as the loop has left to delete. -/
theorem Through.length_stale (h : Through task coll serverId before peers s) :
    (s.rows.rows.filter (isStale coll serverId peers)).length =
      (before.rows.filter fun row ↦ ((deleteAll s.rows
        (s.rows.rows.filter (isStale coll serverId peers))).get row.id).isNone).length := by
  have hstale (rows : List DiscoveredPeer) : rows.filter (isStale coll serverId peers) =
      (rows.filter fun r ↦ !concerns coll serverId peers r).filter
        (isStale coll serverId peers) := by
    rw [List.filter_filter]
    refine List.filter_congr fun r _ ↦ ?_
    simp only [isStale, concerns]
    cases r.serverId == serverId <;>
      cases peers.any (fun peer ↦ coll.same r.publicKey peer.publicKey) <;> rfl
  have hgone : before.rows.filter (fun row ↦ ((deleteAll s.rows
      (s.rows.rows.filter (isStale coll serverId peers))).get row.id).isNone) =
      before.rows.filter (isStale coll serverId peers) := by
    refine List.filter_congr fun old hold ↦ ?_
    obtain ⟨r, hr, hsame, -⟩ := h.kept old hold
    rw [← isStale_of_sameKey hsame]
    cases hr' : isStale coll serverId peers r with
    | false =>
      have hleft := Table.mem_rows_iff.mp (mem_pruned.mpr ⟨hr, hr'⟩)
      have hid : Keyed.pk r = old.id := hsame.id
      rw [hid] at hleft
      rw [hleft]
      rfl
    | true =>
      refine Option.isNone_iff_eq_none.mpr (Table.get_eq_none_iff.mpr fun r₁ hr₁ hid ↦ ?_)
      obtain ⟨hmem, hfresh⟩ := mem_pruned.mp hr₁
      rw [Table.eq_of_pk_eq hmem hr (hid.trans hsame.id.symm), hr'] at hfresh
      cases hfresh
  rw [hgone, hstale, h.untouched, ← hstale]

theorem mem_managedKeys {db : Db} : key ∈ managedKeys db serverId ↔
    ∃ client ∈ db.clients.rows, client.serverId = serverId ∧ HasKey client key := by
  simp only [managedKeys, Table.select, List.mem_filter, List.mem_map, beq_iff_eq, HasKey,
    decide_eq_true_eq, and_assoc]
  constructor
  · rintro ⟨⟨client, hclient, hserver, hkey⟩, hne⟩
    exact ⟨client, hclient, hserver, hkey, hne⟩
  · rintro ⟨client, hclient, hserver, hkey, hne⟩
    exact ⟨⟨client, hclient, hserver, hkey⟩, hne⟩

/-! ## What is left when no line raises -/

/-- The table after the deletion. -/
def pruned (coll : Collation) (serverId : ℕ) (peers : List Peer) (s : Progress) :
    Table DiscoveredPeer :=
  deleteAll s.rows (s.rows.rows.filter (isStale coll serverId peers))

/-- A row that is left is for an observed key, as the database sees it. -/
theorem exists_of_mem_pruned (hr : r ∈ (pruned coll serverId peers s).rows)
    (hserver : r.serverId = serverId) :
    r ∈ s.rows.rows ∧ ∃ peer ∈ peers, coll.same r.publicKey peer.publicKey = true := by
  obtain ⟨hmem, hfresh⟩ := mem_pruned.mp hr
  exact ⟨hmem, (isStale_eq_false_iff hserver).mp hfresh⟩

theorem mem_pruned_of_same (hr : r ∈ s.rows.rows) (hserver : r.serverId = serverId)
    (hpeer : peer ∈ peers) (hsame : coll.same r.publicKey peer.publicKey = true) :
    r ∈ (pruned coll serverId peers s).rows :=
  mem_pruned.mpr ⟨hr, (isStale_eq_false_iff hserver).mpr ⟨peer, hpeer, hsame⟩⟩

variable {db db' : Db} {now : Datetime} {result : DiscoverResult}

/-- The keys are distinct to the database: it leaves what was observed. -/
theorem leavesObserved_of_through
    (h : Through ⟨peers, managedKeys db serverId, now⟩ coll serverId db.discoveredPeers peers s)
    (hexact : ExactKeys coll serverId db.discoveredPeers peers) :
    LeavesObserved db { db with discoveredPeers := pruned coll serverId peers s } serverId peers
      (.ok peers.length s.newCount s.updatedCount
        (s.rows.rows.filter (isStale coll serverId peers)).length) := by
  have hkey {r : DiscoveredPeer} (hr : r ∈ s.rows.rows) (hserver : r.serverId = serverId)
      {peer : Peer} (hpeer : peer ∈ peers) (hsame : coll.same r.publicKey peer.publicKey = true) :
      r.publicKey = peer.publicKey := hexact peer hpeer _ (h.origin r hr hserver) hsame
  refine ⟨rfl, fun peer hpeer ↦ ?_, fun row hrow row' hrow' hserver hserver' heq ↦ ?_,
    fun row hrow hserver ↦ ?_, fun old hold hserver hobserved ↦ ?_, fun row hserver ↦ ?_,
    _, _, _, rfl, h.counts, h.length_stale⟩
  · obtain ⟨r, hr, hserver, hsame⟩ := h.exists_row peer hpeer
    exact ⟨r, mem_pruned_of_same hr hserver hpeer hsame, hserver, hkey hr hserver hpeer hsame⟩
  · obtain ⟨hr, -⟩ := exists_of_mem_pruned hrow hserver
    obtain ⟨hr', -⟩ := exists_of_mem_pruned hrow' hserver'
    exact Table.eq_of_pk_eq hr hr'
      (h.unique row hr row' hr' (hserver.trans hserver'.symm) (heq ▸ coll.refl _))
  · obtain ⟨hr, peer, hpeer, hsame⟩ := exists_of_mem_pruned hrow hserver
    obtain ⟨last, hlast⟩ := exists_lastFor hpeer
    rw [← hkey hr hserver hpeer hsame] at hlast
    have hrecords := h.shows row hr hserver last
      ((lastSame_eq_lastFor fun _ hp ↦ hkey hr hserver hp).trans hlast)
    have hlastKey := (lastFor_eq_some hlast).2
    refine ⟨last, hlast, ⟨hrecords.toShowsValues, hlastKey.symm⟩, ?_⟩
    rw [hrecords.isManaged, List.contains_iff_mem, mem_managedKeys, hlastKey]
  · obtain ⟨r, hr, hsame, hfirst⟩ := h.kept old hold
    obtain ⟨peer, hpeer, hold'⟩ := hobserved
    refine ⟨r, mem_pruned_of_same hr (hsame.serverId.trans hserver) hpeer ?_, hsame, hfirst⟩
    rw [hsame.publicKey, hold']
    exact coll.refl _
  · have hother (rows : List DiscoveredPeer) :
        row ∈ rows ↔ row ∈ rows.filter fun r ↦ !concerns coll serverId peers r := by
      simp [concerns, hserver]
    have hfresh : isStale coll serverId peers row = false := by simp [isStale, hserver]
    dsimp only [pruned]
    rw [mem_pruned, hother s.rows.rows, h.untouched, ← hother]
    exact and_iff_left hfresh

/-- Two keys that the database takes for the same have one row between them. -/
theorem exactKeys_of_rows (h : Through task coll serverId before peers s)
    (hexists : ∀ peer ∈ peers, ∃ row ∈ (pruned coll serverId peers s).rows,
      row.serverId = serverId ∧ row.publicKey = peer.publicKey) :
    ExactKeys coll serverId before peers := by
  have hkey {peer : Peer} (hpeer : peer ∈ peers) {r : DiscoveredPeer} (hr : r ∈ s.rows.rows)
      (hserver : r.serverId = serverId) (hsame : coll.same r.publicKey peer.publicKey = true) :
      r.publicKey = peer.publicKey := by
    obtain ⟨row, hrow, hserver', hkey⟩ := hexists peer hpeer
    obtain ⟨hmem, -⟩ := mem_pruned.mp hrow
    rw [← hkey] at hsame ⊢
    rw [Table.eq_of_pk_eq hr hmem (h.unique r hr row hmem (hserver.trans hserver'.symm) hsame)]
  intro peer hpeer key hmem hsame
  rcases List.mem_append.mp hmem with hobserved | hbefore
  · obtain ⟨other, hother, rfl⟩ := List.mem_map.mp hobserved
    obtain ⟨row, hrow, hserver, heq⟩ := hexists other hother
    rw [← heq] at hsame ⊢
    exact hkey hpeer (mem_pruned.mp hrow).1 hserver hsame
  · obtain ⟨old, hold, rfl⟩ := List.mem_map.mp hbefore
    obtain ⟨hold, hserver⟩ := List.mem_filter.mp hold
    obtain ⟨r, hr, hrsame, -⟩ := h.kept old hold
    rw [← hrsame.publicKey] at hsame ⊢
    exact hkey hpeer hr (hrsame.serverId.trans (beq_iff_eq.mp hserver)) hsame

theorem not_leavesObserved_raised : ¬LeavesObserved db db' serverId peers .raised := by
  intro h
  obtain ⟨_, _, _, hresult, -⟩ := h.counts
  cases hresult

/-- The peers do not stop a run: their handshakes are dates, the database takes their values, and
takes their keys for no others. -/
def Recordable (env : DiscoverEnv) (serverId : ℕ) (rows : Table DiscoveredPeer)
    (peers : List Peer) : Prop :=
  (∀ peer ∈ peers, peer.lastHandshakeEpoch ≤ maxEpoch ∧ env.takes peer = true) ∧
    ExactKeys env.coll serverId rows peers

instance (env : DiscoverEnv) (serverId : ℕ) (rows : Table DiscoveredPeer) (peers : List Peer) :
    Decidable (Recordable env serverId rows peers) :=
  inferInstanceAs (Decidable (_ ∧ ∀ peer ∈ peers, _))

variable {env : DiscoverEnv} {nextId : ℕ} {server : Server} {sshKey : SSHKey}

/-- **A run that has an answer**: a line raises, or all lines are recorded. -/
theorem discoverPeersTask_cases (hunique : UniqueKeys env.coll db.discoveredPeers)
    (hnext : ∀ r ∈ db.discoveredPeers.rows, r.id < nextId)
    (hserver : db.servers.get serverId = some server)
    (hkey : db.sshKeys.get server.sshKeyId = some sshKey) (hpeers : env.discover = .ok peers) :
    (¬(∀ peer ∈ peers, peer.lastHandshakeEpoch ≤ maxEpoch ∧ env.takes peer = true) ∧
      discoverPeersTask env db nextId serverId = (db, .raised)) ∨
    ((∀ peer ∈ peers, peer.lastHandshakeEpoch ≤ maxEpoch ∧ env.takes peer = true) ∧
      ∃ s, Through ⟨peers, managedKeys db serverId, env.now⟩ env.coll serverId db.discoveredPeers
          peers s ∧
        discoverPeersTask env db nextId serverId =
          ({ db with discoveredPeers := pruned env.coll serverId peers s },
            .ok peers.length s.newCount s.updatedCount
              (s.rows.rows.filter (isStale env.coll serverId peers)).length)) := by
  rw [discoverPeersTask, hserver]
  dsimp only
  rw [hkey, hpeers]
  dsimp only
  have hstart : Through ⟨peers, managedKeys db serverId, env.now⟩ env.coll serverId
      db.discoveredPeers [] ⟨db.discoveredPeers, nextId, 0, 0⟩ := through_start hunique hnext
  rcases recordAll_cases hstart peers with ⟨hall, s, hs, hthrough⟩ | ⟨hnot, hnone⟩
  · rw [hs]
    dsimp only
    rw [staleRows_eq]
    exact .inr ⟨hall, s, hthrough, rfl⟩
  · rw [hnone]
    exact .inl ⟨hnot, rfl⟩

/-- **When a discovery leaves exactly what was observed.**  The table has one row for each key of a
server, as the database compares them, and its ids come from a counter; no other run overlaps.  A
run that gets an answer leaves one row for each observed key of the server, with the values of its
last line, keeps the rows that were there, deletes those that were not observed, touches nothing
else and counts right, if and only if every line has a handshake before the year 10000 and values
that the database takes, and the database takes no key that is observed for another one, or for that
of a row of the server.  A run that gets none because of SSH changes nothing. -/
theorem discovery_leaves_observed_iff (env : DiscoverEnv)
    (hunique : UniqueKeys env.coll db.discoveredPeers)
    (hnext : ∀ r ∈ db.discoveredPeers.rows, r.id < nextId)
    (hserver : db.servers.get serverId = some server)
    (hkey : db.sshKeys.get server.sshKeyId = some sshKey) :
    (∀ peers, env.discover = .ok peers →
      (LeavesObserved db (discoverPeersTask env db nextId serverId).1 serverId peers
          (discoverPeersTask env db nextId serverId).2 ↔
        Recordable env serverId db.discoveredPeers peers)) ∧
      (env.discover = .error .ssh → (discoverPeersTask env db nextId serverId).1 = db) := by
  constructor
  · intro peers hpeers
    rcases discoverPeersTask_cases hunique hnext hserver hkey hpeers with
      ⟨hnot, hraised⟩ | ⟨hall, s, hthrough, hresult⟩
    · rw [hraised]
      exact iff_of_false not_leavesObserved_raised fun hrecordable ↦ hnot hrecordable.1
    · rw [hresult]
      exact ⟨fun hleaves ↦ ⟨hall, exactKeys_of_rows hthrough hleaves.exists_row⟩,
        fun hrecordable ↦ leavesObserved_of_through hthrough hrecordable.2⟩
  · intro hssh
    rw [discoverPeersTask, hserver]
    dsimp only
    rw [hkey, hssh]

end

/-! ## A hub that is asked for its peers -/

/-- A hub with a client that has a key, and with two rows from an earlier run. -/
def exampleDb : Db where
  sshKeys := .singleton { id := 1, name := "key", createdAt := 0 }
  servers := .singleton exampleHub
  clients := .singleton
    { id := 1, name := "laptop", serverId := 1, publicKey := "K1", createdAt := 0 }
  discoveredPeers :=
    ⟨[{ id := 1, serverId := 1, publicKey := "K1", firstSeenAt := 5, lastSeenAt := 5 },
      { id := 2, serverId := 1, publicKey := "K2", firstSeenAt := 5, lastSeenAt := 5 }], by decide⟩

theorem uniqueKeys_exampleDb : UniqueKeys .binary exampleDb.discoveredPeers := by
  unfold UniqueKeys
  decide +kernel

/-- Two lines for one peer, the second with a later handshake. -/
def twice : List Peer :=
  [{ publicKey := "K1", lastHandshakeEpoch := 100 },
    { publicKey := "K1", lastHandshakeEpoch := 200, rxBytes := 7 }]

/-- What a run meets that gets these lines. -/
def answers (peers : List Peer) : DiscoverEnv := { now := 300, discover := .ok peers }

theorem discovery_leaves_observed_iff_twice :
    LeavesObserved exampleDb (discoverPeersTask (answers twice) exampleDb 3 1).1 1 twice
      (.ok 2 0 2 1) := by
  have hnext : ∀ r ∈ exampleDb.discoveredPeers.rows, r.id < 3 := by decide
  have hserver : exampleDb.servers.get 1 = some exampleHub := rfl
  have hkey : exampleDb.sshKeys.get exampleHub.sshKeyId =
      some { id := 1, name := "key", createdAt := 0 } := rfl
  have hresult : (discoverPeersTask (answers twice) exampleDb 3 1).2 = .ok 2 0 2 1 := by
    decide +kernel
  have hleaves := (discovery_leaves_observed_iff (answers twice) uniqueKeys_exampleDb hnext hserver
    hkey).1 twice rfl
  exact hresult ▸ hleaves.mpr (by decide +kernel)

/-- A peer that claims a handshake in the year 10000 makes the task raise, and nothing is left of
the other. -/
theorem handshake_in_year_10000 :
    ¬∀ (env : DiscoverEnv) (db : Db) (nextId serverId : ℕ) (server : Server) (sshKey : SSHKey)
      (peers : List Peer), UniqueKeys env.coll db.discoveredPeers →
        (∀ r ∈ db.discoveredPeers.rows, r.id < nextId) →
        db.servers.get serverId = some server → db.sshKeys.get server.sshKeyId = some sshKey →
        env.discover = .ok peers →
          LeavesObserved db (discoverPeersTask env db nextId serverId).1 serverId peers
            (discoverPeersTask env db nextId serverId).2 := by
  intro hall
  exact not_leavesObserved_raised (hall
    (answers [{ publicKey := "K1" }, { publicKey := "K2", lastHandshakeEpoch := 253402300800 }])
    exampleDb 3 1 exampleHub { id := 1, name := "key", createdAt := 0 } _ uniqueKeys_exampleDb
    (by decide) rfl rfl rfl)

end WgManager.Discovery
