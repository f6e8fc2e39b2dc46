import Mathlib.Algebra.Order.Group.Int
import Mathlib.Algebra.Order.Group.Unbundled.Basic
import Mathlib.Data.List.Chain
import WgManager.Models

/-!
# The sweep that rotates host certificates

An expired host certificate cannot be rotated any more, so `rotate_expiring_host_certs_task` looks
for those that are about to expire.  It runs every `SSH_HOST_CERT_ROTATION_INTERVAL_SECONDS` and
dispatches a rotation for every ready host whose certificate expires within
`SSH_HOST_CERT_RENEW_BEFORE_SECONDS`; the settings are refused unless the interval is shorter than
that window, and the window shorter than the lifetime of a certificate.

* `rotateExpiringHostCerts` is one sweep: what it reads, what the broker does with each dispatch,
  and what it reports.
* `no_certificate_lapses_unseen` is about sweeps over time: a certificate that enters the window is
  seen in it, as long as the end of the window is a time that a `datetime` can hold.
* `far_window_is_never_swept`: the settings bound the window from below only, and with one that ends
  after the year 9999 every sweep raises.
-/

set_option autoImplicit false

namespace WgManager.Rotation

/-! ## Settings -/

/-- The three settings of the rotation, in seconds. -/
structure Settings where
  sshHostCertTtlSeconds : ℤ := 86400
  sshHostCertRenewBeforeSeconds : ℤ := 43200
  sshHostCertRotationIntervalSeconds : ℤ := 3600

/-- `Settings._validate_host_cert_rotation_windows`. -/
def Settings.validate (settings : Settings) : Except String Settings :=
  let ttl := settings.sshHostCertTtlSeconds
  let renewBefore := settings.sshHostCertRenewBeforeSeconds
  let interval := settings.sshHostCertRotationIntervalSeconds
  if ttl ≤ renewBefore then
    .error (s!"SSH_HOST_CERT_RENEW_BEFORE_SECONDS ({renewBefore}) must be less than " ++
      s!"SSH_HOST_CERT_TTL_SECONDS ({ttl})")
  else if renewBefore ≤ interval then
    .error (s!"SSH_HOST_CERT_ROTATION_INTERVAL_SECONDS ({interval}) must be less than " ++
      s!"SSH_HOST_CERT_RENEW_BEFORE_SECONDS ({renewBefore})")
  else .ok settings

theorem Settings.validate_eq_ok_iff {settings accepted : Settings} :
    settings.validate = .ok accepted ↔ accepted = settings ∧
      settings.sshHostCertRenewBeforeSeconds < settings.sshHostCertTtlSeconds ∧
      settings.sshHostCertRotationIntervalSeconds < settings.sshHostCertRenewBeforeSeconds := by
  rw [validate]
  split
  · next h => exact iff_of_false (by simp) fun haccepted ↦ absurd haccepted.2.1 (not_lt.mpr h)
  · next h =>
    split
    · next h' => exact iff_of_false (by simp) fun haccepted ↦ absurd haccepted.2.2 (not_lt.mpr h')
    · next h' =>
      rw [Except.ok.injEq, eq_comm]
      exact ⟨fun heq ↦ ⟨heq, not_le.mp h, not_le.mp h'⟩, fun haccepted ↦ haccepted.1⟩

/-! ## A sweep -/

/-- What a rotation is about. -/
inductive Kind
  | server
  | client
  deriving DecidableEq

/-- A dispatch that raised. -/
structure FailedDispatch where
  kind : Kind
  id : ℕ
  error : String
  deriving DecidableEq

/-- What a sweep returns. -/
structure Result where
  servers : List ℕ := []
  clients : List ℕ := []
  failed : List FailedDispatch := []
  deriving DecidableEq

/-- `task.delay(row_id)` for each row; `some` is the text of the exception that it raises. -/
abbrev Broker := Kind → ℕ → Option String

/-- The second in which the earliest `datetime` is, the start of the year 1. -/
def minDatetime : Datetime := -62135596800

/-- The second in which the latest `datetime` is, the last of the year 9999. -/
def maxDatetime : Datetime := 253402300799

/-- `datetime.now(timezone.utc) + timedelta(seconds=...)`; `none` is the `OverflowError` of a sum
that is no `datetime`. -/
def cutoffAt (settings : Settings) (now : Datetime) : Option Datetime :=
  let cutoff := now + settings.sshHostCertRenewBeforeSeconds
  if minDatetime ≤ cutoff ∧ cutoff ≤ maxDatetime then some cutoff else none

/-- `host_cert_valid_before IS NULL OR host_cert_valid_before < cutoff`. -/
def expires (cutoff : Datetime) (validBefore : Option Datetime) : Bool :=
  validBefore.all (· < cutoff)

/-- The keys that the two queries select. -/
def selected (db : Db) (cutoff : Datetime) : Kind → List ℕ
  | .server => (db.servers.select fun row ↦
      row.status == .ready && expires cutoff row.hostCert.validBefore).map (·.id)
  | .client => (db.clients.select fun row ↦
      row.status == .ready && !row.isManual && expires cutoff row.hostCert.validBefore).map (·.id)

/-- One turn of the loop. -/
def Result.dispatch (broker : Broker) (kind : Kind) (result : Result) (id : ℕ) : Result :=
  match broker kind id with
  | some error => { result with failed := result.failed ++ [⟨kind, id, error⟩] }
  | none =>
    match kind with
    | .server => { result with servers := result.servers ++ [id] }
    | .client => { result with clients := result.clients ++ [id] }

/-- The two loops of `rotate_expiring_host_certs_task`. -/
def sweep (db : Db) (broker : Broker) (cutoff : Datetime) : Result :=
  let afterServers := (selected db cutoff .server).foldl (.dispatch broker .server) {}
  (selected db cutoff .client).foldl (.dispatch broker .client) afterServers

/-- `rotate_expiring_host_certs_task`; `none` when it raises, before it has read a row. -/
def rotateExpiringHostCerts (settings : Settings) (now : Datetime) (db : Db) (broker : Broker) :
    Option Result :=
  (cutoffAt settings now).map (sweep db broker)

/-- The keys that were dispatched. -/
def Result.dispatched (result : Result) : Kind → List ℕ
  | .server => result.servers
  | .client => result.clients

/-- The keys of the dispatches that raised. -/
def Result.raised (result : Result) (kind : Kind) : List ℕ :=
  (result.failed.filter fun f ↦ f.kind == kind).map (·.id)

/-- A host that is ready, is not managed by hand, and whose recorded expiry is this. -/
def Ready (db : Db) (validBefore : Option Datetime) (id : ℕ) : Kind → Prop
  | .server => ∃ row, db.servers.get id = some row ∧ row.status = .ready ∧
      row.hostCert.validBefore = validBefore
  | .client => ∃ row, db.clients.get id = some row ∧ row.status = .ready ∧ row.isManual = false ∧
      row.hostCert.validBefore = validBefore

section

variable {db : Db} {cutoff now : Datetime} {kind kind' : Kind} {id : ℕ} {broker : Broker}
  {result : Result} {ids : List ℕ}

/-- The queries select the ready hosts with a missing expiry, or one before the cutoff. -/
theorem mem_selected_iff : id ∈ selected db cutoff kind ↔
    ∃ validBefore, Ready db validBefore id kind ∧ ∀ v ∈ validBefore, v < cutoff := by
  cases kind with
  | server =>
    simp only [selected, Ready, List.mem_map, Table.select, List.mem_filter, Bool.and_eq_true,
      beq_iff_eq, expires, Option.all_eq_true, decide_eq_true_eq]
    constructor
    · rintro ⟨row, ⟨hrow, hready, hexpires⟩, rfl⟩
      exact ⟨_, ⟨row, Table.mem_rows_iff.mp hrow, hready, rfl⟩, hexpires⟩
    · rintro ⟨_, ⟨row, hrow, hready, rfl⟩, hexpires⟩
      exact ⟨row, ⟨Table.mem_of_get hrow, hready, hexpires⟩, Table.pk_of_get hrow⟩
  | client =>
    simp only [selected, Ready, List.mem_map, Table.select, List.mem_filter, Bool.and_eq_true,
      beq_iff_eq, expires, Option.all_eq_true, decide_eq_true_eq, Bool.not_eq_true']
    constructor
    · rintro ⟨row, ⟨hrow, ⟨hready, hmanual⟩, hexpires⟩, rfl⟩
      exact ⟨_, ⟨row, Table.mem_rows_iff.mp hrow, hready, hmanual, rfl⟩, hexpires⟩
    · rintro ⟨_, ⟨row, hrow, hready, hmanual, rfl⟩, hexpires⟩
      exact ⟨row, ⟨Table.mem_of_get hrow, ⟨hready, hmanual⟩, hexpires⟩, Table.pk_of_get hrow⟩

theorem nodup_selected (db : Db) (cutoff : Datetime) (kind : Kind) :
    (selected db cutoff kind).Nodup := by
  cases kind with
  | server => exact db.servers.nodup.sublist (List.filter_sublist.map _)
  | client => exact db.clients.nodup.sublist (List.filter_sublist.map _)

theorem dispatch_of_none (result : Result) (h : broker kind id = none) :
    (∀ kind', (result.dispatch broker kind id).dispatched kind' =
      result.dispatched kind' ++ if kind' = kind then [id] else []) ∧
    (result.dispatch broker kind id).failed = result.failed := by
  rw [Result.dispatch.eq_def, h]
  cases kind with
  | server =>
    refine ⟨fun kind' ↦ ?_, rfl⟩
    cases kind' <;> simp [Result.dispatched]
  | client =>
    refine ⟨fun kind' ↦ ?_, rfl⟩
    cases kind' <;> simp [Result.dispatched]

theorem dispatch_of_some {error : String} (result : Result) (h : broker kind id = some error) :
    (∀ kind', (result.dispatch broker kind id).dispatched kind' = result.dispatched kind') ∧
    (result.dispatch broker kind id).failed = result.failed ++ [⟨kind, id, error⟩] := by
  rw [Result.dispatch.eq_def, h]
  exact ⟨fun kind' ↦ by cases kind' <;> rfl, rfl⟩

/-- What a loop over some keys adds to the result. -/
theorem foldl_dispatch (broker : Broker) (kind : Kind) (ids : List ℕ) (result : Result) :
    (∀ kind', (ids.foldl (.dispatch broker kind) result).dispatched kind' =
      result.dispatched kind' ++
        if kind' = kind then ids.filter fun id ↦ (broker kind id).isNone else []) ∧
    (ids.foldl (.dispatch broker kind) result).failed =
      result.failed ++ ids.filterMap fun id ↦ (broker kind id).map (FailedDispatch.mk kind id) := by
  induction ids generalizing result with
  | nil => simp
  | cons id ids ih =>
    obtain ⟨hdispatched, hfailed⟩ := ih (result.dispatch broker kind id)
    rw [List.foldl_cons, hfailed]
    simp only [hdispatched]
    cases hbroker : broker kind id with
    | none =>
      obtain ⟨hnone, hkept⟩ := dispatch_of_none result hbroker
      refine ⟨fun kind' ↦ ?_, by simp [hkept, hbroker]⟩
      rw [hnone]
      split
      · simp [hbroker]
      · simp
    | some error =>
      obtain ⟨hkept, hsome⟩ := dispatch_of_some result hbroker
      exact ⟨fun kind' ↦ by simp [hkept, hbroker], by simp [hsome, hbroker]⟩

/-- The keys of the dispatches of a loop that raised. -/
theorem ids_of_failed (broker : Broker) (kind kind' : Kind) (ids : List ℕ) :
    ((ids.filterMap fun id ↦ (broker kind id).map (FailedDispatch.mk kind id)).filter
        fun f ↦ f.kind == kind').map (·.id) =
      if kind' = kind then ids.filter fun id ↦ !(broker kind id).isNone else [] := by
  induction ids with
  | nil => simp
  | cons id ids ih =>
    cases hbroker : broker kind id with
    | none =>
      rw [List.filterMap_cons, hbroker, Option.map_none]
      dsimp only
      rw [ih, List.filter_cons, hbroker]
      rfl
    | some error =>
      rw [List.filterMap_cons, hbroker, Option.map_some]
      dsimp only
      rw [List.filter_cons, List.filter_cons, hbroker]
      by_cases hkind : kind' = kind
      · rw [hkind] at ih ⊢
        simpa using ih
      · have hne : (kind == kind') = false := beq_eq_false_iff_ne.mpr (Ne.symm hkind)
        rw [if_neg hkind] at ih ⊢
        simpa [hne] using ih

theorem dispatched_eq (db : Db) (broker : Broker) (cutoff : Datetime) (kind : Kind) :
    (sweep db broker cutoff).dispatched kind =
      (selected db cutoff kind).filter fun id ↦ (broker kind id).isNone := by
  rw [sweep, (foldl_dispatch ..).1, (foldl_dispatch ..).1]
  cases kind <;> simp [Result.dispatched]

theorem mem_failed_iff {error : String} : ⟨kind, id, error⟩ ∈ (sweep db broker cutoff).failed ↔
    id ∈ selected db cutoff kind ∧ broker kind id = some error := by
  rw [sweep, (foldl_dispatch ..).2, (foldl_dispatch ..).2]
  cases kind <;> simp

theorem raised_eq (db : Db) (broker : Broker) (cutoff : Datetime) (kind : Kind) :
    (sweep db broker cutoff).raised kind =
      (selected db cutoff kind).filter fun id ↦ !(broker kind id).isNone := by
  rw [Result.raised, sweep, (foldl_dispatch ..).2, (foldl_dispatch ..).2, List.nil_append,
    List.filter_append, List.map_append, ids_of_failed, ids_of_failed]
  cases kind <;> simp

/-- Every key that is selected is dispatched or reported, once. -/
theorem handled_perm (db : Db) (broker : Broker) (cutoff : Datetime) (kind : Kind) :
    ((sweep db broker cutoff).dispatched kind ++ (sweep db broker cutoff).raised kind).Perm
      (selected db cutoff kind) := by
  rw [dispatched_eq, raised_eq]
  exact List.filter_append_perm _ _

theorem cutoffAt_eq_some_iff {settings : Settings} : cutoffAt settings now = some cutoff ↔
    cutoff = now + settings.sshHostCertRenewBeforeSeconds ∧
      minDatetime ≤ cutoff ∧ cutoff ≤ maxDatetime := by
  rw [cutoffAt]
  split
  · next h =>
    rw [Option.some.injEq]
    exact ⟨fun heq ↦ heq ▸ ⟨rfl, h⟩, fun hcutoff ↦ hcutoff.1.symm⟩
  · next h =>
    refine iff_of_false (by simp) ?_
    rintro ⟨rfl, hrange⟩
    exact h hrange

/-- A task that returns has done the two loops, with a cutoff that is a `datetime`. -/
theorem rotateExpiringHostCerts_eq_some_iff {settings : Settings} :
    rotateExpiringHostCerts settings now db broker = some result ↔
      cutoffAt settings now = some (now + settings.sshHostCertRenewBeforeSeconds) ∧
      result = sweep db broker (now + settings.sshHostCertRenewBeforeSeconds) := by
  rw [rotateExpiringHostCerts, Option.map_eq_some_iff]
  constructor
  · rintro ⟨cutoff, hcutoff, rfl⟩
    obtain ⟨rfl, -⟩ := cutoffAt_eq_some_iff.mp hcutoff
    exact ⟨hcutoff, rfl⟩
  · rintro ⟨hcutoff, rfl⟩
    exact ⟨_, hcutoff, rfl⟩

theorem ready_unique {v v' : Option Datetime} (h : Ready db v id kind) (h' : Ready db v' id kind) :
    v = v' := by
  cases kind with
  | server =>
    obtain ⟨row, hrow, -, rfl⟩ := h
    obtain ⟨row', hrow', -, rfl⟩ := h'
    rw [hrow, Option.some.injEq] at hrow'
    rw [hrow']
  | client =>
    obtain ⟨row, hrow, -, -, rfl⟩ := h
    obtain ⟨row', hrow', -, -, rfl⟩ := h'
    rw [hrow, Option.some.injEq] at hrow'
    rw [hrow']

theorem mem_selected_of_ready {v : Datetime} (h : Ready db (some v) id kind) :
    id ∈ selected db cutoff kind ↔ v < cutoff := by
  rw [mem_selected_iff]
  constructor
  · rintro ⟨validBefore, hready, hexpires⟩
    exact hexpires v (ready_unique hready h)
  · intro hlt
    refine ⟨some v, h, fun v' hv' ↦ ?_⟩
    rw [Option.mem_some_iff] at hv'
    exact hv' ▸ hlt

end

/-! ## Sweeps over time -/

/-- Points in time that are at most `gap` apart, the first before `b` and the last no more than
`gap` before it: one of them lies in every window before `b` that is longer than `gap`. -/
theorem exists_mem_window {τ : Type*} [AddCommGroup τ] [LinearOrder τ] [IsOrderedAddMonoid τ]
    {times : List τ} {a b gap : τ} (hgap : gap < b - a)
    (hchain : times.IsChain fun s t ↦ t ≤ s + gap) (hfirst : ∀ t ∈ times.head?, t < b)
    (hlast : ∃ t ∈ times.getLast?, b ≤ t + gap) : ∃ t ∈ times, a < t ∧ t < b := by
  induction times with
  | nil =>
    obtain ⟨t, ht, -⟩ := hlast
    cases ht
  | cons t times ih =>
    have ht : t < b := hfirst t rfl
    by_cases hlate : a < t
    · exact ⟨t, List.mem_cons_self, hlate, ht⟩
    · have hearly : t + gap < b := by
        have hle : t + gap ≤ a + gap := add_le_add_left (not_lt.mp hlate) gap
        exact lt_of_le_of_lt hle (lt_sub_iff_add_lt'.mp hgap)
      cases times with
      | nil =>
        obtain ⟨t', ht', hend⟩ := hlast
        rw [List.getLast?_singleton, Option.mem_some_iff] at ht'
        exact absurd hend (not_le.mpr (ht' ▸ hearly))
      | cons t' times =>
        obtain ⟨hnext, hrest⟩ := List.isChain_cons_cons.mp hchain
        obtain ⟨u, hu, hwindow⟩ := ih hrest
          (fun x hx ↦ by
            rw [List.head?_cons, Option.mem_some_iff] at hx
            exact hx ▸ lt_of_le_of_lt hnext hearly)
          (by rwa [List.getLast?_cons_cons] at hlast)
        exact ⟨u, List.mem_cons_of_mem t hu, hwindow⟩

/-- A sweep: when it ran, what it read, and what the broker did. -/
structure Sweep where
  now : Datetime
  db : Db
  broker : Broker

/-- What the task returns; `none` when it raises. -/
def Sweep.result (sweep : Sweep) (settings : Settings) : Option Result :=
  rotateExpiringHostCerts settings sweep.now sweep.db sweep.broker

/-- The end of the renew window is a time in the years 1 to 9999. -/
def Sweep.WindowEnds (sweep : Sweep) (settings : Settings) : Prop :=
  minDatetime ≤ sweep.now + settings.sshHostCertRenewBeforeSeconds ∧
    sweep.now + settings.sshHostCertRenewBeforeSeconds ≤ maxDatetime

/-- The sweeps are at most the interval apart, and cover the time before `v`: the first was before
`v`, and after the last one the interval is not over before `v`. -/
structure Covers (interval : ℤ) (v : Datetime) (sweeps : List Sweep) : Prop where
  spaced : sweeps.IsChain fun s t ↦ t.now ≤ s.now + interval
  first : ∀ s ∈ sweeps.head?, s.now < v
  last : ∃ s ∈ sweeps.getLast?, v ≤ s.now + interval

/-- The sweep has dispatched the rotation, or reports that it could not. -/
def Result.Handles (result : Result) (kind : Kind) (id : ℕ) : Prop :=
  id ∈ result.dispatched kind ∨ ∃ error, ⟨kind, id, error⟩ ∈ result.failed

/-- The sweep returns, and has dispatched or reported, each once, the ready hosts whose expiry is
unknown or before the cutoff, and no others. -/
def Sweep.HandlesDue (sweep : Sweep) (settings : Settings) : Prop :=
  ∃ result, sweep.result settings = some result ∧ ∀ kind,
    (result.dispatched kind ++ result.raised kind).Nodup ∧
    ∀ id, id ∈ result.dispatched kind ++ result.raised kind ↔
      ∃ validBefore, Ready sweep.db validBefore id kind ∧
        ∀ v ∈ validBefore, v < sweep.now + settings.sshHostCertRenewBeforeSeconds

section

variable {settings : Settings} {sweep : Sweep} {result : Result} {kind : Kind} {id : ℕ}

theorem Sweep.result_eq_some_iff : sweep.result settings = some result ↔
    sweep.WindowEnds settings ∧ result = Rotation.sweep sweep.db sweep.broker
      (sweep.now + settings.sshHostCertRenewBeforeSeconds) := by
  rw [Sweep.result, rotateExpiringHostCerts_eq_some_iff, cutoffAt_eq_some_iff, Sweep.WindowEnds,
    eq_self_iff_true, true_and]

theorem handles_iff (hresult : sweep.result settings = some result) : result.Handles kind id ↔
    id ∈ selected sweep.db (sweep.now + settings.sshHostCertRenewBeforeSeconds) kind := by
  obtain ⟨-, rfl⟩ := Sweep.result_eq_some_iff.mp hresult
  rw [Result.Handles, dispatched_eq]
  simp only [mem_failed_iff, List.mem_filter]
  cases hbroker : sweep.broker kind id with
  | none => simp
  | some error => simp

/-- A sweep does its work exactly when the end of its window is a `datetime`. -/
theorem Sweep.handlesDue_iff : sweep.HandlesDue settings ↔ sweep.WindowEnds settings := by
  constructor
  · rintro ⟨result, hresult, -⟩
    exact (Sweep.result_eq_some_iff.mp hresult).1
  · intro hends
    refine ⟨_, Sweep.result_eq_some_iff.mpr ⟨hends, rfl⟩, fun kind ↦ ?_⟩
    have hperm := handled_perm sweep.db sweep.broker
      (sweep.now + settings.sshHostCertRenewBeforeSeconds) kind
    refine ⟨hperm.nodup_iff.mpr (nodup_selected ..), fun id ↦ ?_⟩
    rw [← mem_selected_iff]
    exact hperm.mem_iff

/-- Whether a dispatch raises matters to its own row only. -/
theorem Sweep.result_other {broker : Broker} (hsame : broker kind id = sweep.broker kind id)
    (hresult : sweep.result settings = some result) :
    ∃ other, { sweep with broker }.result settings = some other ∧
      (id ∈ result.dispatched kind ↔ id ∈ other.dispatched kind) ∧
      ∀ error, (⟨kind, id, error⟩ ∈ result.failed ↔ ⟨kind, id, error⟩ ∈ other.failed) := by
  obtain ⟨hends, rfl⟩ := Sweep.result_eq_some_iff.mp hresult
  refine ⟨_, Sweep.result_eq_some_iff.mpr ⟨hends, rfl⟩, ?_⟩
  simp only [dispatched_eq, mem_failed_iff, List.mem_filter, hsame, iff_self, implies_true,
    and_self]

/-- A certificate is seen by a sweep in its window. -/
theorem exists_handles {v : Datetime} {sweeps : List Sweep}
    (haccepted :
      settings.sshHostCertRotationIntervalSeconds < settings.sshHostCertRenewBeforeSeconds)
    (hcovers : Covers settings.sshHostCertRotationIntervalSeconds v sweeps)
    (hready : ∀ sweep ∈ sweeps, sweep.now < v → Ready sweep.db (some v) id kind)
    (hends : ∀ sweep ∈ sweeps, sweep.WindowEnds settings) :
    ∃ sweep ∈ sweeps, v - settings.sshHostCertRenewBeforeSeconds < sweep.now ∧ sweep.now < v ∧
      ∃ result, sweep.result settings = some result ∧ result.Handles kind id := by
  have hgap : settings.sshHostCertRotationIntervalSeconds <
      v - (v - settings.sshHostCertRenewBeforeSeconds) := by
    omega
  have hchain : (sweeps.map Sweep.now).IsChain fun s t ↦
      t ≤ s + settings.sshHostCertRotationIntervalSeconds := by
    rw [List.isChain_map]
    exact hcovers.spaced
  have hfirst : ∀ t ∈ (sweeps.map Sweep.now).head?, t < v := by
    intro t ht
    rw [List.head?_map] at ht
    obtain ⟨s, hs, rfl⟩ := Option.map_eq_some_iff.mp ht
    exact hcovers.first s hs
  have hlast : ∃ t ∈ (sweeps.map Sweep.now).getLast?,
      v ≤ t + settings.sshHostCertRotationIntervalSeconds := by
    obtain ⟨s, hs, hend⟩ := hcovers.last
    refine ⟨s.now, ?_, hend⟩
    rw [List.getLast?_map]
    exact Option.map_eq_some_iff.mpr ⟨s, hs, rfl⟩
  obtain ⟨t, ht, hafter, hbefore⟩ := exists_mem_window hgap hchain hfirst hlast
  obtain ⟨sweep, hsweep, rfl⟩ := List.mem_map.mp ht
  have hresult := Sweep.result_eq_some_iff.mpr ⟨hends sweep hsweep, rfl⟩
  refine ⟨sweep, hsweep, hafter, hbefore, _, hresult, (handles_iff hresult).mpr ?_⟩
  rw [mem_selected_of_ready (hready sweep hsweep hbefore)]
  exact sub_lt_iff_lt_add.mp hafter

end

/-- **No certificate lapses unseen**, while the windows end before the year 10000.  With settings
that are accepted:

* while sweeps come at the interval and their windows end, the certificate of a host that stays
  ready is rotated, or reported, by a sweep within its window and before it expires;
* a sweep does its work, to dispatch or report the ready hosts whose expiry is unknown or before the
  cutoff, each once, and no others, exactly when its window ends;
* whether a dispatch raises matters to its own row only;
* a host with a fresh certificate is left alone until the certificate enters its window. -/
theorem no_certificate_lapses_unseen {given settings : Settings}
    (haccepted : given.validate = .ok settings) :
    (∀ kind id v sweeps, Covers settings.sshHostCertRotationIntervalSeconds v sweeps →
      (∀ sweep ∈ sweeps, sweep.now < v → Ready sweep.db (some v) id kind) →
      (∀ sweep ∈ sweeps, sweep.WindowEnds settings) →
      ∃ sweep ∈ sweeps, v - settings.sshHostCertRenewBeforeSeconds < sweep.now ∧ sweep.now < v ∧
        ∃ result, sweep.result settings = some result ∧ result.Handles kind id) ∧
    (∀ sweep : Sweep, sweep.HandlesDue settings ↔ sweep.WindowEnds settings) ∧
    (∀ (sweep : Sweep) (broker : Broker) kind id, broker kind id = sweep.broker kind id →
      ∀ result, sweep.result settings = some result →
        ∃ other, { sweep with broker }.result settings = some other ∧
          (id ∈ result.dispatched kind ↔ id ∈ other.dispatched kind) ∧
          ∀ error, (⟨kind, id, error⟩ ∈ result.failed ↔ ⟨kind, id, error⟩ ∈ other.failed)) ∧
    ∀ kind id (rotatedAt : Datetime) (sweep : Sweep),
      Ready sweep.db (some (rotatedAt + settings.sshHostCertTtlSeconds)) id kind →
      rotatedAt < rotatedAt + settings.sshHostCertTtlSeconds -
          settings.sshHostCertRenewBeforeSeconds ∧
        (sweep.now ≤ rotatedAt + settings.sshHostCertTtlSeconds -
            settings.sshHostCertRenewBeforeSeconds →
          ∀ result, sweep.result settings = some result → ¬result.Handles kind id) := by
  obtain ⟨rfl, hrenew, hinterval⟩ := Settings.validate_eq_ok_iff.mp haccepted
  refine ⟨fun kind id v sweeps ↦ exists_handles hinterval, fun sweep ↦ Sweep.handlesDue_iff,
    fun sweep broker kind id hsame result ↦ Sweep.result_other hsame,
    fun kind id rotatedAt sweep hready ↦ ⟨?_, fun hearly result hresult ↦ ?_⟩⟩
  · rw [lt_sub_iff_add_lt]
    exact add_lt_add_right hrenew rotatedAt
  · rw [handles_iff hresult, mem_selected_of_ready hready, not_lt]
    exact le_sub_iff_add_le.mp hearly

/-- The hub is ready, and its certificate expires after a day. -/
def expiringDb : Db where
  servers := .singleton
    { id := 1, hostname := "hub.example", sshUsername := "root", sshKeyId := 1
      endpointHost := "hub.example", subnet := exampleSubnet, address := ⟨0x0a090001, 30⟩
      status := .ready, createdAt := 0, hostCert := { validBefore := some 86400 } }

/-- A sweep every hour of the day, with a broker that cannot be reached. -/
def hourlySweeps : List Sweep :=
  (List.range 24).map fun hour : ℕ ↦ ⟨3600 * hour, expiringDb, fun _ _ ↦ some "broker down"⟩

theorem covers_hourlySweeps : Covers 3600 86400 hourlySweeps := by
  refine ⟨?_, ?_, ?_⟩
  · rw [hourlySweeps, List.isChain_map]
    decide
  · intro s hs
    cases hs
    decide
  · exact ⟨_, rfl, by decide⟩

theorem ready_hourlySweeps {sweep : Sweep} (hsweep : sweep ∈ hourlySweeps) :
    Ready sweep.db (some 86400) 1 .server := by
  obtain ⟨hour, -, rfl⟩ := List.mem_map.mp hsweep
  exact ⟨_, rfl, rfl, rfl⟩

theorem no_certificate_lapses_unseen_hourly :
    ∃ sweep ∈ hourlySweeps, 43200 < sweep.now ∧ sweep.now < 86400 ∧
      ∃ result, sweep.result {} = some result ∧ result.Handles .server 1 := by
  have hends : ∀ sweep ∈ hourlySweeps, sweep.WindowEnds {} := by
    intro sweep hsweep
    obtain ⟨hour, hhour, rfl⟩ := List.mem_map.mp hsweep
    rw [List.mem_range] at hhour
    have hends : (-62135596800 : ℤ) ≤ 3600 * hour + 43200 ∧
        (3600 * hour + 43200 : ℤ) ≤ 253402300799 := by
      omega
    exact hends
  have haccepted : ({} : Settings).validate = .ok {} := rfl
  exact (no_certificate_lapses_unseen haccepted).1 .server 1 86400 hourlySweeps
    covers_hourlySweeps (fun sweep hsweep _ ↦ ready_hourlySweeps hsweep) hends

/-- A window that ends more than eight thousand years after it starts. -/
def farSettings : Settings where
  sshHostCertTtlSeconds := 253402300801
  sshHostCertRenewBeforeSeconds := 253402300800

/-- The settings are accepted, but every sweep raises: the certificate of the hub lapses, and no
sweep has dispatched or reported it. -/
theorem far_window_is_never_swept :
    farSettings.validate = .ok farSettings ∧
      Covers farSettings.sshHostCertRotationIntervalSeconds 86400 hourlySweeps ∧
      (∀ sweep ∈ hourlySweeps, Ready sweep.db (some 86400) 1 .server) ∧
      ∀ sweep ∈ hourlySweeps, sweep.result farSettings = none := by
  refine ⟨rfl, covers_hourlySweeps, fun sweep ↦ ready_hourlySweeps, fun sweep hsweep ↦ ?_⟩
  obtain ⟨hour, -, rfl⟩ := List.mem_map.mp hsweep
  rw [Option.eq_none_iff_forall_not_mem]
  intro result hresult
  have hends : (3600 * hour + 253402300800 : ℤ) ≤ 253402300799 :=
    (Sweep.result_eq_some_iff.mp hresult).1.2
  omega

end WgManager.Rotation
