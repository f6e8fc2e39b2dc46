import WgManager.Enroll.Life

/-!
# One answer for every token failure

`_reject` answers every request whose token does not hold with the same 401, so that a caller cannot
tell why.  The checks before it must not raise: `source_allowed` does when the stored networks
cannot be read, which happens to networks whose zone has a comma.  For states without such networks
any two failures look alike (`token_failures_look_alike`).
-/

set_option autoImplicit false

namespace WgManager.TokenLife

/-! ## What a token is bound to -/

/-- The row is bound to these networks, and its column stands for them. -/
structure BoundTo (v6 : IPv6Library) (row : EnrollmentToken) (networks : List IPNetwork) :
    Prop where
  ne_nil : networks ≠ []
  isNetwork : ∀ n ∈ networks, IsNetwork n
  no_comma : ∀ n ∈ networks, ∀ zone ∈ n.scopeId, ',' ∉ zone.toList
  stored : row.allowedCidrs = storedCidrs (networks.map v6.str)

theorem BoundTo.read_back {v6 : IPv6Library} (hlib : v6.Lawful) {row : EnrollmentToken}
    {networks : List IPNetwork} (h : BoundTo v6 row networks) (sha256Hex : String → String) :
    allowedNetworks (v6.tokenLibrary sha256Hex) row = some (some networks) := by
  rw [allowedNetworks_stored h.ne_nil h.stored,
    read_back_of_no_comma hlib h.isNetwork h.ne_nil h.no_comma]

/-- Every token is bound to what was entered for it, or to nothing. -/
def RowBound (v6 : IPv6Library) (row : EnrollmentToken) : Option (List IPNetwork) → Prop
  | none => row.allowedCidrs = none
  | some networks => BoundTo v6 row networks

structure Bound (v6 : IPv6Library) (g : Shared) : Prop where
  ids : IdsBelow g
  rows : ∀ id row, g.tokens.get id = some row → RowBound v6 row (g.entered id)

/-- No network of the request has a zone with a comma. -/
def Mint.PlainZones {v6 : IPv6Library} (m : Mint v6) : Prop :=
  ∀ networks, m.networks = some networks → ∀ n ∈ networks, ∀ zone ∈ n.scopeId, ',' ∉ zone.toList

/-- The step is none of a request that mints a token for a network whose zone has a comma. -/
def MintsPlain {v6 : IPv6Library} (c : Config Shared (Proc v6)) (e : ℕ × Action) : Prop :=
  ∀ m st, c.proc e.1 = some (.mint m st) → m.PlainZones

section

variable {v6 : IPv6Library} {sha256Hex : String → String} {row row' : EnrollmentToken}

theorem RowBound.of_ages {entered : Option (List IPNetwork)} (h : RowBound v6 row entered)
    (hages : Ages row row') : RowBound v6 row' entered := by
  cases entered with
  | none => exact hages.allowedCidrs.trans h
  | some networks =>
    exact ⟨h.ne_nil, h.isNetwork, h.no_comma, hages.allowedCidrs.trans h.stored⟩

/-- A list that is not empty names a network. -/
theorem networks_ne_nil {values : List String} {networks : List IPNetwork}
    (h : v6.networksOf values = some networks) (hne : values ≠ []) : networks ≠ [] := by
  obtain ⟨all, hall, rfl⟩ := Option.map_eq_some_iff.mp h
  have hlen := (mapM_eq_some_iff.mp hall).length_eq
  intro hnil
  cases all with
  | nil => exact hne (List.length_eq_zero_iff.mp hlen)
  | cons n all =>
    rw [List.eraseDups_cons] at hnil
    cases hnil

/-- A minted row is bound to what was entered. -/
theorem rowBound_minted (hlib : v6.Lawful) (m : Mint v6) (hplain : m.PlainZones) (id : ℕ)
    (now : Datetime) (server : Server) (sshKey : SSHKey) :
    RowBound v6 (m.row sha256Hex id now server sshKey) m.networks := by
  have hcolumn : (m.row sha256Hex id now server sshKey).allowedCidrs =
      m.payload.allowedCidrs.bind storedCidrs := allowedCidrs_mintToken ..
  have hnormalised := m.normalised
  have hnetworks : m.networks = m.entered.bind v6.networksOf := rfl
  cases hentered : m.entered with
  | none =>
    rw [hentered, Option.bind_none] at hnetworks
    rw [hentered, IPv6Library.validateCidrs, Option.some.injEq] at hnormalised
    rw [hnetworks, RowBound, hcolumn, ← hnormalised, Option.bind_none]
  | some values =>
    rw [hentered, Option.bind_some] at hnetworks
    rw [hentered, IPv6Library.validateCidrs] at hnormalised
    split at hnormalised
    · cases hnormalised
    · next hlength =>
      rw [not_or] at hlength
      obtain ⟨texts, htexts, hpayload⟩ := Option.map_eq_some_iff.mp hnormalised
      rw [IPv6Library.normalizeCidrs_eq hlib] at htexts
      obtain ⟨networks, hread, rfl⟩ := Option.map_eq_some_iff.mp htexts
      rw [hread] at hnetworks
      rw [hnetworks]
      refine ⟨networks_ne_nil hread hlength.1, IPv6Library.isNetwork_of_networksOf hlib hread,
        hplain networks hnetworks, ?_⟩
      rw [hcolumn, ← hpayload, Option.bind_some]

theorem bound_step (hlib : v6.Lawful) {c c' : Config Shared (Proc v6)} {e : ℕ × Action}
    (hc : Bound v6 c.shared) (hok : MintsPlain c e) (h : step sha256Hex c e = some c') :
    Bound v6 c'.shared := by
  obtain ⟨g', p', hstep, rfl⟩ := Config.step_eq_some.mp h
  have heffect := effect_of_procStep hc.ids hstep
  refine ⟨hc.ids.of_effect heffect, fun id row' hrow' ↦ ?_⟩
  rcases heffect.tokens id row' hrow' with
    ⟨row, hrow, hages, hentered⟩ | ⟨-, -, m, st, now, server, sshKey, hproc, rfl, hentered⟩
  · show RowBound v6 row' (g'.entered id)
    rw [hentered]
    exact (hc.rows id row hrow).of_ages hages
  · show RowBound v6 _ (g'.entered id)
    rw [hentered]
    exact rowBound_minted hlib m (hok m st hproc) id now server sshKey

/-! ## Requests whose token does not hold -/

/-- The state is reached from one without tokens, in a run that mints none for a network whose zone
has a comma. -/
def ReachedPlain (sha256Hex : String → String) (c : Config Shared (Proc v6)) : Prop :=
  ∃ c₀ es, Initial c₀ ∧ (∀ id, c₀.shared.tokens.get id = none) ∧
    Run.Meets (step sha256Hex) MintsPlain c₀ es ∧ Run.run (step sha256Hex) c₀ es = some c

/-- Networks were entered for the token, and the caller is in none of them. -/
def Elsewhere (v6 : IPv6Library) (g : Shared) (row : EnrollmentToken) (host : Option String) :
    Prop :=
  ∃ networks, g.entered row.id = some networks ∧ ∀ text addr, host = some text →
    v6.ipAddress text = some addr → ∀ n ∈ networks, n.contains addr.unmapped = false

/-- The token is missing, unknown, revoked, expired, used up, or bound to networks that the caller
is not in. -/
inductive TokenFails (v6 : IPv6Library) (g : Shared) (env : EnrollEnv) (call : EnrollCall) : Prop
  | missing (h : bearer call.authorization = none)
  | unknown {token : String} (htoken : bearer call.authorization = some token)
      (h : findToken env.lib g.tokens token = none)
  | found {token : String} {row : EnrollmentToken} (htoken : bearer call.authorization = some token)
      (hrow : findToken env.lib g.tokens token = some row)
      (h : row.revokedAt ≠ none ∨ row.expiresAt ≤ env.now ∨ row.maxUses ≤ row.useCount ∨
        Elsewhere v6 g row call.peer)

/-- A request that the limiter lets through, that can look up the token it has, and whose token does
not hold. -/
structure FailingCall (v6 : IPv6Library) (sha256Hex : String → String) (g : Shared)
    (env : EnrollEnv) (call : EnrollCall) : Prop where
  library : env.lib = v6.tokenLibrary sha256Hex
  limiter : env.limiter = .allowed
  lookup : (bearer call.authorization).isSome → env.fails .findToken = false
  token : TokenFails v6 g env call

variable {g : Shared} {env : EnrollEnv} {call : EnrollCall}

theorem sourceAllowed_of_elsewhere (hlib : v6.Lawful) (hbound : Bound v6 g)
    (hrow : g.tokens.get row.id = some row) {host : Option String}
    (h : Elsewhere v6 g row host) :
    sourceAllowed (v6.tokenLibrary sha256Hex) row host = some false := by
  obtain ⟨networks, hentered, hnone⟩ := h
  have hrowBound := hbound.rows row.id row hrow
  rw [hentered] at hrowBound
  rw [sourceAllowed_of_read_back (BoundTo.read_back hlib hrowBound sha256Hex),
    ipAddress_tokenLibrary, Option.some.injEq, Option.any_eq_false]
  intro addr haddr
  rw [List.any_eq_false]
  cases host with
  | none =>
    rw [Option.getD_none, ipAddress_empty hlib] at haddr
    cases haddr
  | some text =>
    intro n hn
    rw [hnone text addr rfl haddr n hn]
    exact Bool.false_ne_true

theorem tokenChecks_of_failing (hlib : v6.Lawful) (hbound : Bound v6 g)
    (h : FailingCall v6 sha256Hex g env call) :
    env.tokenChecks g.base.db call = .error rejectToken := by
  rcases h.token with hmissing | ⟨htoken, hunknown⟩ | @⟨token, row, htoken, hrow, hdead⟩
  · rw [EnrollEnv.tokenChecks, hmissing]
  · have hlookup := h.lookup (Option.isSome_of_eq_some htoken)
    rw [EnrollEnv.tokenChecks, htoken]
    simp only [EnrollEnv.attempt, hlookup, hunknown, bind, Except.bind, Bool.false_eq_true,
      if_false]
  · have hlookup := h.lookup (Option.isSome_of_eq_some htoken)
    rw [EnrollEnv.tokenChecks, htoken]
    simp only [EnrollEnv.attempt, hlookup, hrow, bind, Except.bind, Bool.false_eq_true, if_false]
    split
    · rfl
    · next hlive =>
      simp only [Bool.or_eq_true, decide_eq_true_eq, not_or, isExpired, Bool.not_eq_true,
        Option.isSome_eq_false_iff, Option.isNone_iff_eq_none] at hlive
      -- it is live, so that it is the networks
      have helsewhere : Elsewhere v6 g row call.peer := by
        rcases hdead with hrevoked | hexpired | hspent | helsewhere
        · exact absurd hlive.1.1 hrevoked
        · exact absurd hexpired hlive.1.2
        · exact absurd hspent hlive.2
        · exact helsewhere
      rw [h.library, sourceAllowed_of_elsewhere hlib hbound (get_of_findToken hrow) helsewhere]

/-- Every failure is the 401 of `_reject`. -/
theorem response_of_failing (hlib : v6.Lawful) (hbound : Bound v6 g)
    (h : FailingCall v6 sha256Hex g env call) :
    (env.enroll g.base.db call).response = .error rejectToken := by
  have htransaction : env.transaction g.base.db call = .error rejectToken := by
    rw [EnrollEnv.transaction, EnrollEnv.limit, h.limiter, EnrollEnv.redeem,
      tokenChecks_of_failing hlib hbound h]
    rfl
  rw [EnrollEnv.enroll, htransaction]

theorem bound_of_reachedPlain (hlib : v6.Lawful) {c : Config Shared (Proc v6)}
    (h : ReachedPlain sha256Hex c) : Bound v6 c.shared := by
  obtain ⟨c₀, es, hinit, hnone, hok, hrun⟩ := h
  refine Run.run_invariant (I := fun c ↦ Bound v6 c.shared) (fun _ _ _ ↦ bound_step hlib)
    ?_ hok hrun
  refine ⟨hinit.ids, fun id row hrow ↦ ?_⟩
  rw [hnone id] at hrow
  cases hrow

/-- **Token failures are indistinguishable**: two requests whose tokens do not hold, whatever else
they are, get the same answer. -/
theorem token_failures_look_alike (hlib : v6.Lawful) {c c' : Config Shared (Proc v6)}
    (h : ReachedPlain sha256Hex c) (h' : ReachedPlain sha256Hex c') {env env' : EnrollEnv}
    {call call' : EnrollCall} (hfails : FailingCall v6 sha256Hex c.shared env call)
    (hfails' : FailingCall v6 sha256Hex c'.shared env' call') :
    (env.enroll c.shared.base.db call).response =
      (env'.enroll c'.shared.base.db call').response := by
  rw [response_of_failing hlib (bound_of_reachedPlain hlib h) hfails,
    response_of_failing hlib (bound_of_reachedPlain hlib h') hfails']

end

/-! ## A token that cannot be checked -/

/-- The hub is ready, and there are no tokens. -/
def hubDb : Db where
  servers := joinDb.servers
  sshKeys := .singleton { id := 1, name := "deploy", createdAt := 0 }

/-- The body of a request that mints a token for these networks. -/
def mintPayload (texts : List String) : EnrollmentTokenCreate where
  serverId := 1
  sshKeyId := 1
  sshUsername := "deploy"
  allowedCidrs := some texts

theorem validated_eth0 :
    fullV6.validateCidrs (some ["2001:1db8:1111:2222:3333:4444:5555:6666%eth0"]) =
      some (mintPayload ["2001:1db8:1111:2222:3333:4444:5555:6666%eth0/128"]).allowedCidrs := by
  decide +kernel

theorem validated_comma :
    fullV6.validateCidrs (some ["2001:1db8:1111:2222:3333:4444:5555:6666%a,b"]) =
      some (mintPayload ["2001:1db8:1111:2222:3333:4444:5555:6666%a,b/128"]).allowedCidrs := by
  decide +kernel

/-- A super-admin mints the token `join-me` for one host in the zone `eth0`. -/
def mintEth0 : Mint fullV6 where
  ctx := exampleContext
  scope := getTenantScope ⟨.admin, .empty⟩
  token := "join-me"
  entered := some ["2001:1db8:1111:2222:3333:4444:5555:6666%eth0"]
  payload := mintPayload ["2001:1db8:1111:2222:3333:4444:5555:6666%eth0/128"]
  normalised := validated_eth0

/-- A super-admin mints the token `join-me` for one host in the zone `a,b`. -/
def mintComma : Mint fullV6 where
  ctx := exampleContext
  scope := getTenantScope ⟨.admin, .empty⟩
  token := "join-me"
  entered := some ["2001:1db8:1111:2222:3333:4444:5555:6666%a,b"]
  payload := mintPayload ["2001:1db8:1111:2222:3333:4444:5555:6666%a,b/128"]
  normalised := validated_comma

def mintStart (m : Mint fullV6) : Config Shared (Proc fullV6) where
  shared := { base := { db := hubDb }, clock := 0, nextTokenId := 1 }
  proc
    | 0 => some (.mint m .begun)
    | _ => none

theorem get_hubDb (id : ℕ) : hubDb.enrollmentTokens.get id = none := rfl

theorem idle_mintStart (m : Mint fullV6) : ∀ i, i ≠ 0 → (mintStart m).proc i = none
  | 0, h => absurd rfl h
  | _ + 1, _ => rfl

theorem initial_mintStart (m : Mint fullV6) : Initial (mintStart m) := by
  refine initial_of_one (p := .mint m .begun) trivial rfl (idle_mintStart m) (fun _ ↦ rfl)
    (fun _ ↦ rfl) fun id row hrow ↦ ?_
  have hnone : (mintStart m).shared.tokens.get id = none := get_hubDb id
  rw [hnone] at hrow
  cases hrow

def mintTrace : List (ℕ × Action) := [(0, .act .read), (0, .act .commit)]

/-- Surroundings in which nothing fails, with the networks of `fullV6`. -/
def enrollEnv : EnrollEnv := { joinEnv [] with lib := fullV6.tokenLibrary joinSha256Hex }

/-- A request without a token. -/
def anonymousCall : EnrollCall := { joinCall with authorization := none }

/-- The token is found, and the networks were entered for it. -/
def boundOnly (networks : List IPNetwork) (c : Config Shared (Proc fullV6)) : Bool :=
  (findToken enrollEnv.lib c.shared.tokens "join-me").any fun row ↦
    c.shared.entered row.id == some networks

/-- The status of an answer. -/
def statusOf : Except Rejection EnrollResponse → ℕ
  | .error rejection => rejection.status
  | .ok _ => 201

theorem failing_anonymous (g : Shared) :
    FailingCall fullV6 joinSha256Hex g enrollEnv anonymousCall :=
  ⟨rfl, rfl, fun _ ↦ rfl, .missing rfl⟩

/-- The host `web` is not the host that the token is for. -/
theorem failing_elsewhere {zone : String} {c : Config Shared (Proc fullV6)}
    (h : boundOnly [zonedNetwork zone] c = true) :
    FailingCall fullV6 joinSha256Hex c.shared enrollEnv joinCall := by
  obtain ⟨row, hrow, hentered⟩ := Option.any_eq_true .. |>.mp h
  have htoken : bearer joinCall.authorization = some "join-me" := by decide +kernel
  refine ⟨rfl, rfl, fun _ ↦ rfl, .found htoken hrow ?_⟩
  refine .inr (.inr (.inr ⟨_, eq_of_beq hentered, ?_⟩))
  intro text addr htext haddr n hn
  cases htext
  have hweb : fullV6.ipAddress "192.0.2.7" = some (.v4 0xc0000207) := by decide +kernel
  rw [hweb, Option.some.injEq] at haddr
  rw [List.mem_singleton.mp hn, ← haddr]
  rfl

theorem plainZones_mintEth0 : mintEth0.PlainZones := by
  intro networks hnetworks
  have hvalue : mintEth0.networks = some [zonedNetwork "eth0"] := by decide +kernel
  rw [hvalue, Option.some.injEq] at hnetworks
  rw [← hnetworks]
  decide

/-- A request that mints a token keeps its list. -/
theorem meets_mintsPlain {m : Mint fullV6} (hplain : m.PlainZones) :
    Run.Meets (step joinSha256Hex) MintsPlain (mintStart m) mintTrace := by
  have hfirst : ∀ m' st, (mintStart m).proc 0 = some (.mint m' st) → m'.PlainZones := by
    intro m' st h
    cases h
    exact hplain
  refine ⟨hfirst, fun c hc ↦ ⟨fun m' st h ↦ ?_, fun _ _ ↦ trivial⟩⟩
  obtain ⟨g', p', hstep, rfl⟩ := Config.step_eq_some.mp hc
  obtain ⟨⟨g₁, st'⟩, -, hpair⟩ := Option.map_eq_some_iff.mp hstep
  cases hpair
  cases h
  exact hplain

theorem token_failures_look_alike_eth0 :
    ∃ c : Config Shared (Proc fullV6),
      Run.run (step joinSha256Hex) (mintStart mintEth0) mintTrace = some c ∧
      (enrollEnv.enroll c.shared.base.db joinCall).response =
        (enrollEnv.enroll c.shared.base.db anonymousCall).response := by
  have hbound : (Run.run (step joinSha256Hex) (mintStart mintEth0) mintTrace).any
      (boundOnly [zonedNetwork "eth0"]) = true := by
    decide +kernel
  obtain ⟨c, hc, hbound⟩ := Option.any_eq_true .. |>.mp hbound
  have hreached : ReachedPlain joinSha256Hex c :=
    ⟨mintStart mintEth0, mintTrace, initial_mintStart mintEth0, get_hubDb,
      meets_mintsPlain plainZones_mintEth0, hc⟩
  exact ⟨c, hc, token_failures_look_alike fullV6_lawful hreached hreached (failing_elsewhere hbound)
    (failing_anonymous c.shared)⟩

/-- The token is found and its networks cannot be read: the caller sees a 500 and knows that there
is such a token. -/
theorem comma_token_shows :
    ∃ c : Config Shared (Proc fullV6), Initial (mintStart mintComma) ∧
      (∀ id, (mintStart mintComma).shared.tokens.get id = none) ∧
      Run.run (step joinSha256Hex) (mintStart mintComma) mintTrace = some c ∧
      FailingCall fullV6 joinSha256Hex c.shared enrollEnv joinCall ∧
      FailingCall fullV6 joinSha256Hex c.shared enrollEnv anonymousCall ∧
      (enrollEnv.enroll c.shared.base.db joinCall).response ≠
        (enrollEnv.enroll c.shared.base.db anonymousCall).response := by
  have hrun : (Run.run (step joinSha256Hex) (mintStart mintComma) mintTrace).any (fun c ↦
      boundOnly [zonedNetwork "a,b"] c &&
        statusOf (enrollEnv.enroll c.shared.base.db joinCall).response == 500 &&
        statusOf (enrollEnv.enroll c.shared.base.db anonymousCall).response == 401) = true := by
    decide +kernel
  obtain ⟨c, hc, hcheck⟩ := Option.any_eq_true .. |>.mp hrun
  simp only [Bool.and_eq_true, beq_iff_eq] at hcheck
  obtain ⟨⟨hbound, hraises⟩, hrejects⟩ := hcheck
  refine ⟨c, initial_mintStart mintComma, get_hubDb, hc, failing_elsewhere hbound,
    failing_anonymous c.shared, fun hsame ↦ ?_⟩
  rw [hsame, hrejects] at hraises
  cases hraises

end WgManager.TokenLife
