import Mathlib.Data.PNat.Notation
import WgManager.Lib.Except
import WgManager.Lib.Incremental
import WgManager.ProxyProtocol

/-!
# Headers that arrive in pieces

`ProxyProtocolTLS.data_received` runs `parse_header` on everything received each time a piece of the
stream arrives.  What the parser has once said it says of every longer stream
(`parseHeader_stable`), and it asks for more only while there is little (`length_of_waiting`).  So
it makes no difference how the stream is cut, and what TLS is given is the stream without the header
(`header_however_cut`).
-/

set_option autoImplicit false

namespace WgManager.ProxyProtocol

open PyBytes

/-! ## The beginning -/

section

variable {expected buf more : Bytes}

theorem startsLike_iff :
    startsLike expected buf = true ↔ buf.take expected.length = expected.take buf.length := by
  rw [startsLike, beq_iff_eq]

/-- Bytes that do not start as expected do not come to. -/
theorem startsLike_of_append (h : startsLike expected (buf ++ more) = true) :
    startsLike expected buf = true := by
  rw [startsLike_iff] at h ⊢
  have hshort := congrArg (List.take buf.length) h
  rw [List.take_take, List.take_take, List.length_append] at hshort
  rw [Nat.min_eq_left (Nat.le_add_right _ _), Nat.min_comm, ← List.take_take,
    List.take_left] at hshort
  exact hshort

theorem startsLike_append_of_false (h : startsLike expected buf = false) :
    startsLike expected (buf ++ more) = false := by
  rw [← Bool.not_eq_true]
  intro htrue
  rw [startsLike_of_append htrue] at h
  cases h

/-- When all of it has been seen, more bytes change nothing. -/
theorem startsLike_append (hlen : expected.length ≤ buf.length) :
    startsLike expected (buf ++ more) = startsLike expected buf := by
  have hlong : expected.length ≤ (buf ++ more).length := by
    rw [List.length_append]
    omega
  rw [Bool.eq_iff_iff, startsLike_iff, startsLike_iff, List.take_append_of_le_length hlen,
    List.take_of_length_le hlong, List.take_of_length_le hlen]

/-- Fewer bytes than expected are the first of them. -/
theorem eq_take_of_startsLike (h : startsLike expected buf = true)
    (hlen : buf.length ≤ expected.length) : buf = expected.take buf.length := by
  rw [startsLike_iff, List.take_of_length_le hlen] at h
  exact h

end

/-! ## The end of a line -/

section

variable {buf more : Bytes} {stop : ℕ}

theorem findCrlf_spec (h : findCrlf buf = some stop) : stop + 2 ≤ buf.length ∧ 13 ∈ buf := by
  induction buf generalizing stop with
  | nil => exact absurd h.symm (Option.some_ne_none _)
  | cons b rest ih =>
    rw [findCrlf] at h
    split at h
    · next hcrlf =>
      cases h
      obtain ⟨rfl, hnext⟩ := hcrlf
      refine ⟨?_, List.mem_cons_self⟩
      cases rest with
      | nil => exact absurd hnext.symm (Option.some_ne_none _)
      | cons c rest => simp
    · obtain ⟨stop', hstop', rfl⟩ := Option.map_eq_some_iff.mp h
      obtain ⟨hlen, hmem⟩ := ih hstop'
      refine ⟨?_, List.mem_cons_of_mem b hmem⟩
      rw [List.length_cons]
      omega

theorem findCrlf_append (h : findCrlf buf = some stop) : findCrlf (buf ++ more) = some stop := by
  induction buf generalizing stop with
  | nil => exact absurd h.symm (Option.some_ne_none _)
  | cons b rest ih =>
    rw [findCrlf] at h
    rw [List.cons_append, findCrlf]
    split at h
    · next hcrlf =>
      cases h
      rw [if_pos]
      refine ⟨hcrlf.1, ?_⟩
      rw [List.head?_append, hcrlf.2]
      rfl
    · next hcrlf =>
      obtain ⟨stop', hstop', rfl⟩ := Option.map_eq_some_iff.mp h
      have hne : rest ≠ [] := by
        rintro rfl
        exact absurd hstop'.symm (Option.some_ne_none _)
      rw [if_neg, ih hstop', Option.map_some]
      rw [List.head?_append_of_ne_nil rest hne]
      exact hcrlf

end

/-! ## What the parsers say of longer streams -/

section

variable {lib : Library} {buf more : Bytes}

/-- A line that ends has all of the prefix. -/
theorem length_of_findCrlf {n stop : ℕ} (h : startsLike v1Prefix buf = true)
    (hstop : findCrlf (buf.take n) = some stop) : v1Prefix.length ≤ buf.length := by
  by_contra hshort
  have hmem : 13 ∈ buf := List.mem_of_mem_take (findCrlf_spec hstop).2
  rw [eq_take_of_startsLike h (by omega)] at hmem
  exact absurd (List.mem_of_mem_take hmem) (by decide)

theorem parseV1_stable (h : parseV1 lib buf ≠ .ok none) :
    parseV1 lib (buf ++ more) = parseV1 lib buf := by
  cases hstart : startsLike v1Prefix buf with
  | false =>
    rw [parseV1, parseV1, hstart, startsLike_append_of_false hstart]
    rfl
  | true =>
    rw [parseV1, hstart, if_neg (by decide)] at h
    cases hfind : findCrlf (buf.take v1MaxLen) with
    | none =>
      rw [hfind] at h
      dsimp only at h
      have hlen : v1MaxLen ≤ buf.length := by
        by_contra hshort
        rw [if_neg hshort] at h
        exact h rfl
      have hlength : v1Prefix.length ≤ buf.length := Nat.le_trans (by decide) hlen
      have hlen' : v1MaxLen ≤ (buf ++ more).length := by
        rw [List.length_append]
        omega
      rw [parseV1, parseV1, startsLike_append hlength, List.take_append_of_le_length hlen, hfind]
      dsimp only
      rw [if_pos hlen, if_pos hlen']
    | some stop =>
      have hlength := length_of_findCrlf hstart hfind
      have hstop : stop ≤ buf.length := by
        have hle := (findCrlf_spec hfind).1
        rw [List.length_take] at hle
        omega
      have hfind' : findCrlf ((buf ++ more).take v1MaxLen) = some stop := by
        rw [List.take_append]
        exact findCrlf_append hfind
      rw [parseV1, parseV1, startsLike_append hlength, hfind, hfind']
      dsimp only
      rw [List.take_append_of_le_length hstop]

/-- With the fixed part of the header there, the rest is looked at. -/
theorem parseV2_of_drop {verCmd family hi lo : UInt8} {rest : Bytes}
    (hstart : startsLike v2Signature buf = true)
    (hdrop : buf.drop 12 = verCmd :: family :: hi :: lo :: rest) :
    parseV2 lib buf = (do
      v2Checks verCmd.toNat family.toNat (ofBytes [hi, lo])
      if rest.length < ofBytes [hi, lo] then .ok none
      else .ok (some (v2Client lib verCmd.toNat family.toNat (rest.take (ofBytes [hi, lo])),
        v2HeaderLen + ofBytes [hi, lo]))) := by
  rw [parseV2, hstart, if_neg (by decide), hdrop]

theorem parseV2_short (hstart : startsLike v2Signature buf = true)
    (hlen : buf.length < v2HeaderLen) :
    parseV2 lib buf = .ok none := by
  have hdrop : (buf.drop 12).length < 4 := by
    rw [List.length_drop]
    have hfixed : v2HeaderLen = 16 := rfl
    omega
  rw [parseV2, hstart, if_neg (by decide)]
  split
  · next hfields =>
    rw [hfields] at hdrop
    simp only [List.length_cons] at hdrop
    omega
  · rfl

/-- The fixed part of the header, when it has been received. -/
theorem exists_v2_fields (hlen : v2HeaderLen ≤ buf.length) : ∃ verCmd family hi lo rest,
    buf.drop 12 = verCmd :: family :: hi :: lo :: rest ∧
      buf.length = v2HeaderLen + rest.length := by
  have hfixed : v2HeaderLen = 16 := rfl
  have hdrop : (buf.drop 12).length = buf.length - 12 := List.length_drop
  rcases hfields : buf.drop 12 with _ | ⟨verCmd, _ | ⟨family, _ | ⟨hi, _ | ⟨lo, rest⟩⟩⟩⟩
  all_goals
    rw [hfields] at hdrop
    simp only [List.length_nil, List.length_cons] at hdrop
  · omega
  · omega
  · omega
  · omega
  · exact ⟨verCmd, family, hi, lo, rest, rfl, by omega⟩

theorem parseV2_stable (h : parseV2 lib buf ≠ .ok none) :
    parseV2 lib (buf ++ more) = parseV2 lib buf := by
  cases hstart : startsLike v2Signature buf with
  | false =>
    rw [parseV2, parseV2, hstart, startsLike_append_of_false hstart]
    rfl
  | true =>
    have hlen : v2HeaderLen ≤ buf.length := by
      by_contra hshort
      exact h (parseV2_short hstart (Nat.not_le.mp hshort))
    have hsignature : v2Signature.length ≤ buf.length := Nat.le_trans (by decide) hlen
    obtain ⟨verCmd, family, hi, lo, rest, hfields, -⟩ := exists_v2_fields hlen
    have hfields' : (buf ++ more).drop 12 = verCmd :: family :: hi :: lo :: (rest ++ more) := by
      rw [List.drop_append_of_le_length (show 12 ≤ buf.length from hsignature), hfields]
      rfl
    have hstart' : startsLike v2Signature (buf ++ more) = true := by
      rw [startsLike_append hsignature, hstart]
    rw [parseV2_of_drop hstart hfields] at h ⊢
    rw [parseV2_of_drop hstart' hfields']
    cases hchecks : v2Checks verCmd.toNat family.toNat (ofBytes [hi, lo]) with
    | error message => rfl
    | ok _ =>
      have hrest : ofBytes [hi, lo] ≤ rest.length := by
        by_contra hshort
        rw [hchecks] at h
        exact h (if_pos (Nat.not_le.mp hshort))
      have hrest' : ofBytes [hi, lo] ≤ (rest ++ more).length := by
        rw [List.length_append]
        omega
      show (if _ then _ else _) = if _ then _ else _
      rw [if_neg (Nat.not_lt.mpr hrest), if_neg (Nat.not_lt.mpr hrest'),
        List.take_append_of_le_length hrest]

/-- **What has been said of a beginning is said of the stream.** -/
theorem parseHeader_stable (lib : Library) : Incremental.Stable (parseHeader lib) := by
  intro buf more h
  rcases buf with _ | ⟨b, buf⟩
  · exact absurd rfl h
  · rw [parseHeader] at h ⊢
    rw [List.cons_append, parseHeader]
    by_cases hv1 : b = 80
    · rw [if_pos hv1] at h ⊢
      rw [if_pos hv1]
      exact parseV1_stable h
    · rw [if_neg hv1] at h ⊢
      rw [if_neg hv1]
      by_cases hv2 : b = 13
      · rw [if_pos hv2] at h ⊢
        rw [if_pos hv2]
        exact parseV2_stable h
      · rw [if_neg hv2, if_neg hv2]

/-! ## How long it waits -/

theorem length_of_parseV1 (h : parseV1 lib buf = .ok none) : buf.length < v1MaxLen := by
  rw [parseV1] at h
  split at h
  · cases h
  · split at h
    · split at h
      · cases h
      · next hshort => exact Nat.not_le.mp hshort
    · split at h
      · cases h
      · next line _ =>
        obtain ⟨_, -, hnone⟩ := bind_eq_ok_iff.mp h
        cases hnone

/-- A header whose fixed part passes has a body that is not too long. -/
theorem length_of_v2Checks {verCmd family length : ℕ} {u : Unit}
    (h : v2Checks verCmd family length = .ok u) : length ≤ v2MaxBody := by
  rw [v2Checks] at h
  split at h
  · cases h
  · split at h
    · cases h
    · split at h
      · cases h
      · next hle => exact Nat.not_lt.mp hle

theorem length_of_parseV2 (h : parseV2 lib buf = .ok none) :
    buf.length < v2HeaderLen + v2MaxBody := by
  cases hstart : startsLike v2Signature buf with
  | false =>
    rw [parseV2, hstart] at h
    cases h
  | true =>
    by_cases hlen : buf.length < v2HeaderLen
    · omega
    · obtain ⟨verCmd, family, hi, lo, rest, hfields, hlength⟩ :=
        exists_v2_fields (Nat.not_lt.mp hlen)
      rw [parseV2_of_drop hstart hfields] at h
      obtain ⟨_, hchecks, h⟩ := bind_eq_ok_iff.mp h
      have hbody := length_of_v2Checks hchecks
      split at h
      · omega
      · cases h

/-- **It asks for more only while there is little.** -/
theorem length_of_waiting (h : parseHeader lib buf = .ok none) :
    (buf.head? = some 80 → buf.length < v1MaxLen) ∧ buf.length < v2HeaderLen + v2MaxBody := by
  rcases buf with _ | ⟨b, buf⟩
  · exact ⟨fun hnone ↦ absurd hnone.symm (Option.some_ne_none _), by decide⟩
  · rw [parseHeader] at h
    split at h
    · have hlen := length_of_parseV1 h
      have hle : v1MaxLen ≤ v2HeaderLen + v2MaxBody := by decide
      exact ⟨fun _ ↦ hlen, by omega⟩
    · next hv1 =>
      refine ⟨fun hhead ↦ absurd (Option.some.inj hhead) hv1, ?_⟩
      split at h
      · exact length_of_parseV2 h
      · cases h

/-- A header is no longer than what has been received. -/
theorem length_of_parsed {client : Option Client} {consumed : ℕ}
    (h : parseHeader lib buf = .ok (some (client, consumed))) : consumed ≤ buf.length := by
  rcases buf with _ | ⟨b, buf⟩
  · cases h
  · rw [parseHeader] at h
    split at h
    · rw [parseV1] at h
      split at h
      · cases h
      · split at h
        · split at h <;> cases h
        · next stop hstop =>
          split at h
          · cases h
          · obtain ⟨_, -, hparsed⟩ := bind_eq_ok_iff.mp h
            cases hparsed
            have hle := (findCrlf_spec hstop).1
            rw [List.length_take] at hle
            omega
    · split at h
      · cases hstart : startsLike v2Signature (b :: buf) with
        | false =>
          rw [parseV2, hstart] at h
          cases h
        | true =>
          by_cases hlen : (b :: buf).length < v2HeaderLen
          · rw [parseV2_short hstart hlen] at h
            cases h
          · obtain ⟨verCmd, family, hi, lo, rest, hfields, hlength⟩ :=
              exists_v2_fields (Nat.not_lt.mp hlen)
            rw [parseV2_of_drop hstart hfields] at h
            obtain ⟨_, -, hparsed⟩ := bind_eq_ok_iff.mp h
            split at hparsed
            · cases hparsed
            · cases hparsed
              omega
      · cases h

end

/-! ## The connection -/

/-- `view` is given to TLS in pieces that fit the buffers `tls.get_buffer` returns.  They are never
empty; `size` is how large they are, by turn and by what is asked for. -/
def feedTls (size : ℕ → ℕ → ℕ+) (turn : ℕ) (view : Bytes) : List Bytes :=
  if view = [] then []
  else
    let n := min (size turn view.length : ℕ) view.length
    view.take n :: feedTls size (turn + 1) (view.drop n)
termination_by view.length
decreasing_by
  have hpos : 0 < view.length := List.length_pos_iff.mpr ‹_›
  have hsize := (size turn view.length).property
  rw [List.length_drop]
  exact Nat.sub_lt hpos (Nat.lt_min.mpr ⟨hsize, hpos⟩)

/-- TLS gets all of it, in order. -/
theorem flatten_feedTls (size : ℕ → ℕ → ℕ+) (turn : ℕ) (view : Bytes) :
    (feedTls size turn view).flatten = view := by
  fun_induction feedTls size turn view with
  | case1 => rfl
  | case2 turn view hne n ih => rw [List.flatten_cons, ih, List.take_append_drop]

/-- What has become of a connection. -/
inductive Connection
  | waiting
  | dropped (reason : String)
  /-- TLS is started for the client, and given these bytes. -/
  | tls (client : Option Client) (given : List Bytes)

section

variable (lib : Library) (size : ℕ → ℕ → ℕ+)

/-- What `data_received` does about a header, given all bytes received so far. -/
def handle (parsed : Parsed) (buf : Bytes) : Connection :=
  match parsed with
  | .error reason => .dropped reason
  | .ok none => .waiting
  | .ok (some (client, consumed)) => .tls client (feedTls size 0 (buf.drop consumed))

/-- `data_received`, on what has been received before. -/
def dataReceived (buf data : Bytes) : Bytes × Connection :=
  let buf := buf ++ data
  (buf, handle size (parseHeader lib buf) buf)

/-- The pieces are received one by one until the connection stops waiting; the others are left. -/
def receive (buf : Bytes) : List Bytes → Connection × List Bytes
  | [] => (.waiting, [])
  | data :: rest =>
    match dataReceived lib size buf data with
    | (buf, .waiting) => receive buf rest
    | (_, connection) => (connection, rest)

/-- What a connection has come to, and all its bytes after the header, received or not. -/
inductive Comes (stream : Bytes) : Connection × List Bytes → Prop
  | waiting (h : parseHeader lib stream = .ok none) : Comes stream (.waiting, [])
  | dropped {reason : String} {rest : List Bytes} (h : parseHeader lib stream = .error reason) :
      Comes stream (.dropped reason, rest)
  | tls {client : Option Client} {consumed : ℕ} {given rest : List Bytes}
      (h : parseHeader lib stream = .ok (some (client, consumed)))
      (hbytes : given.flatten ++ rest.flatten = stream.drop consumed) :
      Comes stream (.tls client given, rest)

end

section

variable {lib : Library} {size : ℕ → ℕ → ℕ+}

theorem receive_eq (buf : Bytes) (pieces : List Bytes) :
    receive lib size buf pieces =
      let fed := Incremental.feed (parseHeader lib) buf pieces
      (handle size fed.result fed.buf, fed.rest) := by
  induction pieces generalizing buf with
  | nil => rfl
  | cons data rest ih =>
    rw [receive, dataReceived, Incremental.feed]
    rcases parseHeader lib (buf ++ data) with reason | _ | ⟨client, consumed⟩
    · rfl
    · exact ih (buf ++ data)
    · rfl

theorem comes_receive (lib : Library) (size : ℕ → ℕ → ℕ+) (pieces : List Bytes) :
    Comes lib pieces.flatten (receive lib size [] pieces) := by
  obtain ⟨hresult, hbuf, hbytes⟩ :=
    Incremental.feed_eq (parseHeader_stable lib) (show parseHeader lib [] = .ok none from rfl)
      pieces
  rw [List.nil_append] at hresult hbytes
  rw [receive_eq]
  have hrest : (Incremental.feed (parseHeader lib) [] pieces).result = .ok none → _ :=
    Incremental.rest_of_none pieces
  dsimp only
  generalize Incremental.feed (parseHeader lib) [] pieces = fed at hresult hbuf hbytes hrest
  obtain ⟨buf, result, rest⟩ := fed
  dsimp only at hresult hbuf hbytes hrest ⊢
  rcases result with reason | _ | ⟨client, consumed⟩
  · exact .dropped hresult.symm
  · rw [hrest rfl]
    exact .waiting hresult.symm
  · refine .tls hresult.symm ?_
    rw [flatten_feedTls, ← hbytes, List.drop_append_of_le_length (length_of_parsed hbuf.symm)]

/-- The two connections have come to the same. -/
def Same (r r' : Connection × List Bytes) : Prop :=
  match r, r' with
  | (.waiting, _), (.waiting, _) => True
  | (.dropped reason, _), (.dropped reason', _) => reason = reason'
  | (.tls client given, rest), (.tls client' given', rest') =>
    client = client' ∧ given.flatten ++ rest.flatten = given'.flatten ++ rest'.flatten
  | _, _ => False

/-- The stream decides what a connection comes to. -/
theorem Comes.same {stream : Bytes} {r r' : Connection × List Bytes} (h : Comes lib stream r)
    (h' : Comes lib stream r') : Same r r' := by
  cases h with
  | waiting h =>
    cases h' with
    | waiting h' => trivial
    | dropped h' => rw [h] at h'; cases h'
    | tls h' hbytes' => rw [h] at h'; cases h'
  | dropped h =>
    cases h' with
    | waiting h' => rw [h] at h'; cases h'
    | dropped h' => exact Except.error.inj (h.symm.trans h')
    | tls h' hbytes' => rw [h] at h'; cases h'
  | tls h hbytes =>
    cases h' with
    | waiting h' => rw [h] at h'; cases h'
    | dropped h' => rw [h] at h'; cases h'
    | tls h' hbytes' =>
      rw [h] at h'
      cases h'
      exact ⟨rfl, hbytes.trans hbytes'.symm⟩

/-- **The header, however the stream is cut.**

* The pieces come to the same as the whole stream at once.
* When TLS is started, what it is given and what is still to come are the stream without the header.
* A result or an error on a beginning of the stream stays.
* More bytes are asked for only while there are fewer than 107 of version 1 or 16 + 4096 of version
  2, so that no connection waits once there are that many. -/
theorem header_however_cut (lib : Library) (size size' : ℕ → ℕ → ℕ+) (pieces : List Bytes) :
    Same (receive lib size [] pieces) (receive lib size' [] [pieces.flatten]) ∧
    (∀ client given rest, receive lib size [] pieces = (.tls client given, rest) →
      ∃ consumed, parseHeader lib pieces.flatten = .ok (some (client, consumed)) ∧
        given.flatten ++ rest.flatten = pieces.flatten.drop consumed) ∧
    Incremental.Stable (parseHeader lib) ∧
    (∀ buf, parseHeader lib buf = .ok none →
      (buf.head? = some 80 → buf.length < v1MaxLen) ∧ buf.length < v2HeaderLen + v2MaxBody) ∧
    (v2HeaderLen + v2MaxBody ≤ pieces.flatten.length →
      (receive lib size [] pieces).1 ≠ .waiting) := by
  have hcomes := comes_receive lib size pieces
  refine ⟨?_, ?_, parseHeader_stable lib, fun buf ↦ length_of_waiting, ?_⟩
  · have hwhole := comes_receive lib size' [pieces.flatten]
    rw [List.flatten_singleton] at hwhole
    exact hcomes.same hwhole
  · intro client given rest hreceive
    rw [hreceive] at hcomes
    cases hcomes with
    | tls h hbytes => exact ⟨_, h, hbytes⟩
  · intro hlen hwaiting
    generalize receive lib size [] pieces = r at hcomes hwaiting
    cases hcomes with
    | waiting h =>
      have hshort := (length_of_waiting h).2
      omega
    | dropped h => cases hwaiting
    | tls h hbytes => cases hwaiting

end

end WgManager.ProxyProtocol
