import WgManager.Ipaddress
import WgManager.Lib.PyBytes

/-!
# The PROXY protocol

`parse_header` of `proxy_protocol.py`: the header that an L4 proxy sends before the first byte of
its client, in the text form of version 1 or the binary form of version 2.  It is run on all bytes
received so far, and asks for more while they can still become a header.
-/

set_option autoImplicit false

namespace WgManager.ProxyProtocol

open PyBytes

/-- The host and the port of a client. -/
abbrev Client := String × ℕ

/-- `V1_PREFIX`, `PROXY` and a space. -/
def v1Prefix : Bytes := [80, 82, 79, 88, 89, 32]

/-- `V1_MAX_LEN`. -/
def v1MaxLen : ℕ := 107

/-- `V2_SIGNATURE`. -/
def v2Signature : Bytes := [13, 10, 13, 10, 0, 13, 10, 81, 85, 73, 84, 10]

/-- `_V2_HEADER_LEN`. -/
def v2HeaderLen : ℕ := 16

/-- `V2_MAX_BODY`. -/
def v2MaxBody : ℕ := 4096

/-- The part of Python that the headers rest on: the representation of a text in a message, and the
addresses of version 6 as numbers. -/
structure Library where
  repr : String → String
  /-- `IPv6Address(text)`; a zone after a percent sign is read and left out. -/
  parseV6 : String → Option ℕ
  /-- `str(IPv6Address(number))`. -/
  textV6 : ℕ → String

/-- `ipaddress.ip_address(text)`: version 4 is tried first. -/
def Library.ipAddress (lib : Library) (text : String) : Option IPAddress :=
  match IPv4Address.parse text.toList with
  | some a => some (.v4 a)
  | none => (lib.parseV6 text).map .v6

/-- `str(addr)`. -/
def Library.str (lib : Library) : IPAddress → String
  | .v4 a => IPv4Address.text a
  | .v6 a => lib.textV6 a

/-- `addr.version`. -/
def version : IPAddress → ℕ
  | .v4 _ => 4
  | .v6 _ => 6

/-- `buf.startswith(expected[: len(buf)])`: as far as they go, the bytes are the expected ones. -/
def startsLike (expected buf : Bytes) : Bool := buf.take expected.length == expected.take buf.length

/-- `buf.find(b"\r\n")`. -/
def findCrlf : Bytes → Option ℕ
  | [] => none
  | b :: rest =>
    if b = 13 ∧ rest.head? = some 10 then some 0 else (findCrlf rest).map (· + 1)

/-- What `parse_header` says: `none` when more bytes are needed, else the client, if there is one,
and the length of the header. -/
abbrev Parsed := Except String (Option (Option Client × ℕ))

section

variable (lib : Library)

/-! ## Version 1 -/

def badV1Address (text : String) : String :=
  let shown := lib.repr text
  s!"bad v1 address {shown}"

/-- `_v1_address`. -/
def v1Address (text : String) (v : ℕ) : Except String String :=
  match lib.ipAddress text with
  | none => .error (badV1Address lib text)
  | some addr =>
    if version addr ≠ v ∨ '%' ∈ text.toList then .error (badV1Address lib text)
    else .ok (lib.str addr)

def badV1Port (text : String) : String :=
  let shown := lib.repr text
  s!"bad v1 port {shown}"

/-- `_v1_port`: digits only, no leading zero, at most 65535. -/
def v1Port (text : String) : Except String ℕ :=
  match decimal text.toList with
  | none => .error (badV1Port lib text)
  | some port =>
    if (1 < text.toList.length ∧ text.toList.head? = some '0') ∨ 65535 < port then
      .error (badV1Port lib text)
    else .ok port

def malformedV1 (line : String) : String :=
  let shown := lib.repr (String.ofList (line.toList.take 64))
  s!"malformed v1 header: {shown}"

/-- The fields of a line: the client that it names. -/
def v1Client (line : String) : Except String (Option Client) :=
  match PyStr.splitOn ' ' line with
  | _ :: "UNKNOWN" :: _ => .ok none
  | [_, proto, src, dst, sport, dport] =>
    if proto = "TCP4" ∨ proto = "TCP6" then do
      let v := if proto = "TCP4" then 4 else 6
      let src ← v1Address lib src v
      let _ ← v1Address lib dst v
      let sport ← v1Port lib sport
      let _ ← v1Port lib dport
      .ok (some (src, sport))
    else .error (malformedV1 lib line)
  | _ => .error (malformedV1 lib line)

/-- `_parse_v1`. -/
def parseV1 (buf : Bytes) : Parsed :=
  if !startsLike v1Prefix buf then .error "bad v1 prefix"
  else match findCrlf (buf.take v1MaxLen) with
  | none =>
    if v1MaxLen ≤ buf.length then .error "v1 header longer than 107 bytes" else .ok none
  | some stop =>
    match decodeAscii (buf.take stop) with
    | none => .error "v1 header is not ASCII"
    | some line => do
      let client ← v1Client lib line
      .ok (some (client, stop + 2))

/-! ## Version 2 -/

/-- `_V2_ADDR`: the bytes of the address block and of one address, for TCP over either family. -/
def v2Addr (family : ℕ) : Option (ℕ × ℕ) :=
  if family = 0x11 then some (12, 4) else if family = 0x21 then some (36, 16) else none

/-- `f"{n:02x}"`, for a byte. -/
def hexByte (n : ℕ) : String :=
  String.ofList [Nat.digitChar (n / 16), Nat.digitChar (n % 16)]

/-- The checks on the fixed part of the header. -/
def v2Checks (verCmd family length : ℕ) : Except String Unit :=
  if verCmd / 16 ≠ 2 then .error s!"unsupported v2 version {verCmd / 16}"
  else if verCmd % 16 ≠ 0 ∧ verCmd % 16 ≠ 1 then .error s!"unsupported v2 command {verCmd % 16}"
  else if v2MaxBody < length then .error s!"v2 header body too long ({length} bytes)"
  else if verCmd % 16 = 1 ∧ family ≠ 0 then
    match v2Addr family with
    | none => .error ("unsupported v2 family 0x" ++ hexByte family)
    | some (needed, _) => if length < needed then .error "v2 address block too short" else .ok ()
  else .ok ()

/-- `str(ip_address(bytes))`. -/
def strOfBytes (bytes : Bytes) : String :=
  lib.str (if bytes.length = 4 then .v4 (ofBytes bytes) else .v6 (ofBytes bytes))

/-- The client that the address block names; `LOCAL` and `AF_UNSPEC` name none. -/
def v2Client (verCmd family : ℕ) (body : Bytes) : Option Client :=
  if verCmd % 16 = 0 ∨ family = 0 then none
  else (v2Addr family).map fun (_, addrLen) ↦
    (strOfBytes lib (body.take addrLen), ofBytes ((body.drop (2 * addrLen)).take 2))

/-- `_parse_v2`. -/
def parseV2 (buf : Bytes) : Parsed :=
  if !startsLike v2Signature buf then .error "bad v2 signature"
  else match buf.drop 12 with
  | verCmd :: family :: hi :: lo :: rest => do
    let length := ofBytes [hi, lo]
    v2Checks verCmd.toNat family.toNat length
    if rest.length < length then .ok none
    else .ok (some (v2Client lib verCmd.toNat family.toNat (rest.take length),
      v2HeaderLen + length))
  | _ => .ok none

/-- `parse_header`: the first byte tells the versions apart. -/
def parseHeader (buf : Bytes) : Parsed :=
  match buf with
  | [] => .ok none
  | b :: _ =>
    if b = 80 then parseV1 lib buf
    else if b = 13 then parseV2 lib buf
    else .error "connection does not start with a PROXY header"

end

end WgManager.ProxyProtocol
