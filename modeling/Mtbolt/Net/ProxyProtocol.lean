import Mtbolt.Lib.CString
import Mtbolt.Lib.Words

/-!
# The PROXY protocol header

`proxy_protocol_parse` (`net-proxy-protocol.c`) looks for a PROXY protocol header, version 1 (text)
or 2 (binary), at the start of the received bytes.  It asks for more bytes, refuses, or consumes
the header and reports the client's address.  The conversion of a textual address (`inet_pton`) is
a parameter.
-/

namespace Mtbolt.Net

open CString List Words

/-- `AF_INET`, `AF_INET6`, or `0` for a header without an address. -/
inductive AddrFamily
  | unknown
  | inet
  | inet6
  deriving DecidableEq, Repr

/-- `struct proxy_protocol_result`. -/
structure ProxyProtocolResult where
  family : AddrFamily
  srcIp : BitVec 32
  srcIpv6 : List UInt8
  srcPort : BitVec 16
  deriving DecidableEq, Repr

def ProxyProtocolResult.zero : ProxyProtocolResult := ⟨.unknown, 0, List.replicate 16 0, 0⟩

/-- The return value: `0`, `-1`, or the length of the header, which has then been skipped. -/
inductive ProxyProtocolVerdict
  | more
  | error
  | ok (headerLen : ℕ) (out : ProxyProtocolResult)
  deriving DecidableEq, Repr

/-! ### Version 1 -/

/-- The position of the first CR LF from offset 6 on. -/
def crlfPos (buf : List UInt8) : Option ℕ :=
  (List.range' 6 (buf.length - 1 - 6)).find? fun i => buf[i]? = some 13 && buf[i + 1]? = some 10

/-- `strchr (p, ' ')`: what is before the first blank, and what is after it. -/
def splitBlank (p : List UInt8) : Option (List UInt8 × List UInt8) :=
  match p.dropWhile (· ≠ 0x20) with
  | [] => none
  | _ :: rest => some (p.takeWhile (· ≠ 0x20), rest)

/-- `(unsigned short)atoi (p)`. -/
def atoiShort (p : List UInt8) : BitVec 16 := BitVec.ofInt 16 (atoi p)

/-- The fields after the family: source address, destination address, source port and destination
port, separated by blanks. -/
def v1Addresses (pton : InetPton) (family : AddrFamily) (p : List UInt8) :
    Option ProxyProtocolResult := do
  let (src, p) ← splitBlank p
  let out ←
    match family with
    | .inet => (pton.inet src).map fun ip => { ProxyProtocolResult.zero with srcIp := ip }
    | _ => (pton.inet6 src).map fun ip => { ProxyProtocolResult.zero with srcIpv6 := ip }
  let (_, p) ← splitBlank p
  let (port, _) ← splitBlank p
  return { out with family := family, srcPort := atoiShort port }

/-- `"UNKNOWN"`. -/
def unknownText : List UInt8 := [0x55, 0x4e, 0x4b, 0x4e, 0x4f, 0x57, 0x4e]

/-- `"TCP4 "`. -/
def tcp4Text : List UInt8 := [0x54, 0x43, 0x50, 0x34, 0x20]

/-- `"TCP6 "`. -/
def tcp6Text : List UInt8 := [0x54, 0x43, 0x50, 0x36, 0x20]

/-- `parse_v1`.  The text ends at the first NUL, which the CR is overwritten with. -/
def parseV1 (pton : InetPton) (inn : List UInt8) : ProxyProtocolVerdict :=
  if inn.length < 15 then .more
  else
    let buf := inn.take 108
    match crlfPos buf with
    | none => if buf.length ≥ 108 then .error else .more
    | some pos =>
      let p := ((buf.take pos).drop 6).takeWhile (· ≠ 0)
      if p.take 7 = unknownText then .ok (pos + 2) .zero
      else
        let fields :=
          if p.take 5 = tcp4Text then v1Addresses pton .inet (p.drop 5)
          else if p.take 5 = tcp6Text then v1Addresses pton .inet6 (p.drop 5)
          else none
        match fields with
        | none => .error
        | some out => .ok (pos + 2) out

/-! ### Version 2 -/

/-- The addresses of a version 2 header with the PROXY command. -/
def v2Addresses (inn : List UInt8) (fam addrLen : ℕ) : ProxyProtocolResult :=
  if fam = 1 ∧ addrLen ≥ 12 then
    { ProxyProtocolResult.zero with
      family := .inet
      srcIp := BitVec.ofNat 32 (be32 inn 16)
      srcPort := BitVec.ofNat 16 (be16 inn 24) }
  else if fam = 2 ∧ addrLen ≥ 36 then
    { ProxyProtocolResult.zero with
      family := .inet6
      srcIpv6 := (inn.drop 16).take 16
      srcPort := BitVec.ofNat 16 (be16 inn 48) }
  else .zero

/-- `parse_v2`. -/
def parseV2 (inn : List UInt8) : ProxyProtocolVerdict :=
  if inn.length < 16 then .more
  else
    let version := byteAt inn 12 / 16
    let command := byteAt inn 12 % 16
    if version ≠ 2 then .error
    else if command > 1 then .error
    else
      let addrLen := be16 inn 14
      if inn.length < 16 + addrLen then .more
      else if command = 0 then .ok (16 + addrLen) .zero
      else .ok (16 + addrLen) (v2Addresses inn (byteAt inn 13 / 16) addrLen)

/-! ### Both versions -/

/-- `"PROXY "`. -/
def proxyText : List UInt8 := [0x50, 0x52, 0x4f, 0x58, 0x59, 0x20]

/-- `pp2_signature`. -/
def pp2Signature : List UInt8 :=
  [0x0d, 0x0a, 0x0d, 0x0a, 0x00, 0x0d, 0x0a, 0x51, 0x55, 0x49, 0x54, 0x0a]

/-- `proxy_protocol_parse`. -/
def proxyProtocolParse (pton : InetPton) (inn : List UInt8) : ProxyProtocolVerdict :=
  if inn.length < 6 then .more
  else if inn.take 6 = proxyText then parseV1 pton inn
  else if inn.take 12 = pp2Signature then parseV2 inn
  else if inn.length < 12 then .more
  else .error

theorem crlfPos_lt {buf : List UInt8} {pos : ℕ} (h : crlfPos buf = some pos) :
    pos + 2 ≤ buf.length := by
  have hmem := mem_range'_1.1 (mem_of_find?_eq_some h)
  omega

/-- **An accepted header** is a nonempty part of the received bytes. -/
theorem length_proxyProtocolParse {pton : InetPton} {inn : List UInt8} {n : ℕ}
    {out : ProxyProtocolResult} (h : proxyProtocolParse pton inn = .ok n out) :
    0 < n ∧ n ≤ inn.length := by
  unfold proxyProtocolParse at h
  split_ifs at h with hshort hv1 hv2 hlen
  · unfold parseV1 at h
    split_ifs at h with hlen
    dsimp only at h
    cases hpos : crlfPos (inn.take 108) with
    | none =>
      rw [hpos] at h
      split_ifs at h
    | some pos =>
      have hlt := crlfPos_lt hpos
      rw [length_take] at hlt
      rw [hpos] at h
      dsimp only at h
      split at h
      · cases h
        omega
      · split at h
        · cases h
        · cases h
          omega
  · unfold parseV2 at h
    dsimp only at h
    split_ifs at h with hversion hcommand hmore hlocal
    · cases h
      omega
    · cases h
      omega

/-- `"1.2.3.4"`. -/
def sampleSource : List UInt8 := [0x31, 0x2e, 0x32, 0x2e, 0x33, 0x2e, 0x34]

/-- A conversion that knows one address. -/
def samplePton : InetPton :=
  ⟨fun s => if s = sampleSource then some 0x01020304#32 else none, fun _ => none⟩

/-- A text header, followed by one byte of the client. -/
example : proxyProtocolParse samplePton
    (proxyText ++ tcp4Text ++ sampleSource ++
      [0x20, 0x32, 0x20, 0x37, 0x37, 0x20, 0x39, 13, 10, 0xff]) =
      .ok 27 ⟨.inet, 0x01020304#32, List.replicate 16 0, 77⟩ := by decide

end Mtbolt.Net
