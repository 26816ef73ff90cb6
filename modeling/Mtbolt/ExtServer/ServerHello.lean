import Mtbolt.Lib.Buffer
import Mtbolt.Net.TlsParse

/-!
# The ServerHello of the Fake-TLS handshake

At the start `update_domain_info` probes the backend of a domain twenty times and notes how its
ServerHello looks: the order of the extensions and the total size of the encrypted records.  A
ClientHello that is accepted later is answered by `tcp_rpcs_compact_parse_execute` with a
ServerHello that looks the same, with random bytes in one encrypted record.
-/

namespace Mtbolt.ExtServer

open Net Buffer List Option

/-! ### The probe -/

/-- What is random in an answer: the number that `rand` returns, the bytes of `RAND_bytes`, the bytes
that `generate_public_key` has written once it returns (any 32; its assertions are in `ProbeRequest`),
and what the memory holds that `malloc` returns. -/
structure HelloRandom where
  rand : ℕ
  mlkem : ℕ → UInt8
  publicKey : ℕ → UInt8
  encrypted : ℕ → UInt8
  heap : ℕ → UInt8

/-- The first `n` random bytes. -/
def takeBytes (bytes : ℕ → UInt8) (n : ℕ) : List UInt8 := (List.range n).map bytes

section Answer

variable (sha256Hmac : List UInt8 → List UInt8 → List UInt8)

end Answer

/-! ### The answer by its parts -/

/-- The key share of an answer. -/
def keyShare (useMlkem : Bool) (r : HelloRandom) : List UInt8 :=
  if useMlkem then [0x11, 0xec, 0x04, 0x60] ++ (takeBytes r.mlkem 1088 ++ takeBytes r.publicKey 32)
  else [0x00, 0x1d, 0x00, 0x20] ++ takeBytes r.publicKey 32

variable {cipher : UInt8} {responseSize : ℤ} {ids : List ℕ} {size : ℕ}

section Writes

variable {p buf sessionId : List UInt8} {n pos : ℕ} (useMlkem : Bool) (r : HelloRandom)

end Writes

section Response

variable {info : DomainInfo} {r : HelloRandom} {useMlkem : Bool} {sessionId buffer : List UInt8}
  {size : ℕ}

end Response

section RoundTrip

variable {sha256Hmac : List UInt8 → List UInt8 → List UInt8} {key clientHello : List UInt8}
  {info : DomainInfo} {r : HelloRandom} {cipher : UInt8}

end RoundTrip

/-! ### The sizes of the probe -/

section Probes

variable {probes : List Probe} {results : List (Bool × ℕ)}

end Probes

end Mtbolt.ExtServer
