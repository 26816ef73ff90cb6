import Mtbolt.Lib.BloomFilter
import Mtbolt.Lib.EventRun
import Mtbolt.Secrets.ReloadSpec
import Mtbolt.Secrets.TopIps

/-!
# What a slot keeps of the secret before

A slot that is released and given to another secret should start without a history.  What belongs to
a slot is spread over several files: the counters and tracked addresses, the Bloom filter for unique
addresses (`net-tcp-rpc-ext-uniq-bloom.c`), the table of ClientHello fingerprints (`net-ja4.c`) and
the table of the heaviest clients (`net-tcp-rpc-ext-top-ips.c`).  `tcp_rpcs_ip_track_clear_slot`, which
both the release and the allocation of a slot call, clears all but the last.  And that table exists
for the first 16 slots only.
-/

namespace Mtbolt.Secrets

open EventRun Function List

/-! ### The filter for unique addresses -/

/-- `BLOOM_MASK`. -/
def bloomMask : BitVec 32 := 0xffff#32

/-- The bits of `uniq_bloom` at one index, of which the source has the first 65536. -/
abbrev UniqBloom := BitVec 32 → Bool

/-- The bits for an address. -/
def bloomHashes (addr : Addr) : List (BitVec 32) :=
  if addr.ip ≠ 0 then
    let x := BitVec.ofNat 32 addr.ip
    [(x * 2654435761#32) &&& bloomMask, (x * 40503#32 + 0x9e3779b9#32) &&& bloomMask,
      ((x ^^^ (x >>> 16)) * 0x85ebca6b#32) &&& bloomMask,
      ((x ^^^ (x >>> 13)) * 0xc2b2ae35#32) &&& bloomMask]
  else
    let a := BitVec.ofNat 32 (addr.ipv6 >>> 96)
    let b := BitVec.ofNat 32 (addr.ipv6 >>> 64)
    let c := BitVec.ofNat 32 (addr.ipv6 >>> 32)
    let d := BitVec.ofNat 32 addr.ipv6
    [(a ^^^ (b * 2654435761#32)) &&& bloomMask, (b ^^^ (c * 40503#32)) &&& bloomMask,
      (c ^^^ (d * 0x85ebca6b#32)) &&& bloomMask, (d ^^^ (a * 0xc2b2ae35#32)) &&& bloomMask]

/-- `uniq_bloom_test_and_set`: whether some bit was not set, and the filter with all of them. -/
def uniqBloomTestAndSet (bloom : UniqBloom) (addr : Addr) : Bool × UniqBloom :=
  BloomFilter.testAndSet bloom (bloomHashes addr)

theorem lt_of_mem_bloomHashes {addr : Addr} {bit : BitVec 32} (h : bit ∈ bloomHashes addr) :
    bit.toNat < 65536 := by
  have hmask (x : BitVec 32) : (x &&& bloomMask).toNat < 65536 :=
    Nat.lt_succ_of_le Nat.and_le_right
  unfold bloomHashes at h
  dsimp only at h
  split_ifs at h <;> simp only [mem_cons, not_mem_nil, or_false] at h <;>
    rcases h with rfl | rfl | rfl | rfl <;> exact hmask _

/-! ### The fingerprints of a secret -/

variable {s : ℕ} {st : StatsState} {topIps : ℤ}

variable {e : StatsEvent} {t : SecretTable} {es : List StatsEvent}

/-- A client with an address. -/
def sampleClient : Addr := ⟨0x0a000001, 0⟩

end Mtbolt.Secrets
