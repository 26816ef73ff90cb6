import Mathlib.Data.Rat.Defs
import Mtbolt.Secrets.Table

/-!
# The heaviest clients of a secret

With `top_ips_per_secret` set, a worker keeps for each secret a small table of client addresses with
their open connections and bytes, and the statistics report the heaviest of them
(`net-tcp-rpc-ext-top-ips.c`).  A table has 64 entries.  A client that finds no entry of its own takes
an empty one, or the lightest one that is idle and stale; if there is none it is not recorded.

There are tables for 16 secrets, and 32 slots.
-/

namespace Mtbolt.Secrets

open Function List Option

/-! ### The tables -/

/-- `struct ip_volume_entry`. -/
structure IpVolumeEntry where
  addr : Addr
  connections : ℤ
  bytesIn : ℤ
  bytesOut : ℤ
  lastSeen : ℚ
  deriving DecidableEq, Repr

/-- `IP_VOLUME_TABLE_SIZE`. -/
def ipVolumeTableSize : ℕ := 64

/-- `IP_VOLUME_STALE_SEC`. -/
def ipVolumeStaleSec : ℚ := 5

/-- The entries of `ip_volume` at one index, below `ipVolumeTableSize`. -/
abbrev IpVolumeTable := ℕ → IpVolumeEntry

namespace IpVolumeEntry

/-- An entry of all zero bytes. -/
def zero : IpVolumeEntry := ⟨⟨0, 0⟩, 0, 0, 0, 0⟩

/-- An entry without an address. -/
def isEmpty (e : IpVolumeEntry) : Bool := e.addr.ip = 0 && e.addr.ipv6 = 0

def total (e : IpVolumeEntry) : ℤ := e.bytesIn + e.bytesOut

/-- The comparison of `ip_volume_lookup`. -/
def isFor (addr : Addr) (e : IpVolumeEntry) : Bool :=
  if addr.ip ≠ 0 then e.addr.ip = addr.ip
  else if addr.ipv6 ≠ 0 then e.addr.ip = 0 && e.addr.ipv6 = addr.ipv6 && e.addr.ipv6 ≠ 0
  else false

/-- An entry that may be recycled: idle, and not seen for a while. -/
def isStale (now : ℚ) (e : IpVolumeEntry) : Bool :=
  !(e.connections > 0) && !(e.lastSeen ≥ now - ipVolumeStaleSec)

end IpVolumeEntry

/-- The entry of a new client. -/
def IpVolumeEntry.new (now : ℚ) (addr : Addr) : IpVolumeEntry :=
  ⟨if addr.ip = 0 then ⟨0, addr.ipv6⟩ else ⟨addr.ip, 0⟩, 0, 0, 0, now⟩

/-- No count is negative. -/
structure IpVolumeEntry.Sound (e : IpVolumeEntry) : Prop where
  connections : 0 ≤ e.connections
  bytesIn : 0 ≤ e.bytesIn
  bytesOut : 0 ≤ e.bytesOut

variable {e : IpVolumeEntry} {i : ℕ} {t : IpVolumeTable}

theorem IpVolumeEntry.Sound.total (h : e.Sound) : 0 ≤ e.total := add_nonneg h.bytesIn h.bytesOut

variable {now : ℚ} {t : IpVolumeTable} {addr : Addr}

/-- There is an entry for the client, or one that it can take. -/
def HasRoom (now : ℚ) (addr : Addr) (t : IpVolumeTable) : Prop :=
  ∃ i < ipVolumeTableSize, (t i).isFor addr = true ∨ (t i).isEmpty = true ∨ (t i).isStale now = true

section Account

variable {topIps : ℤ} {volume : ℕ → IpVolumeTable}

end Account

section Report

variable {t : IpVolumeTable} {picked : List ℕ}

end Report

end Mtbolt.Secrets
