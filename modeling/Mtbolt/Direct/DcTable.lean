import Mathlib.Tactic

/-!
# The addresses of the data centres

`mtproto-dc-table.c` has two built-in tables of data centres and a table of overrides.  In direct
mode the id that a client asks for is looked up there (`direct_connect_to_dc`), and the addresses of
the entry are tried in turn.  Through a SOCKS5 proxy the address only goes into the CONNECT request,
which is sent when the proxy has answered: `socks5_send_connect` looks the entry up once more, from
the id and the index of the address that the connection has kept.  The id that is kept is that of
the entry, without the offsets of test and CDN data centres.

Ids are integers here.  In the source `-dc_id` wraps at `INT_MIN`, but a received id is a 16-bit
number.  What `direct_connect_to_dc` leaves in `c->extra` when it fails is in `Direct.Session`.
-/

namespace Mtbolt.Direct.DcTable

open Option

/-! ### The tables -/

/-- `struct dc_addr`, with the bytes of the addresses in network order. -/
structure DcAddr where
  ipv4 : Vector UInt8 4
  ipv6 : Vector UInt8 16
  port : ℤ
  deriving DecidableEq, Repr

/-- `struct dc_entry`, with the first `addr_count` addresses. -/
structure DcEntry where
  dcId : ℤ
  addrs : List DcAddr
  deriving DecidableEq, Repr

/-- An address that is not available. -/
def zeroIpv4 : Vector UInt8 4 := #v[0, 0, 0, 0]

/-- `zero_ipv6`. -/
def zeroIpv6 : Vector UInt8 16 := Vector.replicate 16 0

/-- `(in_addr_t) -1`. -/
def inaddrNone : Vector UInt8 4 := #v[255, 255, 255, 255]

/-- `DC_MAX_ADDRS`. -/
def dcMaxAddrs : ℕ := 4

/-- `MAX_OVERRIDES`. -/
def maxOverrides : ℕ := 16

/-- `prod_table`. -/
def prodTable : List DcEntry :=
  [⟨1, [⟨#v[149, 154, 175, 50],
      #v[0x20, 0x01, 0x0b, 0x28, 0xf2, 0x3d, 0xf0, 0x01, 0, 0, 0, 0, 0, 0, 0, 0x0a], 443⟩]⟩,
    ⟨2, [⟨#v[149, 154, 167, 51],
      #v[0x20, 0x01, 0x06, 0x7c, 0x04, 0xe8, 0xf0, 0x02, 0, 0, 0, 0, 0, 0, 0, 0x0a], 443⟩]⟩,
    ⟨3, [⟨#v[149, 154, 175, 100],
      #v[0x20, 0x01, 0x0b, 0x28, 0xf2, 0x3d, 0xf0, 0x03, 0, 0, 0, 0, 0, 0, 0, 0x0a], 443⟩]⟩,
    ⟨4, [⟨#v[149, 154, 167, 91],
      #v[0x20, 0x01, 0x06, 0x7c, 0x04, 0xe8, 0xf0, 0x04, 0, 0, 0, 0, 0, 0, 0, 0x0a], 443⟩]⟩,
    ⟨5, [⟨#v[91, 108, 56, 100],
      #v[0x20, 0x01, 0x0b, 0x28, 0xf2, 0x3f, 0xf0, 0x05, 0, 0, 0, 0, 0, 0, 0, 0x0a], 443⟩]⟩]

/-- `test_table`. -/
def testTable : List DcEntry :=
  [⟨1, [⟨#v[149, 154, 175, 10],
      #v[0x20, 0x01, 0x0b, 0x28, 0xf2, 0x3d, 0xf0, 0x01, 0, 0, 0, 0, 0, 0, 0, 0x0e], 443⟩]⟩,
    ⟨2, [⟨#v[149, 154, 167, 40],
      #v[0x20, 0x01, 0x06, 0x7c, 0x04, 0xe8, 0xf0, 0x02, 0, 0, 0, 0, 0, 0, 0, 0x0e], 443⟩]⟩,
    ⟨3, [⟨#v[149, 154, 175, 117],
      #v[0x20, 0x01, 0x0b, 0x28, 0xf2, 0x3d, 0xf0, 0x03, 0, 0, 0, 0, 0, 0, 0, 0x0e], 443⟩]⟩]

/-- A pointer to an entry of one of the tables. -/
inductive DcRef
  | override (i : ℕ)
  | test (i : ℕ)
  | prod (i : ℕ)
  deriving DecidableEq, Repr

/-- The entry behind the pointer; `ov` is `override_table` up to `override_count`. -/
def DcRef.entry (ov : List DcEntry) : DcRef → Option DcEntry
  | .override i => ov[i]?
  | .test i => testTable[i]?
  | .prod i => prodTable[i]?

/-- The loops of the lookups. -/
def findEntry (table : List DcEntry) (dcId : ℤ) : Option ℕ :=
  table.findIdx? fun e => e.dcId = dcId

/-- The id without the sign and the offset of test data centres. -/
def stripTest (dcId : ℤ) : ℤ := if |dcId| ≥ 10000 then |dcId| - 10000 else |dcId|

/-- The id without the offset of CDN data centres. -/
def stripCdn (dcId : ℤ) : ℤ := if dcId > 200 ∧ dcId < 300 then dcId - 200 else dcId

/-- `direct_dc_lookup`. -/
def directDcLookup (ov : List DcEntry) (dcId : ℤ) : Option DcRef :=
  match findEntry ov (stripTest dcId) with
  | some i => some (.override i)
  | none =>
    if |dcId| ≥ 10000 then (findEntry testTable (stripCdn (stripTest dcId))).map .test
    else (findEntry prodTable (stripCdn (stripTest dcId))).map .prod

/-- `inet_pton` for IPv6, and `inet_addr`, which returns `INADDR_NONE` for what is no address. -/
structure InetHost where
  inetPton6 : String → Option (Vector UInt8 16)
  inetAddr : String → Vector UInt8 4

/-- The address that `direct_dc_override` adds. -/
def overrideAddr (r : InetHost) (host : String) (port : ℤ) : Option DcAddr :=
  match r.inetPton6 host with
  | some ipv6 => some ⟨zeroIpv4, ipv6, port⟩
  | none => if r.inetAddr host = inaddrNone then none else some ⟨r.inetAddr host, zeroIpv6, port⟩

/-- The end of `direct_dc_override` for the entry `i`.  An address that cannot be read leaves the
entry as it is. -/
def addAddr (r : InetHost) (ov : List DcEntry) (i : ℕ) (host : String) (port : ℤ) :
    List DcEntry :=
  ov.modify i fun e =>
    if e.addrs.length ≥ dcMaxAddrs then e
    else { e with addrs := e.addrs ++ (overrideAddr r host port).toList }

/-- `direct_dc_override`, without its return value.  The entry is made before the address is
read. -/
def directDcOverride (r : InetHost) (ov : List DcEntry) (dcId : ℤ) (host : String) (port : ℤ) :
    List DcEntry :=
  match findEntry ov dcId with
  | some i => addAddr r ov i host port
  | none =>
    if ov.length ≥ maxOverrides then ov
    else addAddr r (ov ++ [⟨dcId, []⟩]) ov.length host port

/-- The table after the given calls of `direct_dc_override`. -/
def overrideTable (r : InetHost) (calls : List (ℤ × String × ℤ)) : List DcEntry :=
  calls.foldl (fun ov c => directDcOverride r ov c.1 c.2.1 c.2.2) []

/-! ### Connecting -/

/-- `use_ipv6`, as `direct_try_dc_addrs` and `socks5_send_connect` compute it. -/
def DcAddr.useIpv6 (ipv6Enabled : Bool) (a : DcAddr) : Bool := ipv6Enabled && a.ipv6 ≠ zeroIpv6

/-- Where a connection goes. -/
structure Destination where
  ipv6 : Bool
  addr : List UInt8
  port : ℕ
  deriving DecidableEq, Repr

/-- What `client_socket` and `client_socket_ipv6` connect to when there is no SOCKS5 proxy. -/
def DcAddr.destination (ipv6Enabled : Bool) (a : DcAddr) : Destination where
  ipv6 := a.useIpv6 ipv6Enabled
  addr := if a.useIpv6 ipv6Enabled then a.ipv6.toList else a.ipv4.toList
  port := (a.port % 65536).toNat

/-- `direct_try_dc_addrs`: the index of the address that is taken.  `dialled` says for which of them
a socket and a connection can be made, to the address itself or to the SOCKS5 proxy. -/
def directTryDcAddrs (ipv6Enabled : Bool) (dialled : ℕ → Bool) (e : DcEntry) : Option ℕ :=
  (List.range e.addrs.length).find? fun i =>
    (e.addrs[i]?).any fun a => (a.useIpv6 ipv6Enabled || a.ipv4 ≠ zeroIpv4) && dialled i

/-- The connection that `direct_connect_to_dc` and `direct_retry_dc_connection` make: the entry and
the index of its address, and the id that is kept in `extra_int4`.  The index is kept in
`extra_int2`. -/
structure DcLink where
  dc : DcRef
  extraInt2 : ℕ
  extraInt4 : ℤ
  deriving DecidableEq, Repr

/-- The start of a connection for the id `targetDc`. -/
def directConnectToDc (ov : List DcEntry) (ipv6Enabled : Bool) (dialled : ℕ → Bool)
    (targetDc : ℤ) : Option DcLink := do
  let dc ← directDcLookup ov targetDc
  let e ← dc.entry ov
  let i ← directTryDcAddrs ipv6Enabled dialled e
  return ⟨dc, i, (if targetDc < 0 then -1 else 1) * e.dcId⟩

/-- The destination of the connection without a SOCKS5 proxy. -/
def DcLink.destination (ov : List DcEntry) (ipv6Enabled : Bool) (l : DcLink) :
    Option Destination := do
  let e ← l.dc.entry ov
  let a ← e.addrs[l.extraInt2]?
  return a.destination ipv6Enabled

/-! ### The CONNECT request -/

/-- The address entry of `socks5_send_connect`, as entry and index; `none` when its assertion
fails. -/
def socks5Addr (ov : List DcEntry) (extraInt4 : ℤ) (extraInt2 : ℕ) : Option (DcRef × ℕ) := do
  let dc ← directDcLookup ov extraInt4
  let e ← dc.entry ov
  if extraInt2 < e.addrs.length then some (dc, extraInt2) else none

/-- The request for an address. -/
def connectRequest (ipv6Enabled : Bool) (a : DcAddr) : List UInt8 :=
  let port := [UInt8.ofNat (a.port / 256 % 256).toNat, UInt8.ofNat (a.port % 256).toNat]
  if a.useIpv6 ipv6Enabled then [5, 1, 0, 4] ++ a.ipv6.toList ++ port
  else [5, 1, 0, 1] ++ a.ipv4.toList ++ port

/-- `socks5_send_connect`; `none` when its assertion fails. -/
def socks5SendConnect (ov : List DcEntry) (ipv6Enabled : Bool) (extraInt4 : ℤ) (extraInt2 : ℕ) :
    Option (List UInt8) := do
  let p ← socks5Addr ov extraInt4 extraInt2
  let e ← p.1.entry ov
  let a ← e.addrs[p.2]?
  return connectRequest ipv6Enabled a

/-- The destination that a CONNECT request names, by the SOCKS5 format. -/
def namedDestination : List UInt8 → Option Destination
  | 5 :: 1 :: 0 :: atyp :: rest =>
    let port (n : ℕ) := 256 * (rest.getD n 0).toNat + (rest.getD (n + 1) 0).toNat
    if atyp = 1 ∧ rest.length = 6 then some ⟨false, rest.take 4, port 4⟩
    else if atyp = 4 ∧ rest.length = 18 then some ⟨true, rest.take 16, port 16⟩
    else none
  | _ => none

theorem namedDestination_connectRequest (ipv6Enabled : Bool) (a : DcAddr) :
    namedDestination (connectRequest ipv6Enabled a) = some (a.destination ipv6Enabled) := by
  have hport : 256 * (UInt8.ofNat (a.port / 256 % 256).toNat).toNat +
      (UInt8.ofNat (a.port % 256).toNat).toNat = (a.port % 65536).toNat := by
    rw [UInt8.toNat_ofNat', UInt8.toNat_ofNat']
    omega
  unfold connectRequest DcAddr.destination
  rw [← hport]
  split_ifs with huse
  · have hlen : a.ipv6.toList.length = 16 := Vector.length_toList
    simp [namedDestination, List.getD, huse, hlen]
  · have hlen : a.ipv4.toList.length = 4 := Vector.length_toList
    simp [namedDestination, List.getD, huse, hlen]

/-! ### The two lookups -/

section Lookup

variable {ov : List DcEntry} {dcId : ℤ} {p : DcRef} {e : DcEntry}

/-- The id has an override. -/
def Overridden (ov : List DcEntry) (dcId : ℤ) : Prop := (findEntry ov dcId).isSome = true

instance (ov : List DcEntry) (dcId : ℤ) : Decidable (Overridden ov dcId) :=
  inferInstanceAs (Decidable (_ = true))

variable {i : ℕ} {target : ℤ} {ipv6Enabled : Bool} {dialled : ℕ → Bool}

theorem dcId_of_findEntry {table : List DcEntry} (h : findEntry table dcId = some i)
    (he : table[i]? = some e) : e.dcId = dcId := by
  obtain ⟨hlt, hid, -⟩ := List.findIdx?_eq_some_iff_getElem.1 h
  rw [List.getElem?_eq_getElem hlt] at he
  obtain rfl := some.inj he
  simpa using hid

theorem directDcLookup_cases (h : directDcLookup ov dcId = some p) (he : p.entry ov = some e) :
    (Overridden ov (stripTest dcId) ∧ e.dcId = stripTest dcId ∧
        ∃ i, p = .override i ∧ findEntry ov (stripTest dcId) = some i) ∨
      (¬ Overridden ov (stripTest dcId) ∧ e.dcId = stripCdn (stripTest dcId) ∧
        ((|dcId| ≥ 10000 ∧ ∃ i, p = .test i) ∨
          (|dcId| < 10000 ∧ ∃ i, p = .prod i ∧ findEntry prodTable e.dcId = some i))) := by
  unfold directDcLookup at h
  cases hfind : findEntry ov (stripTest dcId) with
  | some i =>
    rw [hfind] at h
    obtain rfl := some.inj h
    exact .inl ⟨by simp [Overridden, hfind], dcId_of_findEntry hfind he, i, rfl, rfl⟩
  | none =>
    rw [hfind] at h
    refine .inr ⟨by simp [Overridden, hfind], ?_⟩
    split_ifs at h with htest
    · obtain ⟨i, hi, rfl⟩ := map_eq_some_iff.1 h
      exact ⟨dcId_of_findEntry hi he, .inl ⟨htest, i, rfl⟩⟩
    · obtain ⟨i, hi, rfl⟩ := map_eq_some_iff.1 h
      have hid := dcId_of_findEntry hi he
      exact ⟨hid, .inr ⟨not_le.1 htest, i, rfl, by rw [hid, hi]⟩⟩

theorem dcId_prodTable (h : findEntry prodTable dcId = some i) : 1 ≤ dcId ∧ dcId ≤ 5 := by
  obtain ⟨hlt, hid, -⟩ := List.findIdx?_eq_some_iff_getElem.1 h
  have hall : ∀ e ∈ prodTable, 1 ≤ e.dcId ∧ e.dcId ≤ 5 := by decide
  have hmem := hall _ (List.getElem_mem hlt)
  rwa [show (prodTable[i]).dcId = dcId by simpa using hid] at hmem

theorem dcId_testTable (h : testTable[i]? = some e) : 1 ≤ e.dcId ∧ e.dcId ≤ 3 := by
  have hall : ∀ e ∈ testTable, 1 ≤ e.dcId ∧ e.dcId ≤ 3 := by decide
  exact hall e (List.mem_of_getElem? h)

theorem stripTest_nonneg (dcId : ℤ) : 0 ≤ stripTest dcId := by
  unfold stripTest
  have := abs_nonneg dcId
  split_ifs <;> omega

theorem abs_outbound (target : ℤ) {m : ℤ} (hm : 0 ≤ m) :
    |(if target < 0 then -1 else 1) * m| = m := by
  split_ifs
  · rw [neg_one_mul, abs_neg, abs_of_nonneg hm]
  · rw [one_mul, abs_of_nonneg hm]

theorem directDcLookup_of_lt {d m : ℤ} (hd : |d| = m) (hm : m < 10000) :
    directDcLookup ov d = match findEntry ov m with
      | some i => some (.override i)
      | none => (findEntry prodTable (stripCdn m)).map .prod := by
  have hnot : ¬ |d| ≥ 10000 := by omega
  unfold directDcLookup stripTest
  rw [if_neg hnot, if_neg hnot, hd]

/-- The id leads to the same entry when the offsets have been removed: it has an override of its
own, or it is no test id and the data centre behind it has no override. -/
def KeepsEntry (ov : List DcEntry) (target : ℤ) : Prop :=
  (Overridden ov (stripTest target) ∧ stripTest target < 10000) ∨
    (¬ Overridden ov (stripTest target) ∧ |target| < 10000 ∧
      ¬ Overridden ov (stripCdn (stripTest target)))

instance (ov : List DcEntry) (target : ℤ) : Decidable (KeepsEntry ov target) :=
  inferInstanceAs (Decidable (_ ∨ _))

/-- **The second lookup** finds the entry of the first one. -/
theorem directDcLookup_outbound_iff (h : directDcLookup ov target = some p)
    (he : p.entry ov = some e) :
    directDcLookup ov ((if target < 0 then -1 else 1) * e.dcId) = some p ↔ KeepsEntry ov target := by
  rcases directDcLookup_cases h he with ⟨hover, hid, i, rfl, hfind⟩ |
      ⟨hover, hid, ⟨htest, i, rfl⟩ | ⟨htest, i, rfl, hfind⟩⟩
  · have habs := abs_outbound target (stripTest_nonneg target)
    rw [← hid] at habs
    by_cases hlt : stripTest target < 10000
    · rw [directDcLookup_of_lt habs (hid ▸ hlt), hid, hfind]
      exact ⟨fun _ => .inl ⟨hover, hlt⟩, fun _ => rfl⟩
    · refine ⟨fun h2 => ?_, fun hkeeps => ?_⟩
      · -- the entry found now has another id
        rcases directDcLookup_cases h2 he with ⟨-, hid2, -⟩ | ⟨-, -, ⟨-, j, hj⟩ | ⟨-, j, hj, -⟩⟩
        · unfold stripTest at hid2
          omega
        · cases hj
        · cases hj
      · rcases hkeeps with ⟨-, hlt'⟩ | ⟨hnot, -⟩
        · exact absurd hlt' hlt
        · exact absurd hover hnot
  · -- a small id never leads to the table of test data centres
    have hsmall := dcId_testTable he
    have habs := abs_outbound target (m := e.dcId) (by omega)
    refine ⟨fun h2 => ?_, fun hkeeps => ?_⟩
    · rw [directDcLookup_of_lt habs (by omega)] at h2
      split at h2
      · cases h2
      · obtain ⟨j, -, hj⟩ := map_eq_some_iff.1 h2
        cases hj
    · rcases hkeeps with ⟨hover', -⟩ | ⟨-, hlt, -⟩
      · exact absurd hover' hover
      · omega
  · have hsmall := dcId_prodTable hfind
    have habs := abs_outbound target (m := e.dcId) (by omega)
    have hcdn : stripCdn e.dcId = e.dcId := if_neg (by omega)
    rw [directDcLookup_of_lt habs (by omega), hcdn, hfind]
    cases hbase : findEntry ov e.dcId with
    | some j =>
      refine ⟨fun h2 => (by cases h2), fun hkeeps => ?_⟩
      rcases hkeeps with ⟨hover', -⟩ | ⟨-, -, hnot⟩
      · exact absurd hover' hover
      · exact absurd (by simp [Overridden, ← hid, hbase]) hnot
    | none => exact ⟨fun _ => .inr ⟨hover, htest, by simp [Overridden, ← hid, hbase]⟩, fun _ => rfl⟩

end Lookup

theorem directConnectToDc_eq_some {ov : List DcEntry} {l : DcLink}
    (h : directConnectToDc ov ipv6Enabled dialled target = some l) :
    ∃ e, directDcLookup ov target = some l.dc ∧ l.dc.entry ov = some e ∧
      l.extraInt2 < e.addrs.length ∧ l.extraInt4 = (if target < 0 then -1 else 1) * e.dcId := by
  unfold directConnectToDc at h
  simp only [bind_eq_bind, bind_eq_some_iff, pure_def] at h
  obtain ⟨dc, hdc, e, he, i, hi, hl⟩ := h
  obtain rfl := some.inj hl
  exact ⟨e, hdc, he, List.mem_range.1 (List.mem_of_find?_eq_some hi), rfl⟩

/-- **The CONNECT request is for the address entry that was chosen**, and names the destination that
the connection would have had without the SOCKS5 proxy, exactly when the id keeps its entry.  This
is for every id of a client, every sequence of calls that set overrides, both settings of IPv6 and
every outcome of the attempts to connect. -/
theorem socks5_destination (r : InetHost) (calls : List (ℤ × String × ℤ)) (ipv6Enabled : Bool)
    (dialled : ℕ → Bool) (target : BitVec 16) (l : DcLink)
    (h : directConnectToDc (overrideTable r calls) ipv6Enabled dialled target.toInt = some l) :
    (socks5Addr (overrideTable r calls) l.extraInt4 l.extraInt2 = some (l.dc, l.extraInt2) ∧
      ∃ req, socks5SendConnect (overrideTable r calls) ipv6Enabled l.extraInt4 l.extraInt2 =
          some req ∧
        namedDestination req = l.destination (overrideTable r calls) ipv6Enabled) ↔
      KeepsEntry (overrideTable r calls) target.toInt := by
  generalize overrideTable r calls = ov at h ⊢
  obtain ⟨e, hdc, he, hlt, hkept⟩ := directConnectToDc_eq_some h
  rw [← directDcLookup_outbound_iff hdc he, ← hkept]
  constructor
  · rintro ⟨haddr, -⟩
    unfold socks5Addr at haddr
    simp only [bind_eq_bind, bind_eq_some_iff] at haddr
    obtain ⟨dc, hdc2, e2, -, hsome⟩ := haddr
    split_ifs at hsome
    rw [hdc2, (Prod.mk.inj (some.inj hsome)).1]
  · intro hsame
    have haddr : socks5Addr ov l.extraInt4 l.extraInt2 = some (l.dc, l.extraInt2) := by
      simp [socks5Addr, hsame, he, hlt]
    refine ⟨haddr, connectRequest ipv6Enabled (e.addrs.get ⟨_, hlt⟩), ?_, ?_⟩
    · simp [socks5SendConnect, haddr, he, hlt]
    · rw [namedDestination_connectRequest]
      simp [DcLink.destination, he, hlt]

/-- Every host is the IPv4 address `10.0.0.1`. -/
def sampleHost : InetHost := ⟨fun _ => none, fun _ => #v[10, 0, 0, 1]⟩

/-- A media connection to a CDN data centre with an override of its own. -/
theorem socks5_destination_cdn :
    ∃ l req, directConnectToDc (overrideTable sampleHost [(3, "a", 80), (203, "b", 8443)]) false
        (fun _ => true) (BitVec.ofInt 16 (-203)).toInt = some l ∧
      socks5SendConnect (overrideTable sampleHost [(3, "a", 80), (203, "b", 8443)]) false
        l.extraInt4 l.extraInt2 = some req ∧
      namedDestination req = l.destination
        (overrideTable sampleHost [(3, "a", 80), (203, "b", 8443)]) false := by
  have hlink : directConnectToDc (overrideTable sampleHost [(3, "a", 80), (203, "b", 8443)]) false
      (fun _ => true) (BitVec.ofInt 16 (-203)).toInt = some ⟨.override 1, 0, -203⟩ := by
    decide +kernel
  obtain ⟨-, req, hreq, hnamed⟩ := (socks5_destination sampleHost [(3, "a", 80), (203, "b", 8443)]
    false (fun _ => true) (BitVec.ofInt 16 (-203)) _ hlink).2 (by decide +kernel)
  exact ⟨_, req, hlink, hreq, hnamed⟩

/-- The test data centre `1` is at `149.154.175.10`, and the request names the production data
centre `1`.  For the CDN data centre `203` the second lookup finds the override of `3`, whose
address could not be read, and the assertion fails. -/
theorem socks5_destination_lost :
    (∃ l req, directConnectToDc [] false (fun _ => true) (10001#16).toInt = some l ∧
      l.destination [] false = some ⟨false, [149, 154, 175, 10], 443⟩ ∧
      socks5SendConnect [] false l.extraInt4 l.extraInt2 = some req ∧
      namedDestination req = some ⟨false, [149, 154, 175, 50], 443⟩) ∧
    ∃ l, directConnectToDc (overrideTable ⟨fun _ => none, fun _ => inaddrNone⟩ [(3, "?", 443)])
        false (fun _ => true) (203#16).toInt = some l ∧
      socks5SendConnect (overrideTable ⟨fun _ => none, fun _ => inaddrNone⟩ [(3, "?", 443)])
        false l.extraInt4 l.extraInt2 = none := by
  refine ⟨⟨⟨.test 0, 0, 1⟩, [5, 1, 0, 1, 149, 154, 175, 50, 1, 187], ?_⟩, ⟨.prod 2, 0, 3⟩, ?_⟩
  · decide +kernel
  · decide +kernel

end Mtbolt.Direct.DcTable
