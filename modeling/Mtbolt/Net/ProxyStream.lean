import Mtbolt.Net.ProxyProtocol
import Mtbolt.Net.Reader

/-!
# A PROXY protocol header in pieces

The header may arrive in any number of reads.  `tcp_rpcs_compact_parse_execute`
(`net-tcp-rpc-ext-server.c`) calls `proxy_protocol_parse` on what has arrived so far until it gives
a verdict, and the reader's `skip_bytes` decides after which reads it is called at all.
-/

namespace Mtbolt.Net

open CString (InetPton)
open List Words

/-! ### The parser and the message -/

/-- `assert (rwm_skip_data (in, n) == n); return n`: the verdict and the message without the header;
`none` when the assertion fails. -/
def skipHeader (inn : List UInt8) (n : ℕ) (out : ProxyProtocolResult) :
    Option (ProxyProtocolVerdict × List UInt8) :=
  if (rwmSkipData inn n).1 = n then some (.ok n out, (rwmSkipData inn n).2) else none

/-- `parse_v1` with the message it leaves. -/
def parseV1In (pton : InetPton) (inn : List UInt8) : Option (ProxyProtocolVerdict × List UInt8) :=
  if inn.length < 15 then some (.more, inn)
  else
    let buf := rwmFetchLookup inn (min inn.length 108)
    match crlfPos buf with
    | none => some (if buf.length ≥ 108 then .error else .more, inn)
    | some pos =>
      let p := ((buf.take pos).drop 6).takeWhile (· ≠ 0)
      if p.take 7 = unknownText then skipHeader inn (pos + 2) .zero
      else
        let fields :=
          if p.take 5 = tcp4Text then v1Addresses pton .inet (p.drop 5)
          else if p.take 5 = tcp6Text then v1Addresses pton .inet6 (p.drop 5)
          else none
        match fields with
        | none => some (.error, inn)
        | some out => skipHeader inn (pos + 2) out

/-- The lookups of `parse_v2` behind the first 16 bytes, each with its assertion. -/
def v2Lookup (inn : List UInt8) (fam addrLen : ℕ) : Option ProxyProtocolResult :=
  if fam = 1 ∧ addrLen ≥ 12 then
    let full := rwmFetchLookup inn 28
    if full.length = 28 then some (v2Addresses full fam addrLen) else none
  else if fam = 2 ∧ addrLen ≥ 36 then
    let full := rwmFetchLookup inn 52
    if full.length = 52 then some (v2Addresses full fam addrLen) else none
  else some .zero

/-- `parse_v2` with the message it leaves. -/
def parseV2In (inn : List UInt8) : Option (ProxyProtocolVerdict × List UInt8) :=
  if inn.length < 16 then some (.more, inn)
  else
    let hdr := rwmFetchLookup inn 16
    if hdr.length = 16 then
      let version := byteAt hdr 12 / 16
      let command := byteAt hdr 12 % 16
      if version ≠ 2 then some (.error, inn)
      else if command > 1 then some (.error, inn)
      else
        let addrLen := be16 hdr 14
        if inn.length < 16 + addrLen then some (.more, inn)
        else if command = 0 then skipHeader inn (16 + addrLen) .zero
        else (v2Lookup inn (byteAt hdr 13 / 16) addrLen).bind (skipHeader inn (16 + addrLen))
    else none

/-- `proxy_protocol_parse` with the message it leaves; `none` when an assertion fails. -/
def proxyProtocolParseIn (pton : InetPton) (inn : List UInt8) :
    Option (ProxyProtocolVerdict × List UInt8) :=
  if inn.length < 6 then some (.more, inn)
  else
    let peek := rwmFetchLookup inn (min inn.length 12)
    if peek.take 6 = proxyText then parseV1In pton inn
    else if peek.length ≥ 12 ∧ peek = pp2Signature then parseV2In inn
    else if peek.length < 12 then some (.more, inn)
    else some (.error, inn)

/-- What a verdict leaves of a message. -/
def ProxyProtocolVerdict.rest (v : ProxyProtocolVerdict) (inn : List UInt8) : List UInt8 :=
  match v with
  | .ok n _ => inn.drop n
  | _ => inn

variable {inn : List UInt8} {n i fam addrLen pos : ℕ} {pton : InetPton}

theorem skipHeader_eq (hn : n ≤ inn.length) (out : ProxyProtocolResult) :
    skipHeader inn n out = some (.ok n out, inn.drop n) := by
  rw [skipHeader, if_pos]
  · rfl
  · exact min_eq_left hn

theorem rwmFetchLookup_min (inn : List UInt8) (n : ℕ) :
    rwmFetchLookup inn (min inn.length n) = inn.take n := by
  rw [rwmFetchLookup, min_comm, ← take_take, take_length]

theorem parseV1In_eq (pton : InetPton) (inn : List UInt8) :
    parseV1In pton inn = some (parseV1 pton inn, (parseV1 pton inn).rest inn) := by
  unfold parseV1In parseV1
  rw [rwmFetchLookup_min]
  split_ifs with hshort
  · rfl
  · dsimp only
    cases hpos : crlfPos (inn.take 108) with
    | none =>
      split_ifs <;> rfl
    | some pos =>
      have hle : pos + 2 ≤ inn.length := (crlfPos_lt hpos).trans (length_take_le' _ _)
      dsimp only
      generalize takeWhile _ _ = p
      by_cases hunknown : p.take 7 = unknownText
      · rw [if_pos hunknown, if_pos hunknown]
        exact skipHeader_eq hle _
      · rw [if_neg hunknown, if_neg hunknown]
        cases (if p.take 5 = tcp4Text then v1Addresses pton .inet (p.drop 5)
          else if p.take 5 = tcp6Text then v1Addresses pton .inet6 (p.drop 5) else none) with
        | none => rfl
        | some out => exact skipHeader_eq hle out

theorem v2Addresses_take (hinet : fam = 1 → 28 ≤ n) (hinet6 : fam = 2 → 52 ≤ n) :
    v2Addresses (inn.take n) fam addrLen = v2Addresses inn fam addrLen := by
  unfold v2Addresses
  split_ifs with h1 h2
  · rw [be32_take (by omega), be16_take (by omega)]
  · rw [be16_take (by omega), drop_take, take_take, min_eq_left (by omega)]
  · rfl

theorem v2Lookup_eq (hlen : 16 + addrLen ≤ inn.length) :
    v2Lookup inn fam addrLen = some (v2Addresses inn fam addrLen) := by
  have hlookup {n : ℕ} (hn : n ≤ inn.length) : (rwmFetchLookup inn n).length = n := by
    rw [length_rwmFetchLookup, min_eq_left hn]
  unfold v2Lookup
  split_ifs with h1 h2
  · rw [if_pos (hlookup (by omega)), rwmFetchLookup, v2Addresses_take (by omega) (by omega)]
  · rw [if_pos (hlookup (by omega)), rwmFetchLookup, v2Addresses_take (by omega) (by omega)]
  · rw [v2Addresses, if_neg h1, if_neg h2]

theorem parseV2In_eq (inn : List UInt8) :
    parseV2In inn = some (parseV2 inn, (parseV2 inn).rest inn) := by
  unfold parseV2In parseV2
  split_ifs with hshort
  · rfl
  · have hlookup : (rwmFetchLookup inn 16).length = 16 := by
      rw [length_rwmFetchLookup]
      omega
    rw [if_pos hlookup]
    simp only [rwmFetchLookup, byteAt_take (show 12 < 16 by decide),
      byteAt_take (show 13 < 16 by decide), be16_take (show 14 + 1 < 16 by decide)]
    split_ifs with hversion hcommand hmore hlocal
    · rfl
    · rfl
    · rfl
    · exact skipHeader_eq (not_lt.1 hmore) _
    · rw [v2Lookup_eq (not_lt.1 hmore)]
      exact skipHeader_eq (not_lt.1 hmore) _

/-- **The assertions hold**, and the parser removes the header it accepts, or nothing. -/
theorem proxyProtocolParseIn_eq (pton : InetPton) (inn : List UInt8) :
    proxyProtocolParseIn pton inn =
      some (proxyProtocolParse pton inn, (proxyProtocolParse pton inn).rest inn) := by
  unfold proxyProtocolParseIn proxyProtocolParse
  -- The signature of version 2 has 12 bytes, so the test of `peek_len` adds nothing.
  have hsig : ((inn.take 12).length ≥ 12 ∧ inn.take 12 = pp2Signature) ↔
      inn.take 12 = pp2Signature :=
    and_iff_right_of_imp fun h => by
      rw [h]
      decide
  have hfew : (inn.take 12).length < 12 ↔ inn.length < 12 := by
    rw [length_take]
    omega
  rw [rwmFetchLookup_min]
  dsimp only
  rw [take_take, min_eq_left (by decide)]
  simp only [hsig, hfew]
  split_ifs
  · rfl
  · exact parseV1In_eq pton inn
  · exact parseV2In_eq inn
  · rfl
  · rfl

/-! ### The extent of a header -/

/-- The first CR LF of a text ends at offset `n`. -/
structure EndsAtCrlf (inn : List UInt8) (n : ℕ) : Prop where
  two_le : 2 ≤ n
  cr : inn[n - 2]? = some 13
  lf : inn[n - 1]? = some 10
  first : ∀ i, i + 2 < n → ¬ (inn[i]? = some 13 ∧ inn[i + 1]? = some 10)

/-- The header of a message is its first `n` bytes: up to the first CR LF in version 1, the 16 bytes
and the length that they announce in version 2. -/
inductive HeaderIs (inn : List UInt8) (n : ℕ) : Prop
  | v1 (htext : inn.take 6 = proxyText) (hend : EndsAtCrlf inn n)
  | v2 (hsig : inn.take 12 = pp2Signature) (hlen : n ≤ inn.length) (hn : n = 16 + be16 inn 14)

variable {buf raw : List UInt8} {out : ProxyProtocolResult} {k : ℤ}

theorem crlfPos_spec (h : crlfPos buf = some pos) :
    6 ≤ pos ∧ buf[pos]? = some 13 ∧ buf[pos + 1]? = some 10 ∧
      ∀ i, 6 ≤ i → i < pos → ¬ (buf[i]? = some 13 ∧ buf[i + 1]? = some 10) := by
  obtain ⟨htest, as, bs, hsplit, hbefore⟩ := find?_eq_some_iff_append.1 h
  have hmem := mem_range'_1.1 (mem_of_find?_eq_some h)
  simp only [Bool.and_eq_true, decide_eq_true_eq] at htest
  refine ⟨hmem.1, htest.1, htest.2, fun i hi hlt hcrlf => ?_⟩
  have hi : i ∈ range' 6 (buf.length - 1 - 6) := mem_range'_1.2 ⟨hi, by omega⟩
  have hsorted : (as ++ pos :: bs).Pairwise (· < ·) := hsplit ▸ pairwise_lt_range'
  rw [hsplit, mem_append, mem_cons] at hi
  rcases hi with hi | rfl | hi
  · simpa [hcrlf] using hbefore i hi
  · omega
  · have := (pairwise_cons.1 (pairwise_append.1 hsorted).2.1).1 i hi
    omega

theorem parseV1_ok (h : parseV1 pton inn = .ok n out) :
    ∃ pos, crlfPos (inn.take 108) = some pos ∧ n = pos + 2 := by
  unfold parseV1 at h
  split_ifs at h with hshort
  dsimp only at h
  split at h
  · split_ifs at h
  · next pos hpos =>
    refine ⟨pos, hpos, ?_⟩
    split at h
    · cases h
      rfl
    · split at h
      · cases h
      · cases h
        rfl

theorem endsAtCrlf_of_crlfPos (htext : inn.take 6 = proxyText)
    (h : crlfPos (inn.take 108) = some pos) : EndsAtCrlf inn (pos + 2) := by
  have hlt : pos + 2 ≤ 108 := (crlfPos_lt h).trans (length_take_le _ _)
  obtain ⟨-, hcr, hlf, hfirst⟩ := crlfPos_spec h
  have htake {i : ℕ} (hi : i < 108) : (inn.take 108)[i]? = inn[i]? := getElem?_take_of_lt hi
  rw [htake (by omega)] at hcr hlf
  refine ⟨by omega, hcr, hlf, fun i hi hcrlf => ?_⟩
  by_cases h6 : 6 ≤ i
  · refine hfirst i h6 (by omega) ?_
    rw [htake (by omega), htake (by omega)]
    exact hcrlf
  · -- There is no CR in `"PROXY "`.
    have hi : proxyText[i]? = some 13 := by
      rw [← htext, getElem?_take_of_lt (by omega)]
      exact hcrlf.1
    have hnone : 13 ∉ proxyText := by decide
    exact hnone (mem_of_getElem? hi)

theorem headerIs_of_ok (h : proxyProtocolParse pton inn = .ok n out) : HeaderIs inn n := by
  have hlen := (length_proxyProtocolParse h).2
  unfold proxyProtocolParse at h
  split_ifs at h with hshort hv1 hv2
  · obtain ⟨pos, hpos, rfl⟩ := parseV1_ok h
    exact .v1 hv1 (endsAtCrlf_of_crlfPos hv1 hpos)
  · refine .v2 hv2 hlen ?_
    unfold parseV2 at h
    dsimp only at h
    split_ifs at h
    · cases h
      rfl
    · cases h
      rfl

/-! ### A verdict stands -/

theorem crlfPos_append (h : crlfPos buf = some pos) (more : List UInt8) :
    crlfPos (buf ++ more) = some pos := by
  have hmem := mem_range'_1.1 (mem_of_find?_eq_some h)
  unfold crlfPos at h ⊢
  have hcount : (buf ++ more).length - 1 - 6 = (buf.length - 1 - 6) + more.length := by
    rw [length_append]
    omega
  have hsame : ∀ i ∈ range' 6 (buf.length - 1 - 6),
      (decide ((buf ++ more)[i]? = some 13) && decide ((buf ++ more)[i + 1]? = some 10)) =
        (decide (buf[i]? = some 13) && decide (buf[i + 1]? = some 10)) := by
    intro i hi
    have := mem_range'_1.1 hi
    rw [getElem?_append_left (by omega), getElem?_append_left (by omega)]
  rw [hcount, ← range'_append_1, find?_append, find?_congr hsame, h]
  rfl

theorem parseV1_append (h : parseV1 pton inn ≠ .more) (more : List UInt8) :
    parseV1 pton (inn ++ more) = parseV1 pton inn := by
  have hlen : ¬ inn.length < 15 := fun hlen => h (if_pos hlen)
  have hlen' : ¬ (inn ++ more).length < 15 := by
    rw [length_append]
    omega
  unfold parseV1 at h ⊢
  rw [if_neg hlen] at h ⊢
  rw [if_neg hlen', take_append]
  dsimp only at h ⊢
  cases hpos : crlfPos (inn.take 108) with
  | none =>
    -- Without a CR LF there is a verdict only if the buffer is full.
    have hfull : (inn.take 108).length ≥ 108 := by
      by_contra hfull
      rw [hpos] at h
      exact h (if_neg hfull)
    have hnil : more.take (108 - inn.length) = [] := by
      rw [length_take] at hfull
      rw [show 108 - inn.length = 0 by omega, take_zero]
    rw [hnil, append_nil, hpos]
  | some pos =>
    have hle := crlfPos_lt hpos
    rw [crlfPos_append hpos]
    dsimp only
    rw [take_append_of_le_length (by omega)]

theorem v2Addresses_append (h : 16 + addrLen ≤ inn.length) (more : List UInt8) :
    v2Addresses (inn ++ more) fam addrLen = v2Addresses inn fam addrLen := by
  unfold v2Addresses
  split_ifs with h1 h2
  · rw [be32_append (by omega), be16_append (by omega)]
  · rw [be16_append (by omega), drop_append_of_le_length (by omega),
      take_append_of_le_length (by rw [length_drop]; omega)]
  · rfl

theorem parseV2_append (h : parseV2 inn ≠ .more) (more : List UInt8) :
    parseV2 (inn ++ more) = parseV2 inn := by
  have hlen : ¬ inn.length < 16 := fun hlen => h (if_pos hlen)
  have hlen' : ¬ (inn ++ more).length < 16 := by
    rw [length_append]
    omega
  unfold parseV2 at h ⊢
  rw [if_neg hlen] at h ⊢
  rw [if_neg hlen', byteAt_append (by omega), byteAt_append (by omega), be16_append (by omega)]
  by_cases hversion : byteAt inn 12 / 16 ≠ 2
  · rw [if_pos hversion, if_pos hversion]
  by_cases hcommand : byteAt inn 12 % 16 > 1
  · rw [if_neg hversion, if_neg hversion, if_pos hcommand, if_pos hcommand]
  rw [if_neg hversion, if_neg hcommand] at h ⊢
  rw [if_neg hversion, if_neg hcommand]
  have hmore : ¬ inn.length < 16 + be16 inn 14 := fun hmore => h (if_pos hmore)
  have hmore' : ¬ (inn ++ more).length < 16 + be16 inn 14 := by
    rw [length_append]
    omega
  rw [if_neg hmore, if_neg hmore', v2Addresses_append (not_lt.1 hmore)]

/-- **A verdict stands**: what the parser says about a message, it says about every longer one. -/
theorem proxyProtocolParse_append (h : proxyProtocolParse pton inn ≠ .more) (more : List UInt8) :
    proxyProtocolParse pton (inn ++ more) = proxyProtocolParse pton inn := by
  have hlen : ¬ inn.length < 6 := fun hlen => h (if_pos hlen)
  have hlen' : ¬ (inn ++ more).length < 6 := by
    rw [length_append]
    omega
  unfold proxyProtocolParse at h ⊢
  rw [if_neg hlen] at h ⊢
  rw [if_neg hlen', take_append_of_le_length (by omega)]
  by_cases hv1 : inn.take 6 = proxyText
  · rw [if_pos hv1] at h ⊢
    rw [if_pos hv1]
    exact parseV1_append h more
  · rw [if_neg hv1] at h ⊢
    rw [if_neg hv1]
    -- Fewer than 12 bytes are neither the signature nor a verdict.
    have h12 : 12 ≤ inn.length := by
      by_contra hfew
      rw [if_neg, if_pos (by omega)] at h
      · exact h rfl
      · intro hsig
        have := congrArg length hsig
        rw [length_take] at this
        change _ = 12 at this
        omega
    have h12' : ¬ (inn ++ more).length < 12 := by
      rw [length_append]
      omega
    rw [take_append_of_le_length h12, if_neg (not_lt.2 h12), if_neg h12']
    by_cases hv2 : inn.take 12 = pp2Signature
    · rw [if_pos hv2] at h ⊢
      rw [if_pos hv2]
      exact parseV2_append h more
    · rw [if_neg hv2, if_neg hv2]

/-! ### The reads -/

/-- What the caller of the parser knows: the verdict it has had, which is `more` as long as
`C_PROXY_PROTOCOL` is set, and whether an assertion of the parser has failed. -/
structure HeaderData where
  verdict : ProxyProtocolVerdict
  aborted : Bool
  deriving DecidableEq, Repr

abbrev HeaderConn := ConnInfo UInt8 Unit HeaderData

/-- `tcp_rpcs_compact_parse_execute` up to the verdict on the header; `medium` is the flag
`RPC_F_MEDIUM`.  What follows an accepted header is left in the message. -/
def headerParseExecute (pton : InetPton) (medium : Bool) (c : HeaderConn) : HeaderConn × ℤ :=
  let len := c.inn.length
  let minLen := if medium then 4 else 1
  if c.data.verdict ≠ .more then (c, needMoreBytes)
  else if len = 0 then (c, needMoreBytes)
  else if len < minLen + 8 then (c, minLen + 8 - len)
  else
    match proxyProtocolParseIn pton c.inn with
    | none => ({ c with failed := true, data := { c.data with aborted := true } }, 0)
    | some (.more, inn) =>
      ({ c with inn := inn }, if inn.length < 16 then 16 - inn.length else needMoreBytes)
    | some (.error, inn) =>
      ({ c with inn := inn, failed := true, data := { c.data with verdict := .error } }, 0)
    | some (.ok n out, inn) =>
      ({ c with inn := inn, data := { c.data with verdict := .ok n out } }, needMoreBytes)

def headerFuncs (pton : InetPton) (medium : Bool) : ConnFuncs UInt8 Unit HeaderData where
  cryptoDecryptInput := fun c => (c, 0)
  parseExecute := headerParseExecute pton medium

/-- One read: its bytes are queued, and the reader runs. -/
def readHeader (pton : InetPton) (medium : Bool) (c : HeaderConn) (raw : List UInt8) : HeaderConn :=
  reader (headerFuncs pton medium) { c with inQueue := c.inQueue ++ [raw] }

/-- An accepted connection on a port with PROXY protocol. -/
def headerStart : HeaderConn where
  inQueue := []
  inU := []
  inn := []
  crypto := none
  skipBytes := 0
  failed := false
  stopRead := false
  data := ⟨.more, false⟩

/-- The connection after a number of reads. -/
def readHeaders (pton : InetPton) (medium : Bool) (reads : List (List UInt8)) : HeaderConn :=
  reads.foldl (readHeader pton medium) headerStart

/-- The connection after the bytes `s` have been read: it knows the verdict on all of them.  The
number of bytes that the reader waits for keeps the parser from no verdict. -/
structure AfterBytes (pton : InetPton) (s : List UInt8) (c : HeaderConn) : Prop where
  inQueue : c.inQueue = []
  inU : c.inU = []
  crypto : c.crypto = none
  stopRead : c.stopRead = false
  failed : c.failed = decide (proxyProtocolParse pton s = .error)
  data : c.data = ⟨proxyProtocolParse pton s, false⟩
  inn : c.inn = (proxyProtocolParse pton s).rest s
  nonneg : 0 ≤ c.skipBytes
  skip : c.skipBytes ≤ 12

theorem proxyProtocolParse_of_short (h : inn.length < 12) :
    proxyProtocolParse pton inn = .more := by
  unfold proxyProtocolParse
  split_ifs with h6 hv1 hv2
  · rfl
  · exact if_pos (by omega)
  · have := congrArg length hv2
    rw [length_take] at this
    change _ = 12 at this
    omega
  · rfl

/-- A number of bytes to wait for is kept or, once they are there, cleared. -/
theorem applySkip_of_nonneg {β κ δ : Type} {c : ConnInfo β κ δ} (h : 0 ≤ c.skipBytes) :
    ∃ k, c.applySkip = { c with skipBytes := k } ∧ 0 ≤ k ∧ k ≤ c.skipBytes ∧
      (k ≠ 0 → c.inn.length < k) := by
  unfold ConnInfo.applySkip
  rw [if_neg (by omega)]
  split_ifs with hthere
  · exact ⟨0, rfl, le_refl _, h, fun hne => absurd rfl hne⟩
  · exact ⟨c.skipBytes, rfl, h, le_refl _, fun hne => by omega⟩

/-- The connection when it gets its verdict, and the caller's answer. -/
def settleHeader (c : HeaderConn) (v : ProxyProtocolVerdict) : HeaderConn × ℤ :=
  let c' : HeaderConn := { c with inn := v.rest c.inn, data := { c.data with verdict := v } }
  if v = .error then ({ c' with failed := true }, 0) else (c', needMoreBytes)

/-- The connection with new bytes behind its old ones. -/
def HeaderConn.withBytes (c : HeaderConn) (raw : List UInt8) (k : ℤ) : HeaderConn :=
  { c with inQueue := [], inn := c.inn ++ raw, skipBytes := k }

section Read

variable {pton : InetPton} {medium : Bool} {s : List UInt8} {c : HeaderConn}

theorem headerParseExecute_settled (h : c.data.verdict ≠ .more) :
    headerParseExecute pton medium c = (c, needMoreBytes) := if_pos h

theorem headerParseExecute_more (medium : Bool) (hdata : c.data.verdict = .more)
    (h : proxyProtocolParse pton c.inn = .more) :
    ∃ k, headerParseExecute pton medium c = (c, k) ∧ (0 < k ∧ k ≤ 12 ∨ k = needMoreBytes) := by
  unfold headerParseExecute
  rw [if_neg (not_not.2 hdata)]
  by_cases hempty : c.inn.length = 0
  · exact ⟨_, if_pos hempty, .inr rfl⟩
  rw [if_neg hempty]
  by_cases hshort : c.inn.length < (if medium then 4 else 1) + 8
  · refine ⟨_, if_pos hshort, .inl ?_⟩
    split_ifs at hshort ⊢ <;> omega
  rw [if_neg hshort, proxyProtocolParseIn_eq, h]
  refine ⟨_, rfl, ?_⟩
  dsimp only [ProxyProtocolVerdict.rest]
  split_ifs at hshort ⊢ <;> omega

/-- A verdict is given on at least 12 bytes, more than the caller waits for. -/
theorem headerParseExecute_verdict (hdata : c.data.verdict = .more)
    (h : proxyProtocolParse pton c.inn ≠ .more) :
    headerParseExecute pton medium c = settleHeader c (proxyProtocolParse pton c.inn) := by
  have hlen : ¬ c.inn.length < 12 := fun hlen => h (proxyProtocolParse_of_short hlen)
  have hshort : ¬ c.inn.length < (if medium then 4 else 1) + 8 := by
    split_ifs <;> omega
  unfold headerParseExecute
  rw [if_neg (not_not.2 hdata), if_neg (by omega), if_neg hshort, proxyProtocolParseIn_eq]
  cases hv : proxyProtocolParse pton c.inn with
  | more => exact absurd hv h
  | error => rfl
  | ok n out => rfl

theorem headerParseExecute_blocked (h : (headerParseExecute pton medium c).2 = 0) :
    (headerParseExecute pton medium c).1.blocked = true := by
  have hne : needMoreBytes ≠ 0 := by decide
  by_cases hdata : c.data.verdict = .more
  · by_cases hmore : proxyProtocolParse pton c.inn = .more
    · obtain ⟨k, hk, hpos⟩ := headerParseExecute_more medium hdata hmore
      rw [hk] at h
      omega
    · rw [headerParseExecute_verdict hdata hmore, settleHeader] at h ⊢
      split_ifs at h ⊢
      · simp [ConnInfo.blocked]
      · exact absurd h hne
  · rw [headerParseExecute_settled hdata] at h
    exact absurd h hne

section

variable (hc : AfterBytes pton s c)
include hc

theorem AfterBytes.append
    (hsame : proxyProtocolParse pton (s ++ raw) = proxyProtocolParse pton s) (h0 : 0 ≤ k)
    (hk : k ≤ 12) : AfterBytes pton (s ++ raw) (c.withBytes raw k) where
  inQueue := rfl
  inU := hc.inU
  crypto := hc.crypto
  stopRead := hc.stopRead
  failed := hsame ▸ hc.failed
  data := hsame ▸ hc.data
  inn := by
    rw [hsame, HeaderConn.withBytes, hc.inn]
    cases hv : proxyProtocolParse pton s with
    | more => rfl
    | error => rfl
    | ok n out => exact (drop_append_of_le_length (length_proxyProtocolParse hv).2).symm
  nonneg := h0
  skip := hk

theorem AfterBytes.settle (hmore : proxyProtocolParse pton s = .more) :
    AfterBytes pton (s ++ raw)
      (settleHeader (c.withBytes raw 0) (proxyProtocolParse pton (s ++ raw))).1 := by
  have hopen : c.failed = false := by rw [hc.failed, hmore]; decide
  have hinn : c.inn = s := by rw [hc.inn, hmore]; rfl
  have h12 : (0 : ℤ) ≤ 12 := by decide
  unfold settleHeader HeaderConn.withBytes
  rw [hinn, hc.data]
  split_ifs with herror
  · exact ⟨rfl, hc.inU, hc.crypto, hc.stopRead, (decide_eq_true herror).symm, rfl, rfl, le_refl _,
      h12⟩
  · exact ⟨rfl, hc.inU, hc.crypto, hc.stopRead, hopen.trans (decide_eq_false herror).symm, rfl, rfl,
      le_refl _, h12⟩

theorem AfterBytes.call (hopen : (c.withBytes raw 0).blocked = false)
    (fuel : ℕ) :
    AfterBytes pton (s ++ raw)
      (readerLoop (headerFuncs pton medium) (fuel + 1) (c.withBytes raw 0)) := by
  rw [readerLoop_of_blocked hopen headerParseExecute_blocked]
  dsimp only [headerFuncs]
  by_cases hmore : proxyProtocolParse pton s = .more
  · have hinn : (c.withBytes raw 0).inn = s ++ raw := by
      rw [HeaderConn.withBytes, hc.inn, hmore]
      rfl
    have hdata : (c.withBytes raw 0).data.verdict = .more := by
      rw [HeaderConn.withBytes, hc.data, hmore]
    by_cases hnew : proxyProtocolParse pton (s ++ raw) = .more
    · obtain ⟨j, hj, hpos⟩ := headerParseExecute_more medium hdata (hinn ▸ hnew)
      have hsame := hnew.trans hmore.symm
      rw [hj]
      split_ifs with hanswer
      · exact hc.append hsame (le_refl _) (by decide)
      · have hset : (c.withBytes raw 0).setSkip j = c.withBytes raw j := by
          simp only [ConnInfo.setSkip, HeaderConn.withBytes, hc.crypto, hc.inU]
          simp
        rw [hset]
        exact hc.append hsame (by omega) (by omega)
    · rw [headerParseExecute_verdict hdata (hinn ▸ hnew), hinn, if_pos]
      · exact hc.settle hmore
      · rw [settleHeader]
        split_ifs
        · exact .inl rfl
        · exact .inr rfl
  · rw [headerParseExecute_settled (by rw [HeaderConn.withBytes, hc.data]; exact hmore)]
    exact hc.append (proxyProtocolParse_append hmore raw) (le_refl _) (by decide)

/-- The parser is not called on the new bytes: the reader waits for at most 12, and no verdict is
missed meanwhile. -/
theorem AfterBytes.wait (h0 : 0 ≤ k) (hk : k ≤ 12)
    (hopen : c.failed = false) (hwait : k ≠ 0 → (c.inn ++ raw).length < k)
    (hblocked : (c.withBytes raw k).blocked = true) :
    AfterBytes pton (s ++ raw) (c.withBytes raw k) := by
  refine hc.append ?_ h0 hk
  by_cases hmore : proxyProtocolParse pton s = .more
  · have hinn : c.inn = s := by rw [hc.inn, hmore]; rfl
    rw [hinn] at hwait
    rw [hmore]
    refine proxyProtocolParse_of_short ?_
    simp only [ConnInfo.blocked, HeaderConn.withBytes, hopen, hc.stopRead, hinn, Bool.or_false,
      Bool.or_eq_true, decide_eq_true_eq, List.isEmpty_iff] at hblocked
    rcases hblocked with hne | hempty
    · omega
    · rw [hempty]
      decide
  · exact proxyProtocolParse_append hmore raw

theorem afterBytes_readHeader (medium : Bool) (raw : List UInt8) :
    AfterBytes pton (s ++ raw) (readHeader pton medium c raw) := by
  have hread : readHeader pton medium c raw =
      if c.failed then c.withBytes raw c.skipBytes
      else readerLoop (headerFuncs pton medium)
        ((c.withBytes raw c.skipBytes).applySkip.inU.length +
          (c.withBytes raw c.skipBytes).applySkip.inn.length + 1)
        (c.withBytes raw c.skipBytes).applySkip := by
    refine (reader_of_clear (c := { c with inQueue := c.inQueue ++ [raw] }) hc.crypto).trans ?_
    simp [hc.inQueue, hc.stopRead, HeaderConn.withBytes]
  rw [hread]
  split_ifs with hfailed
  · have herror : proxyProtocolParse pton s = .error := of_decide_eq_true (hc.failed ▸ hfailed)
    exact hc.append (proxyProtocolParse_append (by rw [herror]; decide) raw) hc.nonneg hc.skip
  · obtain ⟨k, hskip, h0, hle, hwait⟩ :=
      applySkip_of_nonneg (c := c.withBytes raw c.skipBytes) hc.nonneg
    rw [hskip]
    change AfterBytes pton _ (readerLoop _ _ (c.withBytes raw k))
    cases hblocked : (c.withBytes raw k).blocked with
    | true =>
      rw [readerLoop, if_pos hblocked]
      exact hc.wait h0 (hle.trans hc.skip) (Bool.not_eq_true _ ▸ hfailed) hwait hblocked
    | false =>
      have hzero : k = 0 := by
        by_contra hne
        simp [ConnInfo.blocked, HeaderConn.withBytes, hne] at hblocked
      subst hzero
      exact hc.call hblocked _

end

theorem afterBytes_readHeaders (pton : InetPton) (medium : Bool) (reads : List (List UInt8)) :
    AfterBytes pton reads.flatten (readHeaders pton medium reads) := by
  induction reads using reverseRecOn with
  | nil =>
    have h12 : (0 : ℤ) ≤ 12 := by decide
    exact ⟨rfl, rfl, rfl, rfl, rfl, rfl, rfl, le_refl _, h12⟩
  | append_singleton reads raw ih =>
    rw [readHeaders, foldl_append, flatten_append, flatten_singleton]
    exact afterBytes_readHeader ih medium raw

end Read

/-- **The PROXY protocol header as a stream.**  The parser's verdict on a stream does not depend on
the reads it comes in and is the verdict on the whole stream; a verdict on a part of the stream is
the verdict on every longer part; an accepted header, and nothing else, is removed from the message;
and no assertion fails. -/
theorem proxy_protocol_streaming (pton : InetPton) (medium : Bool) :
    (∀ reads reads' : List (List UInt8), reads.flatten = reads'.flatten →
      (readHeaders pton medium reads).data = (readHeaders pton medium reads').data) ∧
    (∀ reads : List (List UInt8), ∃ rest, proxyProtocolParseIn pton reads.flatten =
      some ((readHeaders pton medium reads).data.verdict, rest)) ∧
    (∀ inn more v rest, proxyProtocolParseIn pton inn = some (v, rest) → v ≠ .more →
      ∃ rest', proxyProtocolParseIn pton (inn ++ more) = some (v, rest')) ∧
    (∀ inn n out rest, proxyProtocolParseIn pton inn = some (.ok n out, rest) →
      HeaderIs inn n ∧ rest = inn.drop n) ∧
    (∀ inn v rest, proxyProtocolParseIn pton inn = some (v, rest) → (∀ n out, v ≠ .ok n out) →
      rest = inn) ∧
    ∀ inn, proxyProtocolParseIn pton inn ≠ none := by
  refine ⟨fun reads reads' h => ?_, fun reads => ?_, ?_, ?_, ?_, ?_⟩
  · rw [(afterBytes_readHeaders pton medium reads).data,
      (afterBytes_readHeaders pton medium reads').data, h]
  · rw [(afterBytes_readHeaders pton medium reads).data]
    exact ⟨_, proxyProtocolParseIn_eq pton _⟩
  · intro inn more v rest h hv
    rw [proxyProtocolParseIn_eq] at h
    cases h
    exact ⟨_, (proxyProtocolParseIn_eq pton _).trans (by rw [proxyProtocolParse_append hv])⟩
  · intro inn n out rest h
    rw [proxyProtocolParseIn_eq, Option.some.injEq, Prod.mk.injEq] at h
    obtain ⟨hok, rfl⟩ := h
    exact ⟨headerIs_of_ok hok, by rw [hok]; rfl⟩
  · intro inn v rest h hv
    rw [proxyProtocolParseIn_eq] at h
    cases h
    cases hcase : proxyProtocolParse pton inn with
    | more => rfl
    | error => rfl
    | ok n out => exact absurd hcase (hv n out)
  · intro inn h
    rw [proxyProtocolParseIn_eq] at h
    cases h

/-- A header without an address, and the first byte of the client. -/
def sampleHeader : List UInt8 := proxyText ++ unknownText ++ [13, 10, 0xff]

theorem proxy_protocol_streaming_sampleHeader :
    (readHeaders ⟨fun _ => none, fun _ => none⟩ false [sampleHeader.take 10, sampleHeader.drop 10]
      ).data = ⟨.ok 15 .zero, false⟩ ∧
    (readHeaders ⟨fun _ => none, fun _ => none⟩ false [sampleHeader]).data = ⟨.ok 15 .zero, false⟩ ∧
    HeaderIs sampleHeader 15 := by
  obtain ⟨hreads, -, -, hok, -⟩ := proxy_protocol_streaming ⟨fun _ => none, fun _ => none⟩ false
  have hone : (readHeaders ⟨fun _ => none, fun _ => none⟩ false [sampleHeader]).data =
      ⟨.ok 15 .zero, false⟩ := by decide
  refine ⟨(hreads _ _ (by decide)).trans hone, hone, (hok sampleHeader 15 .zero [0xff] ?_).1⟩
  decide

end Mtbolt.Net
