import Mtbolt.Lib.EventRun
import Mtbolt.Lib.Words
import Mtbolt.Net.Reader

/-!
# The frame loop of the external RPC server

After the obfuscated2 handshake `tcp_rpcs_compact_parse_execute` (`net-tcp-rpc-ext-server.c`)
cuts the decrypted client stream into frames.  One pass of its `while (1)` is `framePass`; the
client decides every byte of the stream and how it is divided into reads, and the reader decides
when the loop runs, so a run of the connection is any list of `FrameEvent`s.
-/

namespace Mtbolt.ExtServer

open EventRun Net Words List

/-! ### The connection -/

/-- The bits of `D->flags` that the frame loop reads or writes. -/
structure RpcFlags where
  medium : Bool
  pad : Bool
  quickack : Bool
  deriving DecidableEq, Repr

/-- The transports that the obfuscated2 header can select. -/
inductive Transport
  | compact
  | medium
  | padded
  deriving DecidableEq, Repr

/-- `RPC_F_COMPACT`, `RPC_F_MEDIUM` and `RPC_F_MEDIUM | RPC_F_PAD`, as the handshake sets them. -/
def Transport.flags : Transport → RpcFlags
  | .compact => ⟨false, false, false⟩
  | .medium => ⟨true, false, false⟩
  | .padded => ⟨true, true, false⟩

/-- What the frame loop reads and writes of a connection and of the worker's statistics.
`executed` is the log of the packets handed to `execute`, with their numbers. -/
structure FrameConn where
  flags : RpcFlags
  inPacketNum : BitVec 32
  cError : Bool
  cStopparse : Bool
  inn : List UInt8
  executed : List (BitVec 32 × List UInt8)
  transportErrorsReceived : ℕ
  quickackPacketsReceived : ℕ
  deriving DecidableEq, Repr

/-- The connection as the handshake leaves it. -/
def FrameConn.start (t : Transport) : FrameConn where
  flags := t.flags
  inPacketNum := 0
  cError := false
  cStopparse := false
  inn := []
  executed := []
  transportErrorsReceived := 0
  quickackPacketsReceived := 0

/-- `fail_connection`. -/
def FrameConn.fail (c : FrameConn) : FrameConn := { c with cError := true }

/-- `ext_rpc_methods.max_packet_len`: `MAX_POST_SIZE` of `mtproto-proxy-http.c`. -/
def maxPacketLen : BitVec 32 := 1044480#32

/-! ### One pass of the loop -/

/-- The outcome of the decoding of the length word: the loop returns, or a complete frame with
`packetLenBytes` bytes of header and `packetLen` bytes of payload is buffered. -/
inductive FrameHead
  | ret (res : ℤ) (c : FrameConn)
  | complete (packetLenBytes : ℕ) (packetLen : BitVec 32) (c : FrameConn)

/-- The acceptance tests on the decoded length, common to the transports. -/
def checkLength (c : FrameConn) (packetLenBytes : ℕ) (packetLen : BitVec 32) : FrameHead :=
  if packetLen.sle 0#32 || packetLen &&& 0xc0000000#32 != 0#32
      || (!c.flags.pad && packetLen &&& 3#32 != 0#32) then
    .ret 0 c.fail
  else if maxPacketLen.slt packetLen && (0#32).slt maxPacketLen then
    .ret 0 c.fail
  else if c.inn.length < packetLen.toNat + packetLenBytes then
    .ret (packetLen.toNat + packetLenBytes - c.inn.length : ℕ) c
  else
    .complete packetLenBytes packetLen c

/-- `D->flags` and the statistics after the quick-acknowledgement bit was read. -/
def setQuickack (c : FrameConn) (quickack : Bool) : FrameConn :=
  { c with
    flags := { c.flags with quickack := quickack }
    quickackPacketsReceived := c.quickackPacketsReceived + quickack.toNat }

/-- The length word of the medium and of the padded transport. -/
def mediumHead (c : FrameConn) (packetLen : BitVec 32) : FrameHead :=
  if packetLen.slt 0#32 && (-1000#32).slt packetLen then
    .ret 0 { c.fail with transportErrorsReceived := c.transportErrorsReceived + 1 }
  else
    checkLength (setQuickack c (packetLen &&& 0x80000000#32 != 0#32)) 4
      (packetLen &&& 0x7fffffff#32)

/-- The length byte, or the length byte and three more, of the compact transport. -/
def compactHead (c : FrameConn) (packetLen : BitVec 32) : FrameHead :=
  let c := setQuickack c (packetLen &&& 0x80#32 != 0#32)
  let packetLen := packetLen &&& ~~~0x80#32
  if packetLen &&& 0xff#32 = 0x7f#32 then
    if (packetLen >>> 8).slt 0x7f#32 then .ret 0 c.fail
    else checkLength c 4 ((packetLen >>> 8) <<< 2)
  else
    checkLength c 1 ((packetLen &&& 0x7f#32) <<< 2)

/-- The shortest length field of the transport. -/
def minLen (flags : RpcFlags) : ℕ := if flags.medium then 4 else 1

/-- The pass up to the point where a complete frame is known to be buffered. -/
def frameHead (c : FrameConn) : FrameHead :=
  if c.cError then .ret needMoreBytes c
  else if c.cStopparse then .ret needMoreBytes c
  else
    let len := c.inn.length
    if len = 0 then .ret needMoreBytes c
    else if len < minLen c.flags + 8 then .ret (minLen c.flags + 8 - len : ℕ) c
    else
      let packetLen := le32 (rwmFetchLookup c.inn 4)
      if c.flags.medium then mediumHead c packetLen else compactHead c packetLen

/-- The outcome of a pass: the function returns, the loop goes on, or an `assert` stops the
process. -/
inductive PassResult
  | ret (res : ℤ) (c : FrameConn)
  | again (c : FrameConn)
  | abort
  deriving DecidableEq

/-- The payload without its padding. -/
def frameMessage (pad : Bool) (payload : List UInt8) (packetLen : BitVec 32) : List UInt8 :=
  if pad then rwmTrunc payload (packetLen &&& -4#32).toNat else payload

/-- The number of the packet: a negative counter is set to zero first. -/
def packetNum (inPacketNum : BitVec 32) : BitVec 32 :=
  if inPacketNum.slt 0#32 then 0#32 else inPacketNum

/-- The pass from the point where a complete frame is buffered.  `flood` says whether `execute`
fails the connection, as `ext_rpcs_execute` does when too many bytes are buffered for it. -/
def frameBody (flood : Bool) (packetLenBytes : ℕ) (packetLen : BitVec 32) (c : FrameConn) :
    PassResult :=
  let skipped := rwmSkipData c.inn packetLenBytes
  if skipped.1 ≠ packetLenBytes then .abort
  else
    let split := rwmSplitHead skipped.2 packetLen.toNat
    let msg := frameMessage c.flags.pad split.1 packetLen
    if (rwmFetchLookup msg 4).length ≠ 4 then .abort
    else if c.inPacketNum.slt 0#32 && c.inPacketNum != -3#32 then .abort
    else
      .again { c with
        inn := split.2
        executed := c.executed ++ [(packetNum c.inPacketNum, msg)]
        cError := c.cError || flood
        inPacketNum := packetNum c.inPacketNum + 1 }

/-- One pass of the loop, from the connection past its handshake. -/
def framePass (flood : Bool) (c : FrameConn) : PassResult :=
  match frameHead c with
  | .ret res c => .ret res c
  | .complete packetLenBytes packetLen c => frameBody flood packetLenBytes packetLen c

/-! ### Runs -/

/-- `read`: the reader appends decrypted bytes.  `pass`: the loop makes one pass. -/
inductive FrameEvent
  | read (chunk : List UInt8)
  | pass (flood : Bool)
  deriving DecidableEq, Repr

/-- A step of the connection; `none` when an `assert` stops the process. -/
def frameStep (c : FrameConn) : FrameEvent → Option FrameConn
  | .read chunk => some { c with inn := rwmUnion c.inn chunk }
  | .pass flood =>
    match framePass flood c with
    | .ret _ c' => some c'
    | .again c' => some c'
    | .abort => none

/-! ### The frames the decoding accepts -/

/-- A length word `w` at the front of the stream announces a header of `hdr` bytes and a payload
of `len` bytes.  The medium transports use the four bytes without the sign bit, and refuse the
transport error codes `-999 .. -1`; the compact one uses seven bits, or, after `0x7f`, three
bytes, and counts in words. -/
inductive Announces (flags : RpcFlags) (w : ℕ) : ℕ → ℕ → Prop
  | medium (hm : flags.medium = true) (hw : w ≤ 2 ^ 32 - 1000) : Announces flags w 4 (w % 2 ^ 31)
  | short (hm : flags.medium = false) (hw : w % 128 ≠ 127) : Announces flags w 1 (w % 128 * 4)
  | long (hm : flags.medium = false) (hw : w % 128 = 127) (hl : 127 ≤ w / 256) :
      Announces flags w 4 (w / 256 * 4)

/-- A payload of `len` bytes after `hdr` bytes of header is not empty, not over the limit, whole
words unless the transport pads, and completely buffered. -/
def Acceptable (c : FrameConn) (hdr len : ℕ) : Prop :=
  0 < len ∧ len ≤ 1044480 ∧ (c.flags.pad = true ∨ len % 4 = 0) ∧ hdr + len ≤ c.inn.length

/-- A pass over `c` finds a complete acceptable frame at the front of the buffer. -/
structure FrameReady (c : FrameConn) (hdr len : ℕ) : Prop where
  running : c.cError = false
  parsing : c.cStopparse = false
  enough : minLen c.flags + 8 ≤ c.inn.length
  announced : Announces c.flags (le32 c.inn).toNat hdr len
  acceptable : Acceptable c hdr len

theorem le32_rwmFetchLookup (bs : List UInt8) : le32 (rwmFetchLookup bs 4) = le32 bs := by
  simp only [le32, rwmFetchLookup, take_take, Nat.min_self]

variable {w v : BitVec 32} {c c' : FrameConn} {len : ℕ}

theorem badLength_iff (pad : Bool) (hw : w.toNat < 2 ^ 31) :
    (w.sle 0#32 || w &&& 0xc0000000#32 != 0#32 || (!pad && w &&& 3#32 != 0#32)) = true ↔
      w.toNat = 0 ∨ 2 ^ 30 ≤ w.toNat ∨ (pad = false ∧ w.toNat % 4 ≠ 0) := by
  simp only [Bool.or_eq_true, Bool.and_eq_true, bne_iff_ne, ne_eq, Bool.not_eq_true',
    sle_zero_iff hw, and_high_eq_zero_iff, and_three_eq_zero_iff, or_assoc, not_lt]

theorem overMaxLength_iff (hw : w.toNat < 2 ^ 31) :
    (maxPacketLen.slt w && (0#32).slt maxPacketLen) = true ↔ 1044480 < w.toNat := by
  have hmax : maxPacketLen.slt w = true ↔ 1044480 < w.toNat := slt_iff_toNat_lt (by decide) hw
  have hpos : (0#32).slt maxPacketLen = true := by decide
  simp [hmax, hpos]

variable {hdr : ℕ} {flags : RpcFlags} {res : ℤ} {e : FrameEvent}

theorem checkLength_eq_complete_iff {hdr' : ℕ} (hw : w.toNat < 2 ^ 31) :
    checkLength c hdr w = .complete hdr' v c' ↔
      c = c' ∧ (hdr' = hdr ∧ v.toNat = w.toNat) ∧ Acceptable c hdr' v.toNat := by
  unfold checkLength Acceptable
  simp only [badLength_iff c.flags.pad hw, overMaxLength_iff hw]
  split_ifs with hbad hmax hshort
  · grind
  · simp only [false_iff]
    omega
  · simp only [false_iff]
    omega
  · rw [FrameHead.complete.injEq, ← BitVec.toNat_inj]
    grind

theorem transportError_iff (w : BitVec 32) :
    (w.slt 0#32 && (-1000#32).slt w) = true ↔ 2 ^ 32 - 1000 < w.toNat := by
  have h : (-1000#32).toInt = -1000 := by decide
  rw [Bool.and_eq_true, slt_zero_iff, BitVec.slt_iff_toInt_lt, BitVec.toInt_eq_toNat_cond w]
  split_ifs <;> omega

theorem clearQuickack_and_byte (w : BitVec 32) :
    (w &&& ~~~0x80#32) &&& 0xff#32 = w &&& 0x7f#32 := by
  rw [BitVec.and_assoc]
  rfl

theorem clearQuickack_and_seven (w : BitVec 32) :
    (w &&& ~~~0x80#32) &&& 0x7f#32 = w &&& 0x7f#32 := by
  rw [BitVec.and_assoc]
  rfl

theorem clearQuickack_ushiftRight (w : BitVec 32) :
    ((w &&& ~~~0x80#32) >>> 8).toNat = w.toNat / 256 := by
  have h : (w &&& ~~~0x80#32) >>> 8 = w >>> 8 := by
    ext i hi
    interval_cases i <;> simp
  rw [h, BitVec.toNat_ushiftRight, Nat.shiftRight_eq_div_pow]

theorem announces_medium_iff {w : ℕ} (hm : flags.medium = true) :
    Announces flags w hdr len ↔ w ≤ 2 ^ 32 - 1000 ∧ hdr = 4 ∧ len = w % 2 ^ 31 := by
  constructor
  · intro h
    cases h with
    | medium _ hw => exact ⟨hw, rfl, rfl⟩
    | short hm' => simp [hm] at hm'
    | long hm' => simp [hm] at hm'
  · rintro ⟨hw, rfl, rfl⟩
    exact .medium hm hw

theorem announces_compact_iff {w : ℕ} (hm : flags.medium = false) :
    Announces flags w hdr len ↔ (w % 128 ≠ 127 ∧ hdr = 1 ∧ len = w % 128 * 4) ∨
      (w % 128 = 127 ∧ 127 ≤ w / 256 ∧ hdr = 4 ∧ len = w / 256 * 4) := by
  constructor
  · intro h
    cases h with
    | medium hm' => simp [hm] at hm'
    | short _ hw => exact .inl ⟨hw, rfl, rfl⟩
    | long _ hw hl => exact .inr ⟨hw, hl, rfl, rfl⟩
  · rintro (⟨hw, rfl, rfl⟩ | ⟨hw, hl, rfl, rfl⟩)
    · exact .short hm hw
    · exact .long hm hw hl

theorem mediumHead_eq_complete_iff (hm : c.flags.medium = true) :
    mediumHead c w = .complete hdr v c' ↔ setQuickack c (w &&& 0x80000000#32 != 0#32) = c' ∧
      Announces c.flags w.toNat hdr v.toNat ∧ Acceptable c hdr v.toNat := by
  have hlen := toNat_and_not_sign w
  unfold mediumHead
  rw [if_congr (transportError_iff w) rfl rfl, announces_medium_iff hm]
  split_ifs with hw
  · simp only [false_iff]
    omega
  · rw [checkLength_eq_complete_iff (by omega)]
    exact and_congr_right fun _ => and_congr_left fun _ => by omega

theorem compactHead_eq_complete_iff (hm : c.flags.medium = false) :
    compactHead c w = .complete hdr v c' ↔ setQuickack c (w &&& 0x80#32 != 0#32) = c' ∧
      Announces c.flags w.toNat hdr v.toNat ∧ Acceptable c hdr v.toNat := by
  have hseven := toNat_and_low_seven w
  have hshift := clearQuickack_ushiftRight w
  have hshort : ((w &&& 0x7f#32) <<< 2).toNat = w.toNat % 128 * 4 := by
    rw [toNat_shiftLeft_two (by omega), hseven]
  have hlong : (((w &&& ~~~0x80#32) >>> 8) <<< 2).toNat = w.toNat / 256 * 4 := by
    rw [toNat_shiftLeft_two (by omega), hshift]
  have hmark : (w &&& ~~~0x80#32) &&& 0xff#32 = 0x7f#32 ↔ w.toNat % 128 = 127 := by
    rw [clearQuickack_and_byte, ← BitVec.toNat_inj, hseven]
    rfl
  have hoverlong : ((w &&& ~~~0x80#32) >>> 8).slt 0x7f#32 = true ↔ w.toNat / 256 < 127 := by
    rw [slt_iff_toNat_lt (by omega) (by decide), hshift]
    rfl
  unfold compactHead
  simp only [hmark, hoverlong, clearQuickack_and_seven, announces_compact_iff hm]
  split_ifs with hm hl
  · simp only [false_iff]
    omega
  · rw [checkLength_eq_complete_iff (by omega)]
    exact and_congr_right fun _ => and_congr_left fun _ => by omega
  · rw [checkLength_eq_complete_iff (by omega)]
    exact and_congr_right fun _ => and_congr_left fun _ => by omega

/-- The quick-acknowledgement bit of the length word. -/
def quickackBit (c : FrameConn) : Bool :=
  le32 c.inn &&& (if c.flags.medium then 0x80000000#32 else 0x80#32) != 0#32

/-- **The decoding accepts exactly the ready frames**, and changes the quick-acknowledgement
flag and its counter only. -/
theorem frameHead_eq_complete_iff :
    frameHead c = .complete hdr v c' ↔
      setQuickack c (quickackBit c) = c' ∧ FrameReady c hdr v.toNat := by
  have hready (herr : ¬ c.cError = true) (hstop : ¬ c.cStopparse = true)
      (hlen : ¬ c.inn.length < minLen c.flags + 8) : FrameReady c hdr v.toNat ↔
      Announces c.flags (le32 c.inn).toNat hdr v.toNat ∧ Acceptable c hdr v.toNat :=
    ⟨fun h => ⟨h.announced, h.acceptable⟩,
      fun ⟨hann, hacc⟩ => ⟨by simpa using herr, by simpa using hstop, by omega, hann, hacc⟩⟩
  unfold frameHead
  dsimp only
  rw [le32_rwmFetchLookup]
  split_ifs with herr hstop hzero hshort hm
  · exact ⟨nofun, fun ⟨_, h⟩ => absurd herr (by simp [h.running])⟩
  · exact ⟨nofun, fun ⟨_, h⟩ => absurd hstop (by simp [h.parsing])⟩
  · exact ⟨nofun, fun ⟨_, h⟩ => absurd h.enough (by omega)⟩
  · exact ⟨nofun, fun ⟨_, h⟩ => absurd h.enough (by omega)⟩
  · rw [mediumHead_eq_complete_iff hm, hready herr hstop hshort, quickackBit, if_pos hm]
  · rw [compactHead_eq_complete_iff (by simpa using hm), hready herr hstop hshort, quickackBit,
      if_neg hm]

/-! ### Where the loop stops the process -/

/-- The packet counter of a connection past its handshake has not run beyond `INT_MAX + 1`. -/
def FrameConn.Good (c : FrameConn) : Prop := c.inPacketNum.toNat ≤ 2 ^ 31

theorem good_start (t : Transport) : (FrameConn.start t).Good := by
  simp [FrameConn.Good, FrameConn.start]

/-- The packet-type lookup fails on what is left of an accepted payload, once its padding is cut,
iff the transport pads and the payload is shorter than a word. -/
theorem lookup_fails_iff (h : Acceptable c hdr v.toNat) :
    (rwmFetchLookup (frameMessage c.flags.pad ((c.inn.drop hdr).take v.toNat) v) 4).length ≠ 4 ↔
      c.flags.pad = true ∧ v.toNat < 4 := by
  obtain ⟨hpos, -, hal, hbuf⟩ := h
  rw [length_rwmFetchLookup, frameMessage]
  split_ifs with hpad
  · rw [rwmTrunc_eq_take, toNat_and_neg_four, length_take, length_take,
      length_drop, and_iff_right hpad]
    omega
  · rw [length_take, length_drop]
    have : v.toNat % 4 = 0 := hal.resolve_left hpad
    omega

theorem wrapped_iff (hc : c.Good) :
    (c.inPacketNum.slt 0#32 && c.inPacketNum != -3#32) = true ↔
      c.inPacketNum = BitVec.intMin 32 := by
  have hmin : (BitVec.intMin 32).toNat = 2 ^ 31 := by decide
  rw [Bool.and_eq_true, slt_zero_iff, bne_iff_ne, ← BitVec.toNat_inj]
  constructor
  · rintro ⟨hle, -⟩
    exact le_antisymm hc hle
  · intro h
    refine ⟨h.ge, fun h3 => ?_⟩
    rw [h3] at h
    exact absurd h (by decide)

theorem frameBody_eq_abort_iff {flood : Bool} (hc : c.Good)
    (h : Acceptable c hdr v.toNat) :
    frameBody flood hdr v c = .abort ↔
      (c.flags.pad = true ∧ v.toNat < 4) ∨ c.inPacketNum = BitVec.intMin 32 := by
  have hskip : ¬ min hdr c.inn.length ≠ hdr := by
    have := h.2.2.2
    omega
  unfold frameBody rwmSkipData rwmSplitHead
  simp only [hskip, if_false, lookup_fails_iff h, wrapped_iff hc]
  split_ifs with hshort hwrap
  · exact iff_of_true rfl (.inl hshort)
  · exact iff_of_true rfl (.inr hwrap)
  · exact iff_of_false nofun (not_or.2 ⟨hshort, hwrap⟩)

/-- A pass over `c` would take a frame whose payload is no packet type: a padded frame of fewer
than four bytes; or it would take a frame after `2 ^ 31` others, when the packet counter has
wrapped to `INT_MIN`. -/
def FatalFrame (c : FrameConn) : Prop :=
  ∃ hdr len, FrameReady c hdr len ∧
    ((c.flags.pad = true ∧ len < 4) ∨ c.inPacketNum = BitVec.intMin 32)

theorem FrameReady.toNat_ofNat (h : FrameReady c hdr len) : (BitVec.ofNat 32 len).toNat = len := by
  have := h.acceptable.2.1
  rw [BitVec.toNat_ofNat]
  omega

theorem FrameReady.frameHead_eq (h : FrameReady c hdr len) :
    frameHead c = .complete hdr (BitVec.ofNat 32 len) (setQuickack c (quickackBit c)) :=
  frameHead_eq_complete_iff.2 ⟨rfl, h.toNat_ofNat.symm ▸ h⟩

/-- **A pass stops the process exactly on a fatal frame.** -/
theorem framePass_eq_abort_iff (hc : c.Good) (flood : Bool) :
    framePass flood c = .abort ↔ FatalFrame c := by
  have hbody {hdr : ℕ} {v : BitVec 32} (h : FrameReady c hdr v.toNat) :
      frameBody flood hdr v (setQuickack c (quickackBit c)) = .abort ↔
        (c.flags.pad = true ∧ v.toNat < 4) ∨ c.inPacketNum = BitVec.intMin 32 :=
    frameBody_eq_abort_iff hc h.acceptable
  unfold framePass
  constructor
  · intro habort
    cases hhead : frameHead c with
    | ret res c' => simp [hhead] at habort
    | complete hdr v c' =>
      obtain ⟨rfl, hready⟩ := frameHead_eq_complete_iff.1 hhead
      rw [hhead] at habort
      exact ⟨hdr, v.toNat, hready, (hbody hready).1 habort⟩
  · rintro ⟨hdr, len, hready, hfatal⟩
    have hlen : (BitVec.ofNat 32 len).toNat = len := hready.toNat_ofNat
    rw [hready.frameHead_eq]
    rw [← hlen] at hready hfatal
    exact (hbody hready).2 hfatal

/-! ### What a step keeps -/

theorem checkLength_ret (h : checkLength c hdr w = .ret res c') : c' = c.fail ∨ c' = c := by
  unfold checkLength at h
  split_ifs at h <;> cases h <;> simp

theorem frameHead_ret_inPacketNum (h : frameHead c = .ret res c') :
    c'.inPacketNum = c.inPacketNum := by
  have hcheck {q : Bool} {hdr : ℕ} {w : BitVec 32}
      (h : checkLength (setQuickack c q) hdr w = .ret res c') :
      c'.inPacketNum = c.inPacketNum := by
    rcases checkLength_ret h with rfl | rfl <;> rfl
  unfold frameHead mediumHead compactHead at h
  dsimp only at h
  split_ifs at h
  all_goals first
    | exact hcheck h
    | cases h; rfl

theorem toNat_packetNum_add_one_le (n : BitVec 32) : (packetNum n + 1).toNat ≤ 2 ^ 31 := by
  unfold packetNum
  split_ifs with hneg
  · decide
  · rw [slt_zero_iff] at hneg
    exact (Nat.mod_le _ _).trans (by simp; omega)

theorem frameBody_cases (flood : Bool) (hdr : ℕ) (v : BitVec 32) (c : FrameConn) :
    frameBody flood hdr v c = .abort ∨ ∃ msg : List UInt8, 4 ≤ msg.length ∧
      frameBody flood hdr v c = .again { c with
        inn := (c.inn.drop hdr).drop v.toNat
        executed := c.executed ++ [(packetNum c.inPacketNum, msg)]
        cError := c.cError || flood
        inPacketNum := packetNum c.inPacketNum + 1 } := by
  unfold frameBody
  dsimp only
  split_ifs with hskip hlook hassert
  · exact .inl rfl
  · exact .inl rfl
  · exact .inl rfl
  · refine .inr ⟨_, ?_, rfl⟩
    rw [length_rwmFetchLookup] at hlook
    omega

theorem good_frameStep (hc : c.Good) (h : frameStep c e = some c') : c'.Good := by
  cases e with
  | read chunk => cases h; exact hc
  | pass flood =>
    unfold frameStep framePass at h
    cases hhead : frameHead c with
    | ret res d =>
      simp only [hhead, Option.some.injEq] at h
      rw [FrameConn.Good, ← h, frameHead_ret_inPacketNum hhead]
      exact hc
    | complete hdr v d =>
      rcases frameBody_cases flood hdr v d with hbody | ⟨msg, -, hbody⟩
      · simp [hhead, hbody] at h
      · simp only [hhead, hbody, Option.some.injEq] at h
        rw [← h]
        exact toNat_packetNum_add_one_le _

theorem frameStep_isSome_iff (hc : c.Good) :
    (frameStep c e).isSome ↔ (∀ flood, e = .pass flood → ¬ FatalFrame c) := by
  cases e with
  | read chunk => simp [frameStep]
  | pass flood =>
    rw [← framePass_eq_abort_iff hc flood, frameStep]
    cases framePass flood c <;> simp

/-- **The frame loop never fails an assertion along a run iff no pass of the run meets a fatal
frame**: a padded frame with a length of one to three bytes, or a frame after `2 ^ 31` others.
This is over every transport, every byte the client sends and every division into reads. -/
theorem frame_loop_asserts_iff (t : Transport) (es : List FrameEvent) :
    (run frameStep (FrameConn.start t) es).isSome ↔
      Along frameStep (fun c e => ∀ flood, e = .pass flood → ¬ FatalFrame c)
        (FrameConn.start t) es :=
  run_isSome_iff_along (I := FrameConn.Good) (fun _ _ hc => frameStep_isSome_iff hc)
    (fun _ _ _ hc h => good_frameStep hc h) es (good_start t)

/-- The padded transport accepts a length of one byte and then finds no packet type. -/
theorem frame_loop_short_padding_aborts :
    run frameStep (FrameConn.start .padded)
      [.read [1, 0, 0, 0, 0xaa, 0, 0, 0, 0, 0, 0, 0], .pass false] = none := by
  decide

end Mtbolt.ExtServer
