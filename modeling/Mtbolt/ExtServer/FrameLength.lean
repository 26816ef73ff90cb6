import Mtbolt.ExtServer.Frame

/-!
# The two decoders of a frame's length

The length word of a frame is decoded in `tcp_rpcs_compact_parse_execute`, where it sets the
connection's flags, and once more in `obfs2_parse_frame_length` (`net-obfs2-parse.c`), which is the
copy that is fuzzed.
-/

namespace Mtbolt.ExtServer

open Net Words

/-- `struct obfs2_frame_result`. -/
structure FrameLength where
  packetLen : BitVec 32
  headerBytes : ℕ
  quickack : Bool
  deriving DecidableEq, Repr

/-- The end of `obfs2_parse_frame_length`. -/
def obfs2CheckLength (flags : RpcFlags) (maxPacketLen : BitVec 32) (r : FrameLength) :
    Option FrameLength :=
  if r.packetLen.sle 0#32 || r.packetLen &&& 0xc0000000#32 != 0#32 then none
  else if !flags.pad && r.packetLen &&& 3#32 != 0#32 then none
  else if (0#32).slt maxPacketLen && maxPacketLen.slt r.packetLen then none
  else some r

/-- `obfs2_parse_frame_length`; `none` for -1. -/
def obfs2ParseFrameLength (raw4 : BitVec 32) (flags : RpcFlags) (maxPacketLen : BitVec 32) :
    Option FrameLength :=
  if flags.medium then
    if raw4.slt 0#32 && (-1000#32).slt raw4 then none
    else
      obfs2CheckLength flags maxPacketLen
        ⟨raw4 &&& ~~~0x80000000#32, 4, raw4 &&& 0x80000000#32 != 0#32⟩
  else
    let quickack := raw4 &&& 0x80#32 != 0#32
    let packetLen := if quickack then raw4 &&& ~~~0x80#32 else raw4
    if packetLen &&& 0xff#32 = 0x7f#32 then
      if (packetLen >>> 8).slt 0x7f#32 then none
      else obfs2CheckLength flags maxPacketLen ⟨(packetLen >>> 8) <<< 2, 4, quickack⟩
    else obfs2CheckLength flags maxPacketLen ⟨(packetLen &&& 0x7f#32) <<< 2, 1, quickack⟩

/-- The tests in the frame loop. -/
def inlinedCheckLength (flags : RpcFlags) (maxPacketLen packetLen : BitVec 32)
    (packetLenBytes : ℕ) : Option FrameLength :=
  if packetLen.sle 0#32 || packetLen &&& 0xc0000000#32 != 0#32
      || (!flags.pad && packetLen &&& 3#32 != 0#32) then none
  else if maxPacketLen.slt packetLen && (0#32).slt maxPacketLen then none
  else some ⟨packetLen, packetLenBytes, flags.quickack⟩

/-- The decoding in the frame loop; `none` when the connection is failed.  The bit for a quick
acknowledgement is put into the flags. -/
def inlinedFrameLength (packetLen : BitVec 32) (flags : RpcFlags) (maxPacketLen : BitVec 32) :
    Option FrameLength :=
  if flags.medium then
    if packetLen.slt 0#32 && (-1000#32).slt packetLen then none
    else
      inlinedCheckLength { flags with quickack := packetLen &&& 0x80000000#32 != 0#32 } maxPacketLen
        (packetLen &&& 0x7fffffff#32) 4
  else
    let flags := { flags with quickack := packetLen &&& 0x80#32 != 0#32 }
    let packetLen := packetLen &&& ~~~0x80#32
    if packetLen &&& 0xff#32 = 0x7f#32 then
      if (packetLen >>> 8).slt 0x7f#32 then none
      else inlinedCheckLength flags maxPacketLen ((packetLen >>> 8) <<< 2) 4
    else inlinedCheckLength flags maxPacketLen ((packetLen &&& 0x7f#32) <<< 2) 1

/-- What the frame loop does with a length that it accepts. -/
def FrameLength.head (r : FrameLength) (c : FrameConn) : FrameHead :=
  if c.inn.length < r.packetLen.toNat + r.headerBytes then
    .ret (r.packetLen.toNat + r.headerBytes - c.inn.length : ℕ) (setQuickack c r.quickack)
  else .complete r.headerBytes r.packetLen (setQuickack c r.quickack)

/-- A length that is refused fails the connection. -/
def FrameHead.IsRefused : FrameHead → Prop
  | .ret res c => res = 0 ∧ c.cError = true
  | .complete _ _ _ => False

theorem checkLength_eq_inlined (c : FrameConn) (quickack : Bool) (packetLenBytes : ℕ)
    (packetLen : BitVec 32) :
    match inlinedCheckLength (setQuickack c quickack).flags maxPacketLen packetLen
      packetLenBytes with
    | none => (checkLength (setQuickack c quickack) packetLenBytes packetLen).IsRefused
    | some r => checkLength (setQuickack c quickack) packetLenBytes packetLen = r.head c := by
  unfold inlinedCheckLength checkLength
  by_cases hbad : (packetLen.sle 0#32 || packetLen &&& 0xc0000000#32 != 0#32
      || (!(setQuickack c quickack).flags.pad && packetLen &&& 3#32 != 0#32)) = true
  · rw [if_pos hbad, if_pos hbad]
    exact ⟨rfl, rfl⟩
  rw [if_neg hbad, if_neg hbad]
  by_cases hlong : (maxPacketLen.slt packetLen && (0#32).slt maxPacketLen) = true
  · rw [if_pos hlong, if_pos hlong]
    exact ⟨rfl, rfl⟩
  · rw [if_neg hlong, if_neg hlong]
    rfl

/-- **The decoding in the frame loop** is `inlinedFrameLength`, for the `max_packet_len` of the
server. -/
theorem frameHead_eq_inlined (c : FrameConn) (packetLen : BitVec 32) :
    match inlinedFrameLength packetLen c.flags maxPacketLen with
    | none => (if c.flags.medium then mediumHead c packetLen
        else compactHead c packetLen).IsRefused
    | some r => (if c.flags.medium then mediumHead c packetLen
        else compactHead c packetLen) = r.head c := by
  unfold inlinedFrameLength
  by_cases hm : c.flags.medium = true
  · unfold mediumHead
    split_ifs
    · exact ⟨rfl, rfl⟩
    · exact checkLength_eq_inlined c _ 4 _
  · unfold compactHead
    dsimp only
    split_ifs
    · exact ⟨rfl, rfl⟩
    · exact checkLength_eq_inlined c _ 4 _
    · exact checkLength_eq_inlined c _ 1 _

theorem obfs2CheckLength_eq_inlined (flags : RpcFlags) (max : BitVec 32) (r : FrameLength) :
    obfs2CheckLength flags max r =
      inlinedCheckLength { flags with quickack := r.quickack } max r.packetLen r.headerBytes := by
  unfold obfs2CheckLength inlinedCheckLength
  split_ifs <;> simp_all

/-- **The decoders agree** on every word, for all flags and every `max_packet_len`: both refuse, or
both accept the same length, header and bit for a quick acknowledgement. -/
theorem frame_length_agree (raw4 : BitVec 32) (flags : RpcFlags) (maxPacketLen : BitVec 32) :
    obfs2ParseFrameLength raw4 flags maxPacketLen = inlinedFrameLength raw4 flags maxPacketLen := by
  unfold obfs2ParseFrameLength inlinedFrameLength
  simp only [obfs2CheckLength_eq_inlined]
  -- without the bit there is nothing to clear
  have hclear : (if (raw4 &&& 0x80#32 != 0#32) = true then raw4 &&& ~~~0x80#32 else raw4) =
      raw4 &&& ~~~0x80#32 := by
    split_ifs with h
    · rfl
    · have hbit : raw4 &&& 0x80#32 = 0#32 := by simpa using h
      have hsplit : raw4 &&& (0x80#32 ||| ~~~0x80#32) = raw4 := BitVec.and_allOnes
      rw [BitVec.and_or_distrib_left, hbit, BitVec.zero_or] at hsplit
      exact hsplit.symm
  rw [hclear]
  rfl

end Mtbolt.ExtServer
