import Mtbolt.ExtServer.Frame

/-!
# Frames at the front of the stream

What a pass of the frame loop does when the buffer begins with a frame of a message, or with a part
of one.
-/

namespace Mtbolt.ExtServer

open Net Words BitVec List

/-- The bytes `f` are a frame of the message `m`: `hdr` bytes that announce `len` more, which are
the message with its padding. -/
structure IsFrame (flags : RpcFlags) (hdr len : ℕ) (m f : List UInt8) : Prop where
  length : f.length = hdr + len
  enough : minLen flags + 8 ≤ f.length
  announced : Announces flags (le32 f).toNat hdr len
  quickack : le32 f &&& (if flags.medium then 0x80000000#32 else 0x80#32) = 0#32
  pos : 0 < len
  le : len ≤ 1044480
  words : flags.pad = true ∨ len % 4 = 0
  packetType : 4 ≤ m.length
  message : frameMessage flags.pad (f.drop hdr) (BitVec.ofNat 32 len) = m

/-- `f` is a frame of the message `m`. -/
def FrameOf (flags : RpcFlags) (m f : List UInt8) : Prop := ∃ hdr len, IsFrame flags hdr len m f

theorem FrameOf.length_pos {flags : RpcFlags} {m f : List UInt8} (h : FrameOf flags m f) :
    0 < f.length := by
  obtain ⟨hdr, len, h⟩ := h
  have := h.enough
  omega

theorem le32_of_isPrefix {a b : List UInt8} (h : a <+: b) (hlen : 4 ≤ a.length) :
    le32 a = le32 b := by
  obtain ⟨rest, rfl⟩ := h
  rw [le32, le32, take_append_of_le_length hlen]

variable {c : FrameConn} {rest : List UInt8}

theorem setQuickack_false (h : c.flags.quickack = false) : setQuickack c false = c := by
  cases c with
  | mk flags num err stop inn executed errors acks =>
    cases flags
    simp_all [setQuickack]

theorem head_eq_checkLength {w : BitVec 32} {hdr len : ℕ}
    (hann : Announces c.flags w.toNat hdr len) :
    (if c.flags.medium then mediumHead c w else compactHead c w) =
      checkLength (setQuickack c
        (w &&& (if c.flags.medium then 0x80000000#32 else 0x80#32) != 0#32)) hdr
        (BitVec.ofNat 32 len) := by
  have hseven := toNat_and_low_seven w
  have hshift := clearQuickack_ushiftRight w
  have hmark : (w &&& ~~~0x80#32) &&& 0xff#32 = 0x7f#32 ↔ w.toNat % 128 = 127 := by
    rw [clearQuickack_and_byte, ← toNat_inj, hseven]
    rfl
  cases hann with
  | medium hm hle =>
    rw [if_pos hm, if_pos hm, mediumHead, if_neg (by rw [transportError_iff]; omega)]
    congr 1
    rw [← toNat_inj, toNat_and_not_sign, toNat_ofNat]
    omega
  | short hm hne =>
    have hlen : (w &&& 0x7f#32) <<< 2 = BitVec.ofNat 32 (w.toNat % 128 * 4) := by
      rw [← toNat_inj, toNat_shiftLeft_two (by omega), toNat_ofNat]
      omega
    rw [hm, if_neg Bool.false_ne_true, if_neg Bool.false_ne_true, compactHead,
      if_neg (mt hmark.1 hne), clearQuickack_and_seven, hlen]
  | long hm hmark' hle =>
    have hover : ¬ ((w &&& ~~~0x80#32) >>> 8).slt 0x7f#32 = true := by
      rw [slt_iff_toNat_lt (by omega) (by decide), hshift]
      show ¬ w.toNat / 256 < 127
      omega
    have hlen : ((w &&& ~~~0x80#32) >>> 8) <<< 2 = BitVec.ofNat 32 (w.toNat / 256 * 4) := by
      rw [← toNat_inj, toNat_shiftLeft_two (by omega), toNat_ofNat]
      omega
    rw [hm, if_neg Bool.false_ne_true, if_neg Bool.false_ne_true, compactHead,
      if_pos (hmark.2 hmark'), if_neg hover, hlen]

theorem checkLength_of_small {hdr len : ℕ} (hpos : 0 < len) (hle : len ≤ 1044480)
    (hwords : c.flags.pad = true ∨ len % 4 = 0) :
    checkLength c hdr (BitVec.ofNat 32 len) =
      if c.inn.length < len + hdr then .ret (len + hdr - c.inn.length : ℕ) c
      else .complete hdr (BitVec.ofNat 32 len) c := by
  have hlen : (BitVec.ofNat 32 len).toNat = len := by
    rw [toNat_ofNat]
    omega
  have hlt : (BitVec.ofNat 32 len).toNat < 2 ^ 31 := by omega
  have hgood : ¬ (len = 0 ∨ 2 ^ 30 ≤ len ∨ c.flags.pad = false ∧ len % 4 ≠ 0) := by
    rintro (h | h | ⟨h, h'⟩)
    · omega
    · omega
    · exact hwords.elim (fun hpad => by simp [hpad] at h) h'
  unfold checkLength
  simp only [badLength_iff c.flags.pad hlt, overMaxLength_iff hlt, hlen]
  rw [if_neg hgood, if_neg (not_lt.2 hle)]

section Pass

variable {c : FrameConn} {hdr len : ℕ} {m f : List UInt8}

/-- A connection that the loop works on, past its handshake. -/
structure FrameConn.Open (c : FrameConn) : Prop where
  running : c.cError = false
  parsing : c.cStopparse = false
  quickack : c.flags.quickack = false

theorem frameHead_of_isFrame (hc : c.Open) (hf : IsFrame c.flags hdr len m f)
    (hword : le32 c.inn = le32 f) (henough : minLen c.flags + 8 ≤ c.inn.length) :
    frameHead c = if c.inn.length < len + hdr then .ret (len + hdr - c.inn.length : ℕ) c
      else .complete hdr (BitVec.ofNat 32 len) c := by
  have hnone : setQuickack c
      (le32 f &&& (if c.flags.medium then 0x80000000#32 else 0x80#32) != 0#32) = c := by
    rw [hf.quickack]
    exact setQuickack_false hc.quickack
  unfold frameHead
  rw [hc.running, if_neg Bool.false_ne_true, hc.parsing, if_neg Bool.false_ne_true,
    if_neg (by omega), if_neg (by omega), le32_rwmFetchLookup, hword,
    head_eq_checkLength hf.announced, hnone, checkLength_of_small hf.pos hf.le hf.words]

theorem framePass_frame (hc : c.Open) (hnum : c.inPacketNum.toNat < 2 ^ 31)
    (hf : FrameOf c.flags m f) (hinn : c.inn = f ++ rest) :
    framePass false c = .again { c with
      inn := rest
      executed := c.executed ++ [(c.inPacketNum, m)]
      inPacketNum := c.inPacketNum + 1 } := by
  obtain ⟨hdr, len, hf⟩ := hf
  have hlong : f.length ≤ c.inn.length := by
    rw [hinn, length_append]
    omega
  have hword : le32 c.inn = le32 f := by
    have := hf.enough
    exact (le32_of_isPrefix ⟨rest, hinn.symm⟩ (by omega)).symm
  have hlen := hf.length
  have hskip : ¬ min hdr c.inn.length ≠ hdr := by omega
  have hof : (BitVec.ofNat 32 len).toNat = len := by
    have := hf.le
    rw [toNat_ofNat]
    omega
  have hhead : (c.inn.drop hdr).take len = f.drop hdr := by
    rw [hinn, drop_append_of_le_length (by omega),
      take_append_of_le_length (by rw [length_drop]; omega), take_of_length_le]
    rw [length_drop]
    omega
  have htail : (c.inn.drop hdr).drop len = rest := by
    rw [drop_drop, hinn, ← hlen, drop_left]
  have htype : (rwmFetchLookup m 4).length = 4 := by
    rw [length_rwmFetchLookup]
    have := hf.packetType
    omega
  have hneg : c.inPacketNum.slt 0#32 = false := by
    rw [Bool.eq_false_iff, ne_eq, slt_zero_iff]
    omega
  unfold framePass
  rw [frameHead_of_isFrame hc hf hword (hf.enough.trans hlong), if_neg (by omega)]
  unfold frameBody rwmSkipData rwmSplitHead
  simp only [hskip, if_false, hof, hhead, htail, hf.message, htype, ne_eq, not_true, hneg,
    Bool.false_and, Bool.false_eq_true, packetNum, Bool.or_false]

theorem framePass_short (hc : c.Open) (hf : FrameOf c.flags m f)
    (hinn : c.inn <+: f ++ rest) (hshort : c.inn.length < f.length) (hne : c.inn ≠ []) :
    ∃ n : ℕ, framePass false c = .ret n c ∧ 0 < n ∧ c.inn.length + n ≤ f.length := by
  obtain ⟨hdr, len, hf⟩ := hf
  have hpos : 0 < c.inn.length := length_pos_of_ne_nil hne
  have hlen := hf.length
  have hlong := hf.enough
  unfold framePass
  by_cases henough : minLen c.flags + 8 ≤ c.inn.length
  · have hpart : c.inn <+: f := prefix_of_prefix_length_le hinn (prefix_append f rest) hshort.le
    have hword : le32 c.inn = le32 f := le32_of_isPrefix hpart (by omega)
    rw [frameHead_of_isFrame hc hf hword henough, if_pos (by omega)]
    exact ⟨len + hdr - c.inn.length, rfl, by omega, by omega⟩
  · have hwait : frameHead c = .ret (minLen c.flags + 8 - c.inn.length : ℕ) c := by
      unfold frameHead
      rw [hc.running, if_neg Bool.false_ne_true, hc.parsing, if_neg Bool.false_ne_true,
        if_neg (by omega), if_pos (by omega)]
    rw [hwait]
    exact ⟨minLen c.flags + 8 - c.inn.length, rfl, by omega, by omega⟩

theorem framePass_nil (hc : c.Open) (hinn : c.inn = []) :
    framePass false c = .ret needMoreBytes c := by
  unfold framePass frameHead
  rw [hc.running, if_neg Bool.false_ne_true, hc.parsing, if_neg Bool.false_ne_true, hinn,
    if_pos length_nil]

theorem framePass_overlong (flood : Bool) (hc : c.Open)
    (henough : minLen c.flags + 8 ≤ c.inn.length)
    (hann : Announces c.flags (le32 c.inn).toNat hdr len) (hover : 1044480 < len) :
    ∃ c', framePass flood c = .ret 0 c' ∧ c'.cError = true ∧ c'.executed = c.executed := by
  have hlt : len < 2 ^ 31 := by
    cases hann <;> omega
  have hlen : (BitVec.ofNat 32 len).toNat = len := by
    rw [toNat_ofNat]
    omega
  have hrefused (d : FrameConn) : checkLength d hdr (BitVec.ofNat 32 len) = .ret 0 d.fail := by
    unfold checkLength
    simp only [overMaxLength_iff (hlen.symm ▸ hlt), hlen, hover, if_true, ite_self]
  have hhead : frameHead c = .ret 0 (setQuickack c (le32 c.inn &&&
      (if c.flags.medium then 0x80000000#32 else 0x80#32) != 0#32)).fail := by
    unfold frameHead
    rw [hc.running, if_neg Bool.false_ne_true, hc.parsing, if_neg Bool.false_ne_true,
      if_neg (by omega), if_neg (by omega), le32_rwmFetchLookup, head_eq_checkLength hann, hrefused]
  unfold framePass
  rw [hhead]
  exact ⟨_, rfl, rfl, rfl⟩

end Pass

end Mtbolt.ExtServer
