import Mtbolt.ExtServer.FrameStream
import Mtbolt.Mtproto.Answer

/-!
# What the writer writes, the frame loop reads

`tcp_rpc_write_packet_compact` puts a length in front of a message, after it has padded it if the
transport pads.  The length has three forms, and each of them is one that the frame loop of
`tcp_rpcs_compact_parse_execute` decodes.
-/

namespace Mtbolt.Mtproto

open ExtServer Net Words BitVec List

/-- A client to which messages are written with the transport `t`. -/
structure Speaks (t : Transport) (d : Client) : Prop where
  compact : d.compact = (t == .compact)
  medium : d.medium = t.flags.medium
  pad : d.pad = t.flags.pad
  tlsUninited : d.tlsUninited = false

/-- The message as it is sent, without the length: with its padding, if the transport pads. -/
def padded (t : Transport) (r : PadRandom) (m : List UInt8) : List UInt8 :=
  if t.flags.pad then m ++ r.bytes else m

theorem length_padded (t : Transport) (r : PadRandom) (m : List UInt8) :
    m.length ≤ (padded t r m).length ∧ (padded t r m).length ≤ m.length + 3 ∧
      (t.flags.pad = false → (padded t r m).length = m.length) := by
  have hbytes := length_padBytes r
  unfold padded
  split_ifs with hpad
  · rw [length_append]
    exact ⟨by omega, by omega, fun h => absurd hpad (by simp [h])⟩
  · exact ⟨le_rfl, by omega, fun _ => rfl⟩

section Frames

variable {t : Transport} {d : Client} {r : PadRandom} {m : List UInt8}

theorem writePacketCompact_eq_some (crc : List UInt8 → BitVec 32) (hd : Speaks t d)
    (hmod : m.length % 4 = 0) (hlt : (padded t r m).length < 2 ^ 26) :
    tcpRpcWritePacketCompact crc d r m = some (Mtproto.frameMessage d (padded t r m)) := by
  have hframed : (d.compact || d.medium) = true := by
    rw [hd.compact, hd.medium]
    cases t <;> rfl
  have hlen : (BitVec.ofNat 32 (padded t r m).length).toNat = (padded t r m).length := by
    rw [toNat_ofNat]
    omega
  have hmask : BitVec.ofNat 32 (padded t r m).length &&& 0xfc000000#32 = 0#32 := by
    have h := and_not_low_eq_zero_iff (BitVec.ofNat 32 (padded t r m).length) (k := 26) (by decide)
    rw [hlen] at h
    exact h.2 hlt
  have hwords : ¬ ((!d.pad) = true ∧ BitVec.ofNat 32 (padded t r m).length &&& 3#32 ≠ 0#32) := by
    rintro ⟨hpad, hne⟩
    rw [ne_eq, and_three_eq_zero_iff, hlen] at hne
    rw [hd.pad, Bool.not_eq_true'] at hpad
    rw [(length_padded t r m).2.2 hpad] at hne
    exact hne hmod
  unfold tcpRpcWritePacketCompact
  rw [if_neg (by omega : m.length ≠ 5), hd.tlsUninited, if_neg Bool.false_ne_true, hframed,
    Bool.not_true, if_neg Bool.false_ne_true, hd.pad,
    show (if t.flags.pad = true then m ++ r.bytes else m) = padded t r m from rfl, writeFramed,
    if_neg (not_not.2 hmask), if_neg hwords]

theorem frameMessage_padded (hmod : m.length % 4 = 0) (hle : (padded t r m).length ≤ 1044480) :
    ExtServer.frameMessage t.flags.pad (padded t r m)
      (BitVec.ofNat 32 (padded t r m).length) = m := by
  have hlen : (BitVec.ofNat 32 (padded t r m).length).toNat = (padded t r m).length := by
    rw [toNat_ofNat]
    omega
  obtain ⟨hlow, hhigh, -⟩ := length_padded t r m
  unfold ExtServer.frameMessage
  split_ifs with hpad
  · have hcut : (padded t r m).length / 4 * 4 = m.length := by omega
    rw [rwmTrunc_eq_take, toNat_and_neg_four, hlen, hcut, padded, if_pos hpad]
    exact take_left' rfl
  · rw [padded, if_neg hpad]

theorem isFrame_medium (hmedium : t.flags.medium = true) (hmod : m.length % 4 = 0)
    (hmin : 8 ≤ m.length) (hle : (padded t r m).length ≤ 1044480) :
    IsFrame t.flags 4 (padded t r m).length m
      (le32Bytes (BitVec.ofNat 32 (padded t r m).length) ++ padded t r m) := by
  obtain ⟨hlow, -, hsame⟩ := length_padded t r m
  have hword := le32_le32Bytes_append (BitVec.ofNat 32 (padded t r m).length) (padded t r m)
  have hlen : (BitVec.ofNat 32 (padded t r m).length).toNat = (padded t r m).length := by
    rw [toNat_ofNat]
    omega
  refine ⟨by rw [length_append, length_le32Bytes], ?_, ?_, ?_, by omega, hle, ?_, by omega, ?_⟩
  · rw [minLen, if_pos hmedium, length_append, length_le32Bytes]
    omega
  · have hann : Announces t.flags (padded t r m).length 4 ((padded t r m).length % 2 ^ 31) :=
      .medium hmedium (by omega)
    rw [Nat.mod_eq_of_lt (by omega)] at hann
    rwa [hword, hlen]
  · rw [if_pos hmedium, hword, and_sign_eq_zero_iff]
    omega
  · by_cases hpad : t.flags.pad = true
    · exact .inl hpad
    · rw [hsame (Bool.not_eq_true _ ▸ hpad)]
      exact .inr hmod
  · exact frameMessage_padded hmod hle

theorem isFrame_short (hmod : m.length % 4 = 0) (hmin : 8 ≤ m.length) (hle : m.length ≤ 0x7e * 4) :
    IsFrame Transport.compact.flags 1 m.length m (UInt8.ofNat (m.length / 4) :: m) := by
  have hlow : (le32 (UInt8.ofNat (m.length / 4) :: m)).toNat % 256 = m.length / 4 := by
    rw [toNat_le32_cons_mod, UInt8.toNat_ofNat']
    omega
  refine ⟨by rw [length_cons]; omega, ?_, ?_, ?_, by omega, by omega, .inr hmod, by omega, rfl⟩
  · show 1 + 8 ≤ _
    rw [length_cons]
    omega
  · generalize (le32 (UInt8.ofNat (m.length / 4) :: m)).toNat = w at hlow ⊢
    have hann : Announces Transport.compact.flags w 1 (w % 128 * 4) := .short rfl (by omega)
    rwa [show w % 128 * 4 = m.length by omega] at hann
  · show _ &&& 0x80#32 = 0#32
    rw [and_bit_seven_eq_zero_iff]
    omega

theorem toNat_longHeader {n : ℕ} (hmod : n % 4 = 0) (hlt : n < 2 ^ 26) :
    ((BitVec.ofNat 32 n <<< 6) ||| 0x7f#32).toNat = n / 4 * 256 + 127 := by
  have hor : 2 ^ 8 * (n / 4) + 127 = 2 ^ 8 * (n / 4) ||| 127 :=
    Nat.two_pow_add_eq_or_of_lt (by decide) _
  have hshift : (BitVec.ofNat 32 n <<< 6).toNat = 2 ^ 8 * (n / 4) := by
    rw [toNat_shiftLeft, toNat_ofNat]
    omega
  rw [toNat_or, hshift, show (0x7f#32).toNat = 127 from rfl]
  omega

theorem isFrame_long (hmod : m.length % 4 = 0) (hmin : 0x7e * 4 < m.length)
    (hle : m.length ≤ 1044480) :
    IsFrame Transport.compact.flags 4 m.length m
      (le32Bytes ((BitVec.ofNat 32 m.length <<< 6) ||| 0x7f#32) ++ m) := by
  have hword := le32_le32Bytes_append ((BitVec.ofNat 32 m.length <<< 6) ||| 0x7f#32) m
  have hnat := toNat_longHeader hmod (by omega : m.length < 2 ^ 26)
  refine ⟨by rw [length_append, length_le32Bytes], ?_, ?_, ?_, by omega, hle, .inr hmod,
    by omega, ?_⟩
  · show 1 + 8 ≤ _
    rw [length_append]
    omega
  · rw [hword]
    generalize ((BitVec.ofNat 32 m.length <<< 6) ||| 0x7f#32).toNat = w at hnat ⊢
    have hann : Announces Transport.compact.flags w 4 (w / 256 * 4) :=
      .long rfl (by omega) (by omega)
    rwa [show w / 256 * 4 = m.length by omega] at hann
  · show _ &&& 0x80#32 = 0#32
    rw [and_bit_seven_eq_zero_iff, hword]
    omega
  · rfl

theorem take_le32Bytes_sshiftRight {n : ℕ} (hle : n ≤ 0x7e * 4) :
    (le32Bytes ((BitVec.ofNat 32 n).sshiftRight 2)).take 1 = [UInt8.ofNat (n / 4)] := by
  have hmsb : (BitVec.ofNat 32 n).msb = false := by
    rw [msb_eq_false_iff_two_mul_lt, toNat_ofNat]
    omega
  have hshift : ((BitVec.ofNat 32 n).sshiftRight 2).toNat = n / 4 := by
    rw [sshiftRight_eq_of_msb_false hmsb, toNat_ushiftRight, toNat_ofNat]
    omega
  simp [le32Bytes, hshift, range_succ]

theorem frameOf_writePacketCompact (crc : List UInt8 → BitVec 32) (hd : Speaks t d)
    (hmod : m.length % 4 = 0) (hmin : 8 ≤ m.length) (hle : (padded t r m).length ≤ 1044480) :
    ∃ f, tcpRpcWritePacketCompact crc d r m = some f ∧ FrameOf t.flags m f := by
  refine ⟨_, writePacketCompact_eq_some crc hd hmod (by omega), ?_⟩
  unfold Mtproto.frameMessage
  rw [hd.medium]
  cases t with
  | medium => exact ⟨4, _, isFrame_medium rfl hmod hmin hle⟩
  | padded => exact ⟨4, _, isFrame_medium rfl hmod hmin hle⟩
  | compact =>
    have hsame : padded .compact r m = m := rfl
    rw [hsame] at hle ⊢
    have hint : (BitVec.ofNat 32 m.length).toInt = m.length := by
      rw [toInt_eq_toNat_of_lt (by rw [toNat_ofNat]; omega), toNat_ofNat]
      omega
    rw [if_neg (by decide)]
    by_cases hshort : m.length ≤ 0x7e * 4
    · rw [if_pos (by omega), take_le32Bytes_sshiftRight hshort]
      exact ⟨1, _, isFrame_short hmod hmin hshort⟩
    · rw [if_neg (by omega)]
      exact ⟨4, _, isFrame_long hmod (by omega) hle⟩

end Frames

/-! ### Several messages -/

/-- The messages of `out_queue`, each with the random numbers that are drawn for it. -/
def writeAll (crc : List UInt8 → BitVec 32) (d : Client) :
    List (PadRandom × List UInt8) → Option (List UInt8)
  | [] => some []
  | p :: ms => do
    let f ← tcpRpcWritePacketCompact crc d p.1 p.2
    let rest ← writeAll crc d ms
    return f ++ rest

/-- A message of whole words that is not too long, padded or not. -/
def Fits (t : Transport) (p : PadRandom × List UInt8) : Prop :=
  p.2.length % 4 = 0 ∧ 8 ≤ p.2.length ∧ (padded t p.1 p.2).length ≤ maxPacketLen.toNat

theorem writeAll_eq_flatten (crc : List UInt8 → BitVec 32) {t : Transport} {d : Client}
    (hd : Speaks t d) {ms : List (PadRandom × List UInt8)} (hms : ∀ p ∈ ms, Fits t p) :
    ∃ fs, writeAll crc d ms = some fs.flatten ∧
      List.Forall₂ (FrameOf t.flags) (ms.map Prod.snd) fs := by
  induction ms with
  | nil => exact ⟨[], rfl, .nil⟩
  | cons p ms ih =>
    obtain ⟨hmod, hmin, hle⟩ := hms p mem_cons_self
    obtain ⟨f, hf, hframe⟩ := frameOf_writePacketCompact crc hd hmod hmin hle
    obtain ⟨fs, hfs, hframes⟩ := ih fun q hq => hms q (mem_cons_of_mem p hq)
    refine ⟨f :: fs, ?_, .cons hframe hframes⟩
    simp [writeAll, hf, hfs]

end Mtbolt.Mtproto
