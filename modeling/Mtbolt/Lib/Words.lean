import Mathlib.Data.Nat.Bitwise
import Mathlib.Tactic

/-!
# Words in byte strings

Machine words as they lie in a byte string, with either end first, and the few facts about masks that
length fields need: what it means that low or high bits are clear, rounding down to a multiple of
four, and signed comparison.
-/

namespace Words

open BitVec Nat

/-- The number a byte string denotes, least significant byte first. -/
def leNat : List UInt8 → ℕ
  | [] => 0
  | b :: bs => b.toNat + 256 * leNat bs

/-- The 32-bit word in the first four bytes. -/
def le32 (bs : List UInt8) : BitVec 32 := BitVec.ofNat 32 (leNat (bs.take 4))

/-- The 64-bit word in the first eight bytes. -/
def le64 (bs : List UInt8) : BitVec 64 := BitVec.ofNat 64 (leNat (bs.take 8))

/-- The four bytes of a word. -/
def le32Bytes (w : BitVec 32) : List UInt8 :=
  (List.range 4).map fun i => UInt8.ofNat (w.toNat / 256 ^ i)

@[simp] theorem length_le32Bytes (w : BitVec 32) : (le32Bytes w).length = 4 := rfl

variable (w : BitVec 32)

theorem le32_le32Bytes_append (rest : List UInt8) : le32 (le32Bytes w ++ rest) = w := by
  have hnat : leNat (le32Bytes w) = w.toNat := by
    simp [le32Bytes, leNat, List.range_succ]
    omega
  rw [le32, List.take_left' (length_le32Bytes w), hnat, ofNat_toNat, setWidth_eq]

theorem toNat_le32_cons_mod (b : UInt8) (bs : List UInt8) :
    (le32 (b :: bs)).toNat % 256 = b.toNat := by
  have := b.toNat_lt
  simp only [le32, List.take_succ_cons, leNat, toNat_ofNat]
  omega

theorem and_three_eq_zero_iff : w &&& 3#32 = 0#32 ↔ w.toNat % 4 = 0 := by
  have h : (w &&& 3#32).toNat = w.toNat % 4 := by
    exact and_two_pow_sub_one_eq_mod w.toNat 2
  rw [← toNat_inj, h]
  simp

theorem and_not_low_eq_zero_iff {k : ℕ} (hk : k ≤ 32) :
    w &&& ~~~BitVec.ofNat 32 (2 ^ k - 1) = 0#32 ↔ w.toNat < 2 ^ k := by
  have hpow : 2 ^ k ≤ 2 ^ 32 := Nat.pow_le_pow_right (by omega) hk
  have hlow : (w &&& BitVec.ofNat 32 (2 ^ k - 1)).toNat = w.toNat % 2 ^ k := by
    rw [toNat_and, toNat_ofNat, mod_eq_of_lt (by omega)]
    exact and_two_pow_sub_one_eq_mod w.toNat k
  have hsame : w &&& ~~~BitVec.ofNat 32 (2 ^ k - 1) = 0#32 ↔
      w &&& BitVec.ofNat 32 (2 ^ k - 1) = w := by
    simp only [eq_of_getLsbD_eq_iff, getLsbD_and, getLsbD_not]
    refine forall₂_congr fun i hi => ?_
    cases w.getLsbD i <;> simp [hi]
  rw [hsame, ← toNat_inj, hlow, mod_eq_iff_lt (by omega)]

theorem and_high_eq_zero_iff : w &&& 0xc0000000#32 = 0#32 ↔ w.toNat < 2 ^ 30 :=
  and_not_low_eq_zero_iff w (k := 30) (by decide)

theorem and_sign_eq_zero_iff : w &&& 0x80000000#32 = 0#32 ↔ w.toNat < 2 ^ 31 :=
  and_not_low_eq_zero_iff w (k := 31) (by decide)

theorem and_bit_seven_eq_zero_iff : w &&& 0x80#32 = 0#32 ↔ w.toNat % 256 < 128 := by
  have h : (w &&& 0x80#32).toNat = (w.toNat.testBit 7).toNat * 128 := by
    exact and_two_pow w.toNat 7
  rw [← toNat_inj, h, testBit_eq_decide_div_mod_eq]
  simp
  omega

theorem toNat_and_neg_four : (w &&& (-4#32)).toNat = w.toNat / 4 * 4 := by
  have h : w &&& (-4#32) = (w >>> 2) <<< 2 := by
    ext i hi
    interval_cases i <;> simp
  rw [h]
  simp only [toNat_shiftLeft, toNat_ushiftRight, Nat.shiftLeft_eq, shiftRight_eq_div_pow]
  omega

theorem toNat_and_not_sign : (w &&& 0x7fffffff#32).toNat = w.toNat % 2 ^ 31 := by
  exact and_two_pow_sub_one_eq_mod w.toNat 31

theorem toNat_and_low_seven : (w &&& 0x7f#32).toNat = w.toNat % 128 := by
  exact and_two_pow_sub_one_eq_mod w.toNat 7

theorem or_low_mod (x n : ℕ) : (x ||| (2 ^ n - 1)) % 2 ^ n = 2 ^ n - 1 := by
  apply eq_of_testBit_eq
  intro i
  by_cases hi : i < n
  · simp [testBit_mod_two_pow, testBit_or, testBit_two_pow_sub_one, hi]
  · simp [testBit_mod_two_pow, testBit_two_pow_sub_one, hi]

theorem toNat_shiftLeft_two {w : BitVec 32} (hw : w.toNat < 2 ^ 30) :
    (w <<< 2).toNat = w.toNat * 4 := by
  rw [toNat_shiftLeft]
  omega

theorem slt_iff_toNat_lt {v w : BitVec 32} (hv : v.toNat < 2 ^ 31) (hw : w.toNat < 2 ^ 31) :
    v.slt w = true ↔ v.toNat < w.toNat := by
  rw [slt_iff_toInt_lt, toInt_eq_toNat_of_lt (by omega), toInt_eq_toNat_of_lt (by omega)]
  omega

theorem sle_zero_iff {w : BitVec 32} (hw : w.toNat < 2 ^ 31) : w.sle 0#32 = true ↔ w.toNat = 0 := by
  rw [sle_iff_toInt_le, toInt_eq_toNat_of_lt (by omega)]
  simp

theorem slt_zero_iff : w.slt 0#32 = true ↔ 2 ^ 31 ≤ w.toNat := by
  rw [slt_iff_toInt_lt, toInt_eq_toNat_cond]
  simp
  omega

/-! ### Big-endian numbers at an offset -/

/-- The byte at an offset. -/
def byteAt (bs : List UInt8) (i : ℕ) : ℕ := (bs.getD i 0).toNat

/-- A big-endian 16-bit number at an offset. -/
def be16 (bs : List UInt8) (i : ℕ) : ℕ := 256 * byteAt bs i + byteAt bs (i + 1)

/-- A big-endian 32-bit number at an offset. -/
def be32 (bs : List UInt8) (i : ℕ) : ℕ := 65536 * be16 bs i + be16 bs (i + 2)

section Offset

variable {bs : List UInt8} {i n : ℕ}

theorem byteAt_take (h : i < n) : byteAt (bs.take n) i = byteAt bs i := by
  simp [byteAt, List.getD_eq_getElem?_getD, List.getElem?_take_of_lt h]

theorem be16_take (h : i + 1 < n) : be16 (bs.take n) i = be16 bs i := by
  rw [be16, be16, byteAt_take (by omega), byteAt_take h]

theorem be32_take (h : i + 3 < n) : be32 (bs.take n) i = be32 bs i := by
  rw [be32, be32, be16_take (by omega), be16_take (by omega)]

theorem byteAt_append (h : i < bs.length) (more : List UInt8) :
    byteAt (bs ++ more) i = byteAt bs i := by
  simp [byteAt, List.getD_eq_getElem?_getD, List.getElem?_append_left h]

theorem be16_append (h : i + 1 < bs.length) (more : List UInt8) :
    be16 (bs ++ more) i = be16 bs i := by
  rw [be16, be16, byteAt_append (by omega), byteAt_append h]

theorem be32_append (h : i + 3 < bs.length) (more : List UInt8) :
    be32 (bs ++ more) i = be32 bs i := by
  rw [be32, be32, be16_append (by omega), be16_append h]

end Offset

end Words
