import Mathlib.Tactic

/-!
# Cipher block chaining

A block cipher is used on a stream of bytes: each block is combined with the encrypted block before
it, the first one with an initial vector.  The stream may be encrypted and decrypted in several
parts, if the last encrypted block is carried from one to the next.

* `BlockCipher`: a cipher on blocks of `k` bytes;
* `encrypt`, `decrypt`: the modes, over all full blocks;
* `lastOf`: the block that is carried over;
* `encrypt_append`, `decrypt_append`: the parts of a stream; `decrypt_encrypt`: the round trip.
-/

namespace Cbc

open List

variable {k : ℕ}

/-- A cipher on blocks of `k` bytes. -/
structure BlockCipher (k : ℕ) where
  enc : List UInt8 → List UInt8
  dec : List UInt8 → List UInt8
  length_enc : ∀ b, b.length = k → (enc b).length = k
  dec_enc : ∀ b, b.length = k → dec (enc b) = b

/-- Two blocks combined byte by byte. -/
def xorBlock (a b : List UInt8) : List UInt8 := List.zipWith (· ^^^ ·) a b

/-- The first `n` blocks encrypted, after the block `iv`. -/
def encryptBlocks (E : BlockCipher k) : ℕ → List UInt8 → List UInt8 → List UInt8
  | 0, _, _ => []
  | n + 1, iv, data =>
    let c := E.enc (xorBlock (data.take k) iv)
    c ++ encryptBlocks E n c (data.drop k)

/-- The first `n` blocks decrypted, after the block `iv`. -/
def decryptBlocks (E : BlockCipher k) : ℕ → List UInt8 → List UInt8 → List UInt8
  | 0, _, _ => []
  | n + 1, iv, data =>
    xorBlock (E.dec (data.take k)) iv ++ decryptBlocks E n (data.take k) (data.drop k)

/-- All full blocks encrypted. -/
def encrypt (E : BlockCipher k) (iv data : List UInt8) : List UInt8 :=
  encryptBlocks E (data.length / k) iv data

/-- All full blocks decrypted. -/
def decrypt (E : BlockCipher k) (iv data : List UInt8) : List UInt8 :=
  decryptBlocks E (data.length / k) iv data

/-- The block before the next one, after `iv` and some encrypted blocks. -/
def lastOf (k : ℕ) (iv ct : List UInt8) : List UInt8 :=
  if ct = [] then iv else ct.drop (ct.length - k)

variable {a b iv data : List UInt8}

theorem xorBlock_xorBlock (h : a.length = b.length) : xorBlock (xorBlock a b) b = a := by
  refine ext_getElem (by simp [xorBlock, h]) fun i h₁ h₂ => ?_
  simp only [xorBlock, getElem_zipWith]
  rw [UInt8.xor_assoc, UInt8.xor_self, UInt8.xor_zero]

theorem length_xorBlock (h : a.length = b.length) : (xorBlock a b).length = b.length := by
  simp [xorBlock, h]

@[simp] theorem lastOf_nil (iv : List UInt8) : lastOf k iv [] = iv := if_pos rfl

theorem lastOf_append (hb : b ≠ [] → k ≤ b.length) :
    lastOf k iv (a ++ b) = lastOf k (lastOf k iv a) b := by
  by_cases hnil : b = []
  · rw [hnil, append_nil, lastOf_nil]
  · have hle := hb hnil
    have hne : a ++ b ≠ [] := fun h => hnil (append_eq_nil_iff.1 h).2
    have hsub : (a ++ b).length - k = a.length + (b.length - k) := by
      rw [length_append]
      omega
    rw [lastOf, if_neg hne, lastOf, if_neg hnil, hsub, drop_append,
      drop_eq_nil_of_le (Nat.le_add_right _ _), nil_append, Nat.add_sub_cancel_left]

theorem lastOf_block {c : List UInt8} (hc : c.length = k) (hk : 0 < k) : lastOf k iv c = c := by
  have hne : c ≠ [] := ne_nil_of_length_pos (hc.symm ▸ hk)
  rw [lastOf, if_neg hne, hc, Nat.sub_self, drop_zero]

theorem length_lastOf {ct : List UInt8} (hiv : iv.length = k) (hct : ct ≠ [] → k ≤ ct.length) :
    (lastOf k iv ct).length = k := by
  unfold lastOf
  split_ifs with hnil
  · exact hiv
  · have := hct hnil
    rw [length_drop]
    omega

section Blocks

variable (E : BlockCipher k)

variable {n : ℕ} {iv data : List UInt8}

theorem length_encryptBlocks (hiv : iv.length = k) (hdata : n * k ≤ data.length) :
    (encryptBlocks E n iv data).length = n * k := by
  induction n generalizing iv data with
  | zero => simp [encryptBlocks]
  | succ n ih =>
    rw [Nat.succ_mul] at hdata
    have htake : (data.take k).length = iv.length := by
      rw [length_take]
      omega
    have hc := E.length_enc _ ((length_xorBlock htake).trans hiv)
    rw [encryptBlocks]
    rw [length_append, hc, ih hc (by rw [length_drop]; omega), Nat.succ_mul, Nat.add_comm]

theorem split_block (hdata : data.length = (n + 1) * k) (more : List UInt8) :
    (data ++ more).take k = data.take k ∧ (data ++ more).drop k = data.drop k ++ more ∧
      (data.take k).length = k ∧ (data.drop k).length = n * k := by
  rw [Nat.succ_mul] at hdata
  refine ⟨take_append_of_le_length (by omega), drop_append_of_le_length (by omega), ?_, ?_⟩
  · rw [length_take]
    omega
  · rw [length_drop]
    omega

theorem le_of_blocks (h : data.length = n * k) (hne : data ≠ []) : k ≤ data.length := by
  rw [h]
  refine Nat.le_mul_of_pos_left k (Nat.pos_of_ne_zero ?_)
  rintro rfl
  rw [Nat.zero_mul] at h
  exact hne (length_eq_zero_iff.1 h)

theorem encryptBlocks_append (m : ℕ) (hk : 0 < k) (hiv : iv.length = k)
    (hdata : data.length = n * k) (more : List UInt8) :
    encryptBlocks E (n + m) iv (data ++ more) = encryptBlocks E n iv data ++
      encryptBlocks E m (lastOf k iv (encryptBlocks E n iv data)) more := by
  induction n generalizing iv data with
  | zero =>
    have hnil : data = [] := length_eq_zero_iff.1 (by simpa using hdata)
    simp [hnil, encryptBlocks]
  | succ n ih =>
    obtain ⟨htake, hdrop, hlen, hrest⟩ := split_block hdata more
    have hc := E.length_enc _ ((length_xorBlock (hlen.trans hiv.symm)).trans hiv)
    rw [Nat.succ_add, encryptBlocks, encryptBlocks, htake, hdrop]
    rw [ih hc hrest, lastOf_append, lastOf_block hc hk, append_assoc]
    exact le_of_blocks (length_encryptBlocks E hc hrest.ge)

theorem decryptBlocks_append (m : ℕ) (hk : 0 < k) (hdata : data.length = n * k)
    (more : List UInt8) :
    decryptBlocks E (n + m) iv (data ++ more) =
      decryptBlocks E n iv data ++ decryptBlocks E m (lastOf k iv data) more := by
  induction n generalizing iv data with
  | zero =>
    have hnil : data = [] := length_eq_zero_iff.1 (by simpa using hdata)
    simp [hnil, decryptBlocks]
  | succ n ih =>
    obtain ⟨htake, hdrop, hlen, hrest⟩ := split_block hdata more
    have hlast : lastOf k iv data = lastOf k (data.take k) (data.drop k) := by
      conv_lhs => rw [← take_append_drop k data]
      rw [lastOf_append (le_of_blocks hrest), lastOf_block hlen hk]
    rw [Nat.succ_add, decryptBlocks, decryptBlocks, htake, hdrop, ih hrest, hlast, append_assoc]

theorem decryptBlocks_encryptBlocks (hiv : iv.length = k) (hdata : data.length = n * k) :
    decryptBlocks E n iv (encryptBlocks E n iv data) = data := by
  induction n generalizing iv data with
  | zero => exact (length_eq_zero_iff.1 (by simpa using hdata)).symm
  | succ n ih =>
    rw [Nat.succ_mul] at hdata
    have hlen : (data.take k).length = iv.length := by
      rw [length_take]
      omega
    have hxor := (length_xorBlock hlen).trans hiv
    have hc := E.length_enc _ hxor
    rw [encryptBlocks, decryptBlocks]
    rw [take_left' hc, drop_left' hc, E.dec_enc _ hxor, xorBlock_xorBlock hlen,
      ih hc (by rw [length_drop]; omega), take_append_drop]

end Blocks

/-! ### Streams -/

variable (E : BlockCipher k)

theorem length_encrypt (hiv : iv.length = k) (hdata : k ∣ data.length) :
    (encrypt E iv data).length = data.length := by
  rw [encrypt, length_encryptBlocks E hiv (Nat.div_mul_le_self _ _), Nat.div_mul_cancel hdata]

theorem decrypt_encrypt (hiv : iv.length = k) (hdata : k ∣ data.length) :
    decrypt E iv (encrypt E iv data) = data := by
  rw [decrypt, length_encrypt E hiv hdata]
  exact decryptBlocks_encryptBlocks E hiv (Nat.div_mul_cancel hdata).symm

variable (hk : 0 < k)

include hk

omit E in
theorem exists_blocks (hdata : k ∣ data.length) (more : List UInt8) :
    ∃ n, data.length = n * k ∧ data.length / k = n ∧
      (data ++ more).length / k = n + more.length / k := by
  obtain ⟨n, hn⟩ := hdata
  refine ⟨n, hn.trans (Nat.mul_comm k n), by rw [hn, Nat.mul_div_cancel_left _ hk], ?_⟩
  rw [length_append, hn, Nat.mul_add_div hk]

theorem encrypt_append (hiv : iv.length = k) (hdata : k ∣ data.length) (more : List UInt8) :
    encrypt E iv (data ++ more) =
      encrypt E iv data ++ encrypt E (lastOf k iv (encrypt E iv data)) more := by
  obtain ⟨n, hn, hdiv, hsum⟩ := exists_blocks hk hdata more
  rw [encrypt, hsum, encryptBlocks_append E _ hk hiv hn, encrypt, hdiv, encrypt]

theorem decrypt_append (hdata : k ∣ data.length) (more : List UInt8) :
    decrypt E iv (data ++ more) = decrypt E iv data ++ decrypt E (lastOf k iv data) more := by
  obtain ⟨n, hn, hdiv, hsum⟩ := exists_blocks hk hdata more
  rw [decrypt, hsum, decryptBlocks_append E _ hk hn, decrypt, hdiv, decrypt]

theorem decrypt_take_encrypt (hiv : iv.length = k) {n : ℕ} (hn : k ∣ n) (hle : n ≤ data.length) :
    decrypt E iv ((encrypt E iv data).take n) = data.take n := by
  have hlen : (data.take n).length = n := by rw [length_take, min_eq_left hle]
  have hsplit := encrypt_append E hk hiv (hlen.symm ▸ hn) (data.drop n)
  rw [take_append_drop] at hsplit
  rw [hsplit, take_left' ((length_encrypt E hiv (hlen.symm ▸ hn)).trans hlen)]
  exact decrypt_encrypt E hiv (hlen.symm ▸ hn)

theorem decrypt_part (hiv : iv.length = k) (hdata : k ∣ data.length) (ha : k ∣ a.length)
    (hb : k ∣ b.length) (hpre : a ++ b <+: encrypt E iv data) :
    data.take (a.length + b.length) = data.take a.length ++ decrypt E (lastOf k iv a) b := by
  have hle := hpre.length_le
  rw [length_encrypt E hiv hdata, length_append] at hle
  have htake := prefix_iff_eq_take.1 hpre
  have htake' := prefix_iff_eq_take.1 ((prefix_append a b).trans hpre)
  rw [length_append] at htake
  have hboth := decrypt_take_encrypt E hk hiv (dvd_add ha hb) hle
  have hfirst := decrypt_take_encrypt E hk hiv ha (by omega : a.length ≤ data.length)
  rw [← htake, decrypt_append E hk ha] at hboth
  rw [← htake'] at hfirst
  rw [← hboth, hfirst]

end Cbc
