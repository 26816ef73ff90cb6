import Mtbolt.Net.TlsRecord

/-!
# Decrypting a stream piece by piece

The bytes of a connection come in pieces of any size, and `cpu_tcp_aes_crypto_ctr128_decrypt_input`
runs on each of them as it comes.  With a stream cipher the pieces do not matter: what has been
decrypted is what one run on all the bytes would have given.
-/

namespace Mtbolt.Net

open List Bool

variable {κ : Type}

/-- Encrypting or decrypting piece by piece is the same as at once. -/
structure StreamCipher (crypt : κ → List UInt8 → List UInt8 × κ) : Prop where
  nil : ∀ key, crypt key [] = ([], key)
  append : ∀ key a b, crypt key (a ++ b) =
    ((crypt key a).1 ++ (crypt (crypt key a).2 b).1, (crypt (crypt key a).2 b).2)

/-- More bytes have been received. -/
def InBuf.feed (raw : List UInt8) (b : InBuf κ) : InBuf κ := { b with inU := b.inU ++ raw }

/-- Output from before. -/
def InBuf.prepend (p : List UInt8) (b : InBuf κ) : InBuf κ := { b with inn := p ++ b.inn }

theorem InBuf.feed_nil (b : InBuf κ) : b.feed [] = b := by
  simp [InBuf.feed]

section Output

variable (crypt : κ → List UInt8 → List UInt8 × κ) (isTls : Bool)

theorem InBuf.decrypt_prepend (b : InBuf κ) (p : List UInt8) (len : ℕ) :
    (b.prepend p).decrypt crypt len = (b.decrypt crypt len).prepend p := by
  simp [InBuf.decrypt, InBuf.prepend, rwmEncryptDecryptTo]

variable (b : InBuf κ) (p : List UInt8)

theorem InBuf.decryptRecord_prepend :
    (b.prepend p).decryptRecord crypt = (b.decryptRecord crypt).prepend p := by
  simp [InBuf.decryptRecord, InBuf.decrypt, InBuf.prepend, rwmEncryptDecryptTo]

theorem decryptInputLoop_prepend (fuel : ℕ) (b : InBuf κ) (p : List UInt8) :
    decryptInputLoop crypt isTls fuel (b.prepend p) =
      ((decryptInputLoop crypt isTls fuel b).1.prepend p,
        (decryptInputLoop crypt isTls fuel b).2) := by
  induction fuel generalizing b with
  | zero => rfl
  | succ fuel ih =>
    have hinU : (b.prepend p).inU = b.inU := rfl
    have hleft : (b.prepend p).leftTlsPacketLength = b.leftTlsPacketLength := rfl
    rw [decryptInputLoop, decryptInputLoop, hinU, hleft]
    dsimp only
    split_ifs
    · rfl
    · rw [InBuf.decrypt_prepend, ih]
    · rw [InBuf.decryptRecord_prepend, ih]
    · rfl
    · rfl
    · rw [← ih, ← InBuf.decryptRecord_prepend]
      rfl

/-- **The decryption appends to its output** and does not look at it. -/
theorem ctr128DecryptInput_prepend :
    ctr128DecryptInput crypt isTls (b.prepend p) =
      ((ctr128DecryptInput crypt isTls b).1.prepend p, (ctr128DecryptInput crypt isTls b).2) :=
  decryptInputLoop_prepend crypt isTls b.inU.length b p

theorem prefix_ctr128DecryptInput : b.inn <+: (ctr128DecryptInput crypt isTls b).1.inn := by
  have hsplit : b = InBuf.prepend b.inn { b with inn := [] } := by simp [InBuf.prepend]
  rw [hsplit, ctr128DecryptInput_prepend]
  simp [InBuf.prepend]

theorem decryptInputLoop_eq {fuel fuel' : ℕ} {b : InBuf κ} (h : b.inU.length ≤ fuel)
    (h' : b.inU.length ≤ fuel') :
    decryptInputLoop crypt isTls fuel b = decryptInputLoop crypt isTls fuel' b := by
  induction fuel generalizing b fuel' with
  | zero =>
    have hnil : b.inU = [] := length_eq_zero_iff.1 (Nat.le_zero.1 h)
    cases fuel' with
    | zero => rfl
    | succ fuel' => simp [decryptInputLoop, hnil]
  | succ fuel ih =>
    cases fuel' with
    | zero =>
      have hnil : b.inU = [] := length_eq_zero_iff.1 (Nat.le_zero.1 h')
      simp [decryptInputLoop, hnil]
    | succ fuel' =>
      rw [decryptInputLoop, decryptInputLoop]
      dsimp only
      split_ifs with hempty htls hleft hshort hheader
      · rfl
      · apply ih <;> simp [InBuf.decrypt, rwmEncryptDecryptTo]
      · have hlt := InBuf.length_decryptRecord_lt crypt hleft (mt isEmpty_iff.2 hempty)
        exact ih (by omega) (by omega)
      · rfl
      · rfl
      · have hle := InBuf.length_decryptRecord_le crypt
          { b with
            inU := (rwmSkipData b.inU 5).2
            leftTlsPacketLength := recordLength (rwmFetchLookup b.inU 5) }
        simp only [rwmSkipData, length_drop] at hle
        exact ih (by simp only [rwmSkipData]; omega) (by simp only [rwmSkipData]; omega)

end Output

/-! ### One pass -/

section Pass

variable (crypt : κ → List UInt8 → List UInt8 × κ)

theorem ctr128DecryptInput_nil (isTls : Bool) {b : InBuf κ} (h : b.inU = []) :
    ctr128DecryptInput crypt isTls b = (b, false, 0) := by
  rw [ctr128DecryptInput, h]
  rfl

theorem ctr128DecryptInput_eq (isTls : Bool) {b : InBuf κ} (h : b.inU ≠ []) :
    ctr128DecryptInput crypt isTls b =
      if !isTls then (b.decrypt crypt b.inU.length, false, 0)
      else if b.leftTlsPacketLength ≠ 0 then ctr128DecryptInput crypt isTls (b.decryptRecord crypt)
      else if b.inU.length < 5 then (b, false, 5 - b.inU.length)
      else if b.inU.take 3 ≠ [0x17, 3, 3] then (b, true, 0)
      else ctr128DecryptInput crypt isTls (InBuf.decryptRecord crypt
        { b with inU := b.inU.drop 5, leftTlsPacketLength := recordLength (b.inU.take 5) }) := by
  have hfuel : ctr128DecryptInput crypt isTls b =
      decryptInputLoop crypt isTls (b.inU.length + 1) b :=
    decryptInputLoop_eq crypt isTls le_rfl (Nat.le_succ _)
  have hempty : ¬ b.inU.isEmpty = true := mt isEmpty_iff.1 h
  have hhead : (rwmFetchLookup b.inU 5).take 3 = b.inU.take 3 := by
    simp [rwmFetchLookup, take_take]
  rw [hfuel, decryptInputLoop]
  dsimp only
  rw [hhead]
  split_ifs with htls hleft hshort hbad
  · have hnil : (b.decrypt crypt b.inU.length).inU = [] := by
      simp [InBuf.decrypt, rwmEncryptDecryptTo]
    have hdone : (b.decrypt crypt b.inU.length).inU.length ≤ 0 := by simp [hnil]
    rw [decryptInputLoop_eq crypt isTls (hdone.trans (Nat.zero_le _)) hdone]
    rfl
  · have hlt := InBuf.length_decryptRecord_lt crypt hleft h
    exact decryptInputLoop_eq crypt isTls (by omega) le_rfl
  · rfl
  · rfl
  · refine decryptInputLoop_eq crypt isTls ?_ le_rfl
    refine (InBuf.length_decryptRecord_le crypt _).trans ?_
    simp only [rwmSkipData, length_drop]
    omega

variable {isTls : Bool}

theorem ctr128DecryptInput_failed {b : InBuf κ}
    (h : (ctr128DecryptInput crypt isTls b).2.1 = true) :
    isTls = true ∧ (ctr128DecryptInput crypt isTls b).1.leftTlsPacketLength = 0 ∧
      5 ≤ (ctr128DecryptInput crypt isTls b).1.inU.length ∧
      (ctr128DecryptInput crypt isTls b).1.inU.take 3 ≠ [0x17, 3, 3] := by
  induction hn : b.inU.length using Nat.strong_induction_on generalizing b with
  | _ n ih =>
  by_cases hnil : b.inU = []
  · rw [ctr128DecryptInput_nil crypt isTls hnil] at h
    exact absurd h Bool.false_ne_true
  rw [ctr128DecryptInput_eq crypt isTls hnil] at h ⊢
  split_ifs at h ⊢ with htls hleft hshort hbad
  · exact ih _ (hn ▸ InBuf.length_decryptRecord_lt crypt hleft hnil) h rfl
  · exact ⟨by simpa using htls, not_not.1 hleft, Nat.le_of_not_lt hshort, hbad⟩
  · refine ih _ ?_ h rfl
    refine (InBuf.length_decryptRecord_le crypt _).trans_lt ?_
    simp only [length_drop]
    omega

end Pass

/-! ### Pieces -/

section Pieces

variable {crypt : κ → List UInt8 → List UInt8 × κ} (hcipher : StreamCipher crypt)

include hcipher

theorem InBuf.decrypt_feed (b : InBuf κ) (raw : List UInt8) :
    (b.feed raw).decrypt crypt (b.inU ++ raw).length =
      ((b.decrypt crypt b.inU.length).feed raw).decrypt crypt raw.length := by
  simp only [InBuf.decrypt, InBuf.feed, rwmEncryptDecryptTo, take_length, drop_length,
    nil_append, hcipher.append, append_assoc]

omit hcipher in
theorem InBuf.decryptRecord_feed_of_le {b : InBuf κ} (h : b.leftTlsPacketLength ≤ b.inU.length)
    (raw : List UInt8) :
    (b.feed raw).decryptRecord crypt = (b.decryptRecord crypt).feed raw := by
  have hlen : min b.leftTlsPacketLength (b.inU ++ raw).length =
      min b.leftTlsPacketLength b.inU.length := by
    rw [length_append]
    omega
  simp only [InBuf.decryptRecord, InBuf.feed, InBuf.decrypt, rwmEncryptDecryptTo, hlen]
  rw [take_append_of_le_length (by omega), drop_append_of_le_length (by omega)]

theorem InBuf.decryptRecord_feed_of_lt {b : InBuf κ} (h : b.inU.length < b.leftTlsPacketLength)
    (raw : List UInt8) :
    (b.feed raw).decryptRecord crypt = ((b.decryptRecord crypt).feed raw).decryptRecord crypt := by
  obtain ⟨inU, inn, key, left⟩ := b
  dsimp only at h
  have hlen : min left (inU ++ raw).length = inU.length + min (left - inU.length) raw.length := by
    rw [length_append]
    omega
  simp only [InBuf.decryptRecord, InBuf.feed, InBuf.decrypt, rwmEncryptDecryptTo, hlen,
    Nat.min_eq_right h.le, take_length, drop_length, nil_append,
    take_length_add_append, drop_length_add_append, hcipher.append, append_assoc]
  rw [Nat.sub_add_eq]

theorem ctr128DecryptInput_decryptRecord_feed (htls : isTls = true) {b : InBuf κ}
    (raw : List UInt8)
    (ih : ctr128DecryptInput crypt isTls ((b.decryptRecord crypt).feed raw) =
      ctr128DecryptInput crypt isTls
        ((ctr128DecryptInput crypt isTls (b.decryptRecord crypt)).1.feed raw)) :
    ctr128DecryptInput crypt isTls ((b.feed raw).decryptRecord crypt) =
      ctr128DecryptInput crypt isTls
        ((ctr128DecryptInput crypt isTls (b.decryptRecord crypt)).1.feed raw) := by
  rw [← ih]
  rcases Nat.lt_or_ge b.inU.length b.leftTlsPacketLength with hlt | hle
  · rw [InBuf.decryptRecord_feed_of_lt hcipher hlt]
    by_cases hraw : ((b.decryptRecord crypt).feed raw).inU = []
    · -- nothing has come, so there is nothing to decrypt
      have hsame : ((b.decryptRecord crypt).feed raw).decryptRecord crypt =
          (b.decryptRecord crypt).feed raw := by
        generalize (b.decryptRecord crypt).feed raw = d at hraw ⊢
        obtain ⟨inU, inn, key, left⟩ := d
        subst hraw
        simp [InBuf.decryptRecord, InBuf.decrypt, rwmEncryptDecryptTo, hcipher.nil]
      rw [hsame]
    · have hleft : ((b.decryptRecord crypt).feed raw).leftTlsPacketLength ≠ 0 := by
        simp only [InBuf.feed, InBuf.decryptRecord]
        omega
      rw [ctr128DecryptInput_eq crypt isTls hraw, htls]
      simp [hleft]
  · rw [InBuf.decryptRecord_feed_of_le hle]

/-- **The pieces do not matter**: the bytes that come later may be there from the start, or be added
when the first ones have been decrypted. -/
theorem ctr128DecryptInput_feed (isTls : Bool) (b : InBuf κ) (raw : List UInt8) :
    ctr128DecryptInput crypt isTls (b.feed raw) =
      ctr128DecryptInput crypt isTls ((ctr128DecryptInput crypt isTls b).1.feed raw) := by
  induction hn : b.inU.length using Nat.strong_induction_on generalizing b with
  | _ n ih =>
  by_cases hnil : b.inU = []
  · rw [ctr128DecryptInput_nil crypt isTls hnil]
  have hfed : (b.feed raw).inU ≠ [] := fun h => hnil (append_eq_nil_iff.1 h).1
  rw [ctr128DecryptInput_eq crypt isTls hnil]
  cases htls : isTls with
  | false =>
    simp only [Bool.not_false, if_true]
    rw [ctr128DecryptInput_eq crypt false hfed, Bool.not_false, if_pos rfl]
    have hdecrypt := InBuf.decrypt_feed hcipher b raw
    by_cases hraw : raw = []
    · subst hraw
      rw [InBuf.feed_nil, InBuf.feed_nil, ctr128DecryptInput_nil]
      simp [InBuf.decrypt, rwmEncryptDecryptTo]
    · have hrest : ((b.decrypt crypt b.inU.length).feed raw).inU = raw := by
        simp [InBuf.decrypt, InBuf.feed, rwmEncryptDecryptTo]
      rw [ctr128DecryptInput_eq crypt false (by rwa [hrest]), Bool.not_false, hrest, ← hdecrypt]
      rfl
  | true =>
    subst htls
    simp only [Bool.not_true, false_eq_true, if_false]
    split_ifs with hleft hshort hbad
    · rw [ctr128DecryptInput_eq crypt true hfed]
      rw [if_pos (show (b.feed raw).leftTlsPacketLength ≠ 0 from hleft)]
      have hlt := InBuf.length_decryptRecord_lt crypt hleft hnil
      exact ctr128DecryptInput_decryptRecord_feed hcipher rfl raw (ih _ (by omega) _ rfl)
    · rfl
    · rfl
    · have hlen : 5 ≤ b.inU.length := Nat.le_of_not_lt hshort
      have hzero : (b.feed raw).leftTlsPacketLength = 0 := not_not.1 hleft
      rw [ctr128DecryptInput_eq crypt true hfed]
      simp only [Bool.not_true, false_eq_true, if_false]
      have htake (m : ℕ) (hm : m ≤ 5) : (b.feed raw).inU.take m = b.inU.take m :=
        take_append_of_le_length (by omega)
      rw [if_neg (not_not.2 hzero), if_neg (by simp only [InBuf.feed, length_append]; omega),
        htake 3 (by omega), if_neg hbad, htake 5 le_rfl,
        show (b.feed raw).inU.drop 5 = b.inU.drop 5 ++ raw from drop_append_of_le_length hlen]
      refine ctr128DecryptInput_decryptRecord_feed hcipher rfl (b :=
        { b with inU := b.inU.drop 5, leftTlsPacketLength := recordLength (b.inU.take 5) }) raw
        (ih _ ?_ _ rfl)
      refine (InBuf.length_decryptRecord_le crypt _).trans_lt ?_
      simp only [length_drop]
      omega

theorem ctr128DecryptInput_failed_feed {b : InBuf κ}
    (h : (ctr128DecryptInput crypt isTls b).2.1 = true) (raw : List UInt8) :
    (ctr128DecryptInput crypt isTls (b.feed raw)).2.1 = true := by
  obtain ⟨htls, hleft, hlong, hbad⟩ := ctr128DecryptInput_failed crypt h
  rw [ctr128DecryptInput_feed hcipher]
  generalize (ctr128DecryptInput crypt isTls b).1 = d at hleft hlong hbad ⊢
  have hlen : (d.feed raw).inU.length = d.inU.length + raw.length := length_append
  have hnil : (d.feed raw).inU ≠ [] := ne_nil_of_length_pos (by omega)
  have hhead : (d.feed raw).inU.take 3 = d.inU.take 3 := take_append_of_le_length (by omega)
  rw [ctr128DecryptInput_eq crypt isTls hnil, htls, Bool.not_true, if_neg Bool.false_ne_true,
    if_neg (not_not.2 (show (d.feed raw).leftTlsPacketLength = 0 from hleft)),
    if_neg (by omega), hhead, if_pos hbad]

theorem ctr128DecryptInput_idem (isTls : Bool) (b : InBuf κ) :
    ctr128DecryptInput crypt isTls (ctr128DecryptInput crypt isTls b).1 =
      ctr128DecryptInput crypt isTls b := by
  have h := ctr128DecryptInput_feed hcipher isTls b []
  rw [InBuf.feed_nil, InBuf.feed_nil] at h
  exact h.symm

end Pieces

end Mtbolt.Net
