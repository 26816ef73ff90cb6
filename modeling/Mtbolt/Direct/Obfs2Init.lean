import Mtbolt.Net.RecordRun
import Mtbolt.Secrets.Obfs2

/-!
# The header that the proxy sends to a data centre

Towards a data centre the proxy is an obfuscated2 client without a secret.
`tcp_direct_dc_send_obfs2_init` draws 64 bytes, writes the client's tag and the data centre into
them, takes the keys from them and sends them with the last eight bytes encrypted.
`obfs2_parse_header` is what reads such a header.  AES in counter mode is a key stream for each key
and initialisation vector.
-/

namespace Mtbolt.Direct

open Net Secrets Words List

/-! ### Contexts -/

/-- An `EVP_CIPHER_CTX` for AES in counter mode. -/
structure CtrContext where
  key : List UInt8
  iv : List UInt8
  pos : ℕ
  deriving DecidableEq, Repr

variable (ks : List UInt8 → List UInt8 → ℕ → UInt8)

/-- `evp_crypt`: the bytes, and the context behind them. -/
def evpCrypt (ctx : CtrContext) (data : List UInt8) : List UInt8 × CtrContext :=
  ((keyStream (ks ctx.key ctx.iv) ctx.pos data).1, { ctx with pos := ctx.pos + data.length })

/-- `struct aes_crypto`. -/
structure DcCrypto where
  write : CtrContext
  read : CtrContext
  deriving DecidableEq, Repr

/-! ### The function -/

/-- The condition on which the loop over `RAND_bytes` ends. -/
def initAllowed (init : List UInt8) : Bool :=
  !(init.head? = some 0xef || le32 init = 0x44414548#32 || le32 init = 0x54534f50#32 ||
    le32 init = 0x20544547#32 || le32 init = 0x4954504f#32 || le32 init = 0xeeeeeeee#32 ||
    le32 init = 0xdddddddd#32 || le32 init = 0xefefefef#32 || le32 (init.drop 4) = 0#32)

/-- The bytes of a `short`. -/
def shortBytes (n : ℤ) : List UInt8 :=
  [UInt8.ofNat (BitVec.ofInt 16 n).toNat, UInt8.ofNat ((BitVec.ofInt 16 n).toNat / 256)]

/-- The tag and the data centre are written into the random bytes. -/
def taggedInit (init : List UInt8) (tag : BitVec 32) (targetDc : ℤ) : List UInt8 :=
  init.take 56 ++ (le32Bytes tag ++ (shortBytes targetDc ++ init.drop 62))

/-- The header and the contexts for the bytes on which the loop ends. -/
def obfs2Init (init : List UInt8) (clientTag : BitVec 32) (targetDc : ℤ) :
    List UInt8 × DcCrypto :=
  let init := taggedInit init (if clientTag = 0#32 then tagMedium else clientTag) targetDc
  let tmp : CtrContext := ⟨(init.drop 8).take 32, (init.drop 40).take 16, 0⟩
  let read : CtrContext := ⟨((init.drop 24).take 32).reverse, ((init.drop 8).take 16).reverse, 0⟩
  let encrypted := evpCrypt ks tmp init
  (init.take 56 ++ encrypted.1.drop 56, ⟨encrypted.2, read⟩)

/-- `tcp_direct_dc_send_obfs2_init`, for `extra_int3` and `extra_int4`: the 64 bytes that are pushed
to `out_p`, and the contexts.  `draws` is what the calls of `RAND_bytes` give; `none` if the loop
needs more of them. -/
def sendObfs2Init (draws : List (List UInt8)) (clientTag : BitVec 32) (targetDc : ℤ) :
    Option (List UInt8 × DcCrypto) :=
  (draws.find? initAllowed).map fun init => obfs2Init ks init clientTag targetDc

/-! ### What is sent -/

section Sent

variable {ks} {init : List UInt8} {tag : BitVec 32} {targetDc : ℤ}

theorem length_taggedInit (hlen : init.length = 64) :
    (taggedInit init tag targetDc).length = 64 := by
  simp [taggedInit, shortBytes, hlen]

theorem take_drop_sent {a : List UInt8} (t : List UInt8) (ha : a.length = 64) {n m : ℕ}
    (h : n + m ≤ 56) : ((a.take 56 ++ t).drop n).take m = (a.drop n).take m := by
  have hlen : (a.take 56).length = 56 := length_take_of_le (by omega)
  rw [drop_append_of_le_length (by omega), take_append_of_le_length
    (by rw [length_drop]; omega), drop_take, take_take, Nat.min_eq_left (by omega)]

theorem drop_keyStream_sent {f : ℕ → UInt8} {a : List UInt8} (ha : a.length = 64) :
    ((keyStream f 0 (a.take 56 ++ ((keyStream f 0 a).1.drop 56))).1).drop 56 = a.drop 56 := by
  have hlen : (a.take 56).length = 56 := length_take_of_le (by omega)
  have hsplit : (keyStream f 0 a).1.drop 56 = (keyStream f 56 (a.drop 56)).1 := by
    have happend := congrArg Prod.fst ((streamCipher_keyStream f).append 0 (a.take 56) (a.drop 56))
    have hpos : (keyStream f 0 (a.take 56)).2 = 56 := by simp [keyStream, hlen]
    rw [take_append_drop, hpos] at happend
    rw [happend, drop_left' (by rw [length_keyStream, hlen])]
  have hpos : (keyStream f 0 (a.take 56)).2 = 56 := by simp [keyStream, hlen]
  rw [hsplit, (streamCipher_keyStream f).append, hpos, keyStream_keyStream]
  exact drop_left' (by rw [length_keyStream, hlen])

theorem drop_taggedInit (hlen : init.length = 64) : (taggedInit init tag targetDc).drop 56 =
    le32Bytes tag ++ (shortBytes targetDc ++ init.drop 62) :=
  drop_left' (length_take_of_le (by omega))

theorem toInt_shortBytes {n : ℤ} (h : -2 ^ 15 ≤ n ∧ n < 2 ^ 15) (rest : List UInt8) :
    (BitVec.ofNat 16 (leNat ((shortBytes n ++ rest).take 2))).toInt = n := by
  have hnat : leNat ((shortBytes n ++ rest).take 2) = (BitVec.ofInt 16 n).toNat := by
    simp only [shortBytes, cons_append, nil_append, take_succ_cons, take_zero,
      leNat, UInt8.toNat_ofNat']
    omega
  rw [hnat, BitVec.ofNat_toNat, BitVec.setWidth_eq, BitVec.toInt_ofInt]
  exact Int.bmod_eq_of_le (by omega) (by omega)

end Sent

theorem obfs2ParseHeader_obfs2Init (sha256 : List UInt8 → List UInt8) {cfg : TransportConfig}
    {init : List UInt8} (hlen : init.length = 64) {tag : BitVec 32}
    (htag : cfg.accepts tag = true) {targetDc : ℤ} (hdc : -2 ^ 15 ≤ targetDc ∧ targetDc < 2 ^ 15) :
    obfs2ParseHeader sha256 (fun key iv data => (evpCrypt ks ⟨key, iv, 0⟩ data).1) cfg
        (obfs2Init ks init tag targetDc).1 [] =
      some ⟨tag, targetDc, 0, (obfs2Init ks init tag targetDc).2.write.key,
        (obfs2Init ks init tag targetDc).2.write.iv, (obfs2Init ks init tag targetDc).2.read.key,
        (obfs2Init ks init tag targetDc).2.read.iv⟩ := by
  have hne : tag ≠ 0#32 := by
    rintro rfl
    cases cfg with
    | mk randPadOnly allowOnlyTls => cases randPadOnly <;> cases htag
  have ha : (taggedInit init tag targetDc).length = 64 := length_taggedInit hlen
  have hkeys : obfs2Keys sha256 (obfs2Init ks init tag targetDc).1 none =
      ⟨(obfs2Init ks init tag targetDc).2.write.key, (obfs2Init ks init tag targetDc).2.write.iv,
        (obfs2Init ks init tag targetDc).2.read.key,
        (obfs2Init ks init tag targetDc).2.read.iv⟩ := by
    simp only [obfs2Keys, deriveKey, obfs2Init, if_neg hne, evpCrypt]
    rw [take_drop_sent _ ha (by omega), take_drop_sent _ ha (by omega),
      take_drop_sent _ ha (by omega), take_drop_sent _ ha (by omega)]
  have htext : (decryptHeader sha256 (fun key iv data => (evpCrypt ks ⟨key, iv, 0⟩ data).1)
      (obfs2Init ks init tag targetDc).1 none).drop 56 =
        le32Bytes tag ++ (shortBytes targetDc ++ init.drop 62) := by
    rw [decryptHeader, hkeys, ← drop_taggedInit hlen]
    simp only [obfs2Init, if_neg hne, evpCrypt]
    exact drop_keyStream_sent ha
  have hshort : ((decryptHeader sha256 (fun key iv data => (evpCrypt ks ⟨key, iv, 0⟩ data).1)
      (obfs2Init ks init tag targetDc).1 none).drop 60) = shortBytes targetDc ++ init.drop 62 := by
    rw [show (60 : ℕ) = 56 + 4 from rfl, ← drop_drop, htext]
    exact drop_left' (by simp)
  have hheader : headerTag sha256 (fun key iv data => (evpCrypt ks ⟨key, iv, 0⟩ data).1)
      (obfs2Init ks init tag targetDc).1 none = tag := by
    rw [headerTag, htext, le32_le32Bytes_append]
  rw [obfs2ParseHeader, if_neg (by simp), parseLoop, hheader, if_pos htag, obfs2Result, hheader,
    hshort, toInt_shortBytes hdc, hkeys]

/-- **The header is what the parser reads.**  For all bytes drawn that pass the filter, every tag
that the parser accepts and every data centre that fits in 16 bits, the parser finds the tag and the
data centre.  The receiver's context for reading is behind the header what the proxy's context for
writing is, at position 64, and its context for writing is the proxy's for reading. -/
theorem obfs2_init_round_trip (sha256 : List UInt8 → List UInt8) (cfg : TransportConfig)
    {draws : List (List UInt8)} (hlen : ∀ init ∈ draws, init.length = 64)
    (hpass : ∃ init ∈ draws, initAllowed init = true)
    {tag : BitVec 32} (htag : cfg.accepts tag = true) {targetDc : ℤ}
    (hdc : -2 ^ 15 ≤ targetDc ∧ targetDc < 2 ^ 15) :
    ∃ sent crypto pr, sendObfs2Init ks draws tag targetDc = some (sent, crypto) ∧
      sent.length = 64 ∧
      obfs2ParseHeader sha256 (fun key iv data => (evpCrypt ks ⟨key, iv, 0⟩ data).1) cfg sent [] =
        some pr ∧
      pr.tag = tag ∧ pr.dc = targetDc ∧
      (evpCrypt ks ⟨pr.keys.readKey, pr.keys.readIv, 0⟩ sent).2 = crypto.write ∧
      crypto.write.pos = 64 ∧
      ⟨pr.keys.writeKey, pr.keys.writeIv, 0⟩ = crypto.read := by
  obtain ⟨init, hfind⟩ := Option.isSome_iff_exists.1 (find?_isSome.2 hpass)
  have hinit := hlen init (mem_of_find?_eq_some hfind)
  have ha : ∀ t, (taggedInit init t targetDc).length = 64 := fun t => length_taggedInit hinit
  have hsent : (obfs2Init ks init tag targetDc).1.length = 64 := by
    simp [obfs2Init, evpCrypt, length_keyStream, ha]
  have hpos : (obfs2Init ks init tag targetDc).2.write.pos = 64 := by
    simp [obfs2Init, evpCrypt, ha]
  refine ⟨_, _, _, by rw [sendObfs2Init, hfind, Option.map_some], hsent,
    obfs2ParseHeader_obfs2Init ks sha256 hinit htag hdc, rfl, rfl, ?_, hpos, rfl⟩
  -- Both contexts have gone through 64 bytes under the same key.
  have hwrite := congrArg (CtrContext.mk (obfs2Init ks init tag targetDc).2.write.key
    (obfs2Init ks init tag targetDc).2.write.iv) hpos
  simpa only [evpCrypt, hsent, Nat.zero_add] using hwrite.symm

/-- The first 64 bytes are refused, the second are sent. -/
theorem obfs2_init_round_trip_secondDraw :
    ∃ sent crypto pr,
      sendObfs2Init (fun key _ n => UInt8.ofNat n + key.headD 0)
        [List.replicate 64 0, List.replicate 64 1] tagCompact (-2) = some (sent, crypto) ∧
      sent.length = 64 ∧
      obfs2ParseHeader id
        (fun key iv data => (evpCrypt (fun key _ n => UInt8.ofNat n + key.headD 0)
          ⟨key, iv, 0⟩ data).1) ⟨false, false⟩ sent [] = some pr ∧
      pr.tag = tagCompact ∧ pr.dc = -2 ∧
      (evpCrypt (fun key _ n => UInt8.ofNat n + key.headD 0)
        ⟨pr.keys.readKey, pr.keys.readIv, 0⟩ sent).2 = crypto.write ∧
      crypto.write.pos = 64 ∧
      ⟨pr.keys.writeKey, pr.keys.writeIv, 0⟩ = crypto.read :=
  obfs2_init_round_trip _ id ⟨false, false⟩ (by decide)
    ⟨replicate 64 1, by decide, by decide⟩ (by decide) (by decide)

end Mtbolt.Direct
