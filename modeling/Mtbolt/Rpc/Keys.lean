import Mtbolt.Lib.Words

/-!
# The keys of an RPC connection

`aes_create_keys` (`net-crypto-aes.c`) derives the keys of both directions from the nonces of the
two ends, their addresses, the secret that they share and the secret of a Diffie-Hellman exchange,
if there was one.  MD5 and SHA-1 are parameters.
-/

namespace Mtbolt.Rpc

open Words List

/-- `struct aes_key_data`. -/
structure AesKeyData where
  readKey : List UInt8
  readIv : List UInt8
  writeKey : List UInt8
  writeIv : List UInt8
  deriving DecidableEq, Repr

/-- The hash functions. -/
structure Digests where
  md5 : List UInt8 → List UInt8
  sha1 : List UInt8 → List UInt8

/-- What the keys are made of; `tempKey` is empty without a Diffie-Hellman exchange. -/
structure KeyInput where
  nonceServer : List UInt8
  nonceClient : List UInt8
  clientTimestamp : BitVec 32
  serverIp : BitVec 32
  serverPort : BitVec 16
  serverIpv6 : List UInt8
  clientIp : BitVec 32
  clientPort : BitVec 16
  clientIpv6 : List UInt8
  secret : List UInt8
  tempKey : List UInt8
  deriving DecidableEq, Repr

/-- The two bytes of a half word. -/
def le16Bytes (w : BitVec 16) : List UInt8 := [UInt8.ofNat w.toNat, UInt8.ofNat (w.toNat / 256)]

/-- `"CLIENT"`. -/
def clientText : List UInt8 := [0x43, 0x4c, 0x49, 0x45, 0x4e, 0x54]

/-- `"SERVER"`. -/
def serverText : List UInt8 := [0x53, 0x45, 0x52, 0x56, 0x45, 0x52]

/-- `str` before the Diffie-Hellman secret is mixed in. -/
def keyText (amClient : Bool) (d : KeyInput) : List UInt8 :=
  d.nonceServer ++ d.nonceClient ++ le32Bytes d.clientTimestamp ++ le32Bytes d.serverIp ++
    le16Bytes d.clientPort ++ (if amClient then clientText else serverText) ++
    le32Bytes d.clientIp ++ le16Bytes d.serverPort ++ d.secret ++ d.nonceServer ++
    (if d.serverIp = 0 then d.clientIpv6 ++ d.serverIpv6 else []) ++ d.nonceClient

/-- `sizeof (str)`. -/
def keyTextSize : ℕ := 16 + 16 + 4 + 4 + 2 + 6 + 4 + 2 + 256 + 16 + 16 + 4 + 16 * 2 + 256

/-- `str` with the Diffie-Hellman secret mixed in. -/
def mixTempKey (str tempKey : List UInt8) : List UInt8 :=
  let temp := tempKey.take keyTextSize
  List.zipWith (· ^^^ ·) str temp ++ str.drop temp.length ++ temp.drop str.length

/-- The other role in the place of `"SERVER"` or `"CLIENT"`. -/
def flipRole (str : List UInt8) : List UInt8 :=
  str.take 42 ++ List.zipWith (· ^^^ ·) ((str.drop 42).take 6)
    (List.zipWith (· ^^^ ·) clientText serverText) ++ str.drop 48

/-- The key of one direction. -/
def directionKey (D : Digests) (str : List UInt8) : List UInt8 :=
  (D.md5 (str.drop 1)).take 12 ++ D.sha1 str

/-- The initial vector of one direction. -/
def directionIv (D : Digests) (str : List UInt8) : List UInt8 := D.md5 (str.drop 2)

/-- `aes_create_keys`; `none` without a secret, and when an assertion fails. -/
def aesCreateKeys (D : Digests) (amClient : Bool) (d : KeyInput) : Option AesKeyData :=
  if d.secret.length < 32 ∨ 256 < d.secret.length then none
  else if d.serverIp = 0 ∧ d.clientIp ≠ 0 ∨ d.serverIp ≠ 0 ∧ d.clientIp = 0 then none
  else
    let str := mixTempKey (keyText amClient d) d.tempKey
    let flipped := flipRole str
    some ⟨directionKey D flipped, directionIv D flipped, directionKey D str, directionIv D str⟩

/-- One end of a connection: its own nonce, the two addresses after `nat_translate_ip`, and
`main_secret`. -/
structure Endpoint where
  nonce : List UInt8
  ourIp : BitVec 32
  ourPort : BitVec 16
  ourIpv6 : List UInt8
  remoteIp : BitVec 32
  remotePort : BitVec 16
  remoteIpv6 : List UInt8
  secret : List UInt8
  nonce_length : nonce.length = 16

/-- The call of `aes_create_keys` in `tcp_rpcc_start_crypto`. -/
def Endpoint.clientInput (e : Endpoint) (nonce : List UInt8) (nonceTime : BitVec 32)
    (tempKey : List UInt8) : KeyInput :=
  ⟨nonce, e.nonce, nonceTime, e.remoteIp, e.remotePort, e.remoteIpv6, e.ourIp, e.ourPort, e.ourIpv6,
    e.secret, tempKey⟩

/-- The call of `aes_create_keys` in `tcp_rpcs_init_crypto`. -/
def Endpoint.serverInput (e : Endpoint) (cryptoNonce : List UInt8) (cryptoTs : BitVec 32)
    (tempKey : List UInt8) : KeyInput :=
  ⟨e.nonce, cryptoNonce, cryptoTs, e.ourIp, e.ourPort, e.ourIpv6, e.remoteIp, e.remotePort,
    e.remoteIpv6, e.secret, tempKey⟩

/-- `str` under the secret, without the rest of a longer secret. -/
def xorOver (str temp : List UInt8) : List UInt8 :=
  List.zipWith (· ^^^ ·) str temp ++ str.drop temp.length

/-- The hash input of the direction in which an end writes. -/
def writeText (amClient : Bool) (d : KeyInput) : List UInt8 :=
  mixTempKey (keyText amClient d) d.tempKey

/-- What is written over the role to have the other one. -/
def roleMask : List UInt8 := List.zipWith (· ^^^ ·) clientText serverText

variable {D : Digests} {d : KeyInput} {str temp mask : List UInt8} {am : Bool} {k : AesKeyData}

theorem length_xorOver (str temp : List UInt8) : (xorOver str temp).length = str.length := by
  simp [xorOver]
  omega

theorem xorOver_append (a b temp : List UInt8) :
    xorOver (a ++ b) temp = xorOver a temp ++ xorOver b (temp.drop a.length) := by
  induction a generalizing temp with
  | nil => simp [xorOver]
  | cons x a ih =>
    cases temp with
    | nil => simp [xorOver]
    | cons t temp => simpa [xorOver] using ih temp

theorem zipWith_xorOver (h : str.length = mask.length) :
    zipWith (· ^^^ ·) (xorOver str temp) mask = xorOver (zipWith (· ^^^ ·) str mask) temp := by
  induction str generalizing temp mask with
  | nil => simp [xorOver]
  | cons x str ih =>
    cases mask with
    | nil => cases h
    | cons m mask =>
      cases temp with
      | nil => simp [xorOver]
      | cons t temp =>
        have hrest : zipWith (· ^^^ ·) (xorOver str temp) mask = _ := ih (Nat.succ.inj h)
        simp only [xorOver, zipWith_cons_cons, cons_append, length_cons, drop_succ_cons] at hrest ⊢
        rw [hrest, UInt8.xor_assoc, UInt8.xor_comm t, ← UInt8.xor_assoc]

theorem flipRole_append {pre role post : List UInt8} (hpre : pre.length = 42)
    (hrole : role.length = 6) :
    flipRole (pre ++ role ++ post) = pre ++ zipWith (· ^^^ ·) role roleMask ++ post := by
  have h48 : (pre ++ role).length = 48 := by simp [hpre, hrole]
  rw [flipRole, drop_left' h48, append_assoc pre role, take_left' hpre,
    drop_left' hpre, take_left' hrole, roleMask]

section

variable (hs : d.nonceServer.length = 16) (hc : d.nonceClient.length = 16)
include hs hc

/-- The text of an end, split at the name of its role: only that depends on the role. -/
theorem writeText_eq :
    ∃ pre t post, pre.length = 42 ∧ ∀ am, writeText am d =
      pre ++ xorOver (if am then clientText else serverText) t ++ post := by
  obtain ⟨pre, post, hpre, htext⟩ : ∃ pre post : List UInt8, pre.length = 42 ∧ ∀ am,
      keyText am d = pre ++ (if am then clientText else serverText) ++ post := by
    refine ⟨d.nonceServer ++ d.nonceClient ++ le32Bytes d.clientTimestamp ++ le32Bytes d.serverIp ++
      le16Bytes d.clientPort, le32Bytes d.clientIp ++ le16Bytes d.serverPort ++ d.secret ++
      d.nonceServer ++ (if d.serverIp = 0 then d.clientIpv6 ++ d.serverIpv6 else []) ++
      d.nonceClient, ?_, fun am => ?_⟩
    · simp [hs, hc, le32Bytes, le16Bytes]
    · simp [keyText]
  let temp := d.tempKey.take keyTextSize
  refine ⟨xorOver pre temp, temp.drop 42, xorOver post (temp.drop 48) ++
    temp.drop (48 + post.length), (length_xorOver _ _).trans hpre, fun am => ?_⟩
  have hrole : (if am then clientText else serverText).length = 6 := by cases am <;> rfl
  have hmix : writeText am d = xorOver (keyText am d) temp ++ temp.drop (keyText am d).length := rfl
  have h48 : (pre ++ if am then clientText else serverText).length = 48 := by
    rw [length_append, hpre, hrole]
  rw [hmix, htext, xorOver_append, h48, length_append, h48, xorOver_append, hpre, append_assoc]

theorem flipRole_writeText (am : Bool) : flipRole (writeText am d) = writeText (!am) d := by
  obtain ⟨pre, t, post, hpre, htext⟩ := writeText_eq hs hc
  have hrole : (if am then clientText else serverText).length = 6 := by cases am <;> rfl
  rw [htext, htext, flipRole_append hpre ((length_xorOver _ _).trans hrole), zipWith_xorOver hrole]
  cases am <;> rfl

theorem drop_writeText_ne {n : ℕ} (hn : n ≤ 42) (am : Bool) :
    (writeText am d).drop n ≠ (writeText (!am) d).drop n := by
  obtain ⟨pre, t, post, hpre, htext⟩ := writeText_eq hs hc
  intro heq
  rw [htext, htext, append_assoc, append_assoc,
    drop_append_of_le_length (hpre ▸ hn), drop_append_of_le_length (hpre ▸ hn)] at heq
  have hroles := append_inj_left (append_cancel_left heq) (by
    rw [length_xorOver, length_xorOver]
    cases am <;> rfl)
  cases am <;> cases t <;> simp [xorOver, clientText, serverText] at hroles

theorem aesCreateKeys_eq (h : aesCreateKeys D am d = some k) (am' : Bool) :
    aesCreateKeys D am' d = some ⟨directionKey D (writeText (!am') d),
      directionIv D (writeText (!am') d), directionKey D (writeText am' d),
      directionIv D (writeText am' d)⟩ := by
  rw [← flipRole_writeText hs hc]
  unfold aesCreateKeys at h ⊢
  split_ifs at h ⊢
  rfl

end

/-- **Key agreement**: on the same data one end gets, as a client, the keys that the other gets as a
server, with the two directions exchanged.  What is hashed for one direction is never what is hashed
for the other, so that the directions have different vectors if MD5 tells their texts apart, and
different keys if SHA-1 does. -/
theorem aes_key_agreement (D : Digests) (d : KeyInput) (hs : d.nonceServer.length = 16)
    (hc : d.nonceClient.length = 16) :
    (∀ k, aesCreateKeys D true d = some k ↔
      aesCreateKeys D false d = some ⟨k.writeKey, k.writeIv, k.readKey, k.readIv⟩) ∧
    ∀ am k, aesCreateKeys D am d = some k →
      k = ⟨directionKey D (flipRole (writeText am d)), directionIv D (flipRole (writeText am d)),
        directionKey D (writeText am d), directionIv D (writeText am d)⟩ ∧
      (∀ n ≤ 2, (writeText am d).drop n ≠ (flipRole (writeText am d)).drop n) ∧
      (Function.Injective D.md5 → k.writeIv ≠ k.readIv) ∧
      (Function.Injective D.sha1 → (∀ m, (D.md5 m).length = 16) → k.writeKey ≠ k.readKey) := by
  have hflip := flipRole_writeText hs hc
  refine ⟨fun k => ?_, fun am k hk => ?_⟩
  · constructor
    · intro h
      obtain rfl := Option.some.inj (h.symm.trans (aesCreateKeys_eq hs hc h true))
      exact aesCreateKeys_eq hs hc h false
    · intro h
      have hfalse := Option.some.inj (h.symm.trans (aesCreateKeys_eq hs hc h false))
      rw [aesCreateKeys_eq hs hc h true]
      cases k
      cases hfalse
      rfl
  · have hne : ∀ n ≤ 2, (writeText am d).drop n ≠ (flipRole (writeText am d)).drop n := by
      intro n hn
      rw [hflip]
      exact drop_writeText_ne hs hc (by omega) am
    have hkeys := Option.some.inj (hk.symm.trans (aesCreateKeys_eq hs hc hk am))
    rw [← hflip] at hkeys
    subst hkeys
    refine ⟨rfl, hne, fun hmd5 heq => hne 2 le_rfl (hmd5 heq), fun hsha1 hlen heq => ?_⟩
    refine hne 0 (by omega) (hsha1 (append_inj_right heq ?_))
    simp [hlen]

/-- Nonces of zeros, and the secret of a Diffie-Hellman exchange. -/
def sampleInput : KeyInput :=
  ⟨List.replicate 16 0, List.replicate 16 0, 0, 1, 443, [], 2, 80, [], List.replicate 32 7, [1, 2]⟩

theorem aes_key_agreement_sampleInput :
    ∃ k, aesCreateKeys ⟨id, id⟩ true sampleInput = some k ∧ k.writeIv ≠ k.readIv :=
  ⟨_, rfl, ((aes_key_agreement ⟨id, id⟩ sampleInput rfl rfl).2 true _ rfl).2.2.1
    Function.injective_id⟩

end Mtbolt.Rpc
