import Mtbolt.Rpc.Keys
import Mtbolt.Rpc.Server

/-!
# No downgrade of the RPC handshake

Both ends of an RPC connection, with the keys that `aes_create_keys` makes.  When a connection that
may not be unencrypted hands a packet to `execute`, it has taken one nonce packet and after it one
handshake packet, and its keys are made from the secret and the two nonces, with the
Diffie-Hellman secret unless that may be left out.
-/

namespace Mtbolt.Rpc

open EventRun Net Words List

/-! ### The keys of a session -/

/-- Two byte strings, one over the other. -/
def overlay (a b : List UInt8) : List UInt8 :=
  (List.range (max a.length b.length)).map fun i => a.getD i 0 ^^^ b.getD i 0

/-- What is hashed for the direction in which the end with the name `role` writes: the nonces, the
time, the addresses and the secret, and over them the Diffie-Hellman secret, if there is one. -/
def hashedText (role : List UInt8) (d : KeyInput) : List UInt8 :=
  overlay [d.nonceServer, d.nonceClient, le32Bytes d.clientTimestamp, le32Bytes d.serverIp,
    le16Bytes d.clientPort, role, le32Bytes d.clientIp, le16Bytes d.serverPort, d.secret,
    d.nonceServer, if d.serverIp = 0 then d.clientIpv6 ++ d.serverIpv6 else [],
    d.nonceClient].flatten (d.tempKey.take 634)

/-- The keys of the end `own` of a session with the end `other`. -/
structure DerivedKeys (D : Digests) (own other : List UInt8) (d : KeyInput) (k : AesKeyData) :
    Prop where
  writeKey : k.writeKey = (D.md5 ((hashedText own d).drop 1)).take 12 ++ D.sha1 (hashedText own d)
  writeIv : k.writeIv = D.md5 ((hashedText own d).drop 2)
  readKey : k.readKey =
    (D.md5 ((hashedText other d).drop 1)).take 12 ++ D.sha1 (hashedText other d)
  readIv : k.readIv = D.md5 ((hashedText other d).drop 2)

theorem overlay_cons (x y : UInt8) (a b : List UInt8) :
    overlay (x :: a) (y :: b) = (x ^^^ y) :: overlay a b := by
  simp [overlay, Nat.succ_max_succ, range_succ_eq_map]

theorem overlay_nil (a : List UInt8) : overlay a [] = a ∧ overlay [] a = a := by
  constructor <;>
    exact List.ext_getElem (by simp [overlay]) fun i _ hi => by simp [overlay, getElem?_eq_getElem hi]

theorem mixTempKey_eq_overlay (str tempKey : List UInt8) :
    mixTempKey str tempKey = overlay str (tempKey.take 634) := by
  have hmix (a b : List UInt8) : zipWith (· ^^^ ·) a b ++ a.drop b.length ++ b.drop a.length =
      overlay a b := by
    induction a generalizing b with
    | nil => simp [(overlay_nil b).2]
    | cons x a ih =>
      cases b with
      | nil => simp [(overlay_nil (x :: a)).1]
      | cons y b =>
        rw [overlay_cons, ← ih b]
        rfl
  exact hmix str (tempKey.take 634)

theorem writeText_eq_hashedText (am : Bool) (d : KeyInput) :
    writeText am d = hashedText (if am then clientText else serverText) d := by
  rw [writeText, mixTempKey_eq_overlay, hashedText]
  simp [keyText]

theorem derivedKeys_of_aesCreateKeys {D : Digests} {am : Bool} {d : KeyInput} {k : AesKeyData}
    (hs : d.nonceServer.length = 16) (hc : d.nonceClient.length = 16)
    (h : aesCreateKeys D am d = some k) :
    DerivedKeys D (if am then clientText else serverText) (if am then serverText else clientText)
      d k := by
  obtain rfl := Option.some.inj (h.symm.trans (aesCreateKeys_eq hs hc h am))
  have hother : writeText (!am) d = hashedText (if am then serverText else clientText) d := by
    rw [writeText_eq_hashedText]
    cases am <;> rfl
  rw [hother, writeText_eq_hashedText am]
  exact ⟨rfl, rfl, rfl, rfl⟩

theorem length_cryptoNonce {p : List UInt8} (h : 32 ≤ p.length) : (cryptoNonce p).length = 16 := by
  simp [cryptoNonce]
  omega

/-! ### Both ends -/

/-- The process around the outbound connection of an end. -/
def Endpoint.clientEnv (D : Digests) (e : Endpoint) (env : RpcEnv AesKeyData) :
    RpcEnv AesKeyData :=
  { env with
    secretLen := e.secret.length
    keySignature := word e.secret 0
    aesCreateKeys := fun nonce nonceTime tempKey =>
      aesCreateKeys D true (e.clientInput nonce nonceTime tempKey) }

/-- The process around the inbound connection of an end. -/
def Endpoint.serverEnv (D : Digests) (e : Endpoint) (env : RpcsEnv AesKeyData) :
    RpcsEnv AesKeyData :=
  { env with
    secretLen := e.secret.length
    keySignature := word e.secret 0
    aesCreateKeys := fun nonce cryptoTs tempKey =>
      aesCreateKeys D false (e.serverInput nonce cryptoTs tempKey) }

/-- The log of a connection begins with one nonce packet and one handshake packet. -/
structure HandshakeLog (log : List (Packet AesKeyData)) (nonce handshake : Packet AesKeyData) :
    Prop where
  first : nonce.num = -2
  second : handshake.num = -1
  users : ∃ users, log = nonce :: handshake :: users ∧ ∀ u ∈ users, 0 ≤ u.num.toInt

/-- An outbound connection that went through the handshake: both packets were accepted, the nonce
packet on the connection `c'`, and the keys are made from the secret and the two nonces. -/
def ClientEstablished (D : Digests) (e : Endpoint) (env : RpcEnv AesKeyData) (flags : CryptoFlags)
    (c : RpcConn AesKeyData) : Prop :=
  ∃ (nonce handshake : Packet AesKeyData) (keys : AesKeyData) (temp : List UInt8)
      (c' : RpcConn AesKeyData), HandshakeLog c.data.handled nonce handshake ∧
    0 ≤ (tcpRpccProcessNoncePacket env c' nonce.message).2 ∧
    (tcpRpccProcessNoncePacket env c' nonce.message).1.crypto = some keys ∧
    (∃ c', 0 ≤ (tcpRpccProcessHandshakePacket env c' handshake.message).2 ∧ c'.crypto = some keys) ∧
    c.crypto = some keys ∧
    DerivedKeys D clientText serverText
      { nonceServer := cryptoNonce nonce.message, nonceClient := e.nonce
        clientTimestamp := c'.data.nonceTime
        serverIp := e.remoteIp, serverPort := e.remotePort, serverIpv6 := e.remoteIpv6
        clientIp := e.ourIp, clientPort := e.ourPort, clientIpv6 := e.ourIpv6
        secret := e.secret, tempKey := temp } keys ∧
    TempKey flags env.dhThirdRound nonce.message temp

/-- The same for an inbound connection. -/
def ServerEstablished (D : Digests) (e : Endpoint) (env : RpcsEnv AesKeyData)
    (flags : CryptoFlags) (c : RpcsConn AesKeyData) : Prop :=
  ∃ (nonce handshake : Packet AesKeyData) (keys : AesKeyData) (temp : List UInt8),
    HandshakeLog c.data.handled nonce handshake ∧
    (∃ c' r, tcpRpcsProcessNoncePacket env c' nonce.message = some r ∧ 0 ≤ r.2 ∧
      r.1.crypto = some keys) ∧
    (∃ c' r, tcpRpcsProcessHandshakePacket env c' handshake.message = some r ∧ 0 ≤ r.2 ∧
      c'.crypto = some keys) ∧
    c.crypto = some keys ∧
    DerivedKeys D serverText clientText
      { nonceServer := e.nonce, nonceClient := cryptoNonce nonce.message
        clientTimestamp := word nonce.message 12
        serverIp := e.ourIp, serverPort := e.ourPort, serverIpv6 := e.ourIpv6
        clientIp := e.remoteIp, clientPort := e.remotePort, clientIpv6 := e.remoteIpv6
        secret := e.secret, tempKey := temp } keys ∧
    TempKey flags env.dhSecondRound nonce.message temp

/-- **No downgrade**: on a connection of either role that may not be unencrypted, whatever the other
side sends, a packet is handed to `execute` only once the handshake is complete and its keys are
installed. -/
theorem rpc_no_downgrade (D : Digests) (e : Endpoint) {flags : CryptoFlags}
    (hflags : flags.allowUnenc = false) :
    (∀ (env : RpcEnv AesKeyData) (es : List RpcEvent) (c c₁ c₂ : RpcConn AesKeyData)
        (p : Packet AesKeyData),
      run (rpccStep (e.clientEnv D env) flags) (tcpRpccInitOutbound flags) es = some c →
      c₁ ∈ readerCalls (ctTcpRpcClient (e.clientEnv D env)) c →
      c₂ ∈ clientPasses (e.clientEnv D env) (c₁.inn.length + 1) c₁ →
      ClientExecutes (e.clientEnv D env) c₂ p →
      ClientEstablished D e (e.clientEnv D env) flags c₂) ∧
    (∀ (env : RpcsEnv AesKeyData) (es : List RpcsEvent) (c c₁ c₂ : RpcsConn AesKeyData)
        (p : Packet AesKeyData),
      run (rpcsStep (e.serverEnv D env)) (tcpRpcsInitAccepted flags) es = some c →
      c₁ ∈ readerCalls (ctTcpRpcServer (e.serverEnv D env)) c →
      c₂ ∈ serverPasses (e.serverEnv D env) c₁ →
      ServerExecutes (e.serverEnv D env) c₂ p →
      ServerEstablished D e (e.serverEnv D env) flags c₂) := by
  constructor
  · intro env es c c₁ c₂ p hrun hcall hpass hexec
    obtain ⟨nonce, handshake, users, keys, hlog, hcrypto, hkeyed, hconfirmed, hcarried⟩ :=
      client_executes hflags hrun hcall hpass hexec
    obtain ⟨hnonce, c₃, temp, haccepted, hkeyed, hkeys, hdh⟩ := hkeyed
    obtain ⟨hhandshake, c₄, haccepted', hinstalled⟩ := hconfirmed
    have hlength := length_cryptoNonce (length_of_nonce_accepted haccepted)
    exact ⟨nonce, handshake, keys, temp, c₃, ⟨hnonce, hhandshake, users, hlog, hcarried⟩, haccepted,
      hkeyed, ⟨c₄, haccepted', hinstalled⟩, hcrypto,
      derivedKeys_of_aesCreateKeys hlength e.nonce_length hkeys, hdh⟩
  · intro env es c c₁ c₂ p hrun hcall hpass hexec
    obtain ⟨nonce, handshake, users, keys, hlog, hcrypto, hkeyed, hconfirmed, hcarried⟩ :=
      server_executes hflags hrun hcall hpass hexec
    obtain ⟨hnonce, c₃, r, temp, hprocess, haccepted, hkeyed, hkeys, hdh⟩ := hkeyed
    obtain ⟨hhandshake, c₄, r', hprocess', haccepted', hinstalled⟩ := hconfirmed
    have hlength := length_cryptoNonce (length_of_rpcsNonce_accepted hprocess haccepted)
    exact ⟨nonce, handshake, keys, temp, ⟨hnonce, hhandshake, users, hlog, hcarried⟩,
      ⟨c₃, r, hprocess, haccepted, hkeyed⟩, ⟨c₄, r', hprocess', haccepted', hinstalled⟩, hcrypto,
      derivedKeys_of_aesCreateKeys e.nonce_length hlength hkeys, hdh⟩

/-- Hash functions for the run below. -/
def sampleDigests : Digests := ⟨fun _ => [], fun _ => []⟩

def sampleEndpoint : Endpoint :=
  ⟨List.replicate 16 1, 1, 80, [], 2, 81, [], List.replicate 32 7, rfl⟩

/-- A process with a checksum that is always zero, and a cipher that changes nothing. -/
def sampleKeysEnv : RpcEnv AesKeyData where
  maxPacketLen := 0
  crc := fun _ _ => 0
  secretLen := 0
  keySignature := 0
  dhParamsSelect := 0
  dhThirdRound := fun _ => none
  aesCreateKeys := fun _ _ _ => none
  aesCbcDecrypt := fun _ _ ct => ct
  defaultCrc32c := false
  ignorePid := false
  pid := ⟨0, 0, 0, 0⟩
  remoteIp := 0
  remotePort := 0
  execute := fun _ _ => false

/-- The nonce packet, the handshake packet through the cipher, and a packet with the number 0 of
which only the reader has yet to run. -/
def sampleSession : List RpcEvent :=
  [.connected 1000,
    .receive (samplePacket 254
      [0xaa, 0x87, 0xcb, 0x7a, 7, 7, 7, 7, 1, 0, 0, 0, 0xe8, 3, 0, 0]), .run,
    .receive (samplePacket 255 [0xf5, 0xee, 0x82, 0x76] ++ [4, 0, 0, 0]), .run,
    .receive [16, 0, 0, 0, 0, 0, 0, 0, 9, 9, 9, 9, 0, 0, 0, 0]]

def sampleClientEnv : RpcEnv AesKeyData := sampleEndpoint.clientEnv sampleDigests sampleKeysEnv

def sampleFlags : CryptoFlags := ⟨false, true, false, false⟩

theorem rpc_no_downgrade_sampleSession :
    ∃ c c₁ c₂ p,
      run (rpccStep sampleClientEnv sampleFlags) (tcpRpccInitOutbound sampleFlags) sampleSession =
        some c ∧
      c₁ ∈ readerCalls (ctTcpRpcClient sampleClientEnv) c ∧
      c₂ ∈ clientPasses sampleClientEnv (c₁.inn.length + 1) c₁ ∧
      ClientExecutes sampleClientEnv c₂ p ∧
      ClientEstablished sampleDigests sampleEndpoint sampleClientEnv sampleFlags c₂ := by
  exact ⟨_, _, _, _, rfl, .head _, .head _, ⟨_, rfl, rfl, by decide⟩,
    (rpc_no_downgrade sampleDigests sampleEndpoint rfl).1 sampleKeysEnv sampleSession _ _ _ _
      rfl (.head _) (.head _) ⟨_, rfl, rfl, by decide⟩⟩

def sampleServerEnv : RpcsEnv AesKeyData :=
  { sampleKeysEnv with
    pid := ⟨1, 0, 1, 0⟩
    now := 1000
    tcpAddDhAccept := true
    dhSecondRound := fun _ => none
    httpFallbackType := none }

/-- An inbound connection does not ask for an empty buffer: packets that arrived in clear, behind
the nonce, are handled all the same. -/
example :
    (run (rpcsStep (sampleEndpoint.serverEnv sampleDigests sampleServerEnv))
      (tcpRpcsInitAccepted sampleFlags)
      [.receive (samplePacket 254
          [0xaa, 0x87, 0xcb, 0x7a, 7, 7, 7, 7, 1, 0, 0, 0, 0xe8, 3, 0, 0] ++
        samplePacket 255 [0xf5, 0xee, 0x82, 0x76] ++
        [16, 0, 0, 0, 0, 0, 0, 0, 9, 9, 9, 9, 0, 0, 0, 0]), .run]).map
      (fun c => c.data.handled.map fun p => (p.num, p.bytes.all (·.cipher.isNone))) =
      some [(-2, true), (-1, true), (0, true)] := by
  decide +kernel

end Mtbolt.Rpc
