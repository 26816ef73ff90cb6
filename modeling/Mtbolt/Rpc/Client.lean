import Mtbolt.Lib.EventRun
import Mtbolt.Lib.Words
import Mtbolt.Net.Reader

/-!
# Outbound RPC connections

A connection to a middle-end (`net-tcp-rpc-client.c`) starts in clear.  Packet `-2` is the nonce
of the other side; it installs the AES-CBC cipher, and every later packet should come through it.
The cipher is installed from inside the parsing loop, by a handler that refuses as long as the
buffer holds bytes which were received in clear.

Bytes carry a mark: the cipher they came out of, if any.  `handled` logs the packets given to
the nonce and handshake handlers and to `execute`, each with all its bytes.
-/

namespace Mtbolt.Rpc

open EventRun Net Words List

/-! ### The connection -/

/-- A received byte, and the read cipher it came out of. -/
structure Byte (κ : Type) where
  val : UInt8
  cipher : Option κ
  deriving DecidableEq, Repr

/-- `struct process_id`. -/
structure ProcessId where
  ip : BitVec 32
  port : BitVec 16
  pid : BitVec 16
  utime : BitVec 32
  deriving DecidableEq, Repr

/-- `matches_pid`, as a truth value: `x` is a special case of `y`. -/
def matchesPid (x y : ProcessId) : Bool :=
  x = y || ((y.ip = 0 || x.ip = y.ip) && (y.port = 0 || x.port = y.port) &&
    (y.pid = 0 || x.pid = y.pid) && (y.utime = 0 || x.utime = y.utime))

/-- The bits of `crypto_flags` that the permission check sets. -/
structure CryptoFlags where
  allowUnenc : Bool
  allowEnc : Bool
  reqDh : Bool
  allowSkipDh : Bool
  deriving DecidableEq, Repr

/-- A packet with all its bytes, from the length to the checksum. -/
structure Packet (κ : Type) where
  num : BitVec 32
  bytes : List (Byte κ)
  deriving DecidableEq, Repr

/-- `struct tcp_rpc_data`, with `crypto_temp`, the length of `out` and the chaining block of the
read cipher.  `customCrc32c` says that `custom_crc_partial` is `crc32c_partial`. -/
structure RpcData (κ : Type) where
  inPacketNum : BitVec 32
  cryptoFlags : CryptoFlags
  nonceTime : BitVec 32
  cryptoTemp : Bool
  remotePid : ProcessId
  customCrc32c : Bool
  outBytes : ℕ
  lastBlock : List UInt8
  handled : List (Packet κ)

abbrev RpcConn (κ : Type) := ConnInfo (Byte κ) κ (RpcData κ)

/-- The process around a connection: its keys, its identity, and functions that are not modelled
further.  `aesCreateKeys` gets the nonce of the other side, `nonce_time` and the Diffie-Hellman
secret; `execute` says whether handling a packet fails the connection. -/
structure RpcEnv (κ : Type) where
  maxPacketLen : ℤ
  crc : Bool → List UInt8 → BitVec 32
  secretLen : ℕ
  keySignature : BitVec 32
  dhParamsSelect : BitVec 32
  dhThirdRound : List UInt8 → Option (List UInt8)
  aesCreateKeys : List UInt8 → BitVec 32 → List UInt8 → Option κ
  aesCbcDecrypt : κ → List UInt8 → List UInt8 → List UInt8
  defaultCrc32c : Bool
  ignorePid : Bool
  pid : ProcessId
  remoteIp : BitVec 32
  remotePort : BitVec 16
  execute : BitVec 32 → List UInt8 → Bool

variable {κ : Type}

def failConnection (c : RpcConn κ) : RpcConn κ := { c with failed := true }

/-- The 32-bit word at an offset. -/
def word (p : List UInt8) (offset : ℕ) : BitVec 32 := le32 (p.drop offset)

/-- The 16-bit word at an offset. -/
def halfWord (p : List UInt8) (offset : ℕ) : BitVec 16 := (word p offset).setWidth 16

/-- A `struct process_id` at an offset. -/
def processIdAt (p : List UInt8) (offset : ℕ) : ProcessId :=
  ⟨word p offset, halfWord p (offset + 4), halfWord p (offset + 6), word p (offset + 8)⟩

/-- `RPC_NONCE`. -/
def rpcNonce : BitVec 32 := 0x7acb87aa#32

/-- `RPC_HANDSHAKE`. -/
def rpcHandshake : BitVec 32 := 0x7682eef5#32

/-! ### The nonce packet -/

/-- `RPC_CRYPTO_NONE`, `RPC_CRYPTO_AES`, `RPC_CRYPTO_AES_EXT`, `RPC_CRYPTO_AES_DH`. -/
inductive CryptoSchema
  | none
  | aes
  | aesExt
  | aesDh
  deriving DecidableEq, Repr

def CryptoSchema.ofWord (w : BitVec 32) : Option CryptoSchema :=
  if w = 0 then some .none
  else if w = 1 then some .aes
  else if w = 2 then some .aesExt
  else if w = 3 then some .aesDh
  else Option.none

/-- `extra_keys_count`. -/
def extraKeysCount (p : List UInt8) : ℤ := (word p 32).toInt

/-- The length of a nonce packet fits its schema: 32 bytes, plus the extra keys and the
Diffie-Hellman part. -/
def nonceLengthOk (p : List UInt8) : CryptoSchema → Bool
  | .none | .aes => p.length = 32
  | .aesExt =>
    36 ≤ p.length && 0 ≤ extraKeysCount p && extraKeysCount p ≤ 8 &&
      (p.length : ℤ) = 68 + 4 * (extraKeysCount p - 8)
  | .aesDh =>
    296 ≤ p.length && 0 ≤ extraKeysCount p && extraKeysCount p ≤ 8 &&
      (p.length : ℤ) = 328 + 4 * (extraKeysCount p - 8)

/-- The extra key signatures of a nonce packet. -/
def extraKeySelect (p : List UInt8) : List (BitVec 32) :=
  (List.range (extraKeysCount p).toNat).map fun i => word p (36 + 4 * i)

/-- `select_best_key_signature`. -/
def selectBestKeySignature (env : RpcEnv κ) (keySignature : BitVec 32)
    (extra : List (BitVec 32)) : BitVec 32 :=
  if env.secretLen < 4 then 0
  else if env.keySignature = keySignature ∨ env.keySignature ∈ extra then env.keySignature
  else 0

/-- `tcp_rpcc_start_crypto`; `none` for a negative result. -/
def tcpRpccStartCrypto (env : RpcEnv κ) (c : RpcConn κ) (nonce : List UInt8)
    (keySelect : BitVec 32) (tempKey : List UInt8) : Option (RpcConn κ) :=
  if c.crypto.isSome then none
  else if c.inn.length ≠ 0 ∨ c.data.outBytes ≠ 0 ∨ c.data.nonceTime = 0 then none
  else if keySelect = 0 then none
  else
    (env.aesCreateKeys nonce c.data.nonceTime tempKey).map fun keys =>
      { c with crypto := some keys, data := { c.data with lastBlock := [] } }

/-- The end of the nonce handler for the three AES schemas; `dh` is the Diffie-Hellman share of
the other side, if the schema has one. -/
def startAes (env : RpcEnv κ) (c : RpcConn κ) (p : List UInt8) (keySelect : BitVec 32)
    (dh : Option (List UInt8)) : RpcConn κ × ℤ :=
  if keySelect = 0 ∨ selectBestKeySignature env keySelect [] = 0 then (c, -3)
  else if !c.data.cryptoFlags.allowEnc then (c, -5)
  else if (word p 12 - c.data.nonceTime).abs.toInt > 30 then (c, -6)
  else if c.data.cryptoFlags.reqDh ∧ !c.data.cryptoFlags.allowSkipDh ∧ dh = none then (c, -7)
  else
    match dh.elim (some []) env.dhThirdRound with
    | none => (c, -8)
    | some tempDh =>
      let c := { c with data := { c.data with cryptoTemp := false } }
      match tcpRpccStartCrypto env c ((p.drop 16).take 16) keySelect tempDh with
      | none => (c, -6)
      | some c => (c, 0)

/-- The second switch of the nonce handler, on a packet of the right length. -/
def applySchema (env : RpcEnv κ) (c : RpcConn κ) (p : List UInt8) : CryptoSchema → RpcConn κ × ℤ
  | .none =>
    if word p 4 ≠ 0 then (c, -3)
    else if c.data.cryptoFlags.allowUnenc then
      ({ c with data := { c.data with cryptoFlags := ⟨true, false, false, false⟩ } }, 0)
    else (c, -5)
  | .aes => startAes env c p (word p 4) none
  | .aesExt => startAes env c p (selectBestKeySignature env (word p 4) (extraKeySelect p)) none
  | .aesDh =>
    -- the Diffie-Hellman part follows the extra keys that are there
    let dh := 36 + 4 * (extraKeysCount p).toNat
    if word p dh = 0 ∨ word p dh ≠ env.dhParamsSelect then (c, -7)
    else if !c.data.cryptoFlags.reqDh || !c.data.cryptoTemp then (c, -7)
    else
      startAes env c p (selectBestKeySignature env (word p 4) (extraKeySelect p))
        (some ((p.drop (dh + 4)).take 256))

/-- `tcp_rpcc_process_nonce_packet`. -/
def tcpRpccProcessNoncePacket (env : RpcEnv κ) (c : RpcConn κ) (p : List UInt8) : RpcConn κ × ℤ :=
  if c.data.inPacketNum - 1 ≠ -2 ∨ word p 0 ≠ rpcNonce then (c, -2)
  else if p.length < 32 ∨ 328 < p.length then (c, -3)
  else
    match CryptoSchema.ofWord (word p 8) with
    | none => (c, -3)
    | some schema => if nonceLengthOk p schema then applySchema env c p schema else (c, -3)

/-! ### The handshake packet -/

/-- The effect of `tcp_rpcc_send_handshake_packet` on the connection: the peer's identity gets the
remote address if it has none. -/
def tcpRpccSendHandshakePacket (env : RpcEnv κ) (c : RpcConn κ) : RpcConn κ :=
  if c.data.remotePid.port = 0 then
    let ip := if env.remoteIp = 0x7f000001 then 0 else env.remoteIp
    { c with data := { c.data with
        remotePid := { c.data.remotePid with ip := ip, port := env.remotePort } } }
  else c

/-- `tcp_rpcc_process_handshake_packet`. -/
def tcpRpccProcessHandshakePacket (env : RpcEnv κ) (c : RpcConn κ) (p : List UInt8) :
    RpcConn κ × ℤ :=
  if c.data.inPacketNum - 1 ≠ -1 ∨ word p 0 ≠ rpcHandshake then (c, -2)
  else if p.length ≠ 32 then (c, -3)
  else
    let sender := processIdAt p 8
    if !matchesPid sender c.data.remotePid && !env.ignorePid then (c, -6)
    else
      let sender := if sender.ip = 0 then { sender with ip := c.data.remotePid.ip } else sender
      let c := { c with data := { c.data with remotePid := sender } }
      if !matchesPid env.pid (processIdAt p 20) then (c, -4)
      else if word p 4 &&& 0xff ≠ 0 then (c, -7)
      else if word p 4 &&& 2048 ≠ 0 then
        if !env.defaultCrc32c then (c, -8)
        else ({ c with data := { c.data with customCrc32c := true } }, 0)
      else (c, 0)

/-! ### The parser -/

/-- The end of a pass of the parsing loop: the parser returns, or the loop goes on. -/
inductive PassResult (κ : Type)
  | stop (c : RpcConn κ) (res : ℤ)
  | again (c : RpcConn κ)

/-- The values of some bytes. -/
def vals (bytes : List (Byte κ)) : List UInt8 := bytes.map Byte.val

/-- The content of a packet, without length, number and checksum. -/
def Packet.message (p : Packet κ) : List UInt8 := (rwmFetchDataBack (vals p.bytes) 4).2.drop 8

/-- The connection counts a packet and logs it. -/
def countPacket (c : RpcConn κ) (packet : Packet κ) : RpcConn κ :=
  { c with data := { c.data with
      inPacketNum := c.data.inPacketNum + 1, handled := c.data.handled ++ [packet] } }

/-- A packet with the expected number; `msg` is its content without length, number and checksum,
and the connection has been freed of its bytes. -/
def handlePacket (env : RpcEnv κ) (c : RpcConn κ) (packet : Packet κ) (msg : List UInt8) :
    PassResult κ :=
  if packet.num.toInt < 0 then
    let r :=
      if packet.num = -2 then
        let r := tcpRpccProcessNoncePacket env (countPacket c packet) msg
        if r.2 ≥ 0 then (tcpRpccSendHandshakePacket env r.1, 0) else r
      else if packet.num = -1 then tcpRpccProcessHandshakePacket env (countPacket c packet) msg
      else ({ c with data := { c.data with inPacketNum := c.data.inPacketNum + 1 } }, -5)
    if r.2 < 0 then .stop (failConnection r.1) 0 else .again r.1
  else
    let c := countPacket c packet
    .again (if env.execute (word msg 0) msg then failConnection c else c)

/-- One pass of the loop in `tcp_rpcc_parse_execute`. -/
def rpccPass (env : RpcEnv κ) (c : RpcConn κ) : PassResult κ :=
  let len := c.inn.length
  if len = 0 then .stop c 0
  else if len < 4 then .stop c (4 - len)
  else
    let packetLen := (word (vals c.inn) 0).toInt
    if packetLen ≤ 0 ∨ word (vals c.inn) 0 &&& 3 ≠ 0 ∨
        (packetLen > env.maxPacketLen ∧ env.maxPacketLen > 0) then
      .stop (failConnection c) 0
    else if packetLen = 4 then .again { c with inn := (rwmSkipData c.inn 4).2 }
    else if packetLen < 16 then .stop (failConnection c) 0
    else if len < packetLen then .stop c (packetLen - len)
    else
      let split := rwmSplitHead c.inn packetLen.toNat
      let c := { c with inn := split.2 }
      let back := rwmFetchDataBack (vals split.1) 4
      if word back.1 0 ≠ env.crc c.data.customCrc32c back.2 then .stop (failConnection c) 0
      else
        let num := word back.2 4
        if num ≠ c.data.inPacketNum then .stop (failConnection c) 0
        else handlePacket env c ⟨num, split.1⟩ (back.2.drop 8)

/-- The loop of `tcp_rpcc_parse_execute`, at most `fuel` passes. -/
def parseLoop (env : RpcEnv κ) : ℕ → RpcConn κ → RpcConn κ × ℤ
  | 0, c => (c, 0)
  | fuel + 1, c =>
    match rpccPass env c with
    | .stop c' res => (c', res)
    | .again c' => parseLoop env fuel c'

/-- `tcp_rpcc_parse_execute`.  A pass that goes on has used up bytes. -/
def tcpRpccParseExecute (env : RpcEnv κ) (c : RpcConn κ) : RpcConn κ × ℤ :=
  parseLoop env (c.inn.length + 1) c

/-- `cpu_tcp_aes_crypto_decrypt_input`: the full blocks of `in_u` go through the cipher. -/
def cpuTcpAesCryptoDecryptInput (env : RpcEnv κ) (c : RpcConn κ) : RpcConn κ × ℤ :=
  match c.crypto with
  | none => (c, 0)
  | some keys =>
    let l := c.inU.length / 16 * 16
    let head := vals (c.inU.take l)
    let plain := env.aesCbcDecrypt keys c.data.lastBlock head
    let last := if l = 0 then c.data.lastBlock else head.drop (l - 16)
    let c := { c with
      inU := c.inU.drop l
      inn := rwmUnion c.inn (plain.map fun b => ⟨b, some keys⟩)
      data := { c.data with lastBlock := last } }
    (c, (16 - c.inU.length) % 16)

/-- The functions of `ct_tcp_rpc_client`. -/
def ctTcpRpcClient (env : RpcEnv κ) : ConnFuncs (Byte κ) κ (RpcData κ) where
  cryptoDecryptInput := cpuTcpAesCryptoDecryptInput env
  parseExecute := tcpRpccParseExecute env

/-! ### Runs -/

/-- A connection after `tcp_rpcc_init_outbound`. -/
def tcpRpccInitOutbound (flags : CryptoFlags) : RpcConn κ where
  inQueue := []
  inU := []
  inn := []
  crypto := none
  skipBytes := 0
  failed := false
  stopRead := false
  data :=
    { inPacketNum := -2
      cryptoFlags := flags
      nonceTime := 0
      cryptoTemp := false
      remotePid := ⟨0, 0, 0, 0⟩
      customCrc32c := false
      outBytes := 0
      lastBlock := []
      handled := [] }

/-- What happens to a connection: the I/O side queues received bytes, the reader runs, the
connection is established and its nonce sent, `out` gets a new length, or it is failed from
elsewhere. -/
inductive RpcEvent
  | receive (raw : List UInt8)
  | run
  | connected (nonceTime : BitVec 32)
  | write (outBytes : ℕ)
  | fail
  deriving DecidableEq, Repr

/-- The connection after an event; `flags` are the permissions of the process. -/
def rpccStep (env : RpcEnv κ) (flags : CryptoFlags) (c : RpcConn κ) :
    RpcEvent → Option (RpcConn κ)
  | .receive raw => some { c with inQueue := c.inQueue ++ [raw.map fun b => ⟨b, none⟩] }
  | .run => some (reader (ctTcpRpcClient env) c)
  | .connected nonceTime => some { c with data := { c.data with
      cryptoFlags := flags
      nonceTime := if flags.allowEnc then nonceTime else c.data.nonceTime
      cryptoTemp := flags.allowEnc && flags.reqDh } }
  | .write outBytes => some { c with data := { c.data with outBytes := outBytes } }
  | .fail => some (failConnection c)

/-! ### What the handlers touch -/

/-- The handlers leave the buffers, the packet counter, the permissions and the log alone. -/
structure Untouched (c c' : RpcConn κ) : Prop where
  inU : c'.inU = c.inU
  inn : c'.inn = c.inn
  inPacketNum : c'.data.inPacketNum = c.data.inPacketNum
  allowUnenc : c'.data.cryptoFlags.allowUnenc = c.data.cryptoFlags.allowUnenc
  handled : c'.data.handled = c.data.handled

theorem Untouched.refl (c : RpcConn κ) : Untouched c c := by constructor <;> rfl

variable {env : RpcEnv κ} {c c' : RpcConn κ} {packet : Packet κ}

/-- The cipher is installed only into a connection without one, whose buffer is empty. -/
theorem startCrypto_spec {nonce tempKey : List UInt8} {keySelect : BitVec 32}
    (h : tcpRpccStartCrypto env c nonce keySelect tempKey = some c') :
    Untouched c c' ∧ c.crypto = none ∧ c.inn = [] ∧ c'.crypto.isSome = true := by
  unfold tcpRpccStartCrypto at h
  split_ifs at h with hcrypto hbuf hkey
  obtain ⟨keys, -, rfl⟩ := Option.map_eq_some_iff.1 h
  refine ⟨(by constructor <;> rfl), by simpa using hcrypto, ?_, rfl⟩
  rw [← length_eq_zero_iff]
  omega

/-- What a nonce or its AES part can do: refuse, or install the cipher. -/
def NonceOutcome (c : RpcConn κ) (r : RpcConn κ × ℤ) : Prop :=
  Untouched c r.1 ∧ ((r.2 < 0 ∧ r.1.crypto = c.crypto) ∨
    (r.2 = 0 ∧ c.crypto = none ∧ c.inn = [] ∧ r.1.crypto.isSome = true))

variable (c)

theorem nonceOutcome_refused {res : ℤ} (h : res < 0) : NonceOutcome c (c, res) :=
  ⟨.refl c, .inl ⟨h, rfl⟩⟩

variable (env)

theorem startAes_spec (p : List UInt8) (keySelect : BitVec 32) (dh : Option (List UInt8)) :
    NonceOutcome c (startAes env c p keySelect dh) := by
  unfold startAes
  split_ifs
  · exact nonceOutcome_refused c (by decide)
  · exact nonceOutcome_refused c (by decide)
  · exact nonceOutcome_refused c (by decide)
  · exact nonceOutcome_refused c (by decide)
  · split
    · exact nonceOutcome_refused c (by decide)
    · dsimp only
      split
      · exact ⟨(by constructor <;> rfl), .inl ⟨Int.negSucc_lt_zero 5, rfl⟩⟩
      · next c' hstart =>
        obtain ⟨hsame, hnone, hempty, hsome⟩ := startCrypto_spec hstart
        exact ⟨{ hsame with }, .inr ⟨rfl, hnone, hempty, hsome⟩⟩

variable {c}

theorem applySchema_spec (hunenc : c.data.cryptoFlags.allowUnenc = false) (p : List UInt8)
    (schema : CryptoSchema) : NonceOutcome c (applySchema env c p schema) := by
  cases schema with
  | none =>
    rw [applySchema, hunenc, if_neg Bool.false_ne_true]
    split_ifs
    · exact nonceOutcome_refused c (by decide)
    · exact nonceOutcome_refused c (by decide)
  | aes => exact startAes_spec env c p _ _
  | aesExt => exact startAes_spec env c p _ _
  | aesDh =>
    rw [applySchema]
    split_ifs
    · exact nonceOutcome_refused c (by decide)
    · exact nonceOutcome_refused c (by decide)
    · exact startAes_spec env c p _ _

theorem processNonce_spec (hunenc : c.data.cryptoFlags.allowUnenc = false) (p : List UInt8) :
    NonceOutcome c (tcpRpccProcessNoncePacket env c p) := by
  unfold tcpRpccProcessNoncePacket
  cases CryptoSchema.ofWord (word p 8) with
  | none => split_ifs <;> exact nonceOutcome_refused c (by decide)
  | some schema =>
    dsimp only
    split_ifs
    · exact nonceOutcome_refused c (by decide)
    · exact nonceOutcome_refused c (by decide)
    · exact applySchema_spec env hunenc p schema
    · exact nonceOutcome_refused c (by decide)

variable (c)

theorem sendHandshake_spec :
    Untouched c (tcpRpccSendHandshakePacket env c) ∧
      (tcpRpccSendHandshakePacket env c).crypto = c.crypto := by
  unfold tcpRpccSendHandshakePacket
  split
  · exact ⟨(by constructor <;> rfl), rfl⟩
  · exact ⟨.refl c, rfl⟩

/-- What the handshake handler leaves alone. -/
def HandshakeOutcome (c : RpcConn κ) (r : RpcConn κ × ℤ) : Prop :=
  Untouched c r.1 ∧ r.1.crypto = c.crypto

theorem processHandshake_spec (p : List UInt8) :
    HandshakeOutcome c (tcpRpccProcessHandshakePacket env c p) := by
  have hsame (res : ℤ) : HandshakeOutcome c (c, res) := ⟨.refl c, rfl⟩
  have hpid (pid : ProcessId) (res : ℤ) :
      HandshakeOutcome c ({ c with data := { c.data with remotePid := pid } }, res) :=
    ⟨(by constructor <;> rfl), rfl⟩
  unfold tcpRpccProcessHandshakePacket
  refine iteInduction (fun _ => hsame _) fun _ => ?_
  refine iteInduction (fun _ => hsame _) fun _ => ?_
  refine iteInduction (fun _ => hsame _) fun _ => ?_
  refine iteInduction (fun _ => hpid _ _) fun _ => ?_
  refine iteInduction (fun _ => hpid _ _) fun _ => ?_
  refine iteInduction (fun _ => ?_) fun _ => hpid _ _
  refine iteInduction (fun _ => hpid _ _) fun _ => ?_
  exact ⟨(by constructor <;> rfl), rfl⟩

/-! ### The bounds on the loops -/

theorem view_processNonce {α : Type*} (v : RpcConn κ → α) (env : RpcEnv κ) (c : RpcConn κ)
    (p : List UInt8)
    (hflags : ∀ flags, v { c with data := { c.data with cryptoFlags := flags } } = v c)
    (huntouched : ∀ c', Untouched c c' → v c' = v c) :
    v (tcpRpccProcessNoncePacket env c p).1 = v c := by
  have happly (schema : CryptoSchema) : v (applySchema env c p schema).1 = v c := by
    cases schema with
    | none =>
      rw [applySchema]
      split_ifs
      · rfl
      · exact hflags _
      · rfl
    | aes => exact huntouched _ (startAes_spec env c p _ _).1
    | aesExt => exact huntouched _ (startAes_spec env c p _ _).1
    | aesDh =>
      rw [applySchema]
      split_ifs
      · rfl
      · rfl
      · exact huntouched _ (startAes_spec env c p _ _).1
  unfold tcpRpccProcessNoncePacket
  cases CryptoSchema.ofWord (word p 8) with
  | none => split_ifs <;> rfl
  | some schema =>
    dsimp only
    split_ifs
    · rfl
    · rfl
    · exact happly schema
    · rfl

theorem inn_processNonce (p : List UInt8) : (tcpRpccProcessNoncePacket env c p).1.inn = c.inn :=
  view_processNonce (·.inn) env c p (fun _ => rfl) fun _ h => h.inn

variable {env c}

theorem inn_handlePacket {msg : List UInt8} (h : handlePacket env c packet msg = .again c') :
    c'.inn = c.inn := by
  unfold handlePacket at h
  dsimp only at h
  split_ifs at h
  all_goals cases h
  · exact (sendHandshake_spec env _).1.inn.trans (inn_processNonce env _ msg)
  · exact inn_processNonce env _ msg
  · exact (processHandshake_spec env _ msg).1.inn
  · rfl
  · rfl
  · rfl

/-- What a pass of the loop can do: there is nothing to read or more bytes are needed, the length
word is refused or that of a filler, the packet is refused, or it goes to its handler. -/
inductive PassSpec (env : RpcEnv κ) (c : RpcConn κ) : PassResult κ → Prop
  | empty (h : c.inn = []) : PassSpec env c (.stop c 0)
  | wait (res : ℤ) (h : 0 < res) : PassSpec env c (.stop c res)
  | refuseLength : PassSpec env c (.stop (failConnection c) 0)
  | filler (h : 4 ≤ c.inn.length) : PassSpec env c (.again { c with inn := c.inn.drop 4 })
  | refuse (n : ℕ) : PassSpec env c (.stop (failConnection { c with inn := c.inn.drop n }) 0)
  | packet (n : ℕ) (msg : List UInt8) (hn : 16 ≤ n ∧ n % 4 = 0 ∧ n < 2 ^ 31)
      (hlen : n ≤ c.inn.length) : PassSpec env c
        (handlePacket env { c with inn := c.inn.drop n } ⟨c.data.inPacketNum, c.inn.take n⟩ msg)

theorem passSpec_rpccPass (env : RpcEnv κ) (c : RpcConn κ) : PassSpec env c (rpccPass env c) := by
  unfold rpccPass
  refine iteInduction (fun hzero => .empty (length_eq_zero_iff.1 hzero)) fun _ => ?_
  refine iteInduction (fun _ => .wait _ (by omega)) fun _ => ?_
  refine iteInduction (fun _ => .refuseLength) fun hbad => ?_
  refine iteInduction (fun _ => .filler (by omega)) fun _ => ?_
  refine iteInduction (fun _ => .refuseLength) fun _ => ?_
  refine iteInduction (fun _ => .wait _ (by omega)) fun _ => ?_
  refine iteInduction (fun _ => .refuse _) fun _ => ?_
  refine iteInduction (fun _ => .refuse _) fun hnum => ?_
  rw [not_not] at hnum
  rw [hnum]
  refine .packet _ _ ?_ (by omega)
  -- The length is positive as a signed word, so it is the word itself.
  rw [not_or, not_or, ne_eq, not_not] at hbad
  have hmod := (and_three_eq_zero_iff _).1 hbad.2.1
  have hint := BitVec.toInt_eq_toNat_cond (word (vals c.inn) 0)
  split_ifs at hint <;> omega

theorem length_rpccPass (h : rpccPass env c = .again c') : c'.inn.length < c.inn.length := by
  have hspec := passSpec_rpccPass env c
  rw [h] at hspec
  generalize hr : PassResult.again c' = r at hspec
  cases hspec with
  | filler hlen =>
    cases hr
    rw [length_drop]
    omega
  | packet n msg hn hlen =>
    rw [inn_handlePacket hr.symm]
    rw [length_drop]
    omega
  | _ => cases hr

variable (c)

theorem blocked_failConnection : (failConnection c).blocked = true := by
  simp [ConnInfo.blocked, failConnection]

variable {c}

theorem blocked_handlePacket {msg : List UInt8} (h : handlePacket env c packet msg = .stop c' 0) :
    c'.blocked = true := by
  unfold handlePacket at h
  dsimp only at h
  split_ifs at h
  all_goals cases h
  all_goals exact blocked_failConnection _

theorem blocked_rpccPass (h : rpccPass env c = .stop c' 0) : c'.blocked = true := by
  have hspec := passSpec_rpccPass env c
  rw [h] at hspec
  generalize hr : PassResult.stop c' 0 = r at hspec
  cases hspec with
  | empty hnil =>
    cases hr
    simp [ConnInfo.blocked, hnil]
  | wait res hpos =>
    have := (PassResult.stop.inj hr).2
    omega
  | refuseLength =>
    cases hr
    exact blocked_failConnection _
  | filler => cases hr
  | refuse n =>
    cases hr
    exact blocked_failConnection _
  | packet n msg => exact blocked_handlePacket hr.symm

/-- **More passes of the parsing loop change nothing.** -/
theorem parseLoop_eq_of_lt {m n : ℕ} (hm : c.inn.length < m) (hn : c.inn.length < n) :
    parseLoop env m c = parseLoop env n c := by
  induction m generalizing c n with
  | zero => omega
  | succ m ih =>
    obtain ⟨n, rfl⟩ : ∃ n', n = n' + 1 := ⟨n - 1, by omega⟩
    rw [parseLoop, parseLoop]
    cases hpass : rpccPass env c with
    | stop c' res => rfl
    | again c' =>
      have := length_rpccPass hpass
      exact ih (by omega) (by omega)

theorem tcpRpccParseExecute_blocked (h : (tcpRpccParseExecute env c).2 = 0) :
    (tcpRpccParseExecute env c).1.blocked = true := by
  have hloop (fuel : ℕ) (c : RpcConn κ) (hfuel : c.inn.length < fuel)
      (h : (parseLoop env fuel c).2 = 0) : (parseLoop env fuel c).1.blocked = true := by
    induction fuel generalizing c with
    | zero => omega
    | succ fuel ih =>
      rw [parseLoop] at h ⊢
      cases hpass : rpccPass env c with
      | stop c' res =>
        simp only [hpass] at h ⊢
        exact blocked_rpccPass (h ▸ hpass)
      | again c' =>
        have := length_rpccPass hpass
        simp only [hpass] at h ⊢
        exact ih c' (by omega) h
  exact hloop _ c (Nat.lt_succ_self _) h

variable (env c)

/-- **More calls of the parser change nothing.** -/
theorem readerLoop_ctTcpRpcClient {n : ℕ} (hn : 1 < n) :
    readerLoop (ctTcpRpcClient env) n c = readerLoop (ctTcpRpcClient env) 2 c := by
  have hblocked (c : RpcConn κ) (hzero : ((ctTcpRpcClient env).parseExecute c).2 = 0) :
      ((ctTcpRpcClient env).parseExecute c).1.blocked = true :=
    tcpRpccParseExecute_blocked (c := c) hzero
  exact readerLoop_eq_of_lt (μ := fun _ => 1) (fun c _ hzero => .inl (hblocked c hzero)) hn
    Nat.one_lt_two

/-! ### Clear and deciphered bytes do not mix -/

variable {c}

/-- The invariant of a connection that may not be unencrypted.  As long as there is no cipher, no
packet but the nonce has been handled, and none can be unless the connection failed; afterwards
the buffer and all other packets came out of the cipher. -/
structure SecretConn (c : RpcConn κ) : Prop where
  allowUnenc : c.data.cryptoFlags.allowUnenc = false
  clear : c.crypto = none → c.inU = [] ∧ (c.failed = true ∨ c.data.inPacketNum = -2) ∧
    ∀ p ∈ c.data.handled, p.num = -2
  ciphered : ∀ keys, c.crypto = some keys → (∀ b ∈ c.inn, b.cipher = some keys) ∧
    ∀ p ∈ c.data.handled, p.num ≠ -2 → ∀ b ∈ p.bytes, b.cipher = some keys

/-- Inside the loop a connection without a cipher still waits for the nonce. -/
structure Parsing (c : RpcConn κ) : Prop extends SecretConn c where
  waiting : c.crypto = none → c.data.inPacketNum = -2

theorem SecretConn.parsing (hc : SecretConn c) (hfailed : c.failed = false) : Parsing c where
  toSecretConn := hc
  waiting := fun hnone => by
    rcases (hc.clear hnone).2.1 with h | h
    · rw [hfailed] at h
      cases h
    · exact h

theorem SecretConn.fail (hc : SecretConn c) : SecretConn (failConnection c) :=
  ⟨hc.allowUnenc, fun h => ⟨(hc.clear h).1, .inl rfl, (hc.clear h).2.2⟩, hc.ciphered⟩

theorem SecretConn.drop (hc : SecretConn c) {inn : List (Byte κ)} (hinn : inn ⊆ c.inn) (skip : ℤ) :
    SecretConn { c with inn := inn, skipBytes := skip } :=
  ⟨hc.allowUnenc, hc.clear, fun keys h =>
    ⟨fun b hb => (hc.ciphered keys h).1 b (hinn hb), (hc.ciphered keys h).2⟩⟩

theorem Parsing.drop (hc : Parsing c) {inn : List (Byte κ)} (hinn : inn ⊆ c.inn) :
    Parsing { c with inn := inn } :=
  ⟨hc.toSecretConn.drop hinn c.skipBytes, hc.waiting⟩

theorem Parsing.untouched (hc : Parsing c) (h : Untouched c c') (hcrypto : c'.crypto = c.crypto) :
    Parsing c' := by
  refine ⟨⟨h.allowUnenc.trans hc.allowUnenc, fun hnone => ?_, fun keys hkeys => ?_⟩,
    fun hnone => ?_⟩
  · rw [hcrypto] at hnone
    rw [h.inU, h.inPacketNum, h.handled]
    exact ⟨(hc.clear hnone).1, .inr (hc.waiting hnone), (hc.clear hnone).2.2⟩
  · rw [hcrypto] at hkeys
    rw [h.inn, h.handled]
    exact hc.ciphered keys hkeys
  · rw [h.inPacketNum]
    exact hc.waiting (hcrypto ▸ hnone)

theorem Parsing.countPacket (hc : Parsing c) (hsome : c.crypto ≠ none)
    (hbytes : ∀ keys, c.crypto = some keys → ∀ b ∈ packet.bytes, b.cipher = some keys) :
    Parsing (countPacket c packet) := by
  refine ⟨⟨hc.allowUnenc, fun hnone => absurd hnone hsome, fun keys hkeys => ?_⟩,
    fun hnone => absurd hnone hsome⟩
  refine ⟨(hc.ciphered keys hkeys).1, fun p hp hnum => ?_⟩
  rcases mem_append.1 hp with hp | hp
  · exact (hc.ciphered keys hkeys).2 p hp hnum
  · rw [mem_singleton.1 hp]
    exact hbytes keys hkeys

/-- The invariant of the end of a pass. -/
def PassResult.Secret : PassResult κ → Prop
  | .stop c _ => SecretConn c
  | .again c => Parsing c

/-- **The nonce packet**: it is refused and the connection fails, or the cipher is installed into
a connection with an empty buffer. -/
theorem secret_nonce (hc : Parsing c) (hnum : packet.num = -2) (msg : List UInt8) :
    (handlePacket env c packet msg).Secret := by
  have hneg : packet.num.toInt < 0 := by
    rw [hnum]
    decide
  obtain ⟨hsame, hcase⟩ := processNonce_spec env (c := countPacket c packet) hc.allowUnenc msg
  have hlog : ∀ p ∈ (countPacket c packet).data.handled, p ∈ c.data.handled ∨ p.num = -2 := by
    intro p hp
    rcases mem_append.1 hp with hp | hp
    · exact .inl hp
    · exact .inr (mem_singleton.1 hp ▸ hnum)
  unfold handlePacket
  rw [if_pos hneg, if_pos hnum]
  rcases hcase with ⟨hres, hcrypto⟩ | ⟨hres, hnone, hempty, hsome⟩
  · rw [if_neg (not_le.2 hres), if_pos hres]
    refine SecretConn.mk (hsame.allowUnenc.trans hc.allowUnenc) (fun hnone => ?_)
      fun keys hkeys => ?_
    · have hclear := hc.clear (hcrypto.symm.trans hnone)
      refine ⟨hsame.inU.trans hclear.1, .inl rfl, fun p hp => ?_⟩
      exact (hlog p (hsame.handled ▸ hp)).elim (hclear.2.2 p) id
    · have hciph := hc.ciphered keys (hcrypto.symm.trans hkeys)
      refine ⟨fun b hb => hciph.1 b (hsame.inn ▸ hb), fun p hp hne => ?_⟩
      exact (hlog p (hsame.handled ▸ hp)).elim (fun h => hciph.2 p h hne) fun h => absurd h hne
  · rw [if_pos (le_of_eq hres.symm)]
    obtain ⟨hsame', hcrypto'⟩ := sendHandshake_spec env
      (tcpRpccProcessNoncePacket env (countPacket c packet) msg).1
    have hclear := hc.clear hnone
    refine Parsing.untouched (Parsing.mk (SecretConn.mk (hsame.allowUnenc.trans hc.allowUnenc) ?_
      fun keys hkeys => ?_) ?_) hsame' hcrypto'
    · intro h
      rw [h] at hsome
      cases hsome
    · refine ⟨fun b hb => ?_, fun p hp hne => ?_⟩
      · rw [hsame.inn, hempty] at hb
        cases hb
      · exact absurd ((hlog p (hsame.handled ▸ hp)).elim (hclear.2.2 p) id) hne
    · intro h
      rw [h] at hsome
      cases hsome

theorem secret_other (hc : Parsing c) (hnum : packet.num = c.data.inPacketNum)
    (hne : packet.num ≠ -2)
    (hbytes : ∀ keys, c.crypto = some keys → ∀ b ∈ packet.bytes, b.cipher = some keys)
    (msg : List UInt8) : (handlePacket env c packet msg).Secret := by
  have hsome : c.crypto ≠ none := fun h => hne (hnum.trans (hc.waiting h))
  have hcount := hc.countPacket hsome hbytes
  unfold handlePacket
  split
  · dsimp only
    split
    · obtain ⟨hsame, hcrypto⟩ := processHandshake_spec env (countPacket c packet) msg
      have hnext := hcount.untouched hsame hcrypto
      split_ifs
      · exact hnext.toSecretConn.fail
      · exact hnext
    · have hskip : SecretConn { c with data := { c.data with
          inPacketNum := c.data.inPacketNum + 1 } } :=
        ⟨hc.allowUnenc, fun hnone => absurd hnone hsome, hc.ciphered⟩
      exact hskip.fail
  · split_ifs
    · exact ⟨hcount.toSecretConn.fail, hcount.waiting⟩
    · exact hcount

theorem secretConn_pass (hc : Parsing c) : (rpccPass env c).Secret := by
  have hspec := passSpec_rpccPass env c
  generalize rpccPass env c = r at hspec ⊢
  cases hspec with
  | empty => exact hc.toSecretConn
  | wait => exact hc.toSecretConn
  | refuseLength => exact hc.toSecretConn.fail
  | filler => exact hc.drop (drop_subset 4 c.inn)
  | refuse n => exact (hc.drop (drop_subset n c.inn)).toSecretConn.fail
  | packet n msg =>
    have hrest := hc.drop (drop_subset n c.inn)
    by_cases hnum : c.data.inPacketNum = -2
    · exact secret_nonce env hrest hnum msg
    · -- the packet is a part of the buffer, so its bytes have the buffer's mark
      refine secret_other env hrest rfl hnum (fun keys hkeys b hb => ?_) msg
      exact (hc.ciphered keys hkeys).1 b (mem_of_mem_take hb)

/-- **The rule of the loop**: what a pass finds, and what the loop leaves. -/
theorem parseLoop_rule {env : RpcEnv κ} {I J : RpcConn κ → Prop} (hdone : ∀ c, I c → J c)
    (hstop : ∀ c c' res, I c → rpccPass env c = .stop c' res → J c')
    (hagain : ∀ c c', I c → rpccPass env c = .again c' → I c') (fuel : ℕ) (hc : I c) :
    J (parseLoop env fuel c).1 := by
  induction fuel generalizing c with
  | zero => exact hdone c hc
  | succ fuel ih =>
    rw [parseLoop]
    cases hres : rpccPass env c with
    | stop c' res => exact hstop c c' res hc hres
    | again c' => exact ih (hagain c c' hc hres)

theorem secretConn_parseExecute (hc : SecretConn c) (hfailed : c.failed = false) :
    SecretConn (tcpRpccParseExecute env c).1 := by
  refine parseLoop_rule (fun _ hc => hc.toSecretConn) (fun c c' res hc h => ?_)
    (fun c c' hc h => ?_) _ (hc.parsing hfailed)
  all_goals
    have hpass := secretConn_pass env hc
    rw [h] at hpass
    exact hpass

theorem secretConn_decrypt (hc : SecretConn c) :
    SecretConn (cpuTcpAesCryptoDecryptInput env c).1 := by
  unfold cpuTcpAesCryptoDecryptInput
  split
  · exact hc
  · next keys hkeys =>
    refine ⟨hc.allowUnenc, fun h => ?_, fun keys' h => ?_⟩
    · cases hkeys.symm.trans h
    · obtain rfl := Option.some.inj (hkeys.symm.trans h)
      refine ⟨fun b hb => ?_, (hc.ciphered keys hkeys).2⟩
      rcases mem_append.1 hb with hb | hb
      · exact (hc.ciphered keys hkeys).1 b hb
      · obtain ⟨v, -, rfl⟩ := mem_map.1 hb
        rfl

theorem secretConn_reader (hc : SecretConn c) : SecretConn (reader (ctTcpRpcClient env) c) := by
  refine reader_invariant (I := SecretConn) (fun c hc => ?_) (fun c hc _ => secretConn_decrypt env hc)
    (fun c hc => ?_) (fun c res hc => hc.drop (List.Subset.refl _) _) (fun c hc hopen => ?_) hc
  · unfold ConnInfo.popAll
    split_ifs with hcrypto
    · refine ⟨hc.allowUnenc, fun h => ?_, hc.ciphered⟩
      rw [show c.crypto = none from h] at hcrypto
      cases hcrypto
    · refine ⟨hc.allowUnenc, hc.clear, fun keys h => ?_⟩
      rw [show c.crypto = some keys from h] at hcrypto
      exact absurd rfl hcrypto
  · unfold ConnInfo.applySkip
    split_ifs
    · exact hc.drop (drop_subset _ _) _
    · exact hc.drop (List.Subset.refl _) _
    · exact hc
  · simp only [ConnInfo.blocked, Bool.or_eq_false_iff] at hopen
    exact secretConn_parseExecute env hc hopen.1.1.2

variable {env}

theorem secretConn_step {flags : CryptoFlags} (hflags : flags.allowUnenc = false) {e : RpcEvent}
    (hc : SecretConn c) (h : rpccStep env flags c e = some c') : SecretConn c' := by
  cases e with
  | receive raw =>
    cases h
    exact ⟨hc.allowUnenc, hc.clear, hc.ciphered⟩
  | run =>
    cases h
    exact secretConn_reader env hc
  | connected nonceTime =>
    cases h
    exact ⟨hflags, hc.clear, hc.ciphered⟩
  | write outBytes =>
    cases h
    exact ⟨hc.allowUnenc, hc.clear, hc.ciphered⟩
  | fail =>
    cases h
    exact hc.fail

/-- **Only deciphered bytes are handled** after the nonce, on every connection that may not be
unencrypted, whatever the other side sends and however it is divided into reads. -/
theorem handled_deciphered (env : RpcEnv κ) {flags : CryptoFlags}
    (hflags : flags.allowUnenc = false) (es : List RpcEvent) {c : RpcConn κ}
    (hrun : run (rpccStep env flags) (tcpRpccInitOutbound flags) es = some c) :
    ∀ p ∈ c.data.handled, p.num ≠ -2 →
      ∃ keys, c.crypto = some keys ∧ ∀ b ∈ p.bytes, b.cipher = some keys := by
  have hstart : SecretConn (tcpRpccInitOutbound (κ := κ) flags) :=
    ⟨hflags, fun _ => ⟨rfl, .inr rfl, nofun⟩, nofun⟩
  have hc : SecretConn c :=
    run_invariant (fun _ _ _ hc _ h => secretConn_step hflags hc h) hstart (along_true _ es) hrun
  intro p hp hnum
  cases hcrypto : c.crypto with
  | none => exact absurd ((hc.clear hcrypto).2.2 p hp) hnum
  | some keys => exact ⟨keys, rfl, (hc.ciphered keys hcrypto).2 p hp hnum⟩

/-- A process for the run below, with a checksum that is always zero and one read key. -/
def sampleEnv : RpcEnv Unit where
  maxPacketLen := 0
  crc := fun _ _ => 0
  secretLen := 16
  keySignature := 7
  dhParamsSelect := 0
  dhThirdRound := fun _ => none
  aesCreateKeys := fun _ _ _ => some ()
  aesCbcDecrypt := fun _ _ ct => ct
  defaultCrc32c := false
  ignorePid := false
  pid := ⟨0, 0, 0, 0⟩
  remoteIp := 0
  remotePort := 0
  execute := fun _ _ => false

/-- A packet of 44 bytes with the given number and first content bytes. -/
def samplePacket (num : UInt8) (content : List UInt8) : List UInt8 :=
  [44, 0, 0, 0, num, 255, 255, 255] ++ (content ++ List.replicate 36 0).take 36

def sampleNonce : List UInt8 :=
  samplePacket 254 [0xaa, 0x87, 0xcb, 0x7a, 7, 0, 0, 0, 1, 0, 0, 0, 0xe8, 3, 0, 0]

/-- The nonce arrives in two reads, then the handshake packet and an empty one through the
cipher. -/
def sampleHandshake : List RpcEvent :=
  [.connected 1000, .receive (sampleNonce.take 20), .run, .receive (sampleNonce.drop 20), .run,
    .receive (samplePacket 255 [0xf5, 0xee, 0x82, 0x76] ++ [4, 0, 0, 0]), .run]

theorem handled_deciphered_sampleHandshake :
    ∃ c, run (rpccStep sampleEnv ⟨false, true, false, false⟩)
        (tcpRpccInitOutbound ⟨false, true, false, false⟩) sampleHandshake = some c ∧
      c.data.handled.map Packet.num = [-2, -1] ∧
      ∀ p ∈ c.data.handled, p.num ≠ -2 →
        ∃ keys, c.crypto = some keys ∧ ∀ b ∈ p.bytes, b.cipher = some keys :=
  ⟨_, rfl, by decide, handled_deciphered sampleEnv rfl sampleHandshake rfl⟩

end Mtbolt.Rpc
