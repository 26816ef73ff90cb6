import Mtbolt.Rpc.Handshake

/-!
# Inbound RPC connections

The other side of an RPC connection (`net-tcp-rpc-server.c`).  The nonce packet of the client comes
first; the server answers with its own nonce and installs the cipher from inside the parsing loop.
Unlike the client it does not ask for an empty buffer.  A connection whose first packet looks like
an HTTP request may be handed over to the HTTP server.

A failed assertion ends the process: the connection is marked as `aborted`, and there is no state
after that run of the reader.
-/

namespace Mtbolt.Rpc

open EventRun Net Session Words Option

/-! ### The connection -/

/-- `struct tcp_rpc_data` of an inbound connection: also the other bits of `crypto_flags` and the
bit `RPC_F_QUICKACK` of `flags`, `C_STOPPARSE`, whether the connection belongs to the HTTP server,
and whether an assertion has failed. -/
structure RpcsData (κ : Type) extends RpcData κ where
  encSent : Bool
  seqnoHoles : Bool
  quickAckAllowed : Bool
  useCrc32c : Bool
  quickAck : Bool
  stopParse : Bool
  http : Bool
  aborted : Bool

abbrev RpcsConn (κ : Type) := ConnInfo (Byte κ) κ (RpcsData κ)

/-- The process around an inbound connection: as for an outbound one, with the time, whether
`tcp_add_dh_accept` allows one more exchange, the second round of it, and `parse_execute` of
`http_fallback_type`, which answers `none` when it fails the connection. -/
structure RpcsEnv (κ : Type) extends RpcEnv κ where
  now : BitVec 32
  tcpAddDhAccept : Bool
  dhSecondRound : List UInt8 → Option (List UInt8)
  httpFallbackType : Option (List (Byte κ) → Option (List (Byte κ) × ℤ))

variable {κ : Type}

def failRpcs (c : RpcsConn κ) : RpcsConn κ := { c with failed := true }

/-- An assertion has failed. -/
def abortRpcs (c : RpcsConn κ) : RpcsConn κ :=
  { c with failed := true, data := { c.data with aborted := true } }

/-- `D->crypto_flags = RPCF_ALLOW_UNENC`. -/
def onlyUnenc (c : RpcsConn κ) : RpcsConn κ :=
  { c with data := { c.data with
      cryptoFlags := ⟨true, false, false, false⟩
      encSent := false
      seqnoHoles := false
      quickAckAllowed := false
      useCrc32c := false } }

/-! ### The nonce packet -/

/-- `P.s.key_select` after the second switch of the nonce handler. -/
def keySelectOf (env : RpcsEnv κ) (p : List UInt8) : CryptoSchema → BitVec 32
  | .none | .aes => word p 4
  | .aesExt | .aesDh => selectBestKeySignature env.toRpcEnv (word p 4) (extraKeySelect p)

/-- The Diffie-Hellman share of a packet with the right parameters. -/
def dhShareOf (env : RpcsEnv κ) (p : List UInt8) : CryptoSchema → Option (List UInt8)
  | .aesDh =>
    let dh := word p (36 + 4 * (extraKeysCount p).toNat)
    if dh = 0 ∨ dh ≠ env.dhParamsSelect then none else some (dhShare p)
  | _ => none

/-- The AES cases of the second switch. -/
def rpcsCheckAes (env : RpcsEnv κ) (c : RpcsConn κ) (p : List UInt8) (keySelect : BitVec 32) :
    RpcsConn κ × ℤ :=
  if keySelect = 0 ∨ selectBestKeySignature env.toRpcEnv keySelect [] = 0 then
    if c.data.cryptoFlags.allowUnenc then (onlyUnenc c, 0) else (c, -3)
  else if !c.data.cryptoFlags.allowEnc then
    if c.data.cryptoFlags.allowUnenc then (onlyUnenc c, 0) else (c, -5)
  else
    let c := { c with data := { c.data with nonceTime := env.now } }
    if (word p 12 - env.now).abs.toInt > 30 then (c, -6)
    else
      ({ c with data := { c.data with
          cryptoFlags := { c.data.cryptoFlags with allowUnenc := false } } }, 0)

/-- The second switch of the nonce handler. -/
def rpcsCheckSchema (env : RpcsEnv κ) (c : RpcsConn κ) (p : List UInt8) :
    CryptoSchema → RpcsConn κ × ℤ
  | .none =>
    if word p 4 ≠ 0 then (c, -3)
    else if c.data.cryptoFlags.allowUnenc then (onlyUnenc c, 0)
    else (c, -5)
  | schema => rpcsCheckAes env c p (keySelectOf env p schema)

/-- The check for a Diffie-Hellman exchange that is required. -/
def rpcsCheckDh (c : RpcsConn κ) (dh : Option (List UInt8)) : RpcsConn κ × ℤ :=
  if c.data.cryptoFlags.reqDh ∧ c.data.cryptoFlags.allowEnc ∧ dh = none then
    if c.data.cryptoFlags.allowSkipDh then
      ({ c with data := { c.data with
          cryptoFlags := { c.data.cryptoFlags with reqDh := false, allowSkipDh := false } } }, 0)
    else (c, -7)
  else (c, 0)

/-- `tcp_rpcs_init_fake_crypto`; `none` when an assertion fails. -/
def tcpRpcsInitFakeCrypto (c : RpcsConn κ) : Option (RpcsConn κ × ℤ) :=
  if !c.data.cryptoFlags.allowUnenc then some (c, -1)
  else if c.data.cryptoFlags.allowEnc ∨ c.data.encSent then none
  else some ({ c with data := { c.data with encSent := true } }, 1)

/-- The end of `tcp_rpcs_init_crypto`, with the Diffie-Hellman secret. -/
def rpcsCreateKeys (env : RpcsEnv κ) (c : RpcsConn κ) (p : List UInt8) (tempDh : List UInt8) :
    Option (RpcsConn κ × ℤ) :=
  match env.aesCreateKeys (cryptoNonce p) (word p 12) tempDh with
  | none => some (c, -1)
  | some keys =>
    if !c.data.cryptoFlags.allowEnc || c.data.encSent then none
    else some ({ c with
      crypto := some keys, data := { c.data with lastBlock := [], encSent := true } }, 1)

/-- The same when `RPCF_REQ_DH` is set. -/
def rpcsCreateDhKeys (env : RpcsEnv κ) (c : RpcsConn κ) (p : List UInt8) (schema : CryptoSchema) :
    Option (RpcsConn κ × ℤ) :=
  match dhShareOf env p schema with
  | none => some (c, -1)
  | some share =>
    if !env.tcpAddDhAccept then some (c, -1)
    else (env.dhSecondRound share).bind (rpcsCreateKeys env c p)

/-- `tcp_rpcs_init_crypto`; `none` when an assertion fails. -/
def tcpRpcsInitCrypto (env : RpcsEnv κ) (c : RpcsConn κ) (p : List UInt8) (schema : CryptoSchema) :
    Option (RpcsConn κ × ℤ) :=
  if c.crypto.isSome then some (c, -1)
  else if c.data.cryptoFlags.allowUnenc && !c.data.cryptoFlags.allowEnc then tcpRpcsInitFakeCrypto c
  else if c.data.cryptoFlags.allowUnenc || !c.data.cryptoFlags.allowEnc then some (c, -1)
  else if env.keySignature ≠ keySelectOf env p schema then some (c, -1)
  else if c.data.cryptoFlags.reqDh then rpcsCreateDhKeys env c p schema
  else rpcsCreateKeys env c p []

/-- `tcp_rpcs_process_nonce_packet`; `none` when an assertion fails. -/
def tcpRpcsProcessNoncePacket (env : RpcsEnv κ) (c : RpcsConn κ) (p : List UInt8) :
    Option (RpcsConn κ × ℤ) :=
  if c.data.inPacketNum ≠ -2 ∨ word p 0 ≠ rpcNonce then some (c, -2)
  else if p.length < 32 ∨ 328 < p.length then some (c, -3)
  else
    match CryptoSchema.ofWord (word p 8) with
    | none => some (c, -3)
    | some schema =>
      if !nonceLengthOk p schema then some (c, -3)
      else
        let r := rpcsCheckSchema env c p schema
        if r.2 < 0 then some r
        else
          let r := rpcsCheckDh r.1 (dhShareOf env p schema)
          if r.2 < 0 then some r
          else (tcpRpcsInitCrypto env r.1 p schema).map fun r => (r.1, if r.2 < 0 then -6 else 0)

/-! ### The handshake packet -/

/-- `tcp_rpcs_send_handshake_error_packet` and the return after it. -/
def rpcsHandshakeError (env : RpcsEnv κ) (c : RpcsConn κ) (errorCode : ℤ) :
    Option (RpcsConn κ × ℤ) :=
  if env.pid.pid = 0 then none else some (c, errorCode)

/-- `tcp_rpcs_process_handshake_packet`, with `PID` initialised; `none` when an assertion fails. -/
def tcpRpcsProcessHandshakePacket (env : RpcsEnv κ) (c : RpcsConn κ) (p : List UInt8) :
    Option (RpcsConn κ × ℤ) :=
  if c.data.inPacketNum ≠ -1 ∨ word p 0 ≠ rpcHandshake then some (c, -2)
  else if p.length ≠ 32 then rpcsHandshakeError env c (-3)
  else
    let c := { c with data := { c.data with remotePid := processIdAt p 8 } }
    if !matchesPid env.pid (processIdAt p 20) && !env.ignorePid then rpcsHandshakeError env c (-4)
    else if word p 4 &&& 0xff ≠ 0 then rpcsHandshakeError env c (-7)
    else if word p 4 &&& 2048 ≠ 0 ∧ env.defaultCrc32c then
      some ({ c with data := { c.data with useCrc32c := true } }, 0)
    else some (c, 0)

/-- `tcp_rpcs_send_handshake_packet`, and the choice of the checksum after it. -/
def rpcsSendHandshake (env : RpcsEnv κ) (c : RpcsConn κ) : Option (RpcsConn κ × ℤ) :=
  if env.pid.ip = 0 then none
  else if c.data.useCrc32c then some ({ c with data := { c.data with customCrc32c := true } }, 0)
  else some (c, 0)

/-! ### The parser -/

/-- The end of a pass of the parsing loop. -/
inductive RpcsPass (κ : Type)
  | stop (c : RpcsConn κ) (res : ℤ)
  | again (c : RpcsConn κ)

def logRpcs (c : RpcsConn κ) (packet : Packet κ) : RpcsConn κ :=
  { c with data := { c.data with handled := c.data.handled ++ [packet] } }

/-- `D->in_packet_num++`. -/
def advanceRpcs (c : RpcsConn κ) : RpcsConn κ :=
  { c with data := { c.data with inPacketNum := c.data.inPacketNum + 1 } }

/-- A packet with a negative number, for the server itself. -/
def rpcsControl (env : RpcsEnv κ) (c : RpcsConn κ) (packet : Packet κ) :
    Option (RpcsConn κ × ℤ) :=
  if packet.num = -2 then tcpRpcsProcessNoncePacket env (logRpcs c packet) packet.message
  else if packet.num = -1 then
    (tcpRpcsProcessHandshakePacket env (logRpcs c packet) packet.message).bind fun r =>
      if r.2 ≥ 0 then rpcsSendHandshake env r.1 else some r
  else some (c, -1)

/-- A packet with the expected number; the connection has been freed of its bytes. -/
def rpcsHandlePacket (env : RpcsEnv κ) (c : RpcsConn κ) (packet : Packet κ) : RpcsPass κ :=
  if packet.num.toInt < 0 then
    match rpcsControl env c packet with
    | none => .stop (abortRpcs c) 0
    | some r => if r.2 < 0 then .stop (failRpcs r.1) 0 else .again (advanceRpcs r.1)
  else
    let c := logRpcs c packet
    .again (advanceRpcs
      (if env.execute (word packet.message 0) packet.message then failRpcs c else c))

/-- `"HEAD"`, `"POST"`, `"GET "` and `"OPTI"` as words. -/
def httpMethods : List (BitVec 32) := [0x44414548, 0x54534f50, 0x20544547, 0x4954504f]

/-- The HTTP parser on the buffer. -/
def httpParseExecute (parse : List (Byte κ) → Option (List (Byte κ) × ℤ)) (c : RpcsConn κ) :
    RpcsConn κ × ℤ :=
  match parse c.inn with
  | none => (failRpcs c, 0)
  | some (rest, res) => ({ c with inn := rest }, res)

/-- The connection as it is handed to the HTTP server, `custom_data` cleared. -/
def switchToHttp (c : RpcsConn κ) : RpcsConn κ :=
  { c with data :=
    { inPacketNum := 0
      cryptoFlags := ⟨false, false, false, false⟩
      nonceTime := 0
      cryptoTemp := c.data.cryptoTemp
      remotePid := ⟨0, 0, 0, 0⟩
      customCrc32c := false
      outBytes := c.data.outBytes
      lastBlock := c.data.lastBlock
      handled := c.data.handled
      encSent := false
      seqnoHoles := false
      quickAckAllowed := false
      useCrc32c := false
      quickAck := false
      stopParse := c.data.stopParse
      http := true
      aborted := c.data.aborted } }

/-- The length word, and the connection with the bit `RPC_F_QUICKACK` taken from it. -/
def rpcsLengthWord (c : RpcsConn κ) : RpcsConn κ × BitVec 32 :=
  let w := word (vals c.inn) 0
  if c.data.quickAckAllowed then
    ({ c with data := { c.data with quickAck := w &&& 0x80000000 ≠ 0 } }, w &&& 0x7fffffff)
  else (c, w)

/-- One pass of the loop in `tcp_rpcs_parse_execute`. -/
def rpcsPass (env : RpcsEnv κ) (c : RpcsConn κ) : RpcsPass κ :=
  if c.failed then .stop c needMoreBytes
  else if c.data.stopParse then .stop c needMoreBytes
  else if c.inn.length = 0 then .stop c needMoreBytes
  else if c.inn.length < 4 then .stop c (4 - c.inn.length)
  else
    let r := rpcsLengthWord c
    let c := r.1
    let w := r.2
    if w.toInt ≤ 0 ∨ w &&& 0xc0000003 ≠ 0 then
      match env.httpFallbackType with
      | some parse =>
        if c.data.inPacketNum.toInt ≤ -2 ∧ httpMethods.contains w then
          let r := httpParseExecute parse (switchToHttp c)
          .stop r.1 r.2
        else .stop (failRpcs c) 0
      | none => .stop (failRpcs c) 0
    else if w.toInt > env.maxPacketLen ∧ env.maxPacketLen > 0 then .stop (failRpcs c) 0
    else if w.toInt = 4 then .again { c with inn := (rwmSkipData c.inn 4).2 }
    else if w.toInt < 16 then .stop (failRpcs c) 0
    else if c.inn.length < w.toInt then .stop c (w.toInt - c.inn.length)
    else
      let split := rwmSplitHead c.inn w.toInt.toNat
      let c := { c with inn := split.2 }
      let back := rwmFetchDataBack (vals split.1) 4
      if word back.1 0 ≠ env.crc c.data.customCrc32c back.2 then .stop (failRpcs c) 0
      else
        let c := if c.data.inPacketNum = -3 then
          { c with data := { c.data with inPacketNum := 0 } } else c
        let num := word back.2 4
        if !c.data.seqnoHoles ∧ num ≠ c.data.inPacketNum then .stop (failRpcs c) 0
        else rpcsHandlePacket env c ⟨num, split.1⟩

/-- The loop of `tcp_rpcs_parse_execute`, at most `fuel` passes. -/
def rpcsParseLoop (env : RpcsEnv κ) : ℕ → RpcsConn κ → RpcsConn κ × ℤ
  | 0, c => (c, 0)
  | fuel + 1, c =>
    match rpcsPass env c with
    | .stop c' res => (c', res)
    | .again c' => rpcsParseLoop env fuel c'

/-- `tcp_rpcs_parse_execute`, or the parser of the HTTP server once the connection belongs to it.
A pass that goes on has used up bytes. -/
def tcpRpcsParseExecute (env : RpcsEnv κ) (c : RpcsConn κ) : RpcsConn κ × ℤ :=
  if c.data.http then
    match env.httpFallbackType with
    | some parse => httpParseExecute parse c
    | none => (c, 0)
  else rpcsParseLoop env (c.inn.length + 1) c

/-- `cpu_tcp_aes_crypto_decrypt_input`, as on an outbound connection. -/
def rpcsDecryptInput (env : RpcsEnv κ) (c : RpcsConn κ) : RpcsConn κ × ℤ :=
  let r := cpuTcpAesCryptoDecryptInput env.toRpcEnv
    ⟨c.inQueue, c.inU, c.inn, c.crypto, c.skipBytes, c.failed, c.stopRead, c.data.toRpcData⟩
  ({ c with
    inU := r.1.inU, inn := r.1.inn, data := { c.data with lastBlock := r.1.data.lastBlock } }, r.2)

/-- The functions of `ct_tcp_rpc_server`. -/
def ctTcpRpcServer (env : RpcsEnv κ) : ConnFuncs (Byte κ) κ (RpcsData κ) where
  cryptoDecryptInput := rpcsDecryptInput env
  parseExecute := tcpRpcsParseExecute env

/-- A connection after `tcp_rpcs_init_accepted`. -/
def tcpRpcsInitAccepted (flags : CryptoFlags) : RpcsConn κ where
  inQueue := []
  inU := []
  inn := []
  crypto := none
  skipBytes := 0
  failed := false
  stopRead := false
  data :=
    { toRpcData := (tcpRpccInitOutbound flags).data
      encSent := false
      seqnoHoles := false
      quickAckAllowed := false
      useCrc32c := false
      quickAck := false
      stopParse := false
      http := false
      aborted := false }

/-- What happens to an inbound connection: bytes are received, the reader runs, the connection is
failed from elsewhere. -/
inductive RpcsEvent
  | receive (raw : List UInt8)
  | run
  | fail
  deriving DecidableEq, Repr

/-- The connection after an event; none after a failed assertion. -/
def rpcsStep (env : RpcsEnv κ) (c : RpcsConn κ) : RpcsEvent → Option (RpcsConn κ)
  | .receive raw => some { c with inQueue := c.inQueue ++ [raw.map fun b => ⟨b, none⟩] }
  | .run =>
    let c' := reader (ctTcpRpcServer env) c
    if c'.data.aborted then none else some c'
  | .fail => some (failRpcs c)

/-! ### The two packets -/

/-- What it takes to accept the nonce packet, and the keys that follow from it; the handshake
packet is accepted with these keys. -/
def serverRules (env : RpcsEnv κ) (flags : CryptoFlags) : Rules (Packet κ) κ where
  keyed p keys := p.num = -2 ∧
    ∃ c r temp, tcpRpcsProcessNoncePacket env c p.message = some r ∧ 0 ≤ r.2 ∧
      r.1.crypto = some keys ∧
      env.aesCreateKeys (cryptoNonce p.message) (word p.message 12) temp = some keys ∧
      TempKey flags env.dhSecondRound p.message temp
  confirmed p keys := p.num = -1 ∧
    ∃ c r, tcpRpcsProcessHandshakePacket env c p.message = some r ∧ 0 ≤ r.2 ∧ c.crypto = some keys
  carried p := 0 ≤ p.num.toInt

/-- The parts of a connection that its stage depends on, apart from the keys and permissions. -/
structure RpcsKept (c c' : RpcsConn κ) : Prop where
  inPacketNum : c'.data.inPacketNum = c.data.inPacketNum
  handled : c'.data.handled = c.data.handled
  http : c'.data.http = c.data.http
  seqnoHoles : c'.data.seqnoHoles = c.data.seqnoHoles

theorem RpcsKept.refl (c : RpcsConn κ) : RpcsKept c c := ⟨rfl, rfl, rfl, rfl⟩

theorem RpcsKept.trans {c c' c'' : RpcsConn κ} (h : RpcsKept c c') (h' : RpcsKept c' c'') :
    RpcsKept c c'' :=
  ⟨h'.inPacketNum.trans h.inPacketNum, h'.handled.trans h.handled, h'.http.trans h.http,
    h'.seqnoHoles.trans h.seqnoHoles⟩

variable {env : RpcsEnv κ} {flags : CryptoFlags} {c : RpcsConn κ} {p : List UInt8}

theorem rpcsCheckAes_accepted (hunenc : c.data.cryptoFlags.allowUnenc = false)
    {keySelect : BitVec 32} (h : 0 ≤ (rpcsCheckAes env c p keySelect).2) :
    (rpcsCheckAes env c p keySelect).1 =
      { c with data := { c.data with nonceTime := env.now } } := by
  unfold rpcsCheckAes at h ⊢
  rw [hunenc] at h ⊢
  simp only [Bool.false_eq_true, if_false] at h ⊢
  split_ifs at h ⊢
  · exact not_accepted (by decide) h
  · exact not_accepted (by decide) h
  · exact not_accepted (by decide) h
  · rw [← hunenc]

variable {schema : CryptoSchema}

theorem rpcsCheckSchema_accepted (hunenc : c.data.cryptoFlags.allowUnenc = false)
    (h : 0 ≤ (rpcsCheckSchema env c p schema).2) :
    (rpcsCheckSchema env c p schema).1 =
      { c with data := { c.data with nonceTime := env.now } } := by
  cases schema with
  | none =>
    rw [rpcsCheckSchema, hunenc, if_neg Bool.false_ne_true] at h
    split_ifs at h
    · exact not_accepted (by decide) h
    · exact not_accepted (by decide) h
  | aes | aesExt | aesDh => exact rpcsCheckAes_accepted hunenc h

theorem rpcsCheckDh_accepted {dh : Option (List UInt8)} (h : 0 ≤ (rpcsCheckDh c dh).2) :
    RpcsKept c (rpcsCheckDh c dh).1 ∧ (rpcsCheckDh c dh).1.crypto = c.crypto ∧
      (rpcsCheckDh c dh).1.data.cryptoFlags.allowUnenc = c.data.cryptoFlags.allowUnenc ∧
      (c.data.cryptoFlags.allowSkipDh = false → (rpcsCheckDh c dh).1 = c) := by
  unfold rpcsCheckDh at h ⊢
  split_ifs at h ⊢ with hdh hskip
  · refine ⟨⟨rfl, rfl, rfl, rfl⟩, rfl, rfl, fun hno => ?_⟩
    rw [hno] at hskip
    cases hskip
  · exact not_accepted (by decide) h
  · exact ⟨.refl c, rfl, rfl, fun _ => rfl⟩

variable {r : RpcsConn κ × ℤ}

theorem rpcsCreateKeys_accepted {temp : List UInt8} (h : rpcsCreateKeys env c p temp = some r)
    (hres : 0 ≤ r.2) :
    ∃ keys, env.aesCreateKeys (cryptoNonce p) (word p 12) temp = some keys ∧
      r.1.crypto = some keys ∧ RpcsKept c r.1 := by
  unfold rpcsCreateKeys at h
  split at h
  · cases h
    exact not_accepted (by decide) hres
  · next keys hkeys =>
    split_ifs at h
    cases h
    exact ⟨keys, hkeys, rfl, rfl, rfl, rfl, rfl⟩

theorem dhShareOf_eq_some {share : List UInt8} (h : dhShareOf env p schema = some share) :
    share = dhShare p := by
  unfold dhShareOf at h
  split at h
  · dsimp only at h
    split_ifs at h
    exact (some.inj h).symm
  · cases h

theorem rpcsCreateDhKeys_accepted (h : rpcsCreateDhKeys env c p schema = some r) (hres : 0 ≤ r.2) :
    ∃ temp keys, env.aesCreateKeys (cryptoNonce p) (word p 12) temp = some keys ∧
      env.dhSecondRound (dhShare p) = some temp ∧ r.1.crypto = some keys ∧ RpcsKept c r.1 := by
  unfold rpcsCreateDhKeys at h
  cases hshare : dhShareOf env p schema with
  | none =>
    rw [hshare] at h
    cases h
    exact not_accepted (by decide) hres
  | some share =>
    rw [hshare] at h
    split_ifs at h
    · cases h
      exact not_accepted (by decide) hres
    · obtain ⟨temp, htemp, hkeys⟩ := bind_eq_some_iff.1 h
      obtain ⟨keys, hcreate, hinstalled, hkept⟩ := rpcsCreateKeys_accepted hkeys hres
      rw [dhShareOf_eq_some hshare] at htemp
      exact ⟨temp, keys, hcreate, htemp, hinstalled, hkept⟩

/-- Without permission for an unencrypted connection, `tcp_rpcs_init_crypto` installs keys; they
contain the Diffie-Hellman secret if it is still required. -/
theorem initCrypto_accepted (hunenc : c.data.cryptoFlags.allowUnenc = false)
    (h : tcpRpcsInitCrypto env c p schema = some r) (hres : 0 ≤ r.2) :
    ∃ temp keys, env.aesCreateKeys (cryptoNonce p) (word p 12) temp = some keys ∧
      (env.dhSecondRound (dhShare p) = some temp ∨ temp = [] ∧ c.data.cryptoFlags.reqDh = false) ∧
      r.1.crypto = some keys ∧ RpcsKept c r.1 := by
  unfold tcpRpcsInitCrypto at h
  rw [hunenc] at h
  split_ifs at h with hcrypto hfake henc hkey hdh
  · cases h
    exact not_accepted (by decide) hres
  · cases hfake
  · cases h
    exact not_accepted (by decide) hres
  · cases h
    exact not_accepted (by decide) hres
  · obtain ⟨temp, keys, hcreate, htemp, hinstalled, hkept⟩ := rpcsCreateDhKeys_accepted h hres
    exact ⟨temp, keys, hcreate, .inl htemp, hinstalled, hkept⟩
  · obtain ⟨keys, hcreate, hinstalled, hkept⟩ := rpcsCreateKeys_accepted h hres
    exact ⟨[], keys, hcreate, .inr ⟨rfl, Bool.not_eq_true _ ▸ hdh⟩, hinstalled, hkept⟩

theorem length_of_rpcsNonce_accepted (h : tcpRpcsProcessNoncePacket env c p = some r)
    (hres : 0 ≤ r.2) : 32 ≤ p.length := by
  unfold tcpRpcsProcessNoncePacket at h
  split_ifs at h with hfirst hlength
  · cases h
    exact not_accepted (by decide) hres
  · cases h
    exact not_accepted (by decide) hres
  · omega

theorem rpcsNonce_accepted (hunenc : c.data.cryptoFlags.allowUnenc = false)
    (h : tcpRpcsProcessNoncePacket env c p = some r) (hres : 0 ≤ r.2) :
    ∃ temp keys, env.aesCreateKeys (cryptoNonce p) (word p 12) temp = some keys ∧
      TempKey c.data.cryptoFlags env.dhSecondRound p temp ∧
      r.1.crypto = some keys ∧ RpcsKept c r.1 := by
  unfold tcpRpcsProcessNoncePacket at h
  split_ifs at h
  · cases h
    exact not_accepted (by decide) hres
  · cases h
    exact not_accepted (by decide) hres
  · cases hschema : CryptoSchema.ofWord (word p 8) with
    | none =>
      rw [hschema] at h
      cases h
      exact not_accepted (by decide) hres
    | some schema =>
      rw [hschema] at h
      dsimp only at h
      split_ifs at h with hlength hrefused hnodh
      · cases h
        exact not_accepted (by decide) hres
      · cases h
        exact absurd hrefused (not_lt.2 hres)
      · cases h
        exact absurd hnodh (not_lt.2 hres)
      · rw [not_lt] at hrefused hnodh
        obtain ⟨r', hinit, rfl⟩ := map_eq_some_iff.1 h
        have hres' : 0 ≤ r'.2 := by
          by_contra hneg
          rw [not_le] at hneg
          rw [if_pos hneg] at hres
          exact not_accepted (x := r'.1) (by decide) hres
        obtain ⟨hkept, hcrypto, hunenc', hsame⟩ := rpcsCheckDh_accepted hnodh
        rw [rpcsCheckSchema_accepted hunenc hrefused] at hkept hcrypto hunenc' hsame hinit
        obtain ⟨temp, keys, hcreate, hdh, hinstalled, hkept'⟩ :=
          initCrypto_accepted (hunenc'.trans hunenc) hinit hres'
        refine ⟨temp, keys, hcreate, hdh.imp_right fun h => ⟨h.1, fun hreq => ?_⟩, hinstalled, ?_⟩
        · rw [hsame hreq.2] at h
          exact absurd (h.2.symm.trans hreq.1) Bool.false_ne_true
        · have hstart : RpcsKept c { c with data := { c.data with nonceTime := env.now } } :=
            ⟨rfl, rfl, rfl, rfl⟩
          exact (hstart.trans hkept).trans hkept'

theorem rpcsHandshake_kept (h : tcpRpcsProcessHandshakePacket env c p = some r) :
    RpcsKept c r.1 ∧ r.1.crypto = c.crypto := by
  have herror {c' : RpcsConn κ} {code : ℤ} (hc' : RpcsKept c c' ∧ c'.crypto = c.crypto)
      (h : rpcsHandshakeError env c' code = some r) : RpcsKept c r.1 ∧ r.1.crypto = c.crypto := by
    unfold rpcsHandshakeError at h
    split_ifs at h
    cases h
    exact hc'
  have hpid : RpcsKept c { c with data := { c.data with remotePid := processIdAt p 8 } } ∧
      ({ c with data := { c.data with remotePid := processIdAt p 8 } } : RpcsConn κ).crypto =
        c.crypto := ⟨⟨rfl, rfl, rfl, rfl⟩, rfl⟩
  unfold tcpRpcsProcessHandshakePacket at h
  split_ifs at h
  · cases h
    exact ⟨.refl c, rfl⟩
  · exact herror ⟨.refl c, rfl⟩ h
  · exact herror hpid h
  · exact herror hpid h
  · cases h
    exact ⟨⟨rfl, rfl, rfl, rfl⟩, rfl⟩
  · cases h
    exact hpid

theorem rpcsSendHandshake_kept (h : rpcsSendHandshake env c = some r) :
    RpcsKept c r.1 ∧ r.1.crypto = c.crypto ∧ r.2 = 0 := by
  unfold rpcsSendHandshake at h
  split_ifs at h
  · cases h
    exact ⟨⟨rfl, rfl, rfl, rfl⟩, rfl, rfl⟩
  · cases h
    exact ⟨.refl c, rfl, rfl⟩

/-! ### Stages -/

/-- The connection is at a stage. -/
structure ServerAt (env : RpcsEnv κ) (flags : CryptoFlags) (c : RpcsConn κ)
    (s : Stage (Packet κ) κ) : Prop where
  reachable : Reachable (serverRules env flags) s
  log : c.data.handled = s.log
  keys : c.crypto = s.keys
  num : StageNum s c.data.inPacketNum
  http : c.data.http = false
  seqnoHoles : c.data.seqnoHoles = false
  fresh : s = .waiting → c.data.cryptoFlags = flags

/-- Between events a connection has failed, belongs to the HTTP server or is at a stage. -/
def RpcsSettled (env : RpcsEnv κ) (flags : CryptoFlags) (c : RpcsConn κ) : Prop :=
  c.failed = true ∨ c.data.http = true ∨ ∃ s, ServerAt env flags c s

/-- The end of a pass that began at the stage `s`. -/
def RpcsPass.Staged (env : RpcsEnv κ) (flags : CryptoFlags) (s : Stage (Packet κ) κ) :
    RpcsPass κ → Prop
  | .stop c _ => RpcsSettled env flags c
  | .again c => ∃ s', ServerAt env flags c s' ∧ (s' = s ∨ Step (serverRules env flags) s s')

variable {c' : RpcsConn κ} {s : Stage (Packet κ) κ} {packet : Packet κ}

theorem ServerAt.congr (hc : ServerAt env flags c s) (hkept : RpcsKept c c')
    (hkeys : c'.crypto = c.crypto) (hflags : c'.data.cryptoFlags = c.data.cryptoFlags) :
    ServerAt env flags c' s where
  reachable := hc.reachable
  log := hkept.handled.trans hc.log
  keys := hkeys.trans hc.keys
  num := hkept.inPacketNum ▸ hc.num
  http := hkept.http.trans hc.http
  seqnoHoles := hkept.seqnoHoles.trans hc.seqnoHoles
  fresh h := hflags.trans (hc.fresh h)

theorem RpcsSettled.congr (hc : RpcsSettled env flags c) (hfailed : c'.failed = c.failed)
    (hkept : RpcsKept c c') (hkeys : c'.crypto = c.crypto)
    (hflags : c'.data.cryptoFlags = c.data.cryptoFlags) : RpcsSettled env flags c' := by
  rcases hc with hc | hc | ⟨s, hc⟩
  · exact .inl (hfailed.trans hc)
  · exact .inr (.inl (hkept.http.trans hc))
  · exact .inr (.inr ⟨s, hc.congr hkept hkeys hflags⟩)

theorem control_nonce (hflags : flags.allowUnenc = false) (hc : ServerAt env flags c .waiting)
    (hnum : packet.num = c.data.inPacketNum) (h : rpcsControl env c packet = some r)
    (hres : 0 ≤ r.2) :
    ∃ s', ServerAt env flags (advanceRpcs r.1) s' ∧ Step (serverRules env flags) .waiting s' := by
  have hnonce : packet.num = -2 := hnum.trans hc.num
  rw [rpcsControl, if_pos hnonce] at h
  have hfresh : (logRpcs c packet).data.cryptoFlags = flags := hc.fresh rfl
  obtain ⟨temp, keys, hkeys, hdh, hinstalled, hkept⟩ :=
    rpcsNonce_accepted (by rw [hfresh, hflags]) h hres
  rw [hfresh] at hdh
  have hstep : Step (serverRules env flags) .waiting (.keyed packet keys) :=
    .key ⟨hnonce, _, r, temp, h, hres, hinstalled, hkeys, hdh⟩
  refine ⟨.keyed packet keys, ⟨hc.reachable.tail hstep, ?_, hinstalled, ?_, ?_, ?_,
    fun hw => (by cases hw)⟩, hstep⟩
  · exact hkept.handled.trans (congrArg (· ++ [packet]) hc.log)
  · show r.1.data.inPacketNum + 1 = -1
    rw [hkept.inPacketNum]
    exact congrArg (· + 1) hc.num
  · exact hkept.http.trans hc.http
  · exact hkept.seqnoHoles.trans hc.seqnoHoles

theorem control_handshake {first : Packet κ} {keys : κ}
    (hc : ServerAt env flags c (.keyed first keys)) (hnum : packet.num = c.data.inPacketNum)
    (h : rpcsControl env c packet = some r) (hres : 0 ≤ r.2) :
    ∃ s', ServerAt env flags (advanceRpcs r.1) s' ∧
      Step (serverRules env flags) (.keyed first keys) s' := by
  have hminus : packet.num = -1 := hnum.trans hc.num
  have hne : packet.num ≠ -2 := by
    rw [hminus]
    decide
  rw [rpcsControl, if_neg hne, if_pos hminus] at h
  obtain ⟨r', hprocess, hsend⟩ := bind_eq_some_iff.1 h
  obtain ⟨hkept, hcrypto⟩ := rpcsHandshake_kept hprocess
  split_ifs at hsend with haccepted
  · obtain ⟨hkept', hcrypto', -⟩ := rpcsSendHandshake_kept hsend
    have hall := hkept.trans hkept'
    have hstep : Step (serverRules env flags) (.keyed first keys) (.running first packet [] keys) :=
      .confirm ⟨hminus, _, r', hprocess, haccepted, hc.keys⟩
    refine ⟨.running first packet [] keys, ⟨hc.reachable.tail hstep, ?_, ?_, ?_, ?_, ?_,
      fun hw => (by cases hw)⟩, hstep⟩
    · exact hall.handled.trans (congrArg (· ++ [packet]) hc.log)
    · exact (hcrypto'.trans hcrypto).trans hc.keys
    · show (r.1.data.inPacketNum + 1).toNat ≤ 2 ^ 31
      have hzero : r.1.data.inPacketNum + 1 = 0 := by
        rw [hall.inPacketNum]
        exact congrArg (· + 1) hc.num
      rw [hzero]
      exact Nat.zero_le _
    · exact hall.http.trans hc.http
    · exact hall.seqnoHoles.trans hc.seqnoHoles
  · cases hsend
    exact absurd hres haccepted

theorem rpcs_staged_user {first second : Packet κ} {rest : List (Packet κ)} {keys : κ}
    (hc : ServerAt env flags c (.running first second rest keys))
    (hnum : packet.num = c.data.inPacketNum) :
    (rpcsHandlePacket env c packet).Staged env flags (.running first second rest keys) := by
  have hle : packet.num.toNat ≤ 2 ^ 31 := hnum ▸ hc.num
  rcases StageNum.cases hle with ⟨hneg, hne⟩ | ⟨hpos, hlt⟩
  · rw [rpcsHandlePacket, if_pos hneg, rpcsControl, if_neg hne.1, if_neg hne.2]
    exact .inl rfl
  · have hnext : (c.data.inPacketNum + 1).toNat ≤ 2 ^ 31 := hnum ▸ hlt
    have hstep : Step (serverRules env flags) (.running first second rest keys)
        (.running first second (rest ++ [packet]) keys) := .carry (not_lt.1 hpos)
    have hcount : ServerAt env flags (advanceRpcs (logRpcs c packet))
        (.running first second (rest ++ [packet]) keys) :=
      ⟨hc.reachable.tail hstep, congrArg (· ++ [packet]) hc.log, hc.keys, hnext, hc.http,
        hc.seqnoHoles, fun hw => (by cases hw)⟩
    rw [rpcsHandlePacket, if_neg hpos]
    refine ⟨_, ?_, .inr hstep⟩
    split_ifs
    · exact hcount.congr ⟨rfl, rfl, rfl, rfl⟩ rfl rfl
    · exact hcount

theorem staged_control
    (hstage : ∀ r, rpcsControl env c packet = some r → 0 ≤ r.2 →
      ∃ s', ServerAt env flags (advanceRpcs r.1) s' ∧ Step (serverRules env flags) s s')
    (hneg : packet.num.toInt < 0) : (rpcsHandlePacket env c packet).Staged env flags s := by
  rw [rpcsHandlePacket, if_pos hneg]
  cases hcontrol : rpcsControl env c packet with
  | none => exact .inl rfl
  | some r =>
    dsimp only
    split_ifs with hres
    · exact .inl rfl
    · obtain ⟨s', hs', hstep⟩ := hstage r hcontrol (not_lt.1 hres)
      exact ⟨s', hs', .inr hstep⟩

theorem staged_rpcsHandlePacket (hflags : flags.allowUnenc = false)
    (hc : ServerAt env flags c s) (hnum : packet.num = c.data.inPacketNum) :
    (rpcsHandlePacket env c packet).Staged env flags s := by
  cases s with
  | waiting =>
    refine staged_control (fun r h hres => control_nonce hflags hc hnum h hres) ?_
    rw [hnum, show c.data.inPacketNum = -2 from hc.num]
    decide
  | keyed first keys =>
    refine staged_control (fun r h hres => control_handshake hc hnum h hres) ?_
    rw [hnum, show c.data.inPacketNum = -1 from hc.num]
    decide
  | running first second rest keys => exact rpcs_staged_user hc hnum

theorem settled_httpParse (parse : List (Byte κ) → Option (List (Byte κ) × ℤ))
    (hhttp : c.data.http = true) : RpcsSettled env flags (httpParseExecute parse c).1 := by
  unfold httpParseExecute
  split
  · exact .inl rfl
  · exact .inr (.inl hhttp)

theorem rpcsLengthWord_kept (c : RpcsConn κ) :
    RpcsKept c (rpcsLengthWord c).1 ∧ (rpcsLengthWord c).1.crypto = c.crypto ∧
      (rpcsLengthWord c).1.data.cryptoFlags = c.data.cryptoFlags := by
  unfold rpcsLengthWord
  split_ifs
  · exact ⟨⟨rfl, rfl, rfl, rfl⟩, rfl, rfl⟩
  · exact ⟨.refl c, rfl, rfl⟩

theorem ServerAt.num_ne (hc : ServerAt env flags c s) : c.data.inPacketNum ≠ -3 := by
  intro h
  have hnum := hc.num
  rw [h] at hnum
  cases s with
  | waiting => exact absurd hnum (by decide : (-3 : BitVec 32) ≠ -2)
  | keyed first keys => exact absurd hnum (by decide : (-3 : BitVec 32) ≠ -1)
  | running first second rest keys =>
    exact absurd hnum (by decide : ¬ (-3 : BitVec 32).toNat ≤ 2 ^ 31)

theorem serverAt_pass (hflags : flags.allowUnenc = false) (hc : ServerAt env flags c s) :
    (rpcsPass env c).Staged env flags s := by
  have hfail (c : RpcsConn κ) : RpcsSettled env flags (failRpcs c) := .inl rfl
  obtain ⟨hkept, hcrypto, hsame⟩ := rpcsLengthWord_kept c
  have hword := hc.congr hkept hcrypto hsame
  have hdrop (n : ℕ) : ServerAt env flags
      { (rpcsLengthWord c).1 with inn := (rpcsLengthWord c).1.inn.drop n } s :=
    hword.congr ⟨rfl, rfl, rfl, rfl⟩ rfl rfl
  unfold rpcsPass
  refine iteInduction (fun _ => .inr (.inr ⟨s, hc⟩)) fun _ => ?_
  refine iteInduction (fun _ => .inr (.inr ⟨s, hc⟩)) fun _ => ?_
  refine iteInduction (fun _ => .inr (.inr ⟨s, hc⟩)) fun _ => ?_
  refine iteInduction (fun _ => .inr (.inr ⟨s, hc⟩)) fun _ => ?_
  refine iteInduction (fun _ => ?_) fun _ => ?_
  · -- the length word is that of an HTTP request, or refused
    cases env.httpFallbackType with
    | none => exact hfail _
    | some parse =>
      refine iteInduction (fun _ => ?_) fun _ => hfail _
      exact settled_httpParse parse rfl
  refine iteInduction (fun _ => hfail _) fun _ => ?_
  refine iteInduction (fun _ => ⟨s, hdrop 4, .inl rfl⟩) fun _ => ?_
  refine iteInduction (fun _ => hfail _) fun _ => ?_
  refine iteInduction (fun _ => .inr (.inr ⟨s, hword⟩)) fun _ => ?_
  refine iteInduction (fun _ => hfail _) fun _ => ?_
  rw [if_neg hword.num_ne]
  refine iteInduction (fun _ => hfail _) fun hnum => ?_
  have hexpected := hword.seqnoHoles
  refine staged_rpcsHandlePacket hflags (hdrop _) ?_
  by_contra hne
  refine hnum ⟨?_, hne⟩
  rw [hexpected]
  rfl

theorem settled_rpcsParseExecute (hflags : flags.allowUnenc = false)
    (hc : RpcsSettled env flags c) (hfailed : c.failed = false) :
    RpcsSettled env flags (tcpRpcsParseExecute env c).1 := by
  have hloop (fuel : ℕ) (c : RpcsConn κ) (s : Stage (Packet κ) κ) (hc : ServerAt env flags c s) :
      RpcsSettled env flags (rpcsParseLoop env fuel c).1 := by
    induction fuel generalizing c s with
    | zero => exact .inr (.inr ⟨s, hc⟩)
    | succ fuel ih =>
      have hpass := serverAt_pass hflags hc
      rw [rpcsParseLoop]
      cases hres : rpcsPass env c with
      | stop c' res =>
        rw [hres] at hpass
        exact hpass
      | again c' =>
        rw [hres] at hpass
        obtain ⟨s', hc', -⟩ := hpass
        exact ih c' s' hc'
  unfold tcpRpcsParseExecute
  split_ifs with hhttp
  · cases env.httpFallbackType with
    | none => exact .inr (.inl hhttp)
    | some parse => exact settled_httpParse parse hhttp
  · rcases hc with hc | hc | ⟨s, hc⟩
    · rw [hfailed] at hc
      cases hc
    · exact absurd hc hhttp
    · exact hloop _ c s hc

/-! ### Runs -/

theorem RpcsSettled.popAll (hc : RpcsSettled env flags c) : RpcsSettled env flags c.popAll := by
  unfold ConnInfo.popAll
  split_ifs
  · exact hc.congr rfl ⟨rfl, rfl, rfl, rfl⟩ rfl rfl
  · exact hc.congr rfl ⟨rfl, rfl, rfl, rfl⟩ rfl rfl

theorem RpcsSettled.applySkip (hc : RpcsSettled env flags c) :
    RpcsSettled env flags c.applySkip := by
  refine hc.congr c.failed_applySkip ?_ c.crypto_applySkip (by rw [c.data_applySkip])
  constructor <;> rw [c.data_applySkip]

section

variable (hflags : flags.allowUnenc = false)
include hflags

theorem settled_rpcsParser (c : RpcsConn κ)
    (hc : RpcsSettled env flags c) (hopen : c.blocked = false) :
    RpcsSettled env flags ((ctTcpRpcServer env).parseExecute c).1 := by
  simp only [ConnInfo.blocked, Bool.or_eq_false_iff] at hopen
  exact settled_rpcsParseExecute hflags hc hopen.1.1.2

theorem settled_rpcsStep {e : RpcsEvent}
    (hc : RpcsSettled env flags c) (h : rpcsStep env c e = some c') :
    RpcsSettled env flags c' := by
  cases e with
  | receive raw =>
    cases h
    exact hc.congr rfl ⟨rfl, rfl, rfl, rfl⟩ rfl rfl
  | run =>
    have hreader : RpcsSettled env flags (reader (ctTcpRpcServer env) c) :=
      reader_invariant (fun _ hc => hc.popAll)
        (fun _ hc _ => hc.congr rfl ⟨rfl, rfl, rfl, rfl⟩ rfl rfl) (fun _ hc => hc.applySkip)
        (fun _ _ hc => hc.congr rfl ⟨rfl, rfl, rfl, rfl⟩ rfl rfl) (settled_rpcsParser hflags) hc
    rw [rpcsStep] at h
    split_ifs at h
    cases h
    exact hreader
  | fail =>
    cases h
    exact .inl rfl

theorem settled_rpcsRun {es : List RpcsEvent}
    (hrun : run (rpcsStep env) (tcpRpcsInitAccepted flags) es = some c) :
    RpcsSettled env flags c := by
  have hstart : RpcsSettled env flags (tcpRpcsInitAccepted flags) :=
    .inr (.inr ⟨.waiting, .refl, rfl, rfl, rfl, rfl, rfl, fun _ => rfl⟩)
  exact run_invariant (fun _ _ _ hc _ h => settled_rpcsStep hflags hc h) hstart (along_true _ es)
    hrun

/-! ### Calls of `execute` -/

/-- The connections on which the passes of the parsing loop begin. -/
def rpcsPasses (env : RpcsEnv κ) : ℕ → RpcsConn κ → List (RpcsConn κ)
  | 0, _ => []
  | fuel + 1, c =>
    c :: match rpcsPass env c with
      | .stop _ _ => []
      | .again c' => rpcsPasses env fuel c'

/-- The same for a call of the connection's parser, which is that of the HTTP server for some. -/
def serverPasses (env : RpcsEnv κ) (c : RpcsConn κ) : List (RpcsConn κ) :=
  if c.data.http then [] else rpcsPasses env (c.inn.length + 1) c

/-- A pass hands the packet to `execute`: it logs a packet that has no negative number. -/
def ServerExecutes (env : RpcsEnv κ) (c : RpcsConn κ) (p : Packet κ) : Prop :=
  ∃ c', rpcsPass env c = .again c' ∧ c'.data.handled = c.data.handled ++ [p] ∧ 0 ≤ p.num.toInt

theorem serverAt_passes {fuel : ℕ}
    (hc : ServerAt env flags c s) :
    ∀ c' ∈ rpcsPasses env fuel c, ∃ s', ServerAt env flags c' s' := by
  induction fuel generalizing c s with
  | zero => exact fun c' h => absurd h List.not_mem_nil
  | succ fuel ih =>
    intro c' hc'
    have hpass := serverAt_pass hflags hc
    rcases List.mem_cons.1 hc' with rfl | hlater
    · exact ⟨s, hc⟩
    · cases hres : rpcsPass env c with
      | stop c₁ res =>
        rw [hres] at hlater
        cases hlater
      | again c₁ =>
        rw [hres] at hpass hlater
        obtain ⟨s₁, hc₁, -⟩ := hpass
        exact ih hc₁ c' hlater

theorem running_of_serverExecutes
    (hc : ServerAt env flags c s) {p : Packet κ} (hexec : ServerExecutes env c p) :
    ∃ first second rest keys, s = .running first second rest keys := by
  obtain ⟨c', hpass, hlog, hnum⟩ := hexec
  have hstaged := serverAt_pass hflags hc
  rw [hpass] at hstaged
  obtain ⟨s', hc', hcase⟩ := hstaged
  rw [hc'.log, hc.log] at hlog
  refine running_of_log hcase (fun q keys h => ?_) (fun q keys h => ?_) hlog hnum
  · rw [h.1]
    decide
  · rw [h.1]
    decide

/-- **`execute` is called at the last stage only**, on an inbound connection that may not be
unencrypted. -/
theorem server_executes {es : List RpcsEvent}
    (hrun : run (rpcsStep env) (tcpRpcsInitAccepted flags) es = some c)
    {c₁ c₂ : RpcsConn κ} (hc₁ : c₁ ∈ readerCalls (ctTcpRpcServer env) c)
    (hc₂ : c₂ ∈ serverPasses env c₁) {p : Packet κ} (hexec : ServerExecutes env c₂ p) :
    ∃ first second rest keys, c₂.data.handled = first :: second :: rest ∧
      c₂.crypto = some keys ∧ (serverRules env flags).keyed first keys ∧
      (serverRules env flags).confirmed second keys ∧
      ∀ q ∈ rest, (serverRules env flags).carried q := by
  obtain ⟨hsettled, hopen⟩ := readerCalls_invariant (fun _ hc => RpcsSettled.popAll hc)
    (fun _ hc _ => RpcsSettled.congr hc rfl ⟨rfl, rfl, rfl, rfl⟩ rfl rfl)
    (fun _ hc => RpcsSettled.applySkip hc) (settled_rpcsParser hflags)
    (settled_rpcsRun hflags hrun) c₁ hc₁
  simp only [ConnInfo.blocked, Bool.or_eq_false_iff] at hopen
  unfold serverPasses at hc₂
  split_ifs at hc₂ with hhttp
  · cases hc₂
  · rcases hsettled with hfailed | hswitched | ⟨s, hc⟩
    · rw [hopen.1.1.2] at hfailed
      cases hfailed
    · exact absurd hswitched hhttp
    · obtain ⟨s', hc'⟩ := serverAt_passes hflags hc c₂ hc₂
      obtain ⟨first, second, rest, keys, rfl⟩ := running_of_serverExecutes hflags hc' hexec
      obtain ⟨hkeyed, hconfirmed, hcarried⟩ := hc'.reachable.accepted
      exact ⟨first, second, rest, keys, hc'.log, hc'.keys, hkeyed, hconfirmed, hcarried⟩

end

end Mtbolt.Rpc
