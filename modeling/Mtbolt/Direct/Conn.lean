import Mtbolt.Direct.Socks5
import Mtbolt.ExtServer.Frame
import Mtbolt.Net.TlsRecord
import Mtbolt.Secrets.Table

/-!
# A connection past its handshake

What the job of a connection does once the client is authenticated: `JS_RUN` runs the reader and
the writer, `JS_ALARM` the alarm handler of the connection's type.  A connection has one timer,
which the handshake timeout, the retries of a DC connection, rate limiting
(`net-tcp-rpc-ext-server.c`) and the delays between records (`net-tcp-drs.c`) share.

Bytes that a handler queues to the other connection of a pair are collected in `relayed`, and
`obfs2Init` records that it sent the header of a DC connection; the pair of connections is put
together in the next file.
-/

namespace Mtbolt.Direct

open Net
open ExtServer (FrameConn RpcFlags framePass)

/-! ### The connection -/

/-- `ct_tcp_rpc_ext_server`, `ct_tcp_rpc_ext_server_drs`, `ct_direct_client`,
`ct_direct_client_drs` and `ct_direct_dc`. -/
inductive ConnType
  | rpcExtServer
  | rpcExtServerDrs
  | directClient
  | directClientDrs
  | directDc
  deriving DecidableEq, Repr

/-- The connection relays to another one, as in direct mode. -/
def ConnType.isDirect : ConnType → Bool
  | .rpcExtServer | .rpcExtServerDrs => false
  | .directClient | .directClientDrs | .directDc => true

/-- `crypto_encrypt_output` sizes the records dynamically. -/
def ConnType.isDrs : ConnType → Bool
  | .rpcExtServerDrs | .directClientDrs => true
  | .rpcExtServer | .directClient | .directDc => false

/-- `struct aes_crypto`. -/
structure AesCrypto (κ : Type) where
  readAeskey : κ
  writeAeskey : κ
  deriving DecidableEq, Repr

/-- The rest of a connection, beside what the reader uses.  `jsRun` and `ioRun` say that `JS_RUN`
is pending for the connection and for its socket; `ioStopRead` is `C_STOPREAD` of the socket,
`inFlight` what the socket's thread has read and not queued yet, and `ioOut` what was queued to the
socket.  `retry` and `socks5` are the two uses of `extra_int`, of a client and of a DC connection;
`sid` is `extra_int2` of a client.  `rpcFuncs` says that `extra` of a client in direct mode is still
the table of RPC functions it had before, which its first dial did not replace. -/
structure ConnData where
  type : ConnType
  isTls : Bool
  leftTlsPacketLength : ℕ
  outQueue : List (List UInt8)
  out : List UInt8
  outP : List UInt8
  drs : DrsState
  realWakeupTime : ℚ
  jsRun : Bool
  ioStopRead : Bool
  ioRun : Bool
  inFlight : Option (List UInt8)
  ioOut : List UInt8
  connected : Bool
  readyPending : Bool
  sid : ℕ
  retry : ℕ
  rpcFuncs : Bool
  socks5 : Socks5State
  rpcFlags : RpcFlags
  inPacketNum : BitVec 32
  executed : List (BitVec 32 × List UInt8)
  relayed : List (List UInt8)
  obfs2Init : Bool
  aborted : Bool
  deriving DecidableEq, Repr

abbrev Conn (κ : Type) := ConnInfo UInt8 (AesCrypto κ) ConnData

/-- The settings of the process.  `crypt` is the cipher, see `rwmEncryptDecryptTo`. -/
structure DirectConfig (κ : Type) where
  crypt : κ → List UInt8 → List UInt8 × κ
  drsDelaysEnabled : Bool
  workers : ℕ
  directMode : Bool
  socks5 : Socks5Config

/-- `struct tracked_ip`, as far as rate limiting uses it. -/
structure TrackedIp where
  tokens : ℤ
  lastRefillTime : ℚ
  deriving DecidableEq, Repr

/-- What a handler finds outside its connection.  `tip` is the entry of the client's address, which
all connections of the address share, `rateLimit` the limit of its secret and `overQuota` the
answer of `secret_over_quota` after the relayed bytes were counted.  `flood` says, by packet
number, whether `execute` fails the connection.  `dcKnown` and `dialled` are the outcomes of
`direct_dc_lookup` and `direct_try_dc_addrs`, `init` and `initKeys` the header sent to a DC and the
keys derived from it. -/
structure Outside (κ : Type) where
  preciseNow : ℚ
  preciseNow_pos : 0 < preciseNow
  sampleDelay : ℚ
  sampleDelay_nonneg : 0 ≤ sampleDelay
  lrand48 : ℕ → ℕ
  rateLimit : ℤ
  tip : Option TrackedIp
  overQuota : Bool
  flood : BitVec 32 → Bool
  dcKnown : Bool
  dialled : Bool
  init : List UInt8
  initKeys : AesCrypto κ

/-- What a handler sees of the connection in `c->extra`: whether its `crypto` is set, and
`extra_int2`. -/
structure Peer where
  crypto : Bool
  sid : ℕ
  deriving DecidableEq, Repr

variable {κ : Type}

/-- `fail_connection`. -/
def failConnection (c : Conn κ) : Conn κ := { c with failed := true }

/-- The process stops, or what it does next is not defined. -/
def abortConnection (c : Conn κ) : Conn κ :=
  { failConnection c with data := { c.data with aborted := true } }

/-! ### The timer -/

/-- `job_timer_insert`. -/
def jobTimerInsert (timeout : ℚ) (c : Conn κ) : Conn κ :=
  { c with data := { c.data with realWakeupTime := timeout } }

/-- `job_timer_remove`. -/
def jobTimerRemove (c : Conn κ) : Conn κ := jobTimerInsert 0 c

/-- `job_timer_active`. -/
def jobTimerActive (c : Conn κ) : Prop := 0 < c.data.realWakeupTime

instance (c : Conn κ) : Decidable (jobTimerActive c) :=
  inferInstanceAs (Decidable (0 < c.data.realWakeupTime))

/-- The test of `job_timer_check`, when the timer heap holds `wakeupTime`. -/
def jobTimerCheck (wakeupTime : ℚ) (c : Conn κ) : Bool :=
  c.data.realWakeupTime ≠ 0 && c.data.realWakeupTime = wakeupTime

/-! ### Rate limiting -/

/-- `rate_bucket_refill`. -/
def rateBucketRefill (preciseNow : ℚ) (effRate : ℤ) (tip : TrackedIp) : TrackedIp :=
  let elapsed := preciseNow - tip.lastRefillTime
  if 0 < elapsed then
    { tokens := min (tip.tokens + ⌊elapsed * effRate⌋) effRate, lastRefillTime := preciseNow }
  else tip

/-- The rate limit of one worker. -/
def effRate (workers : ℕ) (rateLimit : ℤ) : ℤ :=
  max (if 1 < workers then rateLimit / workers else rateLimit) 1

/-- How long a connection is throttled whose bucket has `tokens < 0`. -/
def throttleDelay (tokens effRate : ℤ) : ℚ := min (max (-tokens / effRate) (1 / 1000)) 5

/-- `C_STOPREAD` is set on the connection and on its socket, and the timer is armed. -/
def throttle (timeout : ℚ) (c : Conn κ) : Conn κ :=
  jobTimerInsert timeout { c with stopRead := true, data := { c.data with ioStopRead := true } }

/-- `rate_limit_after_relay`, with the entry of the address as it leaves it. -/
def rateLimitAfterRelay (cfg : DirectConfig κ) (o : Outside κ) (bytes : ℕ) (c : Conn κ) :
    Conn κ × Option TrackedIp :=
  if o.rateLimit ≤ 0 then (c, o.tip)
  else
    match o.tip with
    | none => (c, none)
    | some tip =>
      let eff := effRate cfg.workers o.rateLimit
      let refilled := rateBucketRefill o.preciseNow eff tip
      let tip := { refilled with tokens := refilled.tokens - bytes }
      if tip.tokens < 0 then (throttle (o.preciseNow + throttleDelay tip.tokens eff) c, some tip)
      else (c, some tip)

/-- `rate_limit_resume`.  Only the socket is signalled, not the connection itself. -/
def rateLimitResume (c : Conn κ) : Conn κ × Bool :=
  if c.stopRead then
    ({ c with stopRead := false, data := { c.data with ioStopRead := false, ioRun := true } }, true)
  else (c, false)

/-! ### The parsers -/

/-- `tcp_direct_relay`. -/
def tcpDirectRelay (peer : Option Peer) (c : Conn κ) : Conn κ :=
  if peer.isSome then
    { c with inn := [], data := { c.data with relayed := c.data.relayed ++ [c.inn] } }
  else failConnection c

/-- The part common to the two relays: counting, the quota, the relay and the rate limit. -/
def relayCounted (cfg : DirectConfig κ) (o : Outside κ) (peer : Option Peer) (sid : ℕ)
    (c : Conn κ) : Conn κ :=
  if 0 < sid ∧ sid ≤ Secrets.maxSlots ∧ 0 < c.inn.length then
    if o.overQuota then failConnection c
    else (rateLimitAfterRelay cfg o c.inn.length (tcpDirectRelay peer c)).1
  else tcpDirectRelay peer c

/-- `tcp_direct_client_parse_execute`.  It takes any `extra` for a connection, the table of RPC
functions too. -/
def tcpDirectClientParseExecute (cfg : DirectConfig κ) (o : Outside κ) (peer : Option Peer)
    (c : Conn κ) : Conn κ × ℤ :=
  match peer with
  | none =>
    if c.data.rpcFuncs then (abortConnection c, 0)
    else if 0 < c.data.retry then (c, needMoreBytes)
    else (failConnection c, 0)
  | some dc =>
    if dc.crypto then (relayCounted cfg o peer c.data.sid c, 0) else (c, needMoreBytes)

/-- `tcp_direct_dc_send_obfs2_init`.  The reset of the client's `skip_bytes` and the signal to it
are left to the pair. -/
def tcpDirectDcSendObfs2Init (o : Outside κ) (c : Conn κ) : Conn κ :=
  { c with
    crypto := some o.initKeys
    data := { c.data with outP := c.data.outP ++ o.init, obfs2Init := true } }

/-- The connection after `socks5_handle_response`. -/
def applySocks5 (r : Socks5Step) (c : Conn κ) : Conn κ :=
  { c with inn := r.inn, data := { c.data with socks5 := r.state, out := c.data.out ++ r.sent } }

/-- `tcp_direct_dc_parse_execute`. -/
def tcpDirectDcParseExecute (cfg : DirectConfig κ) (o : Outside κ) (peer : Option Peer)
    (c : Conn κ) : Conn κ × ℤ :=
  if c.data.socks5 ≠ .none then
    let r := socks5HandleResponse cfg.socks5 c.data.socks5 c.inn
    match r.result with
    | .more => (applySocks5 r c, needMoreBytes)
    | .error => (failConnection (applySocks5 r c), 0)
    | .complete => (tcpDirectDcSendObfs2Init o (applySocks5 r c), 0)
  else
    match peer with
    | none => (tcpDirectRelay none c, 0)
    | some client => (relayCounted cfg o peer client.sid c, 0)

/-- What the frame loop works on. -/
def frameConn (c : Conn κ) : FrameConn where
  flags := c.data.rpcFlags
  inPacketNum := c.data.inPacketNum
  cError := c.failed
  cStopparse := false
  inn := c.inn
  executed := []
  transportErrorsReceived := 0
  quickackPacketsReceived := 0

/-- The connection after a pass of the frame loop. -/
def withFrame (c : Conn κ) (fc : FrameConn) : Conn κ :=
  { c with
    inn := fc.inn
    failed := fc.cError
    data := { c.data with
      rpcFlags := fc.flags
      inPacketNum := fc.inPacketNum
      executed := c.data.executed ++ fc.executed } }

/-- The `while (1)` of `tcp_rpcs_compact_parse_execute`, at most `fuel` passes: every pass of a
connection past its handshake first takes the timer away. -/
def compactLoop (flood : BitVec 32 → Bool) : ℕ → Conn κ → Conn κ × ℤ
  | 0, c => (c, needMoreBytes)
  | fuel + 1, c =>
    let c := if c.data.inPacketNum ≠ -3#32 then jobTimerRemove c else c
    match framePass (flood c.data.inPacketNum) (frameConn c) with
    | .ret res fc => (withFrame c fc, res)
    | .again fc => compactLoop flood fuel (withFrame c fc)
    | .abort => (abortConnection c, 0)

/-- `tcp_rpcs_compact_parse_execute` past the handshake; every pass uses up a byte of `in`. -/
def tcpRpcsCompactParseExecute (o : Outside κ) (c : Conn κ) : Conn κ × ℤ :=
  compactLoop o.flood (c.inn.length + 1) c

/-- `cpu_tcp_aes_crypto_ctr128_decrypt_input`. -/
def cryptoDecryptInput (cfg : DirectConfig κ) (c : Conn κ) : Conn κ × ℤ :=
  match c.crypto with
  | none => (c, 0)
  | some T =>
    let r := ctr128DecryptInput cfg.crypt c.data.isTls
      ⟨c.inU, c.inn, T.readAeskey, c.data.leftTlsPacketLength⟩
    ({ c with
        inU := r.1.inU
        inn := r.1.inn
        crypto := some { T with readAeskey := r.1.readAeskey }
        failed := c.failed || r.2.1
        data := { c.data with leftTlsPacketLength := r.1.leftTlsPacketLength } }, r.2.2)

/-- `parse_execute` of the connection's type. -/
def parseExecute (cfg : DirectConfig κ) (o : Outside κ) (peer : Option Peer) (c : Conn κ) :
    Conn κ × ℤ :=
  match c.data.type with
  | .rpcExtServer | .rpcExtServerDrs => tcpRpcsCompactParseExecute o c
  | .directClient | .directClientDrs => tcpDirectClientParseExecute cfg o peer c
  | .directDc => tcpDirectDcParseExecute cfg o peer c

def connFuncs (cfg : DirectConfig κ) (o : Outside κ) (peer : Option Peer) :
    ConnFuncs UInt8 (AesCrypto κ) ConnData where
  cryptoDecryptInput := cryptoDecryptInput cfg
  parseExecute := parseExecute cfg o peer

/-! ### The writer -/

/-- What the encryption of the output works on. -/
def outBuf (T : AesCrypto κ) (c : Conn κ) : OutBuf κ := ⟨c.data.out, c.data.outP, T.writeAeskey⟩

/-- The connection after the encryption of its output. -/
def withOutBuf (T : AesCrypto κ) (buf : OutBuf κ) (c : Conn κ) : Conn κ :=
  { c with
    crypto := some { T with writeAeskey := buf.writeAeskey }
    data := { c.data with out := buf.out, outP := buf.outP } }

/-- The connection after the writer with dynamic record sizes, which may set the timer. -/
def withDrs (drs : DrsState) (timeout : Option ℚ) (c : Conn κ) : Conn κ :=
  { c with data := { c.data with
      drs := drs, realWakeupTime := timeout.getD c.data.realWakeupTime } }

/-- What the writer with dynamic record sizes finds outside the connection. -/
def drsEnv (cfg : DirectConfig κ) (o : Outside κ) : DrsEnv :=
  ⟨cfg.drsDelaysEnabled, o.preciseNow, o.lrand48, o.sampleDelay⟩

/-- `crypto_encrypt_output` of the connection's type. -/
def cryptoEncryptOutput (cfg : DirectConfig κ) (o : Outside κ) (T : AesCrypto κ) (c : Conn κ) :
    Conn κ :=
  if c.data.type.isDrs then
    let r := encryptOutputDrs cfg.crypt (drsEnv cfg o) c.data.isTls (outBuf T c) c.data.drs
    withDrs r.2.1 r.2.2 (withOutBuf T r.1 c)
  else withOutBuf T (ctr128EncryptOutput cfg.crypt c.data.isTls (outBuf T c)) c

/-- The loop over `out_queue`.  A message is taken in the form that `write_packet` gives it. -/
def popOutQueue (c : Conn κ) : Conn κ :=
  { c with data := { c.data with
      out := rwmUnion c.data.out c.data.outQueue.flatten, outQueue := [] } }

/-- Queue the written bytes to the socket and signal it. -/
def pushToSocket (raw : List UInt8) (c : Conn κ) : Conn κ :=
  { c with data := { c.data with
      ioOut := c.data.ioOut ++ raw, ioRun := c.data.ioRun || !raw.isEmpty } }

/-- Without a cipher the output is sent as it is. -/
def flushPlain (c : Conn κ) : Conn κ :=
  pushToSocket c.data.out { c with data := { c.data with out := [] } }

/-- With a cipher the encrypted output is sent. -/
def flushEncrypted (c : Conn κ) : Conn κ :=
  pushToSocket c.data.outP { c with data := { c.data with outP := [] } }

/-- `cpu_tcp_server_writer`. -/
def writer (cfg : DirectConfig κ) (o : Outside κ) (c : Conn κ) : Conn κ :=
  match c.crypto with
  | none => flushPlain (popOutQueue c)
  | some T => flushEncrypted (cryptoEncryptOutput cfg o T (popOutQueue c))

/-- `cpu_server_read_write`. -/
def readWrite (cfg : DirectConfig κ) (o : Outside κ) (peer : Option Peer) (c : Conn κ) : Conn κ :=
  writer cfg o (reader (connFuncs cfg o peer) c)

/-! ### The job -/

/-- `connected` of the connection's type: the two ends of a client connection are connected from
the start. -/
def tcpDirectDcConnected (cfg : DirectConfig κ) (o : Outside κ) (c : Conn κ) : Conn κ :=
  if cfg.socks5.enabled then
    { c with data := { c.data with
        out := c.data.out ++ socks5SendGreeting cfg.socks5, socks5 := .greetingSent } }
  else tcpDirectDcSendObfs2Init o c

/-- The callback that a connection gets before its first run. -/
def runConnected (cfg : DirectConfig κ) (o : Outside κ) (c : Conn κ) : Conn κ :=
  if c.data.readyPending then
    tcpDirectDcConnected cfg o { c with data := { c.data with readyPending := false } }
  else c

/-- The connection whose `JS_RUN` has been taken. -/
def takeRun (c : Conn κ) : Conn κ := { c with data := { c.data with jsRun := false } }

/-- `do_connection_job` for `JS_RUN`. -/
def connRun (cfg : DirectConfig κ) (o : Outside κ) (peer : Option Peer) (c : Conn κ) : Conn κ :=
  if c.failed then takeRun c else readWrite cfg o peer (runConnected cfg o (takeRun c))

/-- A DC connection has to be dialled again. -/
def retryWaiting (peer : Option Peer) (c : Conn κ) : Bool :=
  peer.isNone && !c.data.rpcFuncs && 0 < c.data.retry

/-- The last branch of `tcp_rpcs_ext_drs_alarm`: the delay between two records is over. -/
def drsResume (cfg : DirectConfig κ) (o : Outside κ) (peer : Option Peer) (c : Conn κ) : Conn κ :=
  if c.data.isTls && c.data.drs.delayPending then
    readWrite cfg o peer
      { c with data := { c.data with drs := { c.data.drs with delayPending := false } } }
  else c

/-- `alarm` of the connection's type: `tcp_rpcs_ext_alarm`, `tcp_rpcs_ext_drs_alarm`,
`tcp_direct_client_alarm` and `tcp_direct_dc_alarm`, past the handshake.  The `Bool` asks for
`direct_retry_dc_connection`. -/
def alarm (cfg : DirectConfig κ) (o : Outside κ) (peer : Option Peer) (c : Conn κ) :
    Conn κ × Bool :=
  match c.data.type with
  | .rpcExtServer => (c, false)
  | .rpcExtServerDrs =>
    if c.stopRead then ((rateLimitResume c).1, false) else (drsResume cfg o peer c, false)
  | .directClient =>
    if c.stopRead then ((rateLimitResume c).1, false) else (c, retryWaiting peer c)
  | .directClientDrs =>
    if c.stopRead then ((rateLimitResume c).1, false)
    else if retryWaiting peer c then (c, true)
    else (drsResume cfg o peer c, false)
  | .directDc => ((rateLimitResume c).1, false)

/-- `do_connection_job` for `JS_ALARM`. -/
def connAlarm (cfg : DirectConfig κ) (wakeupTime : ℚ) (o : Outside κ) (peer : Option Peer)
    (c : Conn κ) : Conn κ × Bool :=
  if jobTimerCheck wakeupTime c then
    if c.failed then (jobTimerRemove c, false) else alarm cfg o peer (jobTimerRemove c)
  else (c, false)

end Mtbolt.Direct
