import Mtbolt.Direct.Conn

/-!
# The session of a client

A client past its handshake, with the connection to its DC in direct mode (`net-tcp-direct-dc.c`);
in relay mode there is no second connection.  The two connections are jobs of their own, and each
has a socket that runs on another thread, so a run of the session is any list of `SessionEvent`s.
A handler holds its connection's lock, and is one step.
-/

namespace Mtbolt.Direct

open Net

variable {κ : Type}

/-- A client and, in direct mode, the DC connection in its `c->extra`. -/
structure Session (κ : Type) where
  client : Conn κ
  dc : Option (Conn κ)

/-- One of the two connections. -/
inductive Side
  | client
  | dc
  deriving DecidableEq, Repr

def Session.conn (s : Session κ) : Side → Option (Conn κ)
  | .client => some s.client
  | .dc => s.dc

/-- What the client sees of its DC connection. -/
def Session.dcPeer (s : Session κ) : Option Peer := s.dc.map fun d => ⟨d.crypto.isSome, 0⟩

/-- What the DC connection sees of its client. -/
def Session.clientPeer (s : Session κ) : Option Peer :=
  some ⟨s.client.crypto.isSome, s.client.data.sid⟩

/-- The DC connection has sent its header, so that either side can relay to the other. -/
def Session.ready (s : Session κ) : Bool := s.dc.any fun d => d.crypto.isSome

/-! ### Effects on the other connection -/

/-- `mpq_push_w` to `out_queue` and `job_signal`, for each relayed message. -/
def receiveRelayed (raws : List (List UInt8)) (c : Conn κ) : Conn κ :=
  { c with data := { c.data with
      outQueue := c.data.outQueue ++ raws, jsRun := c.data.jsRun || !raws.isEmpty } }

/-- The end of `tcp_direct_dc_send_obfs2_init`, on the client. -/
def flushDeferred (c : Conn κ) : Conn κ :=
  { c with skipBytes := 0, data := { c.data with jsRun := true } }

/-- The connection when its handler has returned. -/
def clearOutbox (c : Conn κ) : Conn κ :=
  { c with data := { c.data with relayed := [], obfs2Init := false } }

/-- The session after a handler of the client. -/
def Session.setClient (s : Session κ) (c : Conn κ) : Session κ where
  client := clearOutbox c
  dc := s.dc.map (receiveRelayed c.data.relayed)

/-- The session after a handler of the DC connection. -/
def Session.setDc (s : Session κ) (d : Conn κ) : Session κ where
  client :=
    receiveRelayed d.data.relayed (if d.data.obfs2Init then flushDeferred s.client else s.client)
  dc := some (clearOutbox d)

/-! ### Dialling a DC -/

/-- A DC connection that `alloc_new_connection` has just made. -/
def newDc (κ : Type) : Conn κ where
  inQueue := []
  inU := []
  inn := []
  crypto := none
  skipBytes := 0
  failed := false
  stopRead := false
  data :=
    { type := .directDc, isTls := false, leftTlsPacketLength := 0, outQueue := [], out := [],
      outP := [], drs := DrsState.reset 0, realWakeupTime := 0, jsRun := false,
      ioStopRead := false, ioRun := false, inFlight := none, ioOut := [], connected := false,
      readyPending := false, sid := 0, retry := 0, rpcFuncs := false, socks5 := .none,
      rpcFlags := ⟨false, false, false⟩, inPacketNum := 0, executed := [], relayed := [],
      obfs2Init := false, aborted := false }

/-- `DIRECT_MAX_RETRIES`. -/
def directMaxRetries : ℕ := 3

/-- `direct_schedule_retry`. -/
def directScheduleRetry (o : Outside κ) (attempt : ℕ) (c : Conn κ) : Conn κ :=
  if directMaxRetries ≤ attempt then failConnection c
  else
    jobTimerInsert (o.preciseNow + 1 / 5 * 2 ^ attempt)
      { c with data := { c.data with retry := attempt + 1 } }

/-- No retry is pending any more. -/
def clearRetry (c : Conn κ) : Conn κ := { c with data := { c.data with retry := 0 } }

/-- `direct_retry_dc_connection`. -/
def directRetryDcConnection (o : Outside κ) (s : Session κ) : Session κ :=
  if !o.dcKnown then { s with client := failConnection (clearRetry s.client) }
  else if o.dialled then { client := clearRetry s.client, dc := some (newDc κ) }
  else { s with client := directScheduleRetry o s.client.data.retry s.client }

/-- The type of a client that goes over to direct mode. -/
def directType (isTls : Bool) : ConnType := if isTls then .directClientDrs else .directClient

/-- The connection when `direct_connect_to_dc` has switched its type.  Only a dial that could be
started replaces `c->extra`. -/
def toDirect (o : Outside κ) (c : Conn κ) : Conn κ :=
  { c with data := { c.data with
      type := directType c.data.isTls
      rpcFuncs := !o.dialled
      drs := if c.data.isTls then DrsState.reset o.preciseNow else c.data.drs } }

/-- `direct_connect_to_dc`. -/
def directConnectToDc (o : Outside κ) (c : Conn κ) : Session κ :=
  if !o.dcKnown then ⟨failConnection c, none⟩
  else if o.dialled then ⟨toDirect o c, some (newDc κ)⟩
  else ⟨directScheduleRetry o 0 (toDirect o c), none⟩

/-! ### Closing -/

/-- `tcp_direct_close` of the DC connection: a connection that failed before it sent its header is
dialled again. -/
def closeDc (o : Outside κ) (s : Session κ) (d : Conn κ) : Session κ :=
  if d.crypto.isNone && s.client.data.retry < directMaxRetries then
    ⟨directScheduleRetry o s.client.data.retry s.client, none⟩
  else ⟨failConnection s.client, none⟩

/-- `tcp_direct_close` and `tcp_rpcs_close_connection` of the client, whose `extra` is no table. -/
def closeClient (s : Session κ) : Session κ :=
  ⟨jobTimerRemove s.client, s.dc.map failConnection⟩

/-! ### Steps -/

/-- A pass of `net_server_socket_read_write`: the socket of an outbound connection first becomes
connected; then `chunk` is read, unless `C_STOPREAD` is set. -/
def socketRead (chunk : Option (List UInt8)) (c : Conn κ) : Conn κ :=
  { c with data := { c.data with
      ioRun := false
      readyPending := c.data.readyPending || !c.data.connected
      jsRun := c.data.jsRun || !c.data.connected
      connected := true
      inFlight := if c.data.ioStopRead then none else chunk } }

/-- What was read is queued to the connection, with `JS_RUN`. -/
def socketPush (chunk : List UInt8) (c : Conn κ) : Conn κ :=
  { c with
    inQueue := c.inQueue ++ [chunk]
    data := { c.data with jsRun := true, inFlight := none } }

/-- `read` and `push` are the two halves of a pass of the socket's thread, which runs beside that of
the connection.  `write`: the engine queues a message to a client in relay mode.  `fail`: the
connection is failed from elsewhere, as by an error of its socket. -/
inductive SessionEvent (κ : Type)
  | read (side : Side) (chunk : Option (List UInt8))
  | push (side : Side)
  | run (side : Side) (o : Outside κ)
  | alarm (side : Side) (wakeupTime : ℚ) (o : Outside κ)
  | write (raw : List UInt8)
  | fail (side : Side)
  | close (side : Side) (o : Outside κ)

/-- The session in which one of the connections is replaced. -/
def Session.replace (s : Session κ) (side : Side) (c : Conn κ) : Session κ :=
  match side with
  | .client => { s with client := c }
  | .dc => { s with dc := some c }

/-- A run of the client's job, unless the process stops in it. -/
def clientRun (cfg : DirectConfig κ) (o : Outside κ) (s : Session κ) : Option (Session κ) :=
  let c := connRun cfg o s.dcPeer s.client
  if s.client.data.jsRun && !c.data.aborted then some (s.setClient c) else none

/-- The client's alarm. -/
def clientAlarm (cfg : DirectConfig κ) (wakeupTime : ℚ) (o : Outside κ) (s : Session κ) :
    Option (Session κ) :=
  let r := connAlarm cfg wakeupTime o s.dcPeer s.client
  if r.1.data.aborted then none
  else some (if r.2 then directRetryDcConnection o (s.setClient r.1) else s.setClient r.1)

/-- A step of a session. -/
def sessionStep (cfg : DirectConfig κ) (s : Session κ) : SessionEvent κ → Option (Session κ)
  | .read side chunk =>
    (s.conn side).bind fun c =>
      if c.data.inFlight.isNone then some (s.replace side (socketRead chunk c)) else none
  | .push side =>
    (s.conn side).bind fun c =>
      c.data.inFlight.map fun chunk => s.replace side (socketPush chunk c)
  | .run .client o => clientRun cfg o s
  | .run .dc o =>
    s.dc.bind fun d =>
      if d.data.jsRun then some (s.setDc (connRun cfg o s.clientPeer d)) else none
  | .alarm .client wakeupTime o => clientAlarm cfg wakeupTime o s
  | .alarm .dc wakeupTime o =>
    s.dc.map fun d => s.setDc (connAlarm cfg wakeupTime o s.clientPeer d).1
  | .write raw =>
    if s.client.data.type.isDirect then none
    else some { s with client := receiveRelayed [raw] s.client }
  | .fail side => (s.conn side).map fun c => s.replace side (failConnection c)
  | .close .client _ =>
    if s.client.failed && !s.client.data.rpcFuncs then some (closeClient s) else none
  | .close .dc o => s.dc.bind fun d => if d.failed then some (closeDc o s d) else none

/-- The steps, case by case. -/
inductive Stepped (cfg : DirectConfig κ) (s : Session κ) : SessionEvent κ → Session κ → Prop
  | readClient (chunk) :
    Stepped cfg s (.read .client chunk) { s with client := socketRead chunk s.client }
  | readDc (chunk) {d} (hd : s.dc = some d) :
    Stepped cfg s (.read .dc chunk) { s with dc := some (socketRead chunk d) }
  | pushClient {chunk} (hchunk : s.client.data.inFlight = some chunk) :
    Stepped cfg s (.push .client) { s with client := socketPush chunk s.client }
  | pushDc {chunk d} (hd : s.dc = some d) (hchunk : d.data.inFlight = some chunk) :
    Stepped cfg s (.push .dc) { s with dc := some (socketPush chunk d) }
  | runClient (o) {s'} (h : clientRun cfg o s = some s') : Stepped cfg s (.run .client o) s'
  | runDc (o) {d} (hd : s.dc = some d) :
    Stepped cfg s (.run .dc o) (s.setDc (connRun cfg o s.clientPeer d))
  | alarmClient (time o) {s'} (h : clientAlarm cfg time o s = some s') :
    Stepped cfg s (.alarm .client time o) s'
  | alarmDc (time o) {d} (hd : s.dc = some d) :
    Stepped cfg s (.alarm .dc time o) (s.setDc (connAlarm cfg time o s.clientPeer d).1)
  | write (raw) (hdirect : ¬ s.client.data.type.isDirect = true) :
    Stepped cfg s (.write raw) { s with client := receiveRelayed [raw] s.client }
  | failClient : Stepped cfg s (.fail .client) { s with client := failConnection s.client }
  | failDc {d} (hd : s.dc = some d) :
    Stepped cfg s (.fail .dc) { s with dc := some (failConnection d) }
  | closeClient (o) (hfailed : s.client.failed = true) :
    Stepped cfg s (.close .client o) (closeClient s)
  | closeDc (o) {d} (hd : s.dc = some d) : Stepped cfg s (.close .dc o) (closeDc o s d)

theorem stepped_of_sessionStep {cfg : DirectConfig κ} {s s' : Session κ} {e : SessionEvent κ}
    (h : sessionStep cfg s e = some s') : Stepped cfg s e s' := by
  open Option in
  rcases e with ⟨_ | _, chunk⟩ | ⟨_ | _⟩ | ⟨_ | _, o⟩ | ⟨_ | _, time, o⟩ | raw | ⟨_ | _⟩ |
      ⟨_ | _, o⟩ <;>
    simp only [sessionStep, Session.conn, bind_some, map_some, bind_eq_some_iff, map_eq_some_iff,
      some.injEq, ite_none_left_eq_some, ite_none_right_eq_some] at h
  · obtain ⟨-, rfl⟩ := h
    exact .readClient chunk
  · obtain ⟨d, hd, -, rfl⟩ := h
    exact .readDc chunk hd
  · obtain ⟨chunk, hchunk, rfl⟩ := h
    exact .pushClient hchunk
  · obtain ⟨d, hd, chunk, hchunk, rfl⟩ := h
    exact .pushDc hd hchunk
  · exact .runClient o h
  · obtain ⟨d, hd, -, rfl⟩ := h
    exact .runDc o hd
  · exact .alarmClient time o h
  · obtain ⟨d, hd, rfl⟩ := h
    exact .alarmDc time o hd
  · obtain ⟨hdirect, rfl⟩ := h
    exact .write raw hdirect
  · subst h
    exact .failClient
  · obtain ⟨d, hd, rfl⟩ := h
    exact .failDc hd
  · obtain ⟨hfailed, rfl⟩ := h
    exact .closeClient o (Bool.and_eq_true_iff.1 hfailed).1
  · obtain ⟨d, hd, -, rfl⟩ := h
    exact .closeDc o hd

/-! ### Start -/

/-- A client as `tcp_rpcs_compact_parse_execute` has just accepted it: the cipher is installed,
nothing is held back and nothing waits to be sent.  Bytes may already be buffered, and the
handshake's timer may still be armed. -/
structure Accepted (c : Conn κ) : Prop where
  type : c.data.type = if c.data.isTls then .rpcExtServerDrs else .rpcExtServer
  failed : c.failed = false
  crypto : c.crypto.isSome = true
  skipBytes : c.skipBytes = 0
  stopRead : c.stopRead = false
  delayPending : c.data.drs.delayPending = false
  outQueue : c.data.outQueue = []
  out : c.data.out = []
  retry : c.data.retry = 0
  connected : c.data.connected = true
  readyPending : c.data.readyPending = false
  signalled : c.inQueue ≠ [] → c.data.jsRun = true

theorem Accepted.isDirect {c : Conn κ} (hc : Accepted c) : c.data.type.isDirect = false := by
  rw [hc.type]
  cases c.data.isTls <;> rfl

/-- The session of an accepted client. -/
def startSession (cfg : DirectConfig κ) (o : Outside κ) (c : Conn κ) : Session κ :=
  if cfg.directMode then directConnectToDc o c else ⟨c, none⟩

/-- A session as it starts. -/
def Started (cfg : DirectConfig κ) (s : Session κ) : Prop :=
  ∃ o c, Accepted c ∧ s = startSession cfg o c

/-! ### A session -/

/-- Delays are enabled; the cipher leaves the bytes as they are. -/
def sampleConfig (directMode : Bool) : DirectConfig Unit where
  crypt := fun key bytes => (bytes, key)
  drsDelaysEnabled := true
  workers := 1
  directMode := directMode
  socks5 := ⟨false, [], [], []⟩

/-- A moment at which the secret of the client has the given rate limit and its bucket is empty. -/
def sampleOutside (rateLimit : ℤ) : Outside Unit where
  preciseNow := 1
  preciseNow_pos := one_pos
  sampleDelay := 1 / 100
  sampleDelay_nonneg := by norm_num
  lrand48 := fun _ => 0
  rateLimit := rateLimit
  tip := some ⟨0, 1⟩
  overQuota := false
  flood := fun _ => false
  dcKnown := true
  dialled := true
  init := []
  initKeys := ⟨(), ()⟩

/-- A client that has just been accepted under the first secret. -/
def sampleAccepted (isTls : Bool) : Conn Unit where
  inQueue := []
  inU := []
  inn := []
  crypto := some ⟨(), ()⟩
  skipBytes := 0
  failed := false
  stopRead := false
  data :=
    { (newDc Unit).data with
      type := if isTls then .rpcExtServerDrs else .rpcExtServer
      isTls := isTls
      connected := true
      sid := 1 }

theorem accepted_sampleAccepted (isTls : Bool) : Accepted (sampleAccepted isTls) := by
  refine ⟨rfl, rfl, rfl, rfl, rfl, rfl, rfl, rfl, rfl, rfl, rfl, ?_⟩
  exact fun h => absurd rfl h

/-- The session of that client. -/
def sampleSession (directMode isTls : Bool) : Session Unit :=
  startSession (sampleConfig directMode) (sampleOutside 0) (sampleAccepted isTls)

theorem started_sampleSession (directMode isTls : Bool) :
    Started (sampleConfig directMode) (sampleSession directMode isTls) :=
  ⟨sampleOutside 0, sampleAccepted isTls, accepted_sampleAccepted isTls, rfl⟩

end Mtbolt.Direct
