import Mtbolt.Lib.EventRun
import Mtbolt.Secrets.Table

/-!
# The connections of a worker

A worker accepts client connections, matches them with a secret, and serves them through a
middle-end (relay mode), through a connection of their own to a data centre (direct mode), or, when
they are no clients at all, by passing them on to the camouflage backend.  This file is the life of
these connections: the handlers of `net-tcp-rpc-ext-server.c`, `net-tcp-direct-dc.c` and
`mtproto-proxy-http.c` that open, pair, account and close them, as far as the fields `type`,
`extra`, `extra_int`, `extra_int2`, the flags, and the counters per secret are concerned.

Each handler is a function on `State`; what it learns from outside (a socket that cannot be
opened, a data centre that is not configured, the slot a header decrypts for) is in the event.
-/

namespace Mtbolt.Worker

open Secrets Function

/-- `c->type`. -/
inductive ConnType
  | extServer
  | extServerDrs
  | directClient
  | directClientDrs
  | directDc
  | proxyPass
  deriving DecidableEq, Repr

/-- `c->extra`: null, the RPC function table an accepted connection starts with, or another
connection. -/
inductive Extra
  | null
  | rpcFuncs
  | conn (i : ℕ)
  deriving DecidableEq, Repr

/-- A connection.  `extraInt` counts the retries of a direct client, `extraInt2` is the secret plus
one, `handshaken` says that `in_packet_num` is no longer `-3`.  `countedAs` and `closeRan` record
the slot under which the connection was counted and that its close handler has run. -/
structure Conn where
  type : ConnType
  extra : Extra
  cError : Bool
  cFailed : Bool
  isTls : Bool
  handshaken : Bool
  crypto : Bool
  extraInt : ℕ
  extraInt2 : ℕ
  addr : Addr
  countedAs : Option ℕ
  closeRan : Bool
  deriving DecidableEq, Repr

/-- A connection as `alloc_new_connection` makes it. -/
def Conn.new (type : ConnType) (extra : Extra) (addr : Addr) : Conn where
  type := type
  extra := extra
  cError := false
  cFailed := false
  isTls := false
  handshaken := false
  crypto := false
  extraInt := 0
  extraInt2 := 0
  addr := addr
  countedAs := none
  closeRan := false

def Conn.isExt (c : Conn) : Bool := c.type = .extServer || c.type = .extServerDrs

def Conn.isDirectClient (c : Conn) : Bool :=
  c.type = .directClient || c.type = .directClientDrs

theorem Conn.isExt_eq_false {c : Conn} (h : c.isDirectClient = true) : c.isExt = false := by
  simp only [Conn.isDirectClient, Conn.isExt, Bool.or_eq_true, decide_eq_true_eq] at h ⊢
  rcases h with h | h <;> simp [h]

/-- The worker: the secrets, the connections made so far, `direct_dc_connections_active`, the
close notifications that wait for the engine thread, and the clock.  `confused` is set when a
handler uses the RPC function table as if it were a connection. -/
structure State where
  tbl : SecretTable
  conns : ℕ → Conn
  next : ℕ
  active : ℤ
  closeQueue : List ℕ
  now : ℤ
  confused : Bool

structure WorkerConfig where
  workers : ℤ
  directMode : Bool
  deriving DecidableEq, Repr

/-! ### Elementary changes -/

def setConn (w : State) (i : ℕ) (c : Conn) : State :=
  { w with conns := update w.conns i c }

def newConn (w : State) (c : Conn) : State :=
  { w with conns := update w.conns w.next c, next := w.next + 1 }

def setSlot (w : State) (s : ℕ) (x : Slot) : State :=
  { w with tbl := { w.tbl with slot := update w.tbl.slot s x } }

section Fields

variable (w : State) (i : ℕ) (c : Conn) (s : ℕ) (x : Slot)

@[simp] theorem setConn_tbl : (setConn w i c).tbl = w.tbl := rfl
@[simp] theorem setConn_next : (setConn w i c).next = w.next := rfl
@[simp] theorem setConn_closeQueue : (setConn w i c).closeQueue = w.closeQueue := rfl
@[simp] theorem setSlot_conns : (setSlot w s x).conns = w.conns := rfl
@[simp] theorem setSlot_next : (setSlot w s x).next = w.next := rfl
@[simp] theorem newConn_next : (newConn w c).next = w.next + 1 := rfl

@[simp] theorem conns_setConn_self : (setConn w i c).conns i = c := update_self ..

@[simp] theorem slot_setSlot_self : (setSlot w s x).tbl.slot s = x := update_self ..

@[simp] theorem conns_newConn_self : (newConn w c).conns w.next = c := update_self ..

variable {i}

theorem conns_setConn_of_ne {j : ℕ} (h : j ≠ i) : (setConn w i c).conns j = w.conns j :=
  update_of_ne h ..

theorem conns_newConn_of_ne {j : ℕ} (h : j ≠ w.next) : (newConn w c).conns j = w.conns j :=
  update_of_ne h ..

variable {s}

theorem slot_setSlot_of_ne {s' : ℕ} (h : s' ≠ s) : (setSlot w s x).tbl.slot s' = w.tbl.slot s' :=
  update_of_ne h ..

end Fields

/-- `fail_connection`. -/
def failConnection (w : State) (i : ℕ) : State :=
  setConn w i { w.conns i with cError := true }

/-! ### Connecting to a data centre -/

/-- The outcome of an attempt: the data centre is not configured, every address failed at once,
or a connection was started. -/
inductive DcOutcome
  | unknownDc
  | allFailed
  | linked
  deriving DecidableEq, Repr

/-- `DIRECT_MAX_RETRIES`. -/
def directMaxRetries : ℕ := 3

/-- `direct_schedule_retry`. -/
def directScheduleRetry (w : State) (i attempt : ℕ) : State :=
  if attempt ≥ directMaxRetries then failConnection w i
  else setConn w i { w.conns i with extraInt := attempt + 1 }

/-- A connection to the data centre is started for the client `i`, whose record is now `c`; the
two refer to each other. -/
def linkDc (w : State) (i : ℕ) (c : Conn) : State :=
  let w' := newConn w (Conn.new .directDc (.conn i) ⟨0, 0⟩)
  { setConn w' i { c with extra := .conn w.next } with active := w.active + 1 }

/-- The switch of the client's type at the start of `direct_connect_to_dc`. -/
def Conn.toDirect (c : Conn) : Conn :=
  { c with type := if c.isTls then .directClientDrs else .directClient }

theorem isDirectClient_toDirect (c : Conn) : c.toDirect.isDirectClient = true := by
  simp only [Conn.isDirectClient, Conn.toDirect]
  split_ifs <;> simp

/-- `direct_connect_to_dc`. -/
def directConnectToDc (w : State) (i : ℕ) : DcOutcome → State
  | .unknownDc => failConnection w i
  | .allFailed => directScheduleRetry (setConn w i (w.conns i).toDirect) i 0
  | .linked => linkDc w i (w.conns i).toDirect

/-- `direct_retry_dc_connection`. -/
def directRetryDcConnection (w : State) (i : ℕ) : DcOutcome → State
  | .unknownDc => failConnection (setConn w i { w.conns i with extraInt := 0 }) i
  | .allFailed => directScheduleRetry w i (w.conns i).extraInt
  | .linked => linkDc w i { w.conns i with extraInt := 0 }

/-! ### The camouflage backend -/

/-- `proxy_connection`; `linked` says whether a connection to the backend could be started. -/
def proxyConnection (w : State) (i : ℕ) (linked : Bool) : State :=
  let c := { w.conns i with extraInt2 := 0 }
  if linked then
    let w' := newConn w (Conn.new .proxyPass (.conn i) ⟨0, 0⟩)
    setConn w' i { c with type := .proxyPass, crypto := false, extra := .conn w.next }
  else setConn w i { c with cError := true }

/-! ### The handshake -/

/-- The checks on a Fake-TLS ClientHello whose HMAC matched the slot `s`.  `linked` is the outcome
of the hand-over to the backend if the client is turned away, `cipherOk` whether the hello offers a
supported cipher suite. -/
def acceptHello (cfg : WorkerConfig) (w : State) (i s : ℕ) (cipherOk linked : Bool) : State :=
  match rejection cfg.workers w.now (w.tbl.slot s) (w.conns i).addr with
  | some r => proxyConnection (setSlot w s ((w.tbl.slot s).reject r)) i linked
  | none =>
    if cipherOk then setConn w i { w.conns i with isTls := true }
    else proxyConnection w i linked

/-- The connection with the obfuscated2 step behind it. -/
def Conn.handshake (c : Conn) (s : ℕ) : Conn :=
  { c with
    handshaken := true
    crypto := true
    extraInt2 := s + 1
    type := if c.isTls then .extServerDrs else c.type }

/-- The increment of the counters for the slot; `c` is the connection's record. -/
def countConnection (w : State) (i s : ℕ) (c : Conn) : State :=
  setConn (setSlot w s ((w.tbl.slot s).connect c.addr)) i { c with countedAs := some s }

/-- The treatment of an obfuscated2 header that passed for the slot `s`: checks for plain clients,
counting for all, dynamic record sizing for Fake-TLS clients, then the data centre.  An index that
is no slot comes from `compact_to_slot` without a slot in use. -/
def acceptHeader (cfg : WorkerConfig) (w : State) (i s : ℕ) (dc : DcOutcome) : State :=
  let c := w.conns i
  let rejected := if c.isTls || s ≥ maxSlots then none
    else rejection cfg.workers w.now (w.tbl.slot s) c.addr
  match rejected with
  | some r =>
    setConn (setSlot w s ((w.tbl.slot s).reject r)) i
      { c.handshake s with extraInt2 := 0, cError := true }
  | none =>
    let w := if s < maxSlots then countConnection w i s (c.handshake s)
      else setConn w i (c.handshake s)
    if cfg.directMode then directConnectToDc w i dc else w

/-! ### Closing -/

/-- The connection lets go of the other side. -/
def Conn.unlink (c : Conn) : Conn := { c with extra := .null }

/-- The end of a paired connection's close handler: the other side is failed. -/
def failPeer (w : State) (i : ℕ) : State :=
  match (w.conns i).extra with
  | .null => w
  | .conn e => failConnection (setConn w i (w.conns i).unlink) e
  | .rpcFuncs => { setConn w i (w.conns i).unlink with confused := true }

/-- The decrement of the counters for the connection's secret. -/
def uncountConnection (w : State) (i : ℕ) : State :=
  let sid := (w.conns i).extraInt2
  if 0 < sid ∧ sid ≤ maxSlots then
    setSlot w (sid - 1) ((w.tbl.slot (sid - 1)).disconnect (w.conns i).addr)
  else w

theorem conns_uncountConnection (w : State) (i : ℕ) : (uncountConnection w i).conns = w.conns := by
  unfold uncountConnection
  dsimp only
  split_ifs <;> rfl

theorem closeQueue_uncountConnection (w : State) (i : ℕ) :
    (uncountConnection w i).closeQueue = w.closeQueue := by
  unfold uncountConnection
  dsimp only
  split_ifs <;> rfl

/-- The accounting in `tcp_direct_close`. -/
def directUncount (w : State) (i : ℕ) : State :=
  if (w.conns i).isDirectClient ∧ w.active > 0 then
    { uncountConnection w i with active := w.active - 1 }
  else w

/-- The start of `tcp_direct_close` for a connection to a data centre that failed before its
handshake: the client is detached and tries again. -/
def detachForRetry (w : State) (i j : ℕ) : State :=
  directScheduleRetry (setConn (setConn w j (w.conns j).unlink) i (w.conns i).unlink) j
    (w.conns j).extraInt

/-- `tcp_direct_close`. -/
def tcpDirectClose (w : State) (i : ℕ) : State :=
  match (w.conns i).extra with
  | .conn j =>
    if (w.conns i).type = .directDc ∧ (w.conns i).crypto = false ∧
        (w.conns j).extraInt < directMaxRetries then
      detachForRetry w i j
    else failPeer (directUncount w i) i
  | _ => failPeer (directUncount w i) i

/-- The record of a connection whose close handler runs at once. -/
def Conn.closed (c : Conn) : Conn := { c with cFailed := true, closeRan := true }

/-- `JS_ABORT` of `do_connection_job`: the close method of the connection's type, which is
`tcp_rpcs_close_connection`, `tcp_direct_close` or `tcp_proxy_pass_close`. -/
def closeConnection (w : State) (i : ℕ) : State :=
  let c := w.conns i
  match c.type with
  | .extServer | .extServerDrs =>
    { setConn w i { c with cFailed := true } with closeQueue := w.closeQueue ++ [i] }
  | .directClient | .directClientDrs | .directDc => tcpDirectClose (setConn w i c.closed) i
  | .proxyPass => failPeer (setConn w i c.closed) i

/-- `mtproto_ext_rpc_close`, run by the engine thread for a close notification. -/
def mtprotoExtRpcClose (w : State) (i : ℕ) : State :=
  uncountConnection (setConn w i { w.conns i with closeRan := true }) i

/-! ### Data -/

/-- `tcp_direct_client_parse_execute` on `bytes` buffered bytes. -/
def tcpDirectClientParseExecute (cfg : WorkerConfig) (w : State) (i : ℕ) (bytes : ℕ) : State :=
  match (w.conns i).extra with
  | .null => if (w.conns i).extraInt > 0 then w else failConnection w i
  | .rpcFuncs => { w with confused := true }
  | .conn e =>
    let sid := (w.conns i).extraInt2
    if !(w.conns e).crypto then w
    else if 0 < sid ∧ sid ≤ maxSlots ∧ 0 < bytes then
      let x := w.tbl.slot (sid - 1)
      let x := { x with bytesReceived := x.bytesReceived + bytes }
      if secretOverQuota cfg.workers x then
        failConnection (setSlot w (sid - 1) (x.reject .quota)) i
      else setSlot w (sid - 1) x
    else w

/-- `tcp_direct_dc_parse_execute` past the SOCKS5 handshake. -/
def tcpDirectDcParseExecute (cfg : WorkerConfig) (w : State) (i : ℕ) (bytes : ℕ) : State :=
  match (w.conns i).extra with
  | .null => failConnection w i
  | .rpcFuncs => { w with confused := true }
  | .conn client =>
    let sid := (w.conns client).extraInt2
    if 0 < sid ∧ sid ≤ maxSlots ∧ 0 < bytes then
      let x := w.tbl.slot (sid - 1)
      let x := { x with bytesSent := x.bytesSent + bytes }
      if secretOverQuota cfg.workers x then
        failConnection (setSlot w (sid - 1) (x.reject .quota)) i
      else setSlot w (sid - 1) x
    else w

/-- `tcp_proxy_pass_parse_execute`. -/
def tcpProxyPassParseExecute (w : State) (i : ℕ) : State :=
  match (w.conns i).extra with
  | .null => failConnection w i
  | .rpcFuncs => { w with confused := true }
  | .conn _ => w

/-- The alarm of a direct client.  `resumed` says that `rate_limit_resume` took the alarm. -/
def directClientAlarm (w : State) (i : ℕ) (resumed : Bool) (dc : DcOutcome) : State :=
  if resumed then w
  else if (w.conns i).extra = .null ∧ (w.conns i).extraInt > 0 then
    directRetryDcConnection w i dc
  else w

/-! ### Steps -/

/-- What can happen to the worker.  `hello` and `header` are a ClientHello and an obfuscated2
header that authenticate for the slot `s`; `toBackend` is every other way to the backend, the
handshake timeout included. -/
inductive Event
  | accept (addr : Addr)
  | hello (i s : ℕ) (cipherOk linked : Bool)
  | header (i s : ℕ) (dc : DcOutcome)
  | headerUndecipherable (i : ℕ)
  | toBackend (i : ℕ) (linked : Bool)
  | fail (i : ℕ)
  | close (i : ℕ)
  | notify
  | alarm (i : ℕ) (resumed : Bool) (dc : DcOutcome)
  | dcConnected (i : ℕ)
  | parse (i : ℕ) (bytes : ℕ)
  | reload (entries : List SecretEntry)
  | release (s : ℕ)
  | tick (now : ℤ)
  deriving DecidableEq, Repr

/-- The slots that an authentication can answer: a slot in use, or, when no slot is in use, what
`compact_to_slot` happens to hold. -/
def answerable (t : SecretTable) (s : ℕ) : Bool :=
  (s < t.cnt && (t.slot s).state ≠ .free) ||
    (List.range t.cnt).all fun s' => (t.slot s').state = .free

/-- Some slot is in use. -/
def SlotInUse (t : SecretTable) : Prop := ∃ s < t.cnt, (t.slot s).state ≠ .free

instance (t : SecretTable) : Decidable (SlotInUse t) := inferInstanceAs (Decidable (∃ s < t.cnt, _))

theorem answerable_in_use {t : SecretTable} {s : ℕ} (h : answerable t s = true)
    (huse : SlotInUse t) : s < t.cnt ∧ (t.slot s).state ≠ .free := by
  obtain ⟨s', hs', hused⟩ := huse
  simp only [answerable, Bool.or_eq_true, Bool.and_eq_true, decide_eq_true_eq, List.all_eq_true,
    List.mem_range] at h
  exact h.resolve_right fun hall => hused (hall s' hs')

/-- The connection is before its handshake and has not been closed. -/
def Conn.beforeHandshake (c : Conn) : Bool :=
  c.type = .extServer && !c.handshaken && !c.cFailed

/-- When an event can happen. -/
def enabled (w : State) : Event → Bool
  | .accept _ => true
  | .hello i s _ _ =>
    i < w.next && (w.conns i).beforeHandshake && !(w.conns i).isTls &&
      s < w.tbl.cnt && (w.tbl.slot s).state ≠ .free
  | .header i s _ => i < w.next && (w.conns i).beforeHandshake && answerable w.tbl s
  | .headerUndecipherable i => i < w.next && (w.conns i).beforeHandshake
  | .toBackend i _ => i < w.next && (w.conns i).beforeHandshake
  | .fail i => i < w.next
  | .close i => i < w.next && (w.conns i).cError && !(w.conns i).cFailed
  | .notify => w.closeQueue ≠ []
  | .alarm i _ _ => i < w.next && (w.conns i).isDirectClient && !(w.conns i).cError
  | .dcConnected i => i < w.next && (w.conns i).type = .directDc && !(w.conns i).cError
  | .parse i _ => i < w.next && !(w.conns i).cError
  | .reload _ => true
  | .release _ => true
  | .tick _ => true

/-- `parse_execute` of the connection's type, as far as it is modelled here. -/
def parseExecute (cfg : WorkerConfig) (w : State) (i bytes : ℕ) : State :=
  match (w.conns i).type with
  | .extServer | .extServerDrs => w
  | .directClient | .directClientDrs => tcpDirectClientParseExecute cfg w i bytes
  | .directDc => tcpDirectDcParseExecute cfg w i bytes
  | .proxyPass => tcpProxyPassParseExecute w i

/-- The state after an event. -/
def handle (cfg : WorkerConfig) (w : State) : Event → State
  | .accept addr => newConn w (Conn.new .extServer .rpcFuncs addr)
  | .hello i s cipherOk linked => acceptHello cfg w i s cipherOk linked
  | .header i s dc => acceptHeader cfg w i s dc
  | .headerUndecipherable i =>
    setConn w i { w.conns i with handshaken := true, crypto := true, cError := true }
  | .toBackend i linked => proxyConnection w i linked
  | .fail i => failConnection w i
  | .close i => closeConnection w i
  | .notify =>
    match w.closeQueue with
    | [] => w
    | i :: rest => mtprotoExtRpcClose { w with closeQueue := rest } i
  | .alarm i resumed dc => directClientAlarm w i resumed dc
  | .dcConnected i => setConn w i { w.conns i with crypto := true }
  | .parse i bytes => parseExecute cfg w i bytes
  | .reload entries => { w with tbl := (reloadExtSecrets w.tbl entries).2 }
  | .release s => { w with tbl := releaseSlotIfEmpty w.tbl s }
  | .tick now => { w with now := now }

def step (cfg : WorkerConfig) (w : State) (e : Event) : Option State :=
  if enabled w e then some (handle cfg w e) else none

/-- The worker at its start, with its command-line secrets. -/
def start (tbl : SecretTable) (now : ℤ) : State where
  tbl := tbl
  conns := fun _ => Conn.new .extServer .null ⟨0, 0⟩
  next := 0
  active := 0
  closeQueue := []
  now := now
  confused := false

/-- A command-line secret with the given connection limit and no other. -/
def sampleSecret (limit : ℤ) : SecretEntry := ⟨List.replicate 16 7, "a", limit, 0, 0, 0, 0⟩

/-- The table of a worker that was started with this secret. -/
def sampleTable (limit : ℤ) : SecretTable where
  slot := update (fun _ => Slot.zero) 0 (Slot.fresh 0 (sampleSecret limit))
  cnt := 1
  pinned := 1

/-- What a handler can rely on. -/
def Event.Ready (w : State) : Event → Prop
  | .accept _ | .reload _ | .release _ | .tick _ => True
  | .hello i s _ _ =>
    (((i < w.next ∧ (w.conns i).beforeHandshake = true) ∧ (w.conns i).isTls = false) ∧
      s < w.tbl.cnt) ∧ (w.tbl.slot s).state ≠ .free
  | .header i s _ => (i < w.next ∧ (w.conns i).beforeHandshake = true) ∧ answerable w.tbl s = true
  | .headerUndecipherable i | .toBackend i _ => i < w.next ∧ (w.conns i).beforeHandshake = true
  | .fail i => i < w.next
  | .close i => (i < w.next ∧ (w.conns i).cError = true) ∧ (w.conns i).cFailed = false
  | .notify => w.closeQueue ≠ []
  | .alarm i _ _ => (i < w.next ∧ (w.conns i).isDirectClient = true) ∧ (w.conns i).cError = false
  | .dcConnected i => (i < w.next ∧ (w.conns i).type = .directDc) ∧ (w.conns i).cError = false
  | .parse i _ => i < w.next ∧ (w.conns i).cError = false

theorem step_eq_some {cfg : WorkerConfig} {w w' : State} {e : Event}
    (h : step cfg w e = some w') : e.Ready w ∧ handle cfg w e = w' := by
  unfold step at h
  split_ifs at h with hen
  cases e <;> simp_all [enabled, Event.Ready]

end Mtbolt.Worker
