import Mtbolt.Worker.Switch

/-!
# Notifications for the engine

The thread that processes connections does not call the ready and close handlers of a connection's
server itself.  It queues a notification, and the engine thread runs it later
(`run_notification_event` of `net-thread.c`): it takes the function table from `c->extra` as it is
then.  A client's ready notification is queued when the client is accepted, and in the meantime the
parser may have handed the connection over, so that `c->extra` is the connection on the other side.

Besides the clients there are the connections of the engine's own port, which may fall back to HTTP,
and those to the middle-ends.  The methods `tcp_rpcs_alarm` and `tcp_rpcs_wakeup` that queue the two
other kinds of notification belong to types for which no timer is set, and `wakeup` has no caller.
-/

namespace Mtbolt.Worker

open EventRun Secrets Function List Option

/-! ### Function tables -/

/-- `NEV_TCP_CONN_READY` and the others. -/
inductive NotificationKind
  | ready
  | close
  | alarm
  | wakeup
  deriving DecidableEq, Repr

/-- The tables of RPC functions: `ext_rpc_methods` of the clients,
`default_engine_tcp_rpc_methods` of the engine's port, `mtfront_rpc_client` of the connections to
the middle-ends. -/
inductive FuncTable
  | extRpcMethods
  | defaultEngineTcpRpcMethods
  | mtfrontRpcClient
  deriving DecidableEq, Repr

inductive Method
  | mtprotoExtRpcReady
  | mtprotoExtRpcClose
  | defaultTlCloseConn
  | mtfrontClientReady
  | mtfrontClientClose
  deriving DecidableEq, Repr

/-- The entries `rpc_ready`, `rpc_close`, `rpc_alarm` and `rpc_wakeup` of the tables. -/
def FuncTable.method : FuncTable → NotificationKind → Option Method
  | .extRpcMethods, .ready => some .mtprotoExtRpcReady
  | .extRpcMethods, .close => some .mtprotoExtRpcClose
  | .defaultEngineTcpRpcMethods, .close => some .defaultTlCloseConn
  | .mtfrontRpcClient, .ready => some .mtfrontClientReady
  | .mtfrontRpcClient, .close => some .mtfrontClientClose
  | _, _ => none

/-- What `c->extra` points to; `http_methods_stats` is a table of another layout. -/
inductive Held
  | null
  | table (t : FuncTable)
  | httpMethodsStats
  | conn (i : ℕ)
  deriving DecidableEq, Repr

def Extra.held : Extra → Held
  | .null => .null
  | .rpcFuncs => .table .extRpcMethods
  | .conn i => .conn i

theorem Extra.eq_rpcFuncs_of_held {x : Extra} {t : FuncTable} (h : x.held = .table t) :
    x = .rpcFuncs ∧ t = .extRpcMethods := by
  cases x with
  | null => cases h
  | rpcFuncs => exact ⟨rfl, (Held.table.inj h).symm⟩
  | conn i => cases h

/-! ### The state -/

/-- `ct_tcp_rpc_server`, `ct_http_server` and `ct_tcp_rpc_client_mtfront`. -/
inductive ServiceType
  | rpcServer
  | httpServer
  | rpcClient
  deriving DecidableEq, Repr

/-- A connection of the engine's port or to a middle-end. -/
structure Service where
  type : ServiceType
  extra : Held
  inPacketNum : ℤ
  cError : Bool
  cFailed : Bool
  deriving DecidableEq, Repr

def Service.new (type : ServiceType) (extra : Held) : Service := ⟨type, extra, -2, false, false⟩

inductive Who
  | client (i : ℕ)
  | service (i : ℕ)
  deriving DecidableEq, Repr

/-- `struct notification_event`, with the table under which it was queued. -/
structure Notification where
  kind : NotificationKind
  who : Who
  table : FuncTable
  deriving DecidableEq, Repr

structure NotifyState where
  w : State
  services : ℕ → Service
  nextService : ℕ
  queue : List Notification

def startNotify (t : SecretTable) (now : ℤ) : NotifyState where
  w := start t now
  services := fun _ => Service.new .rpcServer .null
  nextService := 0
  queue := []

/-- `c->extra` of the connection, now. -/
def heldBy (s : NotifyState) : Who → Held
  | .client i => (s.w.conns i).extra.held
  | .service i => (s.services i).extra

/-! ### Queueing -/

/-- `notification_event_insert_conn` for a connection with the given `extra`. -/
def insertConn (extra : Held) (kind : NotificationKind) (who : Who) : List Notification :=
  match extra with
  | .table t => [⟨kind, who, t⟩]
  | _ => []

/-- The same when the table has a function for it: `tcp_rpcs_init_accepted_nohs`,
`tcp_rpcs_close_connection`, `tcp_rpcc_close_connection`. -/
def insertConnIf (extra : Held) (kind : NotificationKind) (who : Who) : List Notification :=
  (insertConn extra kind who).filter fun n => (n.table.method kind).isSome

/-- What an event of the worker queues: accepting a client and closing a connection of the
accepting server's type. -/
def clientNotices (w : State) : Event → List Notification
  | .accept _ => insertConnIf (Extra.rpcFuncs).held .ready (.client w.next)
  | .close i =>
    if (w.conns i).isExt then insertConnIf (w.conns i).extra.held .close (.client i) else []
  | _ => []

/-- What the packet with the number `in_packet_num` queues: after the handshake packet
`tcp_rpcs_parse_execute` queues a ready notification, `tcp_rpcc_parse_execute` if the table has a
function for it. -/
def packetNotices (x : Service) (i : ℕ) : List Notification :=
  if x.inPacketNum = -1 then
    match x.type with
    | .rpcServer => insertConn x.extra .ready (.service i)
    | .rpcClient => insertConnIf x.extra .ready (.service i)
    | .httpServer => []
  else []

def closeNotices (x : Service) (i : ℕ) : List Notification :=
  match x.type with
  | .rpcServer | .rpcClient => insertConnIf x.extra .close (.service i)
  | .httpServer => []

/-! ### Steps -/

def setService (s : NotifyState) (i : ℕ) (x : Service) : NotifyState :=
  { s with services := update s.services i x }

def addService (s : NotifyState) (x : Service) : NotifyState :=
  { s with
    services := update s.services s.nextService x
    nextService := s.nextService + 1 }

def enqueue (s : NotifyState) (ns : List Notification) : NotifyState :=
  { s with queue := s.queue ++ ns }

/-- A call of a handler.  Of the handlers only `mtproto_ext_rpc_close` changes what is modelled
here. -/
def Method.call (s : NotifyState) : Method → Who → NotifyState
  | .mtprotoExtRpcClose, .client i =>
    { s with w := Worker.mtprotoExtRpcClose { s.w with closeQueue := s.w.closeQueue.erase i } i }
  | _, _ => s

/-- `run_notification_event`; `none` when it calls what is no function, through an `extra` that is
no table or an empty entry.  Only the ready handler may be missing. -/
def runNotificationEvent (s : NotifyState) (n : Notification) : Option NotifyState :=
  match heldBy s n.who with
  | .table t =>
    match t.method n.kind with
    | some m => some (m.call s n.who)
    | none => if n.kind = .ready then some s else none
  | _ => none

/-- `net` is an event of the worker other than a notification; `packet` is a packet that arrives in
order, `httpFallback` the switch of `tcp_rpcs_parse_execute` to HTTP. -/
inductive NotifyEvent
  | net (e : Event)
  | acceptService
  | connectMiddleEnd
  | packet (i : ℕ)
  | httpFallback (i : ℕ)
  | failService (i : ℕ)
  | closeService (i : ℕ)
  | run
  deriving DecidableEq, Repr

/-- The connection has not failed, so its parser runs. -/
def parses (s : NotifyState) (i : ℕ) : Bool := i < s.nextService && !(s.services i).cError

def notifyStep (cfg : WorkerConfig) (s : NotifyState) : NotifyEvent → Option NotifyState
  | .net e =>
    if e = .notify then none
    else (step cfg s.w e).map fun w' => enqueue { s with w := w' } (clientNotices s.w e)
  | .acceptService => some (addService s (.new .rpcServer (.table .defaultEngineTcpRpcMethods)))
  | .connectMiddleEnd => some (addService s (.new .rpcClient (.table .mtfrontRpcClient)))
  | .packet i =>
    let x := s.services i
    if parses s i = true ∧ x.type ≠ .httpServer then
      some (enqueue (setService s i { x with inPacketNum := x.inPacketNum + 1 })
        (packetNotices x i))
    else none
  | .httpFallback i =>
    let x := s.services i
    if parses s i = true ∧ x.type = .rpcServer ∧ x.inPacketNum ≤ -2 then
      -- `custom_data` is cleared with the packet number in it.
      some (setService s i
        { x with type := .httpServer, extra := .httpMethodsStats, inPacketNum := 0 })
    else none
  | .failService i =>
    if i < s.nextService then some (setService s i { s.services i with cError := true }) else none
  | .closeService i =>
    let x := s.services i
    if i < s.nextService ∧ x.cError = true ∧ x.cFailed = false then
      some (enqueue (setService s i { x with cFailed := true }) (closeNotices x i))
    else none
  | .run =>
    match s.queue with
    | [] => none
    | n :: rest => runNotificationEvent { s with queue := rest } n

variable {n : Notification} {s s' : NotifyState} {cfg : WorkerConfig} {e : NotifyEvent} {i : ℕ}

variable {extra : Held} {kind : NotificationKind} {who : Who} {ns : List Notification} {w' : State}

theorem mem_insertConn (h : n ∈ insertConn extra kind who) :
    extra = .table n.table ∧ n.kind = kind ∧ n.who = who := by
  cases extra with
  | table t =>
    obtain rfl := mem_singleton.1 h
    exact ⟨rfl, rfl, rfl⟩
  | null | httpMethodsStats | conn i => exact absurd h not_mem_nil

theorem mem_insertConnIf (h : n ∈ insertConnIf extra kind who) :
    extra = .table n.table ∧ n.who = who ∧ (n.table.method n.kind).isSome = true := by
  obtain ⟨hmem, hsome⟩ := mem_filter.1 h
  obtain ⟨hextra, hkind, hwho⟩ := mem_insertConn hmem
  exact ⟨hextra, hwho, by rwa [hkind]⟩

theorem runNotificationEvent_eq_some (h : runNotificationEvent s n = some s') :
    s' = s ∨ ∃ t m, heldBy s n.who = .table t ∧ t.method n.kind = some m ∧ s' = m.call s n.who := by
  unfold runNotificationEvent at h
  split at h
  · next t ht =>
    split at h
    · next m hm => exact .inr ⟨t, m, ht, hm, (some.inj h).symm⟩
    · split_ifs at h
      exact .inl (some.inj h).symm
  · cases h

/-! ### The worker below -/

/-- The client whose close the notification announces. -/
def Notification.closes (n : Notification) : Option ℕ :=
  match n.kind, n.who with
  | .close, .client i => some i
  | _, _ => none

/-- The close notifications of the worker's model are those of the queue. -/
structure Synced (s : NotifyState) : Prop where
  tabled : Tabled s.w
  closeQueue : s.w.closeQueue = s.queue.filterMap Notification.closes

/-- What an event is to the worker: a notification that announces the close of a client is run as
the worker's own, any other one is nothing. -/
def workerEvents (s : NotifyState) : NotifyEvent → List Event
  | .net e => [e]
  | .run => if (s.queue.head?.bind Notification.closes).isSome then [.notify] else []
  | _ => []

theorem closes_insertConn (extra : Held) (kind : NotificationKind) (i : ℕ) :
    (insertConn extra kind (.service i)).filterMap Notification.closes = [] := by
  refine filterMap_eq_nil_iff.2 fun n hn => ?_
  obtain ⟨kind, who, table⟩ := n
  obtain rfl : who = .service i := (mem_insertConn hn).2.2
  cases kind <;> rfl

theorem closes_insertConnIf (extra : Held) (kind : NotificationKind) (i : ℕ) :
    (insertConnIf extra kind (.service i)).filterMap Notification.closes = [] := by
  refine filterMap_eq_nil_iff.2 fun n hn => ?_
  exact filterMap_eq_nil_iff.1 (closes_insertConn extra kind i) n (mem_filter.1 hn).1

theorem closes_clientNotices {w : State} (hw : Tabled w) {e : Event} (hen : e.Ready w) :
    (clientNotices w e).filterMap Notification.closes = announced w e := by
  cases e with
  | close i =>
    simp only [clientNotices, announced]
    split_ifs with hext
    · rw [hw.ext i hen.1.1 hext]
      rfl
    · rfl
  | _ => rfl

theorem Synced.enqueue (hs : Synced s) (hns : ns.filterMap Notification.closes = []) :
    Synced (enqueue s ns) where
  tabled := hs.tabled
  closeQueue := by
    show s.w.closeQueue = (s.queue ++ ns).filterMap Notification.closes
    rw [filterMap_append, hns, append_nil, hs.closeQueue]

theorem synced_runNotificationEvent (cfg : WorkerConfig) {rest : List Notification} (hs : Synced s)
    (hq : s.queue = n :: rest) (h : runNotificationEvent { s with queue := rest } n = some s') :
    Synced s' ∧ run (step cfg) s.w (workerEvents s .run) = some s'.w := by
  have hqueue := hs.closeQueue
  rw [workerEvents, hq, head?_cons, bind_some]
  rw [hq] at hqueue
  cases hcloses : n.closes with
  | none =>
    rw [filterMap_cons_none hcloses] at hqueue
    have hrest : Synced { s with queue := rest } := ⟨hs.tabled, hqueue⟩
    have hsame : s' = { s with queue := rest } := by
      rcases runNotificationEvent_eq_some h with rfl | ⟨t, m, -, hm, rfl⟩
      · rfl
      · obtain ⟨kind, who, table⟩ := n
        cases kind <;> cases who <;> cases t <;> cases hm <;>
          first
          | rfl
          | cases hcloses
    rw [hsame]
    exact ⟨hrest, rfl⟩
  | some i =>
    rw [filterMap_cons_some hcloses] at hqueue
    obtain ⟨kind, who, table⟩ := n
    obtain ⟨rfl, rfl⟩ : kind = .close ∧ who = .client i := by
      cases kind <;> cases who <;> cases hcloses
      exact ⟨rfl, rfl⟩
    have hcall : s' = { s with
        w := mtprotoExtRpcClose { s.w with closeQueue := s.w.closeQueue.erase i } i
        queue := rest } := by
      unfold runNotificationEvent at h
      split at h
      · next t ht =>
        obtain ⟨-, rfl⟩ := Extra.eq_rpcFuncs_of_held ht
        exact (some.inj h).symm
      · cases h
    have hnotify : step cfg s.w .notify =
        some (mtprotoExtRpcClose { s.w with closeQueue := s.w.closeQueue.erase i } i) := by
      simp [step, enabled, handle, hqueue]
    have hsame := same_mtprotoExtRpcClose { s.w with closeQueue := s.w.closeQueue.erase i } i
    rw [hcall]
    refine ⟨⟨hs.tabled.congr hsame.1 hsame.2, ?_⟩, run_cons_of_eq [] hnotify⟩
    rw [mtprotoExtRpcClose, closeQueue_uncountConnection, setConn_closeQueue, hqueue,
      erase_cons_head]

theorem synced_notifyStep (hs : Synced s) (hapart : Apart s.w) (h : notifyStep cfg s e = some s') :
    Synced s' ∧ run (step cfg) s.w (workerEvents s e) = some s'.w := by
  have hset (i : ℕ) (x : Service) : Synced (setService s i x) := ⟨hs.tabled, hs.closeQueue⟩
  cases e with
  | net e =>
    simp only [notifyStep] at h
    split_ifs at h with hnotify
    obtain ⟨w', hw', rfl⟩ := map_eq_some_iff.1 h
    refine ⟨⟨tabled_handle hs.tabled hapart hw', ?_⟩, run_cons_of_eq [] hw'⟩
    obtain ⟨hen, rfl⟩ := step_eq_some hw'
    show (handle cfg s.w e).closeQueue =
      (s.queue ++ clientNotices s.w e).filterMap Notification.closes
    rw [(rest_handle cfg hen hnotify).1, filterMap_append, closes_clientNotices hs.tabled hen,
      hs.closeQueue]
  | acceptService =>
    obtain rfl := some.inj h
    exact ⟨⟨hs.tabled, hs.closeQueue⟩, rfl⟩
  | connectMiddleEnd =>
    obtain rfl := some.inj h
    exact ⟨⟨hs.tabled, hs.closeQueue⟩, rfl⟩
  | packet i =>
    simp only [notifyStep] at h
    split_ifs at h
    obtain rfl := some.inj h
    refine ⟨(hset i _).enqueue ?_, rfl⟩
    unfold packetNotices
    split_ifs
    · split
      · exact closes_insertConn _ _ i
      · exact closes_insertConnIf _ _ i
      · rfl
    · rfl
  | httpFallback i =>
    simp only [notifyStep] at h
    split_ifs at h
    obtain rfl := some.inj h
    exact ⟨hset i _, rfl⟩
  | failService i =>
    simp only [notifyStep] at h
    split_ifs at h
    obtain rfl := some.inj h
    exact ⟨hset i _, rfl⟩
  | closeService i =>
    simp only [notifyStep] at h
    split_ifs at h
    obtain rfl := some.inj h
    refine ⟨(hset i _).enqueue ?_, rfl⟩
    unfold closeNotices
    split
    · exact closes_insertConnIf _ _ i
    · exact closes_insertConnIf _ _ i
    · rfl
  | run =>
    simp only [notifyStep] at h
    split at h
    · cases h
    · next n rest hq => exact synced_runNotificationEvent cfg hs hq h

theorem eq_or_notify (h : run (step cfg) s.w (workerEvents s .run) = some w') :
    w' = s.w ∨ step cfg s.w .notify = some w' := by
  unfold workerEvents at h
  split_ifs at h
  · obtain ⟨w₁, hw₁, ⟨rfl⟩⟩ := bind_eq_some_iff.1 h
    exact .inr hw₁
  · exact .inl (some.inj h).symm

theorem apart_notifyStep (hs : Synced s) (hapart : Apart s.w) (h : notifyStep cfg s e = some s') :
    Apart s'.w :=
  run_invariant (fun _ _ _ hw _ h => apart_handle hw h) hapart (along_true ..)
    (synced_notifyStep hs hapart h).2

/-! ### The tables that notifications find -/

/-- The notification can run: its connection still has the table, and nothing but a hand-over of a
client takes it away. -/
def Attends (s : NotifyState) (n : Notification) : Prop :=
  (n.kind = .ready ∨ (n.table.method n.kind).isSome = true) ∧
    match n.who with
    | .client i => i < s.w.next ∧ (s.w.conns i).isExt = true ∧ n.table = .extRpcMethods
    | .service i => i < s.nextService ∧ (s.services i).extra = .table n.table ∧
      (0 ≤ (s.services i).inPacketNum ∨ (s.services i).cError = true)

structure Attached (s : NotifyState) : Prop where
  tabled : Tabled s.w
  queue : ∀ n ∈ s.queue, Attends s n

theorem Attached.heldBy_eq (hs : Attached s) (hn : Attends s n) :
    heldBy s n.who = .table n.table := by
  obtain ⟨kind, who, table⟩ := n
  cases who with
  | client i =>
    obtain ⟨-, hi, hext, htable⟩ := hn
    show (s.w.conns i).extra.held = .table table
    rw [hs.tabled.ext i hi hext]
    exact congrArg Held.table htable.symm
  | service i =>
    obtain ⟨-, -, hextra, -⟩ := hn
    exact hextra

theorem attached_enqueue (hs : Attached s) (hns : ∀ n ∈ ns, Attends s n) :
    Attached (enqueue s ns) where
  tabled := hs.tabled
  queue := fun n hn => (mem_append.1 hn).elim (hs.queue n) (hns n)

theorem attached_services (hs : Attached s) {services : ℕ → Service} {next : ℕ}
    (hnext : s.nextService ≤ next) (hsame : ∀ j < s.nextService, ∀ t,
      (s.services j).extra = .table t →
      0 ≤ (s.services j).inPacketNum ∨ (s.services j).cError = true →
      (services j).extra = .table t ∧
        (0 ≤ (services j).inPacketNum ∨ (services j).cError = true)) :
    Attached { s with services := services, nextService := next } := by
  refine ⟨hs.tabled, fun n hn => ?_⟩
  have hold := hs.queue n hn
  obtain ⟨kind, who, table⟩ := n
  cases who with
  | client j => exact hold
  | service j =>
    obtain ⟨hkind, hj, hextra, hlate⟩ := hold
    exact ⟨hkind, hj.trans_le hnext, hsame j hj table hextra hlate⟩

theorem attached_setService (hs : Attached s) {x : Service}
    (hx : ∀ t, (s.services i).extra = .table t → 0 ≤ (s.services i).inPacketNum ∨
      (s.services i).cError = true → x.extra = .table t ∧ (0 ≤ x.inPacketNum ∨ x.cError = true)) :
    Attached (setService s i x) := by
  refine attached_services hs le_rfl fun j _ t hextra hlate => ?_
  by_cases hji : j = i
  · subst hji
    rw [update_self]
    exact hx t hextra hlate
  · rw [update_of_ne hji]
    exact ⟨hextra, hlate⟩

theorem attached_addService (hs : Attached s) (x : Service) : Attached (addService s x) := by
  refine attached_services hs (Nat.le_succ _) fun j hj t hextra hlate => ?_
  rw [update_of_ne hj.ne]
  exact ⟨hextra, hlate⟩

theorem attached_worker (hs : Attached s) {o : Option ℕ} (hw' : Tabled w')
    (hnext : s.w.next ≤ w'.next)
    (hisExt : ∀ i < s.w.next, o ≠ some i → (w'.conns i).isExt = (s.w.conns i).isExt)
    (hidle : ∀ n ∈ s.queue, ∀ i ∈ o, n.who ≠ .client i) : Attached { s with w := w' } := by
  refine ⟨hw', fun n hn => ?_⟩
  have hold := hs.queue n hn
  have hother := hidle n hn
  obtain ⟨kind, who, table⟩ := n
  cases who with
  | client j =>
    obtain ⟨hkind, hj, hext, htable⟩ := hold
    have hne : o ≠ some j := fun ho => hother j ho rfl
    exact ⟨hkind, hj.trans_le hnext, (hisExt j hj hne).trans hext, htable⟩
  | service j => exact hold

theorem attends_clientNotices (hs : Attached s) (hapart : Apart s.w) {e : Event}
    (h : step cfg s.w e = some w') (hn : n ∈ clientNotices s.w e) :
    Attends { s with w := w' } n := by
  cases e with
  | accept addr =>
    obtain ⟨-, rfl⟩ := step_eq_some h
    obtain ⟨htable, hwho, hsome⟩ := mem_insertConnIf hn
    obtain ⟨kind, who, table⟩ := n
    obtain rfl : who = .client s.w.next := hwho
    refine ⟨.inr hsome, Nat.lt_succ_self _, ?_, (Held.table.inj htable).symm⟩
    show ((newConn s.w _).conns s.w.next).isExt = true
    rw [conns_newConn_self]
    rfl
  | close i =>
    have hen := (step_eq_some h).1
    simp only [clientNotices] at hn
    split_ifs at hn with hext
    · obtain ⟨htable, hwho, hsome⟩ := mem_insertConnIf hn
      obtain ⟨kind, who, table⟩ := n
      obtain rfl : who = .client i := hwho
      refine ⟨.inr hsome, hen.1.1.trans_le (next_le_handle h), ?_,
        (Extra.eq_rpcFuncs_of_held htable).2⟩
      exact (isExt_handle hs.tabled hapart h hen.1.1 (by simp [switched])).trans hext
    · exact absurd hn not_mem_nil
  | _ => exact absurd hn not_mem_nil

theorem attends_packetNotices (hi : i < s.nextService) (hn : n ∈ packetNotices (s.services i) i) :
    Attends (setService s i
      { s.services i with inPacketNum := (s.services i).inPacketNum + 1 }) n := by
  unfold packetNotices at hn
  split_ifs at hn with hnum
  -- The packet number is `0` when the notification waits, so that there is no way back to HTTP.
  · have hattends (hextra : (s.services i).extra = .table n.table) (hwho : n.who = .service i)
        (hkind : n.kind = .ready ∨ (n.table.method n.kind).isSome = true) :
        Attends (setService s i
          { s.services i with inPacketNum := (s.services i).inPacketNum + 1 }) n := by
      obtain ⟨kind, who, table⟩ := n
      obtain rfl : who = .service i := hwho
      refine ⟨hkind, hi, ?_⟩
      simp only [setService, update_self]
      exact ⟨hextra, .inl (by omega)⟩
    split at hn
    · obtain ⟨hextra, hkind, hwho⟩ := mem_insertConn hn
      exact hattends hextra hwho (.inl hkind)
    · obtain ⟨hextra, hwho, hsome⟩ := mem_insertConnIf hn
      exact hattends hextra hwho (.inr hsome)
    · exact absurd hn not_mem_nil
  · exact absurd hn not_mem_nil

theorem attends_closeNotices (hi : i < s.nextService) (herr : (s.services i).cError = true)
    (hn : n ∈ closeNotices (s.services i) i) :
    Attends (setService s i { s.services i with cFailed := true }) n := by
  have hattends (hmem : n ∈ insertConnIf (s.services i).extra .close (.service i)) :
      Attends (setService s i { s.services i with cFailed := true }) n := by
    obtain ⟨hextra, hwho, hsome⟩ := mem_insertConnIf hmem
    obtain ⟨kind, who, table⟩ := n
    obtain rfl : who = .service i := hwho
    refine ⟨.inr hsome, hi, ?_⟩
    simp only [setService, update_self]
    exact ⟨hextra, .inr herr⟩
  unfold closeNotices at hn
  split at hn
  · exact hattends hn
  · exact hattends hn
  · exact absurd hn not_mem_nil

theorem attached_call (hs : Attached s) (m : Method) (who : Who) : Attached (m.call s who) := by
  unfold Method.call
  split
  · next i =>
    have hsame := same_mtprotoExtRpcClose { s.w with closeQueue := s.w.closeQueue.erase i } i
    exact attached_worker (o := none) hs (hs.tabled.congr hsame.1 hsame.2) hsame.1.ge
      (fun j _ _ => (hsame.2 j).1) fun _ _ j hj => absurd hj (not_mem_none j)
  · exact hs

/-- A connection is handed over only while no notification of it is queued. -/
def SwitchesIdle (cfg : WorkerConfig) (s : NotifyState) : NotifyEvent → Prop
  | .net e => ∀ n ∈ s.queue, ∀ i ∈ switched cfg s.w e, n.who ≠ .client i
  | _ => True

instance (cfg : WorkerConfig) (s : NotifyState) (e : NotifyEvent) :
    Decidable (SwitchesIdle cfg s e) := by
  cases e <;> unfold SwitchesIdle <;> infer_instance

theorem attached_notifyStep (hs : Attached s) (hapart : Apart s.w) (hok : SwitchesIdle cfg s e)
    (h : notifyStep cfg s e = some s') : Attached s' := by
  cases e with
  | net e =>
    simp only [notifyStep] at h
    split_ifs at h with hnotify
    obtain ⟨w', hw', rfl⟩ := map_eq_some_iff.1 h
    have hw := attached_worker hs (tabled_handle hs.tabled hapart hw') (next_le_handle hw')
      (fun _ => isExt_handle hs.tabled hapart hw') hok
    exact attached_enqueue hw fun n hn => attends_clientNotices hs hapart hw' hn
  | acceptService =>
    obtain rfl := some.inj h
    exact attached_addService hs _
  | connectMiddleEnd =>
    obtain rfl := some.inj h
    exact attached_addService hs _
  | packet i =>
    simp only [notifyStep] at h
    split_ifs at h with hparses
    obtain rfl := some.inj h
    simp only [parses, Bool.and_eq_true, decide_eq_true_eq] at hparses
    have hset := attached_setService hs (i := i)
      (x := { s.services i with inPacketNum := (s.services i).inPacketNum + 1 })
      fun t ht hlate => ⟨ht, hlate.imp (fun h0 => by dsimp only; omega) id⟩
    exact attached_enqueue hset fun n hn => attends_packetNotices hparses.1.1 hn
  | httpFallback i =>
    simp only [notifyStep] at h
    split_ifs at h with hfall
    obtain rfl := some.inj h
    simp only [parses, Bool.and_eq_true, decide_eq_true_eq, Bool.not_eq_true'] at hfall
    refine attached_setService hs fun t _ hlate => ?_
    -- A notification of this connection would have come after its handshake or its failure.
    rcases hlate with hnum | herr
    · omega
    · rw [hfall.1.2] at herr
      cases herr
  | failService i =>
    simp only [notifyStep] at h
    split_ifs at h
    obtain rfl := some.inj h
    exact attached_setService hs fun t ht _ => ⟨ht, .inr rfl⟩
  | closeService i =>
    simp only [notifyStep] at h
    split_ifs at h with hclose
    obtain rfl := some.inj h
    have hset := attached_setService hs (i := i)
      (x := { s.services i with cFailed := true }) fun t ht hlate => ⟨ht, hlate⟩
    exact attached_enqueue hset fun n hn => attends_closeNotices hclose.1 hclose.2.1 hn
  | run =>
    simp only [notifyStep] at h
    split at h
    · cases h
    · next n rest hq =>
      have hrest : Attached { s with queue := rest } :=
        ⟨hs.tabled, fun m hm => hs.queue m (hq ▸ mem_cons_of_mem n hm)⟩
      rcases runNotificationEvent_eq_some h with rfl | ⟨t, m, -, -, rfl⟩
      · exact hrest
      · exact attached_call hrest m n.who

/-- **In every run that hands over no connection while a notification of it is queued**, a
notification that runs finds in `c->extra` the table it was queued under, and its handler returns. -/
theorem notification_finds_its_table (cfg : WorkerConfig) (t : SecretTable) (now : ℤ)
    (es : List NotifyEvent) (s : NotifyState)
    (hok : Along (notifyStep cfg) (SwitchesIdle cfg) (startNotify t now) es)
    (hrun : run (notifyStep cfg) (startNotify t now) es = some s) (n : Notification)
    (rest : List Notification) (hq : s.queue = n :: rest) :
    heldBy s n.who = .table n.table ∧ (notifyStep cfg s .run).isSome = true := by
  have hinv : Attached s ∧ Synced s ∧ Apart s.w :=
    run_invariant (I := fun s => Attached s ∧ Synced s ∧ Apart s.w)
      (fun _ _ _ hs hok h => ⟨attached_notifyStep hs.1 hs.2.2 hok h,
        (synced_notifyStep hs.2.1 hs.2.2 h).1, apart_notifyStep hs.2.1 hs.2.2 h⟩)
      ⟨⟨tabled_start t now, fun _ hn => absurd hn not_mem_nil⟩, ⟨tabled_start t now, rfl⟩,
        apart_start t now⟩ hok hrun
  have hs := hinv.1
  have hn : Attends s n := hs.queue n (hq ▸ mem_cons_self)
  have hheld := hs.heldBy_eq hn
  refine ⟨hheld, ?_⟩
  have hheld' : heldBy { s with queue := rest } n.who = .table n.table := by
    rw [← hheld]
    cases n.who <;> rfl
  simp only [notifyStep, hq, runNotificationEvent, hheld']
  split
  · rfl
  · next hnone =>
    rw [if_pos (hn.1.resolve_right (by simp [hnone]))]
    rfl

/-- A client is announced before it goes to its data centre, a visitor of the engine's port asks for
statistics, and another client comes and is closed before the engine has run. -/
def announcedFirst : List NotifyEvent :=
  [.net (.accept ⟨1, 0⟩), .run, .net (.header 0 0 .linked), .acceptService, .httpFallback 0,
    .net (.accept ⟨2, 0⟩), .net (.fail 2), .net (.close 2)]

theorem notification_finds_its_table_announcedFirst :
    ∃ s n rest, run (notifyStep ⟨1, true⟩) (startNotify (sampleTable 5) 0) announcedFirst = some s ∧
      s.queue = n :: rest ∧ heldBy s n.who = .table n.table := by
  obtain ⟨s, hrun, hq⟩ : ∃ s,
      run (notifyStep ⟨1, true⟩) (startNotify (sampleTable 5) 0) announcedFirst = some s ∧
        s.queue = [⟨.ready, .client 2, .extRpcMethods⟩, ⟨.close, .client 2, .extRpcMethods⟩] := by
    decide +kernel
  exact ⟨s, _, _, hrun, hq, (notification_finds_its_table ⟨1, true⟩ (sampleTable 5) 0 announcedFirst
    s (by decide +kernel) hrun _ _ hq).1⟩

/-- Direct mode: the header is parsed before the engine has run the notification queued when the
client was accepted. -/
def headerFirst : List NotifyEvent := [.net (.accept ⟨1, 0⟩), .net (.header 0 0 .linked)]

/-- The ready notification takes the data centre's connection for a function table. -/
theorem notification_finds_connection :
    ∃ s n rest, run (notifyStep ⟨1, true⟩) (startNotify (sampleTable 5) 0) headerFirst = some s ∧
      s.queue = n :: rest ∧ n.table = .extRpcMethods ∧ heldBy s n.who = .conn 1 ∧
      (notifyStep ⟨1, true⟩ s .run).isSome = false := by
  obtain ⟨s, hrun, hq, hheld, hnone⟩ : ∃ s,
      run (notifyStep ⟨1, true⟩) (startNotify (sampleTable 5) 0) headerFirst = some s ∧
        s.queue = [⟨.ready, .client 0, .extRpcMethods⟩] ∧ heldBy s (.client 0) = .conn 1 ∧
        (notifyStep ⟨1, true⟩ s .run).isSome = false := by
    decide +kernel
  exact ⟨s, _, _, hrun, hq, rfl, hheld, hnone⟩

/-- **Every run with the notification queue is a run of the worker**, in which the close of a client
takes effect when its notification runs; the closes still to come are those in the queue. -/
theorem notifyStep_refines_step (cfg : WorkerConfig) (t : SecretTable) (now : ℤ)
    (es : List NotifyEvent) (s : NotifyState)
    (hrun : run (notifyStep cfg) (startNotify t now) es = some s) :
    run (step cfg) (start t now)
        (translate (notifyStep cfg) workerEvents (startNotify t now) es) = some s.w ∧
      s.w.closeQueue = s.queue.filterMap Notification.closes := by
  obtain ⟨hs, hworker⟩ := run_translate (I := fun s => Synced s ∧ Apart s.w) (a := NotifyState.w)
    (fun _ _ _ hs h => ⟨⟨(synced_notifyStep hs.1 hs.2 h).1, apart_notifyStep hs.1 hs.2 h⟩,
      (synced_notifyStep hs.1 hs.2 h).2⟩) ⟨⟨tabled_start t now, rfl⟩, apart_start t now⟩ hrun
  exact ⟨hworker, hs.1.closeQueue⟩

/-- A client comes and is closed; its ready notification is nothing to the worker, the other one
is its close. -/
theorem notifyStep_refines_step_closed :
    ∃ s, run (notifyStep ⟨1, true⟩) (startNotify (sampleTable 5) 0)
        [.net (.accept ⟨2, 0⟩), .net (.fail 0), .net (.close 0), .run, .run] = some s ∧
      run (step ⟨1, true⟩) (start (sampleTable 5) 0)
        [.accept ⟨2, 0⟩, .fail 0, .close 0, .notify] = some s.w := by
  have h := notifyStep_refines_step ⟨1, true⟩ (sampleTable 5) 0
    [.net (.accept ⟨2, 0⟩), .net (.fail 0), .net (.close 0), .run, .run] _ rfl
  exact ⟨_, rfl, h.1⟩

end Mtbolt.Worker
