import Mtbolt.Lib.Tally
import Mtbolt.Net.ProxyProtocol
import Mtbolt.Worker.Notify

/-!
# Live connections per address

The workers share a table of client addresses (`ip-stats.c`) with the number of connections that
each address has now.  A client is counted by its ready notification, a PROXY protocol header moves
the count to the address it names, and `mtproto_ext_rpc_close`, the handler of a close notification,
takes it back.  The close handlers of direct mode and of the camouflage backend do not.
-/

namespace Mtbolt.Worker

open EventRun Secrets Net Tally Function List Option

/-! ### The table -/

/-- `struct ip_stats_shared`: the addresses that have an entry, and `active_conns`, which is zero in
an unused entry. -/
structure IpStats where
  known : List ℕ
  active : ℕ → ℤ

/-- `ip_ht_get_or_create` in a table of `size` entries.  Entries are not given up. -/
def ipHtGetOrCreate (size : ℕ) (st : IpStats) (ip : ℕ) : Option IpStats :=
  if st.known.contains ip then some st
  else if st.known.length < size then some { st with known := ip :: st.known }
  else none

/-- `ip_stats_connect`.  Without shared memory the table has no entries. -/
def ipStatsConnect (size : ℕ) (st : IpStats) (ip : ℕ) : IpStats :=
  if ip = 0 then st
  else
    match ipHtGetOrCreate size st ip with
    | none => st
    | some st' => { st' with active := update st'.active ip (st'.active ip + 1) }

/-- `ip_stats_transport_seen`. -/
def ipStatsTransportSeen (size : ℕ) (st : IpStats) (ip : ℕ) : IpStats :=
  if ip = 0 then st else (ipHtGetOrCreate size st ip).getD st

/-- `ip_stats_disconnect`, with its guard against an underflow. -/
def ipStatsDisconnect (st : IpStats) (ip : ℕ) : IpStats :=
  if ip = 0 then st
  else if st.known.contains ip then
    { st with
      active := update st.active ip (if st.active ip ≤ 0 then 0 else st.active ip - 1) }
  else st

/-- The address has an entry, or there is one left for it. -/
def IpStats.Holds (size : ℕ) (st : IpStats) (ip : ℕ) : Prop :=
  ip ∈ st.known ∨ st.known.length < size

/-- Unused entries are zero. -/
def IpStats.Settled (st : IpStats) : Prop := ∀ ip, ip ∉ st.known → st.active ip = 0

section Table

variable {size : ℕ} {st st' : IpStats} {a ip : ℕ}

/-- `1` at one address, `0` elsewhere. -/
def atIp (a ip : ℕ) : ℤ := if a = ip then 1 else 0

theorem ipHtGetOrCreate_spec (h : ipHtGetOrCreate size st a = some st') :
    st'.active = st.active ∧ a ∈ st'.known ∧ st.known ⊆ st'.known ∧
      ∀ ip, st'.Holds size ip → st.Holds size ip := by
  unfold ipHtGetOrCreate at h
  split_ifs at h with hmem hroom
  · obtain rfl := some.inj h
    exact ⟨rfl, by simpa using hmem, List.Subset.refl _, fun _ => id⟩
  · obtain rfl := some.inj h
    exact ⟨rfl, mem_cons_self, subset_cons_self .., fun _ _ => .inr hroom⟩

theorem not_holds_of_getOrCreate (h : ipHtGetOrCreate size st a = none) : ¬ st.Holds size a := by
  unfold ipHtGetOrCreate at h
  split_ifs at h with hmem hroom
  rintro (ha | ha)
  · exact hmem (by simpa using ha)
  · exact hroom ha

theorem active_ipStatsConnect (hip : ip ≠ 0) (h : (ipStatsConnect size st a).Holds size ip) :
    st.Holds size ip ∧ (ipStatsConnect size st a).active ip = st.active ip + atIp a ip := by
  unfold ipStatsConnect at h ⊢
  unfold atIp
  by_cases ha : a = 0
  · rw [if_pos ha] at h ⊢
    rw [if_neg fun hai : a = ip => hip (hai ▸ ha)]
    exact ⟨h, (add_zero _).symm⟩
  · rw [if_neg ha] at h ⊢
    cases hget : ipHtGetOrCreate size st a with
    | none =>
      rw [hget] at h
      have hne : a ≠ ip := by
        rintro rfl
        exact not_holds_of_getOrCreate hget h
      rw [if_neg hne]
      exact ⟨h, (add_zero _).symm⟩
    | some st' =>
      rw [hget] at h
      obtain ⟨hactive, -, -, hholds⟩ := ipHtGetOrCreate_spec hget
      refine ⟨hholds ip h, ?_⟩
      dsimp only
      split_ifs with hai
      · rw [hai, update_self, hactive]
      · rw [update_of_ne (Ne.symm hai), hactive, add_zero]

theorem settled_ipStatsConnect (hst : st.Settled) : (ipStatsConnect size st a).Settled := by
  unfold ipStatsConnect
  split_ifs
  · exact hst
  · split
    · exact hst
    · next st' hsome =>
      obtain ⟨hactive, hmem, hsub, -⟩ := ipHtGetOrCreate_spec hsome
      intro ip hip
      dsimp only at hip ⊢
      have hne : ip ≠ a := by
        rintro rfl
        exact hip hmem
      rw [update_of_ne hne, hactive]
      exact hst ip fun h => hip (hsub h)

theorem known_ipStatsDisconnect (st : IpStats) (a : ℕ) :
    (ipStatsDisconnect st a).known = st.known := by
  unfold ipStatsDisconnect
  split
  · rfl
  · split <;> rfl

theorem active_ipStatsDisconnect_of_ne (st : IpStats) (h : ip ≠ a) :
    (ipStatsDisconnect st a).active ip = st.active ip := by
  unfold ipStatsDisconnect
  split
  · rfl
  · split
    · exact update_of_ne h ..
    · rfl

theorem active_ipStatsDisconnect (hst : st.Settled) (hip : ip ≠ 0)
    (hpos : a = ip → 1 ≤ st.active ip) :
    (ipStatsDisconnect st a).active ip = st.active ip - atIp a ip := by
  unfold atIp
  split_ifs with hai
  · subst hai
    have hmem : st.known.contains a = true := by
      by_contra hnot
      have := hst a (by simpa using hnot)
      omega
    unfold ipStatsDisconnect
    rw [if_neg hip, if_pos hmem]
    dsimp only
    rw [update_self, if_neg (by omega)]
  · rw [active_ipStatsDisconnect_of_ne st (Ne.symm hai), sub_zero]

theorem settled_ipStatsDisconnect (hst : st.Settled) : (ipStatsDisconnect st a).Settled := by
  intro ip hip
  rw [known_ipStatsDisconnect] at hip
  by_cases hia : ip = a
  · subst hia
    have hnot : st.known.contains ip = false := by simpa using hip
    unfold ipStatsDisconnect
    rw [hnot, if_neg Bool.false_ne_true, ite_self]
    exact hst ip hip
  · rw [active_ipStatsDisconnect_of_ne st hia]
    exact hst ip hip

theorem ipStatsTransportSeen_spec (size : ℕ) (st : IpStats) (a ip : ℕ) :
    (ipStatsTransportSeen size st a).active = st.active ∧
      (st.Settled → (ipStatsTransportSeen size st a).Settled) ∧
      ((ipStatsTransportSeen size st a).Holds size ip → st.Holds size ip) := by
  unfold ipStatsTransportSeen
  split_ifs
  · exact ⟨rfl, id, id⟩
  · cases hget : ipHtGetOrCreate size st a with
    | none => exact ⟨rfl, id, id⟩
    | some st' =>
      obtain ⟨hactive, -, hsub, hholds⟩ := ipHtGetOrCreate_spec hget
      refine ⟨hactive, fun hst b hb => ?_, hholds ip⟩
      rw [getD_some, hactive]
      exact hst b fun h => hb (hsub h)

end Table

/-! ### A worker -/

structure LiveConfig where
  worker : WorkerConfig
  htSize : ℕ
  proxyProtocol : Bool
  deriving DecidableEq, Repr

/-- A worker with its notifications; `accepted` are the connections that clients made, `awaits` those
with the flag `C_PROXY_PROTOCOL`. -/
structure LiveWorker where
  s : NotifyState
  accepted : ℕ → Bool
  awaits : ℕ → Bool

/-- The notifications queued for a connection. -/
def noticesFor (i : ℕ) (q : List Notification) : List NotificationKind :=
  (q.filter fun n => n.who = .client i).map Notification.kind

/-- The address in a PROXY protocol header, if it has one. -/
def proxiedAddr (r : ProxyProtocolResult) : Option Addr :=
  match r.family with
  | .unknown => none
  | .inet => some ⟨r.srcIp.toNat, 0⟩
  | .inet6 => some ⟨0, r.srcIpv6.foldl (fun n b => 256 * n + b.toNat) 0⟩

/-- `proxyHeader` is a PROXY protocol header at the start of a connection, `transportSeen` the call
of `ip_stats_transport_seen` after a handshake. -/
inductive LiveEvent
  | notify (e : NotifyEvent)
  | proxyHeader (i : ℕ) (r : ProxyProtocolResult)
  | transportSeen (i : ℕ)
  deriving DecidableEq, Repr

/-- The client whose first bytes past the PROXY protocol header an event looks at. -/
def firstBytesOf : NotifyEvent → Option ℕ
  | .net (.hello i _ _ _) | .net (.header i _ _) | .net (.headerUndecipherable i)
  | .net (.toBackend i _) => some i
  | _ => none

/-- The worker after an event of the notifications, which may have accepted a client. -/
def LiveWorker.announce (cfg : LiveConfig) (x : LiveWorker) (s' : NotifyState) :
    NotifyEvent → LiveWorker
  | .net (.accept _) =>
    { s := s'
      accepted := update x.accepted x.s.w.next true
      awaits := update x.awaits x.s.w.next cfg.proxyProtocol }
  | _ => { x with s := s' }

/-- What the handlers `mtproto_ext_rpc_ready` and `mtproto_ext_rpc_close` do to the table when the
first notification runs. -/
def noticeStats (size : ℕ) (s : NotifyState) (st : IpStats) : NotifyEvent → IpStats
  | .run =>
    match s.queue with
    | ⟨.ready, .client i, _⟩ :: _ => ipStatsConnect size st (s.w.conns i).addr.ip
    | ⟨.close, .client i, _⟩ :: _ => ipStatsDisconnect st (s.w.conns i).addr.ip
    | _ => st
  | _ => st

/-- The connection with another remote address. -/
def LiveWorker.rewrite (x : LiveWorker) (i : ℕ) (a : Addr) : LiveWorker :=
  { x with s := { x.s with w := setConn x.s.w i { x.s.w.conns i with addr := a } } }

/-- A step of a worker, with the table that all workers share. -/
def liveStep (cfg : LiveConfig) (x : LiveWorker) (st : IpStats) :
    LiveEvent → Option (LiveWorker × IpStats)
  | .notify e =>
    if (firstBytesOf e).any x.awaits then none
    else (notifyStep cfg.worker x.s e).map fun s' =>
      (x.announce cfg s' e, noticeStats cfg.htSize x.s st e)
  | .proxyHeader i r =>
    if x.accepted i && x.awaits i && (x.s.w.conns i).beforeHandshake &&
        !(x.s.w.conns i).cError then
      let x' := { x with awaits := update x.awaits i false }
      match proxiedAddr r with
      | none => some (x', st)
      | some a => some (x'.rewrite i a,
          ipStatsConnect cfg.htSize (ipStatsDisconnect st (x.s.w.conns i).addr.ip) a.ip)
    else none
  | .transportSeen i =>
    some (x, ipStatsTransportSeen cfg.htSize st (x.s.w.conns i).addr.ip)

/-! ### One connection -/

/-- What the count depends on, for one connection. -/
structure ClientView where
  accepted : Bool
  cFailed : Bool
  ip : ℕ
  notices : List NotificationKind

def LiveWorker.view (x : LiveWorker) (i : ℕ) : ClientView :=
  ⟨x.accepted i, (x.s.w.conns i).cFailed, (x.s.w.conns i).addr.ip, noticesFor i x.s.queue⟩

/-- The address under which the connection is counted: the ready notification has run, and the
connection is open or its close notification is queued. -/
def ClientView.counted (v : ClientView) : Option ℕ :=
  if v.accepted then
    match v.notices with
    | [] => if v.cFailed then none else some v.ip
    | .close :: _ => some v.ip
    | _ => none
  else none

/-- The notifications that can be queued for a connection.  A client that was handed over and closed
before it was announced has only its ready notification. -/
structure ClientView.Filed (v : ClientView) : Prop where
  idle : v.accepted = false → v.notices = []
  opened : v.accepted = true → v.cFailed = false → v.notices = [] ∨ v.notices = [.ready]
  closed : v.accepted = true → v.cFailed = true →
    (v.notices = [.ready] ∧ v.ip = 0) ∨ v.notices = [] ∨ v.notices = [.close] ∨
      v.notices = [.ready, .close]

/-- The changes that do not touch the count. -/
inductive ClientView.Quiet : ClientView → ClientView → Prop
  | same (v : ClientView) : Quiet v v
  | foreign {v v' : ClientView} (h : v.accepted = false) (h' : v'.accepted = false)
    (hnotices : v'.notices = v.notices) : Quiet v v'
  | accepted {v : ClientView} (h : v.accepted = false) (ip : ℕ) :
    Quiet v ⟨true, false, ip, v.notices ++ [.ready]⟩
  | queued (a : Bool) (ip : ℕ) (ns : List NotificationKind) (h : a = true) :
    Quiet ⟨a, false, ip, ns⟩ ⟨a, true, ip, ns ++ [.close]⟩
  | closed (a : Bool) (ns : List NotificationKind) : Quiet ⟨a, false, 0, ns⟩ ⟨a, true, 0, ns⟩

section View

variable {v v' : ClientView} {ip : ℕ}

theorem ClientView.Quiet.filed (h : Quiet v v') (hv : v.Filed) : v'.Filed := by
  cases h with
  | same => exact hv
  | foreign h h' hnotices =>
    refine ⟨fun _ => hnotices.trans (hv.idle h), fun hacc => ?_, fun hacc => ?_⟩
    · rw [h'] at hacc
      cases hacc
    · rw [h'] at hacc
      cases hacc
  | accepted h ip =>
    refine ⟨fun hacc => (by cases hacc), fun _ _ => .inr ?_, fun _ hfail => (by cases hfail)⟩
    rw [hv.idle h]
    rfl
  | queued a ip ns h =>
    refine ⟨fun hacc => ?_, fun _ hopen => (by cases hopen), fun hacc _ => .inr ?_⟩
    · rw [h] at hacc
      cases hacc
    · rcases hv.opened hacc rfl with hns | hns
      · exact .inr (.inl (congrArg (· ++ [.close]) hns))
      · exact .inr (.inr (congrArg (· ++ [.close]) hns))
  | closed a ns =>
    refine ⟨hv.idle, fun _ hopen => (by cases hopen), fun hacc _ => ?_⟩
    rcases hv.opened hacc rfl with hns | hns
    · exact .inr (.inl hns)
    · exact .inl ⟨hns, rfl⟩

/-- How often an address is counted for a connection. -/
def ipWeight (ip : ℕ) (o : Option ℕ) : ℤ := if o = some ip then 1 else 0

theorem ipWeight_nonneg (ip : ℕ) (o : Option ℕ) : 0 ≤ ipWeight ip o := by
  unfold ipWeight
  split_ifs <;> decide

theorem ipWeight_some (a ip : ℕ) : ipWeight ip (some a) = atIp a ip := by
  simp [ipWeight, atIp]

theorem ipWeight_none (ip : ℕ) : ipWeight ip none = 0 := rfl

theorem ClientView.Quiet.weight (h : Quiet v v') (hv : v.Filed) (hip : ip ≠ 0) :
    ipWeight ip v'.counted = ipWeight ip v.counted := by
  cases h with
  | same => rfl
  | foreign h h' hnotices => simp [counted, h, h']
  | accepted h a =>
    have hns := hv.idle h
    simp [counted, h, hns]
  | queued a b ns h =>
    subst h
    rcases hv.opened rfl rfl with hns | hns <;> dsimp only at hns <;> subst hns <;> rfl
  | closed a ns =>
    unfold counted ipWeight
    cases a with
    | false => rfl
    | true =>
      rcases hv.opened rfl rfl with hns | hns
      · subst hns
        simp [hip.symm]
      · subst hns
        rfl

variable {ns : List NotificationKind}

theorem kind_of_filed {kind : NotificationKind} (hv : v.Filed)
    (hns : v.notices = kind :: ns) : v.accepted = true ∧ (kind = .ready ∨ kind = .close) := by
  obtain ⟨acc, fail, b, notices⟩ := v
  subst hns
  cases acc with
  | false => exact absurd (hv.idle rfl) (cons_ne_nil _ _)
  | true =>
    refine ⟨rfl, ?_⟩
    cases fail with
    | false => exact .inl (cons.inj ((hv.opened rfl rfl).resolve_left (cons_ne_nil _ _))).1
    | true =>
      rcases hv.closed rfl rfl with ⟨h, -⟩ | h | h | h
      · exact .inl (cons.inj h).1
      · cases h
      · exact .inr (cons.inj h).1
      · exact .inl (cons.inj h).1

theorem ready_weight (hv : v.Filed) (hns : v.notices = .ready :: ns) (hip : ip ≠ 0) :
    ({ v with notices := ns } : ClientView).Filed ∧
      ipWeight ip ({ v with notices := ns } : ClientView).counted =
        ipWeight ip v.counted + atIp v.ip ip := by
  obtain ⟨acc, fail, b, notices⟩ := v
  obtain rfl : acc = true := (kind_of_filed hv hns).1
  subst hns
  cases fail with
  | false =>
    obtain rfl : ns = [] := by simpa using hv.opened rfl rfl
    refine ⟨⟨nofun, fun _ _ => .inl rfl, nofun⟩, ?_⟩
    simp [ClientView.counted, ipWeight_some, ipWeight_none]
  | true =>
    have hcases : (ns = [] ∧ b = 0) ∨ ns = [.close] := by simpa using hv.closed rfl rfl
    rcases hcases with ⟨rfl, rfl⟩ | rfl
    · refine ⟨⟨nofun, nofun, fun _ _ => .inr (.inl rfl)⟩, ?_⟩
      simp [ClientView.counted, ipWeight_none, atIp, hip.symm]
    · refine ⟨⟨nofun, nofun, fun _ _ => .inr (.inr (.inl rfl))⟩, ?_⟩
      simp [ClientView.counted, ipWeight_some, ipWeight_none]

theorem close_weight (hv : v.Filed) (hns : v.notices = .close :: ns) :
    ({ v with notices := ns } : ClientView).Filed ∧ v.counted = some v.ip ∧
      ({ v with notices := ns } : ClientView).counted = none := by
  obtain ⟨acc, fail, b, notices⟩ := v
  obtain rfl : acc = true := (kind_of_filed hv hns).1
  subst hns
  cases fail with
  | false => exact absurd (hv.opened rfl rfl) (by simp)
  | true =>
    obtain rfl : ns = [] := by simpa using hv.closed rfl rfl
    exact ⟨⟨nofun, nofun, fun _ _ => .inr (.inl rfl)⟩, rfl, rfl⟩

end View

/-! ### The notifications of one connection -/

theorem noticesFor_append (i : ℕ) (q q' : List Notification) :
    noticesFor i (q ++ q') = noticesFor i q ++ noticesFor i q' := by
  simp [noticesFor]

variable {n : Notification}

variable {i size : ℕ}

theorem noticesFor_eq_nil {q : List Notification} (h : ∀ n ∈ q, n.who ≠ .client i) :
    noticesFor i q = [] := by
  unfold noticesFor
  rw [filter_eq_nil_iff.2 fun n hn => by simpa using h n hn]
  rfl

theorem noticesFor_cons_of_ne (h : n.who ≠ .client i)
    (q : List Notification) : noticesFor i (n :: q) = noticesFor i q := by
  simp [noticesFor, h]

/-- What an event of the worker queues for one connection. -/
def queuedFor (i : ℕ) (w : State) : Event → List NotificationKind
  | .accept _ => if i = w.next then [.ready] else []
  | .close j => if i = j ∧ (w.conns j).isExt = true then [.close] else []
  | _ => []

theorem noticesFor_clientNotices {w : State} (hw : Tabled w) {e : Event} (hen : e.Ready w)
    (i : ℕ) : noticesFor i (clientNotices w e) = queuedFor i w e := by
  cases e with
  | accept addr =>
    unfold queuedFor
    split_ifs with hi
    · subst hi
      simp [clientNotices, insertConnIf, insertConn, Extra.held, noticesFor, FuncTable.method]
    · exact noticesFor_eq_nil fun n hn => by
        rw [(mem_insertConnIf hn).2.1]
        exact fun h => hi (Who.client.inj h).symm
  | close j =>
    simp only [clientNotices, queuedFor]
    by_cases hext : (w.conns j).isExt = true
    · rw [if_pos hext, hw.ext j hen.1.1 hext]
      by_cases hi : i = j
      · subst hi
        simp [hext, insertConnIf, insertConn, Extra.held, noticesFor, FuncTable.method]
      · rw [if_neg fun h => hi h.1]
        exact noticesFor_eq_nil fun n hn => by
          rw [(mem_insertConnIf hn).2.1]
          exact fun h => hi (Who.client.inj h).symm
    · rw [if_neg hext, if_neg fun h => hext h.2]
      rfl
  | _ => rfl

theorem noticesFor_packetNotices (x : Service) (i j : ℕ) :
    noticesFor i (packetNotices x j) = [] := by
  refine noticesFor_eq_nil fun n hn => ?_
  have hwho : n.who = .service j := by
    unfold packetNotices at hn
    split_ifs at hn
    · split at hn
      · exact (mem_insertConn hn).2.2
      · exact (mem_insertConnIf hn).2.1
      · exact absurd hn not_mem_nil
    · exact absurd hn not_mem_nil
  rw [hwho]
  exact nofun

theorem noticesFor_closeNotices (x : Service) (i j : ℕ) : noticesFor i (closeNotices x j) = [] := by
  refine noticesFor_eq_nil fun n hn => ?_
  have hwho : n.who = .service j := by
    unfold closeNotices at hn
    split at hn
    · exact (mem_insertConnIf hn).2.1
    · exact (mem_insertConnIf hn).2.1
    · exact absurd hn not_mem_nil
  rw [hwho]
  exact nofun

theorem service_notifyStep {cfg : WorkerConfig} {s s' : NotifyState} {e : NotifyEvent}
    (hnet : ∀ e', e ≠ .net e') (hrun : e ≠ .run) (h : notifyStep cfg s e = some s') :
    s'.w = s.w ∧ ∀ i, noticesFor i s'.queue = noticesFor i s.queue := by
  cases e with
  | net e => exact absurd rfl (hnet e)
  | run => exact absurd rfl hrun
  | acceptService =>
    obtain rfl := some.inj h
    exact ⟨rfl, fun _ => rfl⟩
  | connectMiddleEnd =>
    obtain rfl := some.inj h
    exact ⟨rfl, fun _ => rfl⟩
  | packet i =>
    simp only [notifyStep] at h
    split_ifs at h
    obtain rfl := some.inj h
    refine ⟨rfl, fun j => ?_⟩
    rw [enqueue, noticesFor_append, noticesFor_packetNotices, append_nil]
    rfl
  | httpFallback i =>
    simp only [notifyStep] at h
    split_ifs at h
    obtain rfl := some.inj h
    exact ⟨rfl, fun _ => rfl⟩
  | failService i =>
    simp only [notifyStep] at h
    split_ifs at h
    obtain rfl := some.inj h
    exact ⟨rfl, fun _ => rfl⟩
  | closeService i =>
    simp only [notifyStep] at h
    split_ifs at h
    obtain rfl := some.inj h
    refine ⟨rfl, fun j => ?_⟩
    rw [enqueue, noticesFor_append, noticesFor_closeNotices, append_nil]
    rfl

/-! ### What an event does to the views -/

/-- What holds of a worker in every run. -/
structure LiveWorker.Filed (x : LiveWorker) : Prop where
  synced : Synced x.s
  apart : Apart x.s.w
  below : ∀ i, x.accepted i = true → i < x.s.w.next
  ext : ∀ i < x.s.w.next, (x.s.w.conns i).isExt = true → x.accepted i = true
  view : ∀ i, (x.view i).Filed

/-- A client is closed under the type it was accepted with, unless it has no IPv4 address, and its
address is rewritten only after its ready notification has run. -/
def LiveOk (x : LiveWorker) : LiveEvent → Prop
  | .notify (.net (.close i)) =>
    x.accepted i = true → (x.s.w.conns i).isExt = true ∨ (x.s.w.conns i).addr.ip = 0
  | .proxyHeader i r =>
    (proxiedAddr r).isSome = true → NotificationKind.ready ∉ noticesFor i x.s.queue
  | _ => True

instance (x : LiveWorker) (e : LiveEvent) : Decidable (LiveOk x e) := by
  unfold LiveOk
  split <;> infer_instance

section Worker

variable {cfg : LiveConfig} {x x' : LiveWorker} {st st' : IpStats} {ip : ℕ}

variable {i : ℕ} {s' : NotifyState} {e : Event}

theorem LiveWorker.Filed.fresh (hx : x.Filed) (hi : x.s.w.next ≤ i) : x.accepted i = false := by
  by_contra hacc
  exact absurd (hx.below i (by simpa using hacc)) (Nat.not_lt.2 hi)

theorem net_notifyStep {s : NotifyState} (hs : Synced s)
    (h : notifyStep cfg.worker s (.net e) = some s') :
    step cfg.worker s.w e = some s'.w ∧
      ∀ i, noticesFor i s'.queue = noticesFor i s.queue ++ queuedFor i s.w e := by
  simp only [notifyStep] at h
  split_ifs at h with hnotify
  obtain ⟨w', hw', rfl⟩ := map_eq_some_iff.1 h
  refine ⟨hw', fun i => ?_⟩
  rw [← noticesFor_clientNotices hs.tabled (step_eq_some hw').1]
  exact noticesFor_append ..

theorem view_announce {e : NotifyEvent}
    (hnew : (∃ addr, e = .net (.accept addr)) → i ≠ x.s.w.next) :
    (x.announce cfg s' e).view i =
      ⟨x.accepted i, (s'.w.conns i).cFailed, (s'.w.conns i).addr.ip, noticesFor i s'.queue⟩ := by
  unfold LiveWorker.announce
  split
  · next addr =>
    unfold LiveWorker.view
    dsimp only
    rw [update_of_ne (hnew ⟨addr, rfl⟩)]
  · rfl

theorem quiet_close (hx : x.Filed) (hok : LiveOk x (.notify (.net (.close i))))
    (h : notifyStep cfg.worker x.s (.net (.close i)) = some s') :
    (x.view i).Quiet ((x.announce cfg s' (.net (.close i))).view i) := by
  obtain ⟨hw', hqueue⟩ := net_notifyStep hx.synced h
  have hen := (step_eq_some hw').1
  have hi := hen.1.1
  obtain ⟨haddr, -, -, hclosed⟩ := (change_handle hx.apart hw' hi).frame hx.apart
  have hold : x.view i = ⟨x.accepted i, false, (x.s.w.conns i).addr.ip, noticesFor i x.s.queue⟩ := by
    unfold LiveWorker.view
    rw [hen.2]
  rw [view_announce fun hacc => by simp at hacc, hclosed rfl, haddr, hqueue i, hold, queuedFor]
  by_cases hext : (x.s.w.conns i).isExt = true
  · rw [if_pos ⟨rfl, hext⟩]
    exact .queued _ _ _ (hx.ext i hi hext)
  · rw [if_neg fun h => hext h.2, append_nil]
    by_cases hacc : x.accepted i = true
    · rw [(hok hacc).resolve_left hext]
      exact .closed _ _
    · exact .foreign (by simpa using hacc) (by simpa using hacc) rfl

theorem quiet_net (hx : x.Filed) (hok : LiveOk x (.notify (.net e)))
    (h : notifyStep cfg.worker x.s (.net e) = some s') (i : ℕ) :
    (x.view i).Quiet ((x.announce cfg s' (.net e)).view i) := by
  by_cases hclose : e = .close i
  · subst hclose
    exact quiet_close hx hok h
  · obtain ⟨hw', hqueue⟩ := net_notifyStep hx.synced h
    by_cases hnew : (∃ addr, e = .accept addr) ∧ i = x.s.w.next
    · obtain ⟨⟨addr, rfl⟩, rfl⟩ := hnew
      have hview : (x.announce cfg s' (.net (.accept addr))).view x.s.w.next =
          ⟨true, false, addr.ip, (x.view x.s.w.next).notices ++ [.ready]⟩ := by
        have hnew : s'.w.conns x.s.w.next = Conn.new .extServer .rpcFuncs addr := by
          rw [← (step_eq_some hw').2]
          exact conns_newConn_self ..
        have hready := hqueue x.s.w.next
        rw [queuedFor, if_pos rfl] at hready
        unfold LiveWorker.view LiveWorker.announce
        dsimp only
        rw [update_self, hnew, hready]
        rfl
      rw [hview]
      exact .accepted (hx.fresh (le_refl _)) _
    · have hnone : noticesFor i s'.queue = noticesFor i x.s.queue := by
        rw [hqueue i]
        cases e with
        | accept addr => rw [queuedFor, if_neg fun h => hnew ⟨⟨addr, rfl⟩, h⟩, append_nil]
        | close j =>
          rw [queuedFor, if_neg fun h => hclose (congrArg Event.close h.1.symm), append_nil]
        | _ => exact append_nil _
      have hother : (∃ addr, NotifyEvent.net e = .net (.accept addr)) → i ≠ x.s.w.next := by
        rintro ⟨addr, he⟩ hi
        exact hnew ⟨⟨addr, NotifyEvent.net.inj he⟩, hi⟩
      rw [view_announce hother, hnone]
      by_cases hi : i < x.s.w.next
      · obtain ⟨haddr, -, hsame, -⟩ := (change_handle hx.apart hw' hi).frame hx.apart
        rw [haddr, hsame hclose]
        exact .same _
      · have hfresh := hx.fresh (Nat.le_of_not_lt hi)
        exact .foreign hfresh hfresh rfl

theorem view_run (hx : x.Filed) (h : notifyStep cfg.worker x.s .run = some s') :
    s'.w.next = x.s.w.next ∧ ∃ n, x.s.queue = n :: s'.queue ∧
      ∀ i, ({ x with s := s' } : LiveWorker).view i =
        { x.view i with notices := noticesFor i s'.queue } := by
  simp only [notifyStep] at h
  split at h
  · cases h
  · next n rest hq =>
    have hqueue : s'.queue = rest := by
      rcases runNotificationEvent_eq_some h with rfl | ⟨t, m, -, -, rfl⟩
      · rfl
      · unfold Method.call
        split <;> rfl
    obtain ⟨-, hw⟩ := synced_runNotificationEvent cfg.worker hx.synced hq h
    have hconns : s'.w.next = x.s.w.next ∧ ∀ i, (s'.w.conns i).cFailed = (x.s.w.conns i).cFailed ∧
        (s'.w.conns i).addr = (x.s.w.conns i).addr := by
      rcases eq_or_notify hw with hw | hw
      · rw [hw]
        exact ⟨rfl, fun _ => ⟨rfl, rfl⟩⟩
      · obtain ⟨-, hw⟩ := step_eq_some hw
        rw [← hw]
        simp only [handle]
        split
        · exact ⟨rfl, fun _ => ⟨rfl, rfl⟩⟩
        · next j q _ =>
          refine ⟨next_uncountConnection .., fun i => ?_⟩
          rw [mtprotoExtRpcClose, conns_uncountConnection]
          by_cases hij : i = j
          · subst hij
            rw [conns_setConn_self]
            exact ⟨rfl, rfl⟩
          · rw [conns_setConn_of_ne _ _ hij]
            exact ⟨rfl, rfl⟩
    refine ⟨hconns.1, n, by rw [hqueue, hq], fun i => ?_⟩
    rw [ClientView.mk.injEq]
    exact ⟨rfl, (hconns.2 i).1, congrArg Addr.ip (hconns.2 i).2, rfl⟩

/-- How often the clients of a worker are counted under an address. -/
def liveCount (x : LiveWorker) (ip : ℕ) : ℤ :=
  tally (ipWeight ip) x.s.w.next fun i => (x.view i).counted

theorem liveCount_quiet (hx : x.Filed) (hnext : x.s.w.next ≤ x'.s.w.next)
    (hquiet : ∀ i, (x.view i).Quiet (x'.view i)) (hip : ip ≠ 0) :
    liveCount x' ip = liveCount x ip := by
  have hweight (i : ℕ) : ipWeight ip (x'.view i).counted = ipWeight ip (x.view i).counted :=
    (hquiet i).weight (hx.view i) hip
  calc liveCount x' ip
      = tally (ipWeight ip) x'.s.w.next fun i => (x.view i).counted :=
        tally_congr fun i _ => hweight i
    _ = liveCount x ip := tally_eq_of_le hnext fun i hi => by
        rw [ClientView.counted, show (x.view i).accepted = false from hx.fresh hi]
        rfl

theorem liveCount_of_ne (hi : i < x.s.w.next) (hnext : x'.s.w.next = x.s.w.next)
    (hview : ∀ j, j ≠ i → x'.view j = x.view j) :
    liveCount x' ip = liveCount x ip +
      (ipWeight ip (x'.view i).counted - ipWeight ip (x.view i).counted) := by
  have hupdate : (fun j => (x'.view j).counted) =
      update (fun j => (x.view j).counted) i (x'.view i).counted := by
    funext j
    by_cases hji : j = i
    · subst hji
      rw [update_self]
    · rw [update_of_ne hji, hview j hji]
  unfold liveCount
  rw [hnext, hupdate, tally_update hi]

theorem ext_step {cfg : WorkerConfig} {w w' : State} {acc acc' : ℕ → Bool} (hw : Apart w)
    (hext : ∀ i < w.next, (w.conns i).isExt = true → acc i = true) (h : step cfg w e = some w')
    (hold : ∀ i < w.next, acc i = true → acc' i = true)
    (hnew : ∀ addr, e = .accept addr → acc' w.next = true) :
    ∀ i < w'.next, (w'.conns i).isExt = true → acc' i = true := by
  refine forall_handle h (fun i hi hiext => ?_) (fun k _ hopen hiext => ?_) fun addr he _ _ => ?_
  · exact hold i hi (hext i hi (((change_handle hw h hi).frame hw).2.1 hiext))
  · rcases hopen.type with htype | htype <;> simp [Conn.isExt, htype] at hiext
  · exact hnew addr he

theorem filed_net (hx : x.Filed) (hok : LiveOk x (.notify (.net e)))
    (h : notifyStep cfg.worker x.s (.net e) = some s') : (x.announce cfg s' (.net e)).Filed := by
  obtain ⟨hw', -⟩ := net_notifyStep hx.synced h
  have hs : (x.announce cfg s' (.net e)).s = s' := by
    unfold LiveWorker.announce
    split <;> rfl
  have hle : x.s.w.next ≤ s'.w.next := next_le_handle hw'
  -- a client is known from its acceptance on
  have hold : ∀ i, x.accepted i = true → (x.announce cfg s' (.net e)).accepted i = true := by
    intro i hi
    unfold LiveWorker.announce
    split
    · dsimp only
      rwa [update_of_ne (hx.below i hi).ne]
    · exact hi
  have hnew : ∀ addr, e = .accept addr →
      (x.announce cfg s' (.net e)).accepted x.s.w.next = true := by
    rintro addr rfl
    exact update_self ..
  refine ⟨?_, ?_, ?_, ?_, fun i => (quiet_net hx hok h i).filed (hx.view i)⟩
  · rw [hs]
    exact (synced_notifyStep hx.synced hx.apart h).1
  · rw [hs]
    exact apart_handle hx.apart hw'
  · rw [hs]
    intro i hi
    unfold LiveWorker.announce at hi
    split at hi
    · next addr he =>
      have hnext : s'.w.next = x.s.w.next + 1 := by
        rw [← (step_eq_some hw').2, NotifyEvent.net.inj he]
        rfl
      by_cases hin : i = x.s.w.next
      · omega
      · dsimp only at hi
        rw [update_of_ne hin] at hi
        exact (hx.below i hi).trans_le hle
    · exact (hx.below i hi).trans_le hle
  · rw [hs]
    exact ext_step hx.apart hx.ext hw' (fun i _ => hold i) hnew

theorem filed_of_view (hx : x.Filed) (hsynced : Synced s')
    (hw : s'.w = x.s.w ∨ step cfg.worker x.s.w .notify = some s'.w) (hnext : s'.w.next = x.s.w.next)
    (hview : ∀ i, (({ x with s := s' } : LiveWorker).view i).Filed) :
    ({ x with s := s' } : LiveWorker).Filed where
  synced := hsynced
  apart := by
    rcases hw with hw | hw
    · rw [hw]
      exact hx.apart
    · exact apart_handle hx.apart hw
  below := fun i hi => by
    rw [hnext]
    exact hx.below i hi
  ext := by
    rcases hw with hw | hw
    · rw [hw]
      exact hx.ext
    · exact ext_step hx.apart hx.ext hw (fun _ _ => id) fun addr he => by cases he
  view := hview

/-- The table follows the count of the worker. -/
structure Recounted (size : ℕ) (x x' : LiveWorker) (st st' : IpStats) : Prop where
  filed : x'.Filed
  settled : st'.Settled
  active : ∀ ip, ip ≠ 0 → st'.Holds size ip →
    st.Holds size ip ∧ st'.active ip - st.active ip = liveCount x' ip - liveCount x ip

theorem recounted_quiet (hx : x.Filed) (hx' : x'.Filed) (hst : st.Settled)
    (hnext : x.s.w.next ≤ x'.s.w.next) (hquiet : ∀ i, (x.view i).Quiet (x'.view i)) :
    Recounted size x x' st st where
  filed := hx'
  settled := hst
  active := fun ip hip hholds => ⟨hholds, by rw [liveCount_quiet hx hnext hquiet hip]; ring⟩

/-- The table counts at least the clients of this worker. -/
def Covers (size : ℕ) (st : IpStats) (x : LiveWorker) : Prop :=
  ∀ ip, ip ≠ 0 → st.Holds size ip → liveCount x ip ≤ st.active ip

theorem Covers.one_le (h : Covers size st x) (hi : i < x.s.w.next)
    (hcounted : (x.view i).counted = some ip) (hip : ip ≠ 0) (hholds : st.Holds size ip) :
    1 ≤ st.active ip := by
  have hone : ipWeight ip (x.view i).counted = 1 := by
    rw [hcounted, ipWeight_some, atIp, if_pos rfl]
  have hle := le_tally (ipWeight_nonneg ip) (fun i => (x.view i).counted) hi
  exact hone ▸ hle.trans (h ip hip hholds)

theorem recounted_run (hx : x.Filed) (hst : st.Settled) (hcovers : Covers cfg.htSize st x)
    (h : notifyStep cfg.worker x.s .run = some s') :
    Recounted cfg.htSize x { x with s := s' } st (noticeStats cfg.htSize x.s st .run) := by
  obtain ⟨hnext, n, hq, hview⟩ := view_run hx h
  have hsynced := synced_notifyStep hx.synced hx.apart h
  have hw := eq_or_notify hsynced.2
  have hother {i j : ℕ} (hwho : n.who = .client i) (hji : j ≠ i) :
      ({ x with s := s' } : LiveWorker).view j = x.view j := by
    have hne : n.who ≠ .client j := by
      rw [hwho]
      exact fun heq => hji (Who.client.inj heq).symm
    rw [hview j, ← noticesFor_cons_of_ne hne s'.queue, ← hq]
    rfl
  cases hwho : n.who with
  | service k =>
    have hsame (i : ℕ) : ({ x with s := s' } : LiveWorker).view i = x.view i := by
      rw [hview i, ← noticesFor_cons_of_ne (by rw [hwho]; exact fun heq => by cases heq) s'.queue,
        ← hq]
      rfl
    have hx' := filed_of_view hx hsynced.1 hw hnext fun i => by rw [hsame i]; exact hx.view i
    have hstats : noticeStats cfg.htSize x.s st .run = st := by
      obtain ⟨kind, who, table⟩ := n
      subst hwho
      simp only [noticeStats, hq]
    rw [hstats]
    exact recounted_quiet hx hx' hst hnext.ge fun i => by rw [hsame i]; exact .same _
  | client i =>
    have hnotices : (x.view i).notices = n.kind :: noticesFor i s'.queue := by
      show noticesFor i x.s.queue = _
      simp [hq, noticesFor, hwho]
    obtain ⟨hacc, hkind⟩ := kind_of_filed (hx.view i) hnotices
    have hi : i < x.s.w.next := hx.below i hacc
    have hfiled (hvi : ({ x.view i with notices := noticesFor i s'.queue } : ClientView).Filed) :
        ({ x with s := s' } : LiveWorker).Filed := by
      refine filed_of_view hx hsynced.1 hw hnext fun j => ?_
      by_cases hji : j = i
      · subst hji
        rw [hview j]
        exact hvi
      · rw [hother hwho hji]
        exact hx.view j
    have hcount (ip : ℕ) : liveCount { x with s := s' } ip = liveCount x ip +
        (ipWeight ip ({ x.view i with notices := noticesFor i s'.queue } : ClientView).counted -
          ipWeight ip (x.view i).counted) := by
      rw [← hview i]
      exact liveCount_of_ne hi hnext fun j hji => hother hwho hji
    obtain ⟨kind, who, table⟩ := n
    subst hwho
    rcases hkind with rfl | rfl
    · have hstats : noticeStats cfg.htSize x.s st .run =
          ipStatsConnect cfg.htSize st (x.view i).ip := by
        simp only [noticeStats, hq]
        rfl
      rw [hstats]
      refine ⟨hfiled (ready_weight (hx.view i) hnotices one_ne_zero).1, settled_ipStatsConnect hst,
        fun ip hip hholds => ?_⟩
      obtain ⟨hold, hactive⟩ := active_ipStatsConnect hip hholds
      refine ⟨hold, ?_⟩
      rw [hactive, hcount ip, (ready_weight (hx.view i) hnotices hip).2]
      ring
    · have hstats : noticeStats cfg.htSize x.s st .run = ipStatsDisconnect st (x.view i).ip := by
        simp only [noticeStats, hq]
        rfl
      obtain ⟨hvi, hcounted, hgone⟩ := close_weight (hx.view i) hnotices
      rw [hstats]
      refine ⟨hfiled hvi, settled_ipStatsDisconnect hst, fun ip hip hholds => ?_⟩
      have hold : st.Holds cfg.htSize ip := by
        unfold IpStats.Holds at hholds ⊢
        rwa [known_ipStatsDisconnect] at hholds
      refine ⟨hold, ?_⟩
      rw [active_ipStatsDisconnect hst hip fun heq =>
        hcovers.one_le hi (hcounted.trans (congrArg some heq)) hip hold, hcount ip, hcounted, hgone,
        ipWeight_some, ipWeight_none]
      ring

theorem view_rewrite_self (x : LiveWorker) (i : ℕ) (a : Addr) :
    (x.rewrite i a).view i = { x.view i with ip := a.ip } := by
  unfold LiveWorker.view LiveWorker.rewrite
  rw [conns_setConn_self]

theorem view_rewrite_of_ne (x : LiveWorker) {j : ℕ} (a : Addr) (hji : j ≠ i) :
    (x.rewrite i a).view j = x.view j := by
  unfold LiveWorker.view LiveWorker.rewrite
  rw [conns_setConn_of_ne _ _ hji]

theorem filed_rewrite (hx : x.Filed) (hopen : (x.s.w.conns i).cFailed = false) (a : Addr) :
    (x.rewrite i a).Filed := by
  have hfields (j : ℕ) : ((x.rewrite i a).s.w.conns j).extra = (x.s.w.conns j).extra ∧
      ((x.rewrite i a).s.w.conns j).isExt = (x.s.w.conns j).isExt := by
    unfold LiveWorker.rewrite
    by_cases hji : j = i
    · subst hji
      rw [conns_setConn_self]
      exact ⟨rfl, rfl⟩
    · rw [conns_setConn_of_ne _ _ hji]
      exact ⟨rfl, rfl⟩
  have htabled : Tabled (x.rewrite i a).s.w := hx.synced.tabled.congr rfl fun j => (hfields j).symm
  refine ⟨⟨htabled, hx.synced.closeQueue⟩, fun j hj k hk => hx.apart j hj k ((hfields j).1 ▸ hk),
    hx.below, fun j hj hext => hx.ext j hj ((hfields j).2 ▸ hext), fun j => ?_⟩
  by_cases hji : j = i
  · subst hji
    rw [view_rewrite_self]
    refine ⟨(hx.view j).idle, (hx.view j).opened, fun _ hfail => ?_⟩
    rw [show (x.s.w.conns j).cFailed = true from hfail] at hopen
    cases hopen
  · rw [view_rewrite_of_ne x a hji]
    exact hx.view j

theorem recounted_rewrite (size : ℕ) (hx : x.Filed) (hst : st.Settled) (hcovers : Covers size st x)
    (hacc : x.accepted i = true) (hopen : (x.s.w.conns i).cFailed = false)
    (hready : NotificationKind.ready ∉ noticesFor i x.s.queue) (a : Addr) :
    Recounted size x (x.rewrite i a) st
      (ipStatsConnect size (ipStatsDisconnect st (x.s.w.conns i).addr.ip) a.ip) := by
  have hi : i < x.s.w.next := hx.below i hacc
  have hnone : noticesFor i x.s.queue = [] := by
    rcases (hx.view i).opened hacc hopen with hns | hns
    · exact hns
    · exact absurd (mem_singleton_self _) (show NotificationKind.ready ∉ [_] from hns ▸ hready)
  have hcounted : (x.view i).counted = some (x.s.w.conns i).addr.ip := by
    simp [ClientView.counted, LiveWorker.view, hacc, hnone, hopen]
  have hcounted' : ((x.rewrite i a).view i).counted = some a.ip := by
    rw [view_rewrite_self]
    simp [ClientView.counted, LiveWorker.view, hacc, hnone, hopen]
  refine ⟨filed_rewrite hx hopen a, settled_ipStatsConnect (settled_ipStatsDisconnect hst),
    fun ip hip hholds => ?_⟩
  obtain ⟨hmid, hconnect⟩ := active_ipStatsConnect hip hholds
  have hold : st.Holds size ip := by
    unfold IpStats.Holds at hmid ⊢
    rwa [known_ipStatsDisconnect] at hmid
  have hdisconnect := active_ipStatsDisconnect hst hip fun heq =>
    hcovers.one_le hi (hcounted.trans (congrArg some heq)) hip hold
  have hcount : liveCount (x.rewrite i a) ip = _ :=
    liveCount_of_ne hi rfl fun j hji => view_rewrite_of_ne x a hji
  refine ⟨hold, ?_⟩
  rw [hconnect, hdisconnect, hcount, hcounted, hcounted', ipWeight_some, ipWeight_some]
  ring

/-- **A step of a worker** changes the table as it changes the worker's clients. -/
theorem recounted_liveStep {e : LiveEvent} (hx : x.Filed) (hst : st.Settled)
    (hcovers : Covers cfg.htSize st x) (hok : LiveOk x e)
    (h : liveStep cfg x st e = some (x', st')) : Recounted cfg.htSize x x' st st' := by
  cases e with
  | notify e =>
    simp only [liveStep] at h
    split_ifs at h
    obtain ⟨s', hs', heq⟩ := map_eq_some_iff.1 h
    obtain ⟨rfl, rfl⟩ := Prod.mk.inj heq
    by_cases hrun : e = .run
    · subst hrun
      exact recounted_run hx hst hcovers hs'
    by_cases hnet : ∃ e', e = .net e'
    · obtain ⟨e', rfl⟩ := hnet
      have hle : x.s.w.next ≤ (x.announce cfg s' (.net e')).s.w.next := by
        have := next_le_handle (net_notifyStep hx.synced hs').1
        unfold LiveWorker.announce
        split <;> exact this
      exact recounted_quiet hx (filed_net hx hok hs') hst hle (quiet_net hx hok hs')
    · obtain ⟨hw, hqueue⟩ := service_notifyStep (fun e' he' => hnet ⟨e', he'⟩) hrun hs'
      have hannounce : x.announce cfg s' e = { x with s := s' } := by
        unfold LiveWorker.announce
        split
        · next addr => exact absurd ⟨_, rfl⟩ hnet
        · rfl
      have hstats : noticeStats cfg.htSize x.s st e = st := by
        cases e with
        | run => exact absurd rfl hrun
        | _ => rfl
      have hview (i : ℕ) : ({ x with s := s' } : LiveWorker).view i = x.view i := by
        unfold LiveWorker.view
        rw [hw, hqueue i]
      rw [hannounce, hstats]
      refine recounted_quiet hx ?_ hst (by rw [hw]) fun i => by rw [hview i]; exact .same _
      have hsame : s'.w = x.s.w ∨ step cfg.worker x.s.w .notify = some s'.w := .inl hw
      exact filed_of_view hx (synced_notifyStep hx.synced hx.apart hs').1 hsame (by rw [hw]) fun i => by
        rw [hview i]; exact hx.view i
  | proxyHeader i r =>
    simp only [liveStep] at h
    split_ifs at h with hguard
    simp only [Bool.and_eq_true, Conn.beforeHandshake, Bool.not_eq_true'] at hguard
    have hacc := hguard.1.1.1
    have hopen := hguard.1.2.2
    have hx₁ : ({ x with awaits := update x.awaits i false } : LiveWorker).Filed := { hx with }
    cases haddr : proxiedAddr r with
    | none =>
      rw [haddr] at h
      obtain ⟨rfl, rfl⟩ := Prod.mk.inj (some.inj h)
      exact recounted_quiet hx hx₁ hst (le_refl _) fun i => .same _
    | some a =>
      rw [haddr] at h
      obtain ⟨rfl, rfl⟩ := Prod.mk.inj (some.inj h)
      have hready := hok (by rw [haddr]; rfl)
      have hrec := recounted_rewrite cfg.htSize hx₁ hst hcovers hacc hopen hready a
      exact ⟨hrec.filed, hrec.settled, hrec.active⟩
  | transportSeen i =>
    obtain ⟨rfl, rfl⟩ := Prod.mk.inj (some.inj h)
    obtain ⟨hactive, hsettled, -⟩ := ipStatsTransportSeen_spec cfg.htSize st (x.s.w.conns i).addr.ip 0
    refine ⟨hx, hsettled hst, fun ip _ hholds => ⟨(ipStatsTransportSeen_spec _ _ _ ip).2.2 hholds, ?_⟩⟩
    rw [hactive]
    ring

end Worker

/-! ### All workers -/

/-- The workers and the table they share. -/
structure LivePool (W : ℕ) where
  workers : Fin W → LiveWorker
  stats : IpStats

def livePoolStart (W : ℕ) (t : SecretTable) (now : ℤ) : LivePool W where
  workers := fun _ => ⟨startNotify t now, fun _ => false, fun _ => false⟩
  stats := ⟨[], fun _ => 0⟩

/-- A step of one of the workers. -/
def livePoolStep (cfg : LiveConfig) {W : ℕ} (p : LivePool W) (ke : Fin W × LiveEvent) :
    Option (LivePool W) :=
  (liveStep cfg (p.workers ke.1) p.stats ke.2).map fun y =>
    ⟨update p.workers ke.1 y.1, y.2⟩

/-- The number of open clients of a worker with the address. -/
def openClients (x : LiveWorker) (ip : ℕ) : ℕ :=
  ((Finset.range x.s.w.next).filter fun i =>
    x.accepted i = true ∧ (x.s.w.conns i).cFailed = false ∧ (x.s.w.conns i).addr.ip = ip).card

/-- The table counts the clients of all workers. -/
structure PoolCounted {W : ℕ} (size : ℕ) (p : LivePool W) : Prop where
  filed : ∀ k, (p.workers k).Filed
  settled : p.stats.Settled
  active : ∀ ip, ip ≠ 0 → p.stats.Holds size ip →
    p.stats.active ip = ∑ k, liveCount (p.workers k) ip

theorem poolCounted_start (W size : ℕ) (t : SecretTable) (now : ℤ) :
    PoolCounted size (livePoolStart W t now) where
  filed := fun _ =>
    { synced := ⟨tabled_start t now, rfl⟩
      apart := apart_start t now
      below := fun _ hi => by cases hi
      ext := fun i hi => absurd hi (Nat.not_lt_zero i)
      view := fun _ => ⟨fun _ => rfl, nofun, nofun⟩ }
  settled := fun _ _ => rfl
  active := fun _ _ _ => (Finset.sum_eq_zero fun _ _ => rfl).symm

theorem poolCounted_step {cfg : LiveConfig} {W : ℕ} {p p' : LivePool W} {ke : Fin W × LiveEvent}
    (hp : PoolCounted cfg.htSize p) (hok : LiveOk (p.workers ke.1) ke.2)
    (h : livePoolStep cfg p ke = some p') : PoolCounted cfg.htSize p' := by
  obtain ⟨k, e⟩ := ke
  obtain ⟨⟨x', st'⟩, hstep, rfl⟩ := map_eq_some_iff.1 h
  have hcovers : Covers cfg.htSize p.stats (p.workers k) := by
    intro ip hip hholds
    rw [hp.active ip hip hholds]
    exact Finset.single_le_sum (f := fun k => liveCount (p.workers k) ip)
      (fun k _ => tally_nonneg (ipWeight_nonneg ip) _ _) (Finset.mem_univ k)
  have hrec := recounted_liveStep (hp.filed k) hp.settled hcovers hok hstep
  refine ⟨fun k' => ?_, hrec.settled, fun ip hip hholds => ?_⟩
  · dsimp only
    by_cases hk : k' = k
    · subst hk
      rw [update_self]
      exact hrec.filed
    · rw [update_of_ne hk]
      exact hp.filed k'
  · obtain ⟨hold, hdiff⟩ := hrec.active ip hip hholds
    have hsum := hp.active ip hip hold
    have hupdate : (fun k' => liveCount (update p.workers k x' k') ip) =
        update (fun k' => liveCount (p.workers k') ip) k (liveCount x' ip) := by
      funext k'
      exact apply_update (fun _ x => liveCount x ip) p.workers k x' k'
    rw [hupdate, Finset.sum_update_of_mem (Finset.mem_univ k)]
    rw [← Finset.add_sum_erase _ _ (Finset.mem_univ k), ← Finset.sdiff_singleton_eq_erase] at hsum
    linarith

theorem liveCount_idle {x : LiveWorker} (hq : x.s.queue = []) (ip : ℕ) :
    liveCount x ip = openClients x ip := by
  unfold liveCount tally openClients
  rw [Finset.card_filter]
  push_cast
  refine Finset.sum_congr rfl fun i _ => ?_
  simp only [ClientView.counted, LiveWorker.view, noticesFor, hq, filter_nil, map_nil]
  cases x.accepted i <;> cases (x.s.w.conns i).cFailed <;> simp [ipWeight]

/-- **Live connections per address**, in every run of the workers in which every client that is
closed still has the type it was accepted with, or no IPv4 address, and no client's address is
rewritten before its ready notification has run: when no notification is queued, `active_conns` of
an address is the number of open clients with this address.  An address that has no entry, in a full
table, has no such value. -/
theorem live_ip_counts (cfg : LiveConfig) (W : ℕ) (t : SecretTable) (now : ℤ)
    (kes : List (Fin W × LiveEvent)) (p : LivePool W)
    (hok : Along (livePoolStep cfg) (fun p ke => LiveOk (p.workers ke.1) ke.2)
      (livePoolStart W t now) kes)
    (hrun : run (livePoolStep cfg) (livePoolStart W t now) kes = some p)
    (hidle : ∀ k, (p.workers k).s.queue = []) (ip : ℕ) (hip : ip ≠ 0)
    (hentry : ip ∈ p.stats.known ∨ p.stats.known.length < cfg.htSize) :
    p.stats.active ip = ∑ k, (openClients (p.workers k) ip : ℤ) := by
  have hp : PoolCounted cfg.htSize p := run_invariant
    (fun _ _ _ => poolCounted_step) (poolCounted_start W cfg.htSize t now) hok hrun
  rw [hp.active ip hip hentry]
  exact Finset.sum_congr rfl fun k _ => liveCount_idle (hidle k) ip

/-- Two workers behind a proxy serve clients with one address; the first client leaves. -/
def frontedClients : List (Fin 2 × LiveEvent) :=
  [(0, .notify (.net (.accept ⟨1, 0⟩))), (0, .notify .run), (0, .proxyHeader 0 ⟨.inet, 5, [], 77⟩),
    (1, .notify (.net (.accept ⟨1, 0⟩))), (1, .notify .run), (1, .proxyHeader 0 ⟨.inet, 5, [], 78⟩),
    (0, .notify (.net (.header 0 0 .linked))), (0, .notify (.net (.fail 0))),
    (0, .notify (.net (.close 0))), (0, .notify .run)]

theorem live_ip_counts_frontedClients :
    ∃ p, run (livePoolStep ⟨⟨0, false⟩, 8, true⟩) (livePoolStart 2 (sampleTable 5) 0)
        frontedClients = some p ∧ p.stats.active 5 = 1 ∧
      p.stats.active 5 = ∑ k, (openClients (p.workers k) 5 : ℤ) := by
  obtain ⟨p, hrun, hidle, hentry, hone⟩ : ∃ p,
      run (livePoolStep ⟨⟨0, false⟩, 8, true⟩) (livePoolStart 2 (sampleTable 5) 0)
          frontedClients = some p ∧ (∀ k, (p.workers k).s.queue = []) ∧ 5 ∈ p.stats.known ∧
        p.stats.active 5 = 1 := by
    decide +kernel
  exact ⟨p, hrun, hone, live_ip_counts ⟨⟨0, false⟩, 8, true⟩ 2 (sampleTable 5) 0 frontedClients p
    (by decide +kernel) hrun hidle 5 (by decide) (.inl hentry)⟩

/-- A client of direct mode that is announced, linked to its DC, and leaves. -/
def directLeaves : List (Fin 1 × LiveEvent) :=
  [(0, .notify (.net (.accept ⟨5, 0⟩))), (0, .notify .run),
    (0, .notify (.net (.header 0 0 .linked))), (0, .notify (.net (.fail 0))),
    (0, .notify (.net (.close 0)))]

/-- A visitor that is announced, handed to the backend, and leaves. -/
def visitorLeaves : List (Fin 1 × LiveEvent) :=
  [(0, .notify (.net (.accept ⟨5, 0⟩))), (0, .notify .run),
    (0, .notify (.net (.toBackend 0 true))), (0, .notify (.net (.fail 0))),
    (0, .notify (.net (.close 0)))]

/-- A client whose header comes before the notification. -/
def headerTooEarly : List (Fin 1 × LiveEvent) :=
  [(0, .notify (.net (.accept ⟨1, 0⟩))), (0, .proxyHeader 0 ⟨.inet, 5, [], 77⟩), (0, .notify .run),
    (0, .notify (.net (.fail 0))), (0, .notify (.net (.close 0))), (0, .notify .run)]

/-- At the end of the run no notification is queued, no client is open, and the address is counted
once. -/
def StaysCounted (cfg : LiveConfig) (es : List (Fin 1 × LiveEvent)) : Prop :=
  ∃ p, run (livePoolStep cfg) (livePoolStart 1 (sampleTable 5) 0) es = some p ∧
    (∀ k, (p.workers k).s.queue = []) ∧ (∀ k, openClients (p.workers k) 5 = 0) ∧
    p.stats.active 5 = 1

/-- **The count of an address can stay** when its clients are gone. -/
theorem live_ip_counts_wrong :
    StaysCounted ⟨⟨1, true⟩, 8, false⟩ directLeaves ∧
      StaysCounted ⟨⟨1, false⟩, 8, false⟩ visitorLeaves ∧
      StaysCounted ⟨⟨1, false⟩, 8, true⟩ headerTooEarly := by
  unfold StaysCounted
  decide +kernel

end Mtbolt.Worker
