import Mtbolt.Worker.Changes

/-!
# What the handlers leave alone

Most handlers of a worker touch neither the settings of a secret nor its traffic counters, count no
connection, and start no traffic through a middle-end.  `Calm` says so of a change of the state.  It
is proved once for every handler, and the modules on admission and on quotas read off it what they
need.
-/

namespace Mtbolt.Worker

open Secrets Bool

/-- The connection is past its handshake and passes its packets on to a middle-end. -/
def Conn.relaying (c : Conn) : Bool := c.isExt && c.handshaken && !c.cError

/-- The slot changes at most in the counts and the record of its connections, and has no more of
them. -/
structure SlotCalm (x y : Slot) : Prop where
  connections : y.connections ≤ x.connections
  limit : y.limit = x.limit
  quota : y.quota = x.quota
  state : y.state = x.state
  bytes : y.bytesReceived = x.bytesReceived ∧ y.bytesSent = x.bytesSent

/-- The connection becomes neither a Fake-TLS one nor one that relays. -/
structure Conn.Calm (c d : Conn) : Prop where
  isTls : d.isTls = true → c.isTls = true
  relaying : d.relaying = true → c.relaying = true

structure Calm (w w' : State) : Prop where
  slot : ∀ s, SlotCalm (w.tbl.slot s) (w'.tbl.slot s)
  conn : ∀ i, (w.conns i).Calm (w'.conns i)

theorem SlotCalm.refl (x : Slot) : SlotCalm x x := ⟨le_refl _, rfl, rfl, rfl, rfl, rfl⟩

theorem SlotCalm.trans {x y z : Slot} (h : SlotCalm x y) (h' : SlotCalm y z) : SlotCalm x z :=
  ⟨h'.connections.trans h.connections, h'.limit.trans h.limit, h'.quota.trans h.quota,
    h'.state.trans h.state, h'.bytes.1.trans h.bytes.1, h'.bytes.2.trans h.bytes.2⟩

variable (x : Slot) (cfg : WorkerConfig) (w : State) (i bytes : ℕ)

theorem slotCalm_disconnect (addr : Addr) : SlotCalm x (x.disconnect addr) := by
  unfold Slot.disconnect ipTrackDisconnect
  split
  · exact ⟨by simp, rfl, rfl, rfl, rfl, rfl⟩
  · split_ifs
    · exact ⟨by simp, rfl, rfl, rfl, rfl, rfl⟩
    · exact ⟨by simp, rfl, rfl, rfl, rfl, rfl⟩

theorem slotCalm_reject (r : Rejection) : SlotCalm x (x.reject r) :=
  ⟨le_refl _, rfl, rfl, rfl, rfl, rfl⟩

theorem Conn.Calm.refl (c : Conn) : c.Calm c := ⟨id, id⟩

variable {c : Conn}

theorem Conn.Calm.trans {d e : Conn} (h : c.Calm d) (h' : d.Calm e) : c.Calm e :=
  ⟨fun he => h.isTls (h'.isTls he), fun he => h.relaying (h'.relaying he)⟩

theorem Conn.calm_of_cError {d : Conn} (htls : d.isTls = c.isTls) (h : d.cError = true) :
    c.Calm d :=
  ⟨fun hd => htls ▸ hd, fun hd => by simp [Conn.relaying, h] at hd⟩

theorem Conn.calm_of_isExt {d : Conn} (htls : d.isTls = c.isTls) (h : d.isExt = false) :
    c.Calm d :=
  ⟨fun hd => htls ▸ hd, fun hd => by simp [Conn.relaying, h] at hd⟩

theorem Conn.calm_toDirect (c : Conn) : c.Calm c.toDirect :=
  Conn.calm_of_isExt rfl (Conn.isExt_eq_false (isDirectClient_toDirect c))

theorem Calm.refl : Calm w w := ⟨fun _ => .refl _, fun _ => .refl _⟩

theorem Calm.trans {w w' w'' : State} (h : Calm w w') (h' : Calm w' w'') : Calm w w'' :=
  ⟨fun s => (h.slot s).trans (h'.slot s), fun i => (h.conn i).trans (h'.conn i)⟩

theorem Calm.congr {w w' w'' : State} (h : Calm w w') (htbl : w''.tbl = w'.tbl)
    (hconns : w''.conns = w'.conns) : Calm w w'' :=
  ⟨fun s => by rw [htbl]; exact h.slot s, fun i => by rw [hconns]; exact h.conn i⟩

theorem calm_setConn {i : ℕ} (h : (w.conns i).Calm c) : Calm w (setConn w i c) := by
  refine ⟨fun _ => .refl _, fun j => ?_⟩
  by_cases hji : j = i
  · subst hji
    rwa [conns_setConn_self]
  · rw [conns_setConn_of_ne _ _ hji]
    exact .refl _

theorem calm_newConn (type : ConnType) (extra : Extra) (addr : Addr) :
    Calm w (newConn w (Conn.new type extra addr)) := by
  refine ⟨fun _ => .refl _, fun j => ?_⟩
  by_cases hji : j = w.next
  · subst hji
    exact ⟨fun h => absurd h (by simp [Conn.new]), fun h => by simp [Conn.relaying, Conn.new] at h⟩
  · rw [conns_newConn_of_ne _ _ hji]
    exact .refl _

theorem calm_setSlot {s : ℕ} {x : Slot} (h : SlotCalm (w.tbl.slot s) x) :
    Calm w (setSlot w s x) := by
  refine ⟨fun s' => ?_, fun _ => .refl _⟩
  by_cases hs : s' = s
  · subst hs
    rwa [slot_setSlot_self]
  · rw [slot_setSlot_of_ne _ _ hs]
    exact .refl _

/-! ### The handlers -/

section Handlers

variable (w : State) (i : ℕ)

theorem calm_failConnection : Calm w (failConnection w i) :=
  calm_setConn w (Conn.calm_of_cError rfl rfl)

theorem calm_directScheduleRetry (attempt : ℕ) : Calm w (directScheduleRetry w i attempt) := by
  unfold directScheduleRetry
  split_ifs
  · exact calm_failConnection w i
  · exact calm_setConn w ⟨id, id⟩

theorem calm_linkDc (h : (w.conns i).Calm c) (hi : i < w.next) : Calm w (linkDc w i c) := by
  have hnew := calm_newConn w .directDc (.conn i) ⟨0, 0⟩
  refine (hnew.trans (calm_setConn _ (i := i) ?_)).congr rfl rfl
  rw [conns_newConn_of_ne _ _ (Nat.ne_of_lt hi)]
  exact h.trans ⟨id, id⟩

theorem calm_directConnectToDc (hi : i < w.next) (dc : DcOutcome) :
    Calm w (directConnectToDc w i dc) := by
  cases dc with
  | unknownDc => exact calm_failConnection w i
  | allFailed =>
    exact (calm_setConn w (w.conns i).calm_toDirect).trans (calm_directScheduleRetry _ i 0)
  | linked => exact calm_linkDc w i (w.conns i).calm_toDirect hi

theorem calm_proxyConnection (hi : i < w.next) (linked : Bool) :
    Calm w (proxyConnection w i linked) := by
  cases linked with
  | true =>
    have hnew := calm_newConn w .proxyPass (.conn i) ⟨0, 0⟩
    refine hnew.trans (calm_setConn _ ?_)
    rw [conns_newConn_of_ne _ _ (Nat.ne_of_lt hi)]
    exact Conn.calm_of_isExt rfl rfl
  | false => exact calm_setConn w (Conn.calm_of_cError rfl rfl)

theorem calm_failPeer : Calm w (failPeer w i) := by
  have hset : Calm w (setConn w i (w.conns i).unlink) := calm_setConn w ⟨id, id⟩
  unfold failPeer
  split
  · exact .refl w
  · exact hset.trans (calm_failConnection _ _)
  · exact hset.congr rfl rfl

theorem calm_uncountConnection : Calm w (uncountConnection w i) := by
  unfold uncountConnection
  dsimp only
  split_ifs
  · exact calm_setSlot w (slotCalm_disconnect _ _)
  · exact .refl w

theorem calm_tcpDirectClose : Calm w (tcpDirectClose w i) := by
  have huncount : Calm w (directUncount w i) := by
    unfold directUncount
    split_ifs
    · exact (calm_uncountConnection w i).congr rfl rfl
    · exact .refl w
  have hpeer := huncount.trans (calm_failPeer (directUncount w i) i)
  unfold tcpDirectClose
  split
  · next j _ =>
    split_ifs
    · have hj : Calm w (setConn w j (w.conns j).unlink) := calm_setConn w ⟨id, id⟩
      have hi : Calm w (setConn (setConn w j (w.conns j).unlink) i (w.conns i).unlink) := by
        refine hj.trans (calm_setConn _ ?_)
        by_cases hij : i = j
        · subst hij
          rw [conns_setConn_self]
          exact ⟨id, id⟩
        · rw [conns_setConn_of_ne _ _ hij]
          exact ⟨id, id⟩
      exact hi.trans (calm_directScheduleRetry _ _ _)
    · exact hpeer
  · exact hpeer

theorem calm_closeConnection : Calm w (closeConnection w i) := by
  have hclosed : Calm w (setConn w i (w.conns i).closed) := calm_setConn w ⟨id, id⟩
  have hopen : Calm w (setConn w i { w.conns i with cFailed := true }) := calm_setConn w ⟨id, id⟩
  unfold closeConnection
  dsimp only
  split
  · exact hopen.congr rfl rfl
  · exact hopen.congr rfl rfl
  · exact hclosed.trans (calm_tcpDirectClose _ i)
  · exact hclosed.trans (calm_tcpDirectClose _ i)
  · exact hclosed.trans (calm_tcpDirectClose _ i)
  · exact hclosed.trans (calm_failPeer _ i)

theorem calm_mtprotoExtRpcClose : Calm w (mtprotoExtRpcClose w i) := by
  have hset : Calm w (setConn w i { w.conns i with closeRan := true }) := calm_setConn w ⟨id, id⟩
  exact hset.trans (calm_uncountConnection _ i)

theorem calm_directClientAlarm (hi : i < w.next) (resumed : Bool) (dc : DcOutcome) :
    Calm w (directClientAlarm w i resumed dc) := by
  unfold directClientAlarm
  split_ifs
  · exact .refl w
  · cases dc with
    | unknownDc =>
      have hset : Calm w (setConn w i { w.conns i with extraInt := 0 }) := calm_setConn w ⟨id, id⟩
      exact hset.trans (calm_failConnection _ i)
    | allFailed => exact calm_directScheduleRetry w i _
    | linked => exact calm_linkDc w i ⟨id, id⟩ hi
  · exact .refl w

end Handlers

/-! ### Steps that admit -/

theorem acceptHello_cases {i : ℕ} (hi : i < w.next) (s : ℕ) (cipherOk linked : Bool) :
    Calm w (acceptHello cfg w i s cipherOk linked) ∨
      (rejection cfg.workers w.now (w.tbl.slot s) (w.conns i).addr = none ∧
        acceptHello cfg w i s cipherOk linked = setConn w i { w.conns i with isTls := true }) := by
  unfold acceptHello
  split
  · next r _ =>
    have hset := calm_setSlot w (slotCalm_reject (w.tbl.slot s) r)
    refine .inl (hset.trans (calm_proxyConnection _ i ?_ linked))
    exact hi
  · next hrej =>
    split_ifs
    · exact .inr ⟨hrej, rfl⟩
    · exact .inl (calm_proxyConnection w i hi linked)

theorem relaying_directConnectToDc (dc : DcOutcome) :
    ((directConnectToDc w i dc).conns i).relaying = false := by
  have hdirect : (w.conns i).toDirect.relaying = false := by
    simp [Conn.relaying, Conn.isExt_eq_false (isDirectClient_toDirect _)]
  cases dc with
  | unknownDc => simp [directConnectToDc, failConnection, Conn.relaying]
  | allFailed =>
    have hcalm := (calm_directScheduleRetry (setConn w i (w.conns i).toDirect) i 0).conn i
    exact eq_false_iff.2 fun h => by simpa [hdirect] using hcalm.relaying h
  | linked =>
    show (({ setConn (newConn w (Conn.new .directDc (.conn i) ⟨0, 0⟩)) i
      { (w.conns i).toDirect with extra := .conn w.next } with active := w.active + 1 } :
        State).conns i).relaying = false
    rw [conns_setConn_self]
    exact hdirect

theorem conns_afterHeader {cfg : WorkerConfig} {w w₁ : State} {i : ℕ} (hi : i < w₁.next)
    (dc : DcOutcome) (hself : (w₁.conns i).isTls = true → (w.conns i).isTls = true)
    (hother : ∀ j, j ≠ i → w₁.conns j = w.conns j) :
    (∀ j, ((if cfg.directMode then directConnectToDc w₁ i dc else w₁).conns j).isTls = true →
        (w.conns j).isTls = true) ∧
      (cfg.directMode = true → ∀ j,
        ((if cfg.directMode then directConnectToDc w₁ i dc else w₁).conns j).relaying = true →
          (w.conns j).relaying = true) := by
  have hcalm := calm_directConnectToDc w₁ i hi dc
  have htls : ∀ j, (w₁.conns j).isTls = true → (w.conns j).isTls = true := by
    intro j hj
    by_cases hji : j = i
    · subst hji
      exact hself hj
    · rwa [hother j hji] at hj
  cases hmode : cfg.directMode with
  | false => exact ⟨htls, fun h => absurd h (by simp)⟩
  | true =>
    simp only [if_true]
    refine ⟨fun j hj => htls j ((hcalm.conn j).isTls hj), fun _ j hj => ?_⟩
    by_cases hji : j = i
    · subst hji
      rw [relaying_directConnectToDc] at hj
      cases hj
    · have := (hcalm.conn j).relaying hj
      rwa [hother j hji] at this

/-- **What a header that authenticates does**: it counts nobody, or it counts its connection once,
and a plain client has then passed the checks.  In direct mode the connection relays nothing through
a middle-end. -/
theorem acceptHeader_cases {i : ℕ} (hi : i < w.next) (s : ℕ) (dc : DcOutcome) :
    ((∀ s', SlotCalm (w.tbl.slot s') ((acceptHeader cfg w i s dc).tbl.slot s')) ∨
      (((w.conns i).isTls = false →
          rejection cfg.workers w.now (w.tbl.slot s) (w.conns i).addr = none) ∧
        (acceptHeader cfg w i s dc).tbl =
          (setSlot w s ((w.tbl.slot s).connect (w.conns i).addr)).tbl)) ∧
      (∀ j, ((acceptHeader cfg w i s dc).conns j).isTls = true → (w.conns j).isTls = true) ∧
      (cfg.directMode = true → ∀ j, ((acceptHeader cfg w i s dc).conns j).relaying = true →
        (w.conns j).relaying = true) := by
  unfold acceptHeader
  dsimp only
  split
  · next r _ =>
    have hset := calm_setSlot w (slotCalm_reject (w.tbl.slot s) r)
    have hcalm := hset.trans (calm_setConn _ (i := i) (Conn.calm_of_cError
      (d := { (w.conns i).handshake s with extraInt2 := 0, cError := true }) rfl rfl))
    exact ⟨.inl hcalm.slot, fun j => (hcalm.conn j).isTls, fun _ j => (hcalm.conn j).relaying⟩
  · next hrej =>
    have htbl : ∀ w₁ : State,
        (if cfg.directMode then directConnectToDc w₁ i dc else w₁).tbl = w₁.tbl := by
      intro w₁
      split_ifs
      · exact tbl_directConnectToDc w₁ i dc
      · rfl
    by_cases hs : s < maxSlots
    · rw [if_pos hs]
      refine ⟨.inr ⟨fun hplain => ?_, htbl _⟩, conns_afterHeader ?_ dc ?_ fun j hj => ?_⟩
      · simpa [hplain, hs] using hrej
      · exact hi
      · rw [countConnection, conns_setConn_self]
        exact id
      · rw [countConnection, conns_setConn_of_ne _ _ hj, setSlot_conns]
    · rw [if_neg hs]
      refine ⟨.inl fun s' => ?_, conns_afterHeader ?_ dc ?_ fun j hj => ?_⟩
      · rw [htbl]
        exact .refl _
      · exact hi
      · rw [conns_setConn_self]
        exact id
      · exact conns_setConn_of_ne _ _ hj

/-! ### Data -/

/-- The slot of the connection's secret. -/
def Conn.secret (c : Conn) : Option ℕ :=
  if 0 < c.extraInt2 ∧ c.extraInt2 ≤ maxSlots then some (c.extraInt2 - 1) else none

/-- The slot after `bytes` bytes were counted, in one direction or the other. -/
inductive Charged (x : Slot) (bytes : ℕ) : Slot → Prop
  | received : Charged x bytes { x with bytesReceived := x.bytesReceived + bytes }
  | sent : Charged x bytes { x with bytesSent := x.bytesSent + bytes }

/-- The slot under which `parse_execute` hands on the bytes of connection `i`, if it does and they
are a client's: to a middle-end (`ext_rpcs_execute`), or to the other side of a direct client
(`tcp_direct_relay`), when the quota allows it. -/
def relayedUnder (cfg : WorkerConfig) (w : State) (i bytes : ℕ) : Option ℕ :=
  match (w.conns i).type with
  | .extServer | .extServerDrs => if (w.conns i).handshaken then (w.conns i).secret else none
  | .directClient | .directClientDrs =>
    match (w.conns i).extra with
    | .conn e =>
      if (w.conns e).crypto then (w.conns i).secret.filter fun s =>
        !secretOverQuota cfg.workers { w.tbl.slot s with
          bytesReceived := (w.tbl.slot s).bytesReceived + bytes }
      else none
    | _ => none
  | .directDc =>
    match (w.conns i).extra with
    | .conn client => (w.conns client).secret.filter fun s =>
        !secretOverQuota cfg.workers { w.tbl.slot s with
          bytesSent := (w.tbl.slot s).bytesSent + bytes }
    | _ => none
  | .proxyPass => none

/-- What a pass over the input of connection `i` does to the counters: nothing, and then it hands on
no byte under a secret unless the connection relays through a middle-end; or it counts the bytes,
and hands them on or fails by the quota. -/
inductive ParseOutcome (cfg : WorkerConfig) (w : State) (i bytes : ℕ) : State → Prop
  | calm {w' : State} (h : Calm w w')
      (hnone : (w.conns i).isExt = false → 0 < bytes → relayedUnder cfg w i bytes = none) :
      ParseOutcome cfg w i bytes w'
  | refused {s : ℕ} {x : Slot} (hx : Charged (w.tbl.slot s) bytes x) (hbytes : 0 < bytes)
      (hnone : relayedUnder cfg w i bytes = none) :
      ParseOutcome cfg w i bytes (failConnection (setSlot w s (x.reject .quota)) i)
  | relayed {s : ℕ} {x : Slot} (hx : Charged (w.tbl.slot s) bytes x) (hbytes : 0 < bytes)
      (hquota : secretOverQuota cfg.workers x = false)
      (hsome : relayedUnder cfg w i bytes = some s) :
      ParseOutcome cfg w i bytes (setSlot w s x)

theorem parseOutcome_charge (c : Conn) {charge : Slot → Slot} (hx : ∀ x, Charged x bytes (charge x))
    (hrel : relayedUnder cfg w i bytes =
      c.secret.filter fun s => !secretOverQuota cfg.workers (charge (w.tbl.slot s))) :
    ParseOutcome cfg w i bytes
      (if 0 < c.extraInt2 ∧ c.extraInt2 ≤ maxSlots ∧ 0 < bytes then
        let x := charge (w.tbl.slot (c.extraInt2 - 1))
        if secretOverQuota cfg.workers x then
          failConnection (setSlot w (c.extraInt2 - 1) (x.reject .quota)) i
        else setSlot w (c.extraInt2 - 1) x
      else w) := by
  dsimp only
  split_ifs with hsid hover
  · refine .refused (hx _) hsid.2.2 ?_
    rw [hrel, Conn.secret, if_pos ⟨hsid.1, hsid.2.1⟩]
    simp [Option.filter, hover]
  · refine .relayed (hx _) hsid.2.2 (by simpa using hover) ?_
    rw [hrel, Conn.secret, if_pos ⟨hsid.1, hsid.2.1⟩]
    simpa [Option.filter] using hover
  · refine .calm (.refl w) fun _ hbytes => ?_
    rw [hrel, Conn.secret, if_neg (fun h => hsid ⟨h.1, h.2, hbytes⟩)]
    simp [Option.filter]

theorem parseOutcome_client (htype : (w.conns i).isDirectClient = true) :
    ParseOutcome cfg w i bytes (tcpDirectClientParseExecute cfg w i bytes) := by
  have hrel : relayedUnder cfg w i bytes = match (w.conns i).extra with
      | .conn e =>
        if (w.conns e).crypto then (w.conns i).secret.filter fun s =>
          !secretOverQuota cfg.workers { w.tbl.slot s with
            bytesReceived := (w.tbl.slot s).bytesReceived + bytes }
        else none
      | _ => none := by
    simp only [Conn.isDirectClient, or_eq_true, decide_eq_true_eq] at htype
    rcases htype with htype | htype <;> rw [relayedUnder, htype]
  unfold tcpDirectClientParseExecute
  cases hextra : (w.conns i).extra with
  | null =>
    rw [hextra] at hrel
    split_ifs
    · exact .calm (.refl w) fun _ _ => hrel
    · exact .calm (calm_failConnection w i) fun _ _ => hrel
  | rpcFuncs =>
    rw [hextra] at hrel
    exact .calm ((Calm.refl w).congr rfl rfl) fun _ _ => hrel
  | conn e =>
    rw [hextra] at hrel
    dsimp only at hrel ⊢
    cases hcrypto : (w.conns e).crypto with
    | false =>
      rw [hcrypto] at hrel
      exact .calm (.refl w) fun _ _ => hrel
    | true =>
      rw [hcrypto] at hrel
      exact parseOutcome_charge cfg w i bytes (w.conns i) (fun _ => .received) hrel

theorem parseOutcome_dc (htype : (w.conns i).type = .directDc) :
    ParseOutcome cfg w i bytes (tcpDirectDcParseExecute cfg w i bytes) := by
  unfold tcpDirectDcParseExecute
  cases hextra : (w.conns i).extra with
  | null => exact .calm (calm_failConnection w i) fun _ _ => by rw [relayedUnder, htype, hextra]
  | rpcFuncs =>
    exact .calm ((Calm.refl w).congr rfl rfl) fun _ _ => by rw [relayedUnder, htype, hextra]
  | conn client =>
    refine parseOutcome_charge cfg w i bytes (w.conns client) (fun _ => .sent) ?_
    rw [relayedUnder, htype, hextra]

theorem parseOutcome_parseExecute : ParseOutcome cfg w i bytes (parseExecute cfg w i bytes) := by
  unfold parseExecute
  cases htype : (w.conns i).type with
  | extServer => exact .calm (.refl w) fun h => absurd h (by simp [Conn.isExt, htype])
  | extServerDrs => exact .calm (.refl w) fun h => absurd h (by simp [Conn.isExt, htype])
  | directClient => exact parseOutcome_client cfg w i bytes (by simp [Conn.isDirectClient, htype])
  | directClientDrs => exact parseOutcome_client cfg w i bytes (by simp [Conn.isDirectClient, htype])
  | directDc => exact parseOutcome_dc cfg w i bytes htype
  | proxyPass =>
    have hnone : relayedUnder cfg w i bytes = none := by rw [relayedUnder, htype]
    dsimp only
    unfold tcpProxyPassParseExecute
    split
    · exact .calm (calm_failConnection w i) fun _ _ => hnone
    · exact .calm ((Calm.refl w).congr rfl rfl) fun _ _ => hnone
    · exact .calm (.refl w) fun _ _ => hnone

/-! ### Events -/

/-- **What an event does**: it is calm, or it is one of the two steps that the checks guard, or it
moves data, or it changes the table of secrets. -/
theorem calm_or_acts {cfg : WorkerConfig} {w w' : State} {e : Event}
    (h : step cfg w e = some w') :
    Calm w w' ∨
      (∃ i s cipherOk linked, e = .hello i s cipherOk linked ∧
        (w.tbl.slot s).state ≠ .free ∧
        rejection cfg.workers w.now (w.tbl.slot s) (w.conns i).addr = none ∧
        w' = setConn w i { w.conns i with isTls := true }) ∨
      (∃ i s dc, e = .header i s dc ∧ answerable w.tbl s = true ∧ i < w.next ∧
        w' = acceptHeader cfg w i s dc) ∨
      (∃ i bytes, e = .parse i bytes ∧ (w.conns i).cError = false ∧
        w' = parseExecute cfg w i bytes) ∨
      (∃ entries, e = .reload entries ∧ w' = { w with tbl := (reloadExtSecrets w.tbl entries).2 }) ∨
      ∃ s, e = .release s ∧ w' = { w with tbl := releaseSlotIfEmpty w.tbl s } := by
  obtain ⟨hen, rfl⟩ := step_eq_some h
  cases e with
  | accept addr => exact .inl (calm_newConn w _ _ _)
  | hello i s cipherOk linked =>
    rcases acceptHello_cases cfg w hen.1.1.1.1 s cipherOk linked with hq | ⟨hrej, heq⟩
    · exact .inl hq
    · exact .inr (.inl ⟨i, s, cipherOk, linked, rfl, hen.2, hrej, heq⟩)
  | header i s dc =>
    exact .inr (.inr (.inl ⟨i, s, dc, rfl, hen.2, hen.1.1, rfl⟩))
  | headerUndecipherable i => exact .inl (calm_setConn w (Conn.calm_of_cError rfl rfl))
  | toBackend i linked =>
    exact .inl (calm_proxyConnection w i hen.1 linked)
  | fail i => exact .inl (calm_failConnection w i)
  | close i => exact .inl (calm_closeConnection w i)
  | notify =>
    simp only [handle]
    split
    · exact .inl (.refl w)
    · next i rest _ =>
      have hpop : Calm w { w with closeQueue := rest } := (Calm.refl w).congr rfl rfl
      exact .inl (hpop.trans (calm_mtprotoExtRpcClose _ i))
  | alarm i resumed dc =>
    exact .inl (calm_directClientAlarm w i hen.1.1 resumed dc)
  | dcConnected i =>
    exact .inl (calm_setConn w ⟨id, id⟩)
  | parse i bytes =>
    exact .inr (.inr (.inr (.inl ⟨i, bytes, rfl, hen.2, rfl⟩)))
  | reload entries => exact .inr (.inr (.inr (.inr (.inl ⟨entries, rfl, rfl⟩))))
  | release s => exact .inr (.inr (.inr (.inr (.inr ⟨s, rfl, rfl⟩))))
  | tick now => exact .inl ((Calm.refl w).congr rfl rfl)

end Mtbolt.Worker
