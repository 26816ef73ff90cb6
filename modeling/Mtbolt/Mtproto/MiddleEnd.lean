import Mtbolt.Mtproto.ExtConn

/-!
# Packets of a middle-end

A middle-end answers the queries of many clients over one connection and names the client by
`out_conn_id`.  `process_client_packet` runs for each of its packets in the engine thread.

The connections that a packet has an effect on are those of clients; the effects are collected in
a list, and an assertion that fails makes the result `none`.
-/

namespace Mtbolt.Mtproto

open Words Option List

/-! ### Constants -/

/-- `RPC_PONG`. -/
def rpcPong : BitVec 32 := 0x8430eaa7#32

/-- `RPC_PROXY_ANS`. -/
def rpcProxyAns : BitVec 32 := 0x4403da0d#32

/-- `RPC_SIMPLE_ACK`. -/
def rpcSimpleAck : BitVec 32 := 0x3bac409b#32

/-- `RPC_CLOSE_EXT`. -/
def rpcCloseExt : BitVec 32 := 0x5eb634a2#32

/-! ### Clients -/

/-- A client's connection: `RPC_F_COMPACT`, `RPC_F_MEDIUM` and `RPC_F_PAD` of its flags, whether
it is a TLS connection that has not seen its first record, the number of its next packet in the
full transport, and the bytes in its buffers. -/
structure Client where
  compact : Bool
  medium : Bool
  pad : Bool
  tlsUninited : Bool
  outPacketNum : BitVec 32
  usedBytes : ℕ
  deriving DecidableEq, Repr

/-- What the engine thread sees: `connection_get_by_fd_generation` for clients, and the limit of
`check_conn_buffers`. -/
structure EngineEnv where
  client : ConnId → Option Client
  maxConnectionBuffer : ℕ

/-- The random numbers of `push_rpc_confirmation`: the first coin, and the extra word of each of
the two messages, if the coin for it says so. -/
structure AckRandom where
  coin : Bool
  first : Option (BitVec 32)
  second : Option (BitVec 32)
  deriving DecidableEq, Repr

/-- `tcp_rpc_conn_send`: the message that is queued.  Its length must be a multiple of four. -/
def tcpRpcConnSend (raw : List UInt8) : Option (List UInt8) :=
  if raw.length % 4 = 0 then some raw else none

/-- `push_rpc_confirmation`: the messages that are queued. -/
def pushRpcConfirmation (d : Client) (r : AckRandom) (confirm : BitVec 32) :
    Option (List (List UInt8)) :=
  if r.coin || !d.pad then some [0xdd :: le32Bytes confirm]
  else do
    let m ← tcpRpcConnSend (le32Bytes (-1) ++ le32Bytes confirm ++ r.first.elim [] le32Bytes)
    let m' ← tcpRpcConnSend (le32Bytes 0 ++ r.second.elim [] le32Bytes)
    return [m, m']

/-- `check_conn_buffers`, as a truth value: the buffers hold no more than the limit. -/
def checkConnBuffers (env : EngineEnv) (d : Client) : Bool :=
  d.usedBytes ≤ env.maxConnectionBuffer

/-! ### The handler -/

/-- What the handler does apart from changing the table.  A client is named by its entry. -/
inductive Effect
  | queue (ex : ExtConnection) (raw : List UInt8)
  | failClient (ex : ExtConnection)
  | notifyRemoteClosed (outConnId : BitVec 64)
  deriving DecidableEq, Repr

/-- The session that an effect acts on. -/
def Effect.session : Effect → Option ExtConnection
  | .queue ex _ => some ex
  | .failClient ex => some ex
  | .notifyRemoteClosed _ => none

/-- The lookup for answers and acknowledgements: the entry has to belong to `c`, and its client
has to be there. -/
def ownClient (env : EngineEnv) (t : ExtTable) (c : ConnId) (outConnId : BitVec 64) :
    Option (ExtConnection × Client) :=
  match findExtConnectionByOutConnId t outConnId with
  | none => none
  | some ex => if ex.out = c then (env.client ex.inn).map fun d => (ex, d) else none

/-- The room in an output context, `TL_OUT_REMAINING`. -/
def tlOutRemaining : ℕ := 2 ^ 27

/-- `client_send_message` for the client of `ex`.  The answer is copied to an output context, which
it must fit, and queued when the context is closed. -/
def clientSendMessage (env : EngineEnv) (ex : ExtConnection) (d : Client) (answer : List UInt8) :
    Option (List Effect) :=
  if checkConnBuffers env d then
    -- the second check of the buffers sees what the first one saw: the answer is in `out_queue`
    if answer.length ≤ tlOutRemaining then (tcpRpcConnSend answer).map fun m => [.queue ex m]
    else none
  else some [.failClient ex]

/-- The effects of `RPC_PROXY_ANS`. -/
def proxyAns (env : EngineEnv) (t : ExtTable) (c : ConnId) (outConnId : BitVec 64)
    (answer : List UInt8) : Option (List Effect) :=
  match ownClient env t c outConnId with
  | none => some [.notifyRemoteClosed outConnId]
  | some (ex, d) => clientSendMessage env ex d answer

/-- The effects of `RPC_SIMPLE_ACK`. -/
def simpleAck (env : EngineEnv) (t : ExtTable) (c : ConnId) (r : AckRandom)
    (outConnId : BitVec 64) (confirm : BitVec 32) : Option (List Effect) :=
  match ownClient env t c outConnId with
  | none => some [.notifyRemoteClosed outConnId]
  | some (ex, d) =>
    let confirm := if d.compact then le32 (le32Bytes confirm).reverse else confirm
    (pushRpcConfirmation d r confirm).map fun ms => ms.map (.queue ex)

/-- `RPC_CLOSE_EXT`: the entry is removed, with a notification of the client's side only. -/
def closeExt (env : EngineEnv) (t : ExtTable) (outConnId : BitVec 64) : ExtTable × List Effect :=
  match findExtConnectionByOutConnId t outConnId with
  | none => (t, [])
  | some ex =>
    (removeExtConnection t ex, if (env.client ex.inn).isSome then [.failClient ex] else [])

/-- `process_client_packet` on a packet of the connection `c`. -/
def processClientPacket (env : EngineEnv) (t : ExtTable) (c : ConnId) (r : AckRandom)
    (msg : List UInt8) : Option (ExtTable × List Effect) :=
  let op := le32 msg
  if op = rpcPong then some (t, [])
  else if op = rpcProxyAns then
    if msg.length ≥ 16 then
      (proxyAns env t c (le64 (msg.drop 8)) (msg.drop 16)).map fun es => (t, es)
    else some (t, [])
  else if op = rpcSimpleAck then
    if msg.length = 16 then
      (simpleAck env t c r (le64 (msg.drop 4)) (le32 (msg.drop 12))).map fun es => (t, es)
    else some (t, [])
  else if op = rpcCloseExt then
    if msg.length = 12 then some (closeExt env t (le64 (msg.drop 4))) else some (t, [])
  else some (t, [])

/-! ### Isolation -/

/-- Every entry that has gone, and every session that was written to or closed, belongs to the
connection `c`. -/
structure Isolated (c : ConnId) (t t' : ExtTable) (es : List Effect) : Prop where
  removed : ∀ ex ∈ t.entries, ex ∉ t'.entries → ex.out = c
  sessions : ∀ eff ∈ es, ∀ ex, eff.session = some ex → ex.out = c

variable {c : ConnId} {t : ExtTable} {es : List Effect} {env : EngineEnv} {outConnId : BitVec 64}

theorem isolated_of_sessions (h : ∀ eff ∈ es, ∀ ex, eff.session = some ex → ex.out = c) :
    Isolated c t t es :=
  ⟨fun _ hmem hgone => absurd hmem hgone, h⟩

theorem isolated_nil (c : ConnId) (t : ExtTable) : Isolated c t t [] :=
  isolated_of_sessions (by simp)

theorem ownClient_out {ex : ExtConnection} {d : Client}
    (h : ownClient env t c outConnId = some (ex, d)) : ex.out = c := by
  unfold ownClient at h
  split at h
  · cases h
  · split_ifs at h with hout
    obtain ⟨d', -, heq⟩ := map_eq_some_iff.1 h
    cases heq
    exact hout

theorem isolated_proxyAns {answer : List UInt8} (h : proxyAns env t c outConnId answer = some es) :
    Isolated c t t es := by
  apply isolated_of_sessions
  intro eff heff ex hsession
  unfold proxyAns at h
  split at h
  · cases h
    rw [mem_singleton.1 heff] at hsession
    cases hsession
  · next ex' d hown =>
    rw [← ownClient_out hown]
    unfold clientSendMessage at h
    split_ifs at h
    · obtain ⟨m, -, rfl⟩ := map_eq_some_iff.1 h
      rw [mem_singleton.1 heff] at hsession
      cases hsession
      rfl
    · cases h
      rw [mem_singleton.1 heff] at hsession
      cases hsession
      rfl

theorem isolated_simpleAck {r : AckRandom} {confirm : BitVec 32}
    (h : simpleAck env t c r outConnId confirm = some es) : Isolated c t t es := by
  apply isolated_of_sessions
  intro eff heff ex hsession
  unfold simpleAck at h
  split at h
  · cases h
    rw [mem_singleton.1 heff] at hsession
    cases hsession
  · next ex' d hown =>
    obtain ⟨ms, -, rfl⟩ := map_eq_some_iff.1 h
    obtain ⟨m, -, rfl⟩ := mem_map.1 heff
    cases hsession
    exact ownClient_out hown

/-- A close message is about one session, and keeps to its owner iff the session is the owner's. -/
theorem isolated_closeExt_iff :
    Isolated c t (closeExt env t outConnId).1 (closeExt env t outConnId).2 ↔
      ∀ ex ∈ t.entries, ex.outConnId = outConnId → ex.out = c := by
  unfold closeExt
  cases hfind : findExtConnectionByOutConnId t outConnId with
  | none =>
    refine iff_of_true (isolated_nil c t) fun ex hmem hid => ?_
    rw [findExtConnectionByOutConnId_eq_some_iff.2 ⟨hmem, hid⟩] at hfind
    cases hfind
  | some ex =>
    obtain ⟨hmem, hid⟩ := findExtConnectionByOutConnId_eq_some_iff.1 hfind
    dsimp only
    constructor
    · intro h x hx hxid
      have hgone : ex ∉ (removeExtConnection t ex).entries := fun hin =>
        (mem_removeExtConnection.1 hin).2 rfl
      have hfound := findExtConnectionByOutConnId_eq_some_iff.2 ⟨hx, hxid⟩
      rw [hfind] at hfound
      cases hfound
      exact h.removed ex hmem hgone
    · intro h
      have hout := h ex hmem hid
      constructor
      · intro x hx hgone
        -- only the entry with this descriptor has gone
        have hfd : x.inn.fd = ex.inn.fd := by
          by_contra hne
          exact hgone (mem_removeExtConnection.2 ⟨hx, hne⟩)
        rw [inj_on_of_nodup_map t.inFds hx hmem hfd]
        exact hout
      · intro eff heff x hsession
        split_ifs at heff
        · rw [mem_singleton.1 heff] at hsession
          cases hsession
          exact hout
        · cases heff

/-- The packet is a close message for a session of another middle-end. -/
def ClosesForeign (t : ExtTable) (c : ConnId) (msg : List UInt8) : Prop :=
  le32 msg = rpcCloseExt ∧ msg.length = 12 ∧
    ∃ ex ∈ t.entries, ex.outConnId = le64 (msg.drop 4) ∧ ex.out ≠ c

/-- **Middle-ends are isolated from each other except for close messages.**  A packet removes,
closes and writes to sessions of its own connection only, iff it is no close message that names a
session of another one. -/
theorem packet_isolated_iff (env : EngineEnv) (t : ExtTable) (c : ConnId) (r : AckRandom)
    (msg : List UInt8) :
    (∀ t' es, processClientPacket env t c r msg = some (t', es) → Isolated c t t' es) ↔
      ¬ ClosesForeign t c msg := by
  have hother {o : Option (ExtTable × List Effect)} (hop : le32 msg ≠ rpcCloseExt)
      (h : ∀ t' es, o = some (t', es) → Isolated c t t' es) :
      (∀ t' es, o = some (t', es) → Isolated c t t' es) ↔ ¬ ClosesForeign t c msg :=
    iff_of_true h fun hclose => hop hclose.1
  have hsame (t' : ExtTable) (es : List Effect) (h : some (t, []) = some (t', es)) :
      Isolated c t t' es := by
    cases h
    exact isolated_nil c t
  unfold processClientPacket
  dsimp only
  split_ifs with hpong hans hlen hack hlen hclose hlen
  · exact hother (by rw [hpong]; decide) hsame
  · refine hother (by rw [hans]; decide) fun t' es h => ?_
    obtain ⟨es', hes, heq⟩ := map_eq_some_iff.1 h
    cases heq
    exact isolated_proxyAns hes
  · exact hother (by rw [hans]; decide) hsame
  · refine hother (by rw [hack]; decide) fun t' es h => ?_
    obtain ⟨es', hes, heq⟩ := map_eq_some_iff.1 h
    cases heq
    exact isolated_simpleAck hes
  · exact hother (by rw [hack]; decide) hsame
  · constructor
    · rintro h ⟨-, -, ex, hmem, hid, hout⟩
      exact hout (isolated_closeExt_iff.1 (h _ _ rfl) ex hmem hid)
    · intro h t' es heq
      obtain ⟨rfl, rfl⟩ := Prod.mk.inj (some.inj heq.symm)
      refine isolated_closeExt_iff.2 fun ex hmem hid => ?_
      by_contra hout
      exact h ⟨hclose, hlen, ex, hmem, hid, hout⟩
  · exact iff_of_true hsame fun h => hlen h.2.1
  · exact hother hclose hsame

/-- A close message for the session with the identifier `outConnId`. -/
def closeExtPacket (outConnId : BitVec 64) : List UInt8 :=
  le32Bytes rpcCloseExt ++ le32Bytes (outConnId.setWidth 32) ++
    le32Bytes ((outConnId >>> 32).setWidth 32)

/-- The client with descriptor 10 is served by the middle-end with descriptor 5.  The middle-end
with descriptor 6 names its session in a close message: the entry goes and the client is failed. -/
theorem close_ext_reaches_foreign_session :
    (createExtConnection .empty ⟨10, 1⟩ ⟨5, 1⟩ 0 []).any (fun (ex, t) =>
      ex.out ≠ ⟨6, 2⟩ &&
        (processClientPacket ⟨fun _ => some ⟨true, false, false, false, 0, 0⟩, 2 ^ 25⟩ t ⟨6, 2⟩
          ⟨true, none, none⟩ (closeExtPacket ex.outConnId)).any fun (t', es) =>
            t'.entries = [] && es = [.failClient ex]) = true := by
  decide +kernel

end Mtbolt.Mtproto
