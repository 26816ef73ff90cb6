import Mtbolt.Mtproto.MiddleEnd
import Mtbolt.Rpc.Client

/-!
# The way of an answer

A packet of a middle-end is accepted by `tcp_rpcc_parse_execute`, which knows the framing of the
RPC protocol and no limit on the length (`mtfront_rpc_client` has no `max_packet_len`); it is
handled by `process_client_packet`, and what that queues for a client is written by
`tcp_rpc_write_packet_compact`, which asserts the limits of the client's transport.
-/

namespace Mtbolt.Mtproto

open EventRun Net Rpc Words List Option

/-! ### What the reader accepts -/

section Reader

variable {κ : Type}

/-- The lengths that the reader accepts. -/
def AcceptedLength (n : ℕ) : Prop := 16 ≤ n ∧ n % 4 = 0 ∧ n < 2 ^ 31

/-- Every packet that was handled has an accepted length. -/
def WellSized (c : RpcConn κ) : Prop := ∀ p ∈ c.data.handled, AcceptedLength p.bytes.length

/-- The connection at the end of a pass. -/
def passConn : PassResult κ → RpcConn κ
  | .stop c _ => c
  | .again c => c

theorem handled_handlePacket (env : RpcEnv κ) (c : RpcConn κ) (packet : Packet κ)
    (msg : List UInt8) :
    (passConn (handlePacket env c packet msg)).data.handled ⊆ c.data.handled ++ [packet] := by
  have hnonce (c : RpcConn κ) :
      (tcpRpccProcessNoncePacket env c msg).1.data.handled = c.data.handled :=
    view_processNonce (·.data.handled) env c msg (fun _ => rfl) fun _ h => h.handled
  have hcount : (countPacket c packet).data.handled = c.data.handled ++ [packet] := rfl
  have hlogged {l : List (Packet κ)} (h : l = c.data.handled ++ [packet]) :
      l ⊆ c.data.handled ++ [packet] := fun _ hp => h ▸ hp
  unfold handlePacket
  dsimp only
  split_ifs
  · exact hlogged (((sendHandshake_spec env _).1.handled.trans (hnonce _)).trans hcount)
  · exact hlogged (((sendHandshake_spec env _).1.handled.trans (hnonce _)).trans hcount)
  · exact hlogged ((hnonce _).trans hcount)
  · exact hlogged ((hnonce _).trans hcount)
  · exact hlogged ((processHandshake_spec env _ msg).1.handled.trans hcount)
  · exact hlogged ((processHandshake_spec env _ msg).1.handled.trans hcount)
  · exact subset_append_left _ _
  · exact subset_append_left _ _
  · exact hlogged hcount
  · exact hlogged hcount

variable {c : RpcConn κ}

theorem wellSized_pass (env : RpcEnv κ) (hc : WellSized c) :
    WellSized (passConn (rpccPass env c)) := by
  have hspec := passSpec_rpccPass env c
  generalize rpccPass env c = r at hspec ⊢
  cases hspec with
  | packet n msg hn hlen =>
    intro p hp
    rcases mem_append.1 (handled_handlePacket env _ _ _ hp) with hp | hp
    · exact hc p hp
    · -- the packet is split off at its own length word
      rw [mem_singleton.1 hp]
      rwa [length_take, min_eq_left hlen]
  | _ => exact hc

theorem wellSized_parseExecute (env : RpcEnv κ) (hc : WellSized c) :
    WellSized (tcpRpccParseExecute env c).1 := by
  refine parseLoop_rule (fun _ => id) (fun c c' res hc h => ?_) (fun c c' hc h => ?_) _ hc
  all_goals
    have hpass := wellSized_pass env hc
    rw [h] at hpass
    exact hpass

theorem wellSized_reader (env : RpcEnv κ) (hc : WellSized c) :
    WellSized (reader (ctTcpRpcClient env) c) := by
  refine reader_invariant (I := WellSized) (fun c hc => ?_) (fun c hc _ => ?_) (fun c hc => ?_)
    (fun _ _ hc => hc) (fun c hc _ => wellSized_parseExecute env hc) hc
  · unfold WellSized
    rw [ConnInfo.data_popAll]
    exact hc
  · show WellSized (cpuTcpAesCryptoDecryptInput env c).1
    unfold cpuTcpAesCryptoDecryptInput
    split <;> exact hc
  · unfold WellSized
    rw [ConnInfo.data_applySkip]
    exact hc

/-- **Every packet that an outbound connection handles has an accepted length**, whatever bytes the
other side sends. -/
theorem wellSized_run {env : RpcEnv κ} {flags : CryptoFlags} {es : List RpcEvent}
    (hrun : run (rpccStep env flags) (tcpRpccInitOutbound flags) es = some c) : WellSized c := by
  refine run_invariant (I := WellSized) (fun c e c' hc _ h => ?_) (fun _ hp => by cases hp)
    (along_true _ es) hrun
  cases e with
  | run =>
    cases h
    exact wellSized_reader env hc
  | _ =>
    cases h
    exact hc

/-- The content of a packet: what is left without length, number and checksum. -/
def packetContent (p : Packet κ) : List UInt8 := (rwmFetchDataBack (vals p.bytes) 4).2.drop 8

theorem length_packetContent (p : Packet κ) : (packetContent p).length = p.bytes.length - 12 := by
  simp only [packetContent, rwmFetchDataBack, vals, length_drop, length_take, length_map]
  omega

end Reader

/-! ### The writer -/

/-- The random numbers of the writer: the bytes of the padding, and its length. -/
structure PadRandom where
  x : BitVec 32
  y : BitVec 32
  deriving DecidableEq, Repr

/-- The padding: at most three bytes. -/
def PadRandom.bytes (r : PadRandom) : List UInt8 := (le32Bytes r.x).take (r.y &&& 3).toNat

/-- `tcp_rpc_write_packet`, the full transport; `crc` is the connection's checksum. -/
def tcpRpcWritePacket (crc : List UInt8 → BitVec 32) (d : Client) (raw : List UInt8) :
    List UInt8 :=
  let r := le32Bytes (BitVec.ofNat 32 (raw.length + 12)) ++ le32Bytes d.outPacketNum ++ raw
  r ++ le32Bytes (crc r)

/-- The end of the writer: the length in front of a message. -/
def frameMessage (d : Client) (raw : List UInt8) : List UInt8 :=
  let len := BitVec.ofNat 32 raw.length
  if d.medium then le32Bytes len ++ raw
  else if len.toInt ≤ 0x7e * 4 then (le32Bytes (len.sshiftRight 2)).take 1 ++ raw
  else le32Bytes ((len <<< 6) ||| 0x7f) ++ raw

/-- The framing of a message, padded if it has to be, with its assertions. -/
def writeFramed (d : Client) (raw : List UInt8) : Option (List UInt8) :=
  let len := BitVec.ofNat 32 raw.length
  if len &&& 0xfc000000#32 ≠ 0#32 then none
  else if !d.pad ∧ len &&& 3#32 ≠ 0#32 then none
  else some (frameMessage d raw)

/-- `tcp_rpc_write_packet_compact`: the bytes that are added to `out`. -/
def tcpRpcWritePacketCompact (crc : List UInt8 → BitVec 32) (d : Client) (r : PadRandom)
    (raw : List UInt8) : Option (List UInt8) :=
  if raw.length = 5 then
    if (rwmFetchData raw 1).1 = [0xdd] then some (rwmFetchData raw 1).2 else none
  else if d.tlsUninited then some raw
  else if !(d.compact || d.medium) then some (tcpRpcWritePacket crc d raw)
  else writeFramed d (if d.pad then raw ++ r.bytes else raw)

/-- The client's messages are framed, and their length is limited. -/
def Client.framed (d : Client) : Bool := (d.compact || d.medium) && !d.tlsUninited

theorem length_padBytes (r : PadRandom) : r.bytes.length ≤ 3 := by
  have : (r.y &&& 3).toNat ≤ 3 := by
    exact Nat.and_le_right
  simp only [PadRandom.bytes, length_take, length_le32Bytes]
  omega

variable {d : Client} {crc : List UInt8 → BitVec 32} {env : EngineEnv} {t : ExtTable} {c : ConnId}
  {n : ℕ}

variable {raw : List UInt8} {outConnId : BitVec 64} {ex : ExtConnection}
  {atWrite : ExtConnection → Client}

theorem writeFramed_isSome_iff (hmod : d.pad = false → raw.length % 4 = 0)
    (hlt : raw.length < 2 ^ 32) : (writeFramed d raw).isSome ↔ raw.length < 2 ^ 26 := by
  have hlen : (BitVec.ofNat 32 raw.length).toNat = raw.length := by
    rw [BitVec.toNat_ofNat, Nat.mod_eq_of_lt hlt]
  have hmask : BitVec.ofNat 32 raw.length &&& 0xfc000000#32 = 0#32 ↔ raw.length < 2 ^ 26 := by
    have h := and_not_low_eq_zero_iff (BitVec.ofNat 32 raw.length) (k := 26) (by decide)
    rw [hlen] at h
    exact h
  have hlow : ¬ (!d.pad ∧ BitVec.ofNat 32 raw.length &&& 3#32 ≠ 0#32) := by
    rintro ⟨hpad, hne⟩
    rw [ne_eq, and_three_eq_zero_iff, hlen] at hne
    exact hne (hmod (by simpa using hpad))
  unfold writeFramed
  dsimp only
  split_ifs with h
  · exact iff_of_false (by simp) (mt hmask.2 h)
  · exact iff_of_true rfl (hmask.1 (not_not.1 h))

/-- **The writer on a message of whole words**: it passes unless it has to be framed and is `2 ^ 26`
bytes or longer, padded or not. -/
theorem writePacketCompact_isSome_iff {r : PadRandom} (hmod : raw.length % 4 = 0)
    (hlt : raw.length < 2 ^ 31) :
    (tcpRpcWritePacketCompact crc d r raw).isSome ↔ (d.framed = true → raw.length < 2 ^ 26) := by
  unfold tcpRpcWritePacketCompact Client.framed
  rw [if_neg (by omega : raw.length ≠ 5)]
  split_ifs with htls hfull hpad
  · simp [htls]
  · simp only [Bool.not_eq_true', Bool.or_eq_false_iff] at hfull
    simp [hfull]
  · -- at most three bytes on top of whole words
    have hbytes := length_padBytes r
    have hlen : (raw ++ r.bytes).length = raw.length + r.bytes.length := length_append
    rw [writeFramed_isSome_iff (by simp [hpad]) (by omega)]
    simp only [Bool.not_eq_true', Bool.not_eq_false] at hfull htls
    simp only [hfull, htls, Bool.not_false, Bool.and_self, true_implies]
    omega
  · rw [writeFramed_isSome_iff (fun _ => hmod) (by omega)]
    simp only [Bool.not_eq_true', Bool.not_eq_false, Bool.not_eq_true] at hfull htls
    simp only [hfull, htls, Bool.not_false, Bool.and_self, true_implies]

/-! ### From the handler to the writer -/

/-- `rpcc_execute`, as a truth value: the packet is handed to the engine thread. -/
def rpccExecute (op : BitVec 32) : Bool :=
  op = rpcProxyAns || op = rpcSimpleAck || op = rpcCloseExt

/-- The job of a packet. -/
def clientPacketJobRun (env : EngineEnv) (t : ExtTable) (c : ConnId) (r : AckRandom)
    (msg : List UInt8) : Option (ExtTable × List Effect) :=
  if rpccExecute (le32 msg) then processClientPacket env t c r msg else some (t, [])

/-- The writer takes everything that was queued.  `atWrite` is the state in which it finds a
client. -/
def Writable (atWrite : ExtConnection → Client) (crc : List UInt8 → BitVec 32)
    (es : List Effect) : Prop :=
  ∀ ex raw, Effect.queue ex raw ∈ es → ∀ pad,
    (tcpRpcWritePacketCompact crc (atWrite ex) pad raw).isSome

/-- No assertion fails for a packet: the handler returns, and the writer takes what it has
queued. -/
def Survives (env : EngineEnv) (t : ExtTable) (c : ConnId) (r : AckRandom)
    (atWrite : ExtConnection → Client) (crc : List UInt8 → BitVec 32) (msg : List UInt8) : Prop :=
  ∃ t' es, clientPacketJobRun env t c r msg = some (t', es) ∧ Writable atWrite crc es

/-- The packet is an answer for a client of the connection `c` whose buffers are not over the
limit, and the answer is too long: `2 ^ 26` bytes or more for a client whose messages are framed,
more than `2 ^ 27` bytes for any client. -/
def TooLong (env : EngineEnv) (t : ExtTable) (c : ConnId) (atWrite : ExtConnection → Client)
    (msg : List UInt8) : Prop :=
  le32 msg = rpcProxyAns ∧ ∃ ex ∈ t.entries, ex.outConnId = le64 (msg.drop 8) ∧ ex.out = c ∧
    (∃ d, env.client ex.inn = some d ∧ d.usedBytes ≤ env.maxConnectionBuffer) ∧
    (2 ^ 27 + 16 < msg.length ∨ ((atWrite ex).framed = true ∧ 2 ^ 26 + 16 ≤ msg.length))

/-- The messages of an acknowledgement: a marked byte and a word, or a few whole words. -/
theorem pushRpcConfirmation_spec (d : Client) (r : AckRandom) (confirm : BitVec 32) :
    ∃ ms, pushRpcConfirmation d r confirm = some ms ∧
      ∀ m ∈ ms, m = 0xdd :: le32Bytes confirm ∨ (m.length % 4 = 0 ∧ m.length ≤ 12) := by
  have hword (o : Option (BitVec 32)) :
      (o.elim [] le32Bytes).length % 4 = 0 ∧ (o.elim [] le32Bytes).length ≤ 4 := by
    cases o <;> simp
  have hsend {m : List UInt8} (h : m.length % 4 = 0) : tcpRpcConnSend m = some m := if_pos h
  unfold pushRpcConfirmation
  split_ifs
  · exact ⟨_, rfl, fun m hm => .inl (mem_singleton.1 hm)⟩
  · obtain ⟨hmod, hle⟩ := hword r.first
    obtain ⟨hmod', hle'⟩ := hword r.second
    have hfirst : (le32Bytes (-1) ++ le32Bytes confirm ++ r.first.elim [] le32Bytes).length =
        8 + (r.first.elim [] le32Bytes).length := by simp; omega
    have hsecond : (le32Bytes 0 ++ r.second.elim [] le32Bytes).length =
        4 + (r.second.elim [] le32Bytes).length := by simp
    rw [hsend (by omega), hsend (by omega)]
    refine ⟨_, rfl, fun m hm => .inr ?_⟩
    rcases mem_cons.1 hm with rfl | hm
    · omega
    · rw [mem_singleton.1 hm]
      omega

theorem simpleAck_survives (env : EngineEnv) (t : ExtTable) (c : ConnId) (r : AckRandom)
    (atWrite : ExtConnection → Client) (crc : List UInt8 → BitVec 32) (outConnId : BitVec 64)
    (confirm : BitVec 32) :
    ∃ es, simpleAck env t c r outConnId confirm = some es ∧ Writable atWrite crc es := by
  unfold simpleAck
  split
  · exact ⟨_, rfl, fun ex raw hmem => by simp at hmem⟩
  · next ex d _ =>
    obtain ⟨ms, hms, hshape⟩ :=
      pushRpcConfirmation_spec d r (if d.compact then le32 (le32Bytes confirm).reverse else confirm)
    dsimp only
    rw [hms]
    refine ⟨_, rfl, fun ex' raw hmem pad => ?_⟩
    obtain ⟨m, hm, heq⟩ := mem_map.1 hmem
    cases heq
    rcases hshape raw hm with rfl | ⟨hmod, hle⟩
    · simp [tcpRpcWritePacketCompact, rwmFetchData]
    · exact (writePacketCompact_isSome_iff hmod (by omega)).2 fun _ => by omega

theorem ownClient_eq_some_iff :
    ownClient env t c outConnId = some (ex, d) ↔
      ex ∈ t.entries ∧ ex.outConnId = outConnId ∧ ex.out = c ∧ env.client ex.inn = some d := by
  unfold ownClient
  rw [← and_assoc, ← findExtConnectionByOutConnId_eq_some_iff]
  cases findExtConnectionByOutConnId t outConnId with
  | none => simp
  | some ex' =>
    by_cases hout : ex'.out = c
    · simp only [hout, if_true, map_eq_some_iff, Prod.mk.injEq, some.injEq]
      constructor
      · rintro ⟨d', hd, rfl, rfl⟩
        exact ⟨rfl, hout, hd⟩
      · rintro ⟨rfl, -, hd⟩
        exact ⟨d, hd, rfl, rfl⟩
    · simp only [hout, if_false, reduceCtorEq, some.injEq, false_iff]
      rintro ⟨rfl, h, -⟩
      exact hout h

theorem proxyAns_survives_iff {answer : List UInt8}
    (hown : ownClient env t c outConnId = some (ex, d)) (hmod : answer.length % 4 = 0)
    (hlt : answer.length < 2 ^ 31) :
    (∃ es, proxyAns env t c outConnId answer = some es ∧ Writable atWrite crc es) ↔
      ¬ (d.usedBytes ≤ env.maxConnectionBuffer ∧
        (2 ^ 27 < answer.length ∨ ((atWrite ex).framed = true ∧ 2 ^ 26 ≤ answer.length))) := by
  have hvalue : proxyAns env t c outConnId answer =
      if d.usedBytes ≤ env.maxConnectionBuffer then
        if answer.length ≤ 2 ^ 27 then some [.queue ex answer] else none
      else some [.failClient ex] := by
    simp [proxyAns, hown, clientSendMessage, checkConnBuffers, tlOutRemaining, tcpRpcConnSend, hmod]
  have hwrite : Writable atWrite crc [.queue ex answer] ↔
      ((atWrite ex).framed = true → answer.length < 2 ^ 26) := by
    constructor
    · intro h
      exact (writePacketCompact_isSome_iff hmod hlt).1 (h ex answer (by simp) ⟨0, 0⟩)
    · intro h ex' raw hmem pad
      cases mem_singleton.1 hmem
      exact (writePacketCompact_isSome_iff hmod hlt).2 h
  rw [hvalue]
  by_cases hroom : d.usedBytes ≤ env.maxConnectionBuffer
  · rw [if_pos hroom]
    by_cases hfits : answer.length ≤ 2 ^ 27
    · rw [if_pos hfits]
      constructor
      · rintro ⟨es, hes, hall⟩ ⟨-, hlong⟩
        cases hes
        rcases hlong with hlong | ⟨hframed, hlong⟩
        · omega
        · have := hwrite.1 hall hframed
          omega
      · intro h
        refine ⟨_, rfl, hwrite.2 fun hframed => ?_⟩
        by_contra hlong
        exact h ⟨hroom, .inr ⟨hframed, by omega⟩⟩
    · rw [if_neg hfits]
      refine iff_of_false (by simp) (not_not.2 ⟨hroom, .inl (by omega)⟩)
  · rw [if_neg hroom]
    exact iff_of_true ⟨_, rfl, fun _ _ h => by simp at h⟩ fun h => hroom h.1

theorem survives_iff {r : AckRandom} {msg : List UInt8} (hmod : msg.length % 4 = 0)
    (hlt : msg.length < 2 ^ 31) :
    Survives env t c r atWrite crc msg ↔ ¬ TooLong env t c atWrite msg := by
  have hnil : Writable atWrite crc [] := nofun
  have hdrop : (msg.drop 16).length = msg.length - 16 := length_drop
  by_cases hans : le32 msg = rpcProxyAns
  · have hjob : clientPacketJobRun env t c r msg =
        if msg.length ≥ 16 then
          (proxyAns env t c (le64 (msg.drop 8)) (msg.drop 16)).map fun es => (t, es)
        else some (t, []) := by
      have hpong : rpcProxyAns ≠ rpcPong := by decide
      simp [clientPacketJobRun, rpccExecute, processClientPacket, hans, hpong]
    unfold Survives
    rw [hjob]
    split_ifs with hlen
    · have hmap : (∃ t' es, (proxyAns env t c (le64 (msg.drop 8)) (msg.drop 16)).map
          (fun es => (t, es)) = some (t', es) ∧ Writable atWrite crc es) ↔
          ∃ es, proxyAns env t c (le64 (msg.drop 8)) (msg.drop 16) = some es ∧
            Writable atWrite crc es := by
        simp [map_eq_some_iff]
      rw [hmap]
      cases hown : ownClient env t c (le64 (msg.drop 8)) with
      | none =>
        refine iff_of_true ⟨_, by rw [proxyAns, hown], fun _ _ h => by simp at h⟩ ?_
        rintro ⟨-, ex, hmem, hid, hout, ⟨d, hd, -⟩, -⟩
        rw [ownClient_eq_some_iff.2 ⟨hmem, hid, hout, hd⟩] at hown
        cases hown
      | some p =>
        obtain ⟨ex, d⟩ := p
        obtain ⟨hmem, hid, hout, hd⟩ := ownClient_eq_some_iff.1 hown
        rw [proxyAns_survives_iff hown (by omega) (by omega), not_iff_not]
        constructor
        · rintro ⟨hroom, hlong⟩
          refine ⟨hans, ex, hmem, hid, hout, ⟨d, hd, hroom⟩, ?_⟩
          rcases hlong with hlong | ⟨hframed, hlong⟩
          · exact .inl (by omega)
          · exact .inr ⟨hframed, by omega⟩
        · rintro ⟨-, ex', hmem', hid', hout', ⟨d', hd', hroom⟩, hlong⟩
          have hown' := ownClient_eq_some_iff.2 ⟨hmem', hid', hout', hd'⟩
          rw [hown] at hown'
          cases hown'
          refine ⟨hroom, ?_⟩
          rcases hlong with hlong | ⟨hframed, hlong⟩
          · exact .inl (by omega)
          · exact .inr ⟨hframed, by omega⟩
    · refine iff_of_true ⟨t, [], rfl, hnil⟩ ?_
      rintro ⟨-, ex, -, -, -, -, hlong | ⟨-, hlong⟩⟩ <;> omega
  · refine iff_of_true ?_ fun h => hans h.1
    unfold Survives clientPacketJobRun
    split_ifs with hexec
    · unfold processClientPacket
      dsimp only
      split_ifs with hpong hack hlen hclose hlen
      · exact ⟨t, [], rfl, hnil⟩
      · obtain ⟨es, hes, hwrite⟩ := simpleAck_survives env t c r atWrite crc (le64 (msg.drop 4))
          (le32 (msg.drop 12))
        exact ⟨t, es, by rw [hes]; rfl, hwrite⟩
      · exact ⟨t, [], rfl, hnil⟩
      · refine ⟨_, _, rfl, fun ex raw hmem => ?_⟩
        split at hmem
        · cases hmem
        · split_ifs at hmem
          · simp at hmem
          · cases hmem
      · exact ⟨t, [], rfl, hnil⟩
      · exact ⟨t, [], rfl, hnil⟩
    · exact ⟨t, [], rfl, hnil⟩

/-- **Which packets of a middle-end abort the proxy.**  Whatever bytes a middle-end sends, and in
whatever state its packets find the table and the clients: no assertion fails on the way of a packet
from the reader to the writer, iff it is no answer that is too long for its client. -/
theorem packet_survives_iff {κ : Type} {rpc : RpcEnv κ} {flags : CryptoFlags}
    {events : List RpcEvent} {conn : RpcConn κ}
    (hrun : run (rpccStep rpc flags) (tcpRpccInitOutbound flags) events = some conn)
    {p : Packet κ} (hp : p ∈ conn.data.handled) (env : EngineEnv) (t : ExtTable) (c : ConnId)
    (r : AckRandom) (atWrite : ExtConnection → Client) (crc : List UInt8 → BitVec 32) :
    Survives env t c r atWrite crc (packetContent p) ↔
      ¬ TooLong env t c atWrite (packetContent p) := by
  obtain ⟨hmin, hmod, hlt⟩ := wellSized_run hrun p hp
  have hlen := length_packetContent p
  exact survives_iff (by omega) (by omega)

/-- A client in the padded transport, with empty buffers. -/
def paddedClient : Client := ⟨false, true, true, false, 0, 0⟩

def paddedClients : EngineEnv := ⟨fun _ => some paddedClient, 2 ^ 25⟩

/-- The client with descriptor 10 has a session over the middle-end connection with descriptor 5. -/
def oneSession : ExtTable :=
  ExtTable.empty.insert ⟨⟨10, 1⟩, ⟨5, 1⟩, 0x40000a, 0⟩ (by simp [ExtTable.empty])
    (by simp [ExtTable.empty])

/-- The content of an answer of `n` zero bytes for that client. -/
def answerContent (n : ℕ) : List UInt8 :=
  le32Bytes rpcProxyAns ++ (le32Bytes 0 ++ ([0x0a, 0, 0x40, 0, 0, 0, 0, 0] ++ List.replicate n 0))

theorem length_answerContent (n : ℕ) : (answerContent n).length = n + 16 := by
  simp [answerContent]
  omega

/-- The packet around it, with number 0 and checksum 0. -/
def answerPacket (n : ℕ) : List UInt8 :=
  le32Bytes (BitVec.ofNat 32 (n + 28)) ++ (le32Bytes 0 ++ (answerContent n ++ le32Bytes 0))

theorem packet_survives_iff_shortAnswer :
    ∃ conn, run (rpccStep sampleEnv ⟨false, true, false, false⟩)
        (tcpRpccInitOutbound ⟨false, true, false, false⟩)
        (sampleHandshake ++ [.receive (answerPacket 16 ++ [4, 0, 0, 0]), .run]) = some conn ∧
      ∃ p ∈ conn.data.handled, packetContent p = answerContent 16 ∧
        Survives paddedClients oneSession ⟨5, 1⟩ ⟨true, none, none⟩ (fun _ => paddedClient)
          (fun _ => 0) (packetContent p) := by
  obtain ⟨conn, hrun, p, hp, hcontent⟩ : ∃ conn,
      run (rpccStep sampleEnv ⟨false, true, false, false⟩)
        (tcpRpccInitOutbound ⟨false, true, false, false⟩)
        (sampleHandshake ++ [.receive (answerPacket 16 ++ [4, 0, 0, 0]), .run]) = some conn ∧
      ∃ p ∈ conn.data.handled, packetContent p = answerContent 16 := by
    decide +kernel
  refine ⟨conn, hrun, p, hp, hcontent, (packet_survives_iff hrun hp _ _ _ _ _ _).2 ?_⟩
  rw [hcontent]
  rintro ⟨-, ex, -, -, -, -, hlong⟩
  rw [length_answerContent] at hlong
  omega

/-- The connection of an authenticated middle-end on which this packet has arrived. -/
def receivedAnswer (n : ℕ) : RpcConn Unit :=
  let c := tcpRpccInitOutbound ⟨false, true, false, false⟩
  { c with
    inn := (answerPacket n).map fun b => ⟨b, some ()⟩
    crypto := some ()
    data := { c.data with inPacketNum := 0 } }

theorem length_answerPacket (n : ℕ) : (answerPacket n).length = n + 28 := by
  simp [answerPacket, length_answerContent]
  omega

theorem vals_receivedAnswer (n : ℕ) : vals (receivedAnswer n).inn = answerPacket n := by
  simp [receivedAnswer, vals, Function.comp_def]

theorem fetchBack_answerPacket (n : ℕ) : rwmFetchDataBack (answerPacket n) 4 =
    (le32Bytes 0, le32Bytes (BitVec.ofNat 32 (n + 28)) ++ (le32Bytes 0 ++ answerContent n)) := by
  have hassoc : answerPacket n =
      (le32Bytes (BitVec.ofNat 32 (n + 28)) ++ (le32Bytes 0 ++ answerContent n)) ++
        le32Bytes 0 := by simp [answerPacket]
  have hfront : (le32Bytes (BitVec.ofNat 32 (n + 28)) ++
      (le32Bytes 0 ++ answerContent n)).length = n + 28 - 4 := by
    simp [length_answerContent]
    omega
  rw [rwmFetchDataBack, length_answerPacket, hassoc, drop_left' hfront, take_left' hfront]

theorem rpccPass_receivedAnswer (hmod : n % 4 = 0) (hlt : n < 2 ^ 30) :
    rpccPass sampleEnv (receivedAnswer n) =
      .again (countPacket { receivedAnswer n with inn := [] } ⟨0, (receivedAnswer n).inn⟩) := by
  have hlen : (receivedAnswer n).inn.length = n + 28 := by
    rw [← length_answerPacket n, ← vals_receivedAnswer, vals, length_map]
  have hword : word (answerPacket n) 0 = BitVec.ofNat 32 (n + 28) := le32_le32Bytes_append _ _
  have hnat : (BitVec.ofNat 32 (n + 28)).toNat = n + 28 := by
    rw [BitVec.toNat_ofNat, Nat.mod_eq_of_lt (by omega)]
  have hint : (BitVec.ofNat 32 (n + 28)).toInt = n + 28 := by
    rw [BitVec.toInt_eq_toNat_of_lt (by omega), hnat]
    rfl
  have hbad : ¬ ((n : ℤ) + 28 ≤ 0 ∨ BitVec.ofNat 32 (n + 28) &&& 3 ≠ 0 ∨
      ((n : ℤ) + 28 > sampleEnv.maxPacketLen ∧ sampleEnv.maxPacketLen > 0)) := by
    rintro (h | h | ⟨-, h⟩)
    · omega
    · apply h
      apply (and_three_eq_zero_iff _).2
      omega
    · exact absurd h (by decide)
  have hsplit : rwmSplitHead (receivedAnswer n).inn (n + 28) = ((receivedAnswer n).inn, []) := by
    rw [rwmSplitHead, take_of_length_le (by omega), drop_of_length_le (by omega)]
  have hnum : word (le32Bytes (BitVec.ofNat 32 (n + 28)) ++ (le32Bytes 0 ++ answerContent n)) 4 =
      0 := by
    exact le32_le32Bytes_append _ _
  have hcrc : word (le32Bytes 0) 0 = 0 := rfl
  have htoNat : ((n : ℤ) + 28).toNat = n + 28 := by omega
  unfold rpccPass
  simp only [vals_receivedAnswer, hlen, hword, hint]
  rw [if_neg (by omega), if_neg (by omega), if_neg hbad, if_neg (by omega), if_neg (by omega),
    if_neg (by omega), htoNat, hsplit]
  simp only [vals_receivedAnswer, fetchBack_answerPacket, hnum, hcrc]
  rfl

theorem handled_receivedAnswer (hmod : n % 4 = 0) (hlt : n < 2 ^ 30) :
    (tcpRpccParseExecute sampleEnv (receivedAnswer n)).1.data.handled =
      [⟨0, (receivedAnswer n).inn⟩] := by
  rw [tcpRpccParseExecute, parseLoop, rpccPass_receivedAnswer hmod hlt]
  -- the next pass, if there is one, finds no bytes
  cases (receivedAnswer n).inn.length with
  | zero => rfl
  | succ fuel => rfl

theorem packetContent_receivedAnswer (n : ℕ) :
    packetContent ⟨0, (receivedAnswer n).inn⟩ = answerContent n := by
  rw [packetContent, vals_receivedAnswer, fetchBack_answerPacket]
  rfl

theorem tooLong_answerContent (hlong : 2 ^ 26 ≤ n) :
    TooLong paddedClients oneSession ⟨5, 1⟩ (fun _ => paddedClient) (answerContent n) := by
  have hid : le64 ((answerContent n).drop 8) = 0x40000a := by
    have hhead : (le32Bytes rpcProxyAns ++ le32Bytes 0).length = 8 := by simp
    have hbytes : ([0x0a, 0, 0x40, 0, 0, 0, 0, 0] : List UInt8).length = 8 := rfl
    rw [answerContent, ← append_assoc, drop_left' hhead, le64, take_left' hbytes]
    decide
  refine ⟨le32_le32Bytes_append _ _, _, mem_singleton.2 rfl, hid.symm, rfl,
    ⟨paddedClient, rfl, Nat.zero_le _⟩, .inr ⟨rfl, ?_⟩⟩
  rw [length_answerContent]
  omega

/-- An authenticated middle-end sends a client an answer of `2 ^ 26` bytes.  The reader accepts the
packet, and an assertion of the writer fails. -/
theorem long_answer_aborts :
    ∃ p ∈ (tcpRpccParseExecute sampleEnv (receivedAnswer (2 ^ 26))).1.data.handled,
      ¬ Survives paddedClients oneSession ⟨5, 1⟩ ⟨true, none, none⟩ (fun _ => paddedClient)
        (fun _ => 0) (packetContent p) := by
  refine ⟨⟨0, (receivedAnswer (2 ^ 26)).inn⟩, ?_, ?_⟩
  · rw [handled_receivedAnswer (by decide) (by decide)]
    exact mem_singleton.2 rfl
  · have hlen := length_answerContent (2 ^ 26)
    rw [packetContent_receivedAnswer, survives_iff (by omega) (by omega), not_not]
    exact tooLong_answerContent le_rfl

end Mtbolt.Mtproto
