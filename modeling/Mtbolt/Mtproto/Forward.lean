import Mtbolt.Mtproto.ExtConn
import Mtbolt.Worker.State

/-!
# Forwarding queries

A packet of a client in relay mode becomes an `RPC_PROXY_REQ` for a middle-end.  The parser hands
it to `ext_rpcs_execute`, which notes some of the connection's flags and queues a job for the
engine thread; there `forward_mtproto_packet` looks at its header and `forward_tcp_query` finds or
opens the session over which it goes.

Clients come by RPC only; the HTTP variant of these functions has no listening port.
-/

namespace Mtbolt.Mtproto

open Words Option

/-! ### Flags -/

/-- `RPC_F_DROPPED`. -/
def rpcFDropped : BitVec 32 := 0x10000000#32

/-- `RPC_F_QUICKACK`. -/
def rpcFQuickack : BitVec 32 := 0x80000000#32

/-- The flags that a queued query takes along: `RPC_F_QUICKACK`, `RPC_F_DROPPED`,
`RPC_F_COMPACT_MEDIUM` and `RPC_F_EXTMODE3`. -/
def rpcsExecFlags : BitVec 32 := rpcFQuickack ||| rpcFDropped ||| 0x60000000#32 ||| 0x30000#32

/-- The flag of requests that come from an RPC client, `0x1000`. -/
def proxyReqExtServer : BitVec 32 := 0x1000#32

theorem and_twoPow_ne_zero_iff (w : BitVec 32) {i : ℕ} (hi : i < 32) :
    w &&& BitVec.twoPow 32 i ≠ 0 ↔ w.getLsbD i = true := by
  rw [BitVec.and_twoPow]
  split_ifs with h
  · simp only [h, iff_true]
    intro hzero
    have := congrArg (fun v => v.getLsbD i) hzero
    simp [hi] at this
  · simp [h]

/-! ### Connections -/

/-- One end of a connection, as it is told to the middle-end; `ip` is zero for an IPv6 address. -/
structure Endpoint where
  ip : BitVec 32
  ipv6 : List UInt8
  port : BitVec 32
  deriving DecidableEq, Repr

/-- The client `c` of a query: `fd` and `generation`, `type`, the flags of its `tcp_rpc_data`, and
its addresses. -/
structure QueryClient where
  id : ConnId
  type : Worker.ConnType
  flags : BitVec 32
  remote : Endpoint
  our : Endpoint
  deriving DecidableEq, Repr

/-- The proxy's own settings: its tag, if one is set, and the translation of its addresses. -/
structure ProxyConfig where
  proxyTag : Option (List UInt8)
  natTranslateIp : BitVec 32 → BitVec 32

/-- A connection of the target that was drawn at random; `ready` says that its `extra_int` is its
tag. -/
structure Candidate where
  id : ConnId
  ready : Bool
  deriving DecidableEq, Repr

/-- What a query meets: the connections to middle-ends by descriptor and generation, each with the
information whether it still has a target; whether `choose_proxy_target` finds a target; the
connections drawn from it; and the numbers drawn for a place in the table. -/
structure QueryEnv where
  middleEnd : ConnId → Option Bool
  target : Bool
  attempts : List (Option Candidate)
  draws : List ℕ

/-! ### Outcomes -/

/-- The fields of an `RPC_PROXY_REQ`, and the connection it is sent over. -/
structure Request where
  dest : ConnId
  flags : BitVec 32
  outConnId : BitVec 64
  remote : Endpoint
  our : Endpoint
  proxyTag : Option (List UInt8)
  data : List UInt8
  deriving DecidableEq, Repr

/-- What becomes of a packet: it is no query, there is nowhere to forward it, the connection is
failed because of an earlier drop, or it is forwarded. -/
inductive Outcome
  | ignored
  | dropped
  | refused
  | forwarded (r : Request)
  deriving DecidableEq, Repr

/-- The flags of the request, if there is one. -/
def Outcome.flags : Outcome → Option (BitVec 32)
  | .forwarded r => some r.flags
  | _ => none

/-- The table and the client's flags after a packet, its outcome, and the session whose middle-end
is told that it is closed. -/
structure ForwardResult where
  tbl : ExtTable
  flags : BitVec 32
  outcome : Outcome
  closed : Option ExtConnection

/-! ### The query -/

/-- The draws from a target: five, the first that is ready is taken. -/
def chooseConnection (env : QueryEnv) : Option ConnId :=
  if env.target then
    (env.attempts.take 5).findSome? fun d => d.bind fun k => if k.ready then some k.id else none
  else none

/-- The client's session: the table, the session if its middle-end connection can be used, and the
session whose middle-end hears that it is closed. -/
def currentSession (env : QueryEnv) (t : ExtTable) (c : QueryClient) (authKeyId : BitVec 64) :
    ExtTable × Option ExtConnection × Option ExtConnection :=
  match getExtConnectionByInFd t c.id.fd with
  | none => (t, none, none)
  | some ex =>
    let t := setAuthKeyId t c.id.fd authKeyId
    match env.middleEnd ex.out with
    | some true => (t, some (ex.withAuthKeyId authKeyId), none)
    | some false => (removeExtConnection t ex, none, some ex)
    | none => (removeExtConnection t ex, none, none)

/-- The request for a query over the session `ex`. -/
def makeRequest (cfg : ProxyConfig) (c : QueryClient) (ex : ExtConnection) (flags : BitVec 32)
    (data : List UInt8) : Request where
  dest := ex.out
  flags := if cfg.proxyTag.isSome then flags ||| 8 else flags
  outConnId := ex.outConnId
  remote := c.remote
  our := if c.our.ip = 0 then c.our else { c.our with ip := cfg.natTranslateIp c.our.ip }
  proxyTag := cfg.proxyTag
  data := data

/-- The flags with those of the connection's type. -/
def queryFlags (c : QueryClient) (flags : BitVec 32) : BitVec 32 :=
  if c.type = .extServer then flags ||| (c.flags &&& rpcFDropped) ||| proxyReqExtServer else flags

/-- The client's flags after a query that had nowhere to go. -/
def droppedFlags (c : QueryClient) : BitVec 32 :=
  if c.type = .extServer then c.flags ||| rpcFDropped else c.flags

/-- `forward_tcp_query`; `none` when `create_ext_connection` does not return. -/
def forwardTcpQuery (cfg : ProxyConfig) (env : QueryEnv) (t : ExtTable) (c : QueryClient)
    (flags : BitVec 32) (authKeyId : BitVec 64) (data : List UInt8) : Option ForwardResult :=
  let flags := queryFlags c flags
  match currentSession env t c authKeyId with
  | (t, some ex, closed) =>
    some ⟨t, c.flags, .forwarded (makeRequest cfg c ex flags data), closed⟩
  | (t, none, closed) =>
    match chooseConnection env with
    | none => some ⟨t, droppedFlags c, .dropped, closed⟩
    | some d =>
      if flags &&& rpcFDropped ≠ 0 then some ⟨t, c.flags, .refused, closed⟩
      else (createExtConnection t c.id d authKeyId env.draws).map fun (ex, t) =>
        ⟨t, c.flags, .forwarded (makeRequest cfg c ex flags data), closed⟩

/-! ### The packet -/

/-- The handshake functions that may be sent unencrypted: `req_pq`, `req_pq_multi`,
`req_DH_params` and `set_client_DH_params`. -/
def handshakeFunctions : List (BitVec 32) :=
  [0x60469778#32, 0xbe7e8ef1#32, 0xd712e4be#32, 0xf5045f1f#32]

/-- The checks of `forward_mtproto_packet` and `forward_mtproto_enc_packet`: the flags and the key
identifier with which a packet is forwarded.  56 is the offset of `message` in
`struct encrypted_message`. -/
def acceptedPacket (data : List UInt8) : Option (BitVec 32 × BitVec 64) :=
  if data.length < 28 ∨ data.length % 4 ≠ 0 then none
  else if le64 data ≠ 0 then if data.length < 56 then none else some (0, le64 data)
  else
    let innerLen := le32 (data.drop 16)
    if (innerLen + 20).toInt > data.length then none
    else if innerLen.toInt < 20 then none
    else if handshakeFunctions.contains (le32 (data.drop 20)) then some (2, 0)
    else none

/-- `forward_mtproto_packet`. -/
def forwardMtprotoPacket (cfg : ProxyConfig) (env : QueryEnv) (t : ExtTable) (c : QueryClient)
    (data : List UInt8) (rpcFlags : BitVec 32) : Option ForwardResult :=
  match acceptedPacket data with
  | none => some ⟨t, c.flags, .ignored, none⟩
  | some (flags, authKeyId) => forwardTcpQuery cfg env t c (flags ||| rpcFlags) authKeyId data

/-- `MAX_POST_SIZE`. -/
def maxPostSize : ℕ := 262144 * 4 - 4096

/-- A queued `do_rpcs_execute`: the packet and the flags it takes along. -/
structure ExecJob where
  data : List UInt8
  rpcFlags : BitVec 32
  deriving DecidableEq, Repr

/-- `ext_rpcs_execute`: the job that is queued; `roomy` is the result of `check_conn_buffers`. -/
def extRpcsExecute (c : QueryClient) (data : List UInt8) (roomy : Bool) : Option ExecJob :=
  if data.length > maxPostSize ∨ !roomy then none
  else some ⟨data, c.flags &&& rpcsExecFlags⟩

/-- The change of `RPC_F_QUICKACK` by the parser. -/
def setQuickack (flags : BitVec 32) (quickack : Bool) : BitVec 32 :=
  if quickack then flags ||| rpcFQuickack else flags &&& ~~~rpcFQuickack

/-- A query: an encrypted message with a key identifier of ones. -/
def sampleQuery : List UInt8 := List.replicate 56 1

/-- There is no target for a query. -/
def noTarget : QueryEnv := ⟨fun _ => none, false, [], []⟩

/-- There is one connection to a middle-end, with descriptor 5. -/
def oneMiddleEnd : QueryEnv := ⟨fun _ => some true, true, [some ⟨⟨5, 1⟩, true⟩], []⟩

def sampleConfig : ProxyConfig := ⟨none, id⟩

/-! ### What a query does to the table -/

variable {t : ExtTable} {c : QueryClient} {cfg : ProxyConfig} {env : QueryEnv} {r : ForwardResult}
  {data : List UInt8}

theorem currentSession_fresh (env : QueryEnv) (hfresh : getExtConnectionByInFd t c.id.fd = none)
    (authKeyId : BitVec 64) : currentSession env t c authKeyId = (t, none, none) := by
  simp [currentSession, hfresh]

section

variable (hfresh : getExtConnectionByInFd t c.id.fd = none)
include hfresh

theorem forward_nowhere {job : ExecJob}
    (hnowhere : acceptedPacket job.data = none ∨ chooseConnection env = none)
    (h : forwardMtprotoPacket cfg env t c job.data job.rpcFlags = some r) :
    r.tbl = t ∧ r.outcome.flags = none := by
  unfold forwardMtprotoPacket at h
  split at h
  · cases h
    exact ⟨rfl, rfl⟩
  · next flags authKeyId haccepted =>
    have hnone : chooseConnection env = none := by
      rcases hnowhere with hnowhere | hnone
      · rw [haccepted] at hnowhere
        cases hnowhere
      · exact hnone
    simp [forwardTcpQuery, currentSession_fresh env hfresh, hnone] at h
    subst h
    exact ⟨rfl, rfl⟩

variable {authKeyId : BitVec 64} {x : ExtConnection} {rpcFlags : BitVec 32}

/-- A query of a client without a session that finds a connection: it is refused after a drop, and
forwarded over a new session otherwise. -/
theorem forwardTcpQuery_somewhere {d : ConnId} (hsome : chooseConnection env = some d)
    {flags : BitVec 32}
    (h : forwardTcpQuery cfg env t c flags authKeyId data = some r) :
    if queryFlags c flags &&& rpcFDropped ≠ 0 then r.outcome = .refused
    else ∃ ex, r.outcome = .forwarded (makeRequest cfg c ex (queryFlags c flags) data) := by
  simp only [forwardTcpQuery, currentSession_fresh env hfresh, hsome] at h
  split_ifs at h ⊢ with hdropped
  · cases h
    rfl
  · obtain ⟨⟨ex, t'⟩, -, rfl⟩ := map_eq_some_iff.1 h
    exact ⟨ex, rfl⟩

end

/-- The entries after looking for the client's session were there before, up to their keys. -/
theorem mem_currentSession
    (hx : x ∈ (currentSession env t c authKeyId).1.entries) :
    ∃ e ∈ t.entries, x.inn = e.inn ∧ x.out = e.out := by
  have hset {inFd : ℕ} (hx : x ∈ (setAuthKeyId t inFd authKeyId).entries) :
      ∃ e ∈ t.entries, x.inn = e.inn ∧ x.out = e.out := by
    obtain ⟨e, he, rfl⟩ := Keyed.mem_modify_iff.1 hx
    refine ⟨e, he, ?_⟩
    split_ifs <;> exact ⟨rfl, rfl⟩
  unfold currentSession at hx
  cases hget : getExtConnectionByInFd t c.id.fd with
  | none =>
    rw [hget] at hx
    exact ⟨x, hx, rfl, rfl⟩
  | some ex =>
    simp only [hget] at hx
    split at hx
    · exact hset hx
    · exact hset (mem_removeExtConnection.1 hx).1
    · exact hset (mem_removeExtConnection.1 hx).1

theorem mem_forwardMtprotoPacket
    (h : forwardMtprotoPacket cfg env t c data rpcFlags = some r)
    (hx : x ∈ r.tbl.entries) : (∃ e ∈ t.entries, x.inn = e.inn) ∨ x.inn = c.id := by
  unfold forwardMtprotoPacket at h
  split at h
  · cases h
    exact .inl ⟨x, hx, rfl⟩
  · next flags authKeyId _ =>
    have hold (hx : x ∈ (currentSession env t c authKeyId).1.entries) :
        (∃ e ∈ t.entries, x.inn = e.inn) ∨ x.inn = c.id := by
      obtain ⟨e, he, hinn, -⟩ := mem_currentSession hx
      exact .inl ⟨e, he, hinn⟩
    simp only [forwardTcpQuery] at h
    split at h
    · next t' ex closed hcur =>
      cases h
      rw [hcur] at hold
      exact hold hx
    · next t' closed hcur =>
      rw [hcur] at hold
      split at h
      · cases h
        exact hold hx
      · split_ifs at h
        · cases h
          exact hold hx
        · obtain ⟨⟨ex, t''⟩, hcreate, rfl⟩ := map_eq_some_iff.1 h
          obtain ⟨hinn, -, -, hentries⟩ := createExtConnection_spec hcreate
          rw [hentries] at hx
          rcases List.mem_cons.1 hx with rfl | hx
          · exact .inr hinn
          · exact hold hx

/-! ### Unencrypted packets -/

/-- `header[4]` of an unencrypted packet: the length of what follows its header of 20 bytes. -/
def innerLen (data : List UInt8) : BitVec 32 := le32 (data.drop 16)

/-- `header[5]` of an unencrypted packet. -/
def packetFunction (data : List UInt8) : BitVec 32 := le32 (data.drop 20)

/-- What an unencrypted packet may be: a key exchange function with its nonce, inside the packet. -/
structure KeyExchange (data : List UInt8) : Prop where
  nonce : 20 ≤ (innerLen data).toInt
  fits : 20 + (innerLen data).toInt ≤ data.length
  function : packetFunction data ∈ handshakeFunctions

/-- A key exchange packet of a plausible size whose inner length is so large that `inner_len + 20`
leaves the range of an `int`. -/
structure InnerLenWraps (data : List UInt8) : Prop where
  header : 28 ≤ data.length
  aligned : data.length % 4 = 0
  short : data.length ≤ maxPostSize
  large : 2 ^ 31 - 20 ≤ (innerLen data).toInt
  function : packetFunction data ∈ handshakeFunctions

theorem acceptedPacket_unencrypted (hkey : le64 data = 0) :
    acceptedPacket data =
      if 28 ≤ data.length ∧ data.length % 4 = 0 ∧ (innerLen data + 20).toInt ≤ data.length ∧
        20 ≤ (innerLen data).toInt ∧ packetFunction data ∈ handshakeFunctions
      then some (2, 0) else none := by
  unfold acceptedPacket
  by_cases hsize : data.length < 28 ∨ data.length % 4 ≠ 0
  · rw [if_pos hsize, if_neg]
    omega
  · simp only [innerLen, packetFunction, List.contains_iff_mem]
    grind

/-- The check in 32-bit arithmetic lets the lengths through that fit, and those that wrap. -/
theorem innerLen_check (n : BitVec 32) (len : ℕ) :
    ((n + 20).toInt ≤ len ∧ 20 ≤ n.toInt) ↔
      20 ≤ n.toInt ∧ (20 + n.toInt ≤ len ∨ 2 ^ 31 - 20 ≤ n.toInt) := by
  have hlt := BitVec.toInt_lt (x := n)
  have hsum : (n + 20).toInt = (n.toInt + 20).bmod (2 ^ 32) := BitVec.toInt_add n 20
  rw [hsum, Int.bmod]
  omega

/-- A client without flags. -/
def plainClient : QueryClient where
  id := ⟨3, 1⟩
  type := .extServer
  flags := 0
  remote := ⟨0, [], 0⟩
  our := ⟨0, [], 0⟩

theorem forwarded_of_accepted (haccepted : acceptedPacket data = some (2, 0)) :
    ∃ r req, forwardMtprotoPacket sampleConfig oneMiddleEnd .empty plainClient data 0 = some r ∧
      r.outcome = .forwarded req := by
  have hcreated : (createExtConnection .empty plainClient.id ⟨5, 1⟩ 0 []).isSome := by decide
  obtain ⟨⟨ex, t⟩, hcreate⟩ := isSome_iff_exists.1 hcreated
  have hchoose : chooseConnection oneMiddleEnd = some ⟨5, 1⟩ := by decide
  have hclear : ¬ (queryFlags plainClient (2 ||| 0) &&& rpcFDropped ≠ 0) := by decide
  have hforward : forwardMtprotoPacket sampleConfig oneMiddleEnd .empty plainClient data 0 =
      some ⟨t, 0, .forwarded (makeRequest sampleConfig plainClient ex
        (queryFlags plainClient (2 ||| 0)) data), none⟩ := by
    rw [forwardMtprotoPacket, haccepted]
    simp only [forwardTcpQuery, currentSession_fresh (t := .empty) (c := plainClient) oneMiddleEnd
      rfl, hchoose, if_neg hclear]
    rw [show oneMiddleEnd.draws = [] from rfl, hcreate]
    rfl
  exact ⟨_, _, hforward, rfl⟩

/-- **An unencrypted packet is forwarded only as a key exchange**, exactly unless its inner length
wraps. -/
theorem keyExchange_of_forwarded_iff (data : List UInt8) (hkey : le64 data = 0) :
    (∀ cfg env t c c' roomy job r req, extRpcsExecute c data roomy = some job →
      forwardMtprotoPacket cfg env t c' job.data job.rpcFlags = some r →
      r.outcome = .forwarded req → KeyExchange data) ↔ ¬ InnerLenWraps data := by
  constructor
  · intro h hwraps
    have haccepted : acceptedPacket data = some (2, 0) := by
      rw [acceptedPacket_unencrypted hkey, if_pos]
      have hcheck := (innerLen_check (innerLen data) data.length).2
        ⟨by have := hwraps.large; omega, .inr hwraps.large⟩
      exact ⟨hwraps.header, hwraps.aligned, hcheck.1, hcheck.2, hwraps.function⟩
    obtain ⟨r, req, hforward, hreq⟩ := forwarded_of_accepted haccepted
    have hjob : extRpcsExecute plainClient data true = some ⟨data, 0⟩ := by
      rw [extRpcsExecute, if_neg (by simpa using hwraps.short)]
      rfl
    have hfits := (h _ _ _ _ _ _ _ _ _ hjob hforward hreq).fits
    have hlarge := hwraps.large
    have hshort := hwraps.short
    unfold maxPostSize at hshort
    omega
  · intro hwraps cfg env t c c' roomy job r req hexec hforward hreq
    have hjob : job.data = data ∧ data.length ≤ maxPostSize := by
      unfold extRpcsExecute at hexec
      split_ifs at hexec with hlong
      cases hexec
      exact ⟨rfl, by omega⟩
    have haccepted : acceptedPacket job.data ≠ none := by
      intro hnone
      simp only [forwardMtprotoPacket, hnone, some.injEq] at hforward
      subst hforward
      cases hreq
    rw [hjob.1, acceptedPacket_unencrypted hkey] at haccepted
    simp only [ne_eq, ite_eq_right_iff, reduceCtorEq, imp_false, not_not] at haccepted
    obtain ⟨hheader, haligned, hfits, hnonce, hfunction⟩ := haccepted
    obtain ⟨-, hfits | hlarge⟩ := (innerLen_check _ _).1 ⟨hfits, hnonce⟩
    · exact ⟨hnonce, hfits, hfunction⟩
    · exact absurd ⟨hheader, haligned, hjob.2, hlarge, hfunction⟩ hwraps

/-- `req_pq_multi` of 40 bytes, with an inner length of one's own. -/
def samplePq (n : BitVec 32) : List UInt8 :=
  List.replicate 16 0 ++ le32Bytes n ++ le32Bytes 0xbe7e8ef1#32 ++ List.replicate 16 7

theorem keyExchange_of_forwarded_iff_samplePq :
    le64 (samplePq 20) = 0 ∧ ¬ InnerLenWraps (samplePq 20) ∧
      (∃ r req, forwardMtprotoPacket sampleConfig oneMiddleEnd .empty plainClient (samplePq 20) 0 =
        some r ∧ r.outcome = .forwarded req) ∧ KeyExchange (samplePq 20) := by
  have hkey : le64 (samplePq 20) = 0 := by decide
  have hwraps : ¬ InnerLenWraps (samplePq 20) := fun h => absurd h.large (by decide)
  have haccepted : acceptedPacket (samplePq 20) = some (2, 0) := by decide
  obtain ⟨r, req, hforward, hreq⟩ := forwarded_of_accepted haccepted
  have hjob : extRpcsExecute plainClient (samplePq 20) true = some ⟨samplePq 20, 0⟩ := by decide
  exact ⟨hkey, hwraps, ⟨r, req, hforward, hreq⟩,
    (keyExchange_of_forwarded_iff _ hkey).2 hwraps _ _ _ _ _ _ _ _ _ hjob hforward hreq⟩

/-- An inner length of `0x7fffffff` passes: its sum with 20 is negative. -/
theorem forwarded_innerLen_wraps :
    le64 (samplePq 0x7fffffff#32) = 0 ∧
      (∃ job r req, extRpcsExecute plainClient (samplePq 0x7fffffff#32) true = some job ∧
        forwardMtprotoPacket sampleConfig oneMiddleEnd .empty plainClient job.data job.rpcFlags =
          some r ∧ r.outcome = .forwarded req) ∧
      ¬ 20 + (innerLen (samplePq 0x7fffffff#32)).toInt ≤ (samplePq 0x7fffffff#32).length := by
  have haccepted : acceptedPacket (samplePq 0x7fffffff#32) = some (2, 0) := by decide
  obtain ⟨r, req, hforward, hreq⟩ := forwarded_of_accepted haccepted
  have hjob : extRpcsExecute plainClient (samplePq 0x7fffffff#32) true =
      some ⟨samplePq 0x7fffffff#32, 0⟩ := by decide
  exact ⟨by decide, ⟨_, r, req, hjob, hforward, hreq⟩, by decide⟩

end Mtbolt.Mtproto
