import Mtbolt.ExtServer.Domains
import Mtbolt.Net.IpAclCheck

/-!
# Clients that are handed to the backend

A client that does not prove to know a secret is connected to the web server that the proxy pretends
to be.  Where that server is follows from the registration of the domain
(`tcp_rpc_add_proxy_domain`), and for a host name from the resolution at the start
(`update_domain_info`); `proxy_connection` opens a socket to it, and `alloc_new_connection`, which
serves all kinds of connections, makes a connection of the socket.  It looks at the family of the
socket's own address, and knows IPv4 and IPv6.
-/

namespace Mtbolt.ExtServer

open CString (InetPton)
open Net

/-! ### The target -/

/-- `target` and `target_ipv6` of a `struct domain_info`. -/
structure Target where
  sAddr : BitVec 32
  ipv6 : Ipv6
  deriving DecidableEq

def Target.zero : Target := ⟨0, fun _ => 0⟩

/-- The address in one of the two fields. -/
def Target.of : Address → Target
  | .inet addr => ⟨addr, fun _ => 0⟩
  | .inet6 addr => ⟨0, addr⟩

/-- The part of `update_domain_info` that sets the target: an address is taken as it is written, a
name is resolved (`lookup`), and the result kept once a socket of its family is open. -/
def resolveTarget (pton : InetPton Ipv6) (lookup : List UInt8 → Option Address) (socketOpen : Bool)
    (info : DomainEntry) : Target :=
  if info.unixPath.isSome then .zero
  else
    let host := info.backendHost.getD info.domain
    match addressOf pton host with
    | some a => .of a
    | none =>
      match lookup host with
      | none => .zero
      | some a => if socketOpen then .of a else .zero

/-! ### Sockets and connections -/

/-- The address that `getsockname` gives. -/
inductive SockName
  | inet (ip : BitVec 32) (port : ℕ)
  | inet6 (ip : Ipv6) (port : ℕ)
  | unix
  deriving DecidableEq

/-- A socket that is connected or connecting: whether it can be made non-blocking, its own address,
and whether `Events` has no entry for it. -/
structure OpenSocket where
  fd : ℕ
  nonblock : Bool
  name : SockName
  eventFree : Bool
  deriving DecidableEq

/-- The system's sockets: `client_socket`, `client_socket_ipv6` and `connect_unix_backend`, `none`
for a failure; and `max_connection_fd`. -/
structure Sockets where
  clientSocket : BitVec 32 → ℤ → Option OpenSocket
  clientSocketIpv6 : Ipv6 → ℤ → Option OpenSocket
  connectUnixBackend : List UInt8 → Option OpenSocket
  maxConnectionFd : ℕ

/-- What the system says about a socket: its own address is of the family that it was opened for, on
an IPv6 socket also a mapped one for a mapped peer, and its number is not in use. -/
structure Sockets.Documented (os : Sockets) : Prop where
  inet : ∀ ip port k, os.clientSocket ip port = some k →
    (∃ self selfPort, k.name = .inet self selfPort) ∧ k.eventFree = true
  inet6 : ∀ ip port k, os.clientSocketIpv6 ip port = some k →
    (∃ self selfPort, k.name = .inet6 self selfPort ∧ (IsV4Mapped ip → IsV4Mapped self)) ∧
      k.eventFree = true
  unix : ∀ path k, os.connectUnixBackend path = some k → k.name = .unix ∧ k.eventFree = true

/-- A new connection: its own and its peer's address, in the fields of its family. -/
structure BackendConn where
  fd : ℕ
  isIpv6 : Bool
  ourIp : BitVec 32
  ourIpv6 : Ipv6
  ourPort : ℕ
  remoteIp : BitVec 32
  remoteIpv6 : Ipv6
  remotePort : ℤ
  deriving DecidableEq

/-- The addresses of a new connection in `alloc_new_connection`; `none` for a failed assertion. -/
def connAddresses (k : OpenSocket) (peer : BitVec 32) (peerIpv6 : Ipv6) (peerPort : ℤ) :
    Option BackendConn :=
  match k.name with
  | .inet ip port =>
    if peer = 0 then none
    else some ⟨k.fd, false, ip, fun _ => 0, port, peer, fun _ => 0, peerPort⟩
  | .inet6 ip port =>
    if peer ≠ 0 then none
    else if IsV4Mapped peerIpv6 then
      if ¬ IsV4Mapped ip then none
      else
        some ⟨k.fd, false, lastWord ip, fun _ => 0, port, lastWord peerIpv6, fun _ => 0, peerPort⟩
    else some ⟨k.fd, true, 0, ip, port, 0, peerIpv6, peerPort⟩
  | .unix => none

/-- `alloc_new_connection` for an outbound connection to the backend, with the assertions of
`alloc_new_socket_connection`: `none` when an assertion fails, `some none` when there is no
connection. -/
def allocNewConnection (os : Sockets) (k : OpenSocket) (peer : BitVec 32) (peerIpv6 : Ipv6)
    (peerPort : ℤ) : Option (Option BackendConn) :=
  if !k.nonblock then some none
  else if k.fd ≥ os.maxConnectionFd then some none
  else
    match connAddresses k peer peerIpv6 peerPort with
    | none => none
    | some c => if k.eventFree then some (some c) else none

/-! ### The client -/

/-- What `proxy_connection` reads of the client: `our_port`, and the bytes received so far. -/
structure PassClient where
  ourPort : ℕ
  input : List UInt8
  deriving DecidableEq

/-- The client is failed with a code, or paired with a connection to the backend, to which
`tcp_proxy_pass_parse_execute` moves what was received. -/
inductive PassOutcome
  | closed (who : ℤ)
  | passed (backend : BackendConn) (sent : List UInt8)
  deriving DecidableEq

/-- The last part of `proxy_connection`, with a socket. -/
def passTo (os : Sockets) (c : PassClient) (k : OpenSocket) (target : Target) (port : ℤ) :
    Option PassOutcome :=
  match allocNewConnection os k target.sAddr target.ipv6 port with
  | none => none
  | some none => some (.closed (-37))
  | some (some backend) => some (.passed backend c.input)

/-- The socket to the target. -/
def targetSocket (os : Sockets) (target : Target) (port : ℤ) : Option OpenSocket :=
  if target.sAddr ≠ 0 then os.clientSocket target.sAddr port
  else os.clientSocketIpv6 target.ipv6 port

/-- The port on the backend. -/
def passPort (c : PassClient) (info : DomainEntry) : ℤ := if c.ourPort = 80 then 80 else info.port

/-- `proxy_connection`; `none` when an assertion fails. -/
def PassClient.proxyConnection (c : PassClient) (os : Sockets) (info : DomainEntry)
    (target : Target) : Option PassOutcome :=
  match info.unixPath with
  | some path =>
    match os.connectUnixBackend path with
    | none => some (.closed (-27))
    | some k => passTo os c k target 0
  | none =>
    if target.sAddr = 0 ∧ target.ipv6 = fun _ => 0 then some (.closed (-17))
    else
      match targetSocket os target (passPort c info) with
      | none => some (.closed (-27))
      | some k => passTo os c k target (passPort c info)

/-! ### What becomes of the client -/

/-- The connection goes to the target. -/
structure BackendConn.GoesTo (b : BackendConn) (target : Target) (port : ℤ) : Prop where
  port : b.remotePort = port
  inet : target.sAddr ≠ 0 → b.isIpv6 = false ∧ b.remoteIp = target.sAddr
  mapped : target.sAddr = 0 → IsV4Mapped target.ipv6 →
    b.isIpv6 = false ∧ b.remoteIp = lastWord target.ipv6
  inet6 : target.sAddr = 0 → ¬ IsV4Mapped target.ipv6 → b.isIpv6 = true ∧ b.remoteIpv6 = target.ipv6

/-- The client is closed, or all it has sent goes to the backend. -/
def PassOutcome.Handled (c : PassClient) (info : DomainEntry) (target : Target) :
    PassOutcome → Prop
  | .closed who => who < 0
  | .passed backend sent => sent = c.input ∧
    ∃ port, 0 < port ∧ port ≤ 65535 ∧ (port = info.port ∨ port = 80) ∧ backend.GoesTo target port

/-- The backend is a unix socket, and the connection to it is there. -/
def UnixConnected (os : Sockets) (info : DomainEntry) : Prop :=
  ∃ path k, info.unixPath = some path ∧ os.connectUnixBackend path = some k ∧ k.nonblock = true ∧
    k.fd < os.maxConnectionFd

variable {info : DomainEntry} {os : Sockets} {target : Target} {port : ℤ} {k : OpenSocket}

theorem port_of_accepted {name : List UInt8} {backend : Option (List UInt8)}
    (h : (parseDomain name backend).bind checkDomain = .ok info) :
    0 < info.port ∧ info.port ≤ 65535 := by
  cases hparse : parseDomain name backend with
  | error e =>
    rw [hparse] at h
    cases h
  | ok info' =>
    rw [hparse] at h
    obtain ⟨rfl, hport⟩ := port_of_checkDomain h
    exact hport

theorem passPort_range (c : PassClient) (h : 0 < info.port ∧ info.port ≤ 65535) :
    (0 < passPort c info ∧ passPort c info ≤ 65535) ∧
      (passPort c info = info.port ∨ passPort c info = 80) := by
  unfold passPort
  split_ifs
  · exact ⟨by decide, .inr rfl⟩
  · exact ⟨h, .inl rfl⟩

theorem connAddresses_target (hos : os.Documented) (hk : targetSocket os target port = some k) :
    k.eventFree = true ∧ ∃ b, connAddresses k target.sAddr target.ipv6 port = some b ∧
      b.GoesTo target port := by
  unfold targetSocket at hk
  split_ifs at hk with hinet
  · obtain ⟨⟨self, selfPort, hname⟩, hfree⟩ := hos.inet _ _ _ hk
    refine ⟨hfree, ?_⟩
    unfold connAddresses
    rw [hname]
    simp only [hinet, if_false]
    exact ⟨_, rfl, rfl, fun _ => ⟨rfl, rfl⟩, fun h => absurd h hinet, fun h => absurd h hinet⟩
  · obtain ⟨⟨self, selfPort, hname, hmapped⟩, hfree⟩ := hos.inet6 _ _ _ hk
    refine ⟨hfree, ?_⟩
    unfold connAddresses
    rw [hname]
    simp only [hinet, if_false]
    by_cases hpeer : IsV4Mapped target.ipv6
    · simp only [hpeer, hmapped hpeer, not_true_eq_false, if_true, if_false]
      exact ⟨_, rfl, rfl, fun h => absurd h hinet, fun _ _ => ⟨rfl, rfl⟩, fun _ h => absurd hpeer h⟩
    · simp only [hpeer, if_false]
      exact ⟨_, rfl, rfl, fun h => absurd h hinet, fun _ h => absurd h hpeer, fun _ _ => ⟨rfl, rfl⟩⟩

theorem passTo_target (hos : os.Documented) {c : PassClient}
    (hk : targetSocket os target port = some k) (hport : 0 < port ∧ port ≤ 65535)
    (hsame : port = info.port ∨ port = 80) :
    ∃ outcome, passTo os c k target port = some outcome ∧ outcome.Handled c info target := by
  obtain ⟨hfree, b, hb, hgoes⟩ := connAddresses_target hos hk
  unfold passTo allocNewConnection
  rw [hb, hfree]
  by_cases hnonblock : k.nonblock = true
  · by_cases hfd : k.fd ≥ os.maxConnectionFd
    · simp only [hnonblock, hfd, Bool.not_true, Bool.false_eq_true, if_false, if_true]
      exact ⟨_, rfl, (by decide : (-37 : ℤ) < 0)⟩
    · simp only [hnonblock, hfd, Bool.not_true, Bool.false_eq_true, if_false, if_true]
      exact ⟨_, rfl, rfl, port, hport.1, hport.2, hsame, hgoes⟩
  · simp only [hnonblock, Bool.not_false, if_true]
    exact ⟨_, rfl, (by decide : (-37 : ℤ) < 0)⟩

theorem passTo_unix {c : PassClient} (hname : k.name = .unix) :
    passTo os c k target port =
      if k.nonblock = true ∧ k.fd < os.maxConnectionFd then none else some (.closed (-37)) := by
  unfold passTo allocNewConnection connAddresses
  rw [hname]
  by_cases hnonblock : k.nonblock = true
  · by_cases hfd : k.fd ≥ os.maxConnectionFd
    · simp [hnonblock, hfd, not_lt.2 hfd]
    · simp [hnonblock, hfd, not_le.1 hfd]
  · simp [hnonblock]

/-- **Every client that is handed to a backend is passed on or closed, and no assertion fails,
exactly if the backend is not a unix socket that accepts the connection**; for every specification
that is accepted. -/
theorem proxy_connection_handled {os : Sockets} (hos : os.Documented) (pton : InetPton Ipv6)
    (lookup : List UInt8 → Option Address) (socketOpen : Bool) {name : List UInt8}
    {backend : Option (List UInt8)} {info : DomainEntry}
    (haccepted : (parseDomain name backend).bind checkDomain = .ok info) (c : PassClient) :
    (∃ outcome,
      c.proxyConnection os info (resolveTarget pton lookup socketOpen info) = some outcome ∧
        outcome.Handled c info (resolveTarget pton lookup socketOpen info)) ↔
      ¬ UnixConnected os info := by
  have hport := port_of_accepted haccepted
  generalize resolveTarget pton lookup socketOpen info = target
  unfold PassClient.proxyConnection UnixConnected
  cases hunix : info.unixPath with
  | some path =>
    dsimp only
    cases hconnect : os.connectUnixBackend path with
    | none =>
      refine iff_of_true ⟨_, rfl, (by decide : (-27 : ℤ) < 0)⟩ ?_
      rintro ⟨path', k, hpath, hk, -⟩
      cases hpath
      rw [hconnect] at hk
      cases hk
    | some k =>
      dsimp only
      rw [passTo_unix (hos.unix path k hconnect).1]
      by_cases hconn : k.nonblock = true ∧ k.fd < os.maxConnectionFd
      · rw [if_pos hconn]
        refine iff_of_false ?_ (not_not.2 ⟨path, k, rfl, hconnect, hconn⟩)
        rintro ⟨outcome, h, -⟩
        cases h
      · rw [if_neg hconn]
        refine iff_of_true ⟨_, rfl, (by decide : (-37 : ℤ) < 0)⟩ ?_
        rintro ⟨path', k', hpath, hk, hconn'⟩
        cases hpath
        rw [hconnect] at hk
        cases hk
        exact hconn hconn'
  | none =>
    have hno : ¬ ∃ path k, (none : Option (List UInt8)) = some path ∧
        os.connectUnixBackend path = some k ∧ k.nonblock = true ∧ k.fd < os.maxConnectionFd := by
      rintro ⟨path, k, hpath, -⟩
      cases hpath
    refine iff_of_true ?_ hno
    by_cases hzero : target.sAddr = 0 ∧ target.ipv6 = fun _ => 0
    · rw [if_pos hzero]
      exact ⟨_, rfl, (by decide : (-17 : ℤ) < 0)⟩
    · rw [if_neg hzero]
      cases hk : targetSocket os target (passPort c info) with
      | none => exact ⟨_, rfl, (by decide : (-27 : ℤ) < 0)⟩
      | some k => exact passTo_target hos hk (passPort_range c hport).1 (passPort_range c hport).2

/-- A system on which every connection is made at once. -/
def sampleSockets : Sockets :=
  ⟨fun _ _ => some ⟨9, true, .inet 0x7f000001#32 4000, true⟩, fun _ _ => none,
    fun _ => some ⟨9, true, .unix, true⟩, 1000⟩

theorem sampleSockets_documented : sampleSockets.Documented where
  inet := by
    intro ip port k h
    cases h
    exact ⟨⟨_, _, rfl⟩, rfl⟩
  inet6 := by
    intro ip port k h
    cases h
  unix := by
    intro path k h
    cases h
    exact ⟨rfl, rfl⟩

/-- `a`, with the backend `10.0.0.1`. -/
theorem proxy_connection_handled_inet :
    (parseDomain [0x61] (some sampleText)).bind checkDomain =
        .ok ⟨[0x61], some sampleText, none, 443⟩ ∧
      ∃ outcome, PassClient.proxyConnection ⟨443, [1, 2]⟩ sampleSockets
        ⟨[0x61], some sampleText, none, 443⟩
        (resolveTarget sampleAddresses (fun _ => none) true ⟨[0x61], some sampleText, none, 443⟩) =
          some outcome ∧ outcome.Handled ⟨443, [1, 2]⟩ ⟨[0x61], some sampleText, none, 443⟩
        (resolveTarget sampleAddresses (fun _ => none) true
          ⟨[0x61], some sampleText, none, 443⟩) := by
  have haccepted : (parseDomain [0x61] (some sampleText)).bind checkDomain =
      .ok ⟨[0x61], some sampleText, none, 443⟩ := by decide +kernel
  refine ⟨haccepted, (proxy_connection_handled sampleSockets_documented sampleAddresses
    (fun _ => none) true haccepted ⟨443, [1, 2]⟩).2 ?_⟩
  rintro ⟨path, k, hpath, -⟩
  cases hpath

/-- `a`, with the backend `/x`: the specification is accepted, the socket is connected, and an
assertion fails. -/
theorem proxy_connection_unix :
    sampleSockets.Documented ∧
      (parseDomain [0x61] (some [0x2f, 0x78])).bind checkDomain =
        .ok ⟨[0x61], none, some [0x2f, 0x78], 443⟩ ∧
      PassClient.proxyConnection ⟨443, [1, 2]⟩ sampleSockets ⟨[0x61], none, some [0x2f, 0x78], 443⟩
        (resolveTarget sampleAddresses (fun _ => none) true
          ⟨[0x61], none, some [0x2f, 0x78], 443⟩) = none := by
  refine ⟨sampleSockets_documented, by decide +kernel, by decide +kernel⟩

end Mtbolt.ExtServer
