import Mtbolt.Lib.EventRun
import Mtbolt.Net.ProxyProtocol
import Mtbolt.Net.Reader

/-!
# Passing a visitor on to the backend

A connection that turns out to be no client is handed to the camouflage backend with everything it
has sent (`proxy_connection` of `net-tcp-rpc-ext-server.c`), from inside the parser or from the
handshake timeout.  This file is the parser up to the handshake, the timeout, and the reader around
them, as far as the bytes of the connection are concerned.  What the parser learns from elsewhere
(the verdict on a ClientHello or an obfuscated2 header, the access list, whether the backend
accepts a connection) is an argument of the event.

`received` logs all bytes the I/O side has queued, `header` the PROXY protocol header that was cut
off, and `backend` the bytes queued to the backend.
-/

namespace Mtbolt.ExtServer

open CString (InetPton)
open EventRun Net List Words

/-! ### The connection -/

/-- `ct_tcp_rpc_ext_server` and `ct_proxy_pass`. -/
inductive VisitorType
  | extServer
  | proxyPass
  deriving DecidableEq, Repr

/-- `handshaken` says that `in_packet_num` is no longer `-3`; `proxyProtocol` is the flag
`C_PROXY_PROTOCOL`. -/
structure VisitorData where
  type : VisitorType
  handshaken : Bool
  proxyProtocol : Bool
  isTls : Bool
  header : List UInt8
  backend : List UInt8
  received : List UInt8
  deriving DecidableEq, Repr

abbrev Visitor := ConnInfo UInt8 Unit VisitorData

/-- The settings of the process: `tls_transport_is_strict_only ()`, `allow_only_tls`, whether there
is a `default_domain_info`, and `proxy_protocol_enabled`. -/
structure CamouflageConfig where
  strictOnly : Bool
  allowOnlyTls : Bool
  defaultDomain : Bool
  proxyProtocolEnabled : Bool
  pton : InetPton

/-- What the parser finds outside the connection.  `helloAccepted` is the outcome of all the checks
on a ClientHello, `headerTag` of `obfs2_parse_header`: whether the tag asks for padding. -/
structure Outside where
  haveSecrets : Bool
  helloAccepted : Bool
  headerTag : Option Bool
  aclOk : Bool
  backendUp : Bool
  deriving DecidableEq, Repr

/-- `fail_connection`. -/
def failVisitor (c : Visitor) : Visitor := { c with failed := true }

/-! ### The parser -/

/-- `tcp_proxy_pass_parse_execute`. -/
def proxyPassParseExecute (c : Visitor) : Visitor × ℤ :=
  ({ c with inn := [], data := { c.data with backend := c.data.backend ++ c.inn } }, 0)

/-- `proxy_connection`. -/
def proxyConnection (o : Outside) (c : Visitor) : Visitor × ℤ :=
  if o.backendUp then
    proxyPassParseExecute { c with crypto := none, data := { c.data with type := .proxyPass } }
  else (failVisitor c, 0)

/-- The branch for a TLS record with a ClientHello. -/
def parseClientHello (o : Outside) (c : Visitor) : Visitor × ℤ :=
  let len := c.inn.length
  let minLen := 5 + be16 c.inn 3
  if len < minLen then (c, minLen - len)
  else if len > minLen ∨ len > 4096 ∨ !o.helloAccepted then proxyConnection o c
  else ({ c with inn := c.inn.drop len, data := { c.data with isTls := true } }, 11)

/-- The 64-byte header.  Once it has passed, the bytes after it belong to the frame loop. -/
def parseHeader (cfg : CamouflageConfig) (o : Outside) (c : Visitor) : Visitor × ℤ :=
  if cfg.strictOnly && !c.data.isTls then proxyConnection o c
  else if c.inn.length < 64 then (c, 64 - c.inn.length)
  else
    match o.headerTag with
    | none => (c, -0x10000000)
    | some pad =>
      if !pad && cfg.strictOnly then proxyConnection o c
      else
        ({ c with
            inU := c.inU ++ c.inn.drop 64
            inn := []
            crypto := some ()
            data := { c.data with handshaken := true } }, needMoreBytes)

/-- `"\x14\x03\x03\x00\x01\x01\x17\x03\x03"`. -/
def changeCipherSpec : List UInt8 := [0x14, 3, 3, 0, 1, 1, 0x17, 3, 3]

/-- The dummy ChangeCipherSpec and the first record after a ServerHello. -/
def parseFirstRecord (cfg : CamouflageConfig) (o : Outside) (c : Visitor) : Visitor × ℤ :=
  let len := c.inn.length
  let left := be16 c.inn 9
  if len < 11 then (c, 11 - len)
  else if c.inn.take 9 ≠ changeCipherSpec then (failVisitor c, 0)
  else if len < 11 + left then (c, 11 + left - len)
  else
    let c := { c with inn := c.inn.drop 11 }
    if left < 64 then (failVisitor c, 0) else parseHeader cfg o c

/-- The bytes start a TLS record with a ClientHello; the fourth byte is read as signed. -/
def isTlsRecord (inn : List UInt8) : Bool :=
  inn.take 3 = [0x16, 3, 1] && 2 ≤ byteAt inn 3 && byteAt inn 3 < 128

/-- The detection of the connection's type, past any PROXY protocol header. -/
def detectType (cfg : CamouflageConfig) (o : Outside) (c : Visitor) : Visitor × ℤ :=
  if c.data.isTls then parseFirstRecord cfg o c
  else if isTlsRecord c.inn && o.haveSecrets && cfg.allowOnlyTls then parseClientHello o c
  else parseHeader cfg o c

/-- The length checks before the detection: `min_len` is `1` before the handshake. -/
def withNineBytes (c : Visitor) (k : Visitor → Visitor × ℤ) : Visitor × ℤ :=
  if c.inn.length = 0 then (c, needMoreBytes)
  else if c.inn.length < 9 then (c, 9 - c.inn.length)
  else k c

/-- The PROXY protocol header is cut off. -/
def stripHeader (c : Visitor) (n : ℕ) : Visitor :=
  { c with
    inn := c.inn.drop n
    data := { c.data with proxyProtocol := false, header := c.inn.take n } }

/-- `tcp_rpcs_compact_parse_execute` before the handshake. -/
def compactParseExecute (cfg : CamouflageConfig) (o : Outside) (c : Visitor) : Visitor × ℤ :=
  withNineBytes c fun c =>
    if c.data.proxyProtocol then
      match proxyProtocolParse cfg.pton c.inn with
      | .more => (c, if c.inn.length < 16 then 16 - c.inn.length else needMoreBytes)
      | .error => (failVisitor c, 0)
      | .ok n out =>
        if out.family ≠ .unknown ∧ !o.aclOk then (failVisitor (stripHeader c n), 0)
        else withNineBytes (stripHeader c n) (detectType cfg o)
    else detectType cfg o c

/-- `parse_execute` of the connection's type.  After the handshake it is the frame loop, which is
not followed here. -/
def visitorParseExecute (cfg : CamouflageConfig) (o : Outside) (c : Visitor) : Visitor × ℤ :=
  match c.data.type with
  | .proxyPass => proxyPassParseExecute c
  | .extServer =>
    if c.data.handshaken then (c, needMoreBytes) else compactParseExecute cfg o c

def visitorFuncs (cfg : CamouflageConfig) (o : Outside) : ConnFuncs UInt8 Unit VisitorData where
  cryptoDecryptInput := fun c => (c, 0)
  parseExecute := visitorParseExecute cfg o

/-! ### Events -/

/-- `tcp_rpcs_ext_alarm`: the connection is before its handshake when the timer fires. -/
def visitorAlarm (cfg : CamouflageConfig) (o : Outside) (c : Visitor) : Visitor :=
  match c.data.type with
  | .proxyPass => c
  | .extServer =>
    if c.data.proxyProtocol then failVisitor c
    else if c.data.handshaken then c
    else if cfg.defaultDomain then (proxyConnection o c).1
    else failVisitor c

inductive VisitorEvent
  | receive (raw : List UInt8)
  | run (o : Outside)
  | alarm (o : Outside)
  | fail
  deriving DecidableEq, Repr

def visitorStep (cfg : CamouflageConfig) (c : Visitor) : VisitorEvent → Option Visitor
  | .receive raw => some { c with
      inQueue := c.inQueue ++ [raw], data := { c.data with received := c.data.received ++ raw } }
  | .run o => some (reader (visitorFuncs cfg o) c)
  | .alarm o => if c.failed then none else some (visitorAlarm cfg o c)
  | .fail => some (failVisitor c)

/-- A connection after `tcp_rpcs_ext_init_accepted`. -/
def visitorStart (cfg : CamouflageConfig) : Visitor where
  inQueue := []
  inU := []
  inn := []
  crypto := none
  skipBytes := 0
  failed := false
  stopRead := false
  data := ⟨.extServer, false, cfg.proxyProtocolEnabled, false, [], [], []⟩

/-! ### The bytes stay in order -/

/-- No byte of the connection is lost: what was received is the PROXY protocol header, what the
backend was given, the parse buffer and the queue. -/
structure Intact (pton : InetPton) (c : Visitor) : Prop where
  stream : c.data.received = c.data.header ++ (c.data.backend ++ (c.inn ++ c.inQueue.flatten))
  clear : c.crypto = none
  reading : c.stopRead = false
  waiting : c.data.type = .extServer → c.data.backend = []
  passed : c.data.type = .proxyPass → c.skipBytes = 0
  flagged : c.data.proxyProtocol = true → c.data.header = []
  header : c.data.header = [] ∨ ∃ rest out,
    proxyProtocolParse pton (c.data.header ++ rest) = .ok c.data.header.length out

/-- What a call of the parser on `c` does; the bytes are only followed while the connection is in
clear and no ServerHello was sent. -/
structure Outcome (pton : InetPton) (c : Visitor) (r : Visitor × ℤ) : Prop where
  intact : r.1.data.isTls = false → r.1.data.handshaken = false → Intact pton r.1
  inQueue : r.1.inQueue = c.inQueue
  passed : r.1.data.type = .proxyPass → r.2 = 0 ∧ r.1.inn = []
  blocked : r.2 = 0 → r.1.blocked = true

section Parser

variable {pton : InetPton} {c : Visitor}

section

variable (hc : Intact pton c)
include hc

theorem Intact.fail : Intact pton (failVisitor c) := { hc with }

theorem outcome_fail (htype : c.data.type = .extServer) : Outcome pton c (failVisitor c, 0) where
  intact := fun _ _ => hc.fail
  inQueue := rfl
  passed := fun h => absurd (htype.symm.trans h) nofun
  blocked := fun _ => by simp [ConnInfo.blocked, failVisitor]

theorem outcome_answer (htype : c.data.type = .extServer) {res : ℤ} (hres : res ≠ 0) :
    Outcome pton c (c, res) where
  intact := fun _ _ => hc
  inQueue := rfl
  passed := fun h => absurd (htype.symm.trans h) nofun
  blocked := fun h => absurd h hres

theorem intact_proxyPass (htype : c.data.type = .proxyPass) :
    Intact pton (proxyPassParseExecute c).1 where
  stream := by
    show c.data.received = c.data.header ++ ((c.data.backend ++ c.inn) ++ ([] ++ c.inQueue.flatten))
    rw [hc.stream, nil_append, append_assoc]
  clear := hc.clear
  reading := hc.reading
  waiting := fun h => absurd (htype.symm.trans h) nofun
  passed := hc.passed
  flagged := hc.flagged
  header := hc.header

theorem outcome_proxyPass (htype : c.data.type = .proxyPass) :
    Outcome pton c (proxyPassParseExecute c) where
  intact := fun _ _ => intact_proxyPass hc htype
  inQueue := rfl
  passed := fun _ => ⟨rfl, rfl⟩
  blocked := fun _ => by simp [ConnInfo.blocked, proxyPassParseExecute]

section

variable (htype : c.data.type = .extServer) (hskip : c.skipBytes = 0) (o : Outside)
include htype hskip

theorem outcome_proxyConnection : Outcome pton c (proxyConnection o c) := by
  unfold proxyConnection
  split_ifs
  · have hpass : Intact pton
        { c with crypto := none, data := { c.data with type := .proxyPass } } :=
      { hc with clear := rfl, waiting := nofun, passed := fun _ => hskip }
    have hout := outcome_proxyPass hpass rfl
    exact { hout with }
  · exact outcome_fail hc htype

theorem outcome_parseClientHello : Outcome pton c (parseClientHello o c) := by
  unfold parseClientHello
  dsimp only
  split_ifs with hlen hbad
  · exact outcome_answer hc htype (by omega)
  · exact outcome_proxyConnection hc htype hskip o
  · exact ⟨nofun, rfl, fun h => absurd (htype.symm.trans h) nofun, nofun⟩

theorem outcome_parseHeader (cfg : CamouflageConfig) : Outcome pton c (parseHeader cfg o c) := by
  unfold parseHeader
  split_ifs with hstrict hlen
  · exact outcome_proxyConnection hc htype hskip o
  · exact outcome_answer hc htype (by omega)
  · cases o.headerTag with
    | none => exact outcome_answer hc htype (by decide)
    | some pad =>
      dsimp only
      split_ifs
      · exact outcome_proxyConnection hc htype hskip o
      · exact ⟨fun _ => nofun, rfl, fun h => absurd (htype.symm.trans h) nofun, nofun⟩

theorem outcome_detectType
    (htls : c.data.isTls = false) (cfg : CamouflageConfig) :
    Outcome pton c (detectType cfg o c) := by
  unfold detectType
  rw [htls, if_neg Bool.false_ne_true]
  split_ifs
  · exact outcome_parseClientHello hc htype hskip o
  · exact outcome_parseHeader hc htype hskip o cfg

end

variable {k : Visitor → Visitor × ℤ}

theorem outcome_withNineBytes (htype : c.data.type = .extServer)
    (hk : Outcome pton c (k c)) : Outcome pton c (withNineBytes c k) := by
  unfold withNineBytes
  split_ifs
  · exact outcome_answer hc htype (by decide)
  · exact outcome_answer hc htype (by omega)
  · exact hk

theorem intact_stripHeader (htype : c.data.type = .extServer) (hflag : c.data.proxyProtocol = true)
    {n : ℕ} {out : ProxyProtocolResult} (hparse : proxyProtocolParse pton c.inn = .ok n out) :
    Intact pton (stripHeader c n) where
  stream := by
    show c.data.received = c.inn.take n ++ (c.data.backend ++ (c.inn.drop n ++ c.inQueue.flatten))
    rw [hc.stream, hc.flagged hflag, hc.waiting htype, nil_append, nil_append,
      nil_append, ← append_assoc, take_append_drop]
  clear := hc.clear
  reading := hc.reading
  waiting := hc.waiting
  passed := hc.passed
  flagged := nofun
  header := by
    have hlen := (length_proxyProtocolParse hparse).2
    refine .inr ⟨c.inn.drop n, out, ?_⟩
    show proxyProtocolParse pton (c.inn.take n ++ c.inn.drop n) = .ok (c.inn.take n).length out
    rw [take_append_drop, length_take, min_eq_left hlen]
    exact hparse

end

end Parser

variable {c : Visitor} {pton : InetPton}

theorem parse_spec (cfg : CamouflageConfig) (o : Outside) (hc : Intact cfg.pton c)
    (htype : c.data.type = .extServer) (hskip : c.skipBytes = 0) (htls : c.data.isTls = false) :
    Outcome cfg.pton c (compactParseExecute cfg o c) := by
  refine outcome_withNineBytes hc htype ?_
  by_cases hflag : c.data.proxyProtocol = true
  · rw [if_pos hflag]
    cases hparse : proxyProtocolParse cfg.pton c.inn with
    | more =>
      refine outcome_answer hc htype ?_
      split_ifs
      · omega
      · decide
    | error => exact outcome_fail hc htype
    | ok n out =>
      have hstrip := intact_stripHeader hc htype hflag hparse
      have hout {r : Visitor × ℤ} (h : Outcome cfg.pton (stripHeader c n) r) :
          Outcome cfg.pton c r := { h with }
      dsimp only
      split_ifs
      · exact hout (outcome_fail hstrip htype)
      · exact hout (outcome_withNineBytes hstrip htype
          (outcome_detectType hstrip htype hskip o htls cfg))
  · rw [if_neg hflag]
    exact outcome_detectType hc htype hskip o htls cfg

/-! ### Connections that are no longer followed -/

/-- A ServerHello was sent, or the handshake is over. -/
def Visitor.settled (c : Visitor) : Bool := c.data.isTls || c.data.handshaken

/-- `c'` comes after `c`: a settled connection stays so, and past its handshake a connection is not
handed over. -/
structure Onward (c c' : Visitor) : Prop where
  settled : Visitor.settled c = true → Visitor.settled c' = true
  ends : c'.data.handshaken = true → c'.data.type = .extServer

section Onward

variable {c : Visitor} (o : Outside)

section

variable (hhs : c.data.handshaken = false)
include hhs

variable {c' : Visitor}

theorem onward_of_data (htls : c'.data.isTls = c.data.isTls)
    (hhs' : c'.data.handshaken = c.data.handshaken) : Onward c c' :=
  ⟨fun h => by rwa [Visitor.settled, htls, hhs'],
    fun h => absurd (h.symm.trans (hhs'.trans hhs)) nofun⟩

theorem onward_proxyConnection : Onward c (proxyConnection o c).1 := by
  unfold proxyConnection
  split_ifs
  · exact onward_of_data hhs rfl rfl
  · exact onward_of_data hhs rfl rfl

theorem onward_parseHeader (htype : c.data.type = .extServer) (cfg : CamouflageConfig) :
    Onward c (parseHeader cfg o c).1 := by
  unfold parseHeader
  split_ifs
  · exact onward_proxyConnection o hhs
  · exact onward_of_data hhs rfl rfl
  · cases o.headerTag with
    | none => exact onward_of_data hhs rfl rfl
    | some pad =>
      dsimp only
      split_ifs
      · exact onward_proxyConnection o hhs
      · exact ⟨fun _ => Bool.or_true _, fun _ => htype⟩

theorem onward_detectType (htype : c.data.type = .extServer) (cfg : CamouflageConfig) :
    Onward c (detectType cfg o c).1 := by
  have hsame : Onward c c := onward_of_data hhs rfl rfl
  unfold detectType
  split_ifs
  · have hdrop : Onward { c with inn := c.inn.drop 11 }
        (parseHeader cfg o { c with inn := c.inn.drop 11 }).1 :=
      onward_parseHeader (c := { c with inn := c.inn.drop 11 }) o hhs htype cfg
    unfold parseFirstRecord
    dsimp only
    split_ifs
    · exact hsame
    · exact onward_of_data hhs rfl rfl
    · exact hsame
    · exact onward_of_data hhs rfl rfl
    · exact ⟨hdrop.settled, hdrop.ends⟩
  · unfold parseClientHello
    dsimp only
    split_ifs
    · exact hsame
    · exact onward_proxyConnection o hhs
    · exact ⟨fun _ => rfl, hsame.ends⟩
  · exact onward_parseHeader o hhs htype cfg

theorem onward_withNineBytes (hk : Onward c (k c).1) : Onward c (withNineBytes c k).1 := by
  unfold withNineBytes
  split_ifs
  · exact onward_of_data hhs rfl rfl
  · exact onward_of_data hhs rfl rfl
  · exact hk

end

theorem onward_parse (cfg : CamouflageConfig)
    (hends : c.data.handshaken = true → c.data.type = .extServer) :
    Onward c (visitorParseExecute cfg o c).1 := by
  unfold visitorParseExecute
  split
  · exact ⟨id, hends⟩
  · next htype =>
    split_ifs with hhs
    · exact ⟨id, hends⟩
    · rw [Bool.not_eq_true] at hhs
      refine onward_withNineBytes hhs ?_
      by_cases hflag : c.data.proxyProtocol = true
      · rw [if_pos hflag]
        cases proxyProtocolParse cfg.pton c.inn with
        | more => exact onward_of_data hhs rfl rfl
        | error => exact onward_of_data hhs rfl rfl
        | ok n out =>
          have hstrip : Onward (stripHeader c n)
              (withNineBytes (stripHeader c n) (detectType cfg o)).1 :=
            onward_withNineBytes (c := stripHeader c n) hhs
              (onward_detectType (c := stripHeader c n) o hhs htype cfg)
          dsimp only
          split_ifs
          · exact onward_of_data hhs rfl rfl
          · exact ⟨hstrip.settled, hstrip.ends⟩
      · rw [if_neg hflag]
        exact onward_detectType o hhs htype cfg

theorem onward_reader (cfg : CamouflageConfig)
    (hends : c.data.handshaken = true → c.data.type = .extServer) :
    Onward c (reader (visitorFuncs cfg o) c) := by
  refine reader_invariant (I := Onward c) (fun c' hc => ?_) (fun c' hc _ => hc)
    (fun c' hc => ?_) (fun c' res hc => ⟨hc.settled, hc.ends⟩) (fun c' hc _ => ?_) ⟨id, hends⟩
  · unfold ConnInfo.popAll
    split_ifs
    · exact ⟨hc.settled, hc.ends⟩
    · exact ⟨hc.settled, hc.ends⟩
  · unfold ConnInfo.applySkip
    split_ifs
    · exact ⟨hc.settled, hc.ends⟩
    · exact ⟨hc.settled, hc.ends⟩
    · exact hc
  · have hparse := onward_parse o cfg hc.ends
    exact ⟨fun h => hparse.settled (hc.settled h), hparse.ends⟩

end Onward

/-! ### A run of the reader -/

theorem intact_applySkip (hc : Intact pton c) (hskip : c.data.type = .extServer → 0 ≤ c.skipBytes) :
    Intact pton c.applySkip := by
  have hnonneg : ¬c.skipBytes < 0 := by
    cases htype : c.data.type with
    | extServer => exact not_lt.2 (hskip htype)
    | proxyPass => rw [hc.passed htype]; decide
  unfold ConnInfo.applySkip
  split_ifs
  · exact { hc with passed := fun _ => rfl }
  · exact hc

/-- What a run of the reader leaves behind. -/
structure AfterRun (pton : InetPton) (c : Visitor) : Prop where
  intact : c.data.isTls = false → c.data.handshaken = false → Intact pton c
  inQueue : c.inQueue = []
  delivered : c.data.type = .proxyPass → c.failed = false → c.inn = []

variable (cfg : CamouflageConfig) (o : Outside)

theorem afterRun_readerLoop (hc : Intact cfg.pton c) (htls : c.data.isTls = false)
    (hhs : c.data.handshaken = false) (hqueue : c.inQueue = []) (fuel : ℕ) :
    AfterRun cfg.pton (readerLoop (visitorFuncs cfg o) (fuel + 1) c) := by
  cases hblocked : c.blocked with
  | true =>
    rw [readerLoop, hblocked, if_pos rfl]
    refine ⟨fun _ _ => hc, hqueue, fun htype hfailed => ?_⟩
    simpa [ConnInfo.blocked, hc.passed htype, hfailed, hc.reading] using hblocked
  | false =>
    have hskip : c.skipBytes = 0 := by
      simp only [ConnInfo.blocked, Bool.or_eq_false_iff, decide_eq_false_iff_not, not_not]
        at hblocked
      exact hblocked.1.1.1
    have hout : Outcome cfg.pton c (visitorParseExecute cfg o c) := by
      unfold visitorParseExecute
      cases htype : c.data.type with
      | proxyPass => exact outcome_proxyPass hc htype
      | extServer =>
        rw [hhs]
        exact parse_spec cfg o hc htype hskip htls
    rw [readerLoop_of_blocked hblocked hout.blocked]
    dsimp only
    split_ifs with hres
    · exact ⟨hout.intact, hout.inQueue.trans hqueue, fun htype _ => (hout.passed htype).2⟩
    · -- only a connection that was not handed over has an answer pending
      have htype : (visitorParseExecute cfg o c).1.data.type ≠ .proxyPass :=
        fun h => hres (.inl (hout.passed h).1)
      refine ⟨fun h h' => ?_, hout.inQueue.trans hqueue, fun h => absurd h htype⟩
      have hi := hout.intact h h'
      exact { hi with passed := fun h => absurd h htype }

theorem afterRun_reader (hc : Intact cfg.pton c) (htls : c.data.isTls = false)
    (hhs : c.data.handshaken = false) (hskip : c.data.type = .extServer → 0 ≤ c.skipBytes) :
    AfterRun cfg.pton (reader (visitorFuncs cfg o) c) := by
  have hpop : Intact cfg.pton { c with inn := c.inn ++ c.inQueue.flatten, inQueue := [] } :=
    { hc with stream := by simpa using hc.stream }
  rw [reader_of_clear hc.clear]
  split_ifs with hfailed
  · rw [hc.reading, Bool.or_false] at hfailed
    exact ⟨fun _ _ => hpop, rfl, fun _ h => absurd (hfailed.symm.trans h) nofun⟩
  · have hdata (c : Visitor) : c.applySkip.data = c.data ∧ c.applySkip.inQueue = c.inQueue := by
      unfold ConnInfo.applySkip
      split_ifs <;> exact ⟨rfl, rfl⟩
    refine afterRun_readerLoop cfg o (intact_applySkip hpop hskip) ?_ ?_ ?_ _
    · rw [(hdata _).1]
      exact htls
    · rw [(hdata _).1]
      exact hhs
    · rw [(hdata _).2]

/-! ### Whole runs -/

/-- The timeout hands the connection over. -/
def timesOut (cfg : CamouflageConfig) (c : Visitor) : Bool :=
  c.data.type = .extServer && !c.data.proxyProtocol && !c.data.handshaken && cfg.defaultDomain

/-- The timeout hands the connection over only when no answer of the parser is pending, and before
the handshake the reader never finds bytes to skip. -/
def NothingPending (cfg : CamouflageConfig) (c : Visitor) : VisitorEvent → Prop
  | .alarm _ => timesOut cfg c = true → c.skipBytes = 0
  | .run _ => c.data.type = .extServer → c.data.handshaken = false → 0 ≤ c.skipBytes
  | _ => True

instance (cfg : CamouflageConfig) (c : Visitor) (e : VisitorEvent) :
    Decidable (NothingPending cfg c e) := by
  unfold NothingPending
  split <;> infer_instance

/-- The bytes of a connection that is still followed are intact, and no connection past its
handshake was handed over. -/
structure Transparent (pton : InetPton) (c : Visitor) : Prop where
  intact : c.data.isTls = false → c.data.handshaken = false → Intact pton c
  ends : c.data.handshaken = true → c.data.type = .extServer

theorem transparent_of_onward (h : Onward c c')
    (hintact : c.data.isTls = false → c.data.handshaken = false → c'.data.isTls = false →
      c'.data.handshaken = false → Intact pton c') :
    Transparent pton c' := by
  refine ⟨fun htls' hhs' => ?_, h.ends⟩
  have hopen : ¬Visitor.settled c = true := fun hc => by
    simpa [Visitor.settled, htls', hhs'] using h.settled hc
  simp only [Visitor.settled, Bool.or_eq_true, not_or, Bool.not_eq_true] at hopen
  exact hintact hopen.1 hopen.2 htls' hhs'

theorem Transparent.fail (hc : Transparent pton c) : Transparent pton (failVisitor c) :=
  ⟨fun h h' => (hc.intact h h').fail, hc.ends⟩

theorem transparent_alarm {cfg : CamouflageConfig} (hc : Transparent cfg.pton c) {o : Outside}
    (hok : NothingPending cfg c (.alarm o)) : Transparent cfg.pton (visitorAlarm cfg o c) := by
  unfold visitorAlarm
  cases htype : c.data.type with
  | proxyPass => exact hc
  | extServer =>
    split_ifs with hflag hhs hdomain
    · exact hc.fail
    · exact hc
    · have hskip : c.skipBytes = 0 := hok (by simp [timesOut, htype, hflag, hhs, hdomain])
      rw [Bool.not_eq_true] at hhs
      refine transparent_of_onward (onward_proxyConnection o hhs) fun htls _ => ?_
      exact (outcome_proxyConnection (hc.intact htls hhs) htype hskip o).intact
    · exact hc.fail

theorem transparent_step {cfg : CamouflageConfig} {e : VisitorEvent}
    (hc : Transparent cfg.pton c) (hok : NothingPending cfg c e)
    (h : visitorStep cfg c e = some c') : Transparent cfg.pton c' := by
  cases e with
  | receive raw =>
    cases h
    refine ⟨fun htls hhs => ?_, hc.ends⟩
    obtain ⟨hstream, hclear, hread, hwait, hpass, hflag, hheader⟩ := hc.intact htls hhs
    refine ⟨?_, hclear, hread, hwait, hpass, hflag, hheader⟩
    simp [hstream]
  | run o =>
    cases h
    refine transparent_of_onward (onward_reader o cfg hc.ends) fun htls hhs => ?_
    exact (afterRun_reader cfg o (hc.intact htls hhs) htls hhs fun htype => hok htype hhs).intact
  | alarm o =>
    simp only [visitorStep] at h
    split_ifs at h
    cases h
    exact transparent_alarm hc hok
  | fail =>
    cases h
    exact hc.fail

theorem transparent_start : Transparent cfg.pton (visitorStart cfg) :=
  ⟨fun _ _ => ⟨rfl, rfl, rfl, fun _ => rfl, nofun, fun _ => rfl, .inl rfl⟩, nofun⟩

/-- The bytes of the client after the PROXY protocol header, if there was one. -/
def AfterHeader (pton : InetPton) (header received : List UInt8) (bytes : List UInt8) : Prop :=
  received = header ++ bytes ∧ (header = [] ∨
    ∃ rest out, proxyProtocolParse pton (header ++ rest) = .ok header.length out)

/-- **The backend gets the client's bytes**, in order and each once, from every connection that is
handed over before a ServerHello, in every run that meets the condition.  After a run of the reader
it has got all of them. -/
theorem camouflage_transparent (cfg : CamouflageConfig) (es : List VisitorEvent) {c : Visitor}
    (hok : Along (visitorStep cfg) (NothingPending cfg) (visitorStart cfg) es)
    (hrun : run (visitorStep cfg) (visitorStart cfg) es = some c)
    (htype : c.data.type = .proxyPass) (htls : c.data.isTls = false) :
    AfterHeader cfg.pton c.data.header c.data.received
        (c.data.backend ++ (c.inn ++ c.inQueue.flatten)) ∧
      ((∃ es' o, es = es' ++ [.run o]) → c.failed = false →
        AfterHeader cfg.pton c.data.header c.data.received c.data.backend) := by
  have hreach {es : List VisitorEvent} {c : Visitor}
      (hok : Along (visitorStep cfg) (NothingPending cfg) (visitorStart cfg) es)
      (hrun : run (visitorStep cfg) (visitorStart cfg) es = some c) : Transparent cfg.pton c :=
    run_invariant (fun _ _ _ hc hok h => transparent_step hc hok h) (transparent_start cfg) hok hrun
  have hc := hreach hok hrun
  have hhs : c.data.handshaken = false := by
    cases hhs : c.data.handshaken with
    | false => rfl
    | true => cases htype.symm.trans (hc.ends hhs)
  have hi := hc.intact htls hhs
  refine ⟨⟨hi.stream, hi.header⟩, ?_⟩
  rintro ⟨es', o, rfl⟩ hfailed
  obtain ⟨hok', hlast⟩ := hok.of_append
  rw [run_append] at hrun
  obtain ⟨c', hrun', hstep⟩ := Option.bind_eq_some_iff.1 hrun
  obtain rfl : reader (visitorFuncs cfg o) c' = c := Option.some.inj hstep
  have hc' := hreach hok' hrun'
  -- the connection was followed before the run, too
  have hopen : ¬Visitor.settled c' = true := fun h => by
    simpa [Visitor.settled, htls, hhs] using (onward_reader o cfg hc'.ends).settled h
  simp only [Visitor.settled, Bool.or_eq_true, not_or, Bool.not_eq_true] at hopen
  have hafter := afterRun_reader cfg o (hc'.intact hopen.1 hopen.2) hopen.1 hopen.2
    fun htype => (hlast c' hrun').1 htype hopen.2
  refine ⟨?_, hi.header⟩
  have hstream := hi.stream
  rwa [hafter.inQueue, hafter.delivered htype hfailed, flatten_nil, append_nil,
    append_nil] at hstream

/-- A process with a backend, in strict or in mixed mode. -/
def sampleConfig (strictOnly : Bool) : CamouflageConfig :=
  ⟨strictOnly, true, true, false, ⟨fun _ => none, fun _ => none⟩⟩

/-- Nothing authenticates, and the backend answers. -/
def sampleOutside : Outside := ⟨true, false, none, true, true⟩

/-- A visitor of a strict server sends eleven bytes in two reads. -/
def sampleVisit : List VisitorEvent :=
  [.receive [1, 2, 3, 4, 5, 6, 7, 8, 9], .run sampleOutside, .receive [10, 11], .run sampleOutside]

theorem camouflage_transparent_sampleVisit :
    ∃ c, run (visitorStep (sampleConfig true)) (visitorStart (sampleConfig true)) sampleVisit =
        some c ∧ c.data.backend = [1, 2, 3, 4, 5, 6, 7, 8, 9, 10, 11] ∧
      AfterHeader (sampleConfig true).pton c.data.header c.data.received c.data.backend :=
  ⟨_, rfl, by decide, (camouflage_transparent (sampleConfig true) sampleVisit (by decide) rfl
    (by decide) (by decide)).2 ⟨sampleVisit.take 3, sampleOutside, rfl⟩ (by decide)⟩

/-- The parser has asked for five more bytes when the timeout fires: the next three bytes stay
withheld.  An invalid header has put the connection into skip mode when the timeout fires: the
bytes before and after it are dropped. -/
theorem camouflage_pending_answer :
    (∃ c, run (visitorStep (sampleConfig true)) (visitorStart (sampleConfig true))
        [.receive [1, 2, 3, 4], .run sampleOutside, .alarm sampleOutside, .receive [5, 6, 7],
          .run sampleOutside] = some c ∧
      c.data.type = .proxyPass ∧ c.data.isTls = false ∧ c.failed = false ∧
      c.data.received = [1, 2, 3, 4, 5, 6, 7] ∧ c.data.backend = [1, 2, 3, 4] ∧
      c.inn = [5, 6, 7]) ∧
    ∃ c, run (visitorStep (sampleConfig false)) (visitorStart (sampleConfig false))
        [.receive (List.replicate 64 0), .run sampleOutside, .receive [1], .run sampleOutside,
          .alarm sampleOutside, .receive [2], .run sampleOutside] = some c ∧
      c.data.type = .proxyPass ∧ c.data.isTls = false ∧ c.failed = false ∧
      c.data.received.length = 66 ∧ c.data.backend = [] ∧ c.inn = [] :=
  ⟨⟨_, rfl, by decide, by decide, by decide, by decide, by decide, by decide⟩,
    ⟨_, rfl, by decide, by decide, by decide, by decide, by decide, by decide⟩⟩

end Mtbolt.ExtServer
