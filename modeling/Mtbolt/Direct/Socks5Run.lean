import Mtbolt.Direct.Relay
import Mtbolt.Direct.Socks5Log

/-!
# The SOCKS5 handshake in a session

The responses of the upstream proxy come in any pieces, and the cipher is switched on in the middle of
the input.  Beside a session we record, for its present DC connection, what its socket has queued to
it, what it has relayed to the client, and the header that it has sent.
-/

namespace Mtbolt.Direct

open EventRun Net Option List

variable {κ : Type}

/-- The bytes that the socket of a DC connection has queued to it, the bytes that were relayed to the
client, and the header with its keys, once it is sent. -/
structure DcHistory (κ : Type) where
  received : List UInt8
  relayed : List UInt8
  init : Option (List UInt8 × AesCrypto κ)

/-- The history of a DC connection that is dialled. -/
def DcHistory.fresh (κ : Type) : DcHistory κ := ⟨[], [], none⟩

/-- A session with the history of its present DC connection. -/
structure DcTrace (κ : Type) where
  s : Session κ
  dc : DcHistory κ

/-- What a step adds to the history of the DC connection `d`. -/
def dcHistory (cfg : DirectConfig κ) (s : Session κ) (d : Conn κ) (h : DcHistory κ) :
    SessionEvent κ → DcHistory κ
  | .push .dc => { h with received := h.received ++ d.data.inFlight.getD [] }
  | .run .dc o =>
    { h with
      relayed := h.relayed ++ (connRun cfg o s.clientPeer d).data.relayed.flatten
      init :=
        if d.crypto.isNone && (connRun cfg o s.clientPeer d).crypto.isSome then
          some (o.init, o.initKeys)
        else h.init }
  | .alarm .dc wakeupTime o =>
    { h with relayed :=
        h.relayed ++ (connAlarm cfg wakeupTime o s.clientPeer d).1.data.relayed.flatten }
  | _ => h

/-- A step with the history of the DC connection. -/
def dcStep (cfg : DirectConfig κ) (t : DcTrace κ) (e : SessionEvent κ) : Option (DcTrace κ) :=
  (sessionStep cfg t.s e).map fun s =>
    ⟨s, t.s.dc.elim (.fresh κ) fun d => dcHistory cfg t.s d t.dc e⟩

/-! ### The phases of a DC connection -/

/-- A DC connection that has no cipher yet. -/
structure Plain (d : Conn κ) : Prop where
  type : d.data.type = .directDc
  tls : d.data.isTls = false
  left : d.data.leftTlsPacketLength = 0
  skipBytes : d.skipBytes = 0
  crypto : d.crypto = none
  inU : d.inU = []
  outQueue : d.data.outQueue = []
  outP : d.data.outP = []
  relayed : d.data.relayed = []
  unconnected : d.data.connected = false → d.data.inFlight = none ∧ d.inQueue = [] ∧ d.inn = []

/-- Where the handshake of the connection stands: what it has received was consumed in this log, was
refused, or is in its buffers. -/
structure Stands (cfg : DirectConfig κ) (received : List UInt8) (stage : Socks5Stage)
    (consumed refused sent : List UInt8) (d : Conn κ) : Prop where
  log : Socks5Log cfg.socks5 stage consumed sent
  going : stage ≠ .done
  state : d.data.socks5 = stage.state
  start : stage = .start ↔ d.data.connected = false ∨ d.data.readyPending = true
  output : d.data.ioOut ++ d.data.out = sent
  input : received = consumed ++ (refused ++ (d.inn ++ d.inQueue.flatten))
  refused : refused = [] ∨ d.failed = true ∧ Refused cfg.socks5 stage refused

/-- A DC connection that waits for its socket or for the proxy. -/
structure Talking (cfg : DirectConfig κ) (received : List UInt8) (d : Conn κ) : Prop
    extends Plain d where
  stands : ∃ stage consumed refused sent, Stands cfg received stage consumed refused sent d

/-- A DC connection that has sent the header `p`.  The handshake is complete, and the header follows
what was sent in it; if `clean`, what was relayed is the decryption of the bytes behind the
handshake. -/
structure Established (cfg : DirectConfig κ) (clean : Bool) (received relayed : List UInt8)
    (p : List UInt8 × AesCrypto κ) (d : Conn κ) : Prop where
  type : d.data.type = .directDc
  crypto : d.crypto.isSome = true
  socks5 : d.data.socks5 = .none
  log : ∃ consumed rest sent, Socks5Log cfg.socks5 .done consumed sent ∧
    received = consumed ++ rest ∧ sent ++ p.1 <+: d.data.ioOut ++ d.data.outP ∧
    (clean = true → Deciphers cfg false
      (ctr128DecryptInput cfg.crypt false ⟨rest, [], p.2.readAeskey, 0⟩) relayed d)

/-- A DC connection between two handlers, with its history. -/
inductive DcLogged (cfg : DirectConfig κ) (clean : Bool) (h : DcHistory κ) (d : Conn κ) : Prop
  | talking (hinit : h.init = none) (hrelayed : h.relayed = []) (hout : d.data.out = [])
    (htalk : Talking cfg h.received d)
  | established (p : List UInt8 × AesCrypto κ) (hinit : h.init = some p) (hout : d.data.outP = [])
    (hest : Established cfg clean h.received h.relayed p d)

/-! ### The reader -/

section Reader

variable {cfg : DirectConfig κ} {clean : Bool} {received relayed : List UInt8}
  {p : List UInt8 × AesCrypto κ} {d : Conn κ}

/-- `d'` has the same output and is in the same phase, with a cipher or without. -/
structure SamePhase (d d' : Conn κ) : Prop where
  type : d'.data.type = d.data.type
  crypto : d'.crypto.isSome = d.crypto.isSome
  socks5 : d'.data.socks5 = d.data.socks5
  outP : d'.data.outP = d.data.outP
  ioOut : d'.data.ioOut = d.data.ioOut

variable {d' : Conn κ} {h : DcHistory κ}

theorem SamePhase.established (h : SamePhase d d') (hd : Established cfg clean received relayed p d)
    (hdeciphers : clean = true → ∀ r, Deciphers cfg false r relayed d →
      Deciphers cfg false r relayed d') :
    Established cfg clean received relayed p d' := by
  obtain ⟨consumed, rest, sent, hlog, hinput, houtput, hrest⟩ := hd.log
  refine ⟨h.type.trans hd.type, h.crypto.trans hd.crypto, h.socks5.trans hd.socks5, consumed, rest,
    sent, hlog, hinput, ?_, fun hclean => hdeciphers hclean _ (hrest hclean)⟩
  rw [h.outP, h.ioOut]
  exact houtput

section

variable (cfg) (o : Outside κ) (peer : Option Peer) (htype : d.data.type = .directDc)
  (hsocks : d.data.socks5 = .none)
include htype hsocks

theorem samePhase_parseExecute :
    SamePhase d (parseExecute cfg o peer d).1 ∧ (parseExecute cfg o peer d).2 = 0 := by
  rw [parseExecute_of_directDc cfg o peer htype]
  unfold tcpDirectDcParseExecute
  rw [if_neg (not_not.2 hsocks)]
  cases peer with
  | none => exact ⟨(by constructor <;> rfl), rfl⟩
  | some client =>
    obtain ⟨inn, failed, stopRead, time, io, relayed, heq, -⟩ :=
      relayCounted_eq cfg o (some client) client.sid d
    dsimp only
    rw [heq]
    exact ⟨(by constructor <;> rfl), rfl⟩

theorem samePhase_reader : SamePhase d (reader (connFuncs cfg o peer) d) := by
  refine reader_rel (R := fun a b => a.data.type = .directDc → a.data.socks5 = .none →
    SamePhase a b) ?_ ?_ cfg o peer ?_ htype hsocks
  · intro a b c hab hbc ha ha'
    have h := hab ha ha'
    have h' := hbc (h.type.trans ha) (h.socks5.trans ha')
    exact ⟨h'.type.trans h.type, h'.crypto.trans h.crypto, h'.socks5.trans h.socks5,
      h'.outP.trans h.outP, h'.ioOut.trans h.ioOut⟩
  · intro a b h _ _
    obtain ⟨-, -, hcrypto, left, hdata⟩ := h
    refine ⟨?_, hcrypto, ?_, ?_, ?_⟩ <;> rw [hdata]
  · exact fun x _ _ hx hx' => (samePhase_parseExecute cfg o peer hx hx').1

end

/-- What the passes of the reader find: a handshake that goes on, of which the bytes behind a reply to
CONNECT are none if `clean`, or a connection that has just sent its header. -/
inductive Pass (cfg : DirectConfig κ) (clean : Bool) (received : List UInt8)
    (p : List UInt8 × AesCrypto κ) (d : Conn κ) : Prop
  | talking (htalk : Talking cfg received d) (hqueue : d.inQueue = [])
    (hready : d.data.readyPending = false)
    (hconnect : d.failed = false → d.data.socks5 = .connectSent →
      d.data.out = [] ∧ (clean = true → NothingBehind d.inn))
  | established (hest : Established cfg clean received [] p d)
    (hleft : clean = true → Exhausted cfg false d)

/-- What they leave. -/
def Passed (cfg : DirectConfig κ) (clean : Bool) (received : List UInt8)
    (p : List UInt8 × AesCrypto κ) (d : Conn κ) : Prop :=
  Talking cfg received d ∨ Established cfg clean received [] p d

theorem Pass.passed (h : Pass cfg clean received p d) : Passed cfg clean received p d := by
  cases h with
  | talking htalk => exact .inl htalk
  | established hest => exact .inr hest

theorem Stands.state_ne_none {stage : Socks5Stage} {consumed refused sent : List UInt8}
    (h : Stands cfg received stage consumed refused sent d) (hconn : d.data.connected = true)
    (hready : d.data.readyPending = false) : stage.state ≠ .none := by
  have hstart := h.start
  have hgoing := h.going
  cases stage with
  | start => simp [hconn, hready] at hstart
  | done => exact absurd rfl hgoing
  | greeting => decide
  | auth => decide
  | connect => decide

theorem plain_applySocks5 (hd : Plain d) (hconn : d.data.connected = true) (r : Socks5Step) :
    Plain (applySocks5 r d) :=
  { hd with unconnected := fun h => absurd (h.symm.trans hconn) Bool.false_ne_true }

theorem plain_failConnection (hd : Plain d) : Plain (failConnection d) := { hd with }

theorem established_tcpDirectDcSendObfs2Init (o : Outside κ) (htalk : Talking cfg received d)
    (hqueue : d.inQueue = []) (hconn : d.data.connected = true)
    (hready : d.data.readyPending = false) (hout : d.data.out = [])
    {consumed rest sent : List UInt8} (hlog : Socks5Log cfg.socks5 .done consumed sent)
    (houtput : d.data.ioOut ++ d.data.out = sent) (hinput : received = consumed ++ rest)
    (hclean : clean = true → rest = []) :
    Pass cfg clean received (o.init, o.initKeys)
      (tcpDirectDcSendObfs2Init o (applySocks5 ⟨.complete, .none, rest, []⟩ d)) := by
  refine .established ⟨htalk.type, rfl, rfl, consumed, rest, sent, hlog, hinput, ?_, fun h => ?_⟩
    fun h => ?_
  · rw [hout, append_nil] at houtput
    simp [tcpDirectDcSendObfs2Init, applySocks5, houtput, htalk.outP]
  · refine ⟨?_, htalk.tls, fun _ => rfl, htalk.skipBytes, hconn, hready, o.initKeys, rfl, ?_⟩
    · simp [tcpDirectDcSendObfs2Init, applySocks5, htalk.type, ConnType.isDirect]
    · simp [stream, tcpDirectDcSendObfs2Init, applySocks5, htalk.inU, hqueue, htalk.relayed,
        htalk.left, hclean h]
  · refine ⟨hqueue, o.initKeys, rfl, ?_⟩
    rw [ctr128DecryptInput_nil cfg.crypt false htalk.inU]

variable (o : Outside κ) (peer : Option Peer)

theorem pass_talking (htalk : Talking cfg received d) (hqueue : d.inQueue = [])
    (hready : d.data.readyPending = false)
    (hconnect : d.failed = false → d.data.socks5 = .connectSent → d.data.out = [] ∧
      (clean = true → NothingBehind d.inn))
    (hblocked : d.blocked = false) :
    (parseExecute cfg o peer d).2 = 0 ∧
        Pass cfg clean received (o.init, o.initKeys) (parseExecute cfg o peer d).1 ∨
      (parseExecute cfg o peer d).2 = needMoreBytes ∧
        Passed cfg clean received (o.init, o.initKeys) (parseExecute cfg o peer d).1 := by
  have hopen : d.failed = false := by
    simp only [ConnInfo.blocked, Bool.or_eq_false_iff] at hblocked
    exact hblocked.1.1.2
  have hconn : d.data.connected = true := by
    by_contra h
    exact inn_ne_nil_of_not_blocked hblocked (htalk.unconnected (by simpa using h)).2.2
  obtain ⟨stage, consumed, refused, sent, hstands⟩ := htalk.stands
  have hstate := hstands.state_ne_none hconn hready
  have hnone : refused = [] := hstands.refused.resolve_right fun h =>
    absurd (hopen.symm.trans h.1) Bool.false_ne_true
  have hinput := hstands.input
  rw [hnone, hqueue, flatten_nil, append_nil, nil_append] at hinput
  have hstart : ∀ stage' : Socks5Stage, stage'.state ≠ .none →
      (stage' = .start ↔ d.data.connected = false ∨ d.data.readyPending = true) := by
    intro stage' hstate'
    simp only [hconn, hready, Bool.true_eq_false, Bool.false_eq_true, or_false, iff_false]
    rintro rfl
    exact hstate' rfl
  have hanswered := answered_socks5HandleResponse hstands.log hstate d.inn
  rw [parseExecute_of_directDc cfg o peer htalk.type]
  unfold tcpDirectDcParseExecute
  rw [hstands.state, if_pos hstate]
  generalize socks5HandleResponse cfg.socks5 stage.state d.inn = r at hanswered ⊢
  generalize hinn : d.inn = inn at hanswered
  rw [hinn] at hinput
  cases hanswered with
  | more stage' used rest out hlog hstate' =>
    refine .inr ⟨rfl, .inl ⟨plain_applySocks5 htalk.toPlain hconn _, stage', _, [], _,
      ⟨hlog, ?_, rfl, hstart stage' hstate', ?_, ?_, .inl rfl⟩⟩⟩
    · rintro rfl
      exact hstate' rfl
    · simp [applySocks5, ← hstands.output]
    · simp [applySocks5, hqueue, hinput]
  | refused used rest h =>
    have hplain := plain_failConnection (plain_applySocks5 htalk.toPlain hconn
      ⟨.error, stage.state, rest, []⟩)
    refine .inl ⟨rfl, .talking ⟨hplain, stage, consumed, used, sent,
      ⟨hstands.log, hstands.going, rfl, hstart stage hstate, ?_, ?_, ?_⟩⟩ hqueue hready
      fun h => absurd h.symm Bool.false_ne_true⟩
    · simp [failConnection, applySocks5, hstands.output]
    · simp [failConnection, applySocks5, hqueue, hinput]
    · exact h.imp_right fun h => ⟨rfl, h⟩
  | complete used rest hstage hreply hstatus =>
    subst hstage
    obtain ⟨hout, hbehind⟩ := hconnect hopen hstands.state
    refine .inl ⟨rfl, established_tcpDirectDcSendObfs2Init o htalk hqueue hconn hready hout
      (.done hstands.log hreply hstatus) hstands.output ?_ fun hclean => ?_⟩
    · rw [hinput, append_assoc]
    · exact hbehind hclean used rest hinn hreply hstatus

theorem pass_parseExecute (hd : Pass cfg clean received (o.init, o.initKeys) d)
    (hblocked : d.blocked = false) :
    (parseExecute cfg o peer d).2 = 0 ∧
        Pass cfg clean received (o.init, o.initKeys) (parseExecute cfg o peer d).1 ∨
      (parseExecute cfg o peer d).2 = needMoreBytes ∧
        Passed cfg clean received (o.init, o.initKeys) (parseExecute cfg o peer d).1 := by
  cases hd with
  | talking htalk hqueue hready hconnect =>
    exact pass_talking o peer htalk hqueue hready hconnect hblocked
  | established hest hleft =>
    have hparse := samePhase_parseExecute cfg o peer hest.type hest.socks5
    have hpassing (hclean : clean = true) (r : InBuf κ × Bool × ℤ) (hr : Deciphers cfg false r [] d) :
        Passing cfg false r [] (parseExecute cfg o peer d).1 :=
      (passing_parseExecute o peer ⟨hr, hleft hclean⟩).1
    refine .inl ⟨hparse.2, .established (hparse.1.established hest fun hclean r hr =>
      (hpassing hclean r hr).toDeciphers) fun hclean => ?_⟩
    obtain ⟨_, _, _, -, -, -, hrest⟩ := hest.log
    exact (hpassing hclean _ (hrest hclean)).exhausted

theorem talking_popAll (htalk : Talking cfg received d) : Talking cfg received d.popAll := by
  have hpop : d.popAll = { d with inn := d.inn ++ d.inQueue.flatten, inQueue := [] } := by
    simp [ConnInfo.popAll, htalk.crypto, rwmUnion]
  obtain ⟨stage, consumed, refused, sent, hstands⟩ := htalk.stands
  rw [hpop]
  refine ⟨{ htalk with unconnected := fun h => ?_ }, stage, consumed, refused, sent,
    { hstands with input := ?_ }⟩
  · obtain ⟨hflight, hqueue, hinn⟩ := htalk.unconnected h
    exact ⟨hflight, rfl, by simp [hinn, hqueue]⟩
  · rw [hstands.input, flatten_nil, append_nil]

theorem passed_reader (htalk : Talking cfg received d) (hready : d.data.readyPending = false)
    (hconnect : d.failed = false → d.data.socks5 = .connectSent → d.data.out = [] ∧
      (clean = true → NothingBehind (d.inn ++ d.inQueue.flatten))) :
    Passed cfg clean received (o.init, o.initKeys) (reader (connFuncs cfg o peer) d) := by
  have hpop := talking_popAll htalk
  have hqueue : d.popAll.inQueue = [] ∧ d.popAll.inn = d.inn ++ d.inQueue.flatten ∧
      d.popAll.failed = d.failed ∧ d.popAll.data = d.data := by
    simp [ConnInfo.popAll, htalk.crypto, rwmUnion]
  have hfetch : fetchInput (connFuncs cfg o peer) d = (d.popAll, 0) := by
    rw [fetchInput, hpop.crypto]
    rfl
  have hskip : d.popAll.applySkip = d.popAll := by simp [ConnInfo.applySkip, hpop.skipBytes]
  rw [reader_eq, hfetch]
  rw [if_neg (lt_irrefl 0), hskip]
  split_ifs
  · exact .inl hpop
  · refine readerLoop_of_answers (I := Pass cfg clean received (o.init, o.initKeys))
      (fun _ => Pass.passed) (fun x hx hopen => pass_parseExecute o peer hx hopen) _
      (.talking hpop hqueue.1 ?_ ?_)
    · rw [hqueue.2.2.2]
      exact hready
    · rw [hqueue.2.2.1, hqueue.2.2.2, hqueue.2.1]
      exact hconnect

/-! ### The handlers -/

theorem talking_writer (htalk : Talking cfg received d) :
    Talking cfg received (writer cfg o d) ∧ (writer cfg o d).data.out = [] := by
  obtain ⟨stage, consumed, refused, sent, hstands⟩ := htalk.stands
  have hwriter : writer cfg o d = flushPlain (popOutQueue d) := by rw [writer, htalk.crypto]
  rw [hwriter]
  refine ⟨⟨{ htalk with outQueue := rfl }, stage, consumed, refused, sent,
    { hstands with output := ?_ }⟩, rfl⟩
  rw [← hstands.output]
  simp [flushPlain, popOutQueue, pushToSocket, rwmUnion, htalk.outQueue]

theorem established_writer (hest : Established cfg clean received relayed p d) :
    Established cfg clean received relayed p (writer cfg o d) ∧
      (writer cfg o d).data.outP = [] := by
  obtain ⟨consumed, rest, sent, hlog, hinput, houtput, hrest⟩ := hest.log
  obtain ⟨T, hT⟩ := isSome_iff_exists.1 hest.crypto
  have hout : (writer cfg o d).data.outP = [] := by
    rw [writer, hT]
    rfl
  have hkept := keepsStream_writer cfg o d
  have hflushed : d.data.ioOut ++ d.data.outP <+:
      (writer cfg o d).data.ioOut ++ (writer cfg o d).data.outP := by
    have hdrs : (popOutQueue d).data.type.isDrs = false := by
      show d.data.type.isDrs = false
      rw [hest.type]
      rfl
    rw [writer, hT]
    dsimp only
    rw [cryptoEncryptOutput, hdrs]
    simp only [flushEncrypted, pushToSocket, withOutBuf, append_nil]
    exact (prefix_append_right_inj _).2
      (isPrefix_encryptOutputLoop cfg.crypt _ _ (outBuf T (popOutQueue d)))
  refine ⟨⟨hkept.type.trans hest.type, ?_, hkept.socks5.trans hest.socks5, consumed, rest, sent,
    hlog, hinput, houtput.trans hflushed, fun hclean => hkept.deciphers (hrest hclean)⟩, hout⟩
  obtain ⟨T', hT', -⟩ := hkept.exists_crypto hT
  rw [hT']
  rfl

theorem established_clearOutbox (hest : Established cfg clean received relayed p d) :
    Established cfg clean received (relayed ++ d.data.relayed.flatten) p (clearOutbox d) := by
  obtain ⟨consumed, rest, sent, hlog, hinput, houtput, hrest⟩ := hest.log
  exact { hest with log := ⟨consumed, rest, sent, hlog, hinput, houtput,
    fun hclean => deciphers_clearOutbox (hrest hclean)⟩ }

/-- `d'` is the DC connection `d` after a change that is not part of the handshake. -/
structure KeepsTalk (d d' : Conn κ) : Prop extends KeepsStream d d' where
  crypto : d'.crypto = d.crypto
  outQueue : d'.data.outQueue = d.data.outQueue
  out : d'.data.out = d.data.out
  outP : d'.data.outP = d.data.outP
  ioOut : d'.data.ioOut = d.data.ioOut
  inFlight : d'.data.inFlight = d.data.inFlight
  failed : d.failed = true → d'.failed = true

theorem KeepsTalk.refl (d : Conn κ) : KeepsTalk d d :=
  ⟨(by constructor <;> rfl), rfl, rfl, rfl, rfl, rfl, rfl, id⟩

theorem KeepsTalk.talking (h : KeepsTalk d d') (htalk : Talking cfg received d) :
    Talking cfg received d' := by
  obtain ⟨stage, consumed, refused, sent, hstands⟩ := htalk.stands
  refine ⟨⟨h.type.trans htalk.type, h.isTls.trans htalk.tls, h.left.trans htalk.left,
    h.skipBytes.trans htalk.skipBytes, h.crypto.trans htalk.crypto, h.inU.trans htalk.inU,
    h.outQueue.trans htalk.outQueue, h.outP.trans htalk.outP, h.relayed.trans htalk.relayed, ?_⟩,
    stage, consumed, refused, sent,
    ⟨hstands.log, hstands.going, h.socks5.trans hstands.state, ?_, ?_, ?_, ?_⟩⟩
  · rw [h.connected, h.inFlight, h.inQueue, h.inn]
    exact htalk.unconnected
  · rw [h.connected, h.readyPending]
    exact hstands.start
  · rw [h.ioOut, h.out]
    exact hstands.output
  · rw [h.inn, h.inQueue]
    exact hstands.input
  · exact hstands.refused.imp_right fun hr => ⟨h.failed hr.1, hr.2⟩

theorem KeepsTalk.samePhase (h : KeepsTalk d d') : SamePhase d d' :=
  { h with crypto := congrArg _ h.crypto }

theorem KeepsTalk.logged (hkept : KeepsTalk d d') (hd : DcLogged cfg clean h d) :
    DcLogged cfg clean h d' := by
  cases hd with
  | talking hinit hrelayed hout htalk =>
    exact .talking hinit hrelayed (hkept.out.trans hout) (hkept.talking htalk)
  | established p hinit hout hest =>
    exact .established p hinit (hkept.outP.trans hout) (hkept.samePhase.established hest fun _ _ =>
      hkept.toKeepsStream.deciphers)

theorem keepsTalk_takeRun (d : Conn κ) : KeepsTalk d (takeRun d) :=
  ⟨keepsStream_takeRun d, rfl, rfl, rfl, rfl, rfl, rfl, id⟩

theorem keepsTalk_failConnection (d : Conn κ) : KeepsTalk d (failConnection d) :=
  ⟨keepsStream_failConnection d, rfl, rfl, rfl, rfl, rfl, rfl, fun _ => rfl⟩

theorem talking_runConnected (hsocks : cfg.socks5.enabled = true) (o : Outside κ)
    (hconn : DirectConn d) (htalk : Talking cfg received d) (hout : d.data.out = []) :
    Talking cfg received (runConnected cfg o d) ∧
      (runConnected cfg o d).data.readyPending = false ∧
      ((runConnected cfg o d).data.socks5 = .connectSent →
        d.data.socks5 = .connectSent ∧ runConnected cfg o d = d) := by
  unfold runConnected tcpDirectDcConnected
  by_cases hready : d.data.readyPending = true
  · have hconnected := (hconn.dc htalk.type).connected hready
    obtain ⟨stage, consumed, refused, sent, hstands⟩ := htalk.stands
    have hstage : stage = .start := hstands.start.2 (.inr hready)
    subst hstage
    obtain ⟨rfl, rfl⟩ : consumed = [] ∧ sent = [] := by
      cases hstands.log
      exact ⟨rfl, rfl⟩
    have hnone : refused = [] := hstands.refused.resolve_right fun h => by cases h.2
    rw [if_pos hready, if_pos hsocks]
    refine ⟨⟨{ htalk with }, .greeting, [], [], _,
      ⟨.greeting, by decide, rfl, ?_, ?_, ?_, .inl rfl⟩⟩, rfl, fun h => ?_⟩
    · simp [hconnected]
    · have hsent := hstands.output
      rw [hout, append_nil] at hsent
      simp [hsent, hout]
    · rw [hstands.input, hnone]
    · cases h
  · rw [if_neg hready]
    exact ⟨htalk, by simpa using hready, fun h => ⟨h, rfl⟩⟩

theorem passed_connRun (hsocks : cfg.socks5.enabled = true) (o : Outside κ) (peer : Option Peer)
    (hconn : DirectConn d) (htalk : Talking cfg received d) (hout : d.data.out = [])
    (hbehind : clean = true → d.failed = false → d.data.socks5 = .connectSent →
      NothingBehind (d.inn ++ d.inQueue.flatten)) :
    (Talking cfg received (connRun cfg o peer d) ∧ (connRun cfg o peer d).data.out = []) ∨
      (Established cfg clean received [] (o.init, o.initKeys) (connRun cfg o peer d) ∧
        (connRun cfg o peer d).data.outP = []) := by
  have htaken := (keepsTalk_takeRun d).talking htalk
  obtain ⟨hcalled, hready, hsame⟩ :=
    talking_runConnected hsocks o (directConn_takeRun hconn) htaken hout
  unfold connRun
  split_ifs with hfailed
  · exact .inl ⟨htaken, hout⟩
  · have hread : Passed cfg clean received (o.init, o.initKeys)
        (reader (connFuncs cfg o peer) (runConnected cfg o (takeRun d))) := by
      refine passed_reader o peer hcalled hready fun hopen hconnect => ?_
      obtain ⟨hstate, heq⟩ := hsame hconnect
      rw [heq]
      exact ⟨hout, fun hclean => hbehind hclean (by simpa using hfailed) hstate⟩
    rcases hread with htalk' | hest
    · exact .inl (talking_writer o htalk')
    · exact .inr (established_writer o hest)

theorem established_connRun (hcipher : StreamCipher cfg.crypt) (o : Outside κ) (peer : Option Peer)
    (hconn : DirectConn d) (hest : Established cfg clean received relayed p d)
    (hout : d.data.outP = []) :
    Established cfg clean received relayed p (connRun cfg o peer d) ∧
      (connRun cfg o peer d).data.outP = [] := by
  have htaken := (keepsTalk_takeRun d).samePhase.established hest fun _ _ =>
    (keepsStream_takeRun d).deciphers
  have hready : (takeRun d).data.readyPending = false := by
    by_contra h
    have hnone := ((hconn.dc hest.type).fresh (.inr (by simpa [takeRun] using h))).1
    simpa [hnone] using hest.crypto
  rw [connRun, runConnected, hready, if_neg Bool.false_ne_true]
  split_ifs
  · exact ⟨htaken, hout⟩
  · exact established_writer o ((samePhase_reader cfg o peer htaken.type htaken.socks5).established
      htaken fun _ _ hr => (passing_reader hcipher o peer hr).toDeciphers)

theorem logged_clearOutbox (hd : DcLogged cfg clean h d) :
    DcLogged cfg clean { h with relayed := h.relayed ++ d.data.relayed.flatten } (clearOutbox d) := by
  cases hd with
  | talking hinit hrelayed hout htalk =>
    have hkept : KeepsTalk d (clearOutbox d) :=
      ⟨⟨rfl, rfl, rfl, rfl, rfl, rfl, rfl, rfl, rfl, rfl, rfl, htalk.relayed.symm⟩, rfl, rfl, rfl,
        rfl, rfl, rfl, id⟩
    refine .talking hinit ?_ hout (hkept.talking htalk)
    simp [hrelayed, htalk.relayed]
  | established p hinit hout hest =>
    exact .established p hinit hout (established_clearOutbox hest)

theorem logged_connRun (hcipher : StreamCipher cfg.crypt) (hsocks : cfg.socks5.enabled = true)
    (o : Outside κ) (s : Session κ) (hconn : DirectConn d) (hd : DcLogged cfg clean h d)
    (hbehind : clean = true → d.failed = false → d.data.socks5 = .connectSent →
      NothingBehind (d.inn ++ d.inQueue.flatten)) :
    DcLogged cfg clean (dcHistory cfg s d h (.run .dc o))
      (clearOutbox (connRun cfg o s.clientPeer d)) := by
  refine logged_clearOutbox (h := { h with
    init := if d.crypto.isNone && (connRun cfg o s.clientPeer d).crypto.isSome then
      some (o.init, o.initKeys) else h.init }) ?_
  cases hd with
  | talking hinit hrelayed hout htalk =>
    have hnone : d.crypto.isNone = true := by rw [htalk.crypto]; rfl
    rcases passed_connRun hsocks o s.clientPeer hconn htalk hout hbehind with
      ⟨htalk', hout'⟩ | ⟨hest, hout'⟩
    · exact .talking (by simp [htalk'.crypto, hinit]) hrelayed hout' htalk'
    · rw [← hrelayed] at hest
      exact .established (o.init, o.initKeys) (by simp [hnone, hest.crypto]) hout' hest
  | established p hinit hout hest =>
    have hsome : d.crypto.isNone = false := by
      rw [isNone_eq_false_iff]
      exact hest.crypto
    obtain ⟨hest', hout'⟩ := established_connRun hcipher o s.clientPeer hconn hest hout
    exact .established p (by simp [hsome, hinit]) hout' hest'

theorem logged_socketRead (chunk : Option (List UInt8)) (hd : DcLogged cfg clean h d) :
    DcLogged cfg clean h (socketRead chunk d) := by
  cases hd with
  | talking hinit hrelayed hout htalk =>
    obtain ⟨stage, consumed, refused, sent, hstands⟩ := htalk.stands
    refine .talking hinit hrelayed hout ⟨{ htalk with unconnected := fun h => ?_ }, stage,
      consumed, refused, sent, { hstands with start := ?_ }⟩
    · simp [socketRead] at h
    · simpa [socketRead, or_comm] using hstands.start
  | established p hinit hout hest =>
    have hsame : SamePhase d (socketRead chunk d) := by constructor <;> rfl
    exact .established p hinit hout (hsame.established hest fun _ _ hr =>
      (keepsStream_socketRead chunk hr).deciphers hr)

theorem logged_socketPush (hcipher : StreamCipher cfg.crypt) {chunk : List UInt8}
    (hchunk : d.data.inFlight = some chunk) (hd : DcLogged cfg clean h d) :
    DcLogged cfg clean { h with received := h.received ++ chunk } (socketPush chunk d) := by
  cases hd with
  | talking hinit hrelayed hout htalk =>
    obtain ⟨stage, consumed, refused, sent, hstands⟩ := htalk.stands
    refine .talking hinit hrelayed hout ⟨{ htalk with unconnected := fun h => ?_ }, stage,
      consumed, refused, sent, { hstands with input := ?_ }⟩
    · simp [(htalk.unconnected h).1] at hchunk
    · simp [socketPush, hstands.input]
  | established p hinit hout hest =>
    obtain ⟨consumed, rest, sent, hlog, hinput, houtput, hrest⟩ := hest.log
    refine .established p hinit hout { hest with log :=
      ⟨consumed, rest ++ chunk, sent, hlog, by simp [hinput], houtput, fun hclean => ?_⟩ }
    have hpush := deciphers_socketPush hcipher chunk (hrest hclean)
    rw [← ctr128DecryptInput_feed hcipher] at hpush
    exact hpush

theorem logged_receiveRelayed {raws : List (List UInt8)} (hraws : d.crypto = none → raws = [])
    (hd : DcLogged cfg clean h d) : DcLogged cfg clean h (receiveRelayed raws d) := by
  cases hd with
  | talking hinit hrelayed hout htalk =>
    have hkept : KeepsTalk d (receiveRelayed raws d) :=
      ⟨keepsStream_receiveRelayed raws d, rfl, by simp [receiveRelayed, hraws htalk.crypto], rfl, rfl,
        rfl, rfl, id⟩
    exact .talking hinit hrelayed hout (hkept.talking htalk)
  | established p hinit hout hest =>
    have hsame : SamePhase d (receiveRelayed raws d) := by constructor <;> rfl
    exact .established p hinit hout (hsame.established hest fun _ _ =>
      (keepsStream_receiveRelayed raws d).deciphers)

theorem keepsTalk_connAlarm (cfg : DirectConfig κ) (wakeupTime : ℚ) (o : Outside κ)
    (peer : Option Peer) (hd : d.data.type = .directDc) :
    KeepsTalk d (connAlarm cfg wakeupTime o peer d).1 := by
  have hremove : KeepsTalk d (jobTimerRemove d) :=
    ⟨keepsStream_jobTimerRemove d, rfl, rfl, rfl, rfl, rfl, rfl, id⟩
  refine connAlarm_rule cfg wakeupTime (.refl d) hremove (fun _ hstop => ?_)
    fun hdrs => by simp [hd, ConnType.isDrs] at hdrs
  have hresume := hremove.toKeepsStream.trans (keepsStream_rateLimitResume (jobTimerRemove d))
  rw [rateLimitResume, if_pos hstop] at hresume ⊢
  exact ⟨hresume, rfl, rfl, rfl, rfl, rfl, rfl, id⟩

theorem logged_newDc (cfg : DirectConfig κ) (clean : Bool) :
    DcLogged cfg clean (.fresh κ) (newDc κ) := by
  refine .talking rfl rfl rfl ⟨⟨rfl, rfl, rfl, rfl, rfl, rfl, rfl, rfl, rfl, fun _ => ⟨rfl, rfl, rfl⟩⟩,
    .start, [], [], [], ⟨.start, by decide, rfl, ?_, rfl, rfl, .inl rfl⟩⟩
  simp [newDc]

end Reader

/-! ### What a step does to the DC connection -/

section Steps

variable {cfg : DirectConfig κ} {clean : Bool} {T : AesCrypto κ} {c₀ : Conn κ}

/-- The DC connection after a step: there is none, it was just dialled, or it is the former one after
one of its own steps or after one of its client. -/
inductive DcChange (cfg : DirectConfig κ) (s : Session κ) :
    SessionEvent κ → Option (Conn κ) → Prop
  | gone (e : SessionEvent κ) : DcChange cfg s e none
  | dialled (e : SessionEvent κ) (hnone : s.dc = none) : DcChange cfg s e (some (newDc κ))
  | read (chunk : Option (List UInt8)) (d : Conn κ) (hd : s.dc = some d) :
    DcChange cfg s (.read .dc chunk) (some (socketRead chunk d))
  | push (chunk : List UInt8) (d : Conn κ) (hd : s.dc = some d)
    (hchunk : d.data.inFlight = some chunk) :
    DcChange cfg s (.push .dc) (some (socketPush chunk d))
  | run (o : Outside κ) (d : Conn κ) (hd : s.dc = some d) :
    DcChange cfg s (.run .dc o) (some (clearOutbox (connRun cfg o s.clientPeer d)))
  | alarm (wakeupTime : ℚ) (o : Outside κ) (d : Conn κ) (hd : s.dc = some d) :
    DcChange cfg s (.alarm .dc wakeupTime o)
      (some (clearOutbox (connAlarm cfg wakeupTime o s.clientPeer d).1))
  | received (e : SessionEvent κ) (raws : List (List UInt8)) (d : Conn κ) (hd : s.dc = some d)
    (hold : ∀ h, dcHistory cfg s d h e = h) (hraws : d.crypto = none → raws = []) :
    DcChange cfg s e (some (receiveRelayed raws d))
  | kept (e : SessionEvent κ) (d d' : Conn κ) (hd : s.dc = some d)
    (hold : ∀ h, dcHistory cfg s d h e = h) (hkept : KeepsTalk d d') :
    DcChange cfg s e (some d')

variable {e : SessionEvent κ} {t : RelayTrace κ}

theorem dcChange_same {s : Session κ} (hold : ∀ d h, dcHistory cfg s d h e = h) :
    DcChange cfg s e s.dc := by
  cases hdc : s.dc with
  | none => exact .gone e
  | some d => exact .kept e d d hdc (hold d) (.refl d)

variable {c : Conn κ} {o : Outside κ} {s' : Session κ}

theorem dcChange_setClient (ht : RelayInv cfg T c₀ t)
    (hold : ∀ d h, dcHistory cfg t.s d h e = h)
    (hsilent : t.s.client.data.type.isDirect = true → t.s.ready = false → c.data.relayed = []) :
    DcChange cfg t.s e (t.s.setClient c).dc := by
  unfold Session.setClient
  cases hdc : t.s.dc with
  | none => exact .gone e
  | some d =>
    refine .received e _ d hdc (hold d) fun hcrypto => hsilent (ht.isDirect_of_dc hdc) ?_
    rw [ready_of_dc hdc, hcrypto]
    rfl

theorem dcChange_clientAlarm (ht : RelayInv cfg T c₀ t) {wakeupTime : ℚ}
    (h : clientAlarm cfg wakeupTime o t.s = some s') :
    DcChange cfg t.s (.alarm .client wakeupTime o) s'.dc := by
  unfold clientAlarm at h
  dsimp only at h
  split_ifs at h with haborted hdial
  · cases h
    have hnone : t.s.dc = none := map_eq_none_iff.1 (peer_eq_none_of_connAlarm hdial).1
    unfold directRetryDcConnection Session.setClient
    split_ifs
    · simp only [hnone, map_none]
      exact .gone _
    · exact .dialled _ hnone
    · simp only [hnone, map_none]
      exact .gone _
  · cases h
    exact dcChange_setClient ht (fun _ _ => rfl) fun hdirect =>
      ht.relayed_connAlarm_eq_nil o hdirect wakeupTime

theorem dcChange_step (ht : RelayInv cfg T c₀ t)
    (h : sessionStep cfg t.s e = some s') : DcChange cfg t.s e s'.dc := by
  cases stepped_of_sessionStep h with
  | readClient => exact dcChange_same fun _ _ => rfl
  | readDc chunk hd => exact .read chunk _ hd
  | pushClient => exact dcChange_same fun _ _ => rfl
  | pushDc hd hchunk => exact .push _ _ hd hchunk
  | runClient o h =>
    simp only [clientRun] at h
    split_ifs at h
    cases h
    exact dcChange_setClient ht (fun _ _ => rfl) (ht.relayed_connRun_eq_nil o)
  | runDc o hd => exact .run o _ hd
  | alarmClient time o h => exact dcChange_clientAlarm ht h
  | alarmDc time o hd => exact .alarm time o _ hd
  | write => exact dcChange_same fun _ _ => rfl
  | failClient => exact dcChange_same fun _ _ => rfl
  | failDc hd => exact .kept _ _ _ hd (fun _ => rfl) (keepsTalk_failConnection _)
  | closeClient =>
    unfold closeClient
    cases hdc : t.s.dc with
    | none => exact .gone _
    | some d => exact .kept _ d _ hdc (fun _ => rfl) (keepsTalk_failConnection d)
  | closeDc =>
    unfold closeDc
    split_ifs <;> exact .gone _

/-- When a DC connection that waits for the reply to CONNECT runs, its buffers do not hold more than
that reply. -/
def RepliesAlone (s : Session κ) : SessionEvent κ → Prop
  | .run .dc _ => ∀ d ∈ s.dc, d.failed = false → d.data.socks5 = .connectSent →
      NothingBehind (d.inn ++ d.inQueue.flatten)
  | _ => True

instance (s : Session κ) (e : SessionEvent κ) : Decidable (RepliesAlone s e) := by
  induction e using SessionEvent.casesOn with
  | run side o =>
    induction side using Side.casesOn <;> dsimp only [RepliesAlone] <;> infer_instance
  | _ => exact isTrue trivial

/-- The DC connection of a session keeps to its history. -/
structure DcInv (cfg : DirectConfig κ) (clean : Bool) (T : AesCrypto κ) (c₀ : Conn κ)
    (t : DcTrace κ) : Prop where
  session : ∃ received queued, RelayInv cfg T c₀ ⟨t.s, received, queued⟩
  dc : ∀ d, t.s.dc = some d → DcLogged cfg clean t.dc d

theorem logged_dcChange (hcipher : StreamCipher cfg.crypt) (hsocks : cfg.socks5.enabled = true)
    {t : DcTrace κ} (ht : DcInv cfg clean T c₀ t) (hbehind : clean = true → RepliesAlone t.s e)
    {dc : Option (Conn κ)} (h : DcChange cfg t.s e dc) {d' : Conn κ} (hd' : dc = some d') :
    DcLogged cfg clean (t.s.dc.elim (.fresh κ) fun d => dcHistory cfg t.s d t.dc e) d' := by
  obtain ⟨received, queued, hsession⟩ := ht.session
  cases h with
  | gone => cases hd'
  | dialled _ hnone =>
    cases hd'
    rw [hnone]
    exact logged_newDc cfg clean
  | read chunk d hd =>
    cases hd'
    rw [hd]
    exact logged_socketRead chunk (ht.dc d hd)
  | push chunk d hd hchunk =>
    cases hd'
    rw [hd, elim_some, dcHistory, hchunk]
    exact logged_socketPush hcipher hchunk (ht.dc d hd)
  | run o d hd =>
    cases hd'
    rw [hd]
    exact logged_connRun hcipher hsocks o t.s (hsession.dc d hd) (ht.dc d hd) fun hclean =>
      hbehind hclean d hd
  | alarm wakeupTime o d hd =>
    cases hd'
    rw [hd]
    have hkept := keepsTalk_connAlarm cfg wakeupTime o t.s.clientPeer (hsession.dcType d hd)
    exact logged_clearOutbox (hkept.logged (ht.dc d hd))
  | received _ raws d hd hold hraws =>
    cases hd'
    rw [hd, elim_some, hold]
    exact logged_receiveRelayed hraws (ht.dc d hd)
  | kept _ d d' hd hold hkept =>
    cases hd'
    rw [hd, elim_some, hold]
    exact hkept.logged (ht.dc d hd)

theorem dcInv_step (hcipher : StreamCipher cfg.crypt) (hsocks : cfg.socks5.enabled = true)
    (t : DcTrace κ) (e : SessionEvent κ) (t' : DcTrace κ) (ht : DcInv cfg clean T c₀ t)
    (hbehind : clean = true → RepliesAlone t.s e) (h : dcStep cfg t e = some t') :
    DcInv cfg clean T c₀ t' := by
  obtain ⟨s', hs, rfl⟩ := map_eq_some_iff.1 h
  obtain ⟨received, queued, hsession⟩ := ht.session
  refine ⟨?_, fun d hd => logged_dcChange hcipher hsocks ht hbehind (dcChange_step hsession hs) hd⟩
  have hrelay : ∃ t', relayStep cfg ⟨t.s, received, queued⟩ e = some t' ∧ t'.s = s' :=
    ⟨_, congrArg _ hs, rfl⟩
  obtain ⟨t', hstep, rfl⟩ := hrelay
  exact ⟨t'.received, t'.queued, relayInv_step hcipher _ e t' hsession hstep⟩

end Steps

/-! ### Every run of a session -/

theorem dcInv_start {cfg : DirectConfig κ} (clean : Bool)
    {T : AesCrypto κ} (hc : Accepted c) (hT : c.crypto = some T) (hrelayed : c.data.relayed = []) :
    DcInv cfg clean T c ⟨startSession cfg o c, .fresh κ⟩ := by
  refine ⟨⟨[], [], relayInv_start hc hT hrelayed⟩, fun d hd => ?_⟩
  have hnew : d = newDc κ := by
    unfold startSession directConnectToDc at hd
    split_ifs at hd
    exact (some.inj hd).symm
  rw [hnew]
  exact logged_newDc cfg clean

theorem inn_ctr128DecryptInput_plain {crypt : κ → List UInt8 → List UInt8 × κ}
    (hcipher : StreamCipher crypt) (key : κ) (raw : List UInt8) :
    (ctr128DecryptInput crypt false ⟨raw, [], key, 0⟩).1.inn = (crypt key raw).1 := by
  by_cases hraw : raw = []
  · subst hraw
    rw [ctr128DecryptInput_nil crypt false rfl, hcipher.nil]
  · rw [ctr128DecryptInput_eq crypt false hraw]
    simp [InBuf.decrypt, rwmEncryptDecryptTo]

/-- **The SOCKS5 handshake.**  In every run of a session, what a DC connection has consumed and sent is
a log of the handshake; so CONNECT is sent at most once, and after an accepted method.  Before the
header is sent the handshake is not complete, nothing else is sent or relayed, and what is not
consumed is in the buffers or was refused.  With the header it is complete.  If, whenever the
connection runs, its buffers do not hold more than the reply to CONNECT, then all that is relayed is
what the read cipher makes of the bytes behind that reply. -/
theorem socks5_handshake {cfg : DirectConfig κ} (hcipher : StreamCipher cfg.crypt)
    (hsocks : cfg.socks5.enabled = true) {o : Outside κ} {c : Conn κ} {T : AesCrypto κ}
    (hc : Accepted c) (hT : c.crypto = some T) (hrelayed : c.data.relayed = [])
    {es : List (SessionEvent κ)} {t : DcTrace κ}
    (hrun : run (dcStep cfg) ⟨startSession cfg o c, .fresh κ⟩ es = some t) {d : Conn κ}
    (hd : t.s.dc = some d) :
    ∃ stage consumed rest sent, Socks5Log cfg.socks5 stage consumed sent ∧
      t.dc.received = consumed ++ rest ∧
      (t.dc.init = none → stage ≠ .done ∧ d.data.ioOut = sent ∧ t.dc.relayed = [] ∧
        ∃ refused, rest = refused ++ (d.inn ++ d.inQueue.flatten) ∧
          (refused = [] ∨ d.failed = true ∧ Refused cfg.socks5 stage refused)) ∧
      ∀ p, t.dc.init = some p → stage = .done ∧ sent ++ p.1 <+: d.data.ioOut ∧
        (Along (dcStep cfg) (fun t e => RepliesAlone t.s e) ⟨startSession cfg o c, .fresh κ⟩ es →
          t.dc.relayed <+: (cfg.crypt p.2.readAeskey rest).1) := by
  classical
  -- the one invariant, with the cipher where the condition holds
  let clean : Bool := decide (Along (dcStep cfg) (fun t e => RepliesAlone t.s e)
    ⟨startSession cfg o c, .fresh κ⟩ es)
  have halong : Along (dcStep cfg) (fun t e => clean = true → RepliesAlone t.s e)
      ⟨startSession cfg o c, .fresh κ⟩ es := by
    by_cases hclean : clean = true
    · exact (of_decide_eq_true hclean).imp fun _ _ _ h _ => h
    · exact (along_true _ es).imp fun _ _ _ _ h => absurd h hclean
  have hinv : DcInv cfg clean T c t :=
    run_invariant (fun t e t' ht hok h => dcInv_step hcipher hsocks t e t' ht hok h)
      (dcInv_start clean hc hT hrelayed) halong hrun
  cases hinv.dc d hd with
  | talking hinit hrel hout htalk =>
    obtain ⟨stage, consumed, refused, sent, hstands⟩ := htalk.stands
    refine ⟨stage, consumed, _, sent, hstands.log, hstands.input, fun _ => ⟨hstands.going, ?_, hrel,
      refused, rfl, hstands.refused⟩, fun p hp => ?_⟩
    · rw [← hstands.output, hout, append_nil]
    · simp [hinit] at hp
  | established p hinit hout hest =>
    obtain ⟨consumed, rest, sent, hlog, hinput, houtput, hrest⟩ := hest.log
    refine ⟨.done, consumed, rest, sent, hlog, hinput, fun hnone => ?_, fun p' hp => ?_⟩
    · simp [hinit] at hnone
    · obtain rfl : p = p' := some.inj (hinit.symm.trans hp)
      rw [hout, append_nil] at houtput
      refine ⟨rfl, houtput, fun hclean => ?_⟩
      rw [← inn_ctr128DecryptInput_plain hcipher]
      exact (hrest (decide_eq_true hclean)).relayed_isPrefix

/-- A proxy with credentials; the cipher inverts every bit. -/
def sampleSocks5 : DirectConfig Unit where
  crypt := fun key bytes => (bytes.map (255 - ·), key)
  drsDelaysEnabled := true
  workers := 1
  directMode := true
  socks5 := ⟨true, [1], [2], [5, 1, 0, 1, 127, 0, 0, 1, 0, 80]⟩

theorem streamCipher_sampleSocks5 : StreamCipher sampleSocks5.crypt :=
  ⟨fun _ => rfl, fun _ _ _ => Prod.ext map_append rfl⟩

/-- A moment at which the header is one byte. -/
def sampleMoment : Outside Unit := { sampleOutside 0 with init := [9] }

/-- The proxy asks for the credentials and accepts them; its reply to CONNECT comes in two pieces, and
behind it a byte of the DC in a piece of its own. -/
def sampleProxy : List (SessionEvent Unit) :=
  [.read .dc none, .run .dc sampleMoment, .read .dc (some [5, 2]), .push .dc, .run .dc sampleMoment,
    .read .dc (some [1, 0]), .push .dc, .run .dc sampleMoment, .read .dc (some [5, 0, 0, 1, 0, 0, 0]),
    .push .dc, .run .dc sampleMoment, .read .dc (some [0, 0, 0]), .push .dc, .run .dc sampleMoment,
    .read .dc (some [7]), .push .dc, .run .dc sampleMoment]

theorem socks5_handshake_sampleProxy :
    ∃ t, run (dcStep sampleSocks5)
        ⟨startSession sampleSocks5 sampleMoment (sampleAccepted false), .fresh Unit⟩ sampleProxy =
          some t ∧ t.dc.relayed = [248] ∧
      ∃ d, t.s.dc = some d ∧ ∃ stage consumed rest sent,
        Socks5Log sampleSocks5.socks5 stage consumed sent ∧ t.dc.received = consumed ++ rest ∧
        stage = .done ∧ sent ++ [9] <+: d.data.ioOut ∧
        t.dc.relayed <+: (sampleSocks5.crypt () rest).1 := by
  obtain ⟨t, ht, hrelayed, hinit, hsome⟩ : ∃ t, run (dcStep sampleSocks5)
      ⟨startSession sampleSocks5 sampleMoment (sampleAccepted false), .fresh Unit⟩ sampleProxy =
        some t ∧ t.dc.relayed = [248] ∧ t.dc.init = some ([9], ⟨(), ()⟩) ∧ t.s.dc.isSome = true := by
    decide +kernel
  have halone : Along (dcStep sampleSocks5) (fun t e => RepliesAlone t.s e)
      ⟨startSession sampleSocks5 sampleMoment (sampleAccepted false), .fresh Unit⟩ sampleProxy := by
    decide +kernel
  obtain ⟨d, hd⟩ := isSome_iff_exists.1 hsome
  obtain ⟨stage, consumed, rest, sent, hlog, hreceived, -, hheader⟩ :=
    socks5_handshake streamCipher_sampleSocks5 rfl (accepted_sampleAccepted false) rfl rfl ht hd
  obtain ⟨hstage, hsent, hcipher⟩ := hheader _ hinit
  exact ⟨t, ht, hrelayed, d, hd, stage, consumed, rest, sent, hlog, hreceived, hstage, hsent,
    hcipher halone⟩

/-- **What comes with the reply is relayed as it came**: the byte behind the reply to CONNECT, in the
same read, goes to the client without the cipher, which would have made `248` of it. -/
theorem socks5_handshake_raw :
    ∃ t, run (dcStep sampleSocks5)
        ⟨startSession sampleSocks5 sampleMoment (sampleAccepted false), .fresh Unit⟩
        [.read .dc none, .run .dc sampleMoment, .read .dc (some [5, 0]), .push .dc,
          .run .dc sampleMoment, .read .dc (some [5, 0, 0, 1, 0, 0, 0, 0, 0, 0, 7]), .push .dc,
          .run .dc sampleMoment] = some t ∧
      t.dc.received = [5, 0] ++ [5, 0, 0, 1, 0, 0, 0, 0, 0, 0] ++ [7] ∧
      t.dc.init = some ([9], ⟨(), ()⟩) ∧ t.dc.relayed = [7] ∧
      t.s.client.data.outQueue = [[7]] ∧ (sampleSocks5.crypt () [7]).1 = [248] := by
  decide +kernel

end Mtbolt.Direct
