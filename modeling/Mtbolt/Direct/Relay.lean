import Mtbolt.Direct.Hold
import Mtbolt.Direct.Stream
import Mtbolt.Direct.Wakeup

/-!
# The payload of a client reaches its DC

The client's payload waits in its buffer while DC connections are dialled, fail and are dialled
again, and goes to the one that sends its obfuscated2 header.  We record, beside a session, what the
client's connection was given by its socket and what was queued to the DC connection.
-/

namespace Mtbolt.Direct

open EventRun Net Option List Bool

variable {κ : Type}

/-- A session, the bytes that the client's socket has queued to the connection, and the bytes that
were queued to the last DC connection. -/
structure RelayTrace (κ : Type) where
  s : Session κ
  received : List UInt8
  queued : List UInt8

/-- The bytes that this step queues to the client's connection. -/
def receivedBy (s : Session κ) : SessionEvent κ → List UInt8
  | .push .client => s.client.data.inFlight.getD []
  | _ => []

/-- The bytes that a handler of the client, which leaves `c`, queues to the DC connection. -/
def handedOver (s : Session κ) (c : Conn κ) : List UInt8 :=
  if s.dc.isSome then c.data.relayed.flatten else []

/-- The bytes that this step queues to the DC connection. -/
def queuedBy (cfg : DirectConfig κ) (s : Session κ) : SessionEvent κ → List UInt8
  | .run .client o => handedOver s (connRun cfg o s.dcPeer s.client)
  | .alarm .client wakeupTime o => handedOver s (connAlarm cfg wakeupTime o s.dcPeer s.client).1
  | _ => []

/-- A step with its record.  Nothing is queued yet to a DC connection that was just dialled. -/
def relayStep (cfg : DirectConfig κ) (t : RelayTrace κ) (e : SessionEvent κ) :
    Option (RelayTrace κ) :=
  (sessionStep cfg t.s e).map fun s =>
    { s := s
      received := t.received ++ receivedBy t.s e
      queued := if t.s.dc.isNone && s.dc.isSome then [] else t.queued ++ queuedBy cfg t.s e }

/-- All that was received by the connection `c` and then from its socket, in one piece. -/
def wholeInput (T : AesCrypto κ) (c : Conn κ) (received : List UInt8) : InBuf κ where
  inU := c.inU ++ c.inQueue.flatten ++ received
  inn := c.inn
  readAeskey := T.readAeskey
  leftTlsPacketLength := c.data.leftTlsPacketLength

/-- What the client, accepted as `c`, has sent: its input without records and cipher. -/
def payload (cfg : DirectConfig κ) (T : AesCrypto κ) (c : Conn κ) (received : List UInt8) :
    List UInt8 :=
  (ctr128DecryptInput cfg.crypt c.data.isTls (wholeInput T c received)).1.inn

/-! ### A client that cannot relay -/

variable {peer : Option Peer} {c : Conn κ}

theorem relayed_reader (cfg : DirectConfig κ) (o : Outside κ)
    (hdirect : c.data.type.isDirect = true) (hnotDc : c.data.type ≠ .directDc)
    (hpeer : relays peer c = false) :
    (reader (connFuncs cfg o peer) c).data.relayed = c.data.relayed := by
  have hany : (peer.any fun p => p.crypto) = false := (relays_of_client hnotDc peer).symm.trans hpeer
  have hclient (x : Conn κ) : (tcpDirectClientParseExecute cfg o peer x).1.data.type = x.data.type ∧
      (tcpDirectClientParseExecute cfg o peer x).1.data.relayed = x.data.relayed := by
    unfold tcpDirectClientParseExecute
    cases peer with
    | none => split_ifs <;> exact ⟨rfl, rfl⟩
    | some dc =>
      dsimp only
      rw [if_neg (by simpa using hany)]
      exact ⟨rfl, rfl⟩
  refine (reader_rel (R := fun a b => a.data.type.isDirect = true → a.data.type ≠ .directDc →
    b.data.type = a.data.type ∧ b.data.relayed = a.data.relayed) ?_ ?_ cfg o peer ?_ hdirect hnotDc).2
  · intro a b c hab hbc ha ha'
    obtain ⟨htype, hrelayed⟩ := hab ha ha'
    obtain ⟨htype', hrelayed'⟩ := hbc (htype ▸ ha) (htype ▸ ha')
    exact ⟨htype'.trans htype, hrelayed'.trans hrelayed⟩
  · intro a b h _ _
    obtain ⟨-, -, -, left, hdata⟩ := h
    simp [hdata]
  · intro x _ _ hx hx'
    have hx₀ := hclient x
    unfold parseExecute
    cases htype : x.data.type with
    | rpcExtServer => simp [htype, ConnType.isDirect] at hx
    | rpcExtServerDrs => simp [htype, ConnType.isDirect] at hx
    | directClient => rwa [htype] at hx₀
    | directClientDrs => rwa [htype] at hx₀
    | directDc => exact absurd htype hx'

variable (cfg : DirectConfig κ) (o : Outside κ)

section

variable (hdirect : c.data.type.isDirect = true) (hnotDc : c.data.type ≠ .directDc)
  (hpeer : relays peer c = false)
include hdirect hnotDc hpeer

theorem relayed_readWrite : (readWrite cfg o peer c).data.relayed = c.data.relayed :=
  (keepsStream_writer cfg o _).relayed.trans (relayed_reader cfg o hdirect hnotDc hpeer)

theorem relayed_connRun (hready : c.data.readyPending = false) :
    (connRun cfg o peer c).data.relayed = c.data.relayed := by
  have hnone : (takeRun c).data.readyPending = false := hready
  rw [connRun, runConnected, hnone, if_neg Bool.false_ne_true]
  split_ifs
  · rfl
  · exact relayed_readWrite cfg o (c := takeRun c) hdirect hnotDc hpeer

theorem relayed_connAlarm (wakeupTime : ℚ) :
    (connAlarm cfg wakeupTime o peer c).1.data.relayed = c.data.relayed :=
  connAlarm_rule cfg wakeupTime (P := fun x => x.data.relayed = c.data.relayed) rfl rfl
    (fun _ _ => (keepsStream_rateLimitResume _).relayed)
    fun _ _ => relayed_readWrite cfg o (c := endDelay (jobTimerRemove c)) hdirect hnotDc hpeer

end

/-! ### The DC connection -/

theorem KeepsStream.directConn {c' : Conn κ} (h : KeepsStream c c') (hc : DirectConn c) :
    DirectConn c' := by
  have hsome : c'.crypto.isSome = c.crypto.isSome := by
    simpa using congrArg Option.isSome h.readAeskey
  have hnone : c'.crypto = none ↔ c.crypto = none := by
    rw [← not_isSome_iff_eq_none, hsome, not_isSome_iff_eq_none]
  refine ⟨h.type ▸ hc.direct, ?_, ?_⟩
  · rw [h.type, h.connected, h.readyPending]
    exact hc.client
  · rw [h.type]
    intro hdc
    have hphase := hc.dc hdc
    refine ⟨?_, ?_, ?_⟩
    · rw [hsome, h.socks5]
      exact hphase.socks5
    · rw [h.readyPending, h.connected]
      exact hphase.connected
    · rw [h.connected, h.readyPending, hnone, h.socks5]
      exact hphase.fresh

theorem directConn_connRun (peer : Option Peer) (hc : DirectConn c) :
    DirectConn (connRun cfg o peer c) := by
  have htaken := directConn_takeRun hc
  unfold connRun
  split_ifs
  · exact htaken
  · have hread := directKeeps_reader cfg o peer (directConn_runConnected cfg o htaken)
    exact (keepsStream_writer cfg o _).directConn hread.2

theorem keepsStream_connAlarm (wakeupTime : ℚ) (o : Outside κ) (peer : Option Peer) {d : Conn κ}
    (hd : d.data.type = .directDc) : KeepsStream d (connAlarm cfg wakeupTime o peer d).1 := by
  have hremove := keepsStream_jobTimerRemove d
  exact connAlarm_rule cfg wakeupTime (by constructor <;> rfl) hremove
    (fun _ _ => hremove.trans (keepsStream_rateLimitResume _))
    fun hdrs => by simp [hd, ConnType.isDrs] at hdrs

/-! ### The invariant -/

section Invariant

variable {cfg : DirectConfig κ} {T : AesCrypto κ} {c₀ : Conn κ}

/-- What was queued, with the client's buffers behind it, is all that was received.  Nothing is
queued to a DC connection without its header, nor left for the next one. -/
structure RelayInv (cfg : DirectConfig κ) (T : AesCrypto κ) (c₀ : Conn κ) (t : RelayTrace κ) :
    Prop where
  notDc : t.s.client.data.type ≠ .directDc
  relay : t.s.client.data.type.isDirect = false → t.s.dc = none ∧ t.queued = []
  client : t.s.client.data.type.isDirect = true →
    Deciphers cfg c₀.data.isTls
      (ctr128DecryptInput cfg.crypt c₀.data.isTls (wholeInput T c₀ t.received)) t.queued t.s.client
  outbox : t.s.client.data.type.isDirect = true → t.s.client.data.relayed = []
  dcType : ∀ d, t.s.dc = some d → d.data.type = .directDc
  dc : ∀ d, t.s.dc = some d → DirectConn d
  waits : t.s.dc = none → t.s.client.failed = false → t.queued = []
  fresh : ∀ d, t.s.dc = some d → d.crypto = none → t.queued = []
  exhausted : t.s.ready = true → t.s.client.failed = false → t.s.client.data.jsRun = false →
    Exhausted cfg c₀.data.isTls t.s.client

variable {t : RelayTrace κ} {d c : Conn κ} {o : Outside κ}

theorem RelayInv.isDirect_of_dc (ht : RelayInv cfg T c₀ t) (hd : t.s.dc = some d) :
    t.s.client.data.type.isDirect = true := by
  by_contra h
  have hnone := (ht.relay (by simpa using h)).1
  simp [hnone] at hd

theorem relayInv_replaceClient (ht : RelayInv cfg T c₀ t)
    (htype : c.data.type = t.s.client.data.type)
    (hkept : t.s.client.data.type.isDirect = true → KeepsStream t.s.client c)
    (hfailed : c.failed = false → t.s.client.failed = false)
    (hrun : c.data.jsRun = false → t.s.client.data.jsRun = false) :
    RelayInv cfg T c₀ { t with s := { t.s with client := c } } where
  notDc := htype ▸ ht.notDc
  relay := fun h => ht.relay (htype ▸ h)
  client := fun h => (hkept (htype ▸ h)).deciphers (ht.client (htype ▸ h))
  outbox := fun h => (hkept (htype ▸ h)).relayed.trans (ht.outbox (htype ▸ h))
  dcType := ht.dcType
  dc := ht.dc
  waits := fun hdc h => ht.waits hdc (hfailed h)
  fresh := ht.fresh
  exhausted := by
    intro hready hopen hidle
    cases hdc : t.s.dc with
    | none => simp [Session.ready, hdc] at hready
    | some d =>
      exact (hkept (ht.isDirect_of_dc hdc)).exhausted (ht.exhausted hready (hfailed hopen)
        (hrun hidle))

variable {d' : Conn κ} {s s' : Session κ} {wakeupTime : ℚ}

theorem relayInv_replaceDc (ht : RelayInv cfg T c₀ t) (hd : t.s.dc = some d)
    (htype : d'.data.type = d.data.type) (hconn : DirectConn d') (hcrypto : d'.crypto = d.crypto) :
    RelayInv cfg T c₀ { t with s := { t.s with dc := some d' } } := by
  have hdirect := ht.isDirect_of_dc hd
  refine ⟨ht.notDc, fun h => ?_, ht.client, ht.outbox, ?_, ?_, nofun, ?_,
    fun hready => ?_⟩
  · exact absurd (h.symm.trans hdirect) Bool.false_ne_true
  · rintro _ ⟨rfl⟩
    exact htype.trans (ht.dcType d hd)
  · rintro _ ⟨rfl⟩
    exact hconn
  · rintro _ ⟨rfl⟩
    rw [hcrypto]
    exact ht.fresh d hd
  · refine ht.exhausted ?_
    rw [ready_of_dc hd, ← hcrypto]
    exact hready

theorem relayInv_setClient (ht : RelayInv cfg T c₀ t) (htype : c.data.type = t.s.client.data.type)
    (hfailed : c.failed = false → t.s.client.failed = false)
    (hc : t.s.client.data.type.isDirect = true → Deciphers cfg c₀.data.isTls
      (ctr128DecryptInput cfg.crypt c₀.data.isTls (wholeInput T c₀ t.received)) t.queued c)
    (hsilent : t.s.client.data.type.isDirect = true → t.s.ready = false → c.data.relayed = [])
    (hleft : t.s.ready = true → c.failed = false → c.data.jsRun = false →
      Exhausted cfg c₀.data.isTls c) :
    RelayInv cfg T c₀ ⟨t.s.setClient c, t.received, t.queued ++ handedOver t.s c⟩ := by
  have hnone : t.s.dc = none → handedOver t.s c = [] := fun h => by simp [handedOver, h]
  refine ⟨htype ▸ ht.notDc, fun h => ?_, fun h => ?_, fun _ => rfl, ?_, ?_, fun h hopen => ?_, ?_,
    ?_⟩
  · obtain ⟨hdc, hqueued⟩ := ht.relay (htype ▸ h)
    exact ⟨map_eq_none_iff.2 hdc, by simp [hqueued, hnone hdc]⟩
  · -- what the handler relayed has gone to the DC connection; without one there is nothing
    have hdirect : t.s.client.data.type.isDirect = true := htype ▸ h
    have hover : handedOver t.s c = c.data.relayed.flatten := by
      cases hdc : t.s.dc with
      | none =>
        rw [hnone hdc, hsilent hdirect (by simp [Session.ready, hdc])]
        rfl
      | some d => simp [handedOver, hdc]
    rw [hover]
    exact deciphers_clearOutbox (hc hdirect)
  · intro d hd
    obtain ⟨d₀, hd₀, rfl⟩ := map_eq_some_iff.1 hd
    exact ht.dcType d₀ hd₀
  · intro d hd
    obtain ⟨d₀, hd₀, rfl⟩ := map_eq_some_iff.1 hd
    exact (keepsStream_receiveRelayed _ d₀).directConn (ht.dc d₀ hd₀)
  · have hdc := map_eq_none_iff.1 h
    rw [hnone hdc, append_nil]
    exact ht.waits hdc (hfailed hopen)
  · intro d hd hcrypto
    obtain ⟨d₀, hd₀, rfl⟩ := map_eq_some_iff.1 hd
    have hclear : d₀.crypto = none := hcrypto
    have hready : t.s.ready = false := by
      rw [ready_of_dc hd₀, hclear]
      rfl
    rw [ht.fresh d₀ hd₀ hclear, handedOver, hsilent (ht.isDirect_of_dc hd₀) hready]
    simp
  · rw [ready_setClient]
    exact hleft

theorem keepsStream_flushDeferred (h : c.skipBytes = 0) : KeepsStream c (flushDeferred c) :=
  ⟨rfl, rfl, rfl, h.symm, rfl, rfl, rfl, rfl, rfl, rfl, rfl, rfl⟩

theorem relayInv_setDc (ht : RelayInv cfg T c₀ t) (hd : t.s.dc = some d) (hhandled : Handled d d')
    (hconn : DirectConn d') : RelayInv cfg T c₀ { t with s := t.s.setDc d' } := by
  have hdirect := ht.isDirect_of_dc hd
  have hclient := ht.client hdirect
  have hkept : KeepsStream t.s.client (t.s.setDc d').client := by
    unfold Session.setDc
    split_ifs
    · exact (keepsStream_flushDeferred hclient.skipBytes).trans (keepsStream_receiveRelayed _ _)
    · exact keepsStream_receiveRelayed _ _
  have hfresh : d'.crypto = none → d.crypto = none := fun h => by
    by_contra hsome
    simpa [h] using hhandled.crypto (isSome_iff_ne_none.2 hsome)
  refine ⟨hkept.type ▸ ht.notDc, fun h => ?_, fun _ => hkept.deciphers hclient,
    fun _ => hkept.relayed.trans (ht.outbox hdirect), ?_, ?_, nofun, ?_,
    fun hready hopen hidle => ?_⟩
  · rw [hkept.type] at h
    exact absurd (h.symm.trans hdirect) Bool.false_ne_true
  · rintro _ ⟨rfl⟩
    exact hhandled.type.trans (ht.dcType d hd)
  · rintro _ ⟨rfl⟩
    exact (sameInput_clearOutbox d').directConn hconn
  · rintro _ ⟨rfl⟩ hcrypto
    exact ht.fresh d hd (hfresh hcrypto)
  · -- the header wakes the client, so the DC connection was ready before
    refine hkept.exhausted ?_
    have hquiet : d'.data.obfs2Init = false := by
      cases h : d'.data.obfs2Init with
      | false => rfl
      | true => simp [Session.setDc, h, receiveRelayed, flushDeferred] at hidle
    have hsome := (hhandled.init hready).resolve_right (by simp [hquiet])
    simp only [Session.setDc, hquiet, receiveRelayed, or_eq_false_iff] at hidle hopen
    exact ht.exhausted ((ready_of_dc hd).trans hsome) hopen hidle.1

/-- The DC connection is gone, or a new one is dialled, before anything was queued or when the client
has failed. -/
theorem relayInv_redial (ht : RelayInv cfg T c₀ t) (hdirect : t.s.client.data.type.isDirect = true)
    (hkept : KeepsStream t.s.client s.client) (hdc : ∀ d, s.dc = some d → d = newDc κ)
    (hqueued : s.dc.isSome = true ∨ s.client.failed = false → t.queued = []) :
    RelayInv cfg T c₀ { t with s := s } := by
  refine ⟨hkept.type ▸ ht.notDc, fun h => ?_, fun _ => hkept.deciphers (ht.client hdirect),
    fun _ => hkept.relayed.trans (ht.outbox hdirect), fun d hd => ?_, fun d hd => ?_,
    fun _ h => hqueued (.inr h), fun d hd _ => hqueued (.inl (isSome_iff_exists.2 ⟨d, hd⟩)),
      fun hready => ?_⟩
  · rw [hkept.type] at h
    exact absurd (h.symm.trans hdirect) Bool.false_ne_true
  · rw [hdc d hd]
    rfl
  · rw [hdc d hd]
    exact (inputOk_newDc none).toDirectConn
  · cases hs : s.dc with
    | none => simp [Session.ready, hs] at hready
    | some d => simp [Session.ready, hs, hdc d hs, newDc] at hready

theorem keepsStream_directScheduleRetry (o : Outside κ) (attempt : ℕ) (c : Conn κ) :
    KeepsStream c (directScheduleRetry o attempt c) := by
  unfold directScheduleRetry
  split_ifs
  · exact keepsStream_failConnection c
  · constructor <;> rfl

section

variable (o) (ht : RelayInv cfg T c₀ t) (hdirect : t.s.client.data.type.isDirect = true)
include ht hdirect

theorem relayInv_directRetryDcConnection (hdc : t.s.dc = none)
    (hqueued : t.queued = []) :
    RelayInv cfg T c₀ { t with s := directRetryDcConnection o t.s } := by
  have hnone : ∀ d, t.s.dc = some d → d = newDc κ := fun d hd => by simp [hdc] at hd
  have hclear : KeepsStream t.s.client (clearRetry t.s.client) := by constructor <;> rfl
  unfold directRetryDcConnection
  split_ifs
  · exact relayInv_redial ht hdirect (hclear.trans (keepsStream_failConnection _)) hnone
      fun _ => hqueued
  · refine relayInv_redial ht hdirect hclear ?_ fun _ => hqueued
    rintro d ⟨rfl⟩
    rfl
  · exact relayInv_redial ht hdirect (keepsStream_directScheduleRetry o _ _) hnone fun _ => hqueued

/-! ### Steps -/

theorem RelayInv.relayed_connRun_eq_nil (hready : t.s.ready = false) :
    (connRun cfg o t.s.dcPeer t.s.client).data.relayed = [] := by
  rw [relayed_connRun cfg o hdirect ht.notDc ((relays_dcPeer ht.notDc).trans hready)
    (ht.client hdirect).readyPending]
  exact ht.outbox hdirect

theorem RelayInv.relayed_connAlarm_eq_nil (wakeupTime : ℚ) (hready : t.s.ready = false) :
    (connAlarm cfg wakeupTime o t.s.dcPeer t.s.client).1.data.relayed = [] := by
  rw [relayed_connAlarm cfg o hdirect ht.notDc ((relays_dcPeer ht.notDc).trans hready) wakeupTime]
  exact ht.outbox hdirect

end

theorem relayInv_clientRun (hcipher : StreamCipher cfg.crypt) (ht : RelayInv cfg T c₀ t) :
    RelayInv cfg T c₀ ⟨t.s.setClient (connRun cfg o t.s.dcPeer t.s.client), t.received,
      t.queued ++ handedOver t.s (connRun cfg o t.s.dcPeer t.s.client)⟩ := by
  have hrun (hdirect : t.s.client.data.type.isDirect = true) :=
    deciphers_connRun hcipher o t.s.dcPeer (ht.client hdirect)
  refine relayInv_setClient ht (type_connRun cfg o t.s.dcPeer ht.notDc) failed_connRun
    (fun hdirect => (hrun hdirect).1) (ht.relayed_connRun_eq_nil o) fun hready hopen _ => ?_
  cases hdc : t.s.dc with
  | none => simp [Session.ready, hdc] at hready
  | some d => exact (hrun (ht.isDirect_of_dc hdc)).2 hopen

theorem jsRun_connAlarm {cfg : DirectConfig κ} {peer : Option Peer} (hc : DirectConn c)
    (h : (connAlarm cfg wakeupTime o peer c).1.data.jsRun = false) : c.data.jsRun = false := by
  refine connAlarm_rule cfg wakeupTime (P := fun x => x.data.jsRun = false → c.data.jsRun = false)
    id id (fun _ hstop => ?_) (fun _ _ h => ?_) h
  · rw [rateLimitResume, if_pos hstop]
    exact id
  · have hended : DirectConn (endDelay (jobTimerRemove c)) :=
      ⟨hc.direct, hc.client, fun h => ⟨(hc.dc h).socks5, (hc.dc h).connected, (hc.dc h).fresh⟩⟩
    have hkeeps := (directKeeps_reader cfg o peer hended).1.trans (directKeeps_writer cfg o _)
    exact hkeeps.jsRun.symm.trans h

theorem relayInv_connAlarm (hcipher : StreamCipher cfg.crypt) (wakeupTime : ℚ) (o : Outside κ)
    (ht : RelayInv cfg T c₀ t) :
    RelayInv cfg T c₀ ⟨t.s.setClient (connAlarm cfg wakeupTime o t.s.dcPeer t.s.client).1,
      t.received, t.queued ++ handedOver t.s (connAlarm cfg wakeupTime o t.s.dcPeer t.s.client).1⟩ := by
  have halarm (hdirect : t.s.client.data.type.isDirect = true) :=
    deciphers_connAlarm hcipher wakeupTime o t.s.dcPeer (ht.client hdirect)
  refine relayInv_setClient ht (type_connAlarm cfg wakeupTime o t.s.dcPeer ht.notDc)
    failed_connAlarm (fun hdirect => (halarm hdirect).1)
    (fun hdirect => ht.relayed_connAlarm_eq_nil o hdirect wakeupTime) fun hready hopen hidle => ?_
  cases hdc : t.s.dc with
  | none => simp [Session.ready, hdc] at hready
  | some d =>
    have hdirect := ht.isDirect_of_dc hdc
    have hc := ht.client hdirect
    have hconn : DirectConn t.s.client :=
      ⟨hc.direct, fun _ => ⟨hc.connected, hc.readyPending⟩, fun h => absurd h ht.notDc⟩
    exact (halarm hdirect).2 (ht.exhausted hready (failed_connAlarm hopen)
      (jsRun_connAlarm hconn hidle))

theorem relayInv_closeDc (o : Outside κ) (ht : RelayInv cfg T c₀ t) (hd : t.s.dc = some d) :
    RelayInv cfg T c₀ { t with s := closeDc o t.s d } := by
  have hdirect := ht.isDirect_of_dc hd
  have hgone : ∀ x : Conn κ, none = some x → x = newDc κ := fun x hx => by simp at hx
  unfold closeDc
  split_ifs with hretry
  · have hclear : d.crypto = none := by
      simp only [and_eq_true, isNone_iff_eq_none] at hretry
      exact hretry.1
    exact relayInv_redial ht hdirect (keepsStream_directScheduleRetry o _ _) hgone
      fun _ => ht.fresh d hd hclear
  · refine relayInv_redial ht hdirect (keepsStream_failConnection _) hgone fun h => ?_
    simp [failConnection] at h

theorem relayInv_push (hcipher : StreamCipher cfg.crypt) (ht : RelayInv cfg T c₀ t)
    (chunk : List UInt8) :
    RelayInv cfg T c₀ ⟨{ t.s with client := socketPush chunk t.s.client }, t.received ++ chunk,
      t.queued⟩ := by
  refine { ht with client := fun h => ?_, exhausted := fun _ _ hidle => ?_ }
  · have hfeed : wholeInput T c₀ (t.received ++ chunk) = (wholeInput T c₀ t.received).feed chunk := by
      simp [wholeInput, InBuf.feed]
    have hpush := deciphers_socketPush hcipher chunk (ht.client h)
    rw [← ctr128DecryptInput_feed hcipher, ← hfeed] at hpush
    exact hpush
  · simp [socketPush] at hidle

theorem relayInv_clientAlarm (hcipher : StreamCipher cfg.crypt) (ht : RelayInv cfg T c₀ t)
    (h : clientAlarm cfg wakeupTime o t.s = some s') :
    RelayInv cfg T c₀ ⟨s', t.received,
      if t.s.dc.isNone && s'.dc.isSome then []
      else t.queued ++ handedOver t.s (connAlarm cfg wakeupTime o t.s.dcPeer t.s.client).1⟩ := by
  have halarm := relayInv_connAlarm hcipher wakeupTime o ht
  unfold clientAlarm at h
  dsimp only at h
  split_ifs at h with haborted hdial
  · cases h
    obtain ⟨hpeer, hdirect, hopen⟩ := peer_eq_none_of_connAlarm hdial
    have hnone : t.s.dc = none := map_eq_none_iff.1 hpeer
    have hempty : t.queued ++ handedOver t.s
        (connAlarm cfg wakeupTime o t.s.dcPeer t.s.client).1 = [] := by
      simp [handedOver, hnone, ht.waits hnone hopen]
    rw [hempty] at halarm ⊢
    rw [ite_self]
    refine relayInv_directRetryDcConnection o halarm ?_ (map_eq_none_iff.2 hnone) rfl
    have htype := type_connAlarm cfg wakeupTime o t.s.dcPeer ht.notDc
    exact (congrArg ConnType.isDirect htype).trans hdirect
  · cases h
    have hdc : (t.s.dc.isNone && (t.s.setClient
        (connAlarm cfg wakeupTime o t.s.dcPeer t.s.client).1).dc.isSome) = false := by
      cases hdc : t.s.dc <;> simp [Session.setClient, hdc]
    rw [hdc]
    exact halarm

theorem relayInv_closeClient (ht : RelayInv cfg T c₀ t) :
    RelayInv cfg T c₀ { t with s := closeClient t.s } := by
  have hclient := relayInv_replaceClient ht (c := jobTimerRemove t.s.client) rfl
    (fun _ => keepsStream_jobTimerRemove _) id id
  cases hdc : t.s.dc with
  | none =>
    rw [closeClient, hdc, map_none, ← hdc]
    exact hclient
  | some d =>
    rw [closeClient, hdc]
    exact relayInv_replaceDc hclient hdc rfl
      ((keepsStream_failConnection d).directConn (ht.dc d hdc)) rfl

theorem RelayInv.of_not_dialled {received queued : List UInt8} (hdc : t.s.dc = none → s'.dc = none)
    (h : RelayInv cfg T c₀ ⟨s', t.received ++ received, t.queued ++ queued⟩) :
    RelayInv cfg T c₀ ⟨s', t.received ++ received,
      if t.s.dc.isNone && s'.dc.isSome then [] else t.queued ++ queued⟩ := by
  have hold : (t.s.dc.isNone && s'.dc.isSome) = false := by
    cases hs : t.s.dc with
    | none => simp [hdc hs]
    | some d => rfl
  rw [hold]
  exact h

theorem relayInv_step (hcipher : StreamCipher cfg.crypt) (t : RelayTrace κ) (e : SessionEvent κ)
    (t' : RelayTrace κ) (ht : RelayInv cfg T c₀ t) (h : relayStep cfg t e = some t') :
    RelayInv cfg T c₀ t' := by
  obtain ⟨s', hs, rfl⟩ := map_eq_some_iff.1 h
  have hreceived : RelayInv cfg T c₀ ⟨t.s, t.received ++ [], t.queued⟩ := by
    rw [append_nil]
    exact ht
  have hqueued : RelayInv cfg T c₀ ⟨t.s, t.received, t.queued ++ []⟩ := by
    rw [append_nil]
    exact ht
  have hnothing : RelayInv cfg T c₀ ⟨t.s, t.received ++ [], t.queued ++ []⟩ := by
    rw [append_nil t.queued]
    exact hreceived
  have hstays {d : Conn κ} (hd : t.s.dc = some d) {p : Prop} (hnone : t.s.dc = none) : p := by
    simp [hnone] at hd
  cases stepped_of_sessionStep hs with
  | readClient chunk =>
    exact .of_not_dialled id (relayInv_replaceClient hnothing (c := socketRead chunk t.s.client)
      rfl (fun hdirect => keepsStream_socketRead chunk (ht.client hdirect)) id
      fun h => (or_eq_false_iff.1 h).1)
  | readDc chunk hd =>
    have hconn := directConn_socketRead chunk (ht.dc _ hd)
    exact .of_not_dialled (hstays hd) (relayInv_replaceDc hnothing hd rfl hconn rfl)
  | @pushClient chunk hchunk =>
    have hpushed : receivedBy t.s (.push .client) = chunk := by simp [receivedBy, hchunk]
    rw [hpushed]
    exact .of_not_dialled id (relayInv_push hcipher hqueued chunk)
  | pushDc hd =>
    exact .of_not_dialled (hstays hd) (relayInv_replaceDc hnothing hd rfl
      (directConn_socketPush _ (ht.dc _ hd)) rfl)
  | runClient o h =>
    simp only [clientRun] at h
    split_ifs at h
    cases h
    exact .of_not_dialled map_eq_none_iff.2 (relayInv_clientRun hcipher hreceived)
  | runDc o hd =>
    exact .of_not_dialled (hstays hd) (relayInv_setDc hnothing hd
      (handled_connRun cfg o t.s.clientPeer (ht.dc _ hd))
      (directConn_connRun cfg o t.s.clientPeer (ht.dc _ hd)))
  | alarmClient time o h => exact relayInv_clientAlarm hcipher hreceived h
  | alarmDc time o hd =>
    have hkept := keepsStream_connAlarm cfg time o t.s.clientPeer (ht.dcType _ hd)
    have hcrypto := crypto_connAlarm cfg time o t.s.clientPeer (ht.dcType _ hd)
    exact .of_not_dialled (hstays hd) (relayInv_setDc hnothing hd
      (handled_of_eq hkept.type hcrypto) (hkept.directConn (ht.dc _ hd)))
  | write raw hdirect =>
    exact .of_not_dialled id (relayInv_replaceClient hnothing
      (c := receiveRelayed [raw] t.s.client) rfl (fun h => absurd h hdirect) id
      fun h => (or_eq_false_iff.1 h).1)
  | failClient =>
    exact .of_not_dialled id (relayInv_replaceClient hnothing (c := failConnection t.s.client) rfl
      (fun _ => keepsStream_failConnection _) nofun id)
  | failDc hd =>
    exact .of_not_dialled (hstays hd) (relayInv_replaceDc hnothing hd rfl
      ((keepsStream_failConnection _).directConn (ht.dc _ hd)) rfl)
  | closeClient => exact .of_not_dialled map_eq_none_iff.2 (relayInv_closeClient hnothing)
  | closeDc o hd => exact .of_not_dialled (hstays hd) (relayInv_closeDc o hnothing hd)

/-! ### Every run of a session -/

theorem Accepted.deciphers_toDirect (o : Outside κ) (hc : Accepted c) (hT : c.crypto = some T)
    (hrelayed : c.data.relayed = []) :
    Deciphers cfg c.data.isTls (ctr128DecryptInput cfg.crypt c.data.isTls (wholeInput T c [])) []
      (toDirect o c) := by
  have hok := (hc.inputOk_toDirect o).toDirectConn
  refine ⟨hok.direct, rfl, fun h => absurd h (type_toDirect_ne o c), hc.skipBytes, hc.connected,
    hc.readyPending, T, hT, ?_⟩
  simp [stream, wholeInput, toDirect, hrelayed]

theorem relayInv_of_relay (hnotDc : c.data.type ≠ .directDc)
    (hrelay : c.data.type.isDirect = false) : RelayInv cfg T c₀ ⟨⟨c, none⟩, [], []⟩ where
  notDc := hnotDc
  relay := fun _ => ⟨rfl, rfl⟩
  client := fun h => absurd (hrelay.symm.trans h) Bool.false_ne_true
  outbox := fun h => absurd (hrelay.symm.trans h) Bool.false_ne_true
  dcType := fun _ h => absurd h (some_ne_none _).symm
  dc := fun _ h => absurd h (some_ne_none _).symm
  waits := fun _ _ => rfl
  fresh := fun _ _ _ => rfl
  exhausted := fun h => absurd h Bool.false_ne_true

theorem relayInv_of_fresh (hnotDc : s.client.data.type ≠ .directDc)
    (hclient : Deciphers cfg c₀.data.isTls
      (ctr128DecryptInput cfg.crypt c₀.data.isTls (wholeInput T c₀ [])) [] s.client)
    (houtbox : s.client.data.relayed = []) (hdc : ∀ d, s.dc = some d → d = newDc κ) :
    RelayInv cfg T c₀ ⟨s, [], []⟩ where
  notDc := hnotDc
  relay := fun h => absurd (h.symm.trans hclient.direct) Bool.false_ne_true
  client := fun _ => hclient
  outbox := fun _ => houtbox
  dcType := fun d hd => by rw [hdc d hd]; rfl
  dc := fun d hd => by rw [hdc d hd]; exact (inputOk_newDc none).toDirectConn
  waits := fun _ _ => rfl
  fresh := fun _ _ _ => rfl
  exhausted := by
    intro hready
    cases hs : s.dc with
    | none => simp [Session.ready, hs] at hready
    | some d => simp [Session.ready, hs, hdc d hs, newDc] at hready

theorem relayInv_start (hc : Accepted c) (hT : c.crypto = some T) (hrelayed : c.data.relayed = []) :
    RelayInv cfg T c ⟨startSession cfg o c, [], []⟩ := by
  have hnotDc : c.data.type ≠ .directDc := fun h => by
    have hrelay := hc.isDirect
    simp [h, ConnType.isDirect] at hrelay
  have hclient : Deciphers cfg c.data.isTls
      (ctr128DecryptInput cfg.crypt c.data.isTls (wholeInput T c [])) [] (toDirect o c) :=
    hc.deciphers_toDirect o hT hrelayed
  have hretry := keepsStream_directScheduleRetry o 0 (toDirect o c)
  have hnew : ∀ d, some (newDc κ) = some d → d = newDc κ := fun d hd => (some.inj hd).symm
  have hgone : ∀ d, none = some d → d = newDc κ := fun d hd => by simp at hd
  unfold startSession directConnectToDc
  split_ifs
  · exact relayInv_of_relay (c := failConnection c) hnotDc hc.isDirect
  · exact relayInv_of_fresh (s := ⟨toDirect o c, some (newDc κ)⟩) (type_toDirect_ne o c) hclient
      hrelayed hnew
  · exact relayInv_of_fresh (s := ⟨directScheduleRetry o 0 (toDirect o c), none⟩)
      (hretry.type ▸ type_toDirect_ne o c) (hretry.deciphers hclient)
      (hretry.relayed.trans hrelayed) hgone
  · exact relayInv_of_relay hnotDc hc.isDirect

end Invariant

/-- **The relay is faithful.**  In every run the bytes queued to the DC connection are a prefix of the
client's payload, and none are queued before that connection has its cipher, which is installed
together with the header.  If no alarm lifts `C_STOPREAD` of a connection with buffered input and no
run pending, then whenever the DC connection is ready and the client idle they are all of it. -/
theorem relay_integrity {cfg : DirectConfig κ} (hcipher : StreamCipher cfg.crypt) {o : Outside κ}
    {c : Conn κ} {T : AesCrypto κ} (hc : Accepted c) (hT : c.crypto = some T)
    (hrelayed : c.data.relayed = []) {es : List (SessionEvent κ)} {t : RelayTrace κ}
    (hrun : run (relayStep cfg) ⟨startSession cfg o c, [], []⟩ es = some t) :
    t.queued <+: payload cfg T c t.received ∧
      (∀ d, t.s.dc = some d → d.crypto = none → t.queued = []) ∧
      (Along (relayStep cfg) (fun t e => ResumesDrained t.s e) ⟨startSession cfg o c, [], []⟩ es →
        t.s.clientIdle = true → t.queued = payload cfg T c t.received) := by
  have hinv : RelayInv cfg T c t :=
    run_invariant (fun t e t' ht _ h => relayInv_step hcipher t e t' ht h)
      (relayInv_start hc hT hrelayed) (along_true _ es) hrun
  refine ⟨?_, hinv.fresh, fun hdrained hidle => ?_⟩
  · by_cases hdirect : t.s.client.data.type.isDirect = true
    · exact (hinv.client hdirect).relayed_isPrefix
    · rw [(hinv.relay (by simpa using hdirect)).2]
      exact nil_prefix
  · simp only [Session.clientIdle, and_eq_true, not_eq_true'] at hidle
    obtain ⟨⟨⟨hready, hopen⟩, hstop⟩, hquiet⟩ := hidle
    have hwakeup : WakeupInv t.s := by
      refine run_invariant (I := fun t => WakeupInv t.s) (fun t e t' ht hdrained h => ?_)
        (wakeupInv_start ⟨o, c, hc, rfl⟩) hdrained hrun
      obtain ⟨s', hs, rfl⟩ := map_eq_some_iff.1 h
      exact wakeupInv_step t.s e s' ht hdrained hs
    cases hdc : t.s.dc with
    | none => simp [Session.ready, hdc] at hready
    | some d =>
      have hdirect := hinv.isDirect_of_dc hdc
      have hrelays := (relays_dcPeer hwakeup.notDc).trans hready
      have hinn := (hwakeup.client hdirect).relayed hrelays hopen hquiet hstop
      exact (hinv.client hdirect).relayed_eq (hinv.exhausted hready hopen hquiet) hinn
        (hinv.outbox hdirect)

/-- The first DC connection fails before its header while a byte is received; the second sends its
header, and the byte is relayed to it, then another. -/
def sampleRedial : List (SessionEvent Unit) :=
  [.read .client (some [1]), .push .client, .run .client (sampleOutside 0), .fail .dc,
    .close .dc (sampleOutside 0), .alarm .client (6 / 5) (sampleOutside 0)] ++ sampleReady ++
  [.read .client (some [2]), .push .client, .run .client (sampleOutside 0)]

theorem relay_integrity_sampleRedial :
    ∃ t, run (relayStep (sampleConfig true))
        ⟨startSession (sampleConfig true) (sampleOutside 0) (sampleAccepted false), [], []⟩
        sampleRedial = some t ∧
      t.queued = [1, 2] ∧ t.s.clientIdle = true ∧
      t.queued = payload (sampleConfig true) ⟨(), ()⟩ (sampleAccepted false) t.received := by
  obtain ⟨t, ht, hqueued, hidle⟩ : ∃ t, run (relayStep (sampleConfig true))
      ⟨startSession (sampleConfig true) (sampleOutside 0) (sampleAccepted false), [], []⟩
      sampleRedial = some t ∧ t.queued = [1, 2] ∧ t.s.clientIdle = true := by decide +kernel
  have hdrained : Along (relayStep (sampleConfig true)) (fun t e => ResumesDrained t.s e)
      ⟨startSession (sampleConfig true) (sampleOutside 0) (sampleAccepted false), [], []⟩
      sampleRedial := by decide +kernel
  exact ⟨t, ht, hqueued, hidle, (relay_integrity (streamCipher_sampleConfig true)
    (accepted_sampleAccepted false) rfl rfl ht).2.2 hdrained hidle⟩

/-- **A byte can be left out**: here the client is idle and the DC connection ready, nothing is in
flight, no run or timer is pending, and only the first of two received bytes was queued. -/
theorem relay_integrity_stranded :
    ∃ t, run (relayStep (sampleConfig true))
        ⟨startSession (sampleConfig true) (sampleOutside 0) (sampleAccepted false), [], []⟩
        sampleStranded = some t ∧
      t.s.clientIdle = true ∧ t.s.client.data.inFlight = none ∧ t.s.client.data.ioRun = false ∧
      t.s.client.data.realWakeupTime = 0 ∧ t.queued = [1] ∧
      payload (sampleConfig true) ⟨(), ()⟩ (sampleAccepted false) t.received = [1, 2] := by
  decide +kernel

end Mtbolt.Direct
