import Mtbolt.Direct.Conn

/-!
# What the handlers of a connection do to its holds and its timer

Rate limiting holds the input of a connection back (`C_STOPREAD`), the delays between records hold
its output back (`delay_pending`), and both rely on the connection's one timer to end the hold.
-/

namespace Mtbolt.Direct

open Net Bool
open ExtServer (FrameConn framePass)

variable {κ : Type}

/-! ### Holds -/

/-- Output is held back by a delay between records, or input by rate limiting. -/
def Held (c : Conn κ) : Prop := c.data.drs.delayPending = true ∨ c.stopRead = true

/-- A hold of a connection that has not failed is under an armed timer. -/
def HeldArmed (c : Conn κ) : Prop := c.failed = false → Held c → jobTimerActive c

variable {c c' d : Conn κ} {cfg : DirectConfig κ} {o : Outside κ} {peer : Option Peer}
  {wakeupTime : ℚ}

theorem heldArmed_of_not_held (h : ¬Held c) : HeldArmed c := fun _ hc => absurd hc h

/-- `c'` comes from `c` by changes that leave the holds and the timer alone, or that arm the
timer. -/
structure HoldStep (c c' : Conn κ) : Prop where
  type : c'.data.type = c.data.type
  isTls : c'.data.isTls = c.data.isTls
  connected : c'.data.connected = c.data.connected
  readyPending : c'.data.readyPending = c.data.readyPending
  failed : c'.failed = false → c.failed = false
  drs : c.data.type.isDrs = false → c'.data.drs = c.data.drs
  stopRead : c.data.type.isDirect = false → c'.stopRead = c.stopRead
  hold : (c'.stopRead = c.stopRead ∧ c'.data.drs.delayPending = c.data.drs.delayPending ∧
    c'.data.realWakeupTime = c.data.realWakeupTime) ∨ jobTimerActive c'

theorem HoldStep.trans {a b : Conn κ} (hab : HoldStep a b) (hbc : HoldStep b c) : HoldStep a c where
  type := hbc.type.trans hab.type
  isTls := hbc.isTls.trans hab.isTls
  connected := hbc.connected.trans hab.connected
  readyPending := hbc.readyPending.trans hab.readyPending
  failed := fun h => hab.failed (hbc.failed h)
  drs := fun h => (hbc.drs (hab.type ▸ h)).trans (hab.drs h)
  stopRead := fun h => (hbc.stopRead (hab.type ▸ h)).trans (hab.stopRead h)
  hold := by
    rcases hbc.hold with ⟨hstop, hdelay, htime⟩ | harmed
    · rcases hab.hold with ⟨hstop', hdelay', htime'⟩ | harmed
      · exact .inl ⟨hstop.trans hstop', hdelay.trans hdelay', htime.trans htime'⟩
      · exact .inr (by rwa [jobTimerActive, htime])
    · exact .inr harmed

theorem HoldStep.armed (h : HoldStep c c') (hc : HeldArmed c) : HeldArmed c' := by
  intro hfailed hheld
  rcases h.hold with ⟨hstop, hdelay, htime⟩ | harmed
  · rw [jobTimerActive, htime]
    exact hc (h.failed hfailed) (by rwa [Held, ← hstop, ← hdelay])
  · exact harmed

/-! ### The reader -/

/-- `c'` differs from `c` in its buffers and in its key only. -/
structure Buffered (c c' : Conn κ) : Prop where
  stopRead : c'.stopRead = c.stopRead
  failed : c'.failed = false → c.failed = false
  crypto : c'.crypto.isSome = c.crypto.isSome
  data : ∃ left, c'.data = { c.data with leftTlsPacketLength := left }

variable (c)

theorem buffered_popAll : Buffered c c.popAll := by
  unfold ConnInfo.popAll
  split_ifs <;> exact ⟨rfl, id, rfl, _, rfl⟩

theorem buffered_applySkip : Buffered c c.applySkip := by
  refine ⟨c.stopRead_applySkip, fun h => ?_, ?_, _, c.data_applySkip⟩
  · rwa [c.failed_applySkip] at h
  · rw [c.crypto_applySkip]

theorem buffered_setSkip (res : ℤ) : Buffered c (c.setSkip res) := ⟨rfl, id, rfl, _, rfl⟩

variable (cfg) {c}

theorem buffered_cryptoDecryptInput (c : Conn κ) : Buffered c (cryptoDecryptInput cfg c).1 := by
  unfold cryptoDecryptInput
  cases hcrypto : c.crypto with
  | none => exact ⟨rfl, id, rfl, _, rfl⟩
  | some T => exact ⟨rfl, fun h => (or_eq_false_iff.1 h).1, by simp [hcrypto], _, rfl⟩

theorem Buffered.holdStep (h : Buffered c c') : HoldStep c c' := by
  obtain ⟨hstop, hfailed, -, left, hdata⟩ := h
  refine ⟨?_, ?_, ?_, ?_, hfailed, ?_, fun _ => hstop, .inl ⟨hstop, ?_, ?_⟩⟩ <;> simp [hdata]

/-- **A rule for the reader of these connections**: a transitive relation that allows changes of the
buffers and that the parser keeps to, the reader keeps to. -/
theorem reader_rel {R : Conn κ → Conn κ → Prop} (htrans : ∀ a b c, R a b → R b c → R a c)
    (hbuf : ∀ a b, Buffered a b → R a b) (cfg : DirectConfig κ) (o : Outside κ)
    (peer : Option Peer) {c₀ : Conn κ}
    (hparse : ∀ c, R c₀ c → c.blocked = false → R c (parseExecute cfg o peer c).1) :
    R c₀ (reader (connFuncs cfg o peer) c₀) := by
  have hrefl : R c₀ c₀ := hbuf c₀ c₀ ⟨rfl, id, rfl, _, rfl⟩
  refine reader_invariant (I := fun c => R c₀ c) ?_ ?_ ?_ ?_ ?_ hrefl
  · exact fun c hc => htrans _ _ _ hc (hbuf _ _ (buffered_popAll c))
  · exact fun c hc _ => htrans _ _ _ hc (hbuf _ _ (buffered_cryptoDecryptInput cfg c))
  · exact fun c hc => htrans _ _ _ hc (hbuf _ _ (buffered_applySkip c))
  · exact fun c res hc => htrans _ _ _ hc (hbuf _ _ (buffered_setSkip c res))
  · exact fun c hc hopen => htrans _ _ _ hc (hparse c hc hopen)

/-- A step that touches none of the fields that a `HoldStep` is about, except that it may fail the
connection. -/
theorem HoldStep.of_data (hstop : c'.stopRead = c.stopRead)
    (hfailed : c'.failed = false → c.failed = false) (htype : c'.data.type = c.data.type)
    (htls : c'.data.isTls = c.data.isTls) (hconn : c'.data.connected = c.data.connected)
    (hready : c'.data.readyPending = c.data.readyPending) (hdrs : c'.data.drs = c.data.drs)
    (htime : c'.data.realWakeupTime = c.data.realWakeupTime) : HoldStep c c' :=
  ⟨htype, htls, hconn, hready, hfailed, fun _ => hdrs, fun _ => hstop,
    .inl ⟨hstop, by rw [hdrs], htime⟩⟩

variable (c)

theorem HoldStep.refl : HoldStep c c := .of_data rfl id rfl rfl rfl rfl rfl rfl

theorem holdStep_failConnection : HoldStep c (failConnection c) :=
  .of_data rfl nofun rfl rfl rfl rfl rfl rfl

variable {c}

theorem throttleDelay_pos (tokens effRate : ℤ) : 0 < throttleDelay tokens effRate :=
  lt_min (lt_max_of_lt_right (by norm_num)) (by norm_num)

variable (o)

theorem holdStep_rateLimitAfterRelay (bytes : ℕ) (hdirect : c.data.type.isDirect = true) :
    HoldStep c (rateLimitAfterRelay cfg o bytes c).1 := by
  unfold rateLimitAfterRelay
  by_cases hlimit : o.rateLimit ≤ 0
  · rw [if_pos hlimit]
    exact .refl c
  · rw [if_neg hlimit]
    cases o.tip with
    | none => exact .refl c
    | some tip =>
      dsimp only
      split_ifs
      · have hrelay : c.data.type.isDirect ≠ false := by simp [hdirect]
        exact ⟨rfl, rfl, rfl, rfl, id, fun _ => rfl, fun h => absurd h hrelay,
          .inr (add_pos o.preciseNow_pos (throttleDelay_pos _ _))⟩
      · exact .refl c

variable (peer)

theorem holdStep_tcpDirectRelay (c : Conn κ) : HoldStep c (tcpDirectRelay peer c) := by
  unfold tcpDirectRelay
  split_ifs
  · exact .of_data rfl id rfl rfl rfl rfl rfl rfl
  · exact holdStep_failConnection c

variable (bytes sid : ℕ) (T : AesCrypto κ)

theorem holdStep_relayCounted (hdirect : c.data.type.isDirect = true) :
    HoldStep c (relayCounted cfg o peer sid c) := by
  have hrelay := holdStep_tcpDirectRelay peer c
  unfold relayCounted
  split_ifs
  · exact holdStep_failConnection c
  · exact hrelay.trans (holdStep_rateLimitAfterRelay cfg o _ (hrelay.type ▸ hdirect))
  · exact hrelay

theorem holdStep_tcpDirectClientParseExecute (hdirect : c.data.type.isDirect = true) :
    HoldStep c (tcpDirectClientParseExecute cfg o peer c).1 := by
  unfold tcpDirectClientParseExecute
  cases peer with
  | none =>
    split_ifs
    · exact (holdStep_failConnection c).trans (.of_data rfl id rfl rfl rfl rfl rfl rfl)
    · exact .refl c
    · exact holdStep_failConnection c
  | some dc =>
    dsimp only
    split_ifs
    · exact holdStep_relayCounted cfg o _ _ hdirect
    · exact .refl c

theorem holdStep_applySocks5 (r : Socks5Step) (c : Conn κ) : HoldStep c (applySocks5 r c) :=
  .of_data rfl id rfl rfl rfl rfl rfl rfl

theorem holdStep_tcpDirectDcParseExecute (hdirect : c.data.type.isDirect = true) :
    HoldStep c (tcpDirectDcParseExecute cfg o peer c).1 := by
  unfold tcpDirectDcParseExecute
  split_ifs
  · have hsocks := holdStep_applySocks5 (socks5HandleResponse cfg.socks5 c.data.socks5 c.inn) c
    dsimp only
    cases (socks5HandleResponse cfg.socks5 c.data.socks5 c.inn).result with
    | more => exact hsocks
    | complete => exact hsocks.trans (.of_data rfl id rfl rfl rfl rfl rfl rfl)
    | error => exact hsocks.trans (holdStep_failConnection _)
  · cases peer with
    | none => exact holdStep_tcpDirectRelay none c
    | some client => exact holdStep_relayCounted cfg o _ _ hdirect

theorem holdStep_reader_direct (hdirect : c.data.type.isDirect = true) :
    HoldStep c (reader (connFuncs cfg o peer) c) := by
  refine reader_rel (R := HoldStep) (fun _ _ _ => .trans) (fun _ _ h => h.holdStep) cfg o peer
    fun x hx _ => ?_
  have hdirect' : x.data.type.isDirect = true := hx.type ▸ hdirect
  unfold parseExecute
  cases htype : x.data.type with
  | rpcExtServer => simp [htype, ConnType.isDirect] at hdirect'
  | rpcExtServerDrs => simp [htype, ConnType.isDirect] at hdirect'
  | directClient => exact holdStep_tcpDirectClientParseExecute cfg o peer hdirect'
  | directClientDrs => exact holdStep_tcpDirectClientParseExecute cfg o peer hdirect'
  | directDc => exact holdStep_tcpDirectDcParseExecute cfg o peer hdirect'

/-! ### What the reader of a client leaves alone -/

/-- What the reader of a client does not touch: its output, and the delays between records. -/
structure ClientRead (c c' : Conn κ) : Prop where
  type : c'.data.type = c.data.type
  isTls : c'.data.isTls = c.data.isTls
  connected : c'.data.connected = c.data.connected
  readyPending : c'.data.readyPending = c.data.readyPending
  drs : c'.data.drs = c.data.drs
  outQueue : c'.data.outQueue = c.data.outQueue
  out : c'.data.out = c.data.out
  stopRead : c.data.type.isDirect = false → c'.stopRead = c.stopRead

theorem ClientRead.trans {a b : Conn κ} (hab : ClientRead a b) (hbc : ClientRead b c) :
    ClientRead a c where
  type := hbc.type.trans hab.type
  isTls := hbc.isTls.trans hab.isTls
  connected := hbc.connected.trans hab.connected
  readyPending := hbc.readyPending.trans hab.readyPending
  drs := hbc.drs.trans hab.drs
  outQueue := hbc.outQueue.trans hab.outQueue
  out := hbc.out.trans hab.out
  stopRead := fun h => (hbc.stopRead (hab.type ▸ h)).trans (hab.stopRead h)

theorem ClientRead.refl (c : Conn κ) : ClientRead c c :=
  ⟨rfl, rfl, rfl, rfl, rfl, rfl, rfl, fun _ => rfl⟩

theorem Buffered.clientRead (h : Buffered c c') : ClientRead c c' := by
  obtain ⟨hstop, -, -, left, hdata⟩ := h
  refine ⟨?_, ?_, ?_, ?_, ?_, ?_, ?_, fun _ => hstop⟩ <;> simp [hdata]

theorem rateLimitAfterRelay_eq (c : Conn κ) :
    ∃ stopRead time io, (rateLimitAfterRelay cfg o bytes c).1 =
      { c with
        stopRead := stopRead
        data := { c.data with realWakeupTime := time, ioStopRead := io } } := by
  unfold rateLimitAfterRelay
  by_cases hlimit : o.rateLimit ≤ 0
  · rw [if_pos hlimit]
    exact ⟨_, _, _, rfl⟩
  · rw [if_neg hlimit]
    cases o.tip with
    | none => exact ⟨_, _, _, rfl⟩
    | some tip =>
      dsimp only
      split_ifs <;> exact ⟨_, _, _, rfl⟩

theorem tcpDirectRelay_eq (c : Conn κ) :
    ∃ inn failed relayed, tcpDirectRelay peer c =
        { c with inn := inn, failed := failed, data := { c.data with relayed := relayed } } ∧
      (failed = true ∨ inn = []) ∧ relayed.flatten ++ inn = c.data.relayed.flatten ++ c.inn := by
  unfold tcpDirectRelay
  split_ifs
  · exact ⟨_, _, _, rfl, .inr rfl, by simp⟩
  · exact ⟨_, _, _, rfl, .inl rfl, rfl⟩

/-- A relay moves input behind what was relayed, all of it unless the connection fails. -/
theorem relayCounted_eq (c : Conn κ) : ∃ inn failed stopRead time io relayed,
      relayCounted cfg o peer sid c =
        { c with
          inn := inn
          failed := failed
          stopRead := stopRead
          data := { c.data with realWakeupTime := time, ioStopRead := io, relayed := relayed } } ∧
      (failed = true ∨ inn = []) ∧ relayed.flatten ++ inn = c.data.relayed.flatten ++ c.inn := by
  obtain ⟨inn, failed, relayed, hrelay, hinn⟩ := tcpDirectRelay_eq peer c
  unfold relayCounted
  split_ifs
  · exact ⟨_, _, _, _, _, _, rfl, .inl rfl, rfl⟩
  · obtain ⟨stopRead, time, io, hlimit⟩ :=
      rateLimitAfterRelay_eq cfg o c.inn.length (tcpDirectRelay peer c)
    exact ⟨inn, failed, stopRead, time, io, relayed, by rw [hlimit, hrelay], hinn⟩
  · exact ⟨inn, failed, _, _, _, relayed, hrelay, hinn⟩

theorem crypto_relayCounted (c : Conn κ) : (relayCounted cfg o peer sid c).crypto = c.crypto := by
  obtain ⟨inn, failed, stopRead, time, io, relayed, heq, -⟩ := relayCounted_eq cfg o peer sid c
  rw [heq]

theorem clientRead_tcpDirectClientParseExecute (hdirect : c.data.type.isDirect = true) :
    ClientRead c (tcpDirectClientParseExecute cfg o peer c).1 := by
  have hrelay : c.data.type.isDirect ≠ false := by simp [hdirect]
  unfold tcpDirectClientParseExecute
  cases peer with
  | none =>
    split_ifs
    · exact ⟨rfl, rfl, rfl, rfl, rfl, rfl, rfl, fun _ => rfl⟩
    · exact .refl c
    · exact ⟨rfl, rfl, rfl, rfl, rfl, rfl, rfl, fun _ => rfl⟩
  | some dc =>
    dsimp only
    split_ifs
    · obtain ⟨inn, failed, stopRead, time, io, relayed, heq, -⟩ :=
        relayCounted_eq cfg o (some dc) c.data.sid c
      refine ⟨?_, ?_, ?_, ?_, ?_, ?_, ?_, fun h => absurd h hrelay⟩ <;> rw [heq]
    · exact .refl c

theorem clientRead_withFrame (c : Conn κ) (fc : FrameConn) : ClientRead c (withFrame c fc) :=
  ⟨rfl, rfl, rfl, rfl, rfl, rfl, rfl, fun _ => rfl⟩

theorem clientRead_compactLoop (flood : BitVec 32 → Bool) (fuel : ℕ) (c : Conn κ) :
    ClientRead c (compactLoop flood fuel c).1 := by
  induction fuel generalizing c with
  | zero => exact .refl c
  | succ fuel ih =>
    rw [compactLoop]
    have htimer : ClientRead c (if c.data.inPacketNum ≠ -3#32 then jobTimerRemove c else c) := by
      split_ifs
      · exact ⟨rfl, rfl, rfl, rfl, rfl, rfl, rfl, fun _ => rfl⟩
      · exact .refl c
    refine htimer.trans ?_
    generalize (if c.data.inPacketNum ≠ -3#32 then jobTimerRemove c else c) = c₁
    cases framePass (flood c₁.data.inPacketNum) (frameConn c₁) with
    | ret res fc => exact clientRead_withFrame c₁ fc
    | again fc => exact (clientRead_withFrame c₁ fc).trans (ih _)
    | abort => exact ⟨rfl, rfl, rfl, rfl, rfl, rfl, rfl, fun _ => rfl⟩

theorem clientRead_reader (hclient : c.data.type ≠ .directDc) :
    ClientRead c (reader (connFuncs cfg o peer) c) := by
  refine reader_rel (R := ClientRead) (fun _ _ _ => .trans) (fun _ _ h => h.clientRead) cfg o peer
    fun x hx _ => ?_
  unfold parseExecute
  cases htype : x.data.type with
  | rpcExtServer => exact clientRead_compactLoop _ _ _
  | rpcExtServerDrs => exact clientRead_compactLoop _ _ _
  | directClient =>
    exact clientRead_tcpDirectClientParseExecute cfg o peer (by simp [htype, ConnType.isDirect])
  | directClientDrs =>
    exact clientRead_tcpDirectClientParseExecute cfg o peer (by simp [htype, ConnType.isDirect])
  | directDc => exact absurd (hx.type.symm.trans htype) hclient

/-! ### The writer -/

variable {peer}

theorem holdStep_cryptoEncryptOutput (htls : c.data.type.isDrs = true → c.data.isTls = true) :
    HoldStep c (cryptoEncryptOutput cfg o T c) := by
  unfold cryptoEncryptOutput
  by_cases hdrs : c.data.type.isDrs = true
  · rw [if_pos hdrs, htls hdrs]
    dsimp only
    have hplain : c.data.type.isDrs ≠ false := by simp [hdrs]
    have hlater : 0 < o.preciseNow + o.sampleDelay :=
      add_pos_of_pos_of_nonneg o.preciseNow_pos o.sampleDelay_nonneg
    cases hdelay : c.data.drs.delayPending with
    | true =>
      rw [encryptOutputDrs, hdelay]
      exact .of_data rfl id rfl rfl rfl rfl rfl rfl
    | false =>
      rcases encryptOutputDrs_outcome cfg.crypt (drsEnv cfg o) true (outBuf T c) hdelay with
        ⟨-, hnone, htimer⟩ | ⟨-, htimer⟩
      · rw [htimer]
        exact ⟨rfl, rfl, rfl, rfl, id, fun h => absurd h hplain, fun _ => rfl,
          .inl ⟨rfl, hnone.trans hdelay.symm, rfl⟩⟩
      · rw [htimer]
        exact ⟨rfl, rfl, rfl, rfl, id, fun h => absurd h hplain, fun _ => rfl, .inr hlater⟩
  · rw [if_neg hdrs]
    exact .of_data rfl id rfl rfl rfl rfl rfl rfl

theorem holdStep_writer (htls : c.data.type.isDrs = true → c.data.isTls = true) :
    HoldStep c (writer cfg o c) := by
  have hpop : HoldStep c (popOutQueue c) := .of_data rfl id rfl rfl rfl rfl rfl rfl
  unfold writer
  cases c.crypto with
  | none => exact hpop.trans (.of_data rfl id rfl rfl rfl rfl rfl rfl)
  | some T =>
    have hencrypt : HoldStep c (cryptoEncryptOutput cfg o T (popOutQueue c)) :=
      hpop.trans (holdStep_cryptoEncryptOutput cfg o T htls)
    exact hencrypt.trans (.of_data rfl id rfl rfl rfl rfl rfl rfl)

theorem writer_eq (c : Conn κ) :
    ∃ crypto out outP drs time ioOut ioRun,
      writer cfg o c = { c with
        crypto := crypto
        data := { c.data with
          outQueue := [], out := out, outP := outP, drs := drs, realWakeupTime := time,
          ioOut := ioOut, ioRun := ioRun } } ∧
      crypto.isSome = c.crypto.isSome := by
  unfold writer
  cases hcrypto : c.crypto with
  | none => exact ⟨_, _, _, _, _, _, _, rfl, congrArg Option.isSome hcrypto⟩
  | some T =>
    unfold cryptoEncryptOutput
    split_ifs <;> exact ⟨_, _, _, _, _, _, _, rfl, rfl⟩

/-- Nothing is waiting to be sent. -/
structure Quiet (c : Conn κ) : Prop where
  outQueue : c.data.outQueue = []
  out : c.data.out = []
  delayPending : c.data.drs.delayPending = false

theorem ClientRead.quiet (h : ClientRead c c') (hc : Quiet c) : Quiet c' :=
  ⟨h.outQueue.trans hc.outQueue, h.out.trans hc.out,
    (congrArg DrsState.delayPending h.drs).trans hc.delayPending⟩

theorem quiet_cryptoEncryptOutput (hc : Quiet c) : Quiet (cryptoEncryptOutput cfg o T c) := by
  have hbuf : (outBuf T c).out = [] := hc.out
  unfold cryptoEncryptOutput
  by_cases hdrs : c.data.type.isDrs = true
  · rw [if_pos hdrs, encryptOutputDrs_of_out_eq_nil _ _ _ hbuf]
    exact ⟨hc.outQueue, hc.out, hc.delayPending⟩
  · rw [if_neg hdrs]
    exact ⟨hc.outQueue, out_encryptOutputLoop _ _ le_rfl, hc.delayPending⟩

theorem quiet_writer (hc : Quiet c) : Quiet (writer cfg o c) := by
  have hpop : Quiet (popOutQueue c) :=
    ⟨rfl, by simp [popOutQueue, rwmUnion, hc.out, hc.outQueue], hc.delayPending⟩
  unfold writer
  cases c.crypto with
  | none => exact ⟨rfl, rfl, hc.delayPending⟩
  | some T =>
    have hencrypt := quiet_cryptoEncryptOutput cfg o T hpop
    exact ⟨hencrypt.outQueue, hencrypt.out, hencrypt.delayPending⟩

/-! ### The handlers of a client -/

variable {cfg o}

/-- What a client past its handshake always is. -/
structure ClientShape (c : Conn κ) : Prop where
  notDc : c.data.type ≠ .directDc
  tls : c.data.type.isDrs = true → c.data.isTls = true
  plain : c.data.type.isDrs = false → c.data.drs.delayPending = false
  relay : c.data.type.isDirect = false → c.stopRead = false
  connected : c.data.connected = true
  readyPending : c.data.readyPending = false

/-- A client whose holds are all under the timer. -/
structure ClientOk (c : Conn κ) : Prop extends ClientShape c where
  armed : HeldArmed c

theorem HoldStep.shape (h : HoldStep c c') (hc : ClientShape c) : ClientShape c' where
  notDc := h.type ▸ hc.notDc
  tls := fun hdrs => h.isTls ▸ hc.tls (h.type ▸ hdrs)
  plain := fun hdrs => h.drs (h.type ▸ hdrs) ▸ hc.plain (h.type ▸ hdrs)
  relay := fun hrelay => (h.stopRead (h.type ▸ hrelay)).trans (hc.relay (h.type ▸ hrelay))
  connected := h.connected ▸ hc.connected
  readyPending := h.readyPending ▸ hc.readyPending

theorem HoldStep.clientOk (h : HoldStep c c') (hc : ClientOk c) : ClientOk c' :=
  ⟨h.shape hc.toClientShape, h.armed hc.armed⟩

theorem ClientRead.shape (h : ClientRead c c') (hc : ClientShape c) : ClientShape c' where
  notDc := h.type ▸ hc.notDc
  tls := fun hdrs => h.isTls ▸ hc.tls (h.type ▸ hdrs)
  plain := fun hdrs => h.drs ▸ hc.plain (h.type ▸ hdrs)
  relay := fun hrelay => (h.stopRead (h.type ▸ hrelay)).trans (hc.relay (h.type ▸ hrelay))
  connected := h.connected ▸ hc.connected
  readyPending := h.readyPending ▸ hc.readyPending

theorem ClientShape.jobTimerRemove (hc : ClientShape c) : ClientShape (jobTimerRemove c) :=
  { hc with }

/-- The parser of the client is not called while a delay is pending that its removal of the timer
would leave without one. -/
def ParserSpares (cfg : DirectConfig κ) (o : Outside κ) (peer : Option Peer) (c : Conn κ) : Prop :=
  c.data.type = .rpcExtServerDrs → c.data.drs.delayPending = true →
    reachesParser (connFuncs cfg o peer) c = false

theorem holdStep_of_not_reachesParser (h : reachesParser (connFuncs cfg o peer) c = false) :
    HoldStep c (reader (connFuncs cfg o peer) c) := by
  have hpop := (buffered_popAll c).holdStep
  have hfetch : HoldStep c (fetchInput (connFuncs cfg o peer) c).1 := by
    unfold fetchInput
    split_ifs
    · exact hpop.trans (buffered_cryptoDecryptInput cfg c.popAll).holdStep
    · exact hpop
  rcases reader_of_not_reachesParser h with hr | hr
  · exact hr ▸ hfetch
  · exact hr ▸ hfetch.trans (buffered_applySkip _).holdStep

theorem clientOk_reader (hc : ClientOk c) (hspares : ParserSpares cfg o peer c) :
    ClientOk (reader (connFuncs cfg o peer) c) := by
  have hread := clientRead_reader cfg o peer hc.notDc
  refine ⟨hread.shape hc.toClientShape, ?_⟩
  cases hdirect : c.data.type.isDirect with
  | true => exact (holdStep_reader_direct cfg o peer hdirect).armed hc.armed
  | false =>
    have hstop : c.stopRead = false := hc.relay hdirect
    cases hdelay : c.data.drs.delayPending with
    | true =>
      -- only the type with dynamic record sizes has delays, and then the parser is not reached
      have htype : c.data.type = .rpcExtServerDrs := by
        cases htype : c.data.type with
        | rpcExtServerDrs => rfl
        | rpcExtServer => simp [hc.plain (by rw [htype]; rfl)] at hdelay
        | directClient => simp [htype, ConnType.isDirect] at hdirect
        | directClientDrs => simp [htype, ConnType.isDirect] at hdirect
        | directDc => exact absurd htype hc.notDc
      exact (holdStep_of_not_reachesParser (hspares htype hdelay)).armed hc.armed
    | false =>
      refine heldArmed_of_not_held ?_
      rw [Held, hread.drs, hread.stopRead hdirect, hdelay, hstop]
      simp

theorem clientOk_readWrite (hc : ClientOk c) (hspares : ParserSpares cfg o peer c) :
    ClientOk (readWrite cfg o peer c) :=
  have hread := clientOk_reader hc hspares
  (holdStep_writer cfg o hread.tls).clientOk hread

theorem holdStep_takeRun (c : Conn κ) : HoldStep c (takeRun c) :=
  .of_data rfl id rfl rfl rfl rfl rfl rfl

theorem connRun_of_client (hc : ClientShape c) :
    connRun cfg o peer c = if c.failed then takeRun c else readWrite cfg o peer (takeRun c) := by
  have hready : (takeRun c).data.readyPending = false := hc.readyPending
  rw [connRun, runConnected, hready, if_neg Bool.false_ne_true]

theorem clientOk_connRun (hc : ClientOk c) (hspares : ParserSpares cfg o peer (takeRun c)) :
    ClientOk (connRun cfg o peer c) := by
  have htaken := (holdStep_takeRun c).clientOk hc
  rw [connRun_of_client hc.toClientShape]
  split_ifs
  · exact htaken
  · exact clientOk_readWrite htaken hspares

theorem quiet_connRun (hshape : ClientShape c) (hc : Quiet c) : Quiet (connRun cfg o peer c) := by
  have htaken : Quiet (takeRun c) := ⟨hc.outQueue, hc.out, hc.delayPending⟩
  rw [connRun_of_client hshape]
  split_ifs
  · exact htaken
  · have hread := clientRead_reader cfg o peer (c := takeRun c) hshape.notDc
    exact quiet_writer cfg o (hread.quiet htaken)

theorem failed_connRun (h : (connRun cfg o peer c).failed = false) : c.failed = false := by
  cases hfailed : c.failed with
  | false => rfl
  | true =>
    rw [connRun, if_pos hfailed] at h
    exact absurd (h.symm.trans hfailed) nofun

/-! ### The alarm of a client -/

/-- The timer fires while at most one of the two holds is in force. -/
def AlarmLiftsAll (wakeupTime : ℚ) (c : Conn κ) : Prop :=
  c.data.type = .directClientDrs → jobTimerCheck wakeupTime c = true →
    ¬(c.data.drs.delayPending = true ∧ c.stopRead = true)

theorem clientOk_of_not_held (hc : ClientShape c) (hdelay : c.data.drs.delayPending = false)
    (hstop : c.stopRead = false) : ClientOk c :=
  ⟨hc, heldArmed_of_not_held (by simp [Held, hdelay, hstop])⟩

theorem clientOk_rateLimitResume (hc : ClientShape c) (hstop : c.stopRead = true)
    (hdelay : c.data.drs.delayPending = false) : ClientOk (rateLimitResume c).1 := by
  rw [rateLimitResume, if_pos hstop]
  exact clientOk_of_not_held { hc with relay := fun _ => rfl } hdelay rfl

/-- What an alarm handler can do: lift `C_STOPREAD`, nothing, ask for another dial, or end a
delay. -/
inductive AlarmCase (cfg : DirectConfig κ) (o : Outside κ) (peer : Option Peer) (c : Conn κ) :
    Conn κ × Bool → Prop
  | resume (hstop : c.stopRead = true) : AlarmCase cfg o peer c ((rateLimitResume c).1, false)
  | nothing (hdrs : c.data.type.isDrs = false)
      (hstop : c.data.type = .rpcExtServer ∨ c.stopRead = false) : AlarmCase cfg o peer c (c, false)
  | dial (hdirect : c.data.type.isDirect = true) (hstop : c.stopRead = false)
      (hwait : retryWaiting peer c = true) : AlarmCase cfg o peer c (c, true)
  | drs (hdrs : c.data.type.isDrs = true) (hstop : c.stopRead = false) :
      AlarmCase cfg o peer c (drsResume cfg o peer c, false)

variable (cfg o peer)

theorem alarm_cases (c : Conn κ) : AlarmCase cfg o peer c (alarm cfg o peer c) := by
  unfold alarm
  cases htype : c.data.type with
  | rpcExtServer => exact .nothing (by rw [htype]; rfl) (.inl htype)
  | rpcExtServerDrs =>
    dsimp only
    split_ifs with hstop
    · exact .resume hstop
    · exact .drs (by rw [htype]; rfl) (not_eq_true _ ▸ hstop)
  | directClient =>
    dsimp only
    split_ifs with hstop
    · exact .resume hstop
    · cases hwait : retryWaiting peer c with
      | true => exact .dial (by rw [htype]; rfl) (not_eq_true _ ▸ hstop) hwait
      | false => exact .nothing (by rw [htype]; rfl) (.inr (not_eq_true _ ▸ hstop))
  | directClientDrs =>
    split_ifs with hstop hwait
    · exact .resume hstop
    · exact .dial (by rw [htype]; rfl) (not_eq_true _ ▸ hstop) hwait
    · exact .drs (by rw [htype]; rfl) (not_eq_true _ ▸ hstop)
  | directDc =>
    cases hstop : c.stopRead with
    | true => exact .resume hstop
    | false =>
      rw [rateLimitResume, hstop]
      exact .nothing (by rw [htype]; rfl) (.inr hstop)

variable {cfg o peer}

/-- The connection whose delay is over. -/
def endDelay (c : Conn κ) : Conn κ :=
  { c with data := { c.data with drs := { c.data.drs with delayPending := false } } }

theorem clientOk_drsResume (hc : ClientShape c) (hstop : c.stopRead = false) :
    ClientOk (drsResume cfg o peer c) := by
  unfold drsResume
  split_ifs with hdelay
  · have hend : ClientOk (endDelay c) :=
      clientOk_of_not_held { hc with plain := fun _ => rfl } rfl hstop
    exact clientOk_readWrite hend fun _ h => absurd h Bool.false_ne_true
  · refine clientOk_of_not_held hc ?_ hstop
    cases hdrs : c.data.type.isDrs with
    | true => simpa [hc.tls hdrs] using hdelay
    | false => exact hc.plain hdrs

theorem clientOk_alarm (hc : ClientShape c)
    (hboth : c.data.type = .directClientDrs → ¬(c.data.drs.delayPending = true ∧ c.stopRead = true))
    (hretry : c.data.type.isDirect = true → retryWaiting peer c = true →
      c.data.drs.delayPending = false) :
    ClientOk (alarm cfg o peer c).1 := by
  have hcase := alarm_cases cfg o peer c
  generalize alarm cfg o peer c = r at hcase ⊢
  cases hcase with
  | resume hstop =>
    refine clientOk_rateLimitResume hc hstop ?_
    cases htype : c.data.type with
    | rpcExtServer => exact hc.plain (by rw [htype]; rfl)
    | rpcExtServerDrs => simp [hc.relay (by rw [htype]; rfl)] at hstop
    | directClient => exact hc.plain (by rw [htype]; rfl)
    | directClientDrs => exact not_eq_true _ ▸ fun h => hboth htype ⟨h, hstop⟩
    | directDc => exact absurd htype hc.notDc
  | nothing hdrs hstop =>
    refine clientOk_of_not_held hc (hc.plain hdrs) (hstop.elim (fun htype => ?_) id)
    exact hc.relay (by rw [htype]; rfl)
  | dial hdirect hstop hwait => exact clientOk_of_not_held hc (hretry hdirect hwait) hstop
  | drs hdrs hstop => exact clientOk_drsResume hc hstop

theorem clientOk_connAlarm (hc : ClientOk c) (hlifts : AlarmLiftsAll wakeupTime c)
    (hretry : c.data.type.isDirect = true → retryWaiting peer c = true → c.failed = false →
      c.data.drs.delayPending = false) :
    ClientOk (connAlarm cfg wakeupTime o peer c).1 := by
  have hshape := hc.toClientShape.jobTimerRemove
  unfold connAlarm
  split_ifs with hcheck hfailed
  · exact ⟨hshape, fun h => absurd (h.symm.trans hfailed) nofun⟩
  · refine clientOk_alarm hshape (fun htype => hlifts htype hcheck) fun hdirect hwait => ?_
    exact hretry hdirect hwait (not_eq_true _ ▸ hfailed)
  · exact hc

variable (cfg o peer)

theorem type_readWrite (hc : c.data.type ≠ .directDc) :
    (readWrite cfg o peer c).data.type = c.data.type := by
  obtain ⟨crypto, out, outP, drs, time, ioOut, ioRun, heq, -⟩ :=
    writer_eq cfg o (reader (connFuncs cfg o peer) c)
  rw [readWrite, heq]
  exact (clientRead_reader cfg o peer hc).type

theorem type_runConnected (c : Conn κ) : (runConnected cfg o c).data.type = c.data.type := by
  unfold runConnected tcpDirectDcConnected
  split_ifs <;> rfl

theorem type_connRun (hc : c.data.type ≠ .directDc) :
    (connRun cfg o peer c).data.type = c.data.type := by
  have htype := type_runConnected cfg o (takeRun c)
  unfold connRun
  split_ifs
  · rfl
  · exact (type_readWrite cfg o peer (by rw [htype]; exact hc)).trans htype

variable {o peer}

theorem type_rateLimitResume (c : Conn κ) : (rateLimitResume c).1.data.type = c.data.type := by
  unfold rateLimitResume
  split_ifs <;> rfl

variable (wakeupTime)

/-- **The rule of an alarm**: the timer is taken away or not, and then `C_STOPREAD` may be lifted, or
a delay ended. -/
theorem connAlarm_rule {P : Conn κ → Prop} (hsame : P c) (hremove : P (jobTimerRemove c))
    (hresume : jobTimerCheck wakeupTime c = true → (jobTimerRemove c).stopRead = true →
      P (rateLimitResume (jobTimerRemove c)).1)
    (hend : c.data.type.isDrs = true → c.data.drs.delayPending = true →
      P (readWrite cfg o peer (endDelay (jobTimerRemove c)))) :
    P (connAlarm cfg wakeupTime o peer c).1 := by
  unfold connAlarm
  split_ifs with hcheck
  · exact hremove
  · have hcase := alarm_cases cfg o peer (jobTimerRemove c)
    generalize alarm cfg o peer (jobTimerRemove c) = r at hcase ⊢
    cases hcase with
    | resume hstop => exact hresume hcheck hstop
    | nothing => exact hremove
    | dial => exact hremove
    | drs hdrs =>
      unfold drsResume
      split_ifs with hdelay
      · exact hend hdrs (and_eq_true_iff.1 hdelay).2
      · exact hremove
  · exact hsame

theorem type_connAlarm (o : Outside κ) (peer : Option Peer) (hc : c.data.type ≠ .directDc) :
    (connAlarm cfg wakeupTime o peer c).1.data.type = c.data.type :=
  connAlarm_rule cfg wakeupTime (P := fun x => x.data.type = c.data.type) rfl rfl
    (fun _ _ => type_rateLimitResume _)
    fun _ _ => type_readWrite cfg o peer (c := endDelay (jobTimerRemove c)) hc

theorem quiet_rateLimitResume (hc : Quiet c) : Quiet (rateLimitResume c).1 := by
  unfold rateLimitResume
  split_ifs
  · exact ⟨hc.outQueue, hc.out, hc.delayPending⟩
  · exact hc

theorem quiet_connAlarm (o : Outside κ) (peer : Option Peer) (hc : Quiet c) :
    Quiet (connAlarm cfg wakeupTime o peer c).1 := by
  have hremoved : Quiet (jobTimerRemove c) := ⟨hc.outQueue, hc.out, hc.delayPending⟩
  exact connAlarm_rule cfg wakeupTime hc hremoved (fun _ _ => quiet_rateLimitResume hremoved)
    fun _ hdelay => absurd (hdelay.symm.trans hc.delayPending) nofun

variable {cfg wakeupTime}

theorem failed_connAlarm (h : (connAlarm cfg wakeupTime o peer c).1.failed = false) :
    c.failed = false := by
  cases hfailed : c.failed with
  | false => rfl
  | true =>
    unfold connAlarm at h
    split_ifs at h <;> exact absurd (h.symm.trans hfailed) nofun

theorem peer_eq_none_of_connAlarm (h : (connAlarm cfg wakeupTime o peer c).2 = true) :
    peer = none ∧ c.data.type.isDirect = true ∧ c.failed = false := by
  unfold connAlarm at h
  split_ifs at h with hcheck hfailed
  have hcase := alarm_cases cfg o peer (jobTimerRemove c)
  generalize alarm cfg o peer (jobTimerRemove c) = r at hcase h
  revert h
  cases hcase with
  | resume => exact nofun
  | nothing => exact nofun
  | dial hdirect hstop hwait =>
    intro _
    simp only [retryWaiting, and_eq_true, Option.isNone_iff_eq_none] at hwait
    exact ⟨hwait.1.1, hdirect, not_eq_true _ ▸ hfailed⟩
  | drs => exact nofun

/-! ### The DC connection -/

/-- A DC connection that has not sent its header relays nothing: it waits for a SOCKS5 response, or
has no input. -/
structure DcSilent (d : Conn κ) : Prop where
  type : d.data.type = .directDc
  relayed : d.crypto = none → d.data.relayed = []
  waits : d.crypto = none → d.data.socks5 ≠ .none ∨
    (d.data.connected = false ∧ d.data.inFlight = none ∧ d.inQueue = [] ∧ d.inn = [])

theorem dcSilent_of_crypto (htype : d.data.type = .directDc) (h : d.crypto.isSome = true) :
    DcSilent d :=
  ⟨htype, fun hnone => by simp [hnone] at h, fun hnone => by simp [hnone] at h⟩

theorem dcSilent_popAll (hd : DcSilent d) : DcSilent d.popAll := by
  cases hcrypto : d.crypto with
  | some T =>
    exact dcSilent_of_crypto (d.data_popAll ▸ hd.type) (by simp [ConnInfo.popAll, hcrypto])
  | none =>
    refine ⟨d.data_popAll ▸ hd.type, fun _ => d.data_popAll ▸ hd.relayed hcrypto, fun _ => ?_⟩
    rw [d.data_popAll]
    refine (hd.waits hcrypto).imp_right fun h => ?_
    obtain ⟨hconn, hflight, hqueue, hinn⟩ := h
    refine ⟨hconn, hflight, ?_⟩
    simp [ConnInfo.popAll, hcrypto, hqueue, hinn, rwmUnion]

theorem dcSilent_applySkip (hd : DcSilent d) : DcSilent d.applySkip := by
  refine ⟨d.data_applySkip ▸ hd.type, fun h => ?_, fun h => ?_⟩
  · rw [d.crypto_applySkip] at h
    exact d.data_applySkip ▸ hd.relayed h
  · rw [d.crypto_applySkip] at h
    rw [d.data_applySkip]
    refine (hd.waits h).imp_right fun hwaits => ?_
    obtain ⟨hconn, hflight, hqueue, hinn⟩ := hwaits
    refine ⟨hconn, hflight, ?_⟩
    unfold ConnInfo.applySkip
    split_ifs <;> simp [hqueue, hinn, rwmSkipData]

variable (cfg o peer)

theorem parseExecute_of_directDc (htype : d.data.type = .directDc) :
    parseExecute cfg o peer d = tcpDirectDcParseExecute cfg o peer d := by
  rw [parseExecute, htype]

theorem dcSilent_parseExecute (hd : DcSilent d) (hinn : d.inn ≠ []) :
    DcSilent (parseExecute cfg o peer d).1 := by
  have hdirect : d.data.type.isDirect = true := by rw [hd.type]; rfl
  have htype : (tcpDirectDcParseExecute cfg o peer d).1.data.type = .directDc :=
    (holdStep_tcpDirectDcParseExecute cfg o peer hdirect).type.trans hd.type
  rw [parseExecute_of_directDc cfg o peer hd.type]
  revert htype
  unfold tcpDirectDcParseExecute
  by_cases hsocks : d.data.socks5 = .none
  · -- without a handshake the input was fetched through the cipher
    have hcrypto : d.crypto.isSome = true := by
      cases hcrypto : d.crypto with
      | some T => rfl
      | none =>
        rcases hd.waits hcrypto with h | ⟨-, -, -, h⟩
        · exact absurd hsocks h
        · exact absurd h hinn
    rw [if_neg (not_not.2 hsocks)]
    intro htype
    refine dcSilent_of_crypto htype ?_
    cases peer with
    | none => exact hcrypto
    | some client => exact (crypto_relayCounted cfg o _ _ d).symm ▸ hcrypto
  · rw [if_pos hsocks]
    dsimp only
    have hspec := socks5HandleResponse_spec cfg.socks5 hsocks d.inn
    cases hresult : (socks5HandleResponse cfg.socks5 d.data.socks5 d.inn).result with
    | complete => exact fun htype => dcSilent_of_crypto htype rfl
    | more =>
      have hstate := (hspec.resolve_right fun h => by simp [hresult] at h).2
      exact fun htype => ⟨htype, fun h => hd.relayed h, fun _ => .inl hstate⟩
    | error =>
      have hstate := (hspec.resolve_right fun h => by simp [hresult] at h).2
      exact fun htype => ⟨htype, fun h => hd.relayed h, fun _ => .inl hstate⟩

theorem dcSilent_reader (hd : DcSilent d) : DcSilent (reader (connFuncs cfg o peer) d) := by
  refine reader_invariant (I := DcSilent) (fun _ => dcSilent_popAll) ?_
    (fun _ => dcSilent_applySkip) ?_ ?_ hd
  · intro x hx hcrypto
    have hbuf := buffered_cryptoDecryptInput cfg x
    exact dcSilent_of_crypto (hbuf.holdStep.type.trans hx.type) (hbuf.crypto.trans hcrypto)
  · exact fun x res hx => ⟨hx.type, hx.relayed, hx.waits⟩
  · intro x hx hopen
    refine dcSilent_parseExecute cfg o peer hx fun hinn => ?_
    simp [ConnInfo.blocked, hinn] at hopen

variable {peer}

theorem dcSilent_writer (hd : DcSilent d) : DcSilent (writer cfg o d) := by
  obtain ⟨crypto, out, outP, drs, time, ioOut, ioRun, heq, hcrypto⟩ := writer_eq cfg o d
  have hnone : crypto = none → d.crypto = none := by
    intro h
    rw [h] at hcrypto
    exact Option.isNone_iff_eq_none.1 (by simpa using hcrypto)
  rw [heq]
  exact ⟨hd.type, fun h => hd.relayed (hnone h), fun h => hd.waits (hnone h)⟩

/-- A DC connection between two handlers: its holds are under the timer, and before its header it
waits for a SOCKS5 response, for the callback of its socket, or for the socket itself. -/
structure DcOk (d : Conn κ) : Prop where
  type : d.data.type = .directDc
  delayPending : d.data.drs.delayPending = false
  armed : HeldArmed d
  relayed : d.crypto = none → d.data.relayed = []
  waits : d.crypto = none → d.data.socks5 ≠ .none ∨ d.data.readyPending = true ∨
    (d.data.connected = false ∧ d.data.inFlight = none ∧ d.inQueue = [] ∧ d.inn = [])

theorem HoldStep.dcOk {d' : Conn κ} (h : HoldStep d d') (htype : d.data.type = .directDc)
    (hdelay : d.data.drs.delayPending = false) (harmed : HeldArmed d) (hsilent : DcSilent d') :
    DcOk d' where
  type := hsilent.type
  delayPending := h.drs (by rw [htype]; rfl) ▸ hdelay
  armed := h.armed harmed
  relayed := hsilent.relayed
  waits := fun hnone => (hsilent.waits hnone).imp_right .inr

theorem dcSilent_runConnected (hd : DcOk d) : DcSilent (runConnected cfg o (takeRun d)) := by
  unfold runConnected tcpDirectDcConnected
  split_ifs with hready hsocks
  · exact ⟨hd.type, hd.relayed, fun _ => .inl nofun⟩
  · exact dcSilent_of_crypto hd.type rfl
  · refine ⟨hd.type, hd.relayed, fun hnone => (hd.waits hnone).imp_right fun h => ?_⟩
    exact h.resolve_left hready

theorem data_runConnected (d : Conn κ) :
    (runConnected cfg o d).data.drs = d.data.drs ∧
      (runConnected cfg o d).data.realWakeupTime = d.data.realWakeupTime ∧
      (runConnected cfg o d).stopRead = d.stopRead ∧ (runConnected cfg o d).failed = d.failed := by
  unfold runConnected tcpDirectDcConnected
  split_ifs <;> exact ⟨rfl, rfl, rfl, rfl⟩

variable {cfg o}

theorem dcOk_connRun (hd : DcOk d) : DcOk (connRun cfg o peer d) := by
  unfold connRun
  split_ifs
  · exact { hd with }
  · have hsilent := dcSilent_runConnected cfg o hd
    obtain ⟨hdrs, htime, hstop, hfailed⟩ := data_runConnected cfg o (takeRun d)
    have hdelay : (runConnected cfg o (takeRun d)).data.drs.delayPending = false :=
      hdrs ▸ hd.delayPending
    have harmed : HeldArmed (runConnected cfg o (takeRun d)) := by
      rw [HeldArmed, Held, jobTimerActive, hdrs, htime, hstop, hfailed]
      exact hd.armed
    have hdirect : (runConnected cfg o (takeRun d)).data.type.isDirect = true := by
      rw [hsilent.type]; rfl
    have hread := holdStep_reader_direct cfg o peer hdirect
    have hread' := dcSilent_reader cfg o peer hsilent
    have hwrite := holdStep_writer cfg o
      (c := reader (connFuncs cfg o peer) (runConnected cfg o (takeRun d)))
      (by rw [hread'.type]; exact nofun)
    exact (hread.trans hwrite).dcOk hsilent.type hdelay harmed (dcSilent_writer cfg o hread')

variable (cfg o peer)

theorem crypto_parseExecute_of_directDc (htype : d.data.type = .directDc)
    (hcrypto : d.crypto.isSome = true) : (parseExecute cfg o peer d).1.crypto.isSome = true := by
  rw [parseExecute_of_directDc cfg o peer htype]
  unfold tcpDirectDcParseExecute
  split_ifs
  · dsimp only
    cases (socks5HandleResponse cfg.socks5 d.data.socks5 d.inn).result with
    | more => exact hcrypto
    | complete => rfl
    | error => exact hcrypto
  · cases peer with
    | none =>
      exact hcrypto
    | some client => exact (crypto_relayCounted cfg o _ _ d).symm ▸ hcrypto

/-- What reading and writing keep of a DC connection. -/
structure DcKeeps (d d' : Conn κ) : Prop where
  type : d'.data.type = d.data.type
  crypto : d.crypto.isSome = true → d'.crypto.isSome = true

theorem dcKeeps_reader (htype : d.data.type = .directDc) :
    DcKeeps d (reader (connFuncs cfg o peer) d) := by
  refine reader_rel (R := DcKeeps) ?_ ?_ cfg o peer fun x hx _ => ?_
  · exact fun a b c hab hbc => ⟨hbc.type.trans hab.type, fun h => hbc.crypto (hab.crypto h)⟩
  · exact fun a b h => ⟨h.holdStep.type, fun ha => h.crypto.trans ha⟩
  · have hxtype : x.data.type = .directDc := hx.type.trans htype
    refine ⟨?_, crypto_parseExecute_of_directDc cfg o peer hxtype⟩
    rw [parseExecute_of_directDc cfg o peer hxtype]
    exact (holdStep_tcpDirectDcParseExecute cfg o peer (by rw [hxtype]; rfl)).type

theorem dcKeeps_connRun (htype : d.data.type = .directDc) : DcKeeps d (connRun cfg o peer d) := by
  unfold connRun
  split_ifs
  · exact ⟨rfl, id⟩
  · have hcallback : DcKeeps d (runConnected cfg o (takeRun d)) := by
      refine ⟨type_runConnected cfg o (takeRun d), fun h => ?_⟩
      unfold runConnected tcpDirectDcConnected
      split_ifs
      · exact h
      · rfl
      · exact h
    have hread := dcKeeps_reader cfg o peer (hcallback.type.trans htype)
    obtain ⟨crypto, out, outP, drs, time, ioOut, ioRun, heq, hsome⟩ :=
      writer_eq cfg o (reader (connFuncs cfg o peer) (runConnected cfg o (takeRun d)))
    rw [readWrite, heq]
    exact ⟨hread.type.trans hcallback.type, fun h => hsome.trans (hread.crypto (hcallback.crypto h))⟩

end Mtbolt.Direct
