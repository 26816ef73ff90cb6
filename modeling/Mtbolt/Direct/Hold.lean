import Mtbolt.Direct.Handlers
import Mtbolt.Direct.Session

/-!
# Every hold is followed by an alarm

The timer of a connection is armed during every hold, in every run of a session in which no other
user of the timer takes it away from a hold.  Two of them do: the parser of a client in relay mode
removes the timer on every pass, and the alarm of a client in direct mode lifts only `C_STOPREAD`
when both holds are in force.
-/

namespace Mtbolt.Direct

open EventRun Net Option Bool

variable {κ : Type}

/-! ### The invariant -/

/-- The holds of both connections are under their timers, and a client in direct mode has nothing to
send as long as its DC connection has not sent its header. -/
structure HoldInv (s : Session κ) : Prop where
  client : ClientOk s.client
  dc : ∀ d, s.dc = some d → DcOk d
  quiet : s.client.data.type.isDirect = true → s.ready = false → s.client.failed = false →
    Quiet s.client

/-- The two kinds of step that leave a hold without its timer do not happen. -/
def SparesTimer (cfg : DirectConfig κ) (s : Session κ) : SessionEvent κ → Prop
  | .run .client o => ParserSpares cfg o s.dcPeer (takeRun s.client)
  | .alarm .client wakeupTime _ => AlarmLiftsAll wakeupTime s.client
  | _ => True

variable {s : Session κ} {d c : Conn κ} {cfg : DirectConfig κ}

theorem ready_of_dc (h : s.dc = some d) : s.ready = d.crypto.isSome := by
  rw [Session.ready, h]; rfl

theorem DcOk.clearOutbox (hd : DcOk d) : DcOk (clearOutbox d) := { hd with relayed := fun _ => rfl }

theorem DcOk.fail (hd : DcOk d) : DcOk (failConnection d) := { hd with armed := nofun }

theorem holdStep_receiveRelayed (raws : List (List UInt8)) (c : Conn κ) :
    HoldStep c (receiveRelayed raws c) :=
  .of_data rfl id rfl rfl rfl rfl rfl rfl

theorem holdStep_clearOutbox (c : Conn κ) : HoldStep c (clearOutbox c) :=
  .of_data rfl id rfl rfl rfl rfl rfl rfl

theorem ready_setClient (s : Session κ) (c : Conn κ) : (s.setClient c).ready = s.ready := by
  unfold Session.ready Session.setClient
  cases s.dc <;> rfl

/-! ### Steps of the client -/

theorem holdInv_setClient (hs : HoldInv s) (hc : ClientOk c)
    (hquiet : c.data.type.isDirect = true → s.ready = false → c.failed = false → Quiet c) :
    HoldInv (s.setClient c) where
  client := (holdStep_clearOutbox c).clientOk hc
  dc := by
    intro d hd
    obtain ⟨d₀, hd₀, rfl⟩ := map_eq_some_iff.1 hd
    exact { hs.dc d₀ hd₀ with }
  quiet := by
    intro hdirect hready hfailed
    rw [ready_setClient] at hready
    have h := hquiet hdirect hready hfailed
    exact ⟨h.outQueue, h.out, h.delayPending⟩

theorem holdInv_clientRun {o : Outside κ} {s' : Session κ} (hs : HoldInv s)
    (hspares : ParserSpares cfg o s.dcPeer (takeRun s.client)) (h : clientRun cfg o s = some s') :
    HoldInv s' := by
  unfold clientRun at h
  dsimp only at h
  split_ifs at h
  cases h
  have hshape := hs.client.toClientShape
  refine holdInv_setClient hs (clientOk_connRun hs.client hspares) fun hdirect hready hfailed => ?_
  rw [type_connRun cfg o s.dcPeer hshape.notDc] at hdirect
  exact quiet_connRun hshape (hs.quiet hdirect hready (failed_connRun hfailed))

theorem holdStep_directScheduleRetry (o : Outside κ) (attempt : ℕ) (c : Conn κ) :
    HoldStep c (directScheduleRetry o attempt c) := by
  unfold directScheduleRetry
  split_ifs
  · exact holdStep_failConnection c
  · have hlater : 0 < o.preciseNow + 1 / 5 * 2 ^ attempt := add_pos o.preciseNow_pos (by positivity)
    exact ⟨rfl, rfl, rfl, rfl, id, fun _ => rfl, fun _ => rfl, .inr hlater⟩

variable (o : Outside κ) (chunk : Option (List UInt8)) (attempt : ℕ)

theorem quiet_directScheduleRetry (hc : Quiet c) : Quiet (directScheduleRetry o attempt c) := by
  unfold directScheduleRetry
  split_ifs <;> exact ⟨hc.outQueue, hc.out, hc.delayPending⟩

theorem dcOk_newDc : DcOk (newDc κ) :=
  ⟨rfl, rfl, heldArmed_of_not_held (by simp [Held, newDc, DrsState.reset]), fun _ => rfl,
    fun _ => .inr (.inr ⟨rfl, rfl, rfl, rfl⟩)⟩

theorem holdInv_directRetryDcConnection (hs : HoldInv s) (hdc : s.dc = none) :
    HoldInv (directRetryDcConnection o s) := by
  have hready : s.ready = false := by rw [Session.ready, hdc]; rfl
  have hclear : HoldStep s.client (clearRetry s.client) :=
    .of_data rfl id rfl rfl rfl rfl rfl rfl
  unfold directRetryDcConnection
  split_ifs
  · refine ⟨(hclear.trans (holdStep_failConnection _)).clientOk hs.client, hs.dc, fun _ _ => ?_⟩
    exact nofun
  · refine ⟨hclear.clientOk hs.client, ?_, ?_⟩
    · rintro d ⟨rfl⟩
      exact dcOk_newDc
    · intro hdirect _ hfailed
      have h := hs.quiet hdirect hready hfailed
      exact ⟨h.outQueue, h.out, h.delayPending⟩
  · have hretry := holdStep_directScheduleRetry o s.client.data.retry s.client
    refine ⟨hretry.clientOk hs.client, hs.dc, fun hdirect _ hfailed => ?_⟩
    exact quiet_directScheduleRetry o _
      (hs.quiet (hretry.type ▸ hdirect) hready (hretry.failed hfailed))

theorem holdInv_clientAlarm {wakeupTime : ℚ} {o : Outside κ} {s' : Session κ} (hs : HoldInv s)
    (hlifts : AlarmLiftsAll wakeupTime s.client) (h : clientAlarm cfg wakeupTime o s = some s') :
    HoldInv s' := by
  have hshape := hs.client.toClientShape
  have hset : HoldInv (s.setClient (connAlarm cfg wakeupTime o s.dcPeer s.client).1) := by
    refine holdInv_setClient hs (clientOk_connAlarm hs.client hlifts ?_) ?_
    · -- a client that waits to dial has no DC connection, so nothing came to be sent
      intro hdirect hwait hfailed
      have hnone : s.dc = none := by
        simp only [retryWaiting, Session.dcPeer, and_eq_true, Option.isNone_map] at hwait
        exact Option.isNone_iff_eq_none.1 hwait.1.1
      exact (hs.quiet hdirect (by rw [Session.ready, hnone]; rfl) hfailed).delayPending
    · intro hdirect hready hfailed
      rw [type_connAlarm cfg wakeupTime o s.dcPeer hshape.notDc] at hdirect
      exact quiet_connAlarm cfg wakeupTime o _ (hs.quiet hdirect hready (failed_connAlarm hfailed))
  unfold clientAlarm at h
  dsimp only at h
  split_ifs at h with haborted hdial
  · cases h
    refine holdInv_directRetryDcConnection o hset ?_
    have hpeer : s.dc.map _ = none := (peer_eq_none_of_connAlarm hdial).1
    rw [Session.setClient, map_eq_none_iff.1 hpeer]
    rfl
  · cases h
    exact hset

/-! ### Steps of the DC connection -/

theorem holdInv_setDc (hs : HoldInv s) {d' : Conn κ} (hd : s.dc = some d) (hd' : DcOk d')
    (hcrypto : d.crypto.isSome = true → d'.crypto.isSome = true) : HoldInv (s.setDc d') := by
  have hflush : HoldStep s.client
      (if d'.data.obfs2Init then flushDeferred s.client else s.client) := by
    split_ifs
    · exact .of_data rfl id rfl rfl rfl rfl rfl rfl
    · exact .refl _
  have hclient := hflush.trans (holdStep_receiveRelayed d'.data.relayed _)
  refine ⟨hclient.clientOk hs.client, ?_, fun hdirect hready hfailed => ?_⟩
  · rintro _ ⟨rfl⟩
    exact hd'.clearOutbox
  · have hnone : d'.crypto = none := by simpa [Session.ready, Session.setDc, clearOutbox] using hready
    have hready₀ : s.ready = false := by
      rw [ready_of_dc hd]
      by_contra h
      simp [hnone] at hcrypto
      simp [hcrypto] at h
    have hquiet := hs.quiet (hclient.type ▸ hdirect) hready₀ (hclient.failed hfailed)
    have hempty : d'.data.relayed = [] := hd'.relayed hnone
    unfold Session.setDc receiveRelayed
    rw [hempty]
    split_ifs <;> exact ⟨by simp [flushDeferred, hquiet.outQueue], hquiet.out, hquiet.delayPending⟩

theorem dcOk_connAlarm (cfg : DirectConfig κ) (wakeupTime : ℚ) (o : Outside κ) (peer : Option Peer)
    (hd : DcOk d) : DcOk (connAlarm cfg wakeupTime o peer d).1 := by
  unfold connAlarm
  split_ifs with hcheck hfailed
  · exact { hd with armed := fun h => absurd (h.symm.trans hfailed) nofun }
  · have htype : (jobTimerRemove d).data.type = .directDc := hd.type
    have hfree : ∀ x : Conn κ, x.data.drs = d.data.drs → x.stopRead = false → HeldArmed x := by
      intro x hdrs hstop
      exact heldArmed_of_not_held (by simp [Held, hdrs, hstop, hd.delayPending])
    unfold alarm rateLimitResume
    rw [htype]
    dsimp only
    split_ifs with hstop
    · exact { hd with armed := hfree _ rfl rfl }
    · exact { hd with armed := hfree _ rfl (not_eq_true _ ▸ hstop) }
  · exact hd

theorem crypto_connAlarm (cfg : DirectConfig κ) (wakeupTime : ℚ) (o : Outside κ)
    (peer : Option Peer) (hd : d.data.type = .directDc) :
    (connAlarm cfg wakeupTime o peer d).1.crypto = d.crypto := by
  refine connAlarm_rule cfg wakeupTime (P := fun x => x.crypto = d.crypto) rfl rfl
    (fun _ hstop => ?_) fun hdrs => by simp [hd, ConnType.isDrs] at hdrs
  rw [rateLimitResume, if_pos hstop]
  rfl

/-! ### The invariant along a run -/

theorem holdInv_replaceClient (hs : HoldInv s) (hstep : HoldStep s.client c)
    (hquiet : Quiet s.client → Quiet c) : HoldInv { s with client := c } where
  client := hstep.clientOk hs.client
  dc := hs.dc
  quiet := fun hdirect hready hfailed =>
    hquiet (hs.quiet (hstep.type ▸ hdirect) hready (hstep.failed hfailed))

theorem holdInv_replaceDc (hs : HoldInv s) {d' : Conn κ} (hd : s.dc = some d) (hd' : DcOk d')
    (hcrypto : d'.crypto = d.crypto) : HoldInv { s with dc := some d' } := by
  refine ⟨hs.client, ?_, fun hdirect hready hfailed => ?_⟩
  · rintro _ ⟨rfl⟩
    exact hd'
  · refine hs.quiet hdirect ?_ hfailed
    rw [ready_of_dc hd, ← hcrypto]
    exact hready

theorem holdStep_socketRead (hc : ClientShape c) : HoldStep c (socketRead chunk c) :=
  .of_data rfl id rfl rfl hc.connected.symm (by simp [socketRead, hc.connected]) rfl rfl

theorem dcOk_socketRead (hd : DcOk d) : DcOk (socketRead chunk d) := by
  refine { hd with waits := fun hnone => ?_ }
  rcases hd.waits hnone with hsocks | hready | ⟨hconn, -⟩
  · exact .inl hsocks
  · exact .inr (.inl (by simp [socketRead, hready]))
  · exact .inr (.inl (by simp [socketRead, hconn]))

theorem dcOk_socketPush {chunk : List UInt8} (hd : DcOk d)
    (hflight : d.data.inFlight = some chunk) : DcOk (socketPush chunk d) := by
  refine { hd with waits := fun hnone => ?_ }
  rcases hd.waits hnone with hsocks | hready | ⟨-, hempty, -⟩
  · exact .inl hsocks
  · exact .inr (.inl hready)
  · exact absurd (hempty.symm.trans hflight) nofun

theorem holdInv_closeDc (hs : HoldInv s) (hd : s.dc = some d) : HoldInv (closeDc o s d) := by
  have hgone : ∀ x : Conn κ, none = some x → DcOk x := fun x hx => absurd hx (by simp)
  unfold closeDc
  split_ifs with hretry
  · have hstep := holdStep_directScheduleRetry o s.client.data.retry s.client
    have hnone : s.ready = false := by
      rw [ready_of_dc hd]
      simpa using (and_eq_true_iff.1 hretry).1
    refine ⟨hstep.clientOk hs.client, hgone, fun hdirect _ hfailed => ?_⟩
    exact quiet_directScheduleRetry o s.client.data.retry
      (hs.quiet (hstep.type ▸ hdirect) hnone (hstep.failed hfailed))
  · exact ⟨(holdStep_failConnection s.client).clientOk hs.client, hgone, fun _ _ => nofun⟩

theorem holdInv_closeClient (hs : HoldInv s) (hfailed : s.client.failed = true) :
    HoldInv (closeClient s) := by
  have hgone : ∀ {p : Prop}, (closeClient s).client.failed = false → p := fun h =>
    absurd (h.symm.trans hfailed) nofun
  refine ⟨⟨hs.client.toClientShape.jobTimerRemove, fun h => hgone h⟩, fun d hd => ?_,
    fun _ _ h => hgone h⟩
  obtain ⟨d₀, hd₀, rfl⟩ := map_eq_some_iff.1 hd
  exact (hs.dc d₀ hd₀).fail

theorem holdInv_step (s : Session κ) (e : SessionEvent κ) (s' : Session κ) (hs : HoldInv s)
    (hspares : SparesTimer cfg s e) (h : sessionStep cfg s e = some s') : HoldInv s' := by
  have hsame : ∀ c : Conn κ, c.data.outQueue = s.client.data.outQueue →
      c.data.out = s.client.data.out → c.data.drs = s.client.data.drs → Quiet s.client → Quiet c :=
    fun c hqueue hout hdrs hq => ⟨hqueue.trans hq.outQueue, hout.trans hq.out, hdrs ▸ hq.delayPending⟩
  cases stepped_of_sessionStep h with
  | readClient chunk =>
    exact holdInv_replaceClient hs (holdStep_socketRead chunk hs.client.toClientShape)
      (hsame _ rfl rfl rfl)
  | readDc chunk hd => exact holdInv_replaceDc hs hd (dcOk_socketRead chunk (hs.dc _ hd)) rfl
  | pushClient =>
    exact holdInv_replaceClient hs (.of_data rfl id rfl rfl rfl rfl rfl rfl) (hsame _ rfl rfl rfl)
  | pushDc hd hchunk => exact holdInv_replaceDc hs hd (dcOk_socketPush (hs.dc _ hd) hchunk) rfl
  | runClient o h => exact holdInv_clientRun hs hspares h
  | runDc o hd =>
    exact holdInv_setDc hs hd (dcOk_connRun (hs.dc _ hd))
      (dcKeeps_connRun cfg o s.clientPeer (hs.dc _ hd).type).crypto
  | alarmClient time o h => exact holdInv_clientAlarm hs hspares h
  | alarmDc time o hd =>
    refine holdInv_setDc hs hd (dcOk_connAlarm cfg time o s.clientPeer (hs.dc _ hd)) ?_
    rw [crypto_connAlarm cfg time o s.clientPeer (hs.dc _ hd).type]
    exact id
  | write raw hdirect =>
    refine ⟨(holdStep_receiveRelayed [raw] _).clientOk hs.client, hs.dc, fun h => ?_⟩
    exact absurd h hdirect
  | failClient => exact holdInv_replaceClient hs (holdStep_failConnection _) (hsame _ rfl rfl rfl)
  | failDc hd => exact holdInv_replaceDc hs hd (hs.dc _ hd).fail rfl
  | closeClient o hfailed => exact holdInv_closeClient hs hfailed
  | closeDc o hd => exact holdInv_closeDc o hs hd

/-! ### Every run of a session -/

theorem Accepted.clientOk (hc : Accepted c) : ClientOk c := by
  refine clientOk_of_not_held ⟨?_, ?_, fun _ => hc.delayPending, fun _ => hc.stopRead, hc.connected,
    hc.readyPending⟩ hc.delayPending hc.stopRead
  all_goals rw [hc.type]; cases c.data.isTls <;> simp [ConnType.isDrs]

theorem Accepted.quiet_toDirect (hc : Accepted c) : Quiet (toDirect o c) := by
  refine ⟨hc.outQueue, hc.out, ?_⟩
  simp only [toDirect]
  split_ifs
  · rfl
  · exact hc.delayPending

theorem Accepted.clientOk_toDirect (hc : Accepted c) : ClientOk (toDirect o c) := by
  have hdelay := (hc.quiet_toDirect o).delayPending
  refine clientOk_of_not_held ⟨?_, ?_, fun _ => hdelay, fun _ => hc.stopRead, hc.connected,
    hc.readyPending⟩ hdelay hc.stopRead
  all_goals simp only [toDirect, directType]; cases c.data.isTls <;> simp [ConnType.isDrs]

theorem holdInv_start (h : Started cfg s) : HoldInv s := by
  obtain ⟨o, c, hc, rfl⟩ := h
  have hnone : ∀ d : Conn κ, none = some d → DcOk d := fun d hd => absurd hd (by simp)
  unfold startSession directConnectToDc
  split_ifs
  · exact ⟨(holdStep_failConnection c).clientOk hc.clientOk, hnone, fun _ _ => nofun⟩
  · refine ⟨hc.clientOk_toDirect o, ?_, fun _ _ _ => hc.quiet_toDirect o⟩
    rintro _ ⟨rfl⟩
    exact dcOk_newDc
  · exact ⟨(holdStep_directScheduleRetry o 0 _).clientOk (hc.clientOk_toDirect o), hnone,
      fun _ _ _ => quiet_directScheduleRetry o 0 (hc.quiet_toDirect o)⟩
  · exact ⟨hc.clientOk, hnone, fun hdirect => absurd (hc.isDirect.symm.trans hdirect) nofun⟩

/-- **Every hold is under an armed timer**, on both connections of a session, after every run in
which neither the parser in relay mode nor the alarm of two holds takes the timer away. -/
theorem held_timer_armed {cfg : DirectConfig κ} {s₀ s : Session κ} {es : List (SessionEvent κ)}
    (hstart : Started cfg s₀) (hspares : Along (sessionStep cfg) (SparesTimer cfg) s₀ es)
    (hrun : run (sessionStep cfg) s₀ es = some s) (side : Side) {c : Conn κ}
    (hc : s.conn side = some c) (hfailed : c.failed = false) (hheld : Held c) :
    jobTimerActive c := by
  have hinv : HoldInv s := run_invariant holdInv_step (holdInv_start hstart) hspares hrun
  cases side with
  | client =>
    cases hc
    exact hinv.client.armed hfailed hheld
  | dc => exact (hinv.dc c hc).armed hfailed hheld

/-- A TLS record with one byte. -/
def sampleRecord : List UInt8 := [0x17, 3, 3, 0, 1, 0]

/-- In relay mode the engine answers with more than one record holds. -/
def sampleAnswer : List (SessionEvent Unit) :=
  [.write (List.replicate 1400 0), .run .client (sampleOutside 0)]

/-- After that answer the rest of it waits for the timer. -/
theorem held_timer_armed_sampleAnswer :
    ∃ s, run (sessionStep (sampleConfig false)) (sampleSession false true) sampleAnswer = some s ∧
      s.client.failed = false ∧ Held s.client ∧ jobTimerActive s.client := by
  obtain ⟨s, hs, hfailed, hpending⟩ : ∃ s,
      run (sessionStep (sampleConfig false)) (sampleSession false true) sampleAnswer = some s ∧
        s.client.failed = false ∧ s.client.data.drs.delayPending = true := by
    decide +kernel
  have hspares : Along (sessionStep (sampleConfig false)) (SparesTimer (sampleConfig false))
      (sampleSession false true) sampleAnswer := by
    refine ⟨trivial, fun s' hs' => ⟨fun _ hdelay => ?_, fun _ _ => trivial⟩⟩
    cases hs'
    exact absurd hdelay (by decide)
  exact ⟨s, hs, hfailed, .inl hpending,
    held_timer_armed (started_sampleSession false true) hspares hs .client rfl hfailed
      (.inl hpending)⟩

/-- In relay mode the client sends a byte during the delay. -/
def sampleByte : List (SessionEvent Unit) :=
  sampleAnswer ++ [.read .client (some sampleRecord), .push .client, .run .client (sampleOutside 0)]

/-- In direct mode the DC answers with more than one record holds, the client is throttled during
the delay, and its timer fires. -/
def sampleThrottled : List (SessionEvent Unit) :=
  [.read .dc none, .run .dc (sampleOutside 0), .read .dc (some (List.replicate 1400 0)), .push .dc,
    .run .dc (sampleOutside 0), .run .client (sampleOutside 0),
    .read .client (some sampleRecord), .push .client, .run .client (sampleOutside 1),
    .alarm .client 2 (sampleOutside 0)]

/-- **A hold can lose its timer**, in relay mode as in direct mode: the delay is pending and no
alarm will end it. -/
theorem held_timer_lost :
    (Started (sampleConfig false) (sampleSession false true) ∧
      ∃ s, run (sessionStep (sampleConfig false)) (sampleSession false true) sampleByte = some s ∧
        s.client.failed = false ∧ Held s.client ∧ ¬jobTimerActive s.client) ∧
    (Started (sampleConfig true) (sampleSession true true) ∧
      ∃ s, run (sessionStep (sampleConfig true)) (sampleSession true true) sampleThrottled = some s ∧
        s.client.failed = false ∧ Held s.client ∧ ¬jobTimerActive s.client) := by
  have hlost : ∀ {r : Option (Session Unit)},
      (r.any fun s => !s.client.failed && s.client.data.drs.delayPending &&
        decide (s.client.data.realWakeupTime = 0)) = true →
      ∃ s, r = some s ∧ s.client.failed = false ∧ Held s.client ∧ ¬jobTimerActive s.client := by
    intro r h
    obtain ⟨s, hs, h⟩ := (any_eq_true _ _).1 h
    simp only [and_eq_true, not_eq_true', decide_eq_true_eq] at h
    exact ⟨s, hs, h.1.1, .inl h.1.2, by simp [jobTimerActive, h.2]⟩
  exact ⟨⟨started_sampleSession _ _, hlost (by decide +kernel)⟩,
    ⟨started_sampleSession _ _, hlost (by decide +kernel)⟩⟩

end Mtbolt.Direct
