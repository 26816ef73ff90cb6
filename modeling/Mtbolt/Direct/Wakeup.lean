import Mtbolt.Direct.Handlers
import Mtbolt.Direct.Session

/-!
# What was received is delivered

A connection in direct mode that is neither failed nor throttled, and for which no run is pending,
has relayed everything it received.  That holds in every run of a session in which a throttled
connection has nothing in its buffer when the timer lifts `C_STOPREAD`, or is about to run anyway:
`rate_limit_resume` signals the socket only, and a run under `C_STOPREAD` moves what was queued into
the buffer and leaves it there.
-/

namespace Mtbolt.Direct

open EventRun Net Option

variable {κ : Type}

/-! ### The parsers of direct mode -/

/-- A connection in direct mode can relay its input: the header has been sent to the DC. -/
def relays (peer : Option Peer) (c : Conn κ) : Bool :=
  if c.data.type = .directDc then c.crypto.isSome else peer.any fun p => p.crypto

/-- The phases of a DC connection: it is connected, its callback runs, and only then a SOCKS5
handshake may go on, which ends when the cipher is installed. -/
structure DcPhase (d : Conn κ) : Prop where
  socks5 : d.crypto.isSome = true → d.data.socks5 = .none
  connected : d.data.readyPending = true → d.data.connected = true
  fresh : d.data.connected = false ∨ d.data.readyPending = true →
    d.crypto = none ∧ d.data.socks5 = .none

/-- A connection in direct mode, with the state that its handlers expect. -/
structure DirectConn (c : Conn κ) : Prop where
  direct : c.data.type.isDirect = true
  client : c.data.type ≠ .directDc → c.data.connected = true ∧ c.data.readyPending = false
  dc : c.data.type = .directDc → DcPhase c

/-- What the reader of direct mode keeps.  The cipher of a DC connection is installed together with a
request to wake the client. -/
structure DirectKeeps (c c' : Conn κ) : Prop where
  type : c'.data.type = c.data.type
  isTls : c'.data.isTls = c.data.isTls
  jsRun : c'.data.jsRun = c.data.jsRun
  connected : c'.data.connected = c.data.connected
  readyPending : c'.data.readyPending = c.data.readyPending
  crypto : c.crypto.isSome = true → c'.crypto.isSome = true
  init : c'.crypto.isSome = true → c.crypto.isSome = true ∨ c'.data.obfs2Init = true
  obfs2Init : c.data.obfs2Init = true → c'.data.obfs2Init = true

/-- What its parsers keep. -/
structure DirectStep (c c' : Conn κ) : Prop extends DirectKeeps c c' where
  inQueue : c'.inQueue = c.inQueue
  inU : c'.inU = c.inU
  skipBytes : c'.skipBytes = c.skipBytes

variable {c c' d d' : Conn κ} {peer peer' : Option Peer} {s : Session κ} {cfg : DirectConfig κ}

theorem DirectKeeps.trans {a b : Conn κ} (hab : DirectKeeps a b) (hbc : DirectKeeps b c) :
    DirectKeeps a c where
  type := hbc.type.trans hab.type
  isTls := hbc.isTls.trans hab.isTls
  jsRun := hbc.jsRun.trans hab.jsRun
  connected := hbc.connected.trans hab.connected
  readyPending := hbc.readyPending.trans hab.readyPending
  crypto := fun h => hbc.crypto (hab.crypto h)
  init := fun h => (hbc.init h).elim (fun hb => (hab.init hb).imp_right hbc.obfs2Init) .inr
  obfs2Init := fun h => hbc.obfs2Init (hab.obfs2Init h)

theorem Buffered.directKeeps (h : Buffered c c') : DirectKeeps c c' := by
  obtain ⟨-, -, hcrypto, left, hdata⟩ := h
  refine ⟨?_, ?_, ?_, ?_, ?_, fun h => hcrypto.trans h, fun h => .inl (hcrypto.symm.trans h), ?_⟩
  all_goals simp [hdata]

theorem DirectStep.of_eq (hcrypto : c'.crypto = c.crypto)
    (hinit : c'.data.obfs2Init = c.data.obfs2Init) (htype : c'.data.type = c.data.type)
    (htls : c'.data.isTls = c.data.isTls) (hrun : c'.data.jsRun = c.data.jsRun)
    (hconn : c'.data.connected = c.data.connected)
    (hready : c'.data.readyPending = c.data.readyPending) (hqueue : c'.inQueue = c.inQueue)
    (hinU : c'.inU = c.inU) (hskip : c'.skipBytes = c.skipBytes) : DirectStep c c' :=
  ⟨⟨htype, htls, hrun, hconn, hready, fun h => hcrypto ▸ h, fun h => .inl (hcrypto ▸ h),
    fun h => hinit ▸ h⟩, hqueue, hinU, hskip⟩

theorem DirectStep.refl (c : Conn κ) : DirectStep c c :=
  .of_eq rfl rfl rfl rfl rfl rfl rfl rfl rfl rfl

variable (cfg)

theorem directStep_relayCounted (o : Outside κ) (peer : Option Peer) (sid : ℕ) (c : Conn κ) :
    DirectStep c (relayCounted cfg o peer sid c) := by
  obtain ⟨inn, failed, stopRead, time, io, relayed, heq, -⟩ := relayCounted_eq cfg o peer sid c
  rw [heq]
  exact .of_eq rfl rfl rfl rfl rfl rfl rfl rfl rfl rfl

variable (o : Outside κ) (chunk : Option (List UInt8))

theorem failed_or_inn_relayCounted (peer : Option Peer) (sid : ℕ) (c : Conn κ) :
    (relayCounted cfg o peer sid c).failed = true ∨ (relayCounted cfg o peer sid c).inn = [] := by
  obtain ⟨inn, failed, stopRead, time, io, relayed, heq, hinn, -⟩ := relayCounted_eq cfg o peer sid c
  rw [heq]
  exact hinn

/-- The outcomes of a parser in direct mode: it uses up input or fails the connection, or it asks for
more bytes because it cannot relay yet. -/
structure DirectParsed (peer : Option Peer) (c : Conn κ) (r : Conn κ × ℤ) : Prop where
  step : DirectStep c r.1
  conn : DirectConn r.1
  outcome : (r.2 = 0 ∧ (r.1.failed = true ∨ r.1.inn.length < c.inn.length)) ∨
    (r.2 = needMoreBytes ∧ relays peer r.1 = false)

theorem DirectStep.of_client (h : DirectStep c c') (hc : DirectConn c)
    (hclient : c.data.type ≠ .directDc) : DirectConn c' where
  direct := h.type ▸ hc.direct
  client := fun _ =>
    ⟨h.connected.trans (hc.client hclient).1, h.readyPending.trans (hc.client hclient).2⟩
  dc := fun hdc => absurd (h.type ▸ hdc) hclient

theorem directParsed_client (peer : Option Peer) (hc : DirectConn c)
    (hclient : c.data.type ≠ .directDc) (hinn : c.inn ≠ []) :
    DirectParsed peer c (tcpDirectClientParseExecute cfg o peer c) := by
  have hpos : 0 < c.inn.length := List.length_pos_of_ne_nil hinn
  have hfail : DirectStep c (failConnection c) := .of_eq rfl rfl rfl rfl rfl rfl rfl rfl rfl rfl
  have habort : DirectStep c (abortConnection c) := .of_eq rfl rfl rfl rfl rfl rfl rfl rfl rfl rfl
  unfold tcpDirectClientParseExecute
  cases peer with
  | none =>
    split_ifs
    · exact ⟨habort, habort.of_client hc hclient, .inl ⟨rfl, .inl rfl⟩⟩
    · exact ⟨.refl c, hc, .inr ⟨rfl, by rw [relays, if_neg hclient]; rfl⟩⟩
    · exact ⟨hfail, hfail.of_client hc hclient, .inl ⟨rfl, .inl rfl⟩⟩
  | some dc =>
    dsimp only
    split_ifs with hcrypto
    · have hstep := directStep_relayCounted cfg o (some dc) c.data.sid c
      refine ⟨hstep, hstep.of_client hc hclient, .inl ⟨rfl, ?_⟩⟩
      refine (failed_or_inn_relayCounted cfg o (some dc) c.data.sid c).imp_right fun h => ?_
      rw [h]
      exact hpos
    · exact ⟨.refl c, hc, .inr ⟨rfl, by rw [relays, if_neg hclient]; simpa using hcrypto⟩⟩

theorem DirectStep.of_dc (h : DirectStep d d') (hd : DirectConn d) (hdc : d.data.type = .directDc)
    (hsocks : d'.crypto.isSome = true → d'.data.socks5 = .none)
    (hfresh : d.data.connected = false ∨ d.data.readyPending = true → d'.crypto = d.crypto ∧
      d'.data.socks5 = d.data.socks5) :
    DirectConn d' where
  direct := h.type ▸ hd.direct
  client := fun hclient => absurd (h.type.trans hdc) hclient
  dc := by
    have hphase := hd.dc hdc
    refine fun _ => ⟨hsocks, ?_, ?_⟩
    · rw [h.readyPending, h.connected]
      exact hphase.connected
    · rw [h.readyPending, h.connected]
      intro hf
      rw [(hfresh hf).1, (hfresh hf).2]
      exact hphase.fresh hf

theorem directParsed_dc (peer : Option Peer) (hd : DirectConn d) (hdc : d.data.type = .directDc)
    (hinn : d.inn ≠ []) : DirectParsed peer d (tcpDirectDcParseExecute cfg o peer d) := by
  have hpos : 0 < d.inn.length := List.length_pos_of_ne_nil hinn
  have hphase := hd.dc hdc
  unfold tcpDirectDcParseExecute
  by_cases hsocks : d.data.socks5 = .none
  · rw [if_neg (not_not.2 hsocks)]
    cases peer with
    | none =>
      have hstep : DirectStep d (tcpDirectRelay none d) :=
        .of_eq rfl rfl rfl rfl rfl rfl rfl rfl rfl rfl
      exact ⟨hstep, hstep.of_dc hd hdc (fun _ => hsocks) fun _ => ⟨rfl, rfl⟩, .inl ⟨rfl, .inl rfl⟩⟩
    | some client =>
      have hstep := directStep_relayCounted cfg o (some client) client.sid d
      have hempty := failed_or_inn_relayCounted cfg o (some client) client.sid d
      have hsame : (relayCounted cfg o (some client) client.sid d).data.socks5 = d.data.socks5 := by
        obtain ⟨inn, failed, stopRead, time, io, relayed, heq, -⟩ :=
          relayCounted_eq cfg o (some client) client.sid d
        rw [heq]
      refine ⟨hstep, hstep.of_dc hd hdc (fun _ => hsame.trans hsocks) fun _ => ?_, .inl ⟨rfl, ?_⟩⟩
      · exact ⟨crypto_relayCounted cfg o (some client) client.sid d, hsame⟩
      · exact hempty.imp_right fun h => by rw [h]; exact hpos
  · -- the handshake goes on, so the cipher is not installed yet
    have hclear : d.crypto = none := by
      by_contra h
      exact hsocks (hphase.socks5 (isSome_iff_ne_none.2 h))
    have hold : ¬(d.data.connected = false ∨ d.data.readyPending = true) := fun hf =>
      hsocks (hphase.fresh hf).2
    have hspec := socks5HandleResponse_spec cfg.socks5 hsocks d.inn
    rw [if_pos hsocks]
    dsimp only
    generalize socks5HandleResponse cfg.socks5 d.data.socks5 d.inn = r at hspec ⊢
    cases hresult : r.result with
    | more =>
      have hstep : DirectStep d (applySocks5 r d) := .of_eq rfl rfl rfl rfl rfl rfl rfl rfl rfl rfl
      refine ⟨hstep, hstep.of_dc hd hdc (fun h => ?_) fun h => absurd h hold, .inr ⟨rfl, ?_⟩⟩
      · simp [applySocks5, hclear] at h
      · simp [relays, applySocks5, hdc, hclear]
    | error =>
      have hstep : DirectStep d (failConnection (applySocks5 r d)) :=
        .of_eq rfl rfl rfl rfl rfl rfl rfl rfl rfl rfl
      refine ⟨hstep, hstep.of_dc hd hdc (fun h => ?_) fun h => absurd h hold, .inl ⟨rfl, .inl rfl⟩⟩
      simp [applySocks5, failConnection, hclear] at h
    | complete =>
      have hstep : DirectStep d (tcpDirectDcSendObfs2Init o (applySocks5 r d)) :=
        ⟨⟨rfl, rfl, rfl, rfl, rfl, fun _ => rfl, fun _ => .inr rfl, fun _ => rfl⟩, rfl, rfl, rfl⟩
      obtain ⟨-, hstate, hlt⟩ := hspec.resolve_left fun h => h.1 hresult
      exact ⟨hstep, hstep.of_dc hd hdc (fun _ => hstate) fun h => absurd h hold,
        .inl ⟨rfl, .inr hlt⟩⟩

theorem directParsed_parseExecute (peer : Option Peer) (hc : DirectConn c) (hinn : c.inn ≠ []) :
    DirectParsed peer c (parseExecute cfg o peer c) := by
  have hdirect := hc.direct
  unfold parseExecute
  cases htype : c.data.type with
  | rpcExtServer => simp [htype, ConnType.isDirect] at hdirect
  | rpcExtServerDrs => simp [htype, ConnType.isDirect] at hdirect
  | directClient => exact directParsed_client cfg o peer hc (by simp [htype]) hinn
  | directClientDrs => exact directParsed_client cfg o peer hc (by simp [htype]) hinn
  | directDc => exact directParsed_dc cfg o peer hc htype hinn

/-! ### The reader -/

theorem Buffered.directConn (h : Buffered c c') (hc : DirectConn c) : DirectConn c' := by
  obtain ⟨-, -, hcrypto, left, hdata⟩ := h
  have hnone : c.crypto = none → c'.crypto = none := fun hn => by
    rw [hn] at hcrypto
    exact not_isSome_iff_eq_none.1 (by simp [hcrypto])
  refine ⟨by simpa [hdata] using hc.direct, by simpa [hdata] using hc.client, fun hdc => ?_⟩
  have hphase := hc.dc (by simpa [hdata] using hdc)
  refine ⟨fun h => ?_, by simpa [hdata] using hphase.connected, fun h => ?_⟩
  · simpa [hdata] using hphase.socks5 (hcrypto ▸ h)
  · have hfresh := hphase.fresh (by simpa [hdata] using h)
    exact ⟨hnone hfresh.1, by simpa [hdata] using hfresh.2⟩

theorem inn_ne_nil_of_not_blocked (h : c.blocked = false) : c.inn ≠ [] := by
  intro hinn
  simp [ConnInfo.blocked, hinn] at h

theorem directKeeps_reader (peer : Option Peer) (hc : DirectConn c) :
    DirectKeeps c (reader (connFuncs cfg o peer) c) ∧
      DirectConn (reader (connFuncs cfg o peer) c) := by
  refine reader_rel (R := fun a b => DirectConn a → DirectKeeps a b ∧ DirectConn b) ?_ ?_ cfg o peer
    (fun x _ hopen hx => ?_) hc
  · intro a b c hab hbc ha
    have hb := hab ha
    have hc := hbc hb.2
    exact ⟨hb.1.trans hc.1, hc.2⟩
  · exact fun a b h ha => ⟨h.directKeeps, h.directConn ha⟩
  · have hparsed := directParsed_parseExecute cfg o peer hx (inn_ne_nil_of_not_blocked hopen)
    exact ⟨hparsed.step.toDirectKeeps, hparsed.conn⟩

/-- Everything received has come into the input buffer, but for the first bytes of a record
header. -/
structure Fetched (c : Conn κ) : Prop where
  inQueue : c.inQueue = []
  inU : c.inU = [] ∨ c.data.isTls = true ∧ c.inU.length < 5

/-- What a run of the reader leaves. -/
structure InputRead (peer : Option Peer) (c : Conn κ) : Prop where
  skipBytes : c.skipBytes = 0
  clear : c.crypto = none → c.inU = []
  fetched : c.failed = false → Fetched c
  relayed : relays peer c = true → c.failed = false → c.stopRead = false → c.inn = []

/-- What the passes of the reader find. -/
structure PassInput (c : Conn κ) : Prop extends DirectConn c where
  skipBytes : c.skipBytes = 0
  clear : c.crypto = none → c.inU = []
  fetched : c.failed = false → Fetched c

theorem DirectStep.passInput (h : DirectStep c c') (hc : PassInput c) (hconn : DirectConn c')
    (hfailed : c.failed = false) : PassInput c' := by
  have hfetched := hc.fetched hfailed
  refine ⟨hconn, h.skipBytes.trans hc.skipBytes, fun hnone => ?_, fun _ => ⟨?_, ?_⟩⟩
  · refine h.inU.trans (hc.clear ?_)
    by_contra hsome
    simpa [hnone] using h.crypto (isSome_iff_ne_none.2 hsome)
  · exact h.inQueue.trans hfetched.inQueue
  · rw [h.inU, h.isTls]
    exact hfetched.inU

theorem inputRead_readerLoop (peer : Option Peer) (hc : PassInput c) :
    InputRead peer (readerLoop (connFuncs cfg o peer) (c.inU.length + c.inn.length + 1) c) := by
  have hopen : ∀ x : Conn κ, x.blocked = false → x.failed = false := fun x h => by
    simp only [ConnInfo.blocked, Bool.or_eq_false_iff] at h
    exact h.1.1.2
  have hparsed := fun (x : Conn κ) (hx : PassInput x) (h : x.blocked = false) =>
    directParsed_parseExecute cfg o peer hx.toDirectConn (inn_ne_nil_of_not_blocked h)
  refine readerLoop_post (I := PassInput) (μ := fun x => if x.failed then 0 else x.inn.length)
    ?_ ?_ ?_ ?_ hc ?_
  · intro x hx hblocked
    refine { hx with relayed := fun _ hfailed hstop => ?_ }
    simpa [ConnInfo.blocked, hx.skipBytes, hfailed, hstop] using hblocked
  · intro x hx hb hzero
    have hp := hparsed x hx hb
    refine ⟨hp.step.passInput hx hp.conn (hopen x hb), ?_⟩
    rcases hp.outcome with ⟨-, hused⟩ | ⟨hmore, -⟩
    · have hpos := List.length_pos_of_ne_nil (inn_ne_nil_of_not_blocked hb)
      rw [hopen x hb, if_neg Bool.false_ne_true]
      show (if (parseExecute cfg o peer x).1.failed then 0 else _) < _
      rcases hused with hfailed | hlt
      · rw [if_pos hfailed]
        exact hpos
      · split_ifs
        · exact hpos
        · exact hlt
    · exact absurd (hzero.symm.trans hmore) (by decide)
  · intro x hx hb hmore
    have hp := hparsed x hx hb
    have hpass := hp.step.passInput hx hp.conn (hopen x hb)
    rcases hp.outcome with ⟨hzero, -⟩ | ⟨-, hrelays⟩
    · exact absurd (hzero.symm.trans hmore) (by decide)
    · refine { hpass with relayed := fun h => ?_ }
      exact absurd (hrelays.symm.trans h) Bool.false_ne_true
  · intro x hx hb hzero hmore
    rcases (hparsed x hx hb).outcome with ⟨h, -⟩ | ⟨h, -⟩
    · exact absurd h hzero
    · exact absurd h hmore
  · split_ifs <;> omega

theorem passInput_popAll (hc : DirectConn c) (hskip : c.skipBytes = 0)
    (hclear : c.crypto = none → c.inU = []) (hcrypto : c.crypto = none) : PassInput c.popAll := by
  refine ⟨(buffered_popAll c).directConn hc, ?_, ?_, fun _ => ⟨?_, .inl ?_⟩⟩
  all_goals simp [ConnInfo.popAll, hcrypto, hskip, hclear hcrypto]

theorem passInput_cryptoDecryptInput (hc : DirectConn c) (hskip : c.skipBytes = 0) {T : AesCrypto κ}
    (hcrypto : c.crypto = some T) (hqueue : c.inQueue = []) :
    0 ≤ (cryptoDecryptInput cfg c).2 ∧ PassInput (cryptoDecryptInput cfg c).1 := by
  have hconn := (buffered_cryptoDecryptInput cfg c).directConn hc
  revert hconn
  unfold cryptoDecryptInput
  rw [hcrypto]
  intro hconn
  obtain ⟨hres, hleft⟩ := decrypted_ctr128DecryptInput cfg.crypt c.data.isTls
    ⟨c.inU, c.inn, T.readAeskey, c.data.leftTlsPacketLength⟩
  refine ⟨hres, hconn, hskip, nofun, fun hfailed => ⟨hqueue, ?_⟩⟩
  exact hleft.resolve_left fun h => by simp [h] at hfailed

theorem passInput_fetchInput (peer : Option Peer) (hc : DirectConn c) (hskip : c.skipBytes = 0)
    (hclear : c.crypto = none → c.inU = []) :
    0 ≤ (fetchInput (connFuncs cfg o peer) c).2 ∧
      PassInput (fetchInput (connFuncs cfg o peer) c).1 := by
  unfold fetchInput
  cases hcrypto : c.crypto with
  | none =>
    have hpop : c.popAll.crypto = none := by simp [ConnInfo.popAll, hcrypto]
    rw [hpop]
    exact ⟨le_rfl, passInput_popAll hc hskip hclear hcrypto⟩
  | some T =>
    have hpop : c.popAll.crypto = some T := by simp [ConnInfo.popAll, hcrypto]
    rw [hpop]
    refine passInput_cryptoDecryptInput cfg ((buffered_popAll c).directConn hc) ?_ hpop ?_
    all_goals simp [ConnInfo.popAll, hcrypto, hskip]

/-- **The reader in direct mode** fetches everything that was received and relays it, unless the
connection fails or is throttled, or cannot relay yet. -/
theorem inputRead_reader (peer : Option Peer) (hc : DirectConn c) (hskip : c.skipBytes = 0)
    (hclear : c.crypto = none → c.inU = []) : InputRead peer (reader (connFuncs cfg o peer) c) := by
  obtain ⟨hres, hpass⟩ := passInput_fetchInput cfg o peer hc hskip hclear
  rw [reader_eq]
  rw [if_neg (not_lt.2 hres)]
  generalize (fetchInput (connFuncs cfg o peer) c).1 = x at hpass
  split_ifs with hheld
  · refine { hpass with relayed := fun _ hfailed hstop => ?_ }
    simp [hfailed, hstop] at hheld
  · have hsame : x.applySkip = x := by simp [ConnInfo.applySkip, hpass.skipBytes]
    rw [hsame]
    exact inputRead_readerLoop cfg o peer hpass

/-! ### The handlers -/

/-- A connection in direct mode between two handlers: if it has neither failed nor a run pending,
everything received is in the input buffer, and also relayed unless it is throttled. -/
structure InputOk (peer : Option Peer) (c : Conn κ) : Prop extends DirectConn c where
  skipBytes : c.skipBytes = 0
  clear : c.crypto = none → c.inU = []
  fetched : relays peer c = true → c.failed = false → c.data.jsRun = false → Fetched c
  relayed : relays peer c = true → c.failed = false → c.data.jsRun = false → c.stopRead = false →
    c.inn = []

theorem InputRead.inputOk (h : InputRead peer c) (hc : DirectConn c) : InputOk peer c :=
  ⟨hc, h.skipBytes, h.clear, fun _ hfailed _ => h.fetched hfailed,
    fun hrelays hfailed _ => h.relayed hrelays hfailed⟩

/-- `c'` has the input of `c`; it may have failed or got a signal since. -/
structure SameInput (c c' : Conn κ) : Prop where
  type : c'.data.type = c.data.type
  isTls : c'.data.isTls = c.data.isTls
  connected : c'.data.connected = c.data.connected
  readyPending : c'.data.readyPending = c.data.readyPending
  socks5 : c'.data.socks5 = c.data.socks5
  crypto : c'.crypto.isSome = c.crypto.isSome
  inQueue : c'.inQueue = c.inQueue
  inU : c'.inU = c.inU
  inn : c'.inn = c.inn
  skipBytes : c'.skipBytes = c.skipBytes
  stopRead : c'.stopRead = c.stopRead
  failed : c'.failed = false → c.failed = false
  jsRun : c'.data.jsRun = false → c.data.jsRun = false

theorem SameInput.crypto_eq_none (h : SameInput c c') : c'.crypto = none ↔ c.crypto = none := by
  rw [← not_isSome_iff_eq_none, h.crypto, not_isSome_iff_eq_none]

theorem SameInput.relays (h : SameInput c c') (peer : Option Peer) :
    relays peer c' = relays peer c := by
  rw [Direct.relays, Direct.relays, h.type, h.crypto]

theorem SameInput.directConn (h : SameInput c c') (hc : DirectConn c) : DirectConn c' := by
  refine ⟨h.type ▸ hc.direct, ?_, ?_⟩
  · rw [h.type, h.connected, h.readyPending]
    exact hc.client
  · rw [h.type]
    intro hdc
    have hphase := hc.dc hdc
    refine ⟨?_, ?_, ?_⟩
    · rw [h.crypto, h.socks5]
      exact hphase.socks5
    · rw [h.readyPending, h.connected]
      exact hphase.connected
    · rw [h.connected, h.readyPending, h.crypto_eq_none, h.socks5]
      exact hphase.fresh

theorem SameInput.inputOk (h : SameInput c c') (hc : InputOk peer c) : InputOk peer c' := by
  refine ⟨h.directConn hc.toDirectConn, h.skipBytes.trans hc.skipBytes, ?_, ?_, ?_⟩
  · rw [h.crypto_eq_none, h.inU]
    exact hc.clear
  · rw [h.relays]
    intro hrelays hfailed hrun
    have hfetched := hc.fetched hrelays (h.failed hfailed) (h.jsRun hrun)
    refine ⟨h.inQueue.trans hfetched.inQueue, ?_⟩
    rw [h.inU, h.isTls]
    exact hfetched.inU
  · rw [h.relays, h.stopRead, h.inn]
    exact fun hrelays hfailed hrun => hc.relayed hrelays (h.failed hfailed) (h.jsRun hrun)

theorem sameInput_writer (c : Conn κ) : SameInput c (writer cfg o c) := by
  obtain ⟨crypto, out, outP, drs, time, ioOut, ioRun, heq, hcrypto⟩ := writer_eq cfg o c
  rw [heq]
  exact ⟨rfl, rfl, rfl, rfl, rfl, hcrypto, rfl, rfl, rfl, rfl, rfl, id, id⟩

theorem directKeeps_writer (c : Conn κ) : DirectKeeps c (writer cfg o c) := by
  obtain ⟨crypto, out, outP, drs, time, ioOut, ioRun, heq, hcrypto⟩ := writer_eq cfg o c
  rw [heq]
  exact ⟨rfl, rfl, rfl, rfl, rfl, fun h => hcrypto.trans h, fun h => .inl (hcrypto.symm.trans h), id⟩

theorem inputOk_readWrite (peer : Option Peer) (hc : DirectConn c) (hskip : c.skipBytes = 0)
    (hclear : c.crypto = none → c.inU = []) :
    DirectKeeps c (readWrite cfg o peer c) ∧ InputOk peer (readWrite cfg o peer c) := by
  obtain ⟨hkeeps, hconn⟩ := directKeeps_reader cfg o peer hc
  have hread := (inputRead_reader cfg o peer hc hskip hclear).inputOk hconn
  exact ⟨hkeeps.trans (directKeeps_writer cfg o _), (sameInput_writer cfg o _).inputOk hread⟩

theorem directConn_takeRun (hc : DirectConn c) : DirectConn (takeRun c) :=
  ⟨hc.direct, hc.client, fun h => ⟨(hc.dc h).socks5, (hc.dc h).connected, (hc.dc h).fresh⟩⟩

theorem directConn_runConnected (hc : DirectConn c) : DirectConn (runConnected cfg o c) := by
  unfold runConnected tcpDirectDcConnected
  by_cases hready : c.data.readyPending = true
  · have hdc : c.data.type = .directDc := by
      by_contra h
      exact absurd ((hc.client h).2.symm.trans hready) nofun
    have hconn := (hc.dc hdc).connected hready
    obtain ⟨hnone, hsocks⟩ := (hc.dc hdc).fresh (.inr hready)
    have hfresh : ∀ {p : Prop}, (c.data.connected = false ∨ false = true) → p := fun h =>
      absurd h (by simp [hconn])
    split_ifs
    · refine ⟨hc.direct, fun h => absurd hdc h, fun _ => ⟨fun h => ?_, nofun, hfresh⟩⟩
      exact absurd h (by simp [hnone])
    · exact ⟨hc.direct, fun h => absurd hdc h, fun _ => ⟨fun _ => hsocks, nofun, hfresh⟩⟩
  · rw [if_neg hready]
    exact hc

/-- What a handler keeps for the other connection: the cipher is not taken away, and it is installed
together with a request to wake the client. -/
structure Handled (c c' : Conn κ) : Prop where
  type : c'.data.type = c.data.type
  crypto : c.crypto.isSome = true → c'.crypto.isSome = true
  init : c'.crypto.isSome = true → c.crypto.isSome = true ∨ c'.data.obfs2Init = true

theorem handled_of_eq (htype : c'.data.type = c.data.type) (hcrypto : c'.crypto = c.crypto) :
    Handled c c' :=
  ⟨htype, fun h => hcrypto ▸ h, fun h => .inl (hcrypto ▸ h)⟩

theorem handled_connRun (peer : Option Peer) (hc : DirectConn c) :
    Handled c (connRun cfg o peer c) := by
  have hconn := directConn_runConnected cfg o (directConn_takeRun hc)
  have htype := type_runConnected cfg o (takeRun c)
  have hcipher : (c.crypto.isSome = true → (runConnected cfg o (takeRun c)).crypto.isSome = true) ∧
      ((runConnected cfg o (takeRun c)).crypto.isSome = true → c.crypto.isSome = true ∨
        (runConnected cfg o (takeRun c)).data.obfs2Init = true) := by
    unfold runConnected tcpDirectDcConnected
    split_ifs
    · exact ⟨id, .inl⟩
    · exact ⟨fun _ => rfl, fun _ => .inr rfl⟩
    · exact ⟨id, .inl⟩
  unfold connRun
  split_ifs
  · exact handled_of_eq rfl rfl
  · have hkeeps := (directKeeps_reader cfg o peer hconn).1.trans (directKeeps_writer cfg o _)
    refine ⟨hkeeps.type.trans htype, fun h => hkeeps.crypto (hcipher.1 h), fun h => ?_⟩
    exact (hkeeps.init h).elim (fun h' => (hcipher.2 h').imp_right hkeeps.obfs2Init) .inr

theorem inputOk_connRun (hc : InputOk peer c) : InputOk peer (connRun cfg o peer c) := by
  have htaken := directConn_takeRun hc.toDirectConn
  have hconn := directConn_runConnected cfg o htaken
  have hinput : (runConnected cfg o (takeRun c)).skipBytes = 0 ∧
      ((runConnected cfg o (takeRun c)).crypto = none →
        (runConnected cfg o (takeRun c)).inU = []) := by
    unfold runConnected tcpDirectDcConnected
    split_ifs
    · exact ⟨hc.skipBytes, hc.clear⟩
    · exact ⟨hc.skipBytes, nofun⟩
    · exact ⟨hc.skipBytes, hc.clear⟩
  unfold connRun
  split_ifs with hfailed
  · have hgone : ∀ {p : Prop}, c.failed = false → p := fun h => absurd (h.symm.trans hfailed) nofun
    exact ⟨htaken, hc.skipBytes, hc.clear, fun _ h => hgone h, fun _ h => hgone h⟩
  · exact (inputOk_readWrite cfg o peer hconn hinput.1 hinput.2).2

theorem inputOk_rateLimitResume (hc : InputOk peer c) (hinn : c.inn = [] ∨ c.data.jsRun = true) :
    InputOk peer (rateLimitResume c).1 := by
  unfold rateLimitResume
  split_ifs
  · refine ⟨⟨hc.direct, hc.client, fun h => ?_⟩, hc.skipBytes, hc.clear, fun hr hf hrun => ?_,
      fun hr hf hrun _ => ?_⟩
    · exact ⟨(hc.dc h).socks5, (hc.dc h).connected, (hc.dc h).fresh⟩
    · exact ⟨(hc.fetched hr hf hrun).inQueue, (hc.fetched hr hf hrun).inU⟩
    · exact hinn.resolve_right fun h => absurd (hrun.symm.trans h) nofun
  · exact hc

variable {wakeupTime : ℚ}

/-- An alarm that lifts `C_STOPREAD` keeps the input in order when none of it is buffered, or the
connection will run. -/
theorem inputOk_connAlarm (hc : InputOk peer c)
    (hinn : jobTimerCheck wakeupTime c = true → c.stopRead = true → c.inn = [] ∨ c.data.jsRun = true) :
    Handled c (connAlarm cfg wakeupTime o peer c).1 ∧
      InputOk peer (connAlarm cfg wakeupTime o peer c).1 := by
  have hsame : SameInput c (jobTimerRemove c) :=
    ⟨rfl, rfl, rfl, rfl, rfl, rfl, rfl, rfl, rfl, rfl, rfl, id, id⟩
  have hremoved := hsame.inputOk hc
  refine connAlarm_rule cfg wakeupTime (P := fun x => Handled c x ∧ InputOk peer x)
    ⟨handled_of_eq rfl rfl, hc⟩ ⟨handled_of_eq rfl rfl, hremoved⟩ (fun hcheck hstop => ?_)
    fun _ _ => ?_
  · refine ⟨handled_of_eq (type_rateLimitResume _) ?_,
      inputOk_rateLimitResume hremoved (hinn hcheck hstop)⟩
    rw [rateLimitResume, if_pos hstop]
    rfl
  · have hend : SameInput (jobTimerRemove c) (endDelay (jobTimerRemove c)) :=
      ⟨rfl, rfl, rfl, rfl, rfl, rfl, rfl, rfl, rfl, rfl, rfl, id, id⟩
    have hended := hend.inputOk hremoved
    obtain ⟨hkeeps, hok⟩ :=
      inputOk_readWrite cfg o peer hended.toDirectConn hended.skipBytes hended.clear
    exact ⟨⟨hkeeps.type, hkeeps.crypto, hkeeps.init⟩, hok⟩

/-! ### The invariant -/

variable {cfg}

/-- Both connections of a session in direct mode have their input in order. -/
structure WakeupInv (s : Session κ) : Prop where
  notDc : s.client.data.type ≠ .directDc
  client : s.client.data.type.isDirect = true → InputOk s.dcPeer s.client
  relay : s.client.data.type.isDirect = false → s.dc = none
  dcType : ∀ d, s.dc = some d → d.data.type = .directDc
  dc : ∀ d, s.dc = some d → InputOk s.clientPeer d

/-- When the timer lifts `C_STOPREAD` of a connection, its input buffer is empty or a run of it is
pending. -/
def ResumesDrained (s : Session κ) : SessionEvent κ → Prop
  | .alarm side wakeupTime _ => ∀ c ∈ s.conn side,
      jobTimerCheck wakeupTime c = true → c.stopRead = true → c.inn = [] ∨ c.data.jsRun = true
  | _ => True

instance (s : Session κ) (e : SessionEvent κ) : Decidable (ResumesDrained s e) := by
  unfold ResumesDrained
  split <;> infer_instance

theorem InputOk.of_relays (hc : InputOk peer c) (h : relays peer' c = true → relays peer c = true) :
    InputOk peer' c :=
  { hc with fetched := fun hr => hc.fetched (h hr), relayed := fun hr => hc.relayed (h hr) }

theorem relays_of_dc (hd : d.data.type = .directDc) (peer : Option Peer) :
    relays peer d = d.crypto.isSome := if_pos hd

theorem relays_of_client (hc : c.data.type ≠ .directDc) (peer : Option Peer) :
    relays peer c = peer.any fun p => p.crypto := if_neg hc

theorem relays_dcPeer (hc : c.data.type ≠ .directDc) : relays s.dcPeer c = s.ready := by
  rw [relays_of_client hc, Session.dcPeer, Session.ready]
  cases s.dc <;> rfl

theorem InputOk.of_dc (h : InputOk peer d) (hd : d.data.type = .directDc) : InputOk peer' d :=
  h.of_relays (by rw [relays_of_dc hd, relays_of_dc hd]; exact id)

theorem sameInput_receiveRelayed (raws : List (List UInt8)) (c : Conn κ) :
    SameInput c (receiveRelayed raws c) :=
  ⟨rfl, rfl, rfl, rfl, rfl, rfl, rfl, rfl, rfl, rfl, rfl, id, fun h => (Bool.or_eq_false_iff.1 h).1⟩

variable (c)

theorem sameInput_clearOutbox : SameInput c (clearOutbox c) :=
  ⟨rfl, rfl, rfl, rfl, rfl, rfl, rfl, rfl, rfl, rfl, rfl, id, id⟩

theorem sameInput_failConnection : SameInput c (failConnection c) :=
  ⟨rfl, rfl, rfl, rfl, rfl, rfl, rfl, rfl, rfl, rfl, rfl, nofun, id⟩

theorem sameInput_clearRetry : SameInput c (clearRetry c) :=
  ⟨rfl, rfl, rfl, rfl, rfl, rfl, rfl, rfl, rfl, rfl, rfl, id, id⟩

variable {c}

theorem sameInput_directScheduleRetry (attempt : ℕ) (c : Conn κ) :
    SameInput c (directScheduleRetry o attempt c) := by
  unfold directScheduleRetry
  split_ifs
  · exact sameInput_failConnection c
  · exact ⟨rfl, rfl, rfl, rfl, rfl, rfl, rfl, rfl, rfl, rfl, rfl, id, id⟩

/-! ### Steps -/

theorem dcPeer_setClient (s : Session κ) (c : Conn κ) : (s.setClient c).dcPeer = s.dcPeer := by
  unfold Session.dcPeer Session.setClient
  cases s.dc <;> rfl

section

variable (hs : WakeupInv s) (htype : c.data.type = s.client.data.type)
  (hc : c.data.type.isDirect = true → InputOk s.dcPeer c)
include hs htype hc

theorem wakeupInv_setClient : WakeupInv (s.setClient c) where
  notDc := htype ▸ hs.notDc
  client := fun h => dcPeer_setClient s c ▸ (sameInput_clearOutbox c).inputOk (hc h)
  relay := fun h => map_eq_none_iff.2 (hs.relay (htype ▸ h))
  dcType := by
    intro d hd
    obtain ⟨d₀, hd₀, rfl⟩ := map_eq_some_iff.1 hd
    exact hs.dcType d₀ hd₀
  dc := by
    intro d hd
    obtain ⟨d₀, hd₀, rfl⟩ := map_eq_some_iff.1 hd
    exact (sameInput_receiveRelayed _ d₀).inputOk ((hs.dc d₀ hd₀).of_dc (hs.dcType d₀ hd₀))

theorem wakeupInv_replaceClient : WakeupInv { s with client := c } where
  notDc := htype ▸ hs.notDc
  client := hc
  relay := fun h => hs.relay (htype ▸ h)
  dcType := hs.dcType
  dc := fun d hd => (hs.dc d hd).of_dc (hs.dcType d hd)

end

theorem isDirect_of_dc (hs : WakeupInv s) (hd : s.dc = some d) :
    s.client.data.type.isDirect = true := by
  by_contra h
  exact absurd ((hs.relay (by simpa using h)).symm.trans hd) nofun

theorem wakeupInv_replaceDc (hs : WakeupInv s) (hd : s.dc = some d)
    (htype : d'.data.type = d.data.type) (hcrypto : d'.crypto.isSome = d.crypto.isSome)
    (hok : InputOk s.clientPeer d') : WakeupInv { s with dc := some d' } := by
  have hdirect := isDirect_of_dc hs hd
  refine ⟨hs.notDc, fun _ => (hs.client hdirect).of_relays ?_, fun h => ?_, ?_, ?_⟩
  · rw [relays_dcPeer hs.notDc, relays_dcPeer hs.notDc, Session.ready, Session.ready, hd]
    exact fun h => hcrypto.symm.trans h
  · exact absurd (h.symm.trans hdirect) nofun
  · rintro _ ⟨rfl⟩
    exact htype.trans (hs.dcType d hd)
  · rintro _ ⟨rfl⟩
    exact hok

theorem inputOk_flushDeferred (hc : InputOk peer c) : InputOk peer' (flushDeferred c) :=
  ⟨⟨hc.direct, hc.client, fun h => ⟨(hc.dc h).socks5, (hc.dc h).connected, (hc.dc h).fresh⟩⟩, rfl,
    hc.clear, fun _ _ => nofun, fun _ _ => nofun⟩

theorem wakeupInv_setDc (hs : WakeupInv s) (hd : s.dc = some d) (hhandled : Handled d d')
    (hok : InputOk s.clientPeer d') : WakeupInv (s.setDc d') := by
  have hdirect := isDirect_of_dc hs hd
  have htype : d'.data.type = .directDc := hhandled.type.trans (hs.dcType d hd)
  have hclient : InputOk (s.setDc d').dcPeer
      (if d'.data.obfs2Init then flushDeferred s.client else s.client) := by
    split_ifs with hinit
    · exact inputOk_flushDeferred (hs.client hdirect)
    · -- the client is not woken, so it could relay before as well
      refine (hs.client hdirect).of_relays ?_
      rw [relays_dcPeer hs.notDc, relays_dcPeer hs.notDc, Session.ready, Session.ready, hd]
      exact fun h => (hhandled.init h).resolve_right hinit
  have hsame : (s.setDc d').client.data.type = s.client.data.type := by
    unfold Session.setDc receiveRelayed
    split_ifs <;> rfl
  refine ⟨?_, fun _ => (sameInput_receiveRelayed _ _).inputOk hclient, fun h => ?_, ?_, ?_⟩
  · rw [hsame]
    exact hs.notDc
  · rw [hsame] at h
    exact absurd (h.symm.trans hdirect) nofun
  · rintro _ ⟨rfl⟩
    exact htype
  · rintro _ ⟨rfl⟩
    exact ((sameInput_clearOutbox d').inputOk hok).of_dc htype

variable {s' : Session κ}

theorem wakeupInv_clientRun {o : Outside κ} (hs : WakeupInv s)
    (h : clientRun cfg o s = some s') : WakeupInv s' := by
  have htype := type_connRun cfg o s.dcPeer hs.notDc
  unfold clientRun at h
  dsimp only at h
  split_ifs at h
  cases h
  exact wakeupInv_setClient hs htype fun hdirect =>
    inputOk_connRun cfg o (hs.client (htype ▸ hdirect))

theorem inputOk_newDc (peer : Option Peer) : InputOk peer (newDc κ) :=
  ⟨⟨rfl, fun h => absurd rfl h, fun _ => ⟨nofun, nofun, fun _ => ⟨rfl, rfl⟩⟩⟩, rfl, fun _ => rfl,
    nofun, nofun⟩

theorem wakeupInv_of_not_ready (hnotDc : s.client.data.type ≠ .directDc)
    (hclient : InputOk peer s.client) (hdc : ∀ d, s.dc = some d → d = newDc κ) : WakeupInv s := by
  refine ⟨hnotDc, fun _ => hclient.of_relays fun h => ?_, fun h => ?_, fun d hd => ?_, fun d hd => ?_⟩
  · rw [relays_dcPeer hnotDc, Session.ready] at h
    cases hs : s.dc with
    | none => simp [hs] at h
    | some d => simp [hs, hdc d hs, newDc] at h
  · exact absurd (h.symm.trans hclient.direct) nofun
  · rw [hdc d hd]
    rfl
  · rw [hdc d hd]
    exact inputOk_newDc _

theorem wakeupInv_directRetryDcConnection (hs : WakeupInv s)
    (hdirect : s.client.data.type.isDirect = true) (hdc : s.dc = none) :
    WakeupInv (directRetryDcConnection o s) := by
  have hclient := hs.client hdirect
  have hclear := (sameInput_clearRetry s.client).inputOk hclient
  have hnone : ∀ d, s.dc = some d → d = newDc κ := fun d hd => absurd (hdc.symm.trans hd) nofun
  have hretry := sameInput_directScheduleRetry o s.client.data.retry s.client
  unfold directRetryDcConnection
  split_ifs
  · exact wakeupInv_of_not_ready hs.notDc ((sameInput_failConnection _).inputOk hclear) hnone
  · refine wakeupInv_of_not_ready hs.notDc hclear ?_
    rintro d ⟨rfl⟩
    rfl
  · exact wakeupInv_of_not_ready (hretry.type ▸ hs.notDc) (hretry.inputOk hclient) hnone

theorem wakeupInv_clientAlarm {o : Outside κ} (hs : WakeupInv s)
    (hinn : jobTimerCheck wakeupTime s.client = true → s.client.stopRead = true →
      s.client.inn = [] ∨ s.client.data.jsRun = true)
    (h : clientAlarm cfg wakeupTime o s = some s') : WakeupInv s' := by
  have htype := type_connAlarm cfg wakeupTime o s.dcPeer hs.notDc
  have hset : WakeupInv (s.setClient (connAlarm cfg wakeupTime o s.dcPeer s.client).1) :=
    wakeupInv_setClient hs htype fun hdirect =>
      (inputOk_connAlarm cfg o (hs.client (htype ▸ hdirect)) hinn).2
  unfold clientAlarm at h
  dsimp only at h
  split_ifs at h with haborted hdial
  · cases h
    obtain ⟨hpeer, hdirect, -⟩ := peer_eq_none_of_connAlarm hdial
    refine wakeupInv_directRetryDcConnection o hset ?_ ?_
    · exact (congrArg ConnType.isDirect htype).trans hdirect
    · have hnone : s.dc = none := map_eq_none_iff.1 hpeer
      rw [Session.setClient, hnone]
      rfl
  · cases h
    exact hset

theorem directConn_socketRead (hc : DirectConn c) : DirectConn (socketRead chunk c) := by
  refine ⟨hc.direct, fun h => ?_, fun hdc => ⟨(hc.dc hdc).socks5, fun _ => rfl, fun h => ?_⟩⟩
  · exact ⟨rfl, by simp [socketRead, hc.client h]⟩
  · refine (hc.dc hdc).fresh ?_
    simpa [socketRead, or_comm] using h

theorem inputOk_socketRead (hc : InputOk peer c) : InputOk peer (socketRead chunk c) := by
  have hrun : (socketRead chunk c).data.jsRun = false → c.data.jsRun = false := fun h =>
    (Bool.or_eq_false_iff.1 h).1
  refine ⟨directConn_socketRead chunk hc.toDirectConn, hc.skipBytes, hc.clear, fun hr hf h => ?_,
    fun hr hf h => hc.relayed hr hf (hrun h)⟩
  exact ⟨(hc.fetched hr hf (hrun h)).inQueue, (hc.fetched hr hf (hrun h)).inU⟩

theorem directConn_socketPush (chunk : List UInt8) (hc : DirectConn c) :
    DirectConn (socketPush chunk c) :=
  ⟨hc.direct, hc.client, fun h => ⟨(hc.dc h).socks5, (hc.dc h).connected, (hc.dc h).fresh⟩⟩

theorem inputOk_socketPush (chunk : List UInt8) (hc : InputOk peer c) :
    InputOk peer (socketPush chunk c) :=
  ⟨directConn_socketPush chunk hc.toDirectConn, hc.skipBytes, hc.clear, fun _ _ => nofun,
    fun _ _ => nofun⟩

theorem wakeupInv_closeDc (hs : WakeupInv s) (hd : s.dc = some d) : WakeupInv (closeDc o s d) := by
  have hclient := hs.client (isDirect_of_dc hs hd)
  have hretry := sameInput_directScheduleRetry o s.client.data.retry s.client
  have hgone : ∀ x : Conn κ, none = some x → x = newDc κ := fun x hx => absurd hx (by simp)
  unfold closeDc
  split_ifs
  · exact wakeupInv_of_not_ready (hretry.type ▸ hs.notDc) (hretry.inputOk hclient) hgone
  · exact wakeupInv_of_not_ready hs.notDc ((sameInput_failConnection _).inputOk hclient) hgone

theorem wakeupInv_closeClient (hs : WakeupInv s) : WakeupInv (closeClient s) := by
  have hsame : SameInput s.client (jobTimerRemove s.client) :=
    ⟨rfl, rfl, rfl, rfl, rfl, rfl, rfl, rfl, rfl, rfl, rfl, id, id⟩
  have hset := wakeupInv_replaceClient hs (c := jobTimerRemove s.client) rfl fun h =>
    hsame.inputOk (hs.client h)
  cases hdc : s.dc with
  | none =>
    rw [closeClient, hdc, map_none, ← hdc]
    exact hset
  | some d =>
    rw [closeClient, hdc]
    exact wakeupInv_replaceDc hset hdc rfl rfl ((sameInput_failConnection d).inputOk (hset.dc d hdc))

/-- A step that lifts `C_STOPREAD` only without buffered input keeps the invariant. -/
theorem wakeupInv_step (s : Session κ) (e : SessionEvent κ) (s' : Session κ) (hs : WakeupInv s)
    (hdrained : ResumesDrained s e) (h : sessionStep cfg s e = some s') : WakeupInv s' := by
  cases stepped_of_sessionStep h with
  | readClient chunk =>
    exact wakeupInv_replaceClient hs rfl fun hdirect =>
      inputOk_socketRead chunk (hs.client hdirect)
  | readDc chunk hd =>
    exact wakeupInv_replaceDc hs hd rfl rfl (inputOk_socketRead chunk (hs.dc _ hd))
  | pushClient =>
    exact wakeupInv_replaceClient hs rfl fun hdirect => inputOk_socketPush _ (hs.client hdirect)
  | pushDc hd => exact wakeupInv_replaceDc hs hd rfl rfl (inputOk_socketPush _ (hs.dc _ hd))
  | runClient o h => exact wakeupInv_clientRun hs h
  | runDc o hd =>
    have hok := hs.dc _ hd
    exact wakeupInv_setDc hs hd (handled_connRun cfg o s.clientPeer hok.toDirectConn)
      (inputOk_connRun cfg o hok)
  | alarmClient time o h => exact wakeupInv_clientAlarm hs (hdrained s.client rfl) h
  | alarmDc time o hd =>
    obtain ⟨hhandled, hok⟩ := inputOk_connAlarm cfg o (hs.dc _ hd) (hdrained _ hd)
    exact wakeupInv_setDc hs hd hhandled hok
  | write raw hdirect => exact wakeupInv_replaceClient hs rfl fun h => absurd h hdirect
  | failClient =>
    exact wakeupInv_replaceClient hs rfl fun hdirect =>
      (sameInput_failConnection _).inputOk (hs.client hdirect)
  | failDc hd =>
    exact wakeupInv_replaceDc hs hd rfl rfl ((sameInput_failConnection _).inputOk (hs.dc _ hd))
  | closeClient => exact wakeupInv_closeClient hs
  | closeDc o hd => exact wakeupInv_closeDc o hs hd

/-! ### Every run of a session -/

theorem type_toDirect_ne (c : Conn κ) : (toDirect o c).data.type ≠ .directDc := by
  simp only [toDirect, directType]
  split_ifs <;> exact nofun

theorem Accepted.inputOk_toDirect (hc : Accepted c) : InputOk none (toDirect o c) := by
  have hrelays : relays none (toDirect o c) = false := by
    rw [relays_of_client (type_toDirect_ne o c)]
    rfl
  have hsome : (toDirect o c).crypto ≠ none := isSome_iff_ne_none.1 hc.crypto
  refine ⟨⟨?_, fun _ => ⟨hc.connected, hc.readyPending⟩, fun h => ?_⟩, hc.skipBytes, fun h => ?_,
    fun h => ?_, fun h => ?_⟩
  · simp only [toDirect, directType]
    split_ifs <;> rfl
  · exact absurd h (type_toDirect_ne o c)
  · exact absurd h hsome
  all_goals exact absurd (hrelays.symm.trans h) nofun

theorem wakeupInv_start (h : Started cfg s) : WakeupInv s := by
  obtain ⟨o, c, hc, rfl⟩ := h
  have hgone : ∀ x : Conn κ, none = some x → x = newDc κ := fun x hx => absurd hx (by simp)
  have hclient := hc.inputOk_toDirect o
  have hnotDc := type_toDirect_ne o c
  have hrelay : ∀ x : Conn κ, x.data.type = c.data.type → WakeupInv ⟨x, none⟩ := by
    intro x hx
    have hfalse : x.data.type.isDirect = false := by
      rw [hx]
      exact hc.isDirect
    refine ⟨fun h => ?_, fun h => ?_, fun _ => rfl, fun _ => nofun, fun _ => nofun⟩
    · rw [h] at hfalse
      exact absurd hfalse nofun
    · exact absurd (hfalse.symm.trans h) nofun
  unfold startSession directConnectToDc
  split_ifs
  · exact hrelay _ rfl
  · refine wakeupInv_of_not_ready hnotDc hclient ?_
    rintro d ⟨rfl⟩
    rfl
  · have hretry := sameInput_directScheduleRetry o 0 (toDirect o c)
    exact wakeupInv_of_not_ready (hretry.type ▸ hnotDc) (hretry.inputOk hclient) hgone
  · exact hrelay c rfl

/-- **What was received is delivered**: after every run in which no alarm lifts `C_STOPREAD` of a
connection with buffered input and no run pending, a connection that is neither failed nor
throttled and has no run pending has nothing in its queue or its buffer, once the DC connection has
sent its header. -/
theorem received_delivered {cfg : DirectConfig κ} {s₀ s : Session κ} {es : List (SessionEvent κ)}
    (hstart : Started cfg s₀) (hdrained : Along (sessionStep cfg) ResumesDrained s₀ es)
    (hrun : run (sessionStep cfg) s₀ es = some s) (hready : s.ready = true) (side : Side)
    {c : Conn κ} (hc : s.conn side = some c) (hfailed : c.failed = false)
    (hstop : c.stopRead = false) (hidle : c.data.jsRun = false) : Fetched c ∧ c.inn = [] := by
  have hinv : WakeupInv s := run_invariant wakeupInv_step (wakeupInv_start hstart) hdrained hrun
  cases side with
  | client =>
    cases hc
    have hdirect : s.client.data.type.isDirect = true := by
      by_contra h
      simp [Session.ready, hinv.relay (by simpa using h)] at hready
    have hok := hinv.client hdirect
    have hrelays : relays s.dcPeer s.client = true := (relays_dcPeer hinv.notDc).trans hready
    exact ⟨hok.fetched hrelays hfailed hidle, hok.relayed hrelays hfailed hidle hstop⟩
  | dc =>
    have hok := hinv.dc c hc
    have hrelays : relays s.clientPeer c = true := by
      rw [relays_of_dc (hinv.dcType c hc)]
      rw [Session.ready, show s.dc = some c from hc] at hready
      exact hready
    exact ⟨hok.fetched hrelays hfailed hidle, hok.relayed hrelays hfailed hidle hstop⟩

/-- The DC connection is connected and sends its header, which wakes the client. -/
def sampleReady : List (SessionEvent Unit) :=
  [.read .dc none, .run .dc (sampleOutside 0), .run .client (sampleOutside 0)]

/-- A client is throttled after a byte, and resumes. -/
def sampleThrottle : List (SessionEvent Unit) :=
  sampleReady ++ [.read .client (some [1]), .push .client, .run .client (sampleOutside 1),
    .alarm .client 2 (sampleOutside 0)]

/-- The DC connection has sent its header; the client is neither failed nor throttled and has no run
pending. -/
def Session.clientIdle (s : Session κ) : Bool :=
  s.ready && !s.client.failed && !s.client.stopRead && !s.client.data.jsRun

theorem received_delivered_sampleThrottle :
    ∃ s, run (sessionStep (sampleConfig true)) (sampleSession true false) sampleThrottle = some s ∧
      s.clientIdle = true ∧ Fetched s.client ∧ s.client.inn = [] := by
  obtain ⟨s, hs, hidle⟩ : ∃ s, run (sessionStep (sampleConfig true)) (sampleSession true false)
      sampleThrottle = some s ∧ s.clientIdle = true := by decide +kernel
  have hdrained : Along (sessionStep (sampleConfig true)) ResumesDrained (sampleSession true false)
      sampleThrottle := by decide +kernel
  refine ⟨s, hs, hidle, ?_⟩
  simp only [Session.clientIdle, Bool.and_eq_true, Bool.not_eq_true'] at hidle
  obtain ⟨⟨⟨hready, hfailed⟩, hstop⟩, hrun⟩ := hidle
  exact received_delivered (started_sampleSession true false) hdrained hs hready .client rfl hfailed
    hstop hrun

/-- A second byte is read before the client is throttled and queued after that; the run for it finds
`C_STOPREAD` and leaves the byte in the buffer. -/
def sampleStranded : List (SessionEvent Unit) :=
  sampleReady ++ [.read .client (some [1]), .push .client, .read .client (some [2]),
    .run .client (sampleOutside 1), .run .dc (sampleOutside 0), .push .client,
    .run .client (sampleOutside 0), .alarm .client 2 (sampleOutside 0), .read .client none]

/-- **A received byte can be left behind**: after this run it waits in the buffer of an idle client,
no run of the client or of its socket is pending, and no timer is armed. -/
theorem received_stranded :
    Started (sampleConfig true) (sampleSession true false) ∧
      ∃ s, run (sessionStep (sampleConfig true)) (sampleSession true false) sampleStranded = some s ∧
        s.ready = true ∧ s.client.failed = false ∧ s.client.stopRead = false ∧
        s.client.data.jsRun = false ∧ s.client.data.ioRun = false ∧
        s.client.data.realWakeupTime = 0 ∧ s.client.inn = [2] := by
  exact ⟨started_sampleSession true false, by decide +kernel⟩

end Mtbolt.Direct
