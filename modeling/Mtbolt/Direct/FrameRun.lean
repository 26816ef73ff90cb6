import Mtbolt.Direct.Stream
import Mtbolt.Mtproto.Framing

/-!
# The messages of a client

A client in relay mode sends frames; the socket reads them in pieces of any size, and each run of
the connection decrypts what has come, cuts whole frames off and executes their messages.  A part of
a frame stays in `c->in`, and `skip_bytes` keeps the parser from it until more has come.
-/

namespace Mtbolt.Direct

open Net Mtproto List Bool Option
open ExtServer (FrameOf Transport framePass framePass_short framePass_nil)

variable {κ : Type}

/-! ### The bytes that are still to come -/

/-- What `c` has in its buffers, and `future` behind it, decrypts to `w` to its last byte. -/
def Delivers (cfg : DirectConfig κ) (future w : List UInt8) (c : Conn κ) : Prop :=
  ∃ T key left n, c.crypto = some T ∧
    ctr128DecryptInput cfg.crypt c.data.isTls
      ⟨c.inU ++ c.inQueue.flatten ++ future, c.inn, T.readAeskey, c.data.leftTlsPacketLength⟩ =
      (⟨[], w, key, left⟩, false, n)

section Delivers

variable {cfg : DirectConfig κ} {future w : List UInt8} {c : Conn κ}

theorem KeepsStream.delivers {c' : Conn κ} (h : KeepsStream c c') (hc : Delivers cfg future w c) :
    Delivers cfg future w c' := by
  obtain ⟨T, key, left, n, hT, hstream⟩ := hc
  obtain ⟨T', hT', hkey⟩ := h.exists_crypto hT
  refine ⟨T', key, left, n, hT', ?_⟩
  rw [h.isTls, h.inU, h.inQueue, h.inn, h.left, hkey]
  exact hstream

theorem Delivers.isSome_crypto (hc : Delivers cfg future w c) : c.crypto.isSome = true := by
  obtain ⟨T, key, left, n, hT, -⟩ := hc
  rw [hT, isSome_some]

theorem Delivers.inn_isPrefix (hc : Delivers cfg future w c) : c.inn <+: w := by
  obtain ⟨T, key, left, n, -, hstream⟩ := hc
  have h := prefix_ctr128DecryptInput cfg.crypt c.data.isTls
    ⟨c.inU ++ c.inQueue.flatten ++ future, c.inn, T.readAeskey, c.data.leftTlsPacketLength⟩
  rwa [hstream] at h

theorem Delivers.take {f rest : List UInt8} (hinn : c.inn = f ++ rest)
    (hc : Delivers cfg future (f ++ w) c) : Delivers cfg future w { c with inn := rest } := by
  obtain ⟨T, key, left, n, hT, hstream⟩ := hc
  have hsplit := ctr128DecryptInput_prepend cfg.crypt c.data.isTls
    ⟨c.inU ++ c.inQueue.flatten ++ future, rest, T.readAeskey, c.data.leftTlsPacketLength⟩ f
  rw [show InBuf.prepend f ⟨c.inU ++ c.inQueue.flatten ++ future, rest, T.readAeskey,
      c.data.leftTlsPacketLength⟩ = ⟨c.inU ++ c.inQueue.flatten ++ future, c.inn, T.readAeskey,
      c.data.leftTlsPacketLength⟩ by rw [InBuf.prepend, hinn], hstream] at hsplit
  refine ⟨T, key, left, n, hT, ?_⟩
  generalize ctr128DecryptInput cfg.crypt c.data.isTls
    ⟨c.inU ++ c.inQueue.flatten ++ future, rest, T.readAeskey, c.data.leftTlsPacketLength⟩ = r
    at hsplit ⊢
  obtain ⟨⟨inU, inn, key', left'⟩, failed, n'⟩ := r
  simpa [InBuf.prepend, eq_comm] using hsplit

theorem Delivers.socketPush {chunk : List UInt8} (hc : Delivers cfg (chunk ++ future) w c) :
    Delivers cfg future w (socketPush chunk c) := by
  obtain ⟨T, key, left, n, hT, hstream⟩ := hc
  refine ⟨T, key, left, n, hT, ?_⟩
  rw [← hstream]
  simp [Direct.socketPush]

theorem Delivers.fetchInput (hcipher : StreamCipher cfg.crypt) (o : Outside κ) (peer : Option Peer)
    (hc : Delivers cfg future w c) :
    (∃ T inU inn left, (fetchInput (connFuncs cfg o peer) c).1 =
        { c with
          inQueue := []
          inU := inU
          inn := inn
          crypto := some T
          data := { c.data with leftTlsPacketLength := left } }) ∧
      0 ≤ (fetchInput (connFuncs cfg o peer) c).2 ∧
      Delivers cfg future w (fetchInput (connFuncs cfg o peer) c).1 ∧
      Exhausted cfg c.data.isTls (fetchInput (connFuncs cfg o peer) c).1 := by
  obtain ⟨T, key, left, n, hT, hstream⟩ := hc
  have hpop : c.popAll = { c with inU := c.inU ++ c.inQueue.flatten, inQueue := [] } := by
    simp [ConnInfo.popAll, hT, rwmUnion]
  have hfetch : Net.fetchInput (connFuncs cfg o peer) c = cryptoDecryptInput cfg c.popAll := by
    rw [Net.fetchInput, hpop, hT]
    rfl
  -- the same decryption, on what has come so far
  have hfeed := ctr128DecryptInput_feed hcipher c.data.isTls
    ⟨c.inU ++ c.inQueue.flatten, c.inn, T.readAeskey, c.data.leftTlsPacketLength⟩ future
  have hidem := ctr128DecryptInput_idem hcipher c.data.isTls
    ⟨c.inU ++ c.inQueue.flatten, c.inn, T.readAeskey, c.data.leftTlsPacketLength⟩
  have hgood : (ctr128DecryptInput cfg.crypt c.data.isTls ⟨c.inU ++ c.inQueue.flatten, c.inn,
      T.readAeskey, c.data.leftTlsPacketLength⟩).2.1 = false := by
    by_contra hbad
    have hfail := ctr128DecryptInput_failed_feed hcipher (not_eq_false _ ▸ hbad) future
    rw [InBuf.feed, hstream] at hfail
    exact Bool.false_ne_true hfail
  have hnonneg := (decrypted_ctr128DecryptInput cfg.crypt c.data.isTls
    ⟨c.inU ++ c.inQueue.flatten, c.inn, T.readAeskey, c.data.leftTlsPacketLength⟩).1
  rw [InBuf.feed, hstream] at hfeed
  rw [hfetch, hpop, cryptoDecryptInput]
  simp only [hT]
  generalize ctr128DecryptInput cfg.crypt c.data.isTls
    ⟨c.inU ++ c.inQueue.flatten, c.inn, T.readAeskey, c.data.leftTlsPacketLength⟩ = r
    at hfeed hidem hgood hnonneg ⊢
  refine ⟨⟨{ T with readAeskey := r.1.readAeskey }, r.1.inU, r.1.inn, r.1.leftTlsPacketLength, ?_⟩,
    hnonneg, ⟨_, key, left, n, rfl, ?_⟩, rfl, _, rfl, decrypted_fixed (congrArg Prod.fst hidem)⟩
  · simp [hgood]
  · simpa [InBuf.feed] using hfeed.symm

theorem Delivers.of_exhausted (hc : Delivers cfg [] w c) (hleft : Exhausted cfg c.data.isTls c) :
    c.inU = [] ∧ c.inn = w := by
  obtain ⟨T, key, left, n, hT, hstream⟩ := hc
  obtain ⟨hqueue, T', hT', hfixed⟩ := hleft
  obtain rfl : T = T' := some.inj (hT.symm.trans hT')
  have hprepend := ctr128DecryptInput_prepend cfg.crypt c.data.isTls
    ⟨c.inU, [], T.readAeskey, c.data.leftTlsPacketLength⟩ c.inn
  rw [hqueue, flatten_nil, append_nil, append_nil] at hstream
  rw [show InBuf.prepend c.inn ⟨c.inU, [], T.readAeskey, c.data.leftTlsPacketLength⟩ =
      ⟨c.inU, c.inn, T.readAeskey, c.data.leftTlsPacketLength⟩ by simp [InBuf.prepend], hstream,
    hfixed] at hprepend
  have hbuf := congrArg Prod.fst hprepend
  simp only [InBuf.prepend, InBuf.mk.injEq, append_nil] at hbuf
  exact ⟨hbuf.1.symm, hbuf.2.1.symm⟩

end Delivers

/-! ### The messages that are still to come -/

/-- A client connection past its handshake, in relay mode, in the middle of the messages `all`: `ms`
and their frames `fs` are still to come, and `future` is what the socket has not read. -/
structure Awaits (cfg : DirectConfig κ) (t : Transport) (isTls : Bool) (all : List (List UInt8))
    (future : List UInt8) (ms fs : List (List UInt8)) (c : Conn κ) : Prop where
  relayMode : c.data.type.isDirect = false
  tls : c.data.isTls = isTls
  flags : c.data.rpcFlags = t.flags
  failed : c.failed = false
  stopRead : c.stopRead = false
  readyPending : c.data.readyPending = false
  aborted : c.data.aborted = false
  frames : List.Forall₂ (FrameOf t.flags) ms fs
  number : c.data.inPacketNum.toNat + ms.length ≤ 2 ^ 31
  executed : c.data.executed.map Prod.snd ++ ms = all
  delivers : Delivers cfg future fs.flatten c
  skipBytes_nonneg : 0 ≤ c.skipBytes
  skipBytes_le : c.skipBytes ≤ (fs.headD []).length

/-- The same while the parser is at work: nothing is held back, and all that has come is
decrypted. -/
structure Parsing (cfg : DirectConfig κ) (t : Transport) (isTls : Bool) (all : List (List UInt8))
    (future : List UInt8) (ms fs : List (List UInt8)) (c : Conn κ) : Prop
    extends Awaits cfg t isTls all future ms fs c where
  skipBytes : c.skipBytes = 0
  exhausted : Exhausted cfg isTls c

/-- The same when a run has ended: all that has come is decrypted, and the first frame is not
complete in `c->in`. -/
structure Waiting (cfg : DirectConfig κ) (t : Transport) (isTls : Bool) (all : List (List UInt8))
    (future : List UInt8) (ms fs : List (List UInt8)) (c : Conn κ) : Prop
    extends Awaits cfg t isTls all future ms fs c where
  exhausted : Exhausted cfg isTls c
  short : fs = [] ∨ c.inn.length < (fs.headD []).length

section Pass

variable {cfg : DirectConfig κ} {t : Transport} {isTls : Bool} {all ms fs : List (List UInt8)}
  {future : List UInt8} {c : Conn κ}

theorem Awaits.open (hc : Awaits cfg t isTls all future ms fs c) : (frameConn c).Open := by
  refine ⟨hc.failed, rfl, ?_⟩
  show c.data.rpcFlags.quickack = false
  rw [hc.flags]
  cases t <;> rfl

theorem withFrame_frameConn (c : Conn κ) : withFrame c (frameConn c) = c := by
  simp [withFrame, frameConn]

theorem Parsing.framePass_frame {m f : List UInt8}
    (hc : Parsing cfg t isTls all future (m :: ms) (f :: fs) c) (hlong : f.length ≤ c.inn.length) :
    ∃ fc, framePass false (frameConn c) = .again fc ∧ fc.inn.length < c.inn.length ∧
      Parsing cfg t isTls all future ms fs (withFrame c fc) := by
  obtain ⟨hframe, hframes⟩ := forall₂_cons.1 hc.frames
  obtain ⟨rest, hrest⟩ : f <+: c.inn :=
    prefix_of_prefix_length_le (prefix_append f _) hc.delivers.inn_isPrefix hlong
  have hnumber := hc.number
  rw [length_cons] at hnumber
  have hlt : (frameConn c).inPacketNum.toNat < 2 ^ 31 := by
    show c.data.inPacketNum.toNat < 2 ^ 31
    omega
  have hpos : 0 < f.length := hframe.length_pos
  refine ⟨_, ExtServer.framePass_frame hc.open hlt (hc.flags ▸ hframe) hrest.symm, ?_, ?_⟩
  · rw [← hrest, length_append]
    show rest.length < _
    omega
  · have hdelivers := hc.delivers.take hrest.symm
    have hnext : (c.data.inPacketNum + 1).toNat = c.data.inPacketNum.toNat + 1 := by
      show (c.data.inPacketNum.toNat + 1) % 2 ^ 32 = _
      omega
    refine ⟨{ hc with
      frames := hframes, number := ?_, executed := ?_, delivers := hdelivers, skipBytes_le := ?_ },
      hc.skipBytes, hc.exhausted⟩
    · show (c.data.inPacketNum + 1).toNat + ms.length ≤ 2 ^ 31
      omega
    · rw [← hc.executed]
      simp [withFrame, frameConn]
    · rw [show (withFrame c _).skipBytes = 0 from hc.skipBytes]
      positivity

/-- The answer of the loop: no bytes are left, or the rest of the first frame is asked for. -/
def Asks (fs : List (List UInt8)) (n : ℤ) (c : Conn κ) : Prop :=
  n = needMoreBytes ∧ c.inn = [] ∨ 0 < n ∧ c.inn.length + n ≤ (fs.headD []).length

theorem compactLoop_spec {flood : BitVec 32 → Bool} (hcalm : ∀ num, flood num = false)
    (hc : Parsing cfg t isTls all future ms fs c) {fuel : ℕ} (hfuel : c.inn.length < fuel) :
    ∃ ms' fs', Parsing cfg t isTls all future ms' fs' (compactLoop flood fuel c).1 ∧
      Asks fs' (compactLoop flood fuel c).2 (compactLoop flood fuel c).1 := by
  induction fuel generalizing c ms fs with
  | zero => omega
  | succ fuel ih =>
    rw [compactLoop]
    rw [hcalm]
    have htimer : Parsing cfg t isTls all future ms fs
        (if c.data.inPacketNum ≠ -3#32 then Direct.jobTimerRemove c else c) := by
      split_ifs
      · exact { hc with }
      · exact hc
    have hinn : (if c.data.inPacketNum ≠ -3#32 then Direct.jobTimerRemove c else c).inn =
        c.inn := by
      split_ifs <;> rfl
    -- from here on the timer plays no part
    generalize (if c.data.inPacketNum ≠ -3#32 then Direct.jobTimerRemove c else c) = d
      at htimer hinn ⊢
    rw [← hinn] at hfuel
    by_cases hempty : d.inn = []
    · rw [framePass_nil htimer.open hempty]
      dsimp only
      rw [withFrame_frameConn]
      exact ⟨ms, fs, htimer, .inl ⟨rfl, hempty⟩⟩
    have hpart := htimer.delivers.inn_isPrefix
    cases fs with
    | nil => exact absurd (prefix_nil.1 hpart) hempty
    | cons f fs =>
      obtain ⟨m, ms', hframe, -, rfl⟩ := forall₂_cons_right_iff.1 htimer.frames
      by_cases hshort : d.inn.length < f.length
      · obtain ⟨n, hpass, hpos, hle⟩ :=
          framePass_short htimer.open (htimer.flags ▸ hframe) hpart hshort hempty
        rw [hpass]
        dsimp only
        rw [withFrame_frameConn]
        exact ⟨m :: ms', f :: fs, htimer, .inr ⟨by omega, by exact_mod_cast hle⟩⟩
      · obtain ⟨fc, hpass, hless, hnext⟩ := htimer.framePass_frame (Nat.le_of_not_lt hshort)
        rw [hpass]
        exact ih hnext (by show fc.inn.length < fuel; omega)

end Pass

/-! ### A run of the connection -/

section Run

variable {cfg : DirectConfig κ} {t : Transport} {isTls : Bool} {all ms fs : List (List UInt8)}
  {future : List UInt8} {c : Conn κ}

theorem parseExecute_relayMode (cfg : DirectConfig κ) (o : Outside κ) (peer : Option Peer)
    (h : c.data.type.isDirect = false) :
    parseExecute cfg o peer c = compactLoop o.flood (c.inn.length + 1) c := by
  unfold parseExecute
  cases htype : c.data.type with
  | rpcExtServer => rfl
  | rpcExtServerDrs => rfl
  | directClient => simp [htype, ConnType.isDirect] at h
  | directClientDrs => simp [htype, ConnType.isDirect] at h
  | directDc => simp [htype, ConnType.isDirect] at h

theorem Parsing.waiting_of_inn_eq_nil (hc : Parsing cfg t isTls all future ms fs c)
    (hinn : c.inn = []) : Waiting cfg t isTls all future ms fs c := by
  refine ⟨hc.toAwaits, hc.exhausted, ?_⟩
  cases fs with
  | nil => exact .inl rfl
  | cons f fs =>
    obtain ⟨m, ms, hframe, -, -⟩ := forall₂_cons_right_iff.1 hc.frames
    rw [hinn]
    exact .inr hframe.length_pos

theorem Parsing.waiting_setSkip {n : ℤ} (hc : Parsing cfg t isTls all future ms fs c)
    (hpos : 0 < n) (hle : c.inn.length + n ≤ (fs.headD []).length) :
    Waiting cfg t isTls all future ms fs (c.setSkip n) ∧
      Waiting cfg t isTls all future ms fs c := by
  have hshort : c.inn.length < (fs.headD []).length := by omega
  have hskip : c.setSkip n = { c with skipBytes := n + c.inn.length } := by
    rw [ConnInfo.setSkip, hc.delivers.isSome_crypto, if_pos rfl, if_neg (by omega)]
  rw [hskip]
  refine ⟨⟨{ hc.toAwaits with skipBytes_nonneg := ?_, skipBytes_le := ?_ }, hc.exhausted,
    .inr hshort⟩, hc.toAwaits, hc.exhausted, .inr hshort⟩
  · show 0 ≤ n + c.inn.length
    omega
  · show n + c.inn.length ≤ _
    omega

theorem readerLoop_waiting {o : Outside κ} (peer : Option Peer)
    (hcalm : ∀ num, o.flood num = false) (hc : Parsing cfg t isTls all future ms fs c) (fuel : ℕ) :
    ∃ ms' fs', Waiting cfg t isTls all future ms' fs'
      (readerLoop (connFuncs cfg o peer) (fuel + 1) c) := by
  rw [readerLoop]
  dsimp only
  by_cases hempty : c.inn = []
  · rw [if_pos (by simp [ConnInfo.blocked, hempty])]
    exact ⟨ms, fs, hc.waiting_of_inn_eq_nil hempty⟩
  rw [if_neg (by simp [ConnInfo.blocked, hempty, hc.skipBytes, hc.failed, hc.stopRead]),
    show (connFuncs cfg o peer).parseExecute c = compactLoop o.flood (c.inn.length + 1) c from
      parseExecute_relayMode cfg o peer hc.relayMode]
  obtain ⟨ms', fs', hnext, hasks⟩ := compactLoop_spec hcalm hc (Nat.lt_add_one _)
  refine ⟨ms', fs', ?_⟩
  rcases hasks with ⟨hmore, hnil⟩ | ⟨hpos, hle⟩
  · rw [hmore]
    exact hnext.waiting_of_inn_eq_nil hnil
  · rw [if_neg (by omega)]
    obtain ⟨hset, hsame⟩ := hnext.waiting_setSkip hpos hle
    split_ifs
    · exact hset
    · exact hsame

theorem Awaits.fetchInput (hcipher : StreamCipher cfg.crypt) (o : Outside κ) (peer : Option Peer)
    (hc : Awaits cfg t isTls all future ms fs c) :
    0 ≤ (fetchInput (connFuncs cfg o peer) c).2 ∧
      Awaits cfg t isTls all future ms fs (fetchInput (connFuncs cfg o peer) c).1 ∧
      Exhausted cfg isTls (fetchInput (connFuncs cfg o peer) c).1 := by
  obtain ⟨⟨T, inU, inn, left, hfetch⟩, hnonneg, hdelivers, hleft⟩ :=
    hc.delivers.fetchInput hcipher o peer
  rw [hc.tls] at hleft
  rw [hfetch] at hdelivers hleft ⊢
  exact ⟨hnonneg, { hc with delivers := hdelivers }, hleft⟩

theorem reader_waiting (hcipher : StreamCipher cfg.crypt) {o : Outside κ} (peer : Option Peer)
    (hcalm : ∀ num, o.flood num = false) (hc : Awaits cfg t isTls all future ms fs c) :
    ∃ ms' fs', Waiting cfg t isTls all future ms' fs' (reader (connFuncs cfg o peer) c) := by
  obtain ⟨hnonneg, hd, hleft⟩ := hc.fetchInput hcipher o peer
  rw [reader_eq]
  rw [if_neg (not_lt.2 hnonneg), hd.failed, hd.stopRead, Bool.or_false, if_neg Bool.false_ne_true]
  generalize (Net.fetchInput (connFuncs cfg o peer) c).1 = d at hd hleft ⊢
  have hnonneg := hd.skipBytes_nonneg
  have hle := hd.skipBytes_le
  by_cases hheld : (d.inn.length : ℤ) < d.skipBytes
  · -- the parser is not called
    have hskip : d.applySkip = d := by
      rw [ConnInfo.applySkip, if_neg (by omega), if_neg (by omega)]
    have hblocked : d.blocked = true := by
      have : d.skipBytes ≠ 0 := by omega
      simp [ConnInfo.blocked, this]
    rw [hskip, readerLoop, hblocked, if_pos rfl]
    exact ⟨ms, fs, hd, hleft, .inr (by omega)⟩
  · have hskip : d.applySkip = { d with skipBytes := 0 } := by
      by_cases hzero : d.skipBytes = 0
      · rw [ConnInfo.applySkip, if_neg (by omega), if_neg (by omega), ← hzero]
      · rw [ConnInfo.applySkip, if_neg (by omega), if_pos (by omega)]
    have hparsing : Parsing cfg t isTls all future ms fs { d with skipBytes := 0 } :=
      ⟨{ hd with skipBytes_nonneg := le_rfl, skipBytes_le := Int.natCast_nonneg _ }, rfl, hleft⟩
    rw [hskip]
    exact readerLoop_waiting peer hcalm hparsing _

theorem Waiting.writer (o : Outside κ) (hc : Waiting cfg t isTls all future ms fs c) :
    Waiting cfg t isTls all future ms fs (writer cfg o c) := by
  have hkeeps := keepsStream_writer cfg o c
  have hdelivers := hkeeps.delivers hc.delivers
  have hexhausted := hkeeps.exhausted hc.exhausted
  obtain ⟨crypto, out, outP, drs, time, ioOut, ioRun, heq, -⟩ := writer_eq cfg o c
  rw [heq] at hdelivers hexhausted ⊢
  exact ⟨{ hc.toAwaits with delivers := hdelivers }, hexhausted, hc.short⟩

theorem connRun_waiting (hcipher : StreamCipher cfg.crypt) {o : Outside κ} (peer : Option Peer)
    (hcalm : ∀ num, o.flood num = false) (hc : Awaits cfg t isTls all future ms fs c) :
    ∃ ms' fs', Waiting cfg t isTls all future ms' fs' (connRun cfg o peer c) := by
  have htaken : Awaits cfg t isTls all future ms fs (takeRun c) :=
    { hc with delivers := (keepsStream_takeRun c).delivers hc.delivers }
  obtain ⟨ms', fs', hread⟩ := reader_waiting hcipher peer hcalm htaken
  rw [connRun, hc.failed, runConnected, htaken.readyPending]
  exact ⟨ms', fs', hread.writer o⟩

end Run

/-! ### All reads -/

/-- The socket reads some pieces, and the connection runs. -/
def receive (cfg : DirectConfig κ) (c : Conn κ) (read : List (List UInt8) × Outside κ) : Conn κ :=
  connRun cfg read.2 none (read.1.foldl (fun c chunk => socketPush chunk c) c)

/-- One read after the other. -/
def receiveAll (cfg : DirectConfig κ) (reads : List (List (List UInt8) × Outside κ)) (c : Conn κ) :
    Conn κ :=
  reads.foldl (receive cfg) c

/-- The bytes of the reads. -/
def readBytes (reads : List (List (List UInt8) × Outside κ)) : List UInt8 :=
  (reads.flatMap Prod.fst).flatten

section Reads

variable {cfg : DirectConfig κ} {t : Transport} {isTls : Bool} {all ms fs : List (List UInt8)}
  {future : List UInt8} {c : Conn κ}

theorem awaits_socketPush {chunks : List (List UInt8)}
    (hc : Awaits cfg t isTls all (chunks.flatten ++ future) ms fs c) :
    Awaits cfg t isTls all future ms fs (chunks.foldl (fun c chunk => socketPush chunk c) c) := by
  induction chunks generalizing c with
  | nil => exact hc
  | cons chunk chunks ih =>
    have hdelivers := hc.delivers
    rw [flatten_cons, append_assoc] at hdelivers
    exact ih { hc with delivers := hdelivers.socketPush }

theorem receiveAll_waiting (hcipher : StreamCipher cfg.crypt)
    {reads : List (List (List UInt8) × Outside κ)}
    (hcalm : ∀ read ∈ reads, ∀ num, read.2.flood num = false)
    (hc : Waiting cfg t isTls all (readBytes reads) ms fs c) :
    ∃ ms' fs', Waiting cfg t isTls all [] ms' fs' (receiveAll cfg reads c) := by
  induction reads generalizing c ms fs with
  | nil => exact ⟨ms, fs, hc⟩
  | cons read reads ih =>
    have hpushed : Awaits cfg t isTls all (readBytes reads) ms fs
        (read.1.foldl (fun c chunk => socketPush chunk c) c) := by
      refine awaits_socketPush ?_
      have h := hc.toAwaits
      rwa [readBytes, flatMap_cons, flatten_append] at h
    obtain ⟨ms', fs', hnext⟩ := connRun_waiting hcipher none (hcalm read mem_cons_self) hpushed
    exact ih (fun r hr => hcalm r (mem_cons_of_mem read hr)) hnext

theorem Waiting.ms_eq_nil (hc : Waiting cfg t isTls all [] ms fs c) :
    c.inU = [] ∧ c.inn = [] ∧ ms = [] := by
  obtain ⟨hinU, hinn⟩ := hc.delivers.of_exhausted (hc.tls ▸ hc.exhausted)
  rcases hc.short with rfl | hshort
  · exact ⟨hinU, hinn, forall₂_nil_right_iff.1 hc.frames⟩
  · -- the first frame is in the buffer, to its end
    cases fs with
    | nil => exact absurd hshort (Nat.not_lt_zero _)
    | cons f fs =>
      rw [hinn, flatten_cons] at hshort
      exact absurd hshort (by simp)

end Reads

/-- A client connection as the handshake leaves it, in relay mode. -/
structure Handshaken (t : Transport) (c : Conn κ) : Prop where
  relayMode : c.data.type.isDirect = false
  flags : c.data.rpcFlags = t.flags
  failed : c.failed = false
  stopRead : c.stopRead = false
  readyPending : c.data.readyPending = false
  aborted : c.data.aborted = false
  inPacketNum : c.data.inPacketNum = 0#32
  executed : c.data.executed = []
  inQueue : c.inQueue = []
  inU : c.inU = []
  inn : c.inn = []
  skipBytes : c.skipBytes = 0

/-- The messages were executed, in this order, and no byte is left. -/
structure Served (ms : List (List UInt8)) (c : Conn κ) : Prop where
  executed : c.data.executed.map Prod.snd = ms
  inQueue : c.inQueue = []
  inU : c.inU = []
  inn : c.inn = []
  failed : c.failed = false
  aborted : c.data.aborted = false

variable {t : Transport} {c : Conn κ} {cfg : DirectConfig κ} {len : ℕ}

theorem Handshaken.exhausted (hc : Handshaken t c) (hcrypto : c.crypto.isSome = true) :
    Exhausted cfg c.data.isTls c := by
  obtain ⟨T, hT⟩ := isSome_iff_exists.1 hcrypto
  refine ⟨hc.inQueue, T, hT, ?_⟩
  rw [ctr128DecryptInput_nil _ _ hc.inU]

/-- **What is written is executed.**  Messages of whole words, at least two of them and with their
padding at most `max_packet_len`, are written with `tcp_rpc_write_packet_compact`.  Whatever pieces
the client's bytes are read in, the connection executes these messages in their order and keeps no
byte. -/
theorem framing_round_trip {cfg : DirectConfig κ} (hcipher : StreamCipher cfg.crypt)
    (crc : List UInt8 → BitVec 32) {t : Transport} {d : Client} (hd : Speaks t d)
    {ms : List (PadRandom × List UInt8)} (hms : ∀ p ∈ ms, Fits t p) (hcount : ms.length ≤ 2 ^ 31)
    {c : Conn κ} (hc : Handshaken t c) {reads : List (List (List UInt8) × Outside κ)}
    (hcalm : ∀ read ∈ reads, ∀ num, read.2.flood num = false) :
    ∃ w, writeAll crc d ms = some w ∧
      (Delivers cfg (readBytes reads) w c → Served (ms.map Prod.snd) (receiveAll cfg reads c)) := by
  obtain ⟨fs, hwritten, hframes⟩ := writeAll_eq_flatten crc hd hms
  refine ⟨fs.flatten, hwritten, fun hdelivers => ?_⟩
  have hnumber : c.data.inPacketNum.toNat + (ms.map Prod.snd).length ≤ 2 ^ 31 := by
    rw [hc.inPacketNum]
    simpa using hcount
  have hskip : 0 ≤ c.skipBytes ∧ c.skipBytes ≤ (fs.headD []).length := by
    rw [hc.skipBytes]
    exact ⟨le_rfl, Int.natCast_nonneg _⟩
  have hstart : Waiting cfg t c.data.isTls (ms.map Prod.snd) (readBytes reads) (ms.map Prod.snd) fs
      c := by
    have hparsing : Parsing cfg t c.data.isTls (ms.map Prod.snd) (readBytes reads) (ms.map Prod.snd)
        fs c :=
      ⟨⟨hc.relayMode, rfl, hc.flags, hc.failed, hc.stopRead, hc.readyPending, hc.aborted, hframes,
        hnumber, by rw [hc.executed]; rfl, hdelivers, hskip.1, hskip.2⟩, hc.skipBytes,
        hc.exhausted hdelivers.isSome_crypto⟩
    exact hparsing.waiting_of_inn_eq_nil hc.inn
  obtain ⟨ms', fs', hend⟩ := receiveAll_waiting hcipher hcalm hstart
  obtain ⟨hinU, hinn, rfl⟩ := hend.ms_eq_nil
  have hexecuted := hend.executed
  rw [append_nil] at hexecuted
  exact ⟨hexecuted, hend.exhausted.1, hinU, hinn, hend.failed, hend.aborted⟩

/-! ### Runs -/

/-- A client in relay mode whose transport is `t`. -/
def sampleFramed (t : Transport) : Conn Unit :=
  { sampleAccepted false with data := { (sampleAccepted false).data with rpcFlags := t.flags } }

theorem handshaken_sampleFramed (t : Transport) : Handshaken t (sampleFramed t) :=
  by constructor <;> rfl

/-- What the other side writes to. -/
def sampleWriter (t : Transport) : Client where
  compact := t == .compact
  medium := t.flags.medium
  pad := t.flags.pad
  tlsUninited := false
  outPacketNum := 0
  usedBytes := 0

theorem speaks_sampleWriter (t : Transport) : Speaks t (sampleWriter t) := ⟨rfl, rfl, rfl, rfl⟩

/-- Two messages, one with two bytes of padding and one without. -/
def sampleMessages : List (PadRandom × List UInt8) :=
  [(⟨0x0a0b0c0d, 2⟩, [1, 2, 3, 4, 5, 6, 7, 8]), (⟨0, 0⟩, List.replicate 12 9)]

/-- Their bytes in three reads, which do not end with a frame. -/
def sampleReads : List (List (List UInt8) × Outside Unit) :=
  [([[10, 0, 0], [0, 1, 2]], sampleOutside 0),
    ([[3, 4, 5, 6, 7, 8, 0x0d, 0x0c, 12]], sampleOutside 0),
    ([[0, 0, 0], List.replicate 12 9], sampleOutside 0)]

theorem framing_round_trip_sampleReads :
    Served [[1, 2, 3, 4, 5, 6, 7, 8], List.replicate 12 9]
      (receiveAll (sampleConfig false) sampleReads (sampleFramed .padded)) := by
  have hfits : ∀ p ∈ sampleMessages, Fits .padded p := by
    simp only [Fits]
    decide
  have hcalm : ∀ read ∈ sampleReads, ∀ num, read.2.flood num = false := by
    intro read hread num
    fin_cases hread <;> rfl
  obtain ⟨w, hw, hserved⟩ := framing_round_trip (streamCipher_sampleConfig false) (fun _ => 0)
    (speaks_sampleWriter .padded) hfits (by decide) (handshaken_sampleFramed .padded) hcalm
  have hbytes : writeAll (fun _ => 0) (sampleWriter .padded) sampleMessages =
      some (readBytes sampleReads) := by decide
  obtain rfl : readBytes sampleReads = w := some.inj (hbytes.symm.trans hw)
  exact hserved ⟨⟨(), ()⟩, (), 0, 0, rfl, rfl⟩

section

variable (fuel : ℕ) (hflags : c.data.rpcFlags = t.flags) (hfailed : c.failed = false) {hdr : ℕ}
  (henough : ExtServer.minLen t.flags + 8 ≤ c.inn.length)
  (hann : ExtServer.Announces t.flags (Words.le32 c.inn).toNat hdr len) (hover : 1044480 < len)
include hflags hfailed henough hann hover

theorem compactLoop_overlong (flood : BitVec 32 → Bool) :
    (compactLoop flood (fuel + 1) c).2 = 0 ∧ (compactLoop flood (fuel + 1) c).1.failed = true ∧
      (compactLoop flood (fuel + 1) c).1.data.executed = c.data.executed := by
  rw [compactLoop]
  obtain ⟨d, hd⟩ : ∃ d, d = if c.data.inPacketNum ≠ -3#32 then jobTimerRemove c else c := ⟨_, rfl⟩
  rw [← hd]
  have hsame : frameConn d = frameConn c ∧ d.data.executed = c.data.executed := by
    rw [hd]
    split_ifs <;> exact ⟨rfl, rfl⟩
  have hopen : (frameConn c).Open := by
    refine ⟨hfailed, rfl, ?_⟩
    show c.data.rpcFlags.quickack = false
    rw [hflags]
    cases t <;> rfl
  obtain ⟨fc, hpass, herror, hnone⟩ := ExtServer.framePass_overlong (flood d.data.inPacketNum) hopen
    (show ExtServer.minLen c.data.rpcFlags + 8 ≤ c.inn.length from hflags ▸ henough)
    (show ExtServer.Announces c.data.rpcFlags (Words.le32 c.inn).toNat hdr len from hflags ▸ hann)
    hover
  rw [hsame.1, hpass]
  refine ⟨rfl, herror, ?_⟩
  show d.data.executed ++ fc.executed = c.data.executed
  rw [hnone, hsame.2]
  exact append_nil _

theorem readerLoop_overlong (o : Outside κ) (peer : Option Peer)
    (hrelay : c.data.type.isDirect = false) (hskip : c.skipBytes = 0) (hstop : c.stopRead = false) :
    (readerLoop (connFuncs cfg o peer) (fuel + 1) c).failed = true ∧
      (readerLoop (connFuncs cfg o peer) (fuel + 1) c).data.executed = c.data.executed := by
  have hopen : c.blocked = false := by
    have hne : c.inn ≠ [] := ne_nil_of_length_pos (by omega)
    simp [ConnInfo.blocked, hskip, hfailed, hstop, hne]
  have hparse : (connFuncs cfg o peer).parseExecute c = compactLoop o.flood (c.inn.length + 1) c :=
    parseExecute_relayMode cfg o peer hrelay
  obtain ⟨hzero, hfail, hnone⟩ :=
    compactLoop_overlong c.inn.length hflags hfailed henough hann hover o.flood
  rw [readerLoop_of_blocked hopen (fun _ => by simp [hparse, ConnInfo.blocked, hfail]) fuel, hparse]
  rw [if_pos (.inl hzero)]
  exact ⟨hfail, hnone⟩

end

theorem receive_overlong (hcipher : StreamCipher cfg.crypt) (hc : Handshaken t c)
    {chunk w : List UInt8} (hdelivers : Delivers cfg chunk w c) {hdr : ℕ}
    (henough : ExtServer.minLen t.flags + 8 ≤ w.length)
    (hann : ExtServer.Announces t.flags (Words.le32 w).toNat hdr len) (hover : 1044480 < len)
    (o : Outside κ) :
    (receive cfg c ([chunk], o)).failed = true ∧
      (receive cfg c ([chunk], o)).data.executed = [] := by
  have hpushed : Delivers cfg [] w (takeRun (socketPush chunk c)) :=
    (keepsStream_takeRun _).delivers (Delivers.socketPush (by rwa [append_nil]))
  obtain ⟨⟨T, inU, inn, left, hfetch⟩, hnonneg, hfetched, hleft⟩ :=
    hpushed.fetchInput hcipher o none
  obtain ⟨-, hinn⟩ := hfetched.of_exhausted (by rw [hfetch] at hleft ⊢; exact hleft)
  -- what is fetched is all of it, and nothing else has changed
  have hread : (reader (connFuncs cfg o none) (takeRun (socketPush chunk c))).failed = true ∧
      (reader (connFuncs cfg o none) (takeRun (socketPush chunk c))).data.executed = [] := by
    rw [reader_eq]
    generalize fetchInput (connFuncs cfg o none) (takeRun (socketPush chunk c)) = r
      at hfetch hnonneg hinn ⊢
    have hskip : r.1.skipBytes = 0 := by rw [hfetch]; exact hc.skipBytes
    have hfailed : r.1.failed = false := by rw [hfetch]; exact hc.failed
    have hstop : r.1.stopRead = false := by rw [hfetch]; exact hc.stopRead
    have hflags : r.1.data.rpcFlags = t.flags := by rw [hfetch]; exact hc.flags
    have hrelay : r.1.data.type.isDirect = false := by rw [hfetch]; exact hc.relayMode
    have hexecuted : r.1.data.executed = [] := by rw [hfetch]; exact hc.executed
    have hsame : r.1.applySkip = r.1 := by simp [ConnInfo.applySkip, hskip]
    rw [if_neg (not_lt.2 hnonneg), hfailed, hstop, Bool.or_false, hsame, ← hexecuted]
    exact readerLoop_overlong _ hflags hfailed (hinn ▸ henough) (hinn ▸ hann) hover o none hrelay
      hskip hstop
  have hready : (takeRun (socketPush chunk c)).data.readyPending = false := hc.readyPending
  have hstart : receive cfg c ([chunk], o) =
      writer cfg o (reader (connFuncs cfg o none) (takeRun (socketPush chunk c))) := by
    show connRun cfg o none (socketPush chunk c) = _
    rw [connRun, show (socketPush chunk c).failed = false from hc.failed, runConnected, hready]
    rfl
  obtain ⟨crypto, out, outP, drs, time, ioOut, ioRun, heq, -⟩ :=
    writer_eq cfg o (reader (connFuncs cfg o none) (takeRun (socketPush chunk c)))
  rw [hstart, heq]
  exact hread

/-- **A message of `max_packet_len` bytes with one byte of padding is refused**: the limit is on the
length that is sent. -/
theorem framing_round_trip_overlong :
    ∃ (p : PadRandom × List UInt8) (w : List UInt8), p.2.length % 4 = 0 ∧ 8 ≤ p.2.length ∧
      p.2.length ≤ ExtServer.maxPacketLen.toNat ∧
      writeAll (fun _ => 0) (sampleWriter .padded) [p] = some w ∧
      Delivers (sampleConfig false) (readBytes [([w], sampleOutside 0)]) w (sampleFramed .padded) ∧
      ¬ Served [p.2] (receiveAll (sampleConfig false) [([w], sampleOutside 0)]
        (sampleFramed .padded)) := by
  obtain ⟨m, hm⟩ : ∃ m : List UInt8, m.length = 1044480 := ⟨_, length_replicate (a := 0)⟩
  have hpadded : (padded .padded ⟨0, 1⟩ m).length = 1044481 := by
    rw [padded, if_pos (by decide), length_append, hm]
    rfl
  have hwritten := writePacketCompact_eq_some (fun _ => 0) (speaks_sampleWriter .padded)
    (r := ⟨0, 1⟩) (m := m) (by omega) (by omega)
  rw [Mtproto.frameMessage, hpadded,
    if_pos (show (sampleWriter .padded).medium = true from rfl)] at hwritten
  have hword := Words.le32_le32Bytes_append 1044481#32 (padded .padded ⟨0, 1⟩ m)
  have hlong : 4 + 8 ≤ (Words.le32Bytes 1044481#32 ++ padded .padded ⟨0, 1⟩ m).length := by
    rw [length_append, hpadded]
    decide
  generalize Words.le32Bytes 1044481#32 ++ padded .padded ⟨0, 1⟩ m = w at hwritten hword hlong
  have hdelivers : Delivers (sampleConfig false) w w (sampleFramed .padded) := by
    refine ⟨⟨(), ()⟩, (), 0, 0, rfl, ?_⟩
    rw [ctr128DecryptInput_eq]
    · simp [sampleFramed, sampleAccepted, newDc, InBuf.decrypt, rwmEncryptDecryptTo, sampleConfig]
    · exact ne_nil_of_length_pos (by simp [sampleFramed, sampleAccepted]; omega)
  have hann : ExtServer.Announces Transport.padded.flags (Words.le32 w).toNat 4 1044481 := by
    rw [hword]
    exact .medium rfl (by decide)
  obtain ⟨hfailed, -⟩ := receive_overlong (streamCipher_sampleConfig false)
    (handshaken_sampleFramed .padded) hdelivers hlong hann (by decide) (sampleOutside 0)
  refine ⟨(⟨0, 1⟩, m), w, by simp [hm], by simp [hm], by simp [hm, ExtServer.maxPacketLen], ?_, ?_,
    fun hserved => ?_⟩
  · rw [writeAll, hwritten]
    simp [writeAll]
  · simpa [readBytes] using hdelivers
  · exact Bool.false_ne_true (hserved.failed.symm.trans hfailed)

end Mtbolt.Direct
