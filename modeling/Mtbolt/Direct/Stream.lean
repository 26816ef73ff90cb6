import Mtbolt.Direct.Handlers
import Mtbolt.Direct.Session
import Mtbolt.Net.RecordStream

/-!
# The stream through a connection in direct mode

A byte that was received waits in `in_queue`, then in `in_u`, is decrypted into `c->in`, and is then
relayed as it is.  So what has been relayed, what is in `c->in` and what the decryption will still
make of the rest is together the decryption of all that was received: no handler loses a byte,
doubles one, or changes their order.
-/

namespace Mtbolt.Direct

open Net

variable {κ : Type}

/-- All that a connection has received and not relayed to the other one, behind the bytes `q`. -/
def stream (T : AesCrypto κ) (q : List UInt8) (c : Conn κ) : InBuf κ where
  inU := c.inU ++ c.inQueue.flatten
  inn := q ++ (c.data.relayed.flatten ++ c.inn)
  readAeskey := T.readAeskey
  leftTlsPacketLength := c.data.leftTlsPacketLength

/-- A connection in direct mode whose cipher is installed.  The decryption of what it has received,
behind the bytes `q` that it has relayed already, is `r`. -/
structure Deciphers (cfg : DirectConfig κ) (isTls : Bool) (r : InBuf κ × Bool × ℤ) (q : List UInt8)
    (c : Conn κ) : Prop where
  direct : c.data.type.isDirect = true
  tls : c.data.isTls = isTls
  socks5 : c.data.type = .directDc → c.data.socks5 = .none
  skipBytes : c.skipBytes = 0
  connected : c.data.connected = true
  readyPending : c.data.readyPending = false
  stream : ∃ T, c.crypto = some T ∧ ctr128DecryptInput cfg.crypt isTls (stream T q c) = r

/-- Nothing that the connection has received can be decrypted any more: at most the first bytes of a
record header are left. -/
def Exhausted (cfg : DirectConfig κ) (isTls : Bool) (c : Conn κ) : Prop :=
  c.inQueue = [] ∧ ∃ T, c.crypto = some T ∧
    (ctr128DecryptInput cfg.crypt isTls
      ⟨c.inU, [], T.readAeskey, c.data.leftTlsPacketLength⟩).1 =
      ⟨c.inU, [], T.readAeskey, c.data.leftTlsPacketLength⟩

/-- `c'` has the input of `c`, to the key. -/
structure KeepsStream (c c' : Conn κ) : Prop where
  type : c'.data.type = c.data.type
  isTls : c'.data.isTls = c.data.isTls
  socks5 : c'.data.socks5 = c.data.socks5
  skipBytes : c'.skipBytes = c.skipBytes
  connected : c'.data.connected = c.data.connected
  readyPending : c'.data.readyPending = c.data.readyPending
  readAeskey : c'.crypto.map AesCrypto.readAeskey = c.crypto.map AesCrypto.readAeskey
  inQueue : c'.inQueue = c.inQueue
  inU : c'.inU = c.inU
  inn : c'.inn = c.inn
  left : c'.data.leftTlsPacketLength = c.data.leftTlsPacketLength
  relayed : c'.data.relayed = c.data.relayed

variable {c c' : Conn κ} {cfg : DirectConfig κ} {isTls : Bool}

theorem KeepsStream.trans {a b : Conn κ} (hab : KeepsStream a b) (hbc : KeepsStream b c) :
    KeepsStream a c where
  type := hbc.type.trans hab.type
  isTls := hbc.isTls.trans hab.isTls
  socks5 := hbc.socks5.trans hab.socks5
  skipBytes := hbc.skipBytes.trans hab.skipBytes
  connected := hbc.connected.trans hab.connected
  readyPending := hbc.readyPending.trans hab.readyPending
  readAeskey := hbc.readAeskey.trans hab.readAeskey
  inQueue := hbc.inQueue.trans hab.inQueue
  inU := hbc.inU.trans hab.inU
  inn := hbc.inn.trans hab.inn
  left := hbc.left.trans hab.left
  relayed := hbc.relayed.trans hab.relayed

theorem KeepsStream.exists_crypto (h : KeepsStream c c') {T : AesCrypto κ}
    (hT : c.crypto = some T) : ∃ T', c'.crypto = some T' ∧ T'.readAeskey = T.readAeskey := by
  have hkey := h.readAeskey
  rw [hT] at hkey
  exact Option.map_eq_some_iff.1 hkey

theorem KeepsStream.deciphers {r : InBuf κ × Bool × ℤ} {q : List UInt8} (h : KeepsStream c c')
    (hc : Deciphers cfg isTls r q c) : Deciphers cfg isTls r q c' := by
  obtain ⟨T, hT, hstream⟩ := hc.stream
  obtain ⟨T', hT', hkey⟩ := h.exists_crypto hT
  refine ⟨h.type ▸ hc.direct, h.isTls.trans hc.tls, ?_, h.skipBytes.trans hc.skipBytes,
    h.connected.trans hc.connected, h.readyPending.trans hc.readyPending, T', hT', ?_⟩
  · rw [h.type, h.socks5]
    exact hc.socks5
  · rw [← hstream]
    simp only [Direct.stream, h.inU, h.inQueue, h.inn, h.relayed, h.left, hkey]

theorem KeepsStream.exhausted (h : KeepsStream c c') (hc : Exhausted cfg isTls c) :
    Exhausted cfg isTls c' := by
  obtain ⟨hqueue, T, hT, hleft⟩ := hc
  obtain ⟨T', hT', hkey⟩ := h.exists_crypto hT
  refine ⟨h.inQueue.trans hqueue, T', hT', ?_⟩
  rw [h.inU, h.left, hkey]
  exact hleft

section Reader

variable {cfg : DirectConfig κ} {isTls : Bool} {r : InBuf κ × Bool × ℤ} {q : List UInt8}
  {c : Conn κ}

theorem deciphers_popAll (hc : Deciphers cfg isTls r q c) :
    Deciphers cfg isTls r q c.popAll ∧ c.popAll.inQueue = [] := by
  obtain ⟨T, hT, hstream⟩ := hc.stream
  have hpop : c.popAll = { c with inU := c.inU ++ c.inQueue.flatten, inQueue := [] } := by
    simp [ConnInfo.popAll, hT, rwmUnion]
  rw [hpop]
  refine ⟨{ hc with stream := ⟨T, hT, ?_⟩ }, rfl⟩
  simpa [Direct.stream] using hstream

theorem stream_of_inQueue_eq_nil (T : AesCrypto κ) (q : List UInt8) (hq : c.inQueue = []) :
    stream T q c = InBuf.prepend (q ++ c.data.relayed.flatten)
      ⟨c.inU, c.inn, T.readAeskey, c.data.leftTlsPacketLength⟩ := by
  simp [stream, InBuf.prepend, hq]

theorem decrypted_fixed {crypt : κ → List UInt8 → List UInt8 × κ} {b : InBuf κ}
    (h : (ctr128DecryptInput crypt isTls b).1 = b) :
    (ctr128DecryptInput crypt isTls { b with inn := [] }).1 = { b with inn := [] } := by
  have hb : b = InBuf.prepend b.inn { b with inn := [] } := by simp [InBuf.prepend]
  have hfixed := h
  rw [hb, ctr128DecryptInput_prepend] at hfixed
  generalize (ctr128DecryptInput crypt isTls { b with inn := [] }).1 = x at hfixed
  simp only [InBuf.prepend, InBuf.mk.injEq, List.append_right_inj] at hfixed
  obtain ⟨hinU, hinn, hkey, hleft⟩ := hfixed
  rw [← hinU, ← hinn, ← hkey, ← hleft]

theorem deciphers_cryptoDecryptInput (hcipher : StreamCipher cfg.crypt)
    (hc : Deciphers cfg isTls r q c) (hq : c.inQueue = []) :
    Deciphers cfg isTls r q (cryptoDecryptInput cfg c).1 ∧
      Exhausted cfg isTls (cryptoDecryptInput cfg c).1 := by
  obtain ⟨T, hT, hstream⟩ := hc.stream
  have hidem := ctr128DecryptInput_idem hcipher isTls
    ⟨c.inU, c.inn, T.readAeskey, c.data.leftTlsPacketLength⟩
  unfold cryptoDecryptInput
  rw [hT]
  dsimp only
  rw [hc.tls]
  refine ⟨{ hc with tls := rfl, stream := ⟨_, rfl, ?_⟩ },
    hq, _, rfl, decrypted_fixed (congrArg Prod.fst hidem)⟩
  -- what has been decrypted stays as it is
  rw [stream_of_inQueue_eq_nil T q hq, ctr128DecryptInput_prepend, ← hidem] at hstream
  rw [stream_of_inQueue_eq_nil _ q, ctr128DecryptInput_prepend]
  · exact hstream
  · exact hq

theorem keepsStream_failConnection (c : Conn κ) : KeepsStream c (failConnection c) :=
  by constructor <;> rfl

/-- What the passes of the reader find and leave, once there is a cipher. -/
structure Passing (cfg : DirectConfig κ) (isTls : Bool) (r : InBuf κ × Bool × ℤ) (q : List UInt8)
    (c : Conn κ) : Prop extends Deciphers cfg isTls r q c where
  exhausted : Exhausted cfg isTls c

theorem passing_relayCounted (o : Outside κ) (peer : Option Peer) (sid : ℕ)
    (hc : Passing cfg isTls r q c) : Passing cfg isTls r q (relayCounted cfg o peer sid c) := by
  obtain ⟨T, hT, hstream⟩ := hc.stream
  obtain ⟨inn, failed, stopRead, time, io, relayed, heq, -, hmoves⟩ :=
    relayCounted_eq cfg o peer sid c
  rw [heq]
  refine ⟨{ hc with stream := ⟨T, hT, ?_⟩ }, hc.exhausted⟩
  rw [← hstream]
  simp only [Direct.stream, hmoves]

theorem KeepsStream.passing {c' : Conn κ} (h : KeepsStream c c') (hc : Passing cfg isTls r q c) :
    Passing cfg isTls r q c' :=
  ⟨h.deciphers hc.toDeciphers, h.exhausted hc.exhausted⟩

variable (o : Outside κ) (peer : Option Peer)

theorem passing_clientParseExecute (hc : Passing cfg isTls r q c) :
    Passing cfg isTls r q (tcpDirectClientParseExecute cfg o peer c).1 ∧
      ((tcpDirectClientParseExecute cfg o peer c).2 = 0 ∨
        (tcpDirectClientParseExecute cfg o peer c).2 = needMoreBytes) := by
  unfold tcpDirectClientParseExecute
  cases peer with
  | none =>
    split_ifs
    · have habort : KeepsStream c (abortConnection c) := by constructor <;> rfl
      exact ⟨habort.passing hc, .inl rfl⟩
    · exact ⟨hc, .inr rfl⟩
    · exact ⟨(keepsStream_failConnection c).passing hc, .inl rfl⟩
  | some dc =>
    dsimp only
    split_ifs
    · exact ⟨passing_relayCounted o (some dc) _ hc, .inl rfl⟩
    · exact ⟨hc, .inr rfl⟩

theorem passing_parseExecute (hc : Passing cfg isTls r q c) :
    Passing cfg isTls r q (parseExecute cfg o peer c).1 ∧
      ((parseExecute cfg o peer c).2 = 0 ∨ (parseExecute cfg o peer c).2 = needMoreBytes) := by
  have hdirect := hc.direct
  unfold parseExecute
  cases htype : c.data.type with
  | rpcExtServer => simp [htype, ConnType.isDirect] at hdirect
  | rpcExtServerDrs => simp [htype, ConnType.isDirect] at hdirect
  | directClient => exact passing_clientParseExecute o peer hc
  | directClientDrs => exact passing_clientParseExecute o peer hc
  | directDc =>
    unfold tcpDirectDcParseExecute
    rw [if_neg (not_not.2 (hc.socks5 htype))]
    cases peer with
    | none => exact ⟨(keepsStream_failConnection c).passing hc, .inl rfl⟩
    | some client => exact ⟨passing_relayCounted o (some client) _ hc, .inl rfl⟩

theorem passing_reader (hcipher : StreamCipher cfg.crypt) (o : Outside κ) (peer : Option Peer)
    (hc : Deciphers cfg isTls r q c) :
    Passing cfg isTls r q (reader (connFuncs cfg o peer) c) := by
  obtain ⟨hpop, hqueue⟩ := deciphers_popAll hc
  have hfetch : Passing cfg isTls r q (fetchInput (connFuncs cfg o peer) c).1 := by
    obtain ⟨T, hT, -⟩ := hpop.stream
    obtain ⟨hdecrypted, hleft⟩ := deciphers_cryptoDecryptInput hcipher hpop hqueue
    rw [fetchInput, hT]
    exact ⟨hdecrypted, hleft⟩
  have hskip : (fetchInput (connFuncs cfg o peer) c).1.applySkip =
      (fetchInput (connFuncs cfg o peer) c).1 := by
    simp [ConnInfo.applySkip, hfetch.skipBytes]
  rw [reader_eq]
  dsimp only
  split_ifs
  · exact hfetch
  · exact hfetch
  · rw [hskip]
    refine readerLoop_of_answers (I := Passing cfg isTls r q) (fun _ hx => hx) (fun x hx _ => ?_) _
      hfetch
    obtain ⟨hnext, hanswer⟩ := passing_parseExecute o peer hx
    exact hanswer.imp (fun h => ⟨h, hnext⟩) fun h => ⟨h, hnext⟩

end Reader

theorem keepsStream_writer (cfg : DirectConfig κ) (o : Outside κ) (c : Conn κ) :
    KeepsStream c (writer cfg o c) := by
  unfold writer
  cases hcrypto : c.crypto with
  | none => constructor <;> rfl
  | some T =>
    unfold cryptoEncryptOutput
    split_ifs
    · exact ⟨rfl, rfl, rfl, rfl, rfl, rfl, by rw [hcrypto]; rfl, rfl, rfl, rfl, rfl, rfl⟩
    · exact ⟨rfl, rfl, rfl, rfl, rfl, rfl, by rw [hcrypto]; rfl, rfl, rfl, rfl, rfl, rfl⟩

section Handlers

variable {cfg : DirectConfig κ} {isTls : Bool} {r : InBuf κ × Bool × ℤ} {q : List UInt8}
  {c : Conn κ}

theorem passing_readWrite (hcipher : StreamCipher cfg.crypt) (o : Outside κ) (peer : Option Peer)
    (hc : Deciphers cfg isTls r q c) : Passing cfg isTls r q (readWrite cfg o peer c) :=
  (keepsStream_writer cfg o _).passing (passing_reader hcipher o peer hc)

theorem keepsStream_takeRun (c : Conn κ) : KeepsStream c (takeRun c) :=
  by constructor <;> rfl

theorem deciphers_connRun (hcipher : StreamCipher cfg.crypt) (o : Outside κ) (peer : Option Peer)
    (hc : Deciphers cfg isTls r q c) :
    Deciphers cfg isTls r q (connRun cfg o peer c) ∧
      ((connRun cfg o peer c).failed = false → Exhausted cfg isTls (connRun cfg o peer c)) := by
  have htaken := (keepsStream_takeRun c).deciphers hc
  have hready : (takeRun c).data.readyPending = false := hc.readyPending
  rw [connRun, runConnected, hready, if_neg Bool.false_ne_true]
  split_ifs with hfailed
  · exact ⟨htaken, fun h => absurd (h.symm.trans hfailed) Bool.false_ne_true⟩
  · have hread := passing_readWrite hcipher o peer htaken
    exact ⟨hread.toDeciphers, fun _ => hread.exhausted⟩

theorem keepsStream_jobTimerRemove (c : Conn κ) : KeepsStream c (jobTimerRemove c) :=
  by constructor <;> rfl

theorem keepsStream_endDelay (c : Conn κ) : KeepsStream c (endDelay c) :=
  by constructor <;> rfl

theorem keepsStream_rateLimitResume (c : Conn κ) : KeepsStream c (rateLimitResume c).1 := by
  unfold rateLimitResume
  split_ifs <;> (constructor <;> rfl)

theorem deciphers_connAlarm (hcipher : StreamCipher cfg.crypt) (wakeupTime : ℚ) (o : Outside κ)
    (peer : Option Peer) (hc : Deciphers cfg isTls r q c) :
    Deciphers cfg isTls r q (connAlarm cfg wakeupTime o peer c).1 ∧
      (Exhausted cfg isTls c → Exhausted cfg isTls (connAlarm cfg wakeupTime o peer c).1) := by
  have hkept {c' : Conn κ} (h : KeepsStream c c') : Deciphers cfg isTls r q c' ∧
      (Exhausted cfg isTls c → Exhausted cfg isTls c') := ⟨h.deciphers hc, h.exhausted⟩
  have hremove := keepsStream_jobTimerRemove c
  have hread := passing_readWrite hcipher o peer (hkept (hremove.trans (keepsStream_endDelay _))).1
  exact connAlarm_rule cfg wakeupTime (P := fun x => Deciphers cfg isTls r q x ∧
      (Exhausted cfg isTls c → Exhausted cfg isTls x)) ⟨hc, id⟩ (hkept hremove)
    (fun _ _ => hkept (hremove.trans (keepsStream_rateLimitResume _)))
    fun _ _ => ⟨hread.toDeciphers, fun _ => hread.exhausted⟩

theorem deciphers_socketPush (hcipher : StreamCipher cfg.crypt) (chunk : List UInt8)
    (hc : Deciphers cfg isTls r q c) :
    Deciphers cfg isTls (ctr128DecryptInput cfg.crypt isTls (r.1.feed chunk)) q
      (socketPush chunk c) := by
  obtain ⟨T, hT, hstream⟩ := hc.stream
  refine { hc with stream := ⟨T, hT, ?_⟩ }
  have hfeed : stream T q (socketPush chunk c) = (stream T q c).feed chunk := by
    simp [Direct.stream, socketPush, InBuf.feed]
  rw [hfeed, ← hstream]
  exact ctr128DecryptInput_feed hcipher _ _ _

theorem deciphers_clearOutbox (hc : Deciphers cfg isTls r q c) :
    Deciphers cfg isTls r (q ++ c.data.relayed.flatten) (clearOutbox c) := by
  obtain ⟨T, hT, hstream⟩ := hc.stream
  refine { hc with stream := ⟨T, hT, ?_⟩ }
  rw [← hstream]
  simp [Direct.stream, clearOutbox]

theorem keepsStream_socketRead (chunk : Option (List UInt8)) (hc : Deciphers cfg isTls r q c) :
    KeepsStream c (socketRead chunk c) :=
  ⟨rfl, rfl, rfl, rfl, hc.connected.symm, by simp [socketRead, hc.connected], rfl, rfl, rfl, rfl,
    rfl, rfl⟩

theorem keepsStream_receiveRelayed (raws : List (List UInt8)) (c : Conn κ) :
    KeepsStream c (receiveRelayed raws c) :=
  by constructor <;> rfl

theorem Deciphers.relayed_isPrefix (hc : Deciphers cfg isTls r q c) : q <+: r.1.inn := by
  obtain ⟨T, -, hstream⟩ := hc.stream
  have hinn : q <+: (Direct.stream T q c).inn := List.prefix_append q _
  rw [← hstream]
  exact hinn.trans (prefix_ctr128DecryptInput cfg.crypt _ _)

theorem Deciphers.relayed_eq (hc : Deciphers cfg isTls r q c) (hleft : Exhausted cfg isTls c)
    (hinn : c.inn = []) (hrelayed : c.data.relayed = []) : q = r.1.inn := by
  obtain ⟨T, hT, hstream⟩ := hc.stream
  obtain ⟨hqueue, T', hT', hfixed⟩ := hleft
  cases hT.symm.trans hT'
  rw [stream_of_inQueue_eq_nil T q hqueue, hinn, hrelayed, ctr128DecryptInput_prepend, hfixed]
    at hstream
  rw [← hstream]
  simp [InBuf.prepend]

end Handlers

theorem streamCipher_sampleConfig (directMode : Bool) :
    StreamCipher (sampleConfig directMode).crypt :=
  ⟨fun _ => rfl, fun _ _ _ => rfl⟩

end Mtbolt.Direct
