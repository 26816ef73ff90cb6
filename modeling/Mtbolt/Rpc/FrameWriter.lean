import Mtbolt.Lib.Cbc
import Mtbolt.Rpc.Client

/-!
# The writing end of an RPC connection

Messages for a middle-end are framed by `tcp_rpc_write_packet`: length, number, message, checksum.
`tcp_rpc_flush` pads the output to full blocks with words that hold the number 4
(`net-tcp-rpc-common.c`), and the writer encrypts the full blocks that there are
(`net-tcp-connections.c`).  AES is a block cipher in CBC mode.
-/

namespace Mtbolt.Rpc

open Cbc Net Words List

variable {E : BlockCipher 16} {crc : List UInt8 → BitVec 32} {iv : List UInt8}

/-! ### The functions -/

/-- The output of a connection: `out`, `out_p`, `out_packet_num`, whether one of the flags
`RPC_F_COMPACT` and `RPC_F_MEDIUM` is set, and the write cipher with the block before the next
one. -/
structure RpcOut where
  out : List UInt8
  outP : List UInt8
  outPacketNum : BitVec 32
  compactOrMedium : Bool
  crypto : Option (List UInt8)
  deriving DecidableEq

/-- A packet without its checksum: length, number and message. -/
def packetBody (num : BitVec 32) (raw : List UInt8) : List UInt8 :=
  le32Bytes (BitVec.ofNat 32 (raw.length + 12)) ++ (le32Bytes num ++ raw)

/-- A packet. -/
def framePacket (crc : List UInt8 → BitVec 32) (num : BitVec 32) (raw : List UInt8) : List UInt8 :=
  packetBody num raw ++ le32Bytes (crc (packetBody num raw))

/-- `tcp_rpc_write_packet`; `crc` is the connection's checksum. -/
def tcpRpcWritePacket (crc : List UInt8 → BitVec 32) (w : RpcOut) (raw : List UInt8) : RpcOut :=
  if w.compactOrMedium then w
  else { w with
    out := rwmUnion w.out (framePacket crc w.outPacketNum raw)
    outPacketNum := w.outPacketNum + 1 }

/-- `cpu_tcp_aes_crypto_needed_output_bytes`. -/
def cpuTcpAesCryptoNeededOutputBytes (w : RpcOut) : ℕ := (16 - w.out.length % 16) % 16

/-- `pad_str`. -/
def padStr : List UInt8 := [4, 0, 0, 0, 4, 0, 0, 0, 4, 0, 0, 0]

/-- `tcp_rpc_flush`; `none` when an assertion fails. -/
def tcpRpcFlush (w : RpcOut) : Option RpcOut :=
  if w.crypto.isSome then
    let padBytes := cpuTcpAesCryptoNeededOutputBytes w
    if 0 < padBytes then
      if padBytes % 4 ≠ 0 then none
      else if 12 < padBytes then none
      else some { w with out := w.out ++ padStr.take padBytes }
    else some w
  else some w

/-- `cpu_tcp_aes_crypto_encrypt_output`: the full blocks of `out` go through the cipher. -/
def cpuTcpAesCryptoEncryptOutput (E : BlockCipher 16) (w : RpcOut) : Option RpcOut :=
  w.crypto.map fun last =>
    let l := w.out.length / 16 * 16
    let ct := encrypt E last (w.out.take l)
    { w with out := w.out.drop l, outP := w.outP ++ ct, crypto := some (lastOf 16 last ct) }

/-! ### The stream -/

/-- A part of the stream: a padding word or a packet. -/
inductive Frame
  | filler
  | packet (msg : List UInt8)
  deriving DecidableEq, Repr

def encodeFrame (crc : List UInt8 → BitVec 32) (num : BitVec 32) : Frame → List UInt8
  | .filler => le32Bytes 4#32
  | .packet msg => framePacket crc num msg

/-- The number of the frame after this one. -/
def Frame.next (num : BitVec 32) : Frame → BitVec 32
  | .filler => num
  | .packet _ => num + 1

/-- Frames, numbered from `num` on. -/
def encodeFrames (crc : List UInt8 → BitVec 32) : BitVec 32 → List Frame → List UInt8
  | _, [] => []
  | num, f :: fs => encodeFrame crc num f ++ encodeFrames crc (f.next num) fs

/-- The number after some frames. -/
def nextNum (num : BitVec 32) (fs : List Frame) : BitVec 32 := fs.foldl (fun n f => f.next n) num

def Frame.message : Frame → Option (List UInt8)
  | .filler => none
  | .packet msg => some msg

/-- The messages among some frames. -/
def messages (fs : List Frame) : List (List UInt8) := fs.filterMap Frame.message

theorem encodeFrames_append (num : BitVec 32) (fs fs' : List Frame) :
    encodeFrames crc num (fs ++ fs') =
      encodeFrames crc num fs ++ encodeFrames crc (nextNum num fs) fs' := by
  induction fs generalizing num with
  | nil => rfl
  | cons f fs ih => simp only [cons_append, encodeFrames, ih, append_assoc, nextNum,
      foldl_cons]

variable (num : BitVec 32) (n : ℕ)

theorem nextNum_append (fs fs' : List Frame) :
    nextNum num (fs ++ fs') = nextNum (nextNum num fs) fs' := by
  rw [nextNum, foldl_append]
  rfl

theorem nextNum_eq (fs : List Frame) :
    nextNum num fs = num + BitVec.ofNat 32 (messages fs).length := by
  induction fs generalizing num with
  | nil => simp [nextNum, messages]
  | cons f fs ih =>
    rw [nextNum, foldl_cons, ← nextNum, ih]
    cases f with
    | filler => rfl
    | packet msg =>
      have hcons : messages (.packet msg :: fs) = msg :: messages fs := rfl
      rw [hcons, length_cons, Frame.next, BitVec.add_assoc, Nat.add_comm, BitVec.ofNat_add]
      rfl

theorem length_framePacket (msg : List UInt8) :
    (framePacket crc num msg).length = msg.length + 12 := by
  simp only [framePacket, packetBody, length_append, length_le32Bytes]
  omega

theorem encodeFrames_fillers :
    encodeFrames crc num (replicate n .filler) = (replicate n (le32Bytes 4#32)).flatten := by
  induction n with
  | zero => rfl
  | succ n ih => rw [replicate_succ, encodeFrames, Frame.next, ih, replicate_succ,
      flatten_cons, encodeFrame]

theorem messages_append (fs fs' : List Frame) :
    messages (fs ++ fs') = messages fs ++ messages fs' := filterMap_append

theorem messages_fillers : messages (replicate n .filler) = [] := by
  refine filterMap_eq_nil_iff.2 fun f hf => ?_
  rw [eq_of_mem_replicate hf]
  rfl

/-- All messages have a length that is a multiple of four. -/
def WordSized (msgs : List (List UInt8)) : Prop := ∀ m ∈ msgs, m.length % 4 = 0

theorem length_encodeFrames_mod {num : BitVec 32} {fs : List Frame}
    (h : WordSized (messages fs)) : (encodeFrames crc num fs).length % 4 = 0 := by
  induction fs generalizing num with
  | nil => rfl
  | cons f fs ih =>
    rw [encodeFrames, length_append]
    cases f with
    | filler =>
      have hrest : (encodeFrames crc (Frame.next num .filler) fs).length % 4 = 0 := ih h
      rw [encodeFrame, length_le32Bytes]
      omega
    | packet msg =>
      have hmsg := h msg mem_cons_self
      have hrest : (encodeFrames crc (Frame.next num (.packet msg)) fs).length % 4 = 0 :=
        ih fun m hm => h m (mem_cons_of_mem msg hm)
      rw [encodeFrame, length_framePacket]
      omega

/-! ### Runs -/

/-- The writing end: the connection, and what it has handed to the socket. -/
structure RpcWriter where
  conn : RpcOut
  sent : List UInt8
  deriving DecidableEq

/-- What happens to the writing end: a message is written, the output is flushed or encrypted, the
encrypted part is handed to the socket. -/
inductive FrameEvent
  | write (msg : List UInt8)
  | flush
  | encrypt
  | send
  deriving DecidableEq, Repr

def frameStep (crc : List UInt8 → BitVec 32) (E : BlockCipher 16) (w : RpcWriter) :
    FrameEvent → Option RpcWriter
  | .write msg => some { w with conn := tcpRpcWritePacket crc w.conn msg }
  | .flush => (tcpRpcFlush w.conn).map fun conn => { w with conn := conn }
  | .encrypt => (cpuTcpAesCryptoEncryptOutput E w.conn).map fun conn => { w with conn := conn }
  | .send => some ⟨{ w.conn with outP := [] }, w.sent ++ w.conn.outP⟩

/-- All events. -/
def runFrames (crc : List UInt8 → BitVec 32) (E : BlockCipher 16) (w : RpcWriter)
    (es : List FrameEvent) : Option RpcWriter := EventRun.run (frameStep crc E) w es

/-- The writing end once the cipher is installed, before the packet with the number `start`. -/
def frameStart (iv : List UInt8) (start : BitVec 32) : RpcWriter :=
  ⟨⟨[], [], start, false, some iv⟩, []⟩

/-- The encrypted stream. -/
def RpcWriter.stream (w : RpcWriter) : List UInt8 := w.sent ++ w.conn.outP

def FrameEvent.message : FrameEvent → Option (List UInt8)
  | .write msg => some msg
  | _ => none

/-- The messages written. -/
def written (es : List FrameEvent) : List (List UInt8) := es.filterMap FrameEvent.message

/-- The frames `fs` were written; the bytes `plain` of them, full blocks, are encrypted in the
stream, and the rest is still in `out`.  Without a message there is nothing to pad. -/
structure Framed (crc : List UInt8 → BitVec 32) (E : BlockCipher 16) (iv : List UInt8)
    (start : BitVec 32) (w : RpcWriter) (fs : List Frame) (plain : List UInt8) : Prop where
  split : encodeFrames crc start fs = plain ++ w.conn.out
  blocks : 16 ∣ plain.length
  stream : w.stream = encrypt E iv plain
  num : w.conn.outPacketNum = nextNum start fs
  silent : messages fs = [] → fs = []
  uncompact : w.conn.compactOrMedium = false
  crypto : w.conn.crypto = some (lastOf 16 iv w.stream)

variable {start : BitVec 32} {w : RpcWriter} {fs : List Frame} {plain : List UInt8}

theorem Framed.write (h : Framed crc E iv start w fs plain) (msg : List UInt8) :
    Framed crc E iv start { w with conn := tcpRpcWritePacket crc w.conn msg } (fs ++ [.packet msg])
      plain := by
  have hwrite : tcpRpcWritePacket crc w.conn msg = { w.conn with
      out := w.conn.out ++ framePacket crc w.conn.outPacketNum msg
      outPacketNum := w.conn.outPacketNum + 1 } := by
    rw [tcpRpcWritePacket, if_neg (by rw [h.uncompact]; exact Bool.false_ne_true)]
    rfl
  rw [hwrite]
  refine { h with split := ?_, num := ?_, silent := fun hnil => ?_ }
  · rw [encodeFrames_append, h.split, ← h.num]
    simp [encodeFrames, encodeFrame]
  · rw [nextNum_append, ← h.num]
    rfl
  · rw [messages_append, append_eq_nil_iff] at hnil
    cases hnil.2

theorem padStr_take {n : ℕ} (hn : n ≤ 3) :
    padStr.take (4 * n) = (replicate n (le32Bytes 4#32)).flatten := by
  interval_cases n <;> decide

theorem tcpRpcFlush_eq {conn : RpcOut} (hmod : conn.out.length % 4 = 0)
    (hcrypto : conn.crypto.isSome = true) :
    ∃ n, tcpRpcFlush conn = some { conn with
        out := conn.out ++ (replicate n (le32Bytes 4#32)).flatten } ∧
      n < 4 ∧ (conn.out.length + 4 * n) % 16 = 0 := by
  have hpad : cpuTcpAesCryptoNeededOutputBytes conn = (16 - conn.out.length % 16) % 16 := rfl
  refine ⟨cpuTcpAesCryptoNeededOutputBytes conn / 4, ?_, by omega, by omega⟩
  rw [tcpRpcFlush]
  dsimp only
  split_ifs with hpos hfour htwelve
  · omega
  · omega
  · have hfull : cpuTcpAesCryptoNeededOutputBytes conn =
        4 * (cpuTcpAesCryptoNeededOutputBytes conn / 4) := by omega
    rw [← padStr_take (by omega), ← hfull]
  · have hzero : cpuTcpAesCryptoNeededOutputBytes conn / 4 = 0 := by omega
    rw [hzero]
    simp

section

variable (h : Framed crc E iv start w fs plain)
include h

theorem length_out_mod (hsized : WordSized (messages fs)) : w.conn.out.length % 4 = 0 := by
  have hall : (encodeFrames crc start fs).length % 4 = 0 := length_encodeFrames_mod hsized
  rw [h.split, length_append] at hall
  obtain ⟨m, hm⟩ := h.blocks
  omega

theorem Framed.flush (hsized : WordSized (messages fs)) :
    ∃ conn n, tcpRpcFlush w.conn = some conn ∧
      Framed crc E iv start { w with conn := conn } (fs ++ replicate n .filler) plain ∧
      16 ∣ conn.out.length := by
  obtain ⟨n, hflush, hn, hfull⟩ := tcpRpcFlush_eq (length_out_mod h hsized) (by rw [h.crypto]; rfl)
  refine ⟨_, n, hflush, { h with split := ?_, num := ?_, silent := fun hnil => ?_ }, ?_⟩
  · rw [encodeFrames_append, h.split, encodeFrames_fillers, append_assoc]
  · rw [nextNum_append, ← h.num, nextNum_eq, messages_fillers]
    simp
  · rw [messages_append, append_eq_nil_iff] at hnil
    have hfs := h.silent hnil.1
    have hsplit := h.split
    rw [hfs] at hsplit
    rw [(append_eq_nil_iff.1 hsplit.symm).2, length_nil] at hfull
    have hzero : n = 0 := by omega
    rw [hfs, hzero]
    rfl
  · refine Nat.dvd_of_mod_eq_zero ?_
    simpa [Nat.mul_comm] using hfull

theorem Framed.encrypt (hiv : iv.length = 16) :
    ∃ conn, cpuTcpAesCryptoEncryptOutput E w.conn = some conn ∧
      Framed crc E iv start { w with conn := conn } fs
        (plain ++ w.conn.out.take (w.conn.out.length / 16 * 16)) ∧
      conn.out = w.conn.out.drop (w.conn.out.length / 16 * 16) := by
  have hlen : (w.conn.out.take (w.conn.out.length / 16 * 16)).length =
      w.conn.out.length / 16 * 16 := by
    rw [length_take]
    omega
  have hdvd : 16 ∣ (w.conn.out.take (w.conn.out.length / 16 * 16)).length := by
    rw [hlen]
    exact Nat.dvd_mul_left 16 _
  have hct : Cbc.encrypt E iv (plain ++ w.conn.out.take (w.conn.out.length / 16 * 16)) =
      w.stream ++ Cbc.encrypt E (lastOf 16 iv w.stream)
        (w.conn.out.take (w.conn.out.length / 16 * 16)) := by
    rw [encrypt_append E (by decide) hiv h.blocks, ← h.stream]
  have hchain : (lastOf 16 iv w.stream).length = 16 := by
    refine length_lastOf hiv fun hne => ?_
    have hs := length_encrypt E hiv h.blocks
    rw [← h.stream] at hs
    have hpos := length_pos_of_ne_nil hne
    have := Nat.le_of_dvd (by omega) (hs ▸ h.blocks)
    exact this
  have hmore := length_encrypt E hchain hdvd
  refine ⟨{ w.conn with
    out := w.conn.out.drop (w.conn.out.length / 16 * 16)
    outP := w.conn.outP ++ Cbc.encrypt E (lastOf 16 iv w.stream)
      (w.conn.out.take (w.conn.out.length / 16 * 16))
    crypto := some (lastOf 16 (lastOf 16 iv w.stream) (Cbc.encrypt E (lastOf 16 iv w.stream)
      (w.conn.out.take (w.conn.out.length / 16 * 16)))) },
    by rw [cpuTcpAesCryptoEncryptOutput, h.crypto]; rfl,
    ⟨?_, ?_, ?_, h.num, h.silent, h.uncompact, ?_⟩, rfl⟩
  · rw [h.split, append_assoc, take_append_drop]
  · rw [length_append]
    exact dvd_add h.blocks hdvd
  · rw [hct]
    exact (append_assoc ..).symm
  · refine congrArg some ?_
    rw [← lastOf_append fun hne => ?_]
    · exact congrArg (lastOf 16 iv) (append_assoc ..)
    · rw [hmore]
      exact Nat.le_of_dvd (hmore ▸ length_pos_of_ne_nil hne) hdvd

theorem Framed.send :
    Framed crc E iv start ⟨{ w.conn with outP := [] }, w.sent ++ w.conn.outP⟩ fs plain := by
  have hstream : RpcWriter.stream ⟨{ w.conn with outP := [] }, w.sent ++ w.conn.outP⟩ = w.stream :=
    append_nil _
  exact { h with stream := hstream ▸ h.stream, crypto := hstream ▸ h.crypto }

end

theorem framed_frameStep (hiv : iv.length = 16) (h : Framed crc E iv start w fs plain)
    (hsized : WordSized (messages fs)) (e : FrameEvent) :
    ∃ w' fs' plain', frameStep crc E w e = some w' ∧ Framed crc E iv start w' fs' plain' ∧
      messages fs' = messages fs ++ written [e] := by
  cases e with
  | write msg =>
    refine ⟨_, _, plain, rfl, h.write msg, ?_⟩
    rw [messages_append]
    rfl
  | flush =>
    obtain ⟨conn, n, hflush, hframed, -⟩ := h.flush hsized
    refine ⟨_, _, plain, by rw [frameStep, hflush]; rfl, hframed, ?_⟩
    rw [messages_append, messages_fillers]
    rfl
  | encrypt =>
    obtain ⟨conn, hencrypt, hframed, -⟩ := h.encrypt hiv
    exact ⟨_, fs, _, by rw [frameStep, hencrypt]; rfl, hframed, (append_nil _).symm⟩
  | send => exact ⟨_, fs, plain, rfl, h.send, (append_nil _).symm⟩

theorem framed_runFrames (hiv : iv.length = 16) {es : List FrameEvent}
    (hsized : WordSized (written es)) :
    ∃ w fs plain, runFrames crc E (frameStart iv start) es = some w ∧
      Framed crc E iv start w fs plain ∧ messages fs = written es := by
  induction es using reverseRecOn with
  | nil =>
    exact ⟨_, [], [], rfl, ⟨rfl, dvd_zero 16, rfl, rfl, fun _ => rfl, rfl, rfl⟩, rfl⟩
  | append_singleton es e ih =>
    have hsplit : written (es ++ [e]) = written es ++ written [e] := filterMap_append
    rw [hsplit] at hsized ⊢
    obtain ⟨w, fs, plain, hrun, hframed, hmessages⟩ :=
      ih fun m hm => hsized m (mem_append_left _ hm)
    obtain ⟨w', fs', plain', hstep, hframed', hmessages'⟩ := framed_frameStep hiv hframed
      (hmessages ▸ fun m hm => hsized m (mem_append_left _ hm)) e
    refine ⟨w', fs', plain', ?_, hframed', hmessages' ▸ hmessages ▸ rfl⟩
    rw [runFrames, EventRun.run_append, ← runFrames, hrun]
    simpa [EventRun.run] using hstep

theorem out_of_flushed (crc : List UInt8 → BitVec 32) (E : BlockCipher 16) (start : BitVec 32)
    (hiv : iv.length = 16) {es : List FrameEvent} (hsized : WordSized (written es)) :
    ∃ w fs plain, runFrames crc E (frameStart iv start) (es ++ [.flush, .encrypt]) = some w ∧
      Framed crc E iv start w fs plain ∧ messages fs = written es ∧ w.conn.out = [] := by
  obtain ⟨w, fs, plain, hrun, hframed, hmessages⟩ := framed_runFrames hiv hsized
  obtain ⟨conn₁, n, hflush, hframed₁, hfull⟩ := hframed.flush (hmessages ▸ hsized)
  obtain ⟨conn₂, hencrypt, hframed₂, hout⟩ := hframed₁.encrypt hiv
  refine ⟨_, _, _, ?_, hframed₂, ?_, ?_⟩
  · rw [runFrames, EventRun.run_append, ← runFrames, hrun]
    simp [EventRun.run, frameStep, hflush, hencrypt]
  · rw [messages_append, messages_fillers, append_nil, hmessages]
  · rw [hout, Nat.div_mul_cancel hfull, drop_length]

end Mtbolt.Rpc
