import Mtbolt.Rpc.FrameWriter

/-!
# RPC packets from one end to the other

The reading end deciphers the full blocks it has received, and `tcp_rpcc_parse_execute` takes the
packets out of them.  A read need not end with a block, nor a block with a packet: what is left of
a packet stays in the buffer, and `skip_bytes` holds the parser back until the packet is complete.
-/

namespace Mtbolt.Rpc

open Cbc EventRun Net Words Function List

variable {κ : Type} {env : RpcEnv κ} {keys : κ} {crc : List UInt8 → BitVec 32}

/-! ### Frames in the buffer -/

/-- Bytes that came out of the cipher. -/
def deciphered (keys : κ) (bytes : List UInt8) : List (Byte κ) := bytes.map fun b => ⟨b, some keys⟩

/-- Bytes as they are received. -/
def clearBytes (bytes : List UInt8) : List (Byte κ) := bytes.map fun b => ⟨b, none⟩

@[simp] theorem vals_deciphered (bytes : List UInt8) : vals (deciphered keys bytes) = bytes := by
  simp [vals, deciphered, comp_def]

@[simp] theorem vals_clearBytes (bytes : List UInt8) :
    vals (clearBytes bytes : List (Byte κ)) = bytes := by
  simp [vals, clearBytes, comp_def]

@[simp] theorem length_deciphered (bytes : List UInt8) :
    (deciphered keys bytes).length = bytes.length := length_map _

@[simp] theorem length_clearBytes (bytes : List UInt8) :
    (clearBytes bytes : List (Byte κ)).length = bytes.length := length_map _

theorem deciphered_append (a b : List UInt8) :
    deciphered keys (a ++ b) = deciphered keys a ++ deciphered keys b := map_append

theorem clearBytes_append (a b : List UInt8) :
    (clearBytes (a ++ b) : List (Byte κ)) = clearBytes a ++ clearBytes b := map_append

/-- A message that the reading end takes: a word or more, its packet neither longer than a signed
length nor than the limit of the connection's type, if there is one; handling it does not fail the
connection. -/
structure Deliverable (env : RpcEnv κ) (msg : List UInt8) : Prop where
  wordSized : msg.length % 4 = 0
  nonempty : 4 ≤ msg.length
  signed : msg.length + 12 < 2 ^ 31
  allowed : 0 < env.maxPacketLen → (msg.length : ℤ) + 12 ≤ env.maxPacketLen
  executed : env.execute (word msg 0) msg = false

/-- A frame that the reading end takes. -/
def FrameOk (env : RpcEnv κ) : Frame → Prop
  | .filler => 0 < env.maxPacketLen → 4 ≤ env.maxPacketLen
  | .packet msg => Deliverable env msg

/-- Frames that the reading end takes, numbered from `num` on. -/
structure Receivable (env : RpcEnv κ) (num : BitVec 32) (fs : List Frame) : Prop where
  frames : ∀ f ∈ fs, FrameOk env f
  numbers : num.toNat + (messages fs).length ≤ 2 ^ 31

variable {num : BitVec 32} {fs : List Frame}

theorem Receivable.wordSized (h : Receivable env num fs) : WordSized (messages fs) := by
  intro m hm
  obtain ⟨f, hf, hmsg⟩ := mem_filterMap.1 hm
  have hok := h.frames f hf
  cases f with
  | filler => cases hmsg
  | packet msg =>
    cases hmsg
    exact Deliverable.wordSized hok

variable {fs' rest : List Frame} {tail : List UInt8} {queue : List (List UInt8)} {ds : List RpcEvent}

theorem Receivable.append_left (h : Receivable env num (fs ++ fs')) : Receivable env num fs := by
  refine ⟨fun f hf => h.frames f (mem_append_left fs' hf), ?_⟩
  have hnum := h.numbers
  rw [messages_append, length_append] at hnum
  omega

theorem Receivable.append_right (h : Receivable env num (fs ++ fs')) :
    Receivable env (nextNum num fs) fs' := by
  refine ⟨fun f hf => h.frames f (mem_append_right fs hf), ?_⟩
  have hnum := h.numbers
  rw [messages_append, length_append] at hnum
  rw [nextNum_eq, BitVec.toNat_add, BitVec.toNat_ofNat]
  omega

def Frame.size : Frame → ℕ
  | .filler => 4
  | .packet msg => msg.length + 12

theorem length_encodeFrame (num : BitVec 32) (f : Frame) :
    (encodeFrame crc num f).length = f.size := by
  cases f with
  | filler => rfl
  | packet msg => exact length_framePacket num msg

theorem Frame.size_pos (f : Frame) : 0 < f.size := by
  cases f with
  | filler => exact Nat.zero_lt_succ 3
  | packet msg => exact Nat.succ_pos _

variable {f : Frame}

theorem FrameOk.size_mod (h : FrameOk env f) : f.size % 4 = 0 := by
  cases f with
  | filler => rfl
  | packet msg =>
    have := Deliverable.wordSized h
    rw [Frame.size]
    omega

/-! ### One pass -/

variable {c : RpcConn κ}

variable {bytes more msg pending later out : List UInt8}

theorem word_of_head {w : BitVec 32} (hinn : c.inn = deciphered keys (le32Bytes w ++ bytes)) :
    word (vals c.inn) 0 = w := by
  rw [hinn, vals_deciphered, word, drop_zero, le32_le32Bytes_append]

theorem rpccPass_filler (hmax : 0 < env.maxPacketLen → 4 ≤ env.maxPacketLen)
    (hinn : c.inn = deciphered keys (le32Bytes 4#32 ++ more)) :
    rpccPass env c = .again { c with inn := deciphered keys more } := by
  have hlen : c.inn.length = 4 + more.length := by
    rw [hinn, length_deciphered, length_append, length_le32Bytes]
  have hdrop : c.inn.drop 4 = deciphered keys more := by
    rw [hinn, deciphered_append]
    exact drop_left' (length_deciphered _)
  have hfour : (4#32).toInt = 4 := by decide
  unfold rpccPass
  rw [word_of_head hinn, hfour, if_neg (by omega), if_neg (by omega), if_neg, if_pos rfl,
    rwmSkipData, hdrop]
  rintro (hle | hlow | hlong)
  · omega
  · exact hlow (by decide)
  · omega

theorem toInt_size (h : Deliverable env msg) :
    (BitVec.ofNat 32 (msg.length + 12)).toInt = msg.length + 12 := by
  have hlt := h.signed
  have hnat : (BitVec.ofNat 32 (msg.length + 12)).toNat = msg.length + 12 := by
    rw [BitVec.toNat_ofNat]
    omega
  rw [BitVec.toInt_eq_toNat_of_lt (by omega), hnat]
  rfl

theorem length_accepted (h : Deliverable env msg) :
    ¬ ((msg.length : ℤ) + 12 ≤ 0 ∨ BitVec.ofNat 32 (msg.length + 12) &&& 3 ≠ 0 ∨
      ((msg.length : ℤ) + 12 > env.maxPacketLen ∧ env.maxPacketLen > 0)) := by
  rintro (hle | hlow | hlong)
  · omega
  · refine hlow ((and_three_eq_zero_iff _).2 ?_)
    have := h.wordSized
    rw [BitVec.toNat_ofNat]
    omega
  · have := h.allowed hlong.2
    omega

theorem rpccPass_part (h : Deliverable env msg)
    (hinn : c.inn = deciphered keys (le32Bytes (BitVec.ofNat 32 (msg.length + 12)) ++ bytes))
    (hlt : c.inn.length < msg.length + 12) :
    rpccPass env c = .stop c (msg.length + 12 - c.inn.length) := by
  have hlen : c.inn.length = 4 + bytes.length := by
    rw [hinn, length_deciphered, length_append, length_le32Bytes]
  have := h.nonempty
  unfold rpccPass
  rw [word_of_head hinn, toInt_size h, if_neg (by omega), if_neg (by omega),
    if_neg (length_accepted h), if_neg (by omega), if_neg (by omega), if_pos (by omega)]

theorem rwmFetchDataBack_framePacket (num : BitVec 32) (msg : List UInt8) :
    rwmFetchDataBack (framePacket crc num msg) 4 =
      (le32Bytes (crc (packetBody num msg)), packetBody num msg) := by
  have hlen : (framePacket crc num msg).length - 4 = (packetBody num msg).length := by
    rw [framePacket, length_append, length_le32Bytes, Nat.add_sub_cancel]
  rw [rwmFetchDataBack, hlen, framePacket, drop_left, take_left]

theorem word_packetBody (num : BitVec 32) (msg : List UInt8) :
    word (packetBody num msg) 4 = num := by
  rw [word, packetBody, drop_left' (length_le32Bytes _), le32_le32Bytes_append]

theorem drop_packetBody (num : BitVec 32) (msg : List UInt8) :
    (packetBody num msg).drop 8 = msg := by
  rw [packetBody, ← append_assoc]
  exact drop_left' rfl

theorem word_le32Bytes (w : BitVec 32) : word (le32Bytes w) 0 = w := by
  have h := le32_le32Bytes_append w []
  rwa [append_nil] at h

theorem rpccPass_packet (h : Deliverable env msg) (hnum : c.data.inPacketNum.toNat < 2 ^ 31)
    (hinn : c.inn = deciphered keys (framePacket
      (env.crc c.data.customCrc32c) c.data.inPacketNum msg ++ more)) :
    rpccPass env c = .again (countPacket { c with inn := deciphered keys more }
      ⟨c.data.inPacketNum,
        deciphered keys (framePacket (env.crc c.data.customCrc32c) c.data.inPacketNum msg)⟩) := by
  obtain ⟨crc, hcrc⟩ : ∃ crc, crc = env.crc c.data.customCrc32c := ⟨_, rfl⟩
  rw [← hcrc] at hinn ⊢
  have hframe : (deciphered keys (framePacket crc c.data.inPacketNum msg)).length =
      msg.length + 12 := by
    rw [length_deciphered, length_framePacket]
  have hlen : c.inn.length = msg.length + 12 + more.length := by
    rw [hinn, deciphered_append, length_append, hframe, length_deciphered]
  have hhead : word (vals c.inn) 0 = BitVec.ofNat 32 (msg.length + 12) := by
    exact word_of_head hinn
  have hsplit : rwmSplitHead c.inn (msg.length + 12) =
      (deciphered keys (framePacket crc c.data.inPacketNum msg), deciphered keys more) := by
    rw [rwmSplitHead, hinn, deciphered_append, take_left' hframe, drop_left' hframe]
  have hnat : ((msg.length : ℤ) + 12).toNat = msg.length + 12 := by omega
  have hpos : ¬ c.data.inPacketNum.toInt < 0 := by
    rw [BitVec.toInt_eq_toNat_of_lt (by omega)]
    omega
  have := h.nonempty
  unfold rpccPass
  rw [hhead, toInt_size h, if_neg (by omega), if_neg (by omega), if_neg (length_accepted h),
    if_neg (by omega), if_neg (by omega), if_neg (by omega), hnat, hsplit]
  dsimp only
  rw [vals_deciphered, rwmFetchDataBack_framePacket]
  rw [word_le32Bytes, hcrc, if_neg (not_not.2 rfl), word_packetBody, if_neg (not_not.2 rfl),
    drop_packetBody, handlePacket, if_neg hpos]
  dsimp only
  rw [h.executed, if_neg Bool.false_ne_true]

/-! ### The parsing loop -/

/-- The packets among some frames, as the connection logs them. -/
def framePackets (crc : List UInt8 → BitVec 32) (keys : κ) :
    BitVec 32 → List Frame → List (Packet κ)
  | _, [] => []
  | num, .filler :: fs => framePackets crc keys num fs
  | num, .packet msg :: fs =>
    ⟨num, deciphered keys (framePacket crc num msg)⟩ :: framePackets crc keys (num + 1) fs

theorem framePackets_append (num : BitVec 32) (fs fs' : List Frame) :
    framePackets crc keys num (fs ++ fs') =
      framePackets crc keys num fs ++ framePackets crc keys (nextNum num fs) fs' := by
  induction fs generalizing num with
  | nil => rfl
  | cons f fs ih =>
    cases f with
    | filler => exact ih num
    | packet msg => exact congrArg _ (ih (num + 1))

/-- The connection `c` after the frames `done`, with `tail` left in the buffer. -/
def deliver (crc : List UInt8 → BitVec 32) (keys : κ) (c : RpcConn κ) (done : List Frame)
    (tail : List UInt8) : RpcConn κ :=
  { c with
    inn := deciphered keys tail
    data := { c.data with
      inPacketNum := nextNum c.data.inPacketNum done
      handled := c.data.handled ++ framePackets crc keys c.data.inPacketNum done } }

theorem deliver_deliver (c : RpcConn κ) (done done' : List Frame) (tail tail' : List UInt8) :
    deliver crc keys (deliver crc keys c done tail) done' tail' =
      deliver crc keys c (done ++ done') tail' := by
  simp only [deliver, nextNum_append, framePackets_append, append_assoc]

theorem deliver_nil (hinn : c.inn = deciphered keys tail) : deliver crc keys c [] tail = c := by
  simp only [deliver, framePackets, append_nil, ← hinn]
  rfl

/-- The length of the packet that the parser waits for, when `tail` is left and `rest` is still to
come. -/
def awaited : List Frame → List UInt8 → ℕ
  | f :: _, _ :: _ => f.size
  | _, _ => 0

theorem awaited_lt (h : Receivable env num rest) (tail : List UInt8) :
    awaited rest tail < 2 ^ 31 := by
  unfold awaited
  split
  · next f _ _ _ =>
    have hf := h.frames f mem_cons_self
    cases f with
    | filler => exact Nat.lt_of_sub_pos (by decide)
    | packet msg => exact Deliverable.signed hf
  · exact Nat.two_pow_pos 31

@[simp] theorem awaited_nil (rest : List Frame) : awaited rest [] = 0 := by
  cases rest <;> rfl

/-- The bytes `pending` are the frames `done` and a part `tail` of the next one. -/
structure Taken (crc : List UInt8 → BitVec 32) (num : BitVec 32) (fs : List Frame)
    (pending : List UInt8) (done rest : List Frame) (tail : List UInt8) : Prop where
  frames : fs = done ++ rest
  bytes : pending = encodeFrames crc num done ++ tail
  part : tail ≠ [] → tail.length < awaited rest tail

theorem awaited_append (htail : tail ≠ []) (rest : List Frame)
    (more : List UInt8) : awaited rest (tail ++ more) = awaited rest tail := by
  obtain ⟨b, bs, rfl⟩ := exists_cons_of_ne_nil htail
  cases rest <;> rfl

theorem Taken.append {done done' rest' : List Frame} {tail' : List UInt8}
    (h : Taken crc num fs pending done rest tail)
    (h' : Taken crc (nextNum num done) rest (tail ++ more) done' rest' tail') :
    Taken crc num fs (pending ++ more) (done ++ done') rest' tail' where
  frames := by rw [h.frames, h'.frames, append_assoc]
  bytes := by
    rw [h.bytes, append_assoc, h'.bytes, encodeFrames_append, append_assoc]
  part := h'.part

theorem Taken.cons {done : List Frame}
    (h : Taken crc (f.next num) fs pending done rest tail) :
    Taken crc num (f :: fs) (encodeFrame crc num f ++ pending) (f :: done) rest tail where
  frames := congrArg _ h.frames
  bytes := by rw [h.bytes, encodeFrames, append_assoc]
  part := h.part

theorem Taken.complete {done : List Frame}
    (h : Taken crc num fs (encodeFrames crc num fs) done rest tail) : done = fs ∧ tail = [] := by
  have hbytes := h.bytes
  rw [h.frames, encodeFrames_append] at hbytes
  have htail := append_cancel_left hbytes
  cases rest with
  | nil => exact ⟨by rw [h.frames, append_nil], htail.symm⟩
  | cons f rest =>
    have hlen := congrArg length htail
    rw [encodeFrames, length_append, length_encodeFrame] at hlen
    have hpos := f.size_pos
    obtain ⟨b, bs, rfl⟩ := exists_cons_of_length_pos (by omega : 0 < tail.length)
    have hlt : (b :: bs).length < f.size := h.part (cons_ne_nil b bs)
    omega

theorem rpccPass_frame (hcrc : crc = env.crc c.data.customCrc32c)
    (hfs : Receivable env c.data.inPacketNum (f :: fs))
    (hinn : c.inn = deciphered keys (encodeFrame crc c.data.inPacketNum f ++ more)) :
    rpccPass env c = .again (deliver crc keys c [f] more) := by
  have hf := hfs.frames f mem_cons_self
  cases f with
  | filler =>
    rw [rpccPass_filler hf hinn]
    simp only [deliver, framePackets, append_nil]
    rfl
  | packet msg =>
    have hnum := hfs.numbers
    have hcons : messages (.packet msg :: fs) = msg :: messages fs := rfl
    rw [hcons, length_cons] at hnum
    subst hcrc
    rw [rpccPass_packet hf (by omega) hinn]
    rfl

theorem rpccPass_partial (hf : FrameOk env f)
    (hframe : encodeFrame crc num f = tail ++ later) (hinn : c.inn = deciphered keys tail)
    (hfour : 4 ≤ tail.length) (hlt : tail.length < f.size) :
    rpccPass env c = .stop c (f.size - tail.length) := by
  cases f with
  | filler =>
    rw [Frame.size] at hlt
    omega
  | packet msg =>
    rw [Frame.size] at hlt ⊢
    have hhead : le32Bytes (BitVec.ofNat 32 (msg.length + 12)) <+:
        encodeFrame crc num (.packet msg) := by
      exact prefix_append _ _
    obtain ⟨bytes, hbytes⟩ := prefix_of_prefix_length_le hhead ⟨later, hframe.symm⟩ hfour
    rw [← hbytes] at hinn
    have hlen : c.inn.length = tail.length := by rw [hinn, hbytes, length_deciphered]
    rw [rpccPass_part hf hinn (by omega), hlen]
    rfl

theorem parseLoop_frames (hcrc : crc = env.crc c.data.customCrc32c)
    (hfs : Receivable env c.data.inPacketNum fs)
    (hstream : encodeFrames crc c.data.inPacketNum fs = pending ++ later)
    (hmod : pending.length % 4 = 0) (hinn : c.inn = deciphered keys pending) {fuel : ℕ}
    (hfuel : pending.length < fuel) :
    ∃ done rest tail, Taken crc c.data.inPacketNum fs pending done rest tail ∧
      parseLoop env fuel c =
        (deliver crc keys c done tail, (awaited rest tail : ℤ) - tail.length) := by
  induction fs generalizing c pending fuel with
  | nil =>
    obtain ⟨fuel, rfl⟩ : ∃ n, fuel = n + 1 := ⟨fuel - 1, by omega⟩
    have hnil := (append_eq_nil_iff.1 hstream.symm).1
    refine ⟨[], [], [], ⟨rfl, hnil, fun h => absurd rfl h⟩, ?_⟩
    rw [hnil] at hinn
    rw [parseLoop, rpccPass, hinn, deliver_nil hinn]
    rfl
  | cons f fs ih =>
    obtain ⟨fuel, rfl⟩ : ∃ n, fuel = n + 1 := ⟨fuel - 1, by omega⟩
    by_cases hnil : pending = []
    · refine ⟨[], f :: fs, [], ⟨rfl, hnil, fun h => absurd rfl h⟩, ?_⟩
      rw [hnil] at hinn
      rw [parseLoop, rpccPass, hinn, deliver_nil hinn]
      rfl
    · have hpos := length_pos_of_ne_nil hnil
      have hsize : (encodeFrame crc c.data.inPacketNum f).length = f.size := length_encodeFrame _ f
      rcases Nat.lt_or_ge pending.length f.size with hlt | hge
      · -- the first frame is not complete
        obtain ⟨later', hframe⟩ := prefix_of_prefix_length_le ⟨later, hstream.symm⟩
          (prefix_append _ _) (by omega : pending.length ≤ _)
        have hpass := rpccPass_partial (hfs.frames f mem_cons_self) hframe.symm hinn (by omega) hlt
        have hawaited : awaited (f :: fs) pending = f.size := by
          obtain ⟨b, bs, rfl⟩ := exists_cons_of_ne_nil hnil
          rfl
        refine ⟨[], f :: fs, pending, ⟨rfl, rfl, fun _ => hawaited ▸ hlt⟩, ?_⟩
        rw [parseLoop, hpass, deliver_nil hinn, hawaited]
      · obtain ⟨more, rfl⟩ := prefix_of_prefix_length_le (prefix_append _ _)
          ⟨later, hstream.symm⟩ (by omega : (encodeFrame crc c.data.inPacketNum f).length ≤ _)
        rw [append_assoc] at hstream
        rw [length_append] at hmod hfuel
        have hfour := (hfs.frames f mem_cons_self).size_mod
        have hsizePos := f.size_pos
        have hrest : Receivable env (nextNum c.data.inPacketNum [f]) fs := hfs.append_right
        have hfuel' : more.length < fuel := by omega
        obtain ⟨done, rest, tail, htaken, hloop⟩ := ih (c := deliver crc keys c [f] more) hcrc hrest
          (append_cancel_left hstream) (by omega) rfl hfuel'
        refine ⟨f :: done, rest, tail, htaken.cons, ?_⟩
        rw [parseLoop, rpccPass_frame hcrc hfs hinn]
        rw [deliver_deliver] at hloop
        exact hloop

/-! ### Reads -/

/-- The block before the next one, when `last` is what the connection holds. -/
def chainBlock (iv last : List UInt8) : List UInt8 := if last = [] then iv else last

theorem chainBlock_lastOf {iv last ct : List UInt8} (hct : 16 ∣ ct.length) :
    chainBlock iv (lastOf 16 last ct) = lastOf 16 (chainBlock iv last) ct := by
  by_cases hnil : ct = []
  · rw [hnil, lastOf_nil, lastOf_nil]
  · have hpos := length_pos_of_ne_nil hnil
    have hne : ct.drop (ct.length - 16) ≠ [] := by
      refine ne_nil_of_length_pos ?_
      rw [length_drop]
      omega
    rw [lastOf, if_neg hnil, chainBlock, if_neg hne, lastOf, if_neg hnil]

/-- The read cipher of a connection is the block cipher, chained from `iv` on. -/
def Deciphers (env : RpcEnv κ) (keys : κ) (E : BlockCipher 16) (iv : List UInt8) : Prop :=
  ∀ last ct, env.aesCbcDecrypt keys last ct = decrypt E (chainBlock iv last) ct

/-- A connection with a cipher that has handled all it received. -/
structure Idle (keys : κ) (c : RpcConn κ) : Prop where
  inQueue : c.inQueue = []
  inU : c.inU = []
  inn : c.inn = []
  crypto : c.crypto = some keys
  skipBytes : c.skipBytes = 0
  failed : c.failed = false
  stopRead : c.stopRead = false

/-- The number of bytes in full blocks. -/
def fullBlocks (received : List UInt8) : ℕ := received.length / 16 * 16

theorem fullBlocks_le (received : List UInt8) : fullBlocks received ≤ received.length :=
  Nat.div_mul_le_self _ _

theorem length_take_fullBlocks (received : List UInt8) :
    (received.take (fullBlocks received)).length = fullBlocks received := by
  rw [length_take, min_eq_left (fullBlocks_le received)]

theorem dvd_length_take_fullBlocks (received : List UInt8) :
    16 ∣ (received.take (fullBlocks received)).length := by
  rw [length_take_fullBlocks]
  exact Nat.dvd_mul_left 16 _

/-- The connection `c` after `received`: the frames `done` were handled, `tail` is left of the full
blocks, and `skip_bytes` is `skip`. -/
def inputState (crc : List UInt8 → BitVec 32) (keys : κ) (c : RpcConn κ) (received : List UInt8)
    (done : List Frame) (tail : List UInt8) (skip : ℕ) : RpcConn κ :=
  { deliver crc keys c done tail with
    inU := clearBytes (received.drop (fullBlocks received))
    skipBytes := skip
    data := { (deliver crc keys c done tail).data with
      lastBlock := lastOf 16 c.data.lastBlock (received.take (fullBlocks received)) } }

theorem fullBlocks_append (received raw : List UInt8) :
    fullBlocks (received ++ raw) = fullBlocks received +
      ((received ++ raw).drop (fullBlocks received)).length / 16 * 16 := by
  rw [length_drop, fullBlocks, fullBlocks, length_append]
  omega

variable {E : BlockCipher 16} {iv plain received : List UInt8} {done rest : List Frame}
  {tail : List UInt8}

theorem popAll_inputState (hidle : Idle keys c) (queue : List (List UInt8)) (skip : ℕ) :
    ConnInfo.popAll { inputState crc keys c received done tail skip with
        inQueue := queue.map clearBytes } =
      { inputState crc keys c received done tail skip with
        inU := clearBytes ((received ++ queue.flatten).drop (fullBlocks received)) } := by
  have hflat : (queue.map clearBytes).flatten = (clearBytes queue.flatten : List (Byte κ)) := by
    rw [clearBytes, map_flatten]
    rfl
  rw [ConnInfo.popAll, if_pos (by rw [inputState, deliver, hidle.crypto]; rfl)]
  rw [hflat, drop_append_of_le_length (fullBlocks_le received), clearBytes_append]
  simp only [inputState, deliver, hidle.inQueue, rwmUnion]

theorem cpuTcpAesCryptoDecryptInput_eq (env : RpcEnv κ) (hcrypto : c.crypto = some keys)
    (hinU : c.inU = clearBytes bytes) :
    ∃ res, 0 ≤ res ∧ cpuTcpAesCryptoDecryptInput env c = ({ c with
      inU := clearBytes (bytes.drop (fullBlocks bytes))
      inn := c.inn ++ deciphered keys
        (env.aesCbcDecrypt keys c.data.lastBlock (bytes.take (fullBlocks bytes)))
      data := { c.data with
        lastBlock := lastOf 16 c.data.lastBlock (bytes.take (fullBlocks bytes)) } }, res) := by
  have hlen : c.inU.length / 16 * 16 = fullBlocks bytes := by
    rw [hinU, length_clearBytes, fullBlocks]
  have htake : vals (c.inU.take (fullBlocks bytes)) = bytes.take (fullBlocks bytes) := by
    rw [hinU, clearBytes, ← map_take]
    exact vals_clearBytes _
  have hlast : (if fullBlocks bytes = 0 then c.data.lastBlock
      else (bytes.take (fullBlocks bytes)).drop (fullBlocks bytes - 16)) =
      lastOf 16 c.data.lastBlock (bytes.take (fullBlocks bytes)) := by
    have hsize := length_take_fullBlocks bytes
    have hzero : bytes.take (fullBlocks bytes) = [] ↔ fullBlocks bytes = 0 := by
      rw [← length_eq_zero_iff, hsize]
    rw [lastOf, hsize]
    exact (if_congr hzero rfl rfl).symm
  refine ⟨(16 - ((bytes.drop (fullBlocks bytes)).length : ℤ)) % 16,
    Int.emod_nonneg _ (by decide), ?_⟩
  unfold cpuTcpAesCryptoDecryptInput
  rw [hcrypto]
  dsimp only
  rw [hlen, htake, hlast, hinU, clearBytes, ← map_drop, length_map]
  rfl

theorem fetchInput_inputState (hcipher : Deciphers env keys E iv) (hidle : Idle keys c)
    (hiv : (chainBlock iv c.data.lastBlock).length = 16) (hplain : 16 ∣ plain.length)
    (hpre : received ++ queue.flatten <+: encrypt E (chainBlock iv c.data.lastBlock) plain)
    (crc : List UInt8 → BitVec 32) (done : List Frame) (tail : List UInt8) (skip : ℕ) :
    ∃ more res, fetchInput (ctTcpRpcClient env)
          { inputState crc keys c received done tail skip with
            inQueue := queue.map clearBytes } =
        (inputState crc keys c (received ++ queue.flatten) done (tail ++ more) skip, res) ∧
      0 ≤ res ∧ plain.take (fullBlocks (received ++ queue.flatten)) =
        plain.take (fullBlocks received) ++ more := by
  obtain ⟨all, hall⟩ : ∃ all, all = received ++ queue.flatten := ⟨_, rfl⟩
  have hsum := fullBlocks_append received queue.flatten
  have htake : all.take (fullBlocks received) = received.take (fullBlocks received) := by
    rw [hall, take_append_of_le_length (fullBlocks_le received)]
  rw [← hall] at hpre hsum ⊢
  rw [← fullBlocks] at hsum
  obtain ⟨next, hnext⟩ : ∃ next, next = all.drop (fullBlocks received) := ⟨_, rfl⟩
  rw [← hnext] at hsum
  have hboth : all.take (fullBlocks all) =
      received.take (fullBlocks received) ++ next.take (fullBlocks next) := by
    rw [hsum, take_add, htake, hnext]
  have hpart := decrypt_part E (by decide) hiv hplain (dvd_length_take_fullBlocks received)
    (dvd_length_take_fullBlocks next) (hboth ▸ (List.take_prefix _ _).trans hpre)
  rw [length_take_fullBlocks, length_take_fullBlocks, ← hsum] at hpart
  obtain ⟨res, hres, hdecrypt⟩ := cpuTcpAesCryptoDecryptInput_eq env
    (c := { inputState crc keys c received done tail skip with inU := clearBytes next })
    hidle.crypto rfl
  refine ⟨_, res, ?_, hres, hpart⟩
  rw [fetchInput, popAll_inputState hidle, ← hall, ← hnext,
    if_pos (by rw [inputState, deliver, hidle.crypto]; rfl)]
  refine hdecrypt.trans ?_
  have hdrop : next.drop (fullBlocks next) = all.drop (fullBlocks all) := by
    rw [hnext, drop_drop, ← hnext, hsum]
  have hlast : lastOf 16 (lastOf 16 c.data.lastBlock (received.take (fullBlocks received)))
      (next.take (fullBlocks next)) = lastOf 16 c.data.lastBlock (all.take (fullBlocks all)) := by
    rw [hboth, lastOf_append]
    intro hne
    exact Nat.le_of_dvd (length_pos_of_ne_nil hne) (dvd_length_take_fullBlocks next)
  simp only [inputState, deliver, hdrop, hlast, hcipher _ _,
    chainBlock_lastOf (dvd_length_take_fullBlocks received), deciphered_append]

theorem applySkip_inputState (received : List UInt8) (skip : ℕ) :
    (inputState crc keys c received done tail skip).applySkip =
      inputState crc keys c received done tail (if skip ≤ tail.length then 0 else skip) := by
  have hlen : (inputState crc keys c received done tail skip).inn.length = tail.length :=
    length_deciphered tail
  rw [ConnInfo.applySkip, hlen, if_neg (by simp [inputState])]
  by_cases hle : skip ≤ tail.length
  · rw [if_pos hle]
    by_cases hzero : skip = 0
    · rw [hzero, if_neg (by simp [inputState])]
    · rw [if_pos]
      · rfl
      · simp only [inputState]
        omega
  · rw [if_neg hle, if_neg]
    simp only [inputState]
    omega

theorem readerLoop_inputState (hidle : Idle keys c) (hcrc : crc = env.crc c.data.customCrc32c)
    (hrest : Receivable env (nextNum c.data.inPacketNum done) rest)
    (hstream : encodeFrames crc (nextNum c.data.inPacketNum done) rest = pending ++ later)
    (hmod : pending.length % 4 = 0) (received : List UInt8) (fuel : ℕ) :
    ∃ done' rest' tail',
      Taken crc (nextNum c.data.inPacketNum done) rest pending done' rest' tail' ∧
      readerLoop (ctTcpRpcClient env) (fuel + 1) (inputState crc keys c received done pending 0) =
        inputState crc keys c received (done ++ done') tail' (awaited rest' tail') := by
  by_cases hnil : pending = []
  · refine ⟨[], rest, [], ⟨rfl, hnil, fun h => absurd rfl h⟩, ?_⟩
    have hblocked : (inputState crc keys c received done pending 0).blocked = true := by
      rw [hnil]
      simp [ConnInfo.blocked, inputState, deliver, deciphered]
    rw [readerLoop, hblocked, if_pos rfl, hnil, append_nil, awaited_nil]
  · have hopen : (inputState crc keys c received done pending 0).blocked = false := by
      simp [ConnInfo.blocked, inputState, deliver, hidle.failed, hidle.stopRead, deciphered, hnil]
    have hlen : (inputState crc keys c received done pending 0).inn.length = pending.length :=
      length_deciphered pending
    obtain ⟨done', rest', tail', htaken, hloop⟩ :=
      parseLoop_frames (c := inputState crc keys c received done pending 0) hcrc hrest hstream hmod
        rfl (Nat.lt_succ_self _)
    rw [← hlen] at hloop
    have hparse : (ctTcpRpcClient env).parseExecute
        (inputState crc keys c received done pending 0) =
        (deliver crc keys (inputState crc keys c received done pending 0) done' tail',
          (awaited rest' tail' : ℤ) - tail'.length) := hloop
    refine ⟨done', rest', tail', htaken, ?_⟩
    rw [readerLoop_of_blocked hopen tcpRpccParseExecute_blocked, hparse]
    have hdeliver : deliver crc keys (inputState crc keys c received done pending 0) done' tail' =
        inputState crc keys c received (done ++ done') tail' 0 := by
      simp only [inputState, deliver, nextNum_append, framePackets_append, append_assoc]
    rw [hdeliver]
    by_cases htail : tail' = []
    · rw [htail, awaited_nil, if_pos (.inl rfl)]
    · -- the parser waits for the rest of a packet, whose length is below `NEED_MORE_BYTES`
      have hlt := htaken.part htail
      have hpos := length_pos_of_ne_nil htail
      have hbound := awaited_lt (htaken.frames ▸ hrest).append_right tail'
      rw [if_neg (by rw [needMoreBytes]; omega), ConnInfo.setSkip]
      have hcrypto :
          (inputState crc keys c received (done ++ done') tail' 0).crypto.isSome = true := by
        rw [inputState, deliver, hidle.crypto]
        rfl
      have hleft : (inputState crc keys c received (done ++ done') tail' 0).inn.length =
          tail'.length := length_deciphered tail'
      rw [if_pos hcrypto, hleft, if_neg (by omega), Int.sub_add_cancel]
      rfl

/-! ### Runs -/

/-- Input only: bytes are received, and the reader runs. -/
def RpcEvent.isInput : RpcEvent → Bool
  | .receive _ | .run => true
  | _ => false

def RpcEvent.raw : RpcEvent → Option (List UInt8)
  | .receive raw => some raw
  | _ => none

/-- All bytes that are received. -/
def receivedBytes (ds : List RpcEvent) : List UInt8 := (ds.filterMap RpcEvent.raw).flatten

theorem receivedBytes_append (ds ds' : List RpcEvent) :
    receivedBytes (ds ++ ds') = receivedBytes ds ++ receivedBytes ds' := by
  rw [receivedBytes, filterMap_append, flatten_append]
  rfl

theorem inputState_nil (hidle : Idle keys c) : inputState crc keys c [] [] [] 0 = c := by
  cases c
  cases hidle
  simp_all [inputState, deliver, deciphered, clearBytes, framePackets, nextNum]

section

variable (hcipher : Deciphers env keys E iv) (hidle : Idle keys c)
  (hiv : (chainBlock iv c.data.lastBlock).length = 16) (hplain : 16 ∣ plain.length)
  (hcrc : crc = env.crc c.data.customCrc32c) (hfs : Receivable env c.data.inPacketNum fs)
  (hstream : encodeFrames crc c.data.inPacketNum fs = plain ++ out)
include hcipher hidle hiv hplain hcrc hfs hstream

theorem reader_inputState
    (htaken : Taken crc c.data.inPacketNum fs (plain.take (fullBlocks received)) done rest tail)
    (hpre : received ++ queue.flatten <+: encrypt E (chainBlock iv c.data.lastBlock) plain) :
    ∃ done' rest' tail',
      Taken crc c.data.inPacketNum fs (plain.take (fullBlocks (received ++ queue.flatten)))
        done' rest' tail' ∧
      reader (ctTcpRpcClient env)
          { inputState crc keys c received done tail (awaited rest tail) with
            inQueue := queue.map clearBytes } =
        inputState crc keys c (received ++ queue.flatten) done' tail' (awaited rest' tail') := by
  obtain ⟨more, res, hfetch, hres, hmore⟩ :=
    fetchInput_inputState hcipher hidle hiv hplain hpre crc done tail (awaited rest tail)
  have hrun : ¬ ((inputState crc keys c (received ++ queue.flatten) done (tail ++ more)
      (awaited rest tail)).failed || (inputState crc keys c (received ++ queue.flatten) done
        (tail ++ more) (awaited rest tail)).stopRead) = true := by
    simp [inputState, deliver, hidle.failed, hidle.stopRead]
  rw [reader_eq, hfetch]
  rw [if_neg (not_lt.2 hres), if_neg hrun, applySkip_inputState]
  by_cases hle : awaited rest tail ≤ (tail ++ more).length
  · rw [if_pos hle]
    have hblocks : plain.take (fullBlocks (received ++ queue.flatten)) =
        encodeFrames crc c.data.inPacketNum done ++ (tail ++ more) := by
      rw [hmore, htaken.bytes, append_assoc]
    have hlater : encodeFrames crc (nextNum c.data.inPacketNum done) rest = (tail ++ more) ++
        (plain.drop (fullBlocks (received ++ queue.flatten)) ++ out) := by
      refine (append_right_inj (encodeFrames crc c.data.inPacketNum done)).1 ?_
      rw [← encodeFrames_append, ← htaken.frames, hstream, ← append_assoc, ← append_assoc,
        ← append_assoc, append_assoc _ tail, ← hblocks, take_append_drop]
    have hmod : (tail ++ more).length % 4 = 0 := by
      have hdone : (encodeFrames crc c.data.inPacketNum done).length % 4 = 0 :=
        length_encodeFrames_mod (htaken.frames ▸ hfs).append_left.wordSized
      have hle := hpre.length_le
      rw [length_encrypt E hiv hplain] at hle
      have hlen := congrArg length hblocks
      rw [length_take, length_append, fullBlocks] at hlen
      omega
    obtain ⟨done', rest', tail', htaken', hloop⟩ := readerLoop_inputState hidle hcrc
      (htaken.frames ▸ hfs).append_right hlater hmod (received ++ queue.flatten) _
    refine ⟨done ++ done', rest', tail', hmore ▸ htaken.append htaken', hloop⟩
  · rw [if_neg hle]
    have htail : tail ≠ [] := by
      rintro rfl
      rw [awaited_nil] at hle
      exact hle (Nat.zero_le _)
    refine ⟨done, rest, tail ++ more, ⟨htaken.frames, ?_, fun _ => ?_⟩, ?_⟩
    · rw [hmore, htaken.bytes, append_assoc]
    · rw [awaited_append htail]
      omega
    · have hblocked : (inputState crc keys c (received ++ queue.flatten) done (tail ++ more)
          (awaited rest tail)).blocked = true := by
        have hne : awaited rest tail ≠ 0 := by omega
        simp [ConnInfo.blocked, inputState, hne]
      rw [readerLoop, hblocked, if_pos rfl, awaited_append htail]

theorem run_inputState (flags : CryptoFlags)
    (hds : ∀ e ∈ ds, e.isInput = true)
    (hpre : receivedBytes ds <+: encrypt E (chainBlock iv c.data.lastBlock) plain) :
    ∃ (received : List UInt8) (queue : List (List UInt8)) (done rest : List Frame)
        (tail : List UInt8), received ++ queue.flatten = receivedBytes ds ∧
      Taken crc c.data.inPacketNum fs (plain.take (fullBlocks received)) done rest tail ∧
      run (rpccStep env flags) c ds =
        some { inputState crc keys c received done tail (awaited rest tail) with
          inQueue := queue.map clearBytes } := by
  induction ds using reverseRecOn with
  | nil =>
    refine ⟨[], [], [], fs, [], rfl, ⟨rfl, rfl, fun h => absurd rfl h⟩, ?_⟩
    rw [awaited_nil, inputState_nil hidle]
    have hqueue := hidle.inQueue
    cases c
    cases hqueue
    rfl
  | append_singleton ds e ih =>
    rw [receivedBytes_append] at hpre ⊢
    obtain ⟨received, queue, done, rest, tail, hbytes, htaken, hrun⟩ :=
      ih (fun e he => hds e (mem_append_left _ he)) ((prefix_append _ _).trans hpre)
    rw [run_append, hrun, Option.bind_some, run_cons]
    cases e with
    | receive raw =>
      refine ⟨received, queue ++ [raw], done, rest, tail, ?_, htaken, ?_⟩
      · rw [flatten_append, ← append_assoc, hbytes]
        rfl
      · rw [map_append]
        rfl
    | run =>
      rw [show receivedBytes [.run] = [] from rfl, append_nil] at hpre ⊢
      obtain ⟨done', rest', tail', htaken', hreader⟩ :=
        reader_inputState hcipher hidle hiv hplain hcrc hfs hstream htaken (hbytes ▸ hpre)
      refine ⟨received ++ queue.flatten, [], done', rest', tail', ?_, htaken', ?_⟩
      · rw [flatten_nil, append_nil, hbytes]
      · rw [rpccStep, hreader]
        have hqueue := hidle.inQueue
        simp only [inputState, deliver, hqueue, map_nil]
        rfl
    | connected => cases hds _ mem_concat_self
    | write => cases hds _ mem_concat_self
    | fail => cases hds _ mem_concat_self

theorem run_inputState_run (flags : CryptoFlags)
    (hds : ∀ e ∈ ds, e.isInput = true)
    (hpre : receivedBytes ds <+: encrypt E (chainBlock iv c.data.lastBlock) plain) :
    ∃ done rest tail, Taken crc c.data.inPacketNum fs (plain.take (fullBlocks (receivedBytes ds)))
        done rest tail ∧
      run (rpccStep env flags) c (ds ++ [.run]) =
        some (inputState crc keys c (receivedBytes ds) done tail (awaited rest tail)) := by
  obtain ⟨received, queue, done, rest, tail, hbytes, htaken, hrun⟩ :=
    run_inputState hcipher hidle hiv hplain hcrc hfs hstream flags hds hpre
  rw [← hbytes] at hpre ⊢
  obtain ⟨done', rest', tail', htaken', hreader⟩ :=
    reader_inputState hcipher hidle hiv hplain hcrc hfs hstream htaken hpre
  refine ⟨done', rest', tail', htaken', ?_⟩
  rw [run_append, hrun, Option.bind_some, run_cons, rpccStep, hreader]
  rfl

end

/-! ### The round trip -/

variable (num fs)

theorem message_framePackets : (framePackets crc keys num fs).map Packet.message = messages fs := by
  induction fs generalizing num with
  | nil => rfl
  | cons f fs ih =>
    cases f with
    | filler => exact ih num
    | packet msg =>
      have hmsg : Packet.message ⟨num, deciphered keys (framePacket crc num msg)⟩ = msg := by
        rw [Packet.message, vals_deciphered, rwmFetchDataBack_framePacket, drop_packetBody]
      rw [framePackets, map_cons, hmsg, ih]
      rfl

theorem length_framePackets : (framePackets crc keys num fs).length = (messages fs).length := by
  rw [← length_map (f := Packet.message), message_framePackets]

theorem num_framePackets :
    (framePackets crc keys num fs).map Packet.num =
      (range (messages fs).length).map fun i => num + BitVec.ofNat 32 i := by
  induction fs generalizing num with
  | nil => rfl
  | cons f fs ih =>
    cases f with
    | filler => exact ih num
    | packet msg =>
      have hcons : messages (.packet msg :: fs) = msg :: messages fs := rfl
      rw [framePackets, map_cons, ih, hcons, length_cons, range_succ_eq_map, map_cons, map_map]
      refine congrArg₂ _ (BitVec.add_zero num).symm (map_congr_left fun i _ => ?_)
      rw [comp_apply, BitVec.add_assoc, Nat.succ_eq_add_one, Nat.add_comm, BitVec.ofNat_add]
      rfl

variable {num fs}

theorem receivable_of_framed {start : BitVec 32} {w : RpcWriter}
    (hframed : Framed crc E iv start w fs plain) (hmsgs : ∀ m ∈ messages fs, Deliverable env m)
    (hnum : start.toNat + (messages fs).length ≤ 2 ^ 31) : Receivable env start fs := by
  refine ⟨fun f hf => ?_, hnum⟩
  cases f with
  | packet msg => exact hmsgs msg (mem_filterMap.2 ⟨_, hf, rfl⟩)
  | filler =>
    intro hmax
    have hne : messages fs ≠ [] := fun h => by
      rw [hframed.silent h] at hf
      cases hf
    obtain ⟨m, hm⟩ := exists_mem_of_ne_nil _ hne
    have := (hmsgs m hm).allowed hmax
    omega

/-- **The round trip**: of the messages that one end writes, whatever is flushed and encrypted in
between, the other end handles the same ones in the same order with consecutive numbers, as far as
the stream was received, and all of them once it was received whole; the division into reads and
runs of the reader does not matter. -/
theorem frames_round_trip (hcipher : Deciphers env keys E iv) (hidle : Idle keys c)
    (hiv : (chainBlock iv c.data.lastBlock).length = 16) {es : List FrameEvent}
    (hmsgs : ∀ m ∈ written es, Deliverable env m)
    (hnum : c.data.inPacketNum.toNat + (written es).length ≤ 2 ^ 31) (flags : CryptoFlags) :
    ∃ w, runFrames (env.crc c.data.customCrc32c) E
        (frameStart (chainBlock iv c.data.lastBlock) c.data.inPacketNum)
        (es ++ [.flush, .encrypt]) = some w ∧
      ∀ ds : List RpcEvent, (∀ e ∈ ds, e.isInput = true) → receivedBytes ds <+: w.stream →
        ∃ c' ps, run (rpccStep env flags) c (ds ++ [.run]) = some c' ∧ c'.failed = false ∧
          c'.data.handled = c.data.handled ++ ps ∧ ps.map Packet.message <+: written es ∧
          ps.map Packet.num =
            (List.range ps.length).map (fun i => c.data.inPacketNum + BitVec.ofNat 32 i) ∧
          (receivedBytes ds = w.stream →
            ps.map Packet.message = written es ∧ c'.inU = [] ∧ c'.inn = []) := by
  obtain ⟨crc, hcrc⟩ : ∃ crc, crc = env.crc c.data.customCrc32c := ⟨_, rfl⟩
  obtain ⟨w, fs, plain, hrun, hframed, hwritten, hout⟩ :=
    out_of_flushed crc E c.data.inPacketNum hiv (fun m hm => (hmsgs m hm).wordSized)
  rw [← hwritten] at hmsgs hnum ⊢
  have hfs := receivable_of_framed hframed hmsgs hnum
  refine ⟨w, hcrc ▸ hrun, fun ds hds hpre => ?_⟩
  rw [hframed.stream] at hpre ⊢
  obtain ⟨done, rest, tail, htaken, hinput⟩ := run_inputState_run hcipher hidle hiv hframed.blocks
    hcrc hfs hframed.split flags hds hpre
  refine ⟨_, framePackets crc keys c.data.inPacketNum done, hinput, hidle.failed, rfl, ?_, ?_, ?_⟩
  · rw [message_framePackets, htaken.frames, messages_append]
    exact prefix_append _ _
  · rw [num_framePackets, length_framePackets]
  · -- the whole stream has the length of the frames, which are full blocks
    intro hall
    have hlen := length_encrypt E hiv hframed.blocks
    have hfull : fullBlocks (receivedBytes ds) = plain.length := by
      rw [fullBlocks, hall, hlen, Nat.div_mul_cancel hframed.blocks]
    have hplain : encodeFrames crc c.data.inPacketNum fs = plain := by
      rw [hframed.split, hout, append_nil]
    rw [hfull, take_length, ← hplain] at htaken
    obtain ⟨rfl, rfl⟩ := htaken.complete
    refine ⟨message_framePackets _ _, ?_, rfl⟩
    show clearBytes ((receivedBytes ds).drop (fullBlocks (receivedBytes ds))) = []
    rw [drop_eq_nil_of_le (by rw [hfull, hall, hlen])]
    rfl

/-- A cipher for the runs below, which reverses each block. -/
def reverseCipher : BlockCipher 16 :=
  ⟨List.reverse, List.reverse, fun b hb => by rwa [length_reverse], fun b _ => reverse_reverse b⟩

def zeroBlock : List UInt8 := List.replicate 16 0

/-- A process with that cipher and a checksum that reads the packet as a number. -/
def frameEnv : RpcEnv Unit :=
  { sampleEnv with
    crc := fun _ bytes => BitVec.ofNat 32 (leNat bytes)
    aesCbcDecrypt := fun _ last ct => decrypt reverseCipher (chainBlock zeroBlock last) ct }

/-- An idle connection that expects the packet with the number `start`. -/
def frameConn (start : BitVec 32) : RpcConn Unit :=
  { tcpRpccInitOutbound ⟨false, true, false, false⟩ with
    crypto := some ()
    data := { (tcpRpccInitOutbound ⟨false, true, false, false⟩).data with inPacketNum := start } }

theorem idle_frameConn (start : BitVec 32) : Idle () (frameConn start) :=
  by constructor <;> rfl

theorem deciphers_frameEnv : Deciphers frameEnv () reverseCipher zeroBlock := fun _ _ => rfl

/-- A message and a shorter one, with a flush between them. -/
def frameWrites : List FrameEvent :=
  [.write [1, 2, 3, 4, 5, 6, 7, 8], .flush, .write [9, 9, 9, 9]]

theorem deliverable_frameWrites : ∀ m ∈ written frameWrites, Deliverable frameEnv m := by
  have hmax : ¬ 0 < frameEnv.maxPacketLen := by decide
  intro m hm
  rcases mem_pair.1 hm with rfl | rfl
  · exact ⟨by decide, by decide, by decide, fun h => absurd h hmax, rfl⟩
  · exact ⟨by decide, by decide, by decide, fun h => absurd h hmax, rfl⟩

/-- The stream is received in two reads that cut a block. -/
theorem frames_round_trip_twoReads :
    ∃ w, runFrames (frameEnv.crc false) reverseCipher (frameStart zeroBlock 0)
        (frameWrites ++ [.flush, .encrypt]) = some w ∧
      ∃ c', run (rpccStep frameEnv ⟨false, true, false, false⟩) (frameConn 0)
          [.receive (w.stream.take 20), .run, .receive (w.stream.drop 20), .run] = some c' ∧
        c'.data.handled.map Packet.message = [[1, 2, 3, 4, 5, 6, 7, 8], [9, 9, 9, 9]] := by
  obtain ⟨w, hw, hread⟩ := frames_round_trip deciphers_frameEnv (idle_frameConn 0) rfl
    deliverable_frameWrites (by decide) ⟨false, true, false, false⟩
  have hstream : receivedBytes [.receive (w.stream.take 20), .run, .receive (w.stream.drop 20)] =
      w.stream := by
    exact (congrArg _ (append_nil _)).trans (take_append_drop 20 w.stream)
  obtain ⟨c', ps, hrun, -, hhandled, -, -, hall⟩ :=
    hread [.receive (w.stream.take 20), .run, .receive (w.stream.drop 20)]
      (by simp [RpcEvent.isInput]) (by rw [hstream])
  refine ⟨w, hw, c', hrun, ?_⟩
  rw [hhandled]
  exact (hall hstream).1

/-- Numbers beyond `0x7fffffff` are not those of messages: the second message of two fails the
connection. -/
theorem frames_number_overflow :
    ∃ w, runFrames (frameEnv.crc false) reverseCipher (frameStart zeroBlock 0x7fffffff)
        [.write [1, 2, 3, 4], .write [5, 6, 7, 8], .flush, .encrypt] = some w ∧
      ∃ c', run (rpccStep frameEnv ⟨false, true, false, false⟩) (frameConn 0x7fffffff)
          [.receive w.stream, .run] = some c' ∧
        c'.failed = true ∧ c'.data.handled.map Packet.message = [[1, 2, 3, 4]] :=
  ⟨_, rfl, _, rfl, by decide +kernel, by decide +kernel⟩

end Mtbolt.Rpc
