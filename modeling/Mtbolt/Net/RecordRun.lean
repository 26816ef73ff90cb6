import Mtbolt.Net.RecordStream

/-!
# The record layer, from one end to the other

What one end writes is encrypted by either of the two writers, in records on a Fake-TLS connection,
whenever the connection's writer runs; with dynamic record sizing a delay may hold the rest back
until an alarm.  The other end decrypts the stream in whatever pieces it comes.  AES in counter mode
is a key stream with a position.
-/

namespace Mtbolt.Net

open List

/-! ### The cipher -/

/-- The bytes combined with the key stream from a position on, and the position behind them. -/
def keyStream (ks : ℕ → UInt8) (pos : ℕ) (bytes : List UInt8) : List UInt8 × ℕ :=
  (bytes.mapIdx fun i b => b ^^^ ks (pos + i), pos + bytes.length)

variable (ks : ℕ → UInt8)

@[simp] theorem length_keyStream (pos : ℕ) (bytes : List UInt8) :
    (keyStream ks pos bytes).1.length = bytes.length := by
  simp [keyStream]

theorem streamCipher_keyStream : StreamCipher (keyStream ks) where
  nil pos := rfl
  append pos a b := by
    simp only [keyStream, mapIdx_append, length_append, Nat.add_assoc, Nat.add_comm a.length]

theorem keyStream_keyStream (pos : ℕ) (bytes : List UInt8) :
    keyStream ks pos (keyStream ks pos bytes).1 = (bytes, pos + bytes.length) := by
  have hcancel (a b : UInt8) : a ^^^ b ^^^ b = a := by
    rw [UInt8.xor_assoc, UInt8.xor_self, UInt8.xor_zero]
  simp only [keyStream, mapIdx_mapIdx, Function.comp_def, hcancel, length_mapIdx]
  have hsame : bytes.mapIdx (fun _ b => b) = bytes := ext_getElem (by simp) (by simp)
  rw [hsame]

/-! ### Records -/

/-- The records with the given contents as they are sent; without TLS there are no headers. -/
def encodeRecords (isTls : Bool) : ℕ → List (List UInt8) → List UInt8
  | _, [] => []
  | pos, r :: rs =>
    (if isTls then recordHeader r.length else []) ++ (keyStream ks pos r).1 ++
      encodeRecords isTls (pos + r.length) rs

/-- The contents of a record are neither empty nor longer than TLS allows. -/
def RecordSized (r : List UInt8) : Prop := 1 ≤ r.length ∧ r.length ≤ 16384

theorem encodeRecords_append (isTls : Bool) (pos : ℕ) (rs rs' : List (List UInt8)) :
    encodeRecords ks isTls pos (rs ++ rs') =
      encodeRecords ks isTls pos rs ++ encodeRecords ks isTls (pos + rs.flatten.length) rs' := by
  induction rs generalizing pos with
  | nil => simp [encodeRecords]
  | cons r rs ih =>
    simp only [cons_append, encodeRecords, ih, flatten_cons, length_append,
      append_assoc, Nat.add_assoc]

theorem recordLength_recordHeader {len : ℕ} (h : len < 65536) :
    recordLength (recordHeader len) = len := by
  have hlow : len &&& 255 = len % 256 := Nat.and_two_pow_sub_one_eq_mod len 8
  simp only [recordLength, recordHeader, getD_cons_succ, getD_cons_zero,
    UInt8.toNat_ofNat', hlow, Nat.shiftRight_eq_div_pow]
  omega

/-! ### Writing -/

/-- A writer has turned the output into records with the contents `rs`. -/
structure Emits (isTls : Bool) (o : OutBuf ℕ) (rs : List (List UInt8)) (o' : OutBuf ℕ) : Prop where
  out : o.out = rs.flatten ++ o'.out
  outP : o'.outP = o.outP ++ encodeRecords ks isTls o.writeAeskey rs
  key : o'.writeAeskey = o.writeAeskey + rs.flatten.length
  sized : isTls = true → ∀ r ∈ rs, RecordSized r

variable {ks} {isTls : Bool} {o o' o'' : OutBuf ℕ} {rs rs' : List (List UInt8)}

theorem Emits.refl (o : OutBuf ℕ) : Emits ks isTls o [] o :=
  ⟨rfl, by simp [encodeRecords], rfl, fun _ r hr => absurd hr not_mem_nil⟩

theorem Emits.trans (h : Emits ks isTls o rs o') (h' : Emits ks isTls o' rs' o'') :
    Emits ks isTls o (rs ++ rs') o'' where
  out := by rw [h.out, h'.out, flatten_append, append_assoc]
  outP := by rw [h'.outP, h.outP, h.key, encodeRecords_append, append_assoc]
  key := by rw [h'.key, h.key, flatten_append, length_append, Nat.add_assoc]
  sized htls r hr := (mem_append.1 hr).elim (h.sized htls r) (h'.sized htls r)

theorem Emits.length_le (h : Emits ks isTls o rs o') : o'.out.length ≤ o.out.length := by
  rw [h.out, length_append]
  exact Nat.le_add_left _ _

theorem emits_encryptRecord {maxLen : ℕ} (hpos : 0 < maxLen) (hmax : maxLen ≤ 16384)
    (ho : o.out ≠ []) (isTls : Bool) :
    ∃ r, Emits ks isTls o [r] (o.encryptRecord (keyStream ks) isTls maxLen) := by
  have hlen := length_pos_of_ne_nil ho
  refine ⟨o.out.take (if isTls then min maxLen o.out.length else o.out.length), ?_, ?_, ?_, ?_⟩
  · simp [OutBuf.encryptRecord, rwmEncryptDecryptTo]
  · cases isTls <;> simp [OutBuf.encryptRecord, rwmEncryptDecryptTo, encodeRecords]
  · simp [OutBuf.encryptRecord, rwmEncryptDecryptTo, keyStream]
  · intro htls r hr
    rw [mem_singleton.1 hr, htls, if_pos rfl, RecordSized, length_take]
    omega

theorem emits_encryptOutputLoop (ks : ℕ → UInt8) (isTls : Bool) (fuel : ℕ) (o : OutBuf ℕ) :
    ∃ rs, Emits ks isTls o rs (encryptOutputLoop (keyStream ks) isTls fuel o) := by
  induction fuel generalizing o with
  | zero => exact ⟨[], .refl o⟩
  | succ fuel ih =>
    rw [encryptOutputLoop]
    split_ifs with hempty
    · exact ⟨[], .refl o⟩
    · obtain ⟨rs, hrs⟩ := ih (o.encryptRecord (keyStream ks) isTls maxPacketLength)
      obtain ⟨r, hr⟩ := emits_encryptRecord (by decide : 0 < maxPacketLength) (by decide)
        (mt isEmpty_iff.2 hempty) isTls
      exact ⟨_, hr.trans hrs⟩

theorem drsRecordSize_le (recordIndex lrand48 : ℕ) : drsRecordSize recordIndex lrand48 ≤ 16384 := by
  unfold drsRecordSize
  dsimp only
  split_ifs <;> omega

theorem emits_drsRecord (env : DrsEnv) (isTls : Bool) (lrand48 : ℕ) (drs : DrsState)
    (ho : o.out ≠ []) :
    ∃ r, Emits ks isTls o [r] (drsRecord (keyStream ks) env isTls lrand48 o drs).1 := by
  cases isTls with
  | true => exact emits_encryptRecord (drsRecordSize_pos _ _) (drsRecordSize_le _ _) ho true
  | false => exact emits_encryptRecord (by decide : 0 < 1) (by decide) ho false

theorem emits_encryptOutputDrsLoop (ks : ℕ → UInt8) (env : DrsEnv) (isTls : Bool) (fuel : ℕ)
    (o : OutBuf ℕ) (drs : DrsState) :
    ∃ rs, Emits ks isTls o rs (encryptOutputDrsLoop (keyStream ks) env isTls fuel o drs).1 := by
  induction fuel generalizing o drs with
  | zero => exact ⟨[], .refl o⟩
  | succ fuel ih =>
    rw [encryptOutputDrsLoop]
    dsimp only
    split_ifs with hempty hdelay
    · exact ⟨[], .refl o⟩
    all_goals
      obtain ⟨r, hr⟩ := emits_drsRecord env isTls (env.lrand48 fuel) drs (mt isEmpty_iff.2 hempty)
    · exact ⟨[r], hr⟩
    · obtain ⟨rs, hrs⟩ := ih (drsRecord (keyStream ks) env isTls (env.lrand48 fuel) o drs).1
        (drsRecord (keyStream ks) env isTls (env.lrand48 fuel) o drs).2
      exact ⟨_, hr.trans hrs⟩

theorem emits_encryptOutputDrs (ks : ℕ → UInt8) (env : DrsEnv) (isTls : Bool) (o : OutBuf ℕ)
    (drs : DrsState) :
    ∃ rs, Emits ks isTls o rs (encryptOutputDrs (keyStream ks) env isTls o drs).1 := by
  unfold encryptOutputDrs
  split_ifs
  · exact ⟨[], .refl o⟩
  · exact emits_encryptOutputDrsLoop ks env isTls _ o drs

theorem length_encryptOutputDrs_lt (env : DrsEnv) (isTls : Bool) {drs : DrsState}
    (hdrs : drs.delayPending = false) (ho : o.out ≠ []) :
    (encryptOutputDrs (keyStream ks) env isTls o drs).1.out.length < o.out.length := by
  obtain ⟨fuel, hfuel⟩ : ∃ fuel, o.out.length = fuel + 1 :=
    ⟨o.out.length - 1, by have := length_pos_of_ne_nil ho; omega⟩
  have hlt := length_drsRecord_lt (keyStream ks) env isTls (env.lrand48 fuel) drs ho
  rw [encryptOutputDrs, hdrs, Bool.and_false, if_neg Bool.false_ne_true, hfuel,
    encryptOutputDrsLoop, if_neg (mt List.isEmpty_iff.1 ho)]
  dsimp only
  split_ifs with hdelay
  · exact hfuel ▸ hlt
  · obtain ⟨rs, hrs⟩ := emits_encryptOutputDrsLoop ks env isTls fuel
      (drsRecord (keyStream ks) env isTls (env.lrand48 fuel) o drs).1
      (drsRecord (keyStream ks) env isTls (env.lrand48 fuel) o drs).2
    have := hrs.length_le
    omega

/-! ### The writing end -/

/-- The writing end of a connection: its buffers, the state of the record sizes, all that was ever
written to it, and what it has handed to the socket. -/
structure RecordWriter where
  buf : OutBuf ℕ
  drs : DrsState
  written : List UInt8
  sent : List UInt8

/-- What happens to the writing end: output is written, one of the writers runs, the alarm ends a
delay, the records are handed to the socket. -/
inductive WriterEvent
  | write (data : List UInt8)
  | encrypt
  | encryptDrs (env : DrsEnv)
  | alarm
  | send

def writerStep (ks : ℕ → UInt8) (isTls : Bool) (w : RecordWriter) : WriterEvent → RecordWriter
  | .write data =>
    { w with buf := { w.buf with out := w.buf.out ++ data }, written := w.written ++ data }
  | .encrypt => { w with buf := ctr128EncryptOutput (keyStream ks) isTls w.buf }
  | .encryptDrs env =>
    let r := encryptOutputDrs (keyStream ks) env isTls w.buf w.drs
    { w with buf := r.1, drs := r.2.1 }
  | .alarm => { w with drs := { w.drs with delayPending := false } }
  | .send => { w with buf := { w.buf with outP := [] }, sent := w.sent ++ w.buf.outP }

def writerStart (pos : ℕ) (drs : DrsState) : RecordWriter := ⟨⟨[], [], pos⟩, drs, [], []⟩

def runWriter (ks : ℕ → UInt8) (isTls : Bool) (w : RecordWriter) (es : List WriterEvent) :
    RecordWriter := es.foldl (writerStep ks isTls) w

/-- The stream that the other end reads. -/
def RecordWriter.stream (w : RecordWriter) : List UInt8 := w.sent ++ w.buf.outP

/-- The stream consists of records with the contents `rs`, which are what was written except for
what is held back. -/
structure Encoded (ks : ℕ → UInt8) (isTls : Bool) (pos : ℕ) (w : RecordWriter)
    (rs : List (List UInt8)) : Prop where
  written : w.written = rs.flatten ++ w.buf.out
  stream : w.stream = encodeRecords ks isTls pos rs
  key : w.buf.writeAeskey = pos + rs.flatten.length
  sized : isTls = true → ∀ r ∈ rs, RecordSized r

variable {pos : ℕ} {w : RecordWriter}

theorem Encoded.emits (h : Encoded ks isTls pos w rs) (ho : Emits ks isTls w.buf rs' o')
    (drs : DrsState) : Encoded ks isTls pos { w with buf := o', drs := drs } (rs ++ rs') where
  written := by rw [h.written, ho.out, flatten_append, append_assoc]
  stream := by
    rw [encodeRecords_append, ← h.stream, ← h.key]
    simp only [RecordWriter.stream, ho.outP, append_assoc]
  key := by rw [ho.key, h.key, flatten_append, length_append, Nat.add_assoc]
  sized htls r hr := (mem_append.1 hr).elim (h.sized htls r) (ho.sized htls r)

theorem encoded_writerStep (h : ∃ rs, Encoded ks isTls pos w rs) (e : WriterEvent) :
    ∃ rs, Encoded ks isTls pos (writerStep ks isTls w e) rs := by
  obtain ⟨rs, h⟩ := h
  cases e with
  | write data =>
    refine ⟨rs, ?_, h.stream, h.key, h.sized⟩
    rw [writerStep, h.written, append_assoc]
  | encrypt =>
    obtain ⟨rs', hrs'⟩ := emits_encryptOutputLoop ks isTls w.buf.out.length w.buf
    exact ⟨_, h.emits hrs' w.drs⟩
  | encryptDrs env =>
    obtain ⟨rs', hrs'⟩ := emits_encryptOutputDrs ks env isTls w.buf w.drs
    exact ⟨_, h.emits hrs' _⟩
  | alarm => exact ⟨rs, h.written, h.stream, h.key, h.sized⟩
  | send =>
    refine ⟨rs, h.written, ?_, h.key, h.sized⟩
    rw [← h.stream]
    simp [writerStep, RecordWriter.stream]

theorem encoded_runWriter (ks : ℕ → UInt8) (isTls : Bool) (pos : ℕ) (drs : DrsState)
    (es : List WriterEvent) :
    ∃ rs, Encoded ks isTls pos (runWriter ks isTls (writerStart pos drs) es) rs := by
  induction es using reverseRecOn with
  | nil => exact ⟨[], rfl, rfl, rfl, fun _ r hr => absurd hr not_mem_nil⟩
  | append_singleton es e ih =>
    rw [runWriter, foldl_append]
    exact encoded_writerStep ih e

/-! ### The reading end -/

/-- The reading end before the first byte, at the position `pos` of the key stream. -/
def readerStart (pos : ℕ) : InBuf ℕ := ⟨[], [], pos, 0⟩

/-- One read: more bytes come and are decrypted, unless the connection has failed. -/
def readRecords (ks : ℕ → UInt8) (isTls : Bool) (r : InBuf ℕ × Bool) (raw : List UInt8) :
    InBuf ℕ × Bool :=
  if r.2 then r
  else
    let d := ctr128DecryptInput (keyStream ks) isTls (r.1.feed raw)
    (d.1, d.2.1)

/-- All reads. -/
def runReader (ks : ℕ → UInt8) (isTls : Bool) (pos : ℕ) (reads : List (List UInt8)) :
    InBuf ℕ × Bool := reads.foldl (readRecords ks isTls) (readerStart pos, false)

theorem runReader_eq {reads : List (List UInt8)}
    (h : (ctr128DecryptInput (keyStream ks) isTls ((readerStart pos).feed reads.flatten)).2.1 =
      false) :
    runReader ks isTls pos reads =
      ((ctr128DecryptInput (keyStream ks) isTls ((readerStart pos).feed reads.flatten)).1,
        false) := by
  induction reads using reverseRecOn with
  | nil => rfl
  | append_singleton reads raw ih =>
    have hflat : (readerStart pos).feed (reads ++ [raw]).flatten =
        ((readerStart pos).feed reads.flatten).feed raw := by
      simp [InBuf.feed]
    rw [hflat] at h ⊢
    have hbefore : (ctr128DecryptInput (keyStream ks) isTls
        ((readerStart pos).feed reads.flatten)).2.1 = false := by
      by_contra hfailed
      rw [ctr128DecryptInput_failed_feed (streamCipher_keyStream ks)
        (Bool.not_eq_false _ ▸ hfailed) raw] at h
      cases h
    have hlast := ctr128DecryptInput_feed (streamCipher_keyStream ks) isTls
      ((readerStart pos).feed reads.flatten) raw
    rw [hlast] at h
    rw [runReader, foldl_append, foldl_cons, foldl_nil]
    rw [← runReader, ih hbefore, readRecords, if_neg Bool.false_ne_true, hlast]
    dsimp only
    rw [h]

theorem ctr128DecryptInput_record (ks : ℕ → UInt8) (pos : ℕ) {r : List UInt8} (hr : RecordSized r)
    (p rest : List UInt8) :
    ctr128DecryptInput (keyStream ks) true
        ⟨recordHeader r.length ++ (keyStream ks pos r).1 ++ rest, p, pos, 0⟩ =
      ctr128DecryptInput (keyStream ks) true ⟨rest, p ++ r, pos + r.length, 0⟩ := by
  obtain ⟨hpos, hmax⟩ := hr
  have hheader : (recordHeader r.length).length = 5 := rfl
  rw [ctr128DecryptInput_eq (keyStream ks) true (by simp [recordHeader])]
  have hlen : ¬ (recordHeader r.length ++ (keyStream ks pos r).1 ++ rest).length < 5 := by
    simp only [length_append, hheader]
    omega
  have htake : (recordHeader r.length ++ (keyStream ks pos r).1 ++ rest).take 5 =
      recordHeader r.length := by
    rw [append_assoc, ← hheader, take_left]
  have hdrop : (recordHeader r.length ++ (keyStream ks pos r).1 ++ rest).drop 5 =
      (keyStream ks pos r).1 ++ rest := by
    rw [append_assoc, ← hheader, drop_left]
  have hmagic : (recordHeader r.length ++ (keyStream ks pos r).1 ++ rest).take 3 = [0x17, 3, 3] :=
    rfl
  rw [Bool.not_true, if_neg hlen,
    if_neg (not_not.2 hmagic), htake, hdrop, recordLength_recordHeader (by omega)]
  simp [InBuf.decryptRecord, InBuf.decrypt, rwmEncryptDecryptTo, keyStream_keyStream]

theorem ctr128DecryptInput_encodeRecords (hrs : ∀ r ∈ rs, RecordSized r) (p : List UInt8) :
    ctr128DecryptInput (keyStream ks) true ⟨encodeRecords ks true pos rs, p, pos, 0⟩ =
      (⟨[], p ++ rs.flatten, pos + rs.flatten.length, 0⟩, false, 0) := by
  induction rs generalizing pos p with
  | nil => simp [encodeRecords, ctr128DecryptInput_nil]
  | cons r rs ih =>
    have hrec := ctr128DecryptInput_record ks pos (hrs r mem_cons_self) p
      (encodeRecords ks true (pos + r.length) rs)
    rw [encodeRecords, if_pos rfl, hrec, ih fun r' hr' => hrs r' (mem_cons_of_mem _ hr')]
    simp [Nat.add_assoc]

theorem encodeRecords_false (pos : ℕ) (rs : List (List UInt8)) :
    encodeRecords ks false pos rs = (keyStream ks pos rs.flatten).1 := by
  induction rs generalizing pos with
  | nil => rfl
  | cons r rs ih =>
    rw [encodeRecords, ih, flatten_cons, (streamCipher_keyStream ks).append]
    rfl

theorem ctr128DecryptInput_keyStream (bytes p : List UInt8) :
    ctr128DecryptInput (keyStream ks) false ⟨(keyStream ks pos bytes).1, p, pos, 0⟩ =
      (⟨[], p ++ bytes, pos + bytes.length, 0⟩, false, 0) := by
  cases bytes with
  | nil => simp [keyStream, ctr128DecryptInput_nil]
  | cons b bytes =>
    have hne : (keyStream ks pos (b :: bytes)).1 ≠ [] := by simp [keyStream]
    rw [ctr128DecryptInput_eq _ false hne, Bool.not_false, if_pos rfl]
    simp only [InBuf.decrypt, rwmEncryptDecryptTo, take_length, drop_length, keyStream_keyStream]

theorem runReader_encodeRecords (hrs : isTls = true → ∀ r ∈ rs, RecordSized r)
    {reads : List (List UInt8)} (hreads : reads.flatten = encodeRecords ks isTls pos rs) :
    runReader ks isTls pos reads = (⟨[], rs.flatten, pos + rs.flatten.length, 0⟩, false) := by
  have hall : ctr128DecryptInput (keyStream ks) isTls ((readerStart pos).feed reads.flatten) =
      (⟨[], rs.flatten, pos + rs.flatten.length, 0⟩, false, 0) := by
    rw [hreads]
    cases isTls with
    | true => exact ctr128DecryptInput_encodeRecords (hrs rfl) []
    | false =>
      rw [encodeRecords_false]
      exact ctr128DecryptInput_keyStream rs.flatten []
  rw [runReader_eq (by rw [hall]), hall]

/-! ### Both ends -/

/-- The stream is a sequence of records: each has a header of 5 bytes that announces between 1 and
16384 bytes, and that many follow. -/
inductive RecordsOnly : List UInt8 → Prop
  | nil : RecordsOnly []
  | cons (header body rest : List UInt8) (hmagic : header.take 3 = [0x17, 3, 3])
      (hheader : header.length = 5) (hlength : recordLength header = body.length)
      (hsized : RecordSized body) (hrest : RecordsOnly rest) :
      RecordsOnly (header ++ body ++ rest)

theorem recordsOnly_encodeRecords (hrs : ∀ r ∈ rs, RecordSized r) (pos : ℕ) :
    RecordsOnly (encodeRecords ks true pos rs) := by
  induction rs generalizing pos with
  | nil => exact .nil
  | cons r rs ih =>
    have hr := hrs r mem_cons_self
    have hlength := length_keyStream ks pos r
    refine .cons (recordHeader r.length) (keyStream ks pos r).1 _ rfl rfl ?_ ?_
      (ih (fun r' hr' => hrs r' (mem_cons_of_mem _ hr')) _)
    · rw [hlength]
      exact recordLength_recordHeader (by have := hr.2; omega)
    · rwa [RecordSized, hlength]

/-- The events that end a delay: the alarm, and the writer running again. -/
def resume (env : DrsEnv) : List WriterEvent := [.alarm, .encryptDrs env]

/-- Held-back output is flushed after as many alarms as it has bytes, at the latest. -/
theorem out_runWriter_resume (ks : ℕ → UInt8) (isTls : Bool) {w : RecordWriter}
    {envs : List DrsEnv} (h : w.buf.out.length ≤ envs.length) :
    (runWriter ks isTls w (envs.flatMap resume)).buf.out = [] := by
  induction envs generalizing w with
  | nil => exact length_eq_zero_iff.1 (Nat.le_zero.1 h)
  | cons env envs ih =>
    refine ih ?_
    simp only [writerStep]
    by_cases hout : w.buf.out = []
    · rw [encryptOutputDrs_of_out_eq_nil _ _ _ hout, hout]
      exact Nat.zero_le _
    · have hlt : (encryptOutputDrs (keyStream ks) env isTls w.buf
          { w.drs with delayPending := false }).1.out.length < w.buf.out.length :=
        length_encryptOutputDrs_lt env isTls rfl hout
      exact Nat.le_of_lt_succ (hlt.trans_le h)

/-- **The record layer round trip.**  After any writes, runs of the two writers and delays, and for
any split of the stream into reads, the reading end has decrypted what was written up to what is
still held back.  The stream is a sequence of records; the plain writer holds nothing back, and
enough alarms flush what the other one does. -/
theorem record_round_trip (ks : ℕ → UInt8) (isTls : Bool) (pos : ℕ) (drs : DrsState)
    (es : List WriterEvent) :
    let w := runWriter ks isTls (writerStart pos drs) es
    (∀ reads, reads.flatten = w.stream →
      ∃ b, runReader ks isTls pos reads = (b, false) ∧ b.inU = [] ∧
        b.inn ++ w.buf.out = w.written) ∧
    (isTls = true → RecordsOnly w.stream) ∧
    (writerStep ks isTls w .encrypt).buf.out = [] ∧
    ∀ envs : List DrsEnv, w.buf.out.length ≤ envs.length →
      (runWriter ks isTls w (envs.flatMap resume)).buf.out = [] := by
  intro w
  obtain ⟨rs, hrs⟩ := encoded_runWriter ks isTls pos drs es
  refine ⟨fun reads hreads => ?_, fun htls => ?_, out_encryptOutputLoop _ _ le_rfl,
    fun envs => out_runWriter_resume ks isTls⟩
  · exact ⟨_, runReader_encodeRecords hrs.sized (hreads.trans hrs.stream), rfl,
      hrs.written.symm⟩
  · subst htls
    have hstream : w.stream = encodeRecords ks true pos rs := hrs.stream
    rw [hstream]
    exact recordsOnly_encodeRecords (hrs.sized rfl) pos

/-- A clock that stands, delays on, and random numbers that are all zero. -/
def sampleDrsEnv : DrsEnv := ⟨true, 0, fun _ => 0, 1⟩

/-- Two bytes, with the plain writer, and then one more with the other. -/
def sampleWrites : List WriterEvent :=
  [.write [1, 2], .encrypt, .send, .write [3], .encryptDrs sampleDrsEnv]

theorem record_round_trip_sampleWrites :
    (∃ b, runReader (fun _ => 5) true 0 [[0x17, 3, 3, 0], [2, 4], [7, 0x17, 3], [3, 0, 1, 6]] =
        (b, false) ∧ b.inn = [1, 2, 3]) ∧
      RecordsOnly [0x17, 3, 3, 0, 2, 4, 7, 0x17, 3, 3, 0, 1, 6] := by
  obtain ⟨hread, hrecords, -⟩ :=
    record_round_trip (fun _ => 5) true 0 (DrsState.reset 0) sampleWrites
  have hstream : (runWriter (fun _ => 5) true (writerStart 0 (DrsState.reset 0))
      sampleWrites).stream = [0x17, 3, 3, 0, 2, 4, 7, 0x17, 3, 3, 0, 1, 6] := by decide +kernel
  obtain ⟨b, hb, -, hall⟩ :=
    hread [[0x17, 3, 3, 0], [2, 4], [7, 0x17, 3], [3, 0, 1, 6]] hstream.symm
  have hout : (runWriter (fun _ => 5) true (writerStart 0 (DrsState.reset 0))
      sampleWrites).buf.out = [] := by decide +kernel
  rw [hout, append_nil] at hall
  exact ⟨⟨b, hb, hall⟩, hstream ▸ hrecords rfl⟩

end Mtbolt.Net
