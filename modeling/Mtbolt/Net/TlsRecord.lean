import Mtbolt.Net.RawMessage

/-!
# The record layer of a client connection

Past the handshake the bytes of a client connection go through AES in counter mode, and on a
Fake-TLS connection they are also divided into TLS records.  This file has the three functions
that do so: `cpu_tcp_aes_crypto_ctr128_decrypt_input` and `..._encrypt_output`
(`net-tcp-connections.c`), and `..._encrypt_output_drs` (`net-tcp-drs.c`), which chooses the record
sizes dynamically and may hold the rest of the output back for a short time.

The cipher is a parameter `crypt key bytes`, with the key's counter in `key`.
-/

namespace Mtbolt.Net

open List

variable {κ : Type} (crypt : κ → List UInt8 → List UInt8 × κ)

/-- `rwm_encrypt_decrypt_to` with block size `1`: what is left of the source, the target, and the
key with its counter advanced. -/
def rwmEncryptDecryptTo (src dst : List UInt8) (len : ℕ) (key : κ) : List UInt8 × List UInt8 × κ :=
  let r := crypt key (src.take len)
  (src.drop len, dst ++ r.1, r.2)

/-! ### Input -/

/-- `c->in_u`, `c->in`, `T->read_aeskey` and `c->left_tls_packet_length`. -/
structure InBuf (κ : Type) where
  inU : List UInt8
  inn : List UInt8
  readAeskey : κ
  leftTlsPacketLength : ℕ
  deriving DecidableEq, Repr

/-- The decryption of the next `len` bytes. -/
def InBuf.decrypt (b : InBuf κ) (len : ℕ) : InBuf κ :=
  let r := rwmEncryptDecryptTo crypt b.inU b.inn len b.readAeskey
  { b with inU := r.1, inn := r.2.1, readAeskey := r.2.2 }

/-- The bytes of the current record. -/
def InBuf.decryptRecord (b : InBuf κ) : InBuf κ :=
  let len := min b.leftTlsPacketLength b.inU.length
  { b.decrypt crypt len with leftTlsPacketLength := b.leftTlsPacketLength - len }

/-- The length field of a record header. -/
def recordLength (header : List UInt8) : ℕ :=
  256 * (header.getD 3 0).toNat + (header.getD 4 0).toNat

/-- The loop of `cpu_tcp_aes_crypto_ctr128_decrypt_input`, at most `fuel` passes.  The `Bool` says
that the connection was failed, the number is the result. -/
def decryptInputLoop (isTls : Bool) : ℕ → InBuf κ → InBuf κ × Bool × ℤ
  | 0, b => (b, false, 0)
  | fuel + 1, b =>
    if b.inU.isEmpty then (b, false, 0)
    else if !isTls then decryptInputLoop isTls fuel (b.decrypt crypt b.inU.length)
    else if b.leftTlsPacketLength ≠ 0 then decryptInputLoop isTls fuel (b.decryptRecord crypt)
    else if b.inU.length < 5 then (b, false, 5 - b.inU.length)
    else
      let header := rwmFetchLookup b.inU 5
      if header.take 3 ≠ [0x17, 3, 3] then (b, true, 0)
      else
        let b := { b with
          inU := (rwmSkipData b.inU 5).2, leftTlsPacketLength := recordLength header }
        decryptInputLoop isTls fuel (b.decryptRecord crypt)

/-- `cpu_tcp_aes_crypto_ctr128_decrypt_input`; every pass uses up a byte of `in_u`. -/
def ctr128DecryptInput (isTls : Bool) (b : InBuf κ) : InBuf κ × Bool × ℤ :=
  decryptInputLoop crypt isTls b.inU.length b

/-- What is left of the input when the decryption ends without an error: nothing, or the first bytes
of a record header. -/
def InBuf.Decrypted (isTls : Bool) (r : InBuf κ × Bool × ℤ) : Prop :=
  0 ≤ r.2.2 ∧ (r.2.1 = true ∨ r.1.inU = [] ∨ isTls = true ∧ r.1.inU.length < 5)

theorem InBuf.length_decryptRecord_lt {b : InBuf κ} (hleft : b.leftTlsPacketLength ≠ 0)
    (hinU : b.inU ≠ []) : (b.decryptRecord crypt).inU.length < b.inU.length := by
  have hpos : 0 < b.inU.length := length_pos_of_ne_nil hinU
  simp only [InBuf.decryptRecord, InBuf.decrypt, rwmEncryptDecryptTo, length_drop]
  omega

theorem InBuf.length_decryptRecord_le (b : InBuf κ) :
    (b.decryptRecord crypt).inU.length ≤ b.inU.length := by
  simp [InBuf.decryptRecord, InBuf.decrypt, rwmEncryptDecryptTo]

variable {fuel : ℕ}

theorem decrypted_decryptInputLoop (isTls : Bool) {b : InBuf κ} (hfuel : b.inU.length ≤ fuel) :
    InBuf.Decrypted isTls (decryptInputLoop crypt isTls fuel b) := by
  induction fuel generalizing b with
  | zero => exact ⟨le_rfl, .inr (.inl (length_eq_zero_iff.1 (Nat.le_zero.1 hfuel)))⟩
  | succ fuel ih =>
    rw [decryptInputLoop]
    dsimp only
    split_ifs with hempty htls hleft hshort hheader
    · exact ⟨le_rfl, .inr (.inl (isEmpty_iff.1 hempty))⟩
    · refine ih ?_
      simp [InBuf.decrypt, rwmEncryptDecryptTo]
    · have hlt := InBuf.length_decryptRecord_lt crypt hleft (mt isEmpty_iff.2 hempty)
      exact ih (by omega)
    · exact ⟨by simp only; omega, .inr (.inr ⟨by simpa using htls, hshort⟩)⟩
    · exact ⟨le_rfl, .inl rfl⟩
    · refine ih ((InBuf.length_decryptRecord_le crypt _).trans ?_)
      simp only [rwmSkipData, length_drop]
      omega

/-- **The decryption leaves nothing behind** but the first bytes of a record header. -/
theorem decrypted_ctr128DecryptInput (isTls : Bool) (b : InBuf κ) :
    InBuf.Decrypted isTls (ctr128DecryptInput crypt isTls b) :=
  decrypted_decryptInputLoop crypt isTls le_rfl

/-! ### Output -/

/-- `c->out`, `c->out_p` and `T->write_aeskey`. -/
structure OutBuf (κ : Type) where
  out : List UInt8
  outP : List UInt8
  writeAeskey : κ
  deriving DecidableEq, Repr

/-- The header of an application data record. -/
def recordHeader (len : ℕ) : List UInt8 :=
  [0x17, 3, 3, UInt8.ofNat (len >>> 8), UInt8.ofNat (len &&& 255)]

/-- One pass of either writer: a record of at most `maxLen` bytes, or everything when the
connection does not speak TLS. -/
def OutBuf.encryptRecord (isTls : Bool) (maxLen : ℕ) (o : OutBuf κ) : OutBuf κ :=
  let len := if isTls then min maxLen o.out.length else o.out.length
  let outP := if isTls then o.outP ++ recordHeader len else o.outP
  let r := rwmEncryptDecryptTo crypt o.out outP len o.writeAeskey
  { out := r.1, outP := r.2.1, writeAeskey := r.2.2 }

variable {o : OutBuf κ}

theorem OutBuf.length_encryptRecord_lt (isTls : Bool) {maxLen : ℕ} (hmax : 0 < maxLen)
    (ho : o.out ≠ []) : (o.encryptRecord crypt isTls maxLen).out.length < o.out.length := by
  have hpos : 0 < o.out.length := length_pos_of_ne_nil ho
  unfold OutBuf.encryptRecord rwmEncryptDecryptTo
  rw [length_drop]
  split_ifs <;> omega

/-- `MAX_PACKET_LENGTH`. -/
def maxPacketLength : ℕ := 1425

/-- The loop of `cpu_tcp_aes_crypto_ctr128_encrypt_output`, at most `fuel` passes. -/
def encryptOutputLoop (isTls : Bool) : ℕ → OutBuf κ → OutBuf κ
  | 0, o => o
  | fuel + 1, o =>
    if o.out.isEmpty then o
    else encryptOutputLoop isTls fuel (o.encryptRecord crypt isTls maxPacketLength)

/-- `cpu_tcp_aes_crypto_ctr128_encrypt_output`; every pass uses up a byte of `out`. -/
def ctr128EncryptOutput (isTls : Bool) (o : OutBuf κ) : OutBuf κ :=
  encryptOutputLoop crypt isTls o.out.length o

theorem OutBuf.isPrefix_encryptRecord (isTls : Bool) (maxLen : ℕ) (o : OutBuf κ) :
    o.outP <+: (o.encryptRecord crypt isTls maxLen).outP := by
  unfold OutBuf.encryptRecord rwmEncryptDecryptTo
  dsimp only
  split_ifs
  · rw [append_assoc]
    exact prefix_append _ _
  · exact prefix_append _ _

theorem isPrefix_encryptOutputLoop (isTls : Bool) (fuel : ℕ) (o : OutBuf κ) :
    o.outP <+: (encryptOutputLoop crypt isTls fuel o).outP := by
  induction fuel generalizing o with
  | zero => exact prefix_refl _
  | succ fuel ih =>
    rw [encryptOutputLoop]
    split_ifs
    · exact prefix_refl _
    · exact (o.isPrefix_encryptRecord crypt isTls maxPacketLength).trans (ih _)

theorem out_encryptOutputLoop (isTls : Bool) (h : o.out.length ≤ fuel) :
    (encryptOutputLoop crypt isTls fuel o).out = [] := by
  induction fuel generalizing o with
  | zero => exact length_eq_zero_iff.1 (Nat.le_zero.1 h)
  | succ fuel ih =>
    rw [encryptOutputLoop]
    split_ifs with hempty
    · exact isEmpty_iff.1 hempty
    · have hlt : (o.encryptRecord crypt isTls maxPacketLength).out.length < o.out.length :=
        OutBuf.length_encryptRecord_lt crypt isTls (by decide) (mt isEmpty_iff.2 hempty)
      exact ih (by omega)

/-! ### Dynamic record sizing -/

/-- `struct drs_state`. -/
structure DrsState where
  recordIndex : ℕ
  totalRecords : ℕ
  lastRecordTime : ℚ
  delayPending : Bool
  deriving DecidableEq, Repr

/-- The state as the handshake sets it. -/
def DrsState.reset (preciseNow : ℚ) : DrsState where
  recordIndex := 0
  totalRecords := 0
  lastRecordTime := preciseNow
  delayPending := false

/-- `DRS_PHASE1_END`. -/
def drsPhase1End : ℕ := 40

/-- `DRS_PHASE2_END`. -/
def drsPhase2End : ℕ := 60

/-- `DRS_BURST_THRESHOLD`, which is `DRS_SIZE_MAX`. -/
def drsBurstThreshold : ℕ := 16144

/-- `DRS_DELAY_RECORDS`. -/
def drsDelayRecords : ℕ := 1

/-- `drs_record_size`, with the value of `lrand48_j ()`. -/
def drsRecordSize (recordIndex lrand48 : ℕ) : ℕ :=
  let base := if recordIndex < drsPhase1End then 1450
    else if recordIndex < drsPhase2End then 4096 else 16144
  let size := base + lrand48 % 201 - 100
  if size < 64 then 64 else size

theorem drsRecordSize_pos (recordIndex lrand48 : ℕ) : 0 < drsRecordSize recordIndex lrand48 := by
  have hclamp : ∀ size : ℕ, 0 < if size < 64 then 64 else size := by
    intro size
    split_ifs <;> omega
  exact hclamp _

/-- What the writer finds outside the connection: `drs_delays_enabled`, the clock, the random
numbers of its passes and the sampled delay. -/
structure DrsEnv where
  drsDelaysEnabled : Bool
  preciseNow : ℚ
  lrand48 : ℕ → ℕ
  sampleDelay : ℚ

/-- The resets after `DRS_RESET_AFTER` and `DRS_DELAY_RESET_AFTER` seconds without a record. -/
def DrsState.afterIdle (preciseNow : ℚ) (drs : DrsState) : DrsState :=
  let idle := preciseNow - drs.lastRecordTime
  let drs := if 1 < idle then { drs with recordIndex := 0, delayPending := false } else drs
  if 30 < idle then { drs with totalRecords := 0 } else drs

/-- The state after one more record. -/
def DrsState.countRecord (preciseNow : ℚ) (drs : DrsState) : DrsState :=
  { drs with
    recordIndex := drs.recordIndex + 1
    totalRecords := drs.totalRecords + 1
    lastRecordTime := preciseNow }

/-- The next record goes out at once: a bulk transfer, a sustained one, or not the first record
after a reset. -/
def DrsState.noDelay (drs : DrsState) (left : ℕ) : Bool :=
  drsBurstThreshold < left || drsPhase2End ≤ drs.totalRecords || drsDelayRecords < drs.recordIndex

/-- The record of one pass of the loop, and the count of it. -/
def drsRecord (env : DrsEnv) (isTls : Bool) (lrand48 : ℕ) (o : OutBuf κ) (drs : DrsState) :
    OutBuf κ × DrsState :=
  if isTls then
    let drs := drs.afterIdle env.preciseNow
    (o.encryptRecord crypt true (drsRecordSize drs.recordIndex lrand48),
      drs.countRecord env.preciseNow)
  else (o.encryptRecord crypt false o.out.length, drs)

/-- The loop of `cpu_tcp_aes_crypto_ctr128_encrypt_output_drs`, at most `fuel` passes.  The last
component is the time for which the timer is set. -/
def encryptOutputDrsLoop (env : DrsEnv) (isTls : Bool) :
    ℕ → OutBuf κ → DrsState → OutBuf κ × DrsState × Option ℚ
  | 0, o, drs => (o, drs, none)
  | fuel + 1, o, drs =>
    if o.out.isEmpty then (o, drs, none)
    else
      let r := drsRecord crypt env isTls (env.lrand48 fuel) o drs
      if env.drsDelaysEnabled && isTls && !r.1.out.isEmpty && !r.2.noDelay r.1.out.length then
        (r.1, { r.2 with delayPending := true }, some (env.preciseNow + env.sampleDelay))
      else encryptOutputDrsLoop env isTls fuel r.1 r.2

/-- `cpu_tcp_aes_crypto_ctr128_encrypt_output_drs`; every pass uses up a byte of `out`. -/
def encryptOutputDrs (env : DrsEnv) (isTls : Bool) (o : OutBuf κ) (drs : DrsState) :
    OutBuf κ × DrsState × Option ℚ :=
  if isTls && drs.delayPending then (o, drs, none)
  else encryptOutputDrsLoop crypt env isTls o.out.length o drs

variable {drs : DrsState}

theorem DrsState.delayPending_afterIdle {preciseNow : ℚ} (h : drs.delayPending = false) :
    (drs.afterIdle preciseNow).delayPending = false := by
  unfold DrsState.afterIdle
  dsimp only
  split_ifs <;> first | rfl | exact h

variable (env : DrsEnv) (isTls : Bool)

theorem delayPending_drsRecord (lrand48 : ℕ) (o : OutBuf κ) (h : drs.delayPending = false) :
    (drsRecord crypt env isTls lrand48 o drs).2.delayPending = false := by
  cases isTls with
  | false => exact h
  | true => exact DrsState.delayPending_afterIdle h

theorem length_drsRecord_lt (lrand48 : ℕ) (drs : DrsState) (ho : o.out ≠ []) :
    (drsRecord crypt env isTls lrand48 o drs).1.out.length < o.out.length := by
  cases isTls with
  | false => exact OutBuf.length_encryptRecord_lt crypt false (length_pos_of_ne_nil ho) ho
  | true => exact OutBuf.length_encryptRecord_lt crypt true (drsRecordSize_pos _ _) ho

/-- The outcomes of the writer when it found no delay pending. -/
def DrsOutcome (env : DrsEnv) (r : OutBuf κ × DrsState × Option ℚ) : Prop :=
  (r.1.out = [] ∧ r.2.1.delayPending = false ∧ r.2.2 = none) ∨
    (r.2.1.delayPending = true ∧ r.2.2 = some (env.preciseNow + env.sampleDelay))

theorem encryptOutputDrsLoop_outcome (hdrs : drs.delayPending = false)
    (hfuel : o.out.length ≤ fuel) :
    DrsOutcome env (encryptOutputDrsLoop crypt env isTls fuel o drs) := by
  induction fuel generalizing o drs with
  | zero => exact .inl ⟨length_eq_zero_iff.1 (Nat.le_zero.1 hfuel), hdrs, rfl⟩
  | succ fuel ih =>
    rw [encryptOutputDrsLoop]
    dsimp only
    split_ifs with hempty hdelay
    · exact .inl ⟨isEmpty_iff.1 hempty, hdrs, rfl⟩
    · exact .inr ⟨rfl, rfl⟩
    · have hlt := length_drsRecord_lt crypt env isTls (env.lrand48 fuel) drs
        (mt isEmpty_iff.2 hempty)
      exact ih (delayPending_drsRecord crypt env isTls _ o hdrs) (by omega)

/-- **Output is held back only under a timer.** A writer that finds no delay pending leaves no
output behind, or a pending delay with a time at which it ends. -/
theorem encryptOutputDrs_outcome (o : OutBuf κ) (hdrs : drs.delayPending = false) :
    DrsOutcome env (encryptOutputDrs crypt env isTls o drs) := by
  rw [encryptOutputDrs, hdrs, Bool.and_false]
  exact encryptOutputDrsLoop_outcome crypt env isTls hdrs le_rfl

theorem encryptOutputDrs_of_out_eq_nil (ho : o.out = []) (drs : DrsState) :
    encryptOutputDrs crypt env isTls o drs = (o, drs, none) := by
  rw [encryptOutputDrs, ho]
  split_ifs <;> rfl

end Mtbolt.Net
