import Mtbolt.Lib.EventRun
import Mtbolt.Net.TlsParse

/-!
# The answer to the start-up probe

At the start the proxy sends a ClientHello to each backend, several times, and reads the answers
(`update_domain_info`).  It reads the header of the first record, then this record and eleven bytes
more: a ChangeCipherSpec record of six bytes, which may be missing, and the header of the first
encrypted record.  With the length in there it knows what is left to read of that record, and it
asks for the difference to what it has.  When the answer is there, what else has arrived is added,
and `tls_check_server_hello` looks at all of it.

Without a ChangeCipherSpec the first eleven bytes contain six of the encrypted record itself.  If
that record is shorter, the answer is taken to be shorter than what has been read: the buffer is
made smaller than that, and the length of the next read is negative.
-/

namespace Mtbolt.ExtServer

open Net EventRun List

/-- One of the probes.  `response` holds the bytes up to `read_pos`; `responseLen` and `lengthRead`
are `response_len` and `is_encrypted_application_data_length_read`.  The probe is `capturing` in the
loop that reads what else has arrived, and `checked` when `tls_check_server_hello` has been called.
-/
inductive ProbeState
  | start
  | reading (response : List UInt8) (responseLen : ℤ) (lengthRead : Bool)
  | capturing (response : List UInt8) (responseLen : ℤ)
  | checked (response : List UInt8) (responseLen : ℤ) (report : Except String HelloReport)
  | failed

/-- What a `read` returns: some bytes, none at the end of the stream, or an error. -/
inductive ReadResult
  | bytes (chunk : List UInt8)
  | error
  deriving DecidableEq, Repr

/-- The position of the header of the first encrypted record, with `response_len` bytes read. -/
def appDataHeader (response : List UInt8) (responseLen : ℤ) : ℕ :=
  let header := (responseLen - 11).toNat
  if memEq response header changeCipherSpecRecord then header + 6 else header

/-- The read of the header. -/
def readHeader (header : List UInt8) : ProbeState :=
  if header.length ≠ 5 then .failed
  else if !memEq header 0 [0x16, 0x03, 0x03] then .failed
  else .reading header (5 + tlsReadLength header 3 + 6 + 5) false

/-- The work after a read of the response. -/
def readResponse (response : List UInt8) (responseLen : ℤ) (lengthRead : Bool) : ProbeState :=
  if (response.length : ℤ) ≠ responseLen then .reading response responseLen lengthRead
  else if !lengthRead then
    let header := appDataHeader response responseLen
    if !memEq response header [0x17, 0x03, 0x03] then .failed
    else .reading response (header + 5 + tlsReadLength response (header + 3)) true
  else .capturing response responseLen

/-- One `read`.  The system does not return more bytes than it is asked for, and none for a negative
length, which is a size larger than any object has. -/
def probeStep (requestSessionId : List UInt8) : ProbeState → ReadResult → Option ProbeState
  | .start, .bytes chunk => if 5 < chunk.length then none else some (readHeader chunk)
  | .reading response responseLen lengthRead, .bytes chunk =>
    if responseLen - response.length < 0 then none
    else if responseLen - response.length < chunk.length then none
    else some (readResponse (response ++ chunk) responseLen lengthRead)
  | .capturing response responseLen, .bytes chunk =>
    if 16384 < chunk.length then none
    else if chunk = [] then
      some (.checked response responseLen (tlsCheckServerHello response requestSessionId))
    else some (.capturing (response ++ chunk) (responseLen + chunk.length))
  | .start, .error => some .failed
  | .reading _ _ _, .error => some .failed
  | .capturing response responseLen, .error =>
    some (.checked response responseLen (tlsCheckServerHello response requestSessionId))
  | .checked _ _ _, _ => none
  | .failed, _ => none

/-- `0 <= read_pos <= response_len`. -/
def ProbeState.InBounds : ProbeState → Prop
  | .start => True
  | .reading response responseLen _ => (response.length : ℤ) ≤ responseLen
  | .capturing response responseLen => (response.length : ℤ) ≤ responseLen
  | .checked response responseLen _ => (response.length : ℤ) ≤ responseLen
  | .failed => True

/-- The bytes that some reads have returned. -/
def received (es : List ReadResult) : List UInt8 :=
  es.flatMap fun e =>
    match e with
    | .bytes chunk => chunk
    | .error => []

/-- The answer has, behind its first record, a record of encrypted data with less than six bytes,
and eleven bytes from there on have arrived. -/
structure ShortRecord (s : List UInt8) : Prop where
  start : memEq s 0 [0x16, 0x03, 0x03] = true
  arrived : 16 + tlsReadLength s 3 ≤ s.length
  header : memEq s (5 + tlsReadLength s 3) [0x17, 0x03, 0x03] = true
  short : tlsReadLength s (5 + tlsReadLength s 3 + 3) < 6

/-! ### Reading from a longer list -/

section Append

variable {s t : List UInt8} {pos : ℕ}

theorem tlsReadLength_append (h : pos + 2 ≤ s.length) :
    tlsReadLength (s ++ t) pos = tlsReadLength s pos := by
  exact Words.be16_append (by omega) t

theorem memEq_append {str : List UInt8} (h : pos + str.length ≤ s.length) :
    memEq (s ++ t) pos str = memEq s pos str := by
  unfold memEq
  rw [drop_append_of_le_length (by omega), take_append_of_le_length]
  rw [length_drop]
  omega

theorem tlsReadLength_take {n : ℕ} (h : pos + 2 ≤ n) :
    tlsReadLength (s.take n) pos = tlsReadLength s pos :=
  Words.be16_take (by omega)

theorem memEq_take {n : ℕ} {str : List UInt8} (hn : n ≤ s.length) (h : pos + str.length ≤ n) :
    memEq (s.take n) pos str = memEq s pos str := by
  have hlen : (s.take n).length = n := length_take_of_le hn
  rw [← memEq_append (t := s.drop n) (by rw [hlen]; exact h), take_append_drop]

theorem arrived_append (t : List UInt8) (h : 16 + tlsReadLength s 3 ≤ s.length) :
    16 + tlsReadLength (s ++ t) 3 ≤ (s ++ t).length := by
  rw [tlsReadLength_append (by omega), length_append]
  omega

theorem ShortRecord.append (h : ShortRecord s) (t : List UInt8) : ShortRecord (s ++ t) := by
  obtain ⟨hstart, harrived, hheader, hshort⟩ := h
  have hlen : tlsReadLength (s ++ t) 3 = tlsReadLength s 3 := tlsReadLength_append (by omega)
  refine ⟨?_, arrived_append t harrived, ?_, ?_⟩
  · rw [memEq_append (by simp; omega)]
    exact hstart
  · rw [hlen, memEq_append (by simp; omega)]
    exact hheader
  · rw [hlen, tlsReadLength_append (by omega)]
    exact hshort

/-- Whether a record is short is decided by the first eleven bytes behind the record before it. -/
theorem ShortRecord.take (h : ShortRecord s) : ShortRecord (s.take (16 + tlsReadLength s 3)) := by
  obtain ⟨hstart, harrived, hheader, hshort⟩ := h
  have hlen : tlsReadLength (s.take (16 + tlsReadLength s 3)) 3 = tlsReadLength s 3 :=
    tlsReadLength_take (by omega)
  refine ⟨?_, ?_, ?_, ?_⟩
  · rw [memEq_take harrived (by simp; omega)]
    exact hstart
  · rw [hlen, length_take_of_le harrived]
  · rw [hlen, memEq_take harrived (by simp; omega)]
    exact hheader
  · rw [hlen, tlsReadLength_take (by omega)]
    exact hshort

end Append

/-! ### The probe after some bytes -/

/-- **What is known of a probe that has read the bytes `s`.** -/
inductive ProbeOk (s : List UInt8) : ProbeState → Prop
  | start (hs : s = []) : ProbeOk s .start
  | first (hstart : memEq s 0 [0x16, 0x03, 0x03] = true) (h5 : 5 ≤ s.length)
      (hlt : s.length < 16 + tlsReadLength s 3) :
      ProbeOk s (.reading s (16 + tlsReadLength s 3) false)
  | second (responseLen : ℤ) (hshort : ¬ ShortRecord s → (s.length : ℤ) ≤ responseLen) :
      ProbeOk s (.reading s responseLen true)
  | capturing : ProbeOk s (.capturing s s.length)
  | checked (report : Except String HelloReport) : ProbeOk s (.checked s s.length report)
  | failed : ProbeOk s .failed

variable {s requestSessionId : List UInt8} {p p' : ProbeState}

theorem ProbeOk.inBounds (h : ProbeOk s p) (hlong : ¬ ShortRecord s) : p.InBounds := by
  cases h with
  | first hstart h5 hlt =>
    change (s.length : ℤ) ≤ 16 + tlsReadLength s 3
    omega
  | second responseLen hshort => exact hshort hlong
  | start | failed => trivial
  | capturing | checked => exact le_refl (s.length : ℤ)

theorem probeOk_readHeader (chunk : List UInt8) : ProbeOk chunk (readHeader chunk) := by
  unfold readHeader
  split_ifs with hlen hstart
  · exact .failed
  · exact .failed
  · have hsum : (5 + tlsReadLength chunk 3 + 6 + 5 : ℤ) = 16 + tlsReadLength chunk 3 := by ring
    rw [hsum]
    exact .first (by simpa using hstart) (by omega) (by omega)

section LengthRead

variable {s : List UInt8}

theorem appDataHeader_of_changeCipherSpec
    (h : memEq s (5 + tlsReadLength s 3) changeCipherSpecRecord = true) :
    appDataHeader s (16 + tlsReadLength s 3) = 11 + tlsReadLength s 3 := by
  have hpos : (16 + (tlsReadLength s 3 : ℤ) - 11).toNat = 5 + tlsReadLength s 3 := by omega
  simp only [appDataHeader, hpos, if_pos h]
  omega

theorem appDataHeader_of_not_changeCipherSpec
    (h : ¬ memEq s (5 + tlsReadLength s 3) changeCipherSpecRecord = true) :
    appDataHeader s (16 + tlsReadLength s 3) = 5 + tlsReadLength s 3 := by
  have hpos : (16 + (tlsReadLength s 3 : ℤ) - 11).toNat = 5 + tlsReadLength s 3 := by omega
  simp only [appDataHeader, hpos, if_neg h]

theorem ShortRecord.not_changeCipherSpec (hs : ShortRecord s) :
    ¬ memEq s (5 + tlsReadLength s 3) changeCipherSpecRecord = true := by
  intro hccs
  have h17 := hs.header
  unfold memEq at hccs h17
  rw [beq_iff_eq] at hccs h17
  have htake : ((s.drop (5 + tlsReadLength s 3)).take changeCipherSpecRecord.length).take 3 =
      (s.drop (5 + tlsReadLength s 3)).take 3 := by
    rw [take_take]
    rfl
  rw [hccs] at htake
  simp only [length_cons, length_nil] at h17
  rw [h17] at htake
  exact absurd htake (by decide)

theorem readResponse_lengthRead (hlen : s.length = 16 + tlsReadLength s 3) :
    readResponse s (16 + tlsReadLength s 3) false =
      if !memEq s (appDataHeader s (16 + tlsReadLength s 3)) [0x17, 0x03, 0x03] then .failed
      else .reading s (appDataHeader s (16 + tlsReadLength s 3) + 5 +
        tlsReadLength s (appDataHeader s (16 + tlsReadLength s 3) + 3)) true := by
  unfold readResponse
  rw [if_neg (by push_cast [hlen]; simp)]
  rfl

theorem probeOk_lengthRead (hstart : memEq s 0 [0x16, 0x03, 0x03] = true)
    (hlen : s.length = 16 + tlsReadLength s 3) :
    ProbeOk s (readResponse s (16 + tlsReadLength s 3) false) := by
  rw [readResponse_lengthRead hlen]
  by_cases hccs : memEq s (5 + tlsReadLength s 3) changeCipherSpecRecord = true
  · rw [appDataHeader_of_changeCipherSpec hccs]
    split_ifs with h17
    · exact .failed
    · -- there are at least as many bytes as have been read
      exact .second _ fun _ => by omega
  · rw [appDataHeader_of_not_changeCipherSpec hccs]
    split_ifs with h17
    · exact .failed
    · refine .second _ fun hlong => ?_
      have h6 : 6 ≤ tlsReadLength s (5 + tlsReadLength s 3 + 3) := by
        by_contra hshort
        exact hlong ⟨hstart, hlen.ge, by simpa using h17, by omega⟩
      omega

/-- After the first eleven bytes behind the first record, a short record puts the probe out of
bounds. -/
theorem readResponse_shortRecord (hs : ShortRecord s) (hlen : s.length = 16 + tlsReadLength s 3) :
    ¬ (readResponse s (16 + tlsReadLength s 3) false).InBounds := by
  have h17 := hs.header
  have hshort := hs.short
  rw [readResponse_lengthRead hlen, appDataHeader_of_not_changeCipherSpec hs.not_changeCipherSpec,
    if_neg (by rw [h17]; decide)]
  change ¬ (s.length : ℤ) ≤ ((5 + tlsReadLength s 3 : ℕ) : ℤ) + 5 +
    tlsReadLength s (5 + tlsReadLength s 3 + 3)
  omega

end LengthRead

theorem probeOk_step {e : ReadResult} (hp : ProbeOk s p)
    (h : probeStep requestSessionId p e = some p') : ProbeOk (s ++ received [e]) p' := by
  cases e with
  | error =>
    have hsame : s ++ received [.error] = s := by simp [received]
    rw [hsame]
    cases hp with
    | start | first | second =>
      cases h
      exact .failed
    | capturing =>
      cases h
      exact .checked _
    | checked | failed => cases h
  | bytes chunk =>
    have hsame : s ++ received [.bytes chunk] = s ++ chunk := by simp [received]
    rw [hsame]
    cases hp with
    | start hs =>
      subst hs
      simp only [probeStep] at h
      split_ifs at h with hlen
      cases h
      exact probeOk_readHeader chunk
    | first hstart h5 hlt =>
      simp only [probeStep] at h
      split_ifs at h with hneg hmore
      cases h
      have hread : tlsReadLength (s ++ chunk) 3 = tlsReadLength s 3 :=
        tlsReadLength_append (by omega)
      have hstart' : memEq (s ++ chunk) 0 [0x16, 0x03, 0x03] = true := by
        rw [memEq_append (by simp; omega)]
        exact hstart
      have hle : (s ++ chunk).length ≤ 16 + tlsReadLength (s ++ chunk) 3 := by
        rw [length_append]
        omega
      rw [← hread]
      rcases Nat.lt_or_eq_of_le hle with hpart | hall
      · unfold readResponse
        rw [if_pos (by omega)]
        exact .first hstart' (by rw [length_append]; omega) hpart
      · exact probeOk_lengthRead hstart' hall
    | second responseLen hshort =>
      simp only [probeStep] at h
      split_ifs at h with hneg hmore
      cases h
      -- bytes have come, so the length was not negative
      have hle : ((s ++ chunk).length : ℤ) ≤ responseLen := by
        rw [length_append]
        omega
      by_cases hpart : ((s ++ chunk).length : ℤ) = responseLen
      · rw [← hpart]
        simp only [readResponse, ne_eq, not_true_eq_false, if_false, Bool.not_true,
          Bool.false_eq_true]
        exact .capturing
      · unfold readResponse
        rw [if_pos hpart]
        exact .second _ fun _ => hle
    | capturing =>
      simp only [probeStep] at h
      split_ifs at h with hlarge hend
      · cases h
        subst hend
        rw [append_nil]
        exact .checked _
      · cases h
        have hlen : (s.length : ℤ) + chunk.length = (s ++ chunk).length := by simp
        rw [hlen]
        exact .capturing
    | checked | failed => cases h

theorem probeOk_run (es : List ReadResult) (hp : ProbeOk s p)
    (h : run (probeStep requestSessionId) p es = some p') : ProbeOk (s ++ received es) p' := by
  induction es generalizing s p with
  | nil =>
    cases h
    simpa [received] using hp
  | cons e es ih =>
    obtain ⟨q, hq, hrest⟩ := Option.bind_eq_some_iff.1 h
    have hsame : s ++ received (e :: es) = s ++ received [e] ++ received es := by
      simp [received]
    rw [hsame]
    exact ih (probeOk_step hp hq) hrest

theorem run_shortRecord (requestSessionId : List UInt8) (hs : ShortRecord s)
    (hlen : s.length = 16 + tlsReadLength s 3) :
    run (probeStep requestSessionId) .start [.bytes (s.take 5), .bytes (s.drop 5)] =
      some (readResponse s (16 + tlsReadLength s 3) false) := by
  have hread : tlsReadLength (s.take 5) 3 = tlsReadLength s 3 :=
    tlsReadLength_take (by omega)
  have hstart : memEq (s.take 5) 0 [0x16, 0x03, 0x03] = true := by
    rw [memEq_take (by omega) (by simp)]
    exact hs.start
  have htake : (s.take 5).length = 5 := by
    rw [length_take]
    omega
  have hheader : readHeader (s.take 5) = .reading (s.take 5) (16 + tlsReadLength s 3) false := by
    unfold readHeader
    rw [if_neg (by omega), if_neg (by rw [hstart]; decide), hread]
    ring_nf
  have hfirst : probeStep requestSessionId .start (.bytes (s.take 5)) =
      some (.reading (s.take 5) (16 + tlsReadLength s 3) false) := by
    simp only [probeStep, hheader]
    rw [if_neg (by omega)]
  rw [run_cons_of_eq _ hfirst, run_cons]
  simp only [probeStep]
  rw [if_neg (by omega), if_neg (by rw [length_drop]; omega), take_append_drop]
  rfl

/-- **The lengths of the probe.**  Every read of an answer `s` has `read_pos <= response_len`,
however the answer arrives, exactly if `s` has no short record.  In any case
`tls_check_server_hello` is called on bytes that have been received, `response_len` of them. -/
theorem probe_reads (requestSessionId s : List UInt8) :
    ((∀ es p, received es <+: s → run (probeStep requestSessionId) .start es = some p →
      p.InBounds) ↔ ¬ ShortRecord s) ∧
    ∀ es response responseLen report, received es <+: s →
      run (probeStep requestSessionId) .start es = some (.checked response responseLen report) →
      response = received es ∧ (response.length : ℤ) = responseLen := by
  refine ⟨⟨?_, ?_⟩, ?_⟩
  · -- the first eleven bytes behind the first record arrive in one piece
    intro hall hs
    have hlen : (s.take (16 + tlsReadLength s 3)).length =
        16 + tlsReadLength (s.take (16 + tlsReadLength s 3)) 3 := by
      rw [tlsReadLength_take (by omega), length_take_of_le hs.arrived]
    refine readResponse_shortRecord hs.take hlen
      (hall _ _ ?_ (run_shortRecord requestSessionId hs.take hlen))
    simpa [received] using take_prefix _ s
  · intro hlong es p hes hrun
    obtain ⟨t, rfl⟩ := hes
    have hp := probeOk_run es (.start rfl) hrun
    exact hp.inBounds fun hs => hlong (hs.append t)
  · intro es response responseLen report hes hrun
    have hp := probeOk_run es (.start rfl) hrun
    cases hp
    exact ⟨rfl, rfl⟩

/-- An answer whose record of encrypted data has one byte, with a ChangeCipherSpec before it. -/
def changeCipherSpecAnswer : List UInt8 :=
  [0x16, 0x03, 0x03, 0, 0] ++ changeCipherSpecRecord ++ [0x17, 0x03, 0x03, 0, 1, 0]

/-- That answer is read within bounds. -/
theorem probe_reads_changeCipherSpec :
    ¬ ShortRecord changeCipherSpecAnswer ∧
    ∀ es p, received es <+: changeCipherSpecAnswer →
      run (probeStep []) .start es = some p → p.InBounds := by
  have hlong : ¬ ShortRecord changeCipherSpecAnswer := fun hs => absurd hs.header (by decide)
  exact ⟨hlong, (probe_reads [] changeCipherSpecAnswer).1.2 hlong⟩

/-- A server that answers with an empty handshake record, an empty record of encrypted data and six
bytes more. -/
def shortAnswer : List UInt8 :=
  [0x16, 0x03, 0x03, 0, 0, 0x17, 0x03, 0x03, 0, 0, 0x17, 0x03, 0x03, 0, 1, 0]

/-- After two reads of that answer `read_pos` is 16 and `response_len` is 10. -/
theorem probe_reads_shortAnswer :
    (run (probeStep []) .start [.bytes (shortAnswer.take 5), .bytes (shortAnswer.drop 5)] =
      some (.reading shortAnswer 10 true)) ∧
    ¬ (ProbeState.reading shortAnswer 10 true).InBounds := by
  constructor
  · have hheader : readHeader (shortAnswer.take 5) = .reading (shortAnswer.take 5) 16 false := rfl
    have hresponse : readResponse shortAnswer 16 false = .reading shortAnswer 10 true := rfl
    simp only [run, probeStep]
    exact congrArg some hresponse
  · change ¬ (16 : ℤ) ≤ 10
    decide

end Mtbolt.ExtServer
