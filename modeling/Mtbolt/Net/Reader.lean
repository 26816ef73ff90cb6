import Mtbolt.Net.RawMessage

/-!
# The reader of a connection

`cpu_tcp_server_reader` (`net-tcp-connections.c`) moves what the I/O side has received into the
parse buffer, through the cipher once there is one, and calls `parse_execute` of the connection's
type as long as it makes progress.  The counter `skip_bytes` carries the parser's last answer to
the next run: a positive value withholds the buffer until it is that long, a negative one drops
that many bytes.
-/

namespace Mtbolt.Net

open Bool

/-- `NEED_MORE_BYTES`. -/
def needMoreBytes : ℤ := 0x7fffffff

/-- The fields of `struct connection_info` that the reader uses.  `failed` stands for `C_ERROR`,
`C_FAILED`, `C_NET_FAILED` and `conn_error`, which the reader does not tell apart; `data` is what
only the parser of the connection's type knows. -/
structure ConnInfo (β κ δ : Type) where
  inQueue : List (List β)
  inU : List β
  inn : List β
  crypto : Option κ
  skipBytes : ℤ
  failed : Bool
  stopRead : Bool
  data : δ

/-- `crypto_decrypt_input` and `parse_execute` of a connection's type, with their results. -/
structure ConnFuncs (β κ δ : Type) where
  cryptoDecryptInput : ConnInfo β κ δ → ConnInfo β κ δ × ℤ
  parseExecute : ConnInfo β κ δ → ConnInfo β κ δ × ℤ

variable {β κ δ : Type}

/-- The loop over `in_queue` at the start of the reader. -/
def ConnInfo.popAll (c : ConnInfo β κ δ) : ConnInfo β κ δ :=
  if c.crypto.isSome then { c with inU := rwmUnion c.inU c.inQueue.flatten, inQueue := [] }
  else { c with inn := rwmUnion c.inn c.inQueue.flatten, inQueue := [] }

/-- The reader cannot call the parser. -/
def ConnInfo.blocked (c : ConnInfo β κ δ) : Bool :=
  c.skipBytes ≠ 0 || c.failed || c.stopRead || c.inn.isEmpty

/-- The treatment of `skip_bytes` before the parser is called. -/
def ConnInfo.applySkip (c : ConnInfo β κ δ) : ConnInfo β κ δ :=
  if c.skipBytes < 0 then
    let r1 := min c.inn.length (-c.skipBytes).toNat
    { c with inn := (rwmSkipData c.inn r1).2, skipBytes := c.skipBytes + r1 }
  else if 0 < c.skipBytes ∧ c.skipBytes ≤ c.inn.length then { c with skipBytes := 0 }
  else c

/-- `skip_bytes` after the parser asked for more bytes or to skip some. -/
def ConnInfo.setSkip (c : ConnInfo β κ δ) (res : ℤ) : ConnInfo β κ δ :=
  let bytes := if c.crypto.isSome then c.inn.length else c.inU.length
  { c with skipBytes := if res < 0 then res - bytes else res + bytes }

/-- The loop that calls the parser, at most `fuel` times. -/
def readerLoop (f : ConnFuncs β κ δ) : ℕ → ConnInfo β κ δ → ConnInfo β κ δ
  | 0, c => c
  | fuel + 1, c =>
    if c.blocked then c
    else
      let r := f.parseExecute c
      if r.2 = 0 then readerLoop f fuel r.1
      else if r.2 ≠ needMoreBytes then r.1.setSkip r.2
      else r.1

/-- `cpu_tcp_server_reader`.  The parser is called at most once more than there are bytes. -/
def reader (f : ConnFuncs β κ δ) (c : ConnInfo β κ δ) : ConnInfo β κ δ :=
  let c := c.popAll
  let r := if c.crypto.isSome then f.cryptoDecryptInput c else (c, 0)
  if r.2 < 0 then r.1
  else if r.1.failed || r.1.stopRead then r.1
  else
    let c := r.1.applySkip
    readerLoop f (c.inU.length + c.inn.length + 1) c

/-- The connection with the received bytes in its buffers, deciphered, and the cipher's result. -/
def fetchInput (f : ConnFuncs β κ δ) (c : ConnInfo β κ δ) : ConnInfo β κ δ × ℤ :=
  if c.popAll.crypto.isSome then f.cryptoDecryptInput c.popAll else (c.popAll, 0)

/-- The reader, run on `c`, calls the parser. -/
def reachesParser (f : ConnFuncs β κ δ) (c : ConnInfo β κ δ) : Bool :=
  0 ≤ (fetchInput f c).2 && !(fetchInput f c).1.applySkip.blocked

/-! ### Reasoning about a run -/

section Rules

variable {f : ConnFuncs β κ δ}

variable {I : ConnInfo β κ δ → Prop} {c : ConnInfo β κ δ}

theorem readerLoop_invariant (hskip : ∀ c res, I c → I (c.setSkip res))
    (hparse : ∀ c, I c → c.blocked = false → I (f.parseExecute c).1) (fuel : ℕ) (hc : I c) :
    I (readerLoop f fuel c) := by
  induction fuel generalizing c with
  | zero => exact hc
  | succ fuel ih =>
    rw [readerLoop]
    dsimp only
    split_ifs with hblocked
    · exact hc
    all_goals have hnext := hparse c hc (not_eq_true _ ▸ hblocked)
    · exact ih hnext
    · exact hskip _ _ hnext
    · exact hnext

theorem reader_invariant (hpop : ∀ c, I c → I c.popAll)
    (hdecrypt : ∀ c, I c → c.crypto.isSome = true → I (f.cryptoDecryptInput c).1)
    (happly : ∀ c, I c → I c.applySkip) (hskip : ∀ c res, I c → I (c.setSkip res))
    (hparse : ∀ c, I c → c.blocked = false → I (f.parseExecute c).1) (hc : I c) :
    I (reader f c) := by
  have hpopped := hpop c hc
  unfold reader
  dsimp only
  split_ifs with hcrypto
  · exact hdecrypt _ hpopped hcrypto
  · exact hdecrypt _ hpopped hcrypto
  · exact readerLoop_invariant hskip hparse _ (happly _ (hdecrypt _ hpopped hcrypto))
  · exact hpopped
  · exact hpopped
  · exact readerLoop_invariant hskip hparse _ (happly _ hpopped)

variable {Q : ConnInfo β κ δ → Prop} {μ : ConnInfo β κ δ → ℕ} {c : ConnInfo β κ δ}

/-- A rule for a parser that answers `0` or `NEED_MORE_BYTES`, so that `skip_bytes` is not set: what
holds at the end of the loop may be weaker than what each pass finds. -/
theorem readerLoop_of_answers (hend : ∀ c, I c → Q c)
    (hparse : ∀ c, I c → c.blocked = false → (f.parseExecute c).2 = 0 ∧ I (f.parseExecute c).1 ∨
      (f.parseExecute c).2 = needMoreBytes ∧ Q (f.parseExecute c).1)
    (fuel : ℕ) (hc : I c) : Q (readerLoop f fuel c) := by
  have hne : needMoreBytes ≠ 0 := by decide
  induction fuel generalizing c with
  | zero => exact hend c hc
  | succ fuel ih =>
    rw [readerLoop]
    by_cases hblocked : c.blocked = true
    · rw [if_pos hblocked]
      exact hend c hc
    · rw [if_neg hblocked]
      rcases hparse c hc (not_eq_true _ ▸ hblocked) with ⟨hzero, hnext⟩ | ⟨hmore, hlast⟩
      · rw [if_pos hzero]
        exact ih hnext
      · rw [if_neg (hmore ▸ hne), if_neg (not_not.2 hmore)]
        exact hlast

variable (c)

@[simp] theorem ConnInfo.failed_applySkip : c.applySkip.failed = c.failed := by
  unfold ConnInfo.applySkip
  split_ifs <;> rfl

@[simp] theorem ConnInfo.stopRead_applySkip : c.applySkip.stopRead = c.stopRead := by
  unfold ConnInfo.applySkip
  split_ifs <;> rfl

@[simp] theorem ConnInfo.crypto_applySkip : c.applySkip.crypto = c.crypto := by
  unfold ConnInfo.applySkip
  split_ifs <;> rfl

@[simp] theorem ConnInfo.data_applySkip : c.applySkip.data = c.data := by
  unfold ConnInfo.applySkip
  split_ifs <;> rfl

@[simp] theorem ConnInfo.data_popAll : c.popAll.data = c.data := by
  unfold ConnInfo.popAll
  split_ifs <;> rfl

theorem reader_eq :
    reader f c =
      let r := fetchInput f c
      if r.2 < 0 then r.1
      else if r.1.failed || r.1.stopRead then r.1
      else
        readerLoop f (r.1.applySkip.inU.length + r.1.applySkip.inn.length + 1) r.1.applySkip := rfl

variable {c}

theorem reader_of_not_reachesParser (h : reachesParser f c = false) :
    reader f c = (fetchInput f c).1 ∨ reader f c = (fetchInput f c).1.applySkip := by
  rw [reader_eq]
  by_cases hneg : (fetchInput f c).2 < 0
  · exact .inl (if_pos hneg)
  · rw [if_neg hneg]
    have hblocked : (fetchInput f c).1.applySkip.blocked = true := by
      simpa [reachesParser, not_lt.1 hneg] using h
    split_ifs
    · exact .inl rfl
    · exact .inr (by rw [readerLoop, hblocked, if_pos rfl])

theorem reader_of_clear (hc : c.crypto = none) :
    reader f c =
      let c' : ConnInfo β κ δ := { c with inn := c.inn ++ c.inQueue.flatten, inQueue := [] }
      if c.failed || c.stopRead then c'
      else readerLoop f (c'.applySkip.inU.length + c'.applySkip.inn.length + 1) c'.applySkip := by
  simp [reader, ConnInfo.popAll, hc, rwmUnion]

/-- The loop when the next call of the parser blocks the reader or answers with a number. -/
theorem readerLoop_of_blocked (hopen : c.blocked = false)
    (h : (f.parseExecute c).2 = 0 → (f.parseExecute c).1.blocked = true) (fuel : ℕ) :
    readerLoop f (fuel + 1) c =
      let r := f.parseExecute c
      if r.2 = 0 ∨ r.2 = needMoreBytes then r.1 else r.1.setSkip r.2 := by
  rw [readerLoop]
  rw [hopen, if_neg Bool.false_ne_true]
  by_cases hzero : (f.parseExecute c).2 = 0
  · rw [if_pos hzero, if_pos (.inl hzero)]
    cases fuel with
    | zero => rfl
    | succ fuel => rw [readerLoop, h hzero, if_pos rfl]
  · rw [if_neg hzero]
    by_cases hmore : (f.parseExecute c).2 = needMoreBytes
    · rw [if_neg (not_not.2 hmore), if_pos (.inr hmore)]
    · rw [if_pos hmore, if_neg (not_or.2 ⟨hzero, hmore⟩)]

/-- **The postcondition rule of the loop**, for a parser that keeps `I` and lowers a measure as long
as it answers `0`. -/
theorem readerLoop_post
    (hend : ∀ c, I c → c.blocked = true → Q c)
    (hzero : ∀ c, I c → c.blocked = false → (f.parseExecute c).2 = 0 → I (f.parseExecute c).1 ∧
      μ (f.parseExecute c).1 < μ c)
    (hmore : ∀ c, I c → c.blocked = false → (f.parseExecute c).2 = needMoreBytes →
      Q (f.parseExecute c).1)
    (hskip : ∀ c, I c → c.blocked = false → (f.parseExecute c).2 ≠ 0 →
      (f.parseExecute c).2 ≠ needMoreBytes → Q ((f.parseExecute c).1.setSkip (f.parseExecute c).2))
    {fuel : ℕ} (hc : I c) (hfuel : μ c < fuel) : Q (readerLoop f fuel c) := by
  induction fuel generalizing c with
  | zero => omega
  | succ fuel ih =>
    rw [readerLoop]
    dsimp only
    split_ifs with hblocked h0 hn
    · exact hend c hc hblocked
    all_goals have hopen := not_eq_true _ ▸ hblocked
    · obtain ⟨hI, hlt⟩ := hzero c hc hopen h0
      exact ih hI (by omega)
    · exact hskip c hc hopen h0 hn
    · exact hmore c hc hopen (not_not.1 hn)

/-- **More passes change nothing** when each answer `0` lowers a measure or blocks the reader. -/
theorem readerLoop_eq_of_lt
    (hμ : ∀ c, c.blocked = false → (f.parseExecute c).2 = 0 → (f.parseExecute c).1.blocked = true ∨
      μ (f.parseExecute c).1 < μ c)
    {m n : ℕ} (hm : μ c < m) (hn : μ c < n) : readerLoop f m c = readerLoop f n c := by
  induction m generalizing c n with
  | zero => omega
  | succ m ih =>
    obtain ⟨n, rfl⟩ : ∃ n', n = n' + 1 := ⟨n - 1, by omega⟩
    rw [readerLoop, readerLoop]
    dsimp only
    split_ifs with hblocked hzero
    · rfl
    · rcases hμ c (not_eq_true _ ▸ hblocked) hzero with h | h
      · cases m <;> cases n <;> simp [readerLoop, h]
      · exact ih (by omega) (by omega)
    · rfl
    · rfl

end Rules

/-! ### The calls of the parser -/

/-- The connections on which the loop calls the parser. -/
def parserCalls (f : ConnFuncs β κ δ) : ℕ → ConnInfo β κ δ → List (ConnInfo β κ δ)
  | 0, _ => []
  | fuel + 1, c =>
    if c.blocked then []
    else
      let r := f.parseExecute c
      c :: if r.2 = 0 then parserCalls f fuel r.1 else []

/-- The connections on which a run of the reader calls the parser. -/
def readerCalls (f : ConnFuncs β κ δ) (c : ConnInfo β κ δ) : List (ConnInfo β κ δ) :=
  let r := fetchInput f c
  if r.2 < 0 then []
  else if r.1.failed || r.1.stopRead then []
  else parserCalls f (r.1.applySkip.inU.length + r.1.applySkip.inn.length + 1) r.1.applySkip

section Calls

variable {f : ConnFuncs β κ δ} {I : ConnInfo β κ δ → Prop}

theorem parserCalls_invariant
    (hparse : ∀ c, I c → c.blocked = false → I (f.parseExecute c).1) (fuel : ℕ) (hc : I c) :
    ∀ c' ∈ parserCalls f fuel c, I c' ∧ c'.blocked = false := by
  induction fuel generalizing c with
  | zero => exact fun c' h => absurd h List.not_mem_nil
  | succ fuel ih =>
    intro c' hc'
    rw [parserCalls] at hc'
    split_ifs at hc' with hblocked
    · cases hc'
    · have hopen := not_eq_true _ ▸ hblocked
      dsimp only at hc'
      split_ifs at hc' with hzero
      · rcases List.mem_cons.1 hc' with rfl | hlater
        · exact ⟨hc, hopen⟩
        · exact ih (hparse c hc hopen) c' hlater
      · rw [List.mem_singleton.1 hc']
        exact ⟨hc, hopen⟩

/-- **The parser is called** on connections that have what the pieces of a run keep. -/
theorem readerCalls_invariant (hpop : ∀ c, I c → I c.popAll)
    (hdecrypt : ∀ c, I c → c.crypto.isSome = true → I (f.cryptoDecryptInput c).1)
    (happly : ∀ c, I c → I c.applySkip)
    (hparse : ∀ c, I c → c.blocked = false → I (f.parseExecute c).1) (hc : I c) :
    ∀ c' ∈ readerCalls f c, I c' ∧ c'.blocked = false := by
  have hfetch : I (fetchInput f c).1 := by
    unfold fetchInput
    split_ifs with hcrypto
    · exact hdecrypt _ (hpop c hc) hcrypto
    · exact hpop c hc
  intro c' hc'
  unfold readerCalls at hc'
  dsimp only at hc'
  split_ifs at hc'
  · cases hc'
  · cases hc'
  · exact parserCalls_invariant hparse _ (happly _ hfetch) c' hc'

end Calls

end Mtbolt.Net
