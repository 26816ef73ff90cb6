import Mathlib.Tactic

/-!
# Raw messages as byte strings

A `struct raw_message` (`net-msg.c`) denotes the byte string held by its chain of parts.  The
operations below are what the parsers use of it, on that byte string; how a message is divided
into parts does not show through any of them.  The byte type is a parameter, so that a
development can carry marks on bytes.
-/

namespace Mtbolt

variable {β : Type*}

/-- `rwm_fetch_lookup`: the first `bytes` bytes, fewer when the message is shorter.  The C
function returns the number of bytes it copied, here the length of the result. -/
def rwmFetchLookup (raw : List β) (bytes : ℕ) : List β := raw.take bytes

/-- `rwm_skip_data`: the number of bytes dropped from the front, and the rest. -/
def rwmSkipData (raw : List β) (bytes : ℕ) : ℕ × List β := (min bytes raw.length, raw.drop bytes)

/-- `rwm_fetch_data`: the bytes taken from the front, and the rest. -/
def rwmFetchData (raw : List β) (bytes : ℕ) : List β × List β := (raw.take bytes, raw.drop bytes)

/-- `rwm_fetch_data_back`: the bytes taken from the back, and what is left in front of them. -/
def rwmFetchDataBack (raw : List β) (bytes : ℕ) : List β × List β :=
  (raw.drop (raw.length - bytes), raw.take (raw.length - bytes))

/-- `rwm_trunc`: keep the first `len` bytes. -/
def rwmTrunc (raw : List β) (len : ℕ) : List β :=
  if raw.length ≤ len then raw else (rwmFetchDataBack raw (raw.length - len)).2

/-- `rwm_split_head`: the first `bytes` bytes as a message of their own, and the tail. -/
def rwmSplitHead (raw : List β) (bytes : ℕ) : List β × List β := (raw.take bytes, raw.drop bytes)

/-- `rwm_union`: append the second message to the first. -/
def rwmUnion (raw tail : List β) : List β := raw ++ tail

theorem length_rwmFetchLookup (raw : List β) (bytes : ℕ) :
    (rwmFetchLookup raw bytes).length = min bytes raw.length := List.length_take

theorem rwmTrunc_eq_take (raw : List β) (len : ℕ) : rwmTrunc raw len = raw.take len := by
  unfold rwmTrunc rwmFetchDataBack
  split_ifs with h
  · rw [List.take_of_length_le h]
  · rw [Nat.sub_sub_self (by omega)]

end Mtbolt
