import Mtbolt.Lib.CString
import Mtbolt.Secrets.Table

/-!
# Secrets in the configuration file

`parse_secrets` (`toml-config.c`) takes the secrets with their limits from the TOML configuration.
The four limits pass through 64-bit numbers, a multiplication by a unit and, for two of them, a
conversion to `int`; a limit of another type than expected is ignored.  The TOML parser itself, which
refuses integers outside 64 bits, is not modelled: its result is a `Datum`.
-/

namespace Mtbolt.Secrets

open CString List

/-! ### Data -/

/-- The fields of a TOML timestamp; `tz` is the offset in minutes, if there is one. -/
structure Timestamp where
  year : ℤ
  month : ℤ
  day : ℤ
  hour : ℤ
  minute : ℤ
  second : ℤ
  tz : Option ℤ
  deriving DecidableEq, Repr

/-- `toml_datum_t`.  Dates and times alone, which no modelled function reads, are with the booleans
in `other`. -/
inductive Datum
  | unknown
  | string (s : List UInt8)
  | int64 (n : BitVec 64)
  | fp64 (q : ℚ)
  | datetime (ts : Timestamp)
  | other
  | array (elem : List Datum)
  | table (kvs : List (String × Datum))

/-- `toml_get`. -/
def tomlGet (d : Datum) (key : String) : Datum :=
  match d with
  | .table kvs => ((kvs.find? fun kv => kv.1 = key).map Prod.snd).getD .unknown
  | _ => .unknown

/-- A string as text. -/
def textOf (s : List UInt8) : String := String.ofList ((ofBuffer s).map fun b => Char.ofNat b.toNat)

/-! ### The parts of an entry -/

/-- The value of a hexadecimal digit. -/
def hexDigit (c : UInt8) : Option ℕ :=
  if 0x30 ≤ c ∧ c ≤ 0x39 then some (c.toNat - 0x30)
  else if 0x61 ≤ c ∧ c ≤ 0x66 then some (c.toNat - 0x61 + 10)
  else if 0x41 ≤ c ∧ c ≤ 0x46 then some (c.toNat - 0x41 + 10)
  else none

/-- The bytes of hexadecimal digits. -/
def hexBytes : List UInt8 → Option (List UInt8)
  | [] => some []
  | [_] => none
  | a :: b :: s => do
    let x ← hexDigit a
    let y ← hexDigit b
    let rest ← hexBytes s
    return UInt8.ofNat (x * 16 + y) :: rest

/-- `toml_config_parse_hex_secret`. -/
def parseHexSecret (hex : List UInt8) : Option (List UInt8) :=
  if (ofBuffer hex).length ≠ 32 then none else hexBytes (ofBuffer hex)

/-- `validate_label`. -/
def validateLabel (label : List UInt8) : Bool :=
  (ofBuffer label).all fun c =>
    (0x61 ≤ c && c ≤ 0x7a) || (0x41 ≤ c && c ≤ 0x5a) || (0x30 ≤ c && c ≤ 0x39) ||
      c = 0x5f || c = 0x2d

/-- `toupper`. -/
def toUpper (b : UInt8) : UInt8 := if 0x61 ≤ b ∧ b ≤ 0x7a then b - 0x20 else b

/-- `(long long)n`, as the multiplication of `long long` wraps. -/
def wrap64 (n : ℤ) : ℤ := n.bmod (2 ^ 64)

/-- The unit at the end pointer, and the text behind it. -/
def splitUnit (e : List UInt8) : ℤ × List UInt8 :=
  match e with
  | [] => (1, [])
  | b :: t =>
    if toUpper b = 0x4b then (1024, t)
    else if toUpper b = 0x4d then (1024 ^ 2, t)
    else if toUpper b = 0x47 then (1024 ^ 3, t)
    else if toUpper b = 0x54 then (1024 ^ 4, t)
    else (1, b :: t)

/-- The optional trailing `B`. -/
def skipB (e : List UInt8) : List UInt8 :=
  match e with
  | [] => []
  | b :: t => if toUpper b = 0x42 then t else b :: t

/-- `parse_byte_size`; `-1` for an invalid text. -/
def parseByteSize (s : List UInt8) : ℤ :=
  let text := ofBuffer s
  let r := strtol text
  if r.2 = text ∨ r.1 < 0 then -1
  else
    let unit := splitUnit r.2
    if skipB unit.2 ≠ [] then -1 else wrap64 (r.1 * unit.1)

/-- `limit` and `max_ips`: an integer, stored as an `int`; anything else is ignored. -/
def countField (i : ℕ) (name : String) (d : Datum) : Except String ℤ :=
  match d with
  | .int64 n =>
    if n.toInt < 0 then .error s!"secret[{i}]: {name} must be non-negative"
    else .ok (toInt n.toInt)
  | _ => .ok 0

/-- `quota` and `rate_limit`: an integer or a size, stored as a `long long`; anything else is
ignored. -/
def sizeField (i : ℕ) (name : String) (d : Datum) : Except String ℤ :=
  match d with
  | .int64 n =>
    if n.toInt < 0 then .error s!"secret[{i}]: {name} must be non-negative" else .ok n.toInt
  | .string s =>
    if parseByteSize s < 0 then
      let text := textOf s
      .error s!"secret[{i}]: invalid {name} '{text}'"
    else .ok (parseByteSize s)
  | _ => .ok 0

/-- `toml_ts_to_epoch`, with `timegm`. -/
def tsToEpoch (timegm : Timestamp → ℤ) (ts : Timestamp) : ℤ := timegm ts - ts.tz.getD 0 * 60

/-- `expires`: a timestamp or an integer. -/
def expiresField (timegm : Timestamp → ℤ) (i : ℕ) (d : Datum) : Except String ℤ :=
  match d with
  | .datetime ts => .ok (tsToEpoch timegm ts)
  | .int64 n =>
    if n.toInt < 0 then .error s!"secret[{i}]: expires must be non-negative" else .ok n.toInt
  | _ => .ok 0

/-- `key`. -/
def keyField (i : ℕ) (d : Datum) : Except String (List UInt8) :=
  match d with
  | .string s =>
    match parseHexSecret s with
    | some key => .ok key
    | none => .error s!"secret[{i}]: 'key' must be exactly 32 hex digits"
  | _ => .error s!"secret[{i}]: 'key' must be a string"

/-- `label`. -/
def labelField (i : ℕ) (d : Datum) : Except String String :=
  match d with
  | .string s =>
    if (ofBuffer s).length > 32 then .error s!"secret[{i}]: label too long (max 32 chars)"
    else if validateLabel s then .ok (textOf s)
    else .error s!"secret[{i}]: label contains invalid characters"
  | _ => .ok ""

/-- The body of the loop of `parse_secrets`. -/
def parseSecret (timegm : Timestamp → ℤ) (i : ℕ) (entry : Datum) : Except String SecretEntry :=
  match entry with
  | .table _ => do
    let key ← keyField i (tomlGet entry "key")
    let label ← labelField i (tomlGet entry "label")
    let limit ← countField i "limit" (tomlGet entry "limit")
    let quota ← sizeField i "quota" (tomlGet entry "quota")
    let rateLimit ← sizeField i "rate_limit" (tomlGet entry "rate_limit")
    let maxIps ← countField i "max_ips" (tomlGet entry "max_ips")
    let expires ← expiresField timegm i (tomlGet entry "expires")
    return ⟨key, label, limit, quota, rateLimit, maxIps, expires⟩
  | _ => .error s!"secret[{i}]: expected table"

/-- The loop of `parse_secrets`. -/
def parseSecretList (timegm : Timestamp → ℤ) : ℕ → List Datum → Except String (List SecretEntry)
  | _, [] => .ok []
  | i, entry :: rest => do
    let e ← parseSecret timegm i entry
    let es ← parseSecretList timegm (i + 1) rest
    return e :: es

/-- `parse_secrets`: the secrets of a configuration, or the text of the error. -/
def parseSecrets (timegm : Timestamp → ℤ) (toptab : Datum) : Except String (List SecretEntry) :=
  match tomlGet toptab "secret" with
  | .unknown => .ok []
  | .array elem =>
    let n := elem.length
    if n > 16 then .error s!"too many secrets ({n}, max 16)" else parseSecretList timegm 0 elem
  | _ => .error "'secret' must be an array of tables"

/-! ### What is written -/

/-- The unit that a text behind a number stands for: none or a letter, and perhaps a `B`. -/
def suffixValue (t : List UInt8) : Option ℤ :=
  match t.map toUpper with
  | [] | [0x42] => some 1
  | [0x4b] | [0x4b, 0x42] => some 1024
  | [0x4d] | [0x4d, 0x42] => some (1024 ^ 2)
  | [0x47] | [0x47, 0x42] => some (1024 ^ 3)
  | [0x54] | [0x54, 0x42] => some (1024 ^ 4)
  | _ => none

/-- The text is a size: a number with a unit. -/
def SizeText (s : List UInt8) (n : ℤ) : Prop :=
  ∃ blanks sign ds rest m, StartsWithNumber s blanks sign ds rest ∧ suffixValue rest = some m ∧
    n = signedValue sign ds * m

/-- The datum stands for a number. -/
inductive Written : Datum → ℚ → Prop
  | int64 (n : BitVec 64) : Written (.int64 n) n.toInt
  | fp64 (q : ℚ) : Written (.fp64 q) q
  | string {s : List UInt8} {n : ℤ} (h : SizeText s n) : Written (.string s) n

variable {s : List UInt8} {d : Datum} {m v : ℤ} {i : ℕ}

variable {n : ℤ} {t blanks sign ds rest : List UInt8} {name : String} {timegm : Timestamp → ℤ}
  {entry : Datum}

theorem sizeText_unique {n' : ℤ} (h : SizeText s n) (h' : SizeText s n') : n = n' := by
  obtain ⟨_, _, _, _, m, hs, hm, rfl⟩ := h
  obtain ⟨_, _, _, _, m', hs', hm', rfl⟩ := h'
  obtain ⟨hvalue, rfl⟩ := hs.unique hs'
  rw [hvalue, Option.some.inj (hm.symm.trans hm')]

theorem Written.unique {q q' : ℚ} (h : Written d q) (h' : Written d q') : q = q' := by
  cases h with
  | int64 n => cases h'; rfl
  | fp64 q => cases h'; rfl
  | string h =>
    cases h' with
    | string h' => rw [sizeText_unique h h']

/-! ### Sizes -/

theorem suffixValue_eq_some_iff (t : List UInt8) (m : ℤ) :
    suffixValue t = some m ↔ skipB (splitUnit t).2 = [] ∧ (splitUnit t).1 = m := by
  -- Both sides look at two bytes at most, through `toupper`.
  rcases t with _ | ⟨b, _ | ⟨c, _ | ⟨d, t⟩⟩⟩
  · simp [suffixValue, splitUnit, skipB]
  · simp only [suffixValue, splitUnit, map_cons, map_nil]
    split <;> simp_all [skipB]
  · simp only [suffixValue, splitUnit, map_cons, map_nil]
    split <;> simp_all [skipB]
    all_goals grind
  · simp only [suffixValue, splitUnit, map_cons]
    split_ifs <;> simp_all [skipB]
    all_goals grind

theorem suffixValue_pos (h : suffixValue t = some m) : 0 < m := by
  unfold suffixValue at h
  split at h <;> first | (cases h; decide) | cases h

theorem zero_notMem_of_suffixValue (h : suffixValue t = some m) : 0 ∉ t := by
  intro hzero
  have hmem : (0 : UInt8) ∈ t.map toUpper := mem_map.2 ⟨0, hzero, by decide⟩
  unfold suffixValue at h
  split at h
  all_goals
    next ht =>
      first
      | (rw [ht] at hmem; exact absurd hmem (by decide))
      | cases h

theorem ofBuffer_of_startsWithNumber (h : StartsWithNumber s blanks sign ds rest)
    (hm : suffixValue rest = some m) : ofBuffer s = s := by
  refine takeWhile_eq_self_iff.2 fun b hb => decide_eq_true ?_
  rintro rfl
  rw [h.split] at hb
  rcases mem_append.1 hb with hb | hb
  · exact absurd (h.blanks 0 hb) (by decide)
  · rcases mem_append.1 hb with hb | hb
    · rcases mem_append.1 hb with hb | hb
      · rcases h.sign with rfl | rfl | rfl <;> exact absurd hb (by decide)
      · exact absurd (h.digits 0 hb) (by decide)
    · exact zero_notMem_of_suffixValue hm hb

theorem StartsWithNumber.rest_ne (h : StartsWithNumber s blanks sign ds rest) : rest ≠ s := by
  intro hrest
  have hlen := congrArg length (hrest.trans h.split)
  have hpos := length_pos_of_ne_nil h.nonempty
  simp only [length_append] at hlen
  omega

theorem parseByteSize_lt (s : List UInt8) : parseByteSize s < 2 ^ 63 := by
  unfold parseByteSize
  dsimp only
  split_ifs
  · decide
  · decide
  · rw [wrap64, Int.bmod]
    omega

/-- **A size is read right**, unless it is refused or too large. -/
theorem parseByteSize_of_sizeText (h : SizeText s n) (hlt : n < 2 ^ 63)
    (haccepted : 0 ≤ parseByteSize s) : parseByteSize s = n := by
  obtain ⟨blanks, sign, ds, rest, m, hs, hm, rfl⟩ := h
  have hpos := suffixValue_pos hm
  obtain ⟨hskip, hunit⟩ := (suffixValue_eq_some_iff rest m).1 hm
  unfold parseByteSize at haccepted ⊢
  rw [ofBuffer_of_startsWithNumber hs hm] at haccepted ⊢
  dsimp only at haccepted ⊢
  rw [hs.strtol_eq] at haccepted ⊢
  dsimp only at haccepted ⊢
  have hnonneg : ¬ clamp (signedValue sign ds) < 0 := by
    intro hneg
    omega
  rw [if_neg (not_or.2 ⟨StartsWithNumber.rest_ne hs, hnonneg⟩), if_neg (not_not.2 hskip), hunit]
  have hvalue : 0 ≤ signedValue sign ds := by
    unfold clamp at hnonneg
    omega
  have hle : signedValue sign ds ≤ signedValue sign ds * m := le_mul_of_one_le_right hvalue hpos
  have hclamp : clamp (signedValue sign ds) = signedValue sign ds := by
    unfold clamp
    omega
  rw [hclamp, wrap64, Int.bmod_eq_of_le (by omega) (by omega)]

/-! ### Limits -/

/-- The four limits of an entry. -/
inductive LimitField
  | limit
  | quota
  | rateLimit
  | maxIps
  deriving DecidableEq, Repr

def LimitField.key : LimitField → String
  | .limit => "limit"
  | .quota => "quota"
  | .rateLimit => "rate_limit"
  | .maxIps => "max_ips"

/-- The limit may be a size, and is stored as a `long long`. -/
def LimitField.isSize : LimitField → Bool
  | .quota | .rateLimit => true
  | .limit | .maxIps => false

def LimitField.stored : LimitField → SecretEntry → ℤ
  | .limit, e => e.limit
  | .quota, e => e.quota
  | .rateLimit, e => e.rateLimit
  | .maxIps, e => e.maxIps

/-- A limit is stored as it is written: with exactly that value, so that no positive value becomes
zero, negative or smaller; without a value, it is zero. -/
structure StoredRight (d : Datum) (v : ℤ) : Prop where
  absent : d = .unknown → v = 0
  exact : d ≠ .unknown → Written d v
  kept : ∀ q, Written d q → 0 < q → 0 < v ∧ q ≤ v

/-- The values that their field has room for: integers below 2^31, or any for a size; sizes below
2^63, where a size is expected; a value of another type only if it is a zero, which is what the field
then holds. -/
def FitsField (isSize : Bool) : Datum → Prop
  | .unknown => True
  | .int64 n => isSize = true ∨ n.toInt < 2 ^ 31
  | .string s => if isSize then ∃ n, SizeText s n ∧ n < 2 ^ 63 else SizeText s 0
  | .fp64 q => q = 0
  | _ => False

theorem storedRight_iff (hd : d ≠ .unknown) : StoredRight d v ↔ Written d v := by
  refine ⟨fun h => h.exact hd, fun h => ⟨fun hunknown => absurd hunknown hd, fun _ => h, ?_⟩⟩
  intro q hq hpos
  rw [hq.unique h] at hpos ⊢
  exact ⟨by exact_mod_cast hpos, le_refl _⟩

theorem storedRight_unknown : StoredRight .unknown 0 :=
  ⟨fun _ => rfl, fun h => absurd rfl h, fun q hq => by cases hq⟩

theorem written_int64_iff (n : BitVec 64) (v : ℤ) : Written (.int64 n) v ↔ v = n.toInt := by
  constructor
  · intro h
    exact_mod_cast h.unique (.int64 n)
  · rintro rfl
    exact .int64 n

theorem written_string_iff (s : List UInt8) (v : ℤ) : Written (.string s) v ↔ SizeText s v := by
  constructor
  · intro h
    generalize hv : (v : ℚ) = q at h
    cases h with
    | string h =>
      rw [Int.cast_inj] at hv
      exact hv ▸ h
  · exact .string

theorem written_fp64_iff (q : ℚ) (v : ℤ) : Written (.fp64 q) v ↔ q = v :=
  ⟨fun h => (h.unique (.fp64 q)).symm, fun h => h ▸ .fp64 q⟩

theorem storedRight_countField (h : countField i name d = .ok v) :
    StoredRight d v ↔ FitsField false d := by
  unfold countField at h
  cases d with
  | int64 n =>
    dsimp only at h
    split_ifs at h with hneg
    cases h
    rw [storedRight_iff (by simp), written_int64_iff, FitsField]
    simp only [Bool.false_eq_true, false_or, toInt, Int.bmod]
    omega
  | unknown =>
    cases h
    exact iff_of_true storedRight_unknown trivial
  | string s =>
    cases h
    rw [storedRight_iff (by simp), written_string_iff]
    rfl
  | fp64 q =>
    cases h
    rw [storedRight_iff (by simp), written_fp64_iff, FitsField, Int.cast_zero]
  | datetime ts | other | array elem | table kvs =>
    refine iff_of_false (fun hright => ?_) id
    cases hright.exact (by simp)

theorem storedRight_sizeField (h : sizeField i name d = .ok v) :
    StoredRight d v ↔ FitsField true d := by
  unfold sizeField at h
  cases d with
  | int64 n =>
    dsimp only at h
    split_ifs at h with hneg
    cases h
    rw [storedRight_iff (by simp), written_int64_iff]
    exact iff_of_true rfl (.inl rfl)
  | unknown =>
    cases h
    exact iff_of_true storedRight_unknown trivial
  | string s =>
    dsimp only at h
    split_ifs at h with hneg
    cases h
    rw [storedRight_iff (by simp), written_string_iff, FitsField]
    constructor
    · exact fun hsize => ⟨_, hsize, parseByteSize_lt s⟩
    · rintro ⟨n, hsize, hlt⟩
      rwa [parseByteSize_of_sizeText hsize hlt (not_lt.1 hneg)]
  | fp64 q =>
    cases h
    rw [storedRight_iff (by simp), written_fp64_iff, FitsField, Int.cast_zero]
  | datetime ts | other | array elem | table kvs =>
    refine iff_of_false (fun hright => ?_) id
    cases hright.exact (by simp)

theorem bind_eq_ok {α β : Type} {x : Except String α} {f : α → Except String β} {b : β}
    (h : x.bind f = .ok b) : ∃ a, x = .ok a ∧ f a = .ok b := by
  cases x with
  | error e => cases h
  | ok a => exact ⟨a, rfl, h⟩

theorem storedRight_parseSecret {e : SecretEntry} (h : parseSecret timegm i entry = .ok e)
    (f : LimitField) :
    StoredRight (tomlGet entry f.key) (f.stored e) ↔ FitsField f.isSize (tomlGet entry f.key) := by
  unfold parseSecret at h
  split at h
  · obtain ⟨key, -, h⟩ := bind_eq_ok h
    obtain ⟨label, -, h⟩ := bind_eq_ok h
    obtain ⟨limit, hlimit, h⟩ := bind_eq_ok h
    obtain ⟨quota, hquota, h⟩ := bind_eq_ok h
    obtain ⟨rateLimit, hrateLimit, h⟩ := bind_eq_ok h
    obtain ⟨maxIps, hmaxIps, h⟩ := bind_eq_ok h
    obtain ⟨expires, -, h⟩ := bind_eq_ok h
    cases h
    cases f with
    | limit => exact storedRight_countField hlimit
    | quota => exact storedRight_sizeField hquota
    | rateLimit => exact storedRight_sizeField hrateLimit
    | maxIps => exact storedRight_countField hmaxIps
  · cases h

theorem parseSecret_of_parseSecretList {l : List Datum} {es : List SecretEntry}
    (h : parseSecretList timegm i l = .ok es) {j : ℕ} (hentry : l[j]? = some entry) :
    ∃ e, es[j]? = some e ∧ parseSecret timegm (i + j) entry = .ok e := by
  induction l generalizing i es j with
  | nil => cases hentry
  | cons d l ih =>
    obtain ⟨e, he, h⟩ := bind_eq_ok h
    obtain ⟨es', hes, h⟩ := bind_eq_ok h
    cases h
    cases j with
    | zero =>
      cases hentry
      exact ⟨e, rfl, he⟩
    | succ j =>
      obtain ⟨e', he', hparse⟩ := ih hes hentry
      refine ⟨e', he', ?_⟩
      rwa [show i + (j + 1) = i + 1 + j by omega]

/-- **The limits of an accepted configuration**: each is stored as it is written exactly if it fits
its field. -/
theorem limit_values {timegm : Timestamp → ℤ} {toptab : Datum} {es : List SecretEntry}
    (h : parseSecrets timegm toptab = .ok es) {elem : List Datum}
    (harray : tomlGet toptab "secret" = .array elem) {j : ℕ} {entry : Datum}
    (hentry : elem[j]? = some entry) :
    ∃ e, es[j]? = some e ∧ ∀ f : LimitField,
      StoredRight (tomlGet entry f.key) (f.stored e) ↔ FitsField f.isSize (tomlGet entry f.key) := by
  unfold parseSecrets at h
  rw [harray] at h
  dsimp only at h
  split_ifs at h
  obtain ⟨e, he, hparse⟩ := parseSecret_of_parseSecretList h hentry
  exact ⟨e, he, storedRight_parseSecret hparse⟩

/-- An entry with a key of zeros and one limit. -/
def sampleEntry (f : LimitField) (d : Datum) : Datum :=
  .table [("key", .string (List.replicate 32 0x30)), (f.key, d)]

/-- A configuration with one secret. -/
def sampleToml (f : LimitField) (d : Datum) : Datum :=
  .table [("secret", .array [sampleEntry f d])]

/-- The secret of zeros without limits. -/
def zeroSecret : SecretEntry := ⟨List.replicate 16 0, "", 0, 0, 0, 0, 0⟩

/-- `"10G"`. -/
def tenGig : List UInt8 := [0x31, 0x30, 0x47]

theorem limit_values_tenGig :
    parseSecrets (fun _ => 0) (sampleToml .quota (.string tenGig)) =
        .ok [{ zeroSecret with quota := 10 * 1024 ^ 3 }] ∧
      StoredRight (.string tenGig) (10 * 1024 ^ 3) := by
  have hparse : parseSecrets (fun _ => 0) (sampleToml .quota (.string tenGig)) =
      .ok [{ zeroSecret with quota := 10 * 1024 ^ 3 }] := by rfl
  obtain ⟨e, he, hright⟩ := limit_values (j := 0) hparse rfl rfl
  cases he
  refine ⟨hparse, (hright .quota).2 ?_⟩
  refine ⟨10 * 1024 ^ 3, ⟨[], [], [0x31, 0x30], [0x47], 1024 ^ 3, ?_, rfl, rfl⟩, by decide⟩
  exact ⟨rfl, forall_mem_nil _, .inl rfl, by decide, all_eq_true.1 (by decide),
    fun b t h => by cases h; decide⟩

/-- A limit of 2^32 is stored as 0, a limit of 2^31 as a negative number, a quota of 2^24 T as 0, one
of 2^64 bytes as 2^63 - 1, and a limit that is a string is ignored. -/
theorem limit_values_lost :
    (parseSecrets (fun _ => 0) (sampleToml .limit (.int64 0x100000000#64)) = .ok [zeroSecret] ∧
      ¬ StoredRight (.int64 0x100000000#64) 0) ∧
    parseSecrets (fun _ => 0) (sampleToml .maxIps (.int64 0x80000000#64)) =
      .ok [{ zeroSecret with maxIps := -2 ^ 31 }] ∧
    parseSecrets (fun _ => 0) (sampleToml .quota
      (.string [0x31, 0x36, 0x37, 0x37, 0x37, 0x32, 0x31, 0x36, 0x54])) = .ok [zeroSecret] ∧
    parseSecrets (fun _ => 0) (sampleToml .rateLimit (.string (replicate 20 0x39))) =
      .ok [{ zeroSecret with rateLimit := 2 ^ 63 - 1 }] ∧
    parseSecrets (fun _ => 0) (sampleToml .limit (.string [0x31, 0x30, 0x30])) =
      .ok [zeroSecret] := by
  refine ⟨⟨rfl, fun h => ?_⟩, rfl, rfl, rfl, rfl⟩
  exact absurd (h.kept _ (.int64 _) (by decide +kernel)).1 (by decide)

end Mtbolt.Secrets
