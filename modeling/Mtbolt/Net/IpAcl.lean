import Mtbolt.Lib.CString

/-!
# Access control lists

`net-ip-acl.c` reads lists of networks from files, one network a line, and matches client addresses
against them.  `fgets` reads a file in pieces of at most 255 bytes; each piece is trimmed and parsed
by itself.  The conversion of a textual address (`inet_pton`) is a parameter.
-/

namespace Mtbolt.Net

open CString List

/-! ### Addresses and masks -/

/-- `unsigned char v6[16]`. -/
abbrev Ipv6 := Fin 16 → BitVec 8

/-- `mask_v4`. -/
def maskV4 (addr : BitVec 32) (prefixLen : ℕ) : BitVec 32 :=
  if prefixLen = 0 then 0
  else if prefixLen ≥ 32 then addr
  else addr &&& (0xFFFFFFFF#32 <<< (32 - prefixLen))

/-- The mask for one byte of an IPv6 address, as `mask_v6` and `match_v6` compute it. -/
def byteMask (prefixLen i : ℕ) : BitVec 8 :=
  let bits := prefixLen - i * 8
  if bits ≥ 8 then 0xFF#8 else if bits > 0 then 0xFF#8 <<< (8 - bits) else 0

/-- `mask_v6`. -/
def maskV6 (addr : Ipv6) (prefixLen : ℕ) : Ipv6 := fun i =>
  let bits := prefixLen - i * 8
  if bits ≥ 8 then addr i else if bits > 0 then addr i &&& (0xFF#8 <<< (8 - bits)) else 0

/-- The first `p` bits of two words agree. -/
def AgreeTo {w : ℕ} (p : ℕ) (x y : BitVec w) : Prop := ∀ i < p, x.getMsbD i = y.getMsbD i

variable {p : ℕ} {s l rest f line piece : List UInt8}

theorem getMsbD_and_ones {w : ℕ} (hp : p ≤ w) (x : BitVec w) (i : ℕ) :
    (x &&& (BitVec.allOnes w <<< (w - p))).getMsbD i = (decide (i < p) && x.getMsbD i) := by
  by_cases hi : i < p
  · simp [hi, BitVec.getMsbD_allOnes, show i + (w - p) < w by omega]
  · simp [hi, BitVec.getMsbD_allOnes, show ¬ i + (w - p) < w by omega]

theorem and_ones_eq_iff {w : ℕ} (hp : p ≤ w) (x y : BitVec w) :
    x &&& (BitVec.allOnes w <<< (w - p)) = y &&& (BitVec.allOnes w <<< (w - p)) ↔
      AgreeTo p x y := by
  constructor
  · intro h i hi
    have hbit := congrArg (fun v => v.getMsbD i) h
    simpa [getMsbD_and_ones hp, hi] using hbit
  · intro h
    refine BitVec.eq_of_getMsbD_eq fun i _ => ?_
    rw [getMsbD_and_ones hp, getMsbD_and_ones hp]
    by_cases hi : i < p
    · rw [h i hi]
    · simp [hi]

theorem maskV4_eq (hp : p ≤ 32) (x : BitVec 32) :
    maskV4 x p = x &&& (BitVec.allOnes 32 <<< (32 - p)) := by
  unfold maskV4
  split_ifs with h0 h32
  · subst h0
    simp
  · obtain rfl : p = 32 := by omega
    rw [BitVec.shiftLeft_zero, BitVec.and_allOnes]
  · rfl

theorem byteMask_eq (p i : ℕ) : byteMask p i = BitVec.allOnes 8 <<< (8 - min 8 (p - i * 8)) := by
  unfold byteMask
  dsimp only
  split_ifs with h8 h0
  · rw [min_eq_left h8]
    rfl
  · rw [min_eq_right (by omega)]
    rfl
  · rw [show p - i * 8 = 0 by omega]
    rfl

theorem maskV6_eq (x : Ipv6) (p : ℕ) : maskV6 x p = fun i => x i &&& byteMask p i := by
  funext i
  unfold maskV6 byteMask
  dsimp only
  split_ifs
  · exact (BitVec.and_allOnes).symm
  · rfl
  · exact BitVec.and_zero.symm

/-- The first `p` bits of two IPv6 addresses agree; bit `i` is in byte `i / 8`. -/
def Ipv6.AgreeTo (p : ℕ) (x y : Ipv6) : Prop :=
  ∀ i : Fin 128, i.val < p →
    (x ⟨i / 8, by omega⟩).getMsbD (i % 8) = (y ⟨i / 8, by omega⟩).getMsbD (i % 8)

theorem maskV4_eq_iff (hp : p ≤ 32) (x y : BitVec 32) :
    maskV4 x p = maskV4 y p ↔ AgreeTo p x y := by
  rw [maskV4_eq hp, maskV4_eq hp]
  exact and_ones_eq_iff hp x y

theorem and_byteMask_eq_iff (p : ℕ) (x y : Ipv6) :
    (∀ i : Fin 16, x i &&& byteMask p i = y i &&& byteMask p i) ↔ x.AgreeTo p y := by
  simp only [byteMask_eq]
  constructor
  · intro h i hi
    have hbyte := (and_ones_eq_iff (min_le_left 8 _) _ _).1 (h ⟨i / 8, by omega⟩)
    exact hbyte (i % 8) (by dsimp only; omega)
  · intro h i
    refine (and_ones_eq_iff (min_le_left 8 _) _ _).2 fun j hj => ?_
    have hbit := h ⟨i * 8 + j, by omega⟩ (by dsimp only; omega)
    have hdiv : (i.val * 8 + j) / 8 = i := by omega
    have hmod : (i.val * 8 + j) % 8 = j := by omega
    simpa only [hdiv, hmod] using hbit

theorem maskV4_maskV4 (hp : p ≤ 32) (x : BitVec 32) : maskV4 (maskV4 x p) p = maskV4 x p := by
  rw [maskV4_eq hp, maskV4_eq hp, BitVec.and_assoc, BitVec.and_self]

theorem maskV6_maskV6 (x : Ipv6) (p : ℕ) : maskV6 (maskV6 x p) p = maskV6 x p := by
  rw [maskV6_eq, maskV6_eq]
  funext i
  rw [BitVec.and_assoc, BitVec.and_self]

/-! ### Rules -/

/-- An address of either family. -/
inductive Address
  | inet (addr : BitVec 32)
  | inet6 (addr : Ipv6)
  deriving DecidableEq

/-- `struct ip_acl_rule`, with its host bits masked off. -/
inductive AclRule
  | inet (addr : BitVec 32) (prefixLen : ℕ) (hle : prefixLen ≤ 32)
      (hmasked : maskV4 addr prefixLen = addr)
  | inet6 (addr : Ipv6) (prefixLen : ℕ) (hle : prefixLen ≤ 128)
      (hmasked : maskV6 addr prefixLen = addr)
  deriving DecidableEq

/-- `match_v4`. -/
def matchV4 : AclRule → BitVec 32 → Bool
  | .inet addr prefixLen _ _, ip => maskV4 ip prefixLen = addr
  | .inet6 .., _ => false

/-- `match_v6`. -/
def matchV6 : AclRule → Ipv6 → Bool
  | .inet .., _ => false
  | .inet6 addr prefixLen _ _, ip => ∀ i : Fin 16, ip i &&& byteMask prefixLen i = addr i

/-- A rule for an IPv4 address, if the prefix is in range. -/
def ruleInet (addr : BitVec 32) (prefixLen : ℤ) : Option AclRule :=
  if h : prefixLen < 0 ∨ 32 < prefixLen then none
  else
    have hle : prefixLen.toNat ≤ 32 := by omega
    some (.inet (maskV4 addr prefixLen.toNat) prefixLen.toNat hle (maskV4_maskV4 hle addr))

/-- A rule for an IPv6 address, if the prefix is in range. -/
def ruleInet6 (addr : Ipv6) (prefixLen : ℤ) : Option AclRule :=
  if h : prefixLen < 0 ∨ 128 < prefixLen then none
  else
    some (.inet6 (maskV6 addr prefixLen.toNat) prefixLen.toNat (by omega) (maskV6_maskV6 addr _))

/-- The number after the slash: `strtol`, which must stop at the end or at a blank, and the
conversion to `int`. -/
def cidrPrefix (s : List UInt8) : Option ℤ :=
  match (strtol s).2 with
  | [] => some (toInt (strtol s).1)
  | b :: _ => if isSpace b then some (toInt (strtol s).1) else none

/-- `ip_acl_parse_cidr` past the slash: the address, with its prefix if there is one. -/
def parseAddress (pton : InetPton Ipv6) (s : List UInt8) (prefixLen : Option ℤ) : Option AclRule :=
  match pton.inet s with
  | some addr => ruleInet addr (prefixLen.getD 32)
  | none =>
    match pton.inet6 s with
    | some addr => ruleInet6 addr (prefixLen.getD 128)
    | none => none

/-- `ip_acl_parse_cidr`. -/
def ipAclParseCidr (pton : InetPton Ipv6) (s : List UInt8) : Option AclRule :=
  match s.dropWhile (· ≠ 0x2f) with
  | [] => parseAddress pton s none
  | _ :: tail =>
    (cidrPrefix tail).bind fun p => parseAddress pton (s.takeWhile (· ≠ 0x2f)) (some p)

/-! ### Files -/

/-- `fgets` into a buffer of 256 bytes: the bytes up to a newline, at most 255, and the rest of the
file. -/
def fgets (f : List UInt8) : List UInt8 × List UInt8 :=
  match (f.take 255).findIdx? (· = 10) with
  | none => (f.take 255, f.drop 255)
  | some i => (f.take (i + 1), f.drop (i + 1))

/-- The pieces in which `fgets` reads a file, at most `fuel` of them. -/
def fgetsAll : ℕ → List UInt8 → List (List UInt8)
  | 0, _ => []
  | fuel + 1, f => if f = [] then [] else (fgets f).1 :: fgetsAll fuel (fgets f).2

/-- The pieces of a file; each of them uses up a byte. -/
def filePieces (f : List UInt8) : List (List UInt8) := fgetsAll f.length f

/-- The rule of one piece: the body of the loop of `ip_acl_load`. -/
def pieceRule (pton : InetPton Ipv6) (piece : List UInt8) : Option AclRule :=
  let s := trim (ofBuffer piece)
  if s = [] ∨ s.head? = some 0x23 then none else ipAclParseCidr pton s

/-- `ip_acl_load`: the rules of a file. -/
def ipAclLoad (pton : InetPton Ipv6) (f : List UInt8) : List AclRule :=
  (filePieces f).filterMap (pieceRule pton)

/-! ### What a list says -/

/-- The number of bits of an address. -/
def Address.width : Address → ℕ
  | .inet _ => 32
  | .inet6 _ => 128

/-- A network: an address and the number of bits that count. -/
structure Network where
  addr : Address
  prefixLen : ℕ
  le : prefixLen ≤ addr.width

/-- An address belongs to a network if it is of the same family and the first bits agree. -/
def Network.Contains (n : Network) (x : Address) : Prop :=
  match n.addr, x with
  | .inet a, .inet b => AgreeTo n.prefixLen b a
  | .inet6 a, .inet6 b => b.AgreeTo n.prefixLen a
  | _, _ => False

/-- The rule for a network. -/
def Network.rule : Network → AclRule
  | ⟨.inet a, p, le⟩ => .inet (maskV4 a p) p le (maskV4_maskV4 le a)
  | ⟨.inet6 a, p, le⟩ => .inet6 (maskV6 a p) p le (maskV6_maskV6 a p)

/-- A rule matches an address of either family. -/
def AclRule.matches (r : AclRule) : Address → Bool
  | .inet ip => matchV4 r ip
  | .inet6 ip => matchV6 r ip

theorem matches_rule_iff (n : Network) (x : Address) : n.rule.matches x = true ↔ n.Contains x := by
  obtain ⟨addr, p, le⟩ := n
  cases addr with
  | inet a =>
    cases x with
    | inet b =>
      simpa [AclRule.matches, Network.rule, matchV4, Network.Contains] using maskV4_eq_iff le b a
    | inet6 b => simp [AclRule.matches, Network.rule, matchV6, Network.Contains]
  | inet6 a =>
    cases x with
    | inet b => simp [AclRule.matches, Network.rule, matchV4, Network.Contains]
    | inet6 b =>
      simpa [AclRule.matches, Network.rule, matchV6, maskV6_eq, Network.Contains] using
        and_byteMask_eq_iff p b a

/-- The lines of a file, with their newlines. -/
def fileLines : List UInt8 → List (List UInt8)
  | [] => []
  | b :: f =>
    if b = 10 then [10] :: fileLines f
    else
      match fileLines f with
      | [] => [[b]]
      | l :: ls => (b :: l) :: ls

/-- The address that a text denotes. -/
def addressOf (pton : InetPton Ipv6) (s : List UInt8) : Option Address :=
  match pton.inet s with
  | some a => some (.inet a)
  | none => (pton.inet6 s).map .inet6

/-- The meaning of a text: an address, or an address, a slash and a number of bits. -/
def textMeaning (pton : InetPton Ipv6) (s : List UInt8) : Option Network :=
  match s.dropWhile (· ≠ 0x2f) with
  | [] => (addressOf pton s).map fun a => ⟨a, a.width, le_refl _⟩
  | _ :: tail =>
    (addressOf pton (s.takeWhile (· ≠ 0x2f))).bind fun a =>
      if h : IsNumber tail ∧ value tail ≤ a.width then some ⟨a, value tail, h.2⟩ else none

/-- **The meaning of a line**: none if it is blank or a comment. -/
def meaning (pton : InetPton Ipv6) (line : List UInt8) : Option Network :=
  if trim line = [] ∨ (trim line).head? = some 0x23 then none else textMeaning pton (trim line)

/-! ### Numbers that are no prefix -/

/-- What follows a slash is no number of at most `width` bits, but passes for one: it is empty or
starts with a blank and no number, which passes for 0; or it is a number with blanks or a sign in
front, or more text behind a blank, or too large, whose value as an `int` is in range. -/
inductive PassesForPrefix (width : ℕ) (s : List UInt8) : Prop
  | nothing (hno : ¬ ∃ blanks sign ds rest, StartsWithNumber s blanks sign ds rest)
      (hstart : StopsAt (fun b => !isSpace b) s)
  | number (blanks sign ds rest : List UInt8) (hs : StartsWithNumber s blanks sign ds rest)
      (hrest : StopsAt (fun b => !isSpace b) rest)
      (hnonneg : 0 ≤ toInt (clamp (signedValue sign ds)))
      (hle : toInt (clamp (signedValue sign ds)) ≤ width)
      (hodd : blanks ≠ [] ∨ sign ≠ [] ∨ rest ≠ [] ∨ width < value ds)

theorem cidrPrefix_eq_some_iff {p : ℤ} :
    cidrPrefix s = some p ↔ StopsAt (fun b => !isSpace b) (strtol s).2 ∧ toInt (strtol s).1 = p := by
  unfold cidrPrefix
  split
  · next h => simp [h, StopsAt]
  · next b t h =>
    simp only [h, StopsAt]
    split_ifs with hb <;> simp [hb]

theorem cidrPrefix_of_isNumber (h : IsNumber s) (hle : value s ≤ 128) :
    cidrPrefix s = some (value s : ℤ) := by
  have hread : strtol s = (clamp (value s), []) := by
    have hdigits : strtol (s ++ []) = _ := strtol_digits h.1 h.2 (stopsAt_nil _)
    rwa [append_nil] at hdigits
  rw [cidrPrefix_eq_some_iff, hread]
  refine ⟨stopsAt_nil _, ?_⟩
  simp only [clamp, toInt, Int.bmod]
  omega

theorem cidrPrefix_inRange_iff {width : ℕ} (hno : ¬ (IsNumber s ∧ value s ≤ width)) :
    (∃ p, cidrPrefix s = some p ∧ 0 ≤ p ∧ p ≤ width) ↔ PassesForPrefix width s := by
  constructor
  · rintro ⟨p, hp, h0, hle⟩
    obtain ⟨hstop, rfl⟩ := cidrPrefix_eq_some_iff.1 hp
    by_cases hnum : ∃ blanks sign ds rest, StartsWithNumber s blanks sign ds rest
    · obtain ⟨blanks, sign, ds, rest, hs⟩ := hnum
      rw [hs.strtol_eq] at hstop h0 hle
      refine .number blanks sign ds rest hs hstop h0 hle ?_
      by_contra hodd
      push Not at hodd
      obtain ⟨rfl, rfl, rfl, hvalue⟩ := hodd
      have hds : s = ds := by simpa using hs.split
      exact hno (hds ▸ ⟨⟨hs.nonempty, hs.digits⟩, hvalue⟩)
    · rw [(strtol_cases s).resolve_left hnum] at hstop
      exact .nothing hnum hstop
  · rintro (⟨hnum, hstart⟩ | ⟨blanks, sign, ds, rest, hs, hrest, h0, hle, -⟩)
    · have hread := (strtol_cases s).resolve_left hnum
      exact ⟨0, cidrPrefix_eq_some_iff.2 ⟨by rwa [hread], by rw [hread]; rfl⟩, le_refl _, by simp⟩
    · have hread := hs.strtol_eq
      exact ⟨_, cidrPrefix_eq_some_iff.2 ⟨by rwa [hread], by rw [hread]⟩, h0, hle⟩

theorem not_passesForPrefix {width : ℕ} (h : IsNumber s) (hle : value s ≤ width) :
    ¬ PassesForPrefix width s := by
  rintro (⟨hnum, -⟩ | ⟨blanks, sign, ds, rest, hs, -, -, -, hodd⟩)
  · refine hnum ⟨[], [], s, [], by simp, ?_, .inl rfl, h.1, h.2, stopsAt_nil _⟩
    exact fun b hb => absurd hb not_mem_nil
  · obtain ⟨rfl, rfl, rfl, rfl⟩ := hs.of_isNumber h
    simp only [ne_eq, not_true_eq_false, false_or] at hodd
    omega

/-! ### Texts -/

/-- A text that is read as a rule although it means none: an address, a slash, and something that
passes for a prefix. -/
def Misread (pton : InetPton Ipv6) (s : List UInt8) : Prop :=
  ∃ b tail a, s.dropWhile (· ≠ 0x2f) = b :: tail ∧
    addressOf pton (s.takeWhile (· ≠ 0x2f)) = some a ∧ PassesForPrefix a.width tail

/-- The rule for an address and a number that may be a number of its bits. -/
def networkRule (a : Address) (p : ℤ) : Option AclRule :=
  if h : 0 ≤ p ∧ p ≤ a.width then some (Network.rule ⟨a, p.toNat, by omega⟩) else none

theorem ruleInet_eq (addr : BitVec 32) (p : ℤ) : ruleInet addr p = networkRule (.inet addr) p := by
  by_cases h : p < 0 ∨ 32 < p
  · rw [ruleInet, dif_pos h, networkRule, dif_neg]
    simp only [Address.width]
    omega
  · rw [ruleInet, dif_neg h, networkRule, dif_pos]
    · rfl
    · simp only [Address.width]
      omega

theorem ruleInet6_eq (addr : Ipv6) (p : ℤ) : ruleInet6 addr p = networkRule (.inet6 addr) p := by
  by_cases h : p < 0 ∨ 128 < p
  · rw [ruleInet6, dif_pos h, networkRule, dif_neg]
    simp only [Address.width]
    omega
  · rw [ruleInet6, dif_neg h, networkRule, dif_pos]
    · rfl
    · simp only [Address.width]
      omega

variable {pton : InetPton Ipv6}

theorem parseAddress_eq {a : Address} (ha : addressOf pton s = some a) (p : Option ℤ) :
    parseAddress pton s p = networkRule a (p.getD a.width) := by
  unfold addressOf at ha
  unfold parseAddress
  cases hinet : pton.inet s with
  | some x =>
    rw [hinet] at ha
    cases ha
    exact ruleInet_eq x _
  | none =>
    rw [hinet] at ha
    obtain ⟨x, hinet6, rfl⟩ := Option.map_eq_some_iff.1 ha
    rw [hinet6]
    exact ruleInet6_eq x _

theorem parseAddress_eq_none (ha : addressOf pton s = none) (p : Option ℤ) :
    parseAddress pton s p = none := by
  unfold addressOf at ha
  unfold parseAddress
  split at ha
  · cases ha
  · rw [Option.map_eq_none_iff] at ha
    simp only [ha]

variable {n : Network}

theorem ipAclParseCidr_of_textMeaning (h : textMeaning pton s = some n) :
    ipAclParseCidr pton s = some n.rule := by
  unfold textMeaning at h
  unfold ipAclParseCidr
  split at h
  · obtain ⟨a, ha, rfl⟩ := Option.map_eq_some_iff.1 h
    rw [parseAddress_eq ha, Option.getD_none, networkRule]
    simp
  · obtain ⟨a, ha, hn⟩ := Option.bind_eq_some_iff.1 h
    split_ifs at hn with hnum
    cases hn
    have hwidth : a.width ≤ 128 := by cases a <;> simp [Address.width]
    rw [cidrPrefix_of_isNumber hnum.1 (hnum.2.trans hwidth), Option.bind_some, parseAddress_eq ha,
      Option.getD_some, networkRule, dif_pos ⟨by omega, by omega⟩]
    simp

/-- A text that means no network is read as a rule exactly if it is misread. -/
theorem ipAclParseCidr_eq_none_iff (h : textMeaning pton s = none) :
    ipAclParseCidr pton s = none ↔ ¬ Misread pton s := by
  unfold textMeaning at h
  unfold ipAclParseCidr Misread
  split at h
  · next hslash =>
    refine iff_of_true (parseAddress_eq_none (Option.map_eq_none_iff.1 h) none) ?_
    rintro ⟨b, tail, a, htail, -⟩
    rw [hslash] at htail
    cases htail
  · next b tail hslash =>
    rw [hslash]
    cases ha : addressOf pton (s.takeWhile (· ≠ 0x2f)) with
    | none =>
      refine iff_of_true ?_ ?_
      · cases cidrPrefix tail with
        | none => rfl
        | some p => exact parseAddress_eq_none ha (some p)
      · rintro ⟨c, tail', a, -, ha', -⟩
        cases ha'
    | some a =>
      have hno : ¬ (IsNumber tail ∧ value tail ≤ a.width) := by
        intro hnum
        rw [ha, Option.bind_some, dif_pos hnum] at h
        cases h
      have hmisread : (∃ c tail' a', b :: tail = c :: tail' ∧ some a = some a' ∧
          PassesForPrefix a'.width tail') ↔ PassesForPrefix a.width tail := by
        constructor
        · rintro ⟨c, tail', a', htail, ha', hpass⟩
          cases htail
          cases ha'
          exact hpass
        · exact fun hpass => ⟨b, tail, a, rfl, rfl, hpass⟩
      rw [hmisread, ← cidrPrefix_inRange_iff hno]
      simp only [parseAddress_eq ha, Option.getD_some]
      cases cidrPrefix tail with
      | none => simp
      | some p => simp [networkRule]

theorem ipAclParseCidr_of_slash {tail : List UInt8} {b : UInt8}
    (hslash : s.dropWhile (· ≠ 0x2f) = b :: tail)
    (haddr : addressOf pton (s.takeWhile (· ≠ 0x2f)) = some n.addr)
    (hbits : cidrPrefix tail = some (n.prefixLen : ℤ)) : ipAclParseCidr pton s = some n.rule := by
  have hle := n.le
  unfold ipAclParseCidr
  rw [hslash]
  dsimp only
  rw [hbits, Option.bind_some, parseAddress_eq haddr, Option.getD_some, networkRule,
    dif_pos ⟨by omega, by omega⟩]
  simp

theorem not_misread_of_textMeaning (h : textMeaning pton s = some n) : ¬ Misread pton s := by
  rintro ⟨b, tail, a, hslash, ha, hpass⟩
  unfold textMeaning at h
  rw [hslash] at h
  simp only [ha, Option.bind_some] at h
  split_ifs at h with hnum
  exact not_passesForPrefix hnum.1 hnum.2 hpass

theorem exists_network_of_misread (h : Misread pton s) :
    ∃ b tail, ∃ n : Network, s.dropWhile (· ≠ 0x2f) = b :: tail ∧
      addressOf pton (s.takeWhile (· ≠ 0x2f)) = some n.addr ∧
      cidrPrefix tail = some (n.prefixLen : ℤ) := by
  obtain ⟨b, tail, a, hslash, ha, hpass⟩ := h
  have hno : ¬ (IsNumber tail ∧ value tail ≤ a.width) := fun hnum =>
    not_passesForPrefix hnum.1 hnum.2 hpass
  obtain ⟨p, hp, h0, hle⟩ := (cidrPrefix_inRange_iff hno).2 hpass
  lift p to ℕ using h0
  exact ⟨b, tail, ⟨a, p, by exact_mod_cast hle⟩, hslash, ha, hp⟩

/-! ### Lines and pieces -/

/-- `l` is a line in front of the rest of a file: it ends with its only newline, or it is the last
line and has none. -/
inductive LineBefore (rest : List UInt8) : List UInt8 → Prop
  | newline (text : List UInt8) (htext : 10 ∉ text) : LineBefore rest (text ++ [10])
  | last (text : List UInt8) (htext : 10 ∉ text) (hne : text ≠ []) (hrest : rest = []) :
      LineBefore rest text

theorem LineBefore.ne_nil (h : LineBefore rest l) : l ≠ [] := by
  cases h with
  | newline text htext => simp
  | last _ htext hne hrest => exact hne

theorem fileLines_eq (hf : f ≠ []) :
    ∃ l rest, f = l ++ rest ∧ LineBefore rest l ∧ fileLines f = l :: fileLines rest := by
  induction f with
  | nil => exact absurd rfl hf
  | cons b f ih =>
    by_cases hb : b = 10
    · subst hb
      exact ⟨[10], f, rfl, .newline [] not_mem_nil, by simp [fileLines]⟩
    · by_cases hnil : f = []
      · subst hnil
        exact ⟨[b], [], rfl, .last _ (by simpa using Ne.symm hb) (by simp) rfl,
          by simp [fileLines, hb]⟩
      · obtain ⟨l, rest, rfl, hl, hlines⟩ := ih hnil
        refine ⟨b :: l, rest, rfl, ?_, by simp [fileLines, hb, hlines]⟩
        cases hl with
        | newline text htext => exact .newline (b :: text) (by simp [Ne.symm hb, htext])
        | last _ htext _ hrest => exact .last _ (by simp [Ne.symm hb, htext]) (by simp) hrest

theorem fgets_of_length_le (h : LineBefore rest l) (hlen : l.length ≤ 255) :
    fgets (l ++ rest) = (l, rest) := by
  have hnone {text : List UInt8} (htext : 10 ∉ text) :
      text.findIdx? (fun b => decide (b = 10)) = none :=
    findIdx?_eq_none_iff.2 fun b hb => decide_eq_false fun h => htext (h ▸ hb)
  unfold fgets
  cases h with
  | newline text htext =>
    have hfind : (text ++ [(10 : UInt8)] ++ rest.take (255 - (text ++ [10]).length)).findIdx?
        (fun b => decide (b = 10)) = some text.length := by
      rw [append_assoc, findIdx?_append, hnone htext]
      simp [findIdx?_cons]
    rw [take_append, take_of_length_le hlen, hfind]
    have hlast : text.length + 1 = (text ++ [(10 : UInt8)]).length := by simp
    dsimp only
    rw [hlast, take_left, drop_left]
  | last _ htext _ hrest =>
    subst hrest
    rw [append_nil, take_of_length_le hlen, hnone htext, drop_of_length_le hlen]

theorem fgets_of_length_gt (h : LineBefore rest l) (hlen : 255 < l.length) :
    fgets (l ++ rest) = (l.take 255, l.drop 255 ++ rest) ∧ LineBefore rest (l.drop 255) := by
  have htake : (l ++ rest).take 255 = l.take 255 := take_append_of_le_length hlen.le
  have hdrop : (l ++ rest).drop 255 = l.drop 255 ++ rest := drop_append_of_le_length hlen.le
  have hcut {text : List UInt8} (htext : 10 ∉ text) :
      (text.take 255).findIdx? (fun b => decide (b = 10)) = none :=
    findIdx?_eq_none_iff.2 fun b hb =>
      decide_eq_false fun h => htext (h ▸ mem_of_mem_take hb)
  unfold fgets
  rw [htake, hdrop]
  cases h with
  | newline text htext =>
    rw [length_append, length_singleton] at hlen
    have hfront : (text ++ [10]).take 255 = text.take 255 := take_append_of_le_length (by omega)
    rw [hfront, hcut htext, drop_append_of_le_length (by omega)]
    exact ⟨rfl, .newline _ fun hmem => htext (mem_of_mem_drop hmem)⟩
  | last _ htext _ hrest =>
    rw [hcut htext]
    refine ⟨rfl, .last _ (fun hmem => htext (mem_of_mem_drop hmem)) ?_ hrest⟩
    exact ne_nil_of_length_pos (by rw [length_drop]; omega)

theorem length_fgets_lt (hf : f ≠ []) : (fgets f).2.length < f.length := by
  have hpos := length_pos_of_ne_nil hf
  unfold fgets
  split <;> rw [length_drop] <;> omega

theorem fgetsAll_eq {m n : ℕ} (hm : f.length ≤ m) (hn : f.length ≤ n) :
    fgetsAll m f = fgetsAll n f := by
  induction m generalizing f n with
  | zero =>
    have hnil : f = [] := length_eq_zero_iff.1 (Nat.le_zero.1 hm)
    cases n <;> simp [fgetsAll, hnil]
  | succ m ih =>
    cases n with
    | zero =>
      have hnil : f = [] := length_eq_zero_iff.1 (Nat.le_zero.1 hn)
      simp [fgetsAll, hnil]
    | succ n =>
      rw [fgetsAll, fgetsAll]
      split_ifs with hf
      · rfl
      · have hlt := length_fgets_lt hf
        have hrest : fgetsAll m (fgets f).2 = fgetsAll n (fgets f).2 := ih (by omega) (by omega)
        rw [hrest]

theorem filePieces_eq (hf : f ≠ []) : filePieces f = (fgets f).1 :: filePieces (fgets f).2 := by
  have hlt := length_fgets_lt hf
  obtain ⟨m, hm⟩ : ∃ m, f.length = m + 1 := ⟨f.length - 1, by omega⟩
  rw [filePieces, hm, fgetsAll, if_neg hf, fgetsAll_eq (by omega) (le_refl _)]
  rfl

theorem filePieces_append (h : LineBefore rest l) :
    filePieces (l ++ rest) = filePieces l ++ filePieces rest := by
  induction hn : l.length using Nat.strong_induction_on generalizing l with
  | _ n ih =>
  have hne := h.ne_nil
  -- the line as the whole file
  have hself : LineBefore [] l := by
    cases h with
    | newline text htext => exact .newline text htext
    | last _ htext hne hrest => exact .last _ htext hne rfl
  rw [filePieces_eq (append_ne_nil_of_left_ne_nil hne rest), filePieces_eq hne]
  rcases Nat.lt_or_ge 255 l.length with hlen | hlen
  · obtain ⟨hcut, hrest⟩ := fgets_of_length_gt h hlen
    obtain ⟨hcut', -⟩ := fgets_of_length_gt hself hlen
    rw [append_nil, append_nil] at hcut'
    rw [hcut, hcut', cons_append]
    rw [ih _ (by rw [length_drop]; omega) hrest rfl]
  · have hwhole := fgets_of_length_le hself hlen
    rw [append_nil] at hwhole
    rw [fgets_of_length_le h hlen, hwhole]
    rfl

theorem filePieces_eq_flatMap (f : List UInt8) :
    filePieces f = (fileLines f).flatMap filePieces := by
  induction hn : f.length using Nat.strong_induction_on generalizing f with
  | _ n ih =>
  by_cases hf : f = []
  · subst hf
    rfl
  · obtain ⟨l, rest, rfl, hl, hlines⟩ := fileLines_eq hf
    have hlt : rest.length < n := by
      have := length_pos_of_ne_nil hl.ne_nil
      rw [← hn, length_append]
      omega
    rw [filePieces_append hl, hlines, flatMap_cons, ih _ hlt rest rfl]

/-- The rules that a line contributes. -/
def lineRules (pton : InetPton Ipv6) (line : List UInt8) : List AclRule :=
  (filePieces line).filterMap (pieceRule pton)

/-- The rules that a line should contribute. -/
def meantRules (pton : InetPton Ipv6) (line : List UInt8) : List AclRule :=
  ((meaning pton line).map Network.rule).toList

/-- A line that fits into the buffer and holds no NUL. -/
def Uncut (line : List UInt8) : Prop := line.length ≤ 255 ∧ 0 ∉ line

/-- A line that is no comment and is read as a rule although it means none. -/
def MisreadLine (pton : InetPton Ipv6) (line : List UInt8) : Prop :=
  (trim line).head? ≠ some 0x23 ∧ Misread pton (trim line)

/-- A piece that contributes no rule: up to its NUL it means no network and passes for none. -/
def Silent (pton : InetPton Ipv6) (piece : List UInt8) : Prop :=
  meaning pton (ofBuffer piece) = none ∧ ¬ MisreadLine pton (ofBuffer piece)

/-- A piece that is taken for a network: up to its NUL it means the network, or it is misread with
the bits that its end passes for. -/
inductive TakenFor (pton : InetPton Ipv6) (piece : List UInt8) (n : Network) : Prop
  | means (h : meaning pton (ofBuffer piece) = some n)
  | misread (h : MisreadLine pton (ofBuffer piece)) (b : UInt8) (tail : List UInt8)
      (hslash : (trim (ofBuffer piece)).dropWhile (· ≠ 0x2f) = b :: tail)
      (haddr : addressOf pton ((trim (ofBuffer piece)).takeWhile (· ≠ 0x2f)) = some n.addr)
      (hbits : cidrPrefix tail = some (n.prefixLen : ℤ))

/-- A line that is read right: it is not cut, and nothing in it passes for a prefix; or it is cut,
means no network, and none of the pieces it is cut into is taken for one; or it is cut, means a
network, and just one of its pieces is taken for a network, which is the same. -/
inductive ReadRight (pton : InetPton Ipv6) (line : List UInt8) : Prop
  | whole (huncut : Uncut line) (hread : ¬ MisreadLine pton line)
  | silent (hcut : ¬ Uncut line) (hmeaning : meaning pton line = none)
      (hpieces : ∀ piece ∈ filePieces line, Silent pton piece)
  | once (hcut : ¬ Uncut line) (n : Network) (hmeaning : meaning pton line = some n)
      (before : List (List UInt8)) (piece : List UInt8) (after : List (List UInt8))
      (hpieces : filePieces line = before ++ piece :: after)
      (hothers : ∀ other ∈ before ++ after, Silent pton other)
      (n' : Network) (htaken : TakenFor pton piece n') (hsame : n'.rule = n.rule)

theorem lineBefore_of_mem_fileLines (h : line ∈ fileLines f) : LineBefore [] line := by
  induction hn : f.length using Nat.strong_induction_on generalizing f with
  | _ n ih =>
  by_cases hf : f = []
  · subst hf
    cases h
  · obtain ⟨l, rest, rfl, hl, hlines⟩ := fileLines_eq hf
    rw [hlines, mem_cons] at h
    rcases h with rfl | h
    · cases hl with
      | newline text htext => exact .newline text htext
      | last _ htext hne hrest => exact .last _ htext hne rfl
    · refine ih rest.length ?_ h rfl
      have := length_pos_of_ne_nil hl.ne_nil
      rw [← hn, length_append]
      omega

theorem ofBuffer_of_not_mem (h : 0 ∉ s) : ofBuffer s = s :=
  takeWhile_eq_self_iff.2 fun _ hb => decide_eq_true fun hzero => h (hzero ▸ hb)

theorem lineRules_of_uncut (hline : LineBefore [] line) (h : Uncut line) :
    lineRules pton line = (pieceRule pton line).toList := by
  have hread := fgets_of_length_le hline h.1
  rw [append_nil] at hread
  have hone : filePieces line = [line] := by
    rw [filePieces_eq hline.ne_nil, hread]
    rfl
  rw [lineRules, hone, filterMap_cons]
  cases pieceRule pton line <;> rfl

/-- The rule of a text without NUL: what it means, unless it is misread. -/
theorem pieceRule_of_not_mem (h : 0 ∉ line) :
    pieceRule pton line = (meaning pton line).map Network.rule ↔ ¬ MisreadLine pton line := by
  unfold pieceRule meaning MisreadLine
  rw [ofBuffer_of_not_mem h]
  by_cases hskip : trim line = [] ∨ (trim line).head? = some 0x23
  · rw [if_pos hskip, if_pos hskip]
    refine iff_of_true rfl ?_
    rintro ⟨hcomment, b, tail, a, hslash, -⟩
    rw [hskip.resolve_right hcomment] at hslash
    cases hslash
  · rw [if_neg hskip, if_neg hskip]
    have hcomment : (trim line).head? ≠ some 0x23 := fun hc => hskip (.inr hc)
    cases hmeaning : textMeaning pton (trim line) with
    | some n =>
      exact iff_of_true (ipAclParseCidr_of_textMeaning hmeaning)
        fun hmis => not_misread_of_textMeaning hmeaning hmis.2
    | none =>
      rw [Option.map_none, ipAclParseCidr_eq_none_iff hmeaning]
      exact (not_congr (and_iff_right hcomment)).symm

theorem meaning_of_misreadLine (h : MisreadLine pton line) : meaning pton line = none := by
  unfold meaning
  split_ifs with hskip
  · rfl
  · exact Option.eq_none_iff_forall_ne_some.2 fun n hn => not_misread_of_textMeaning hn h.2

theorem pieceRule_iff :
    pieceRule pton piece = (meaning pton (ofBuffer piece)).map Network.rule ↔
      ¬ MisreadLine pton (ofBuffer piece) := by
  have hzero : 0 ∉ ofBuffer piece := fun h => by simpa using mem_takeWhile_imp h
  have hsame : pieceRule pton (ofBuffer piece) = pieceRule pton piece := by
    unfold pieceRule
    rw [ofBuffer_of_not_mem hzero]
  rw [← hsame]
  exact pieceRule_of_not_mem hzero

theorem TakenFor.pieceRule_eq (h : TakenFor pton piece n) : pieceRule pton piece = some n.rule := by
  cases h with
  | means hmeaning =>
    have hno : ¬ MisreadLine pton (ofBuffer piece) := fun hmis => by
      rw [meaning_of_misreadLine hmis] at hmeaning
      cases hmeaning
    rw [pieceRule_iff.2 hno, hmeaning, Option.map_some]
  | misread hmis b tail hslash haddr hbits =>
    have hskip : ¬ (trim (ofBuffer piece) = [] ∨ (trim (ofBuffer piece)).head? = some 0x23) := by
      rintro (hnil | hcomment)
      · rw [hnil] at hslash
        cases hslash
      · exact hmis.1 hcomment
    unfold pieceRule
    rw [if_neg hskip]
    exact ipAclParseCidr_of_slash hslash haddr hbits

theorem silent_or_takenFor (pton : InetPton Ipv6) (piece : List UInt8) :
    Silent pton piece ∨ ∃ n, TakenFor pton piece n := by
  by_cases hmis : MisreadLine pton (ofBuffer piece)
  · obtain ⟨b, tail, n, hslash, haddr, hbits⟩ := exists_network_of_misread hmis.2
    exact .inr ⟨n, .misread hmis b tail hslash haddr hbits⟩
  · cases hmeaning : meaning pton (ofBuffer piece) with
    | none => exact .inl ⟨hmeaning, hmis⟩
    | some n => exact .inr ⟨n, .means hmeaning⟩

theorem pieceRule_eq_none_iff : pieceRule pton piece = none ↔ Silent pton piece := by
  constructor
  · intro hnone
    refine (silent_or_takenFor pton piece).resolve_right ?_
    rintro ⟨n, hn⟩
    rw [hn.pieceRule_eq] at hnone
    cases hnone
  · rintro ⟨hmeaning, hmis⟩
    rw [pieceRule_iff.2 hmis, hmeaning, Option.map_none]

theorem pieceRule_eq_some_iff {r : AclRule} :
    pieceRule pton piece = some r ↔ ∃ n, TakenFor pton piece n ∧ n.rule = r := by
  constructor
  · intro hsome
    have hloud : ¬ Silent pton piece := fun h => by
      rw [pieceRule_eq_none_iff.2 h] at hsome
      cases hsome
    obtain ⟨n, hn⟩ := (silent_or_takenFor pton piece).resolve_left hloud
    rw [hn.pieceRule_eq] at hsome
    exact ⟨n, hn, Option.some.inj hsome⟩
  · rintro ⟨n, hn, rfl⟩
    exact hn.pieceRule_eq

theorem toList_inj {o o' : Option AclRule} : o.toList = o'.toList ↔ o = o' := by
  cases o <;> cases o' <;> simp

theorem lineRules_of_cut (hcut : ¬ Uncut line) :
    lineRules pton line = meantRules pton line ↔ ReadRight pton line := by
  unfold lineRules meantRules
  constructor
  · intro hsame
    cases hmeaning : meaning pton line with
    | none =>
      rw [hmeaning, Option.map_none, Option.toList_none, filterMap_eq_nil_iff] at hsame
      exact .silent hcut hmeaning fun piece hpiece => pieceRule_eq_none_iff.1 (hsame piece hpiece)
    | some n =>
      rw [hmeaning, Option.map_some, Option.toList_some, filterMap_eq_cons_iff] at hsame
      obtain ⟨before, piece, after, hpieces, hbefore, hpiece, hafter⟩ := hsame
      obtain ⟨n', htaken, hrule⟩ := pieceRule_eq_some_iff.1 hpiece
      refine .once hcut n hmeaning before piece after hpieces (fun other hother => ?_) n' htaken hrule
      rcases mem_append.1 hother with hmem | hmem
      · exact pieceRule_eq_none_iff.1 (hbefore other hmem)
      · exact pieceRule_eq_none_iff.1 (filterMap_eq_nil_iff.1 hafter other hmem)
  · intro hright
    cases hright with
    | whole huncut => exact absurd huncut hcut
    | silent _ hmeaning hpieces =>
      rw [hmeaning, Option.map_none, Option.toList_none, filterMap_eq_nil_iff]
      exact fun piece hpiece => pieceRule_eq_none_iff.2 (hpieces piece hpiece)
    | once _ n hmeaning before piece after hpieces hothers n' htaken hsame =>
      rw [hmeaning, Option.map_some, Option.toList_some, filterMap_eq_cons_iff]
      refine ⟨before, piece, after, hpieces, fun other hmem => ?_, ?_, ?_⟩
      · exact pieceRule_eq_none_iff.2 (hothers other (mem_append_left _ hmem))
      · exact pieceRule_eq_some_iff.2 ⟨n', htaken, hsame⟩
      · refine filterMap_eq_nil_iff.2 fun other hmem => ?_
        exact pieceRule_eq_none_iff.2 (hothers other (mem_append_right _ hmem))

/-- **The meaning of an access control list.**  The rules of a file are those of its lines, in order;
a line contributes what it means exactly if it is read right, so that a file without cut and misread
lines gives the networks it lists; and the rule of a network matches the addresses of its family
whose first bits agree. -/
theorem acl_file_meaning (pton : InetPton Ipv6) :
    (∀ f, ipAclLoad pton f = (fileLines f).flatMap (lineRules pton)) ∧
    (∀ f, ∀ line ∈ fileLines f, lineRules pton line = meantRules pton line ↔ ReadRight pton line) ∧
    (∀ f, (∀ line ∈ fileLines f, Uncut line ∧ ¬ MisreadLine pton line) →
      ipAclLoad pton f = (fileLines f).filterMap fun line =>
        (meaning pton line).map Network.rule) ∧
    ∀ (n : Network) (x : Address), n.rule.matches x = true ↔ n.Contains x := by
  have hload (f : List UInt8) : ipAclLoad pton f = (fileLines f).flatMap (lineRules pton) := by
    rw [ipAclLoad, filePieces_eq_flatMap, filterMap_flatMap]
    rfl
  have hline {f line : List UInt8} (h : line ∈ fileLines f) (huncut : Uncut line) :
      lineRules pton line = meantRules pton line ↔ ¬ MisreadLine pton line := by
    rw [lineRules_of_uncut (lineBefore_of_mem_fileLines h) huncut, meantRules, toList_inj]
    exact pieceRule_of_not_mem huncut.2
  refine ⟨hload, fun f line h => ⟨fun hsame => ?_, ?_⟩, fun f hf => ?_, matches_rule_iff⟩
  · by_cases huncut : Uncut line
    · exact .whole huncut ((hline h huncut).1 hsame)
    · exact (lineRules_of_cut huncut).1 hsame
  · intro hright
    by_cases huncut : Uncut line
    · cases hright with
      | whole _ hread => exact (hline h huncut).2 hread
      | silent hcut => exact absurd huncut hcut
      | once hcut => exact absurd huncut hcut
    · exact (lineRules_of_cut huncut).2 hright
  · rw [hload, filterMap_eq_flatMap_toList]
    refine flatMap_congr fun line h => ?_
    exact (hline h (hf line h).1).2 (hf line h).2

/-- `"10.0.0.1"`. -/
def sampleText : List UInt8 := [0x31, 0x30, 0x2e, 0x30, 0x2e, 0x30, 0x2e, 0x31]

/-- A conversion that knows one address. -/
def sampleAddresses : InetPton Ipv6 :=
  ⟨fun s => if s = sampleText then some 0x0a000001#32 else none, fun _ => none⟩

/-- `"10.0.0.1/8\n"`, and a comment. -/
def sampleList : List UInt8 := sampleText ++ [0x2f, 0x38, 10] ++ [0x23, 0x78, 10]

theorem acl_file_meaning_sampleList :
    ipAclLoad sampleAddresses sampleList = [.inet 0x0a000000#32 8 (by decide) (by decide)] := by
  have hplain : ∀ line ∈ fileLines sampleList, Uncut line ∧ ¬ MisreadLine sampleAddresses line := by
    have hlines : fileLines sampleList = [sampleText ++ [0x2f, 0x38, 10], [0x23, 0x78, 10]] := by
      decide
    intro line hline
    rcases mem_pair.1 hline with rfl | rfl
    · refine ⟨⟨by decide, by decide⟩, ?_⟩
      rintro ⟨-, b, tail, a, hslash, ha, hpass⟩
      have htail : [0x38] = tail := (cons.inj ((by decide :
        [0x2f, 0x38] = (trim (sampleText ++ [0x2f, 0x38, 10])).dropWhile (· ≠ 0x2f)).trans
          hslash)).2
      subst htail
      cases a with
      | inet x => exact not_passesForPrefix (by decide) (show value [0x38] ≤ 32 by decide) hpass
      | inet6 x => exact not_passesForPrefix (by decide) (show value [0x38] ≤ 128 by decide) hpass
    · exact ⟨⟨by decide, by decide⟩, fun h => h.1 (by decide)⟩
  rw [(acl_file_meaning sampleAddresses).2.2.1 sampleList hplain]
  decide

/-- An empty prefix passes for 0, so does `4294967296`, and the end of a long comment is read as a
line of its own. -/
theorem acl_file_misread :
    (meaning sampleAddresses (sampleText ++ [0x2f, 10]) = none ∧
      ipAclLoad sampleAddresses (sampleText ++ [0x2f, 10]) =
        [.inet 0#32 0 (by decide) (by decide)]) ∧
    (meaning sampleAddresses (sampleText ++
        [0x2f, 0x34, 0x32, 0x39, 0x34, 0x39, 0x36, 0x37, 0x32, 0x39, 0x36, 10]) = none ∧
      ipAclLoad sampleAddresses (sampleText ++
        [0x2f, 0x34, 0x32, 0x39, 0x34, 0x39, 0x36, 0x37, 0x32, 0x39, 0x36, 10]) =
          [.inet 0#32 0 (by decide) (by decide)]) ∧
    (meaning sampleAddresses (List.replicate 255 0x23 ++ sampleText) = none ∧
      ipAclLoad sampleAddresses (List.replicate 255 0x23 ++ sampleText) =
        [.inet 0x0a000001#32 32 (by decide) (by decide)]) := by
  refine ⟨⟨?_, ?_⟩, ⟨?_, ?_⟩, ?_, ?_⟩ <;> decide +kernel

end Mtbolt.Net
