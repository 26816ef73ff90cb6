import Mathlib.Tactic
import Mathlib.Data.List.DropRight

/-!
# Texts and numbers of the C library

A C string is a list of bytes.  Here are the functions of the C library that parsers of
configuration texts use: `isspace` and `isdigit` in the C locale, `strtol` with its end pointer
(`strtoll` is the same where `long` has 64 bits), and the conversion to `int`.

* `strtol_number`: the value and the end of a number;
* `strtol_cases`: every text starts with a number, or `strtol` reads nothing.
-/

namespace CString

open List Bool

def isSpace (b : UInt8) : Bool := b = 0x20 || (0x09 ≤ b && b ≤ 0x0d)

def isDigit (b : UInt8) : Bool := 0x30 ≤ b && b ≤ 0x39

/-- The string in a buffer: up to the first NUL. -/
def ofBuffer (bytes : List UInt8) : List UInt8 := bytes.takeWhile (· ≠ 0)

/-- The text without blanks at its ends. -/
def trim (s : List UInt8) : List UInt8 := (s.dropWhile isSpace).rdropWhile isSpace

/-- The value of decimal digits. -/
def value (ds : List UInt8) : ℕ := ds.foldl (fun n b => 10 * n + (b.toNat - 0x30)) 0

/-- The value of a number with its sign. -/
def signedValue (sign ds : List UInt8) : ℤ := if sign = [0x2d] then -(value ds : ℤ) else value ds

/-- A number in the range of `long`. -/
def clamp (n : ℤ) : ℤ := max (-2 ^ 63) (min n (2 ^ 63 - 1))

/-- `(int)n`. -/
def toInt (n : ℤ) : ℤ := n.bmod (2 ^ 32)

/-- The sign of a number, and what follows it. -/
def splitSign : List UInt8 → Bool × List UInt8
  | 0x2d :: s => (true, s)
  | 0x2b :: s => (false, s)
  | s => (false, s)

/-- `strtol (s, &endptr, 10)`: the value, and the text at `endptr`, which is `s` itself when there is
no number. -/
def strtol (s : List UInt8) : ℤ × List UInt8 :=
  let p := splitSign (s.dropWhile isSpace)
  let ds := p.2.takeWhile isDigit
  if ds = [] then (0, s)
  else (clamp (if p.1 then -(value ds : ℤ) else value ds), p.2.dropWhile isDigit)

/-- `atoi`. -/
def atoi (s : List UInt8) : ℤ := toInt (strtol s).1

/-- `strchr`: the position of the first `c`. -/
def strchr (s : List UInt8) (c : UInt8) : Option ℕ := s.findIdx? (· = c)

/-- `strrchr`: the position of the last `c`. -/
def strrchr (s : List UInt8) (c : UInt8) : Option ℕ :=
  (s.reverse.findIdx? (· = c)).map fun i => s.length - 1 - i

/-- `inet_pton` for the two families, with an IPv4 address in host byte order. -/
structure InetPton (α : Type := List UInt8) where
  inet : List UInt8 → Option (BitVec 32)
  inet6 : List UInt8 → Option α

/-- A text that is at its end or goes on with a byte for which `p` does not hold. -/
def StopsAt (p : UInt8 → Bool) (s : List UInt8) : Prop := ∀ b t, s = b :: t → p b = false

theorem stopsAt_nil (p : UInt8 → Bool) : StopsAt p [] := fun b t h => by cases h

/-- A nonempty decimal number. -/
def IsNumber (s : List UInt8) : Prop := s ≠ [] ∧ ∀ b ∈ s, isDigit b = true

instance (s : List UInt8) : Decidable (IsNumber s) :=
  decidable_of_iff (s ≠ [] ∧ s.all isDigit = true) (and_congr_right fun _ => all_eq_true)

/-- A sign, or none. -/
def IsSign (s : List UInt8) : Prop := s = [] ∨ s = [0x2b] ∨ s = [0x2d]

variable {ds rest sign blanks s : List UInt8} {c : UInt8}

theorem takeWhile_append_of_stopsAt {p : UInt8 → Bool} (hds : ∀ b ∈ ds, p b = true)
    (hrest : StopsAt p rest) : (ds ++ rest).takeWhile p = ds ∧ (ds ++ rest).dropWhile p = rest := by
  induction ds with
  | nil =>
    cases rest with
    | nil => exact ⟨rfl, rfl⟩
    | cons b t => simp [hrest b t rfl]
  | cons b ds ih =>
    obtain ⟨htake, hdrop⟩ := ih fun c hc => hds c (mem_cons_of_mem _ hc)
    simp [hds b mem_cons_self, htake, hdrop]

theorem stopsAt_dropWhile (p : UInt8 → Bool) (s : List UInt8) : StopsAt p (s.dropWhile p) := by
  intro b t h
  have hhead := head?_dropWhile_not p s
  rw [h] at hhead
  simpa using hhead

section

variable (hne : ds ≠ []) (hds : ∀ b ∈ ds, isDigit b = true)
include hne hds

theorem stopsAt_sign (hsign : IsSign sign) : StopsAt isSpace (sign ++ ds ++ rest) := by
  intro b t h
  rcases hsign with rfl | rfl | rfl
  · obtain ⟨d, ds, rfl⟩ := exists_cons_of_ne_nil hne
    cases h
    have := hds b mem_cons_self
    simp only [isDigit, isSpace, and_eq_true, decide_eq_true_eq, or_eq_false_iff,
      decide_eq_false_iff_not, and_eq_false_iff] at this ⊢
    simp only [UInt8.le_iff_toNat_le, ← UInt8.toNat_inj] at this ⊢
    simp at this ⊢
    omega
  · cases h
    rfl
  · cases h
    rfl

theorem splitSign_append (hsign : IsSign sign) :
    splitSign (sign ++ ds ++ rest) = (decide (sign = [0x2d]), ds ++ rest) := by
  rcases hsign with rfl | rfl | rfl
  · obtain ⟨d, ds, rfl⟩ := exists_cons_of_ne_nil hne
    have hd := hds d mem_cons_self
    have hminus : d ≠ 0x2d := by rintro rfl; exact absurd hd (by decide)
    have hplus : d ≠ 0x2b := by rintro rfl; exact absurd hd (by decide)
    simp [splitSign, hminus, hplus]
  · rfl
  · rfl

theorem strtol_number (hblanks : ∀ b ∈ blanks, isSpace b = true) (hsign : IsSign sign)
    (hrest : StopsAt isDigit rest) :
    strtol (blanks ++ (sign ++ ds ++ rest)) = (clamp (signedValue sign ds), rest) := by
  obtain ⟨-, hdrop⟩ := takeWhile_append_of_stopsAt hblanks (stopsAt_sign hne hds hsign)
  obtain ⟨htake, hend⟩ := takeWhile_append_of_stopsAt hds hrest
  unfold strtol
  rw [hdrop, splitSign_append hne hds hsign]
  dsimp only
  rw [htake, if_neg hne, hend]
  simp only [signedValue, decide_eq_true_eq]

theorem strtol_digits
    (hrest : StopsAt isDigit rest) : strtol (ds ++ rest) = (clamp (value ds), rest) := by
  have hnumber : strtol ([] ++ ([] ++ ds ++ rest)) = _ :=
    strtol_number hne hds (fun _ hb => absurd hb not_mem_nil) (.inl rfl) hrest
  simpa [signedValue] using hnumber

end

/-- A text that starts with a number. -/
structure StartsWithNumber (s blanks sign ds rest : List UInt8) : Prop where
  split : s = blanks ++ (sign ++ ds ++ rest)
  blanks : ∀ b ∈ blanks, isSpace b = true
  sign : IsSign sign
  nonempty : ds ≠ []
  digits : ∀ b ∈ ds, isDigit b = true
  stops : StopsAt isDigit rest

theorem splitSign_spec (s : List UInt8) : ∃ sign, IsSign sign ∧ s = sign ++ (splitSign s).2 := by
  unfold splitSign
  split
  · exact ⟨[0x2d], .inr (.inr rfl), rfl⟩
  · exact ⟨[0x2b], .inr (.inl rfl), rfl⟩
  · exact ⟨[], .inl rfl, rfl⟩

/-- **Every text starts with a number, or `strtol` reads nothing.** -/
theorem strtol_cases (s : List UInt8) :
    (∃ blanks sign ds rest, StartsWithNumber s blanks sign ds rest) ∨ strtol s = (0, s) := by
  by_cases hds : (splitSign (s.dropWhile isSpace)).2.takeWhile isDigit = []
  · exact .inr (if_pos hds)
  · obtain ⟨sign, hsign, hsplit⟩ := splitSign_spec (s.dropWhile isSpace)
    refine .inl ⟨s.takeWhile isSpace, sign, _, (splitSign (s.dropWhile isSpace)).2.dropWhile isDigit,
      ?_, fun b hb => mem_takeWhile_imp hb, hsign, hds, fun b hb => mem_takeWhile_imp hb,
      stopsAt_dropWhile _ _⟩
    rw [append_assoc sign, takeWhile_append_dropWhile, ← hsplit, takeWhile_append_dropWhile]

theorem StartsWithNumber.strtol_eq (h : StartsWithNumber s blanks sign ds rest) :
    strtol s = (clamp (signedValue sign ds), rest) := by
  rw [h.split]
  exact strtol_number h.nonempty h.digits h.blanks h.sign h.stops

theorem StartsWithNumber.unique {blanks' sign' ds' rest' : List UInt8}
    (h : StartsWithNumber s blanks sign ds rest) (h' : StartsWithNumber s blanks' sign' ds' rest') :
    signedValue sign ds = signedValue sign' ds' ∧ rest = rest' := by
  have hread {blanks sign ds rest : List UInt8} (h : StartsWithNumber s blanks sign ds rest) :
      splitSign (s.dropWhile isSpace) = (decide (sign = [0x2d]), ds ++ rest) := by
    rw [h.split, (takeWhile_append_of_stopsAt h.blanks
      (stopsAt_sign h.nonempty h.digits h.sign)).2, splitSign_append h.nonempty h.digits h.sign]
  obtain ⟨hsign, htext⟩ := Prod.mk.inj ((hread h).symm.trans (hread h'))
  obtain ⟨htake, hdrop⟩ := takeWhile_append_of_stopsAt h.digits h.stops
  obtain ⟨htake', hdrop'⟩ := takeWhile_append_of_stopsAt h'.digits h'.stops
  rw [htext] at htake hdrop
  have hds : ds = ds' := htake.symm.trans htake'
  have hminus : sign = [0x2d] ↔ sign' = [0x2d] := decide_eq_decide.1 hsign
  refine ⟨?_, hdrop.symm.trans hdrop'⟩
  simp only [signedValue, hds, hminus]

theorem StartsWithNumber.of_isNumber (h : StartsWithNumber s blanks sign ds rest)
    (hs : IsNumber s) : blanks = [] ∧ sign = [] ∧ ds = s ∧ rest = [] := by
  have hdigit : ∀ b ∈ blanks ++ (sign ++ ds ++ rest), isDigit b = true := h.split ▸ hs.2
  have hblanks : blanks = [] := by
    refine eq_nil_iff_forall_not_mem.2 fun b hb => ?_
    have hspace := h.blanks b hb
    have := hdigit b (mem_append_left _ hb)
    simp only [isDigit, isSpace, and_eq_true, decide_eq_true_eq, or_eq_true,
      UInt8.le_iff_toNat_le, ← UInt8.toNat_inj] at this hspace
    simp at this hspace
    omega
  have hsign : sign = [] := by
    rcases h.sign with rfl | rfl | rfl
    · rfl
    · exact absurd (hdigit 0x2b (by simp)) (by decide)
    · exact absurd (hdigit 0x2d (by simp)) (by decide)
  have hrest : rest = [] := by
    cases rest with
    | nil => rfl
    | cons b t =>
      have := h.stops b t rfl
      rw [hdigit b (by simp)] at this
      cases this
  have := h.split
  subst hblanks hsign hrest
  simpa using this.symm

/-! ### Searching -/

theorem findIdx?_of_notMem (h : c ∉ s) : s.findIdx? (fun b => decide (b = c)) = none :=
  findIdx?_eq_none_iff.2 fun _ hb => decide_eq_false fun hbc => h (hbc ▸ hb)

theorem strchr_append {a : List UInt8} (h : c ∉ a) (b : List UInt8) :
    strchr (a ++ c :: b) c = some a.length := by
  rw [strchr, findIdx?_append, findIdx?_of_notMem h]
  simp [findIdx?_cons]

theorem strrchr_eq_none (h : c ∉ s) : strrchr s c = none := by
  rw [strrchr, findIdx?_of_notMem (by simpa using h)]
  rfl

theorem strrchr_append (a : List UInt8) {b : List UInt8} (h : c ∉ b) :
    strrchr (a ++ c :: b) c = some a.length := by
  have hrev : c ∉ b.reverse := by simpa using h
  rw [strrchr, reverse_append, reverse_cons, append_assoc, findIdx?_append, findIdx?_of_notMem hrev]
  simp only [Option.none_or, singleton_append, findIdx?_cons, decide_true, if_true,
    Option.map_some, length_append, length_cons, length_reverse, Option.some.injEq]
  omega

end CString
