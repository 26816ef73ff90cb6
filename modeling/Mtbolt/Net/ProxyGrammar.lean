import Mtbolt.Lib.CString
import Mtbolt.Net.ProxyStream

/-!
# The texts that are accepted as a version 1 header

`parse_v1` compares prefixes, looks for blanks and converts the source port with `atoi`.  It looks
neither at the destination nor at what follows the source port.
-/

namespace Mtbolt.Net

open CString List Option

/-! ### Lines -/

/-- The first `n` bytes are a line that starts with `"PROXY "`; they end at the first CR LF. -/
structure V1Line (inn : List UInt8) (n : ℕ) (line : List UInt8) : Prop where
  ends : EndsAtCrlf inn n
  split : inn.take n = proxyText ++ (line ++ [13, 10])

variable {inn line p : List UInt8} {n : ℕ} {pton : InetPton} {out : ProxyProtocolResult}

theorem V1Line.length_eq (h : V1Line inn n line) : n = line.length + 8 := by
  have hlf := (List.getElem?_eq_some_iff.1 h.ends.lf).1
  have hlen := congrArg length h.split
  simp only [length_take, length_append, proxyText, length_cons, length_nil] at hlen
  omega

theorem V1Line.eq_drop (h : V1Line inn n line) : line = (inn.take (n - 2)).drop 6 := by
  have hn := h.length_eq
  have htake : inn.take (n - 2) = proxyText ++ line := by
    rw [← Nat.min_eq_left (Nat.sub_le n 2), ← take_take, h.split, ← append_assoc]
    exact take_left' (by simp [proxyText]; omega)
  rw [htake]
  rfl

theorem v1Line_of_endsAtCrlf (htext : inn.take 6 = proxyText) (hn : 8 ≤ n) (h : EndsAtCrlf inn n) :
    V1Line inn n ((inn.take (n - 2)).drop 6) := by
  refine ⟨h, ?_⟩
  have hcr : inn.take (n - 1) = inn.take (n - 2) ++ [13] := by
    rw [show n - 1 = n - 2 + 1 by omega, take_add_one, h.cr]
    rfl
  have hall : inn.take n = inn.take (n - 1) ++ [10] := by
    conv_lhs => rw [show n = n - 1 + 1 by omega, take_add_one, h.lf]
    rfl
  have hsix : (inn.take (n - 2)).take 6 = proxyText := by
    rw [take_take, Nat.min_eq_left (by omega), htext]
  rw [hall, hcr, ← hsix, append_assoc, ← append_assoc ((inn.take (n - 2)).take 6), take_append_drop]
  rfl

theorem crlfPos_of_v1Line (h : V1Line inn n line) (hn : n ≤ 108) :
    crlfPos (inn.take 108) = some (n - 2) := by
  have hlen := h.length_eq
  have hlf : n - 1 < inn.length := (List.getElem?_eq_some_iff.1 h.ends.lf).1
  have htake {i : ℕ} (hi : i < 108) : (inn.take 108)[i]? = inn[i]? := getElem?_take_of_lt hi
  have hnext : n - 2 + 1 = n - 1 := by omega
  cases hpos : crlfPos (inn.take 108) with
  | none =>
    have hmem : n - 2 ∈ range' 6 ((inn.take 108).length - 1 - 6) := by
      rw [mem_range'_1, length_take]
      omega
    have hnot := find?_eq_none.1 hpos _ hmem
    rw [htake (by omega), hnext, htake (by omega), h.ends.cr, h.ends.lf] at hnot
    simp at hnot
  | some pos =>
    have hle : pos + 2 ≤ 108 := (crlfPos_lt hpos).trans (length_take_le _ _)
    obtain ⟨hsix, hcr, hlf, hfirst⟩ := crlfPos_spec hpos
    rw [htake (by omega)] at hcr hlf
    rcases lt_trichotomy pos (n - 2) with hlt | rfl | hlt
    · exact absurd ⟨hcr, hlf⟩ (h.ends.first pos (by omega))
    · rfl
    · refine absurd ?_ (hfirst (n - 2) (by omega) hlt)
      rw [htake (by omega), hnext, htake (by omega)]
      exact ⟨h.ends.cr, h.ends.lf⟩

/-! ### Fields -/

/-- What stands behind the family: three fields without blanks, and the rest. -/
structure V1Fields where
  src : List UInt8
  dst : List UInt8
  port : List UInt8
  rest : List UInt8
  src_blank : 0x20 ∉ src
  dst_blank : 0x20 ∉ dst
  port_blank : 0x20 ∉ port

def V1Fields.text (f : V1Fields) : List UInt8 :=
  f.src ++ 0x20 :: (f.dst ++ 0x20 :: (f.port ++ 0x20 :: f.rest))

/-- The texts that `parse_v1` accepts behind `"PROXY "`, and what it reports for them. -/
inductive V1Text (pton : InetPton) : List UInt8 → ProxyProtocolResult → Prop
  | unknown (rest : List UInt8) : V1Text pton (unknownText ++ rest) .zero
  | tcp4 (f : V1Fields) {ip : BitVec 32} (h : pton.inet f.src = some ip) :
    V1Text pton (tcp4Text ++ f.text) ⟨.inet, ip, List.replicate 16 0, atoiShort f.port⟩
  | tcp6 (f : V1Fields) {ip : List UInt8} (h : pton.inet6 f.src = some ip) :
    V1Text pton (tcp6Text ++ f.text) ⟨.inet6, 0, ip, atoiShort f.port⟩

theorem splitBlank_append {a : List UInt8} (h : 0x20 ∉ a) (b : List UInt8) :
    splitBlank (a ++ 0x20 :: b) = some (a, b) := by
  have hall : ∀ x ∈ a, decide (x ≠ (0x20 : UInt8)) = true := by
    intro x hx
    refine decide_eq_true ?_
    rintro rfl
    exact h hx
  rw [splitBlank, dropWhile_append_of_pos hall, takeWhile_append_of_pos hall]
  simp

theorem eq_append_of_splitBlank {a b : List UInt8} (h : splitBlank p = some (a, b)) :
    0x20 ∉ a ∧ p = a ++ 0x20 :: b := by
  unfold splitBlank at h
  have hsplit := takeWhile_append_dropWhile (p := fun x : UInt8 => decide (x ≠ 0x20)) (l := p)
  cases hdrop : p.dropWhile (· ≠ 0x20) with
  | nil =>
    rw [hdrop] at h
    cases h
  | cons c rest =>
    rw [hdrop] at h
    cases h
    have hhead := head?_dropWhile_not (fun x : UInt8 => decide (x ≠ 0x20)) p
    rw [hdrop] at hhead hsplit
    obtain rfl : c = 0x20 := by simpa using hhead
    refine ⟨fun hmem => ?_, hsplit.symm⟩
    simpa using mem_takeWhile_imp hmem

theorem v1Addresses_inet (pton : InetPton) (f : V1Fields) :
    v1Addresses pton .inet f.text = (pton.inet f.src).map fun ip =>
      ⟨.inet, ip, replicate 16 0, atoiShort f.port⟩ := by
  unfold v1Addresses V1Fields.text
  rw [splitBlank_append f.src_blank]
  cases hip : pton.inet f.src with
  | none => simp [hip]
  | some ip =>
    simp [hip, splitBlank_append f.dst_blank, splitBlank_append f.port_blank,
      ProxyProtocolResult.zero]

theorem v1Addresses_inet6 (pton : InetPton) (f : V1Fields) :
    v1Addresses pton .inet6 f.text = (pton.inet6 f.src).map fun ip =>
      ⟨.inet6, 0, ip, atoiShort f.port⟩ := by
  unfold v1Addresses V1Fields.text
  rw [splitBlank_append f.src_blank]
  cases hip : pton.inet6 f.src with
  | none => simp [hip]
  | some ip =>
    simp [hip, splitBlank_append f.dst_blank, splitBlank_append f.port_blank,
      ProxyProtocolResult.zero]

theorem exists_v1Fields {family : AddrFamily} (h : (v1Addresses pton family p).isSome) :
    ∃ f : V1Fields, p = f.text := by
  obtain ⟨out, h⟩ := isSome_iff_exists.1 h
  obtain ⟨⟨src, p₁⟩, hsrc, h⟩ := bind_eq_some_iff.1 h
  have hrest : ∃ dst p₂ port rest, splitBlank p₁ = some (dst, p₂) ∧
      splitBlank p₂ = some (port, rest) := by
    cases family with
    | inet =>
      obtain ⟨address, _, h⟩ := bind_eq_some_iff.1 h
      obtain ⟨⟨dst, p₂⟩, hdst, h⟩ := bind_eq_some_iff.1 h
      obtain ⟨⟨port, rest⟩, hport, -⟩ := bind_eq_some_iff.1 h
      exact ⟨dst, p₂, port, rest, hdst, hport⟩
    | _ =>
      obtain ⟨address, _, h⟩ := bind_eq_some_iff.1 h
      obtain ⟨⟨dst, p₂⟩, hdst, h⟩ := bind_eq_some_iff.1 h
      obtain ⟨⟨port, rest⟩, hport, -⟩ := bind_eq_some_iff.1 h
      exact ⟨dst, p₂, port, rest, hdst, hport⟩
  obtain ⟨dst, p₂, port, rest, hdst, hport⟩ := hrest
  obtain ⟨hsrc', rfl⟩ := eq_append_of_splitBlank hsrc
  obtain ⟨hdst', rfl⟩ := eq_append_of_splitBlank hdst
  obtain ⟨hport', rfl⟩ := eq_append_of_splitBlank hport
  exact ⟨⟨src, dst, port, rest, hsrc', hdst', hport'⟩, rfl⟩

/-- What `parse_v1` makes of the text behind `"PROXY "`. -/
def v1Result (pton : InetPton) (p : List UInt8) : Option ProxyProtocolResult :=
  if p.take 7 = unknownText then some .zero
  else if p.take 5 = tcp4Text then v1Addresses pton .inet (p.drop 5)
  else if p.take 5 = tcp6Text then v1Addresses pton .inet6 (p.drop 5)
  else none

theorem v1Result_eq_some_iff : v1Result pton p = some out ↔ V1Text pton p out := by
  constructor
  · intro h
    unfold v1Result at h
    split_ifs at h with hunknown h4 h6
    · cases h
      rw [← take_append_drop 7 p, hunknown]
      exact .unknown _
    · obtain ⟨f, hf⟩ := exists_v1Fields (isSome_of_eq_some h)
      rw [hf, v1Addresses_inet, map_eq_some_iff] at h
      obtain ⟨ip, hip, rfl⟩ := h
      rw [← take_append_drop 5 p, h4, hf]
      exact .tcp4 f hip
    · obtain ⟨f, hf⟩ := exists_v1Fields (isSome_of_eq_some h)
      rw [hf, v1Addresses_inet6, map_eq_some_iff] at h
      obtain ⟨ip, hip, rfl⟩ := h
      rw [← take_append_drop 5 p, h6, hf]
      exact .tcp6 f hip
  · intro h
    cases h with
    | unknown rest => rfl
    | tcp4 f hip =>
      have haddr := v1Addresses_inet pton f
      rw [hip] at haddr
      exact haddr
    | tcp6 f hip =>
      have haddr := v1Addresses_inet6 pton f
      rw [hip] at haddr
      exact haddr

/-! ### Headers -/

theorem parseV1_of_crlfPos {pos : ℕ} (hlen : ¬ inn.length < 15)
    (hpos : crlfPos (inn.take 108) = some pos) :
    parseV1 pton inn =
      (v1Result pton (ofBuffer ((inn.take pos).drop 6))).elim .error (.ok (pos + 2)) := by
  have hle : pos + 2 ≤ 108 := (crlfPos_lt hpos).trans (length_take_le _ _)
  have htake : (inn.take 108).take pos = inn.take pos := by
    rw [take_take, Nat.min_eq_left (by omega)]
  unfold parseV1 v1Result ofBuffer
  rw [if_neg hlen]
  dsimp only
  rw [hpos]
  dsimp only
  rw [htake]
  generalize takeWhile _ _ = p
  by_cases hunknown : p.take 7 = unknownText
  · rw [if_pos hunknown, if_pos hunknown, Option.elim_some]
  · rw [if_neg hunknown, if_neg hunknown]
    cases (if p.take 5 = tcp4Text then v1Addresses pton .inet (p.drop 5)
      else if p.take 5 = tcp6Text then v1Addresses pton .inet6 (p.drop 5) else none) with
    | none => rfl
    | some out => rfl

theorem V1Text.length_le (h : V1Text pton p out) : 7 ≤ p.length := by
  cases h with
  | unknown rest => simp [unknownText]
  | tcp4 f hip =>
    simp only [tcp4Text, V1Fields.text, length_append, length_cons, length_nil]
    omega
  | tcp6 f hip =>
    simp only [tcp6Text, V1Fields.text, length_append, length_cons, length_nil]
    omega

theorem parseV1_eq_ok_iff (htext : inn.take 6 = proxyText) :
    parseV1 pton inn = .ok n out ↔
      n ≤ 108 ∧ ∃ line, V1Line inn n line ∧ V1Text pton (ofBuffer line) out := by
  constructor
  · intro h
    obtain ⟨pos, hpos, rfl⟩ := parseV1_ok h
    have hle : pos + 2 ≤ 108 := (crlfPos_lt hpos).trans (length_take_le _ _)
    have hsix := (crlfPos_spec hpos).1
    have hlen : ¬ inn.length < 15 := by
      intro hshort
      rw [parseV1, if_pos hshort] at h
      cases h
    refine ⟨hle, _, v1Line_of_endsAtCrlf htext (by omega) (endsAtCrlf_of_crlfPos htext hpos), ?_⟩
    rw [parseV1_of_crlfPos hlen hpos] at h
    rw [← v1Result_eq_some_iff, Nat.add_sub_cancel]
    cases hresult : v1Result pton (ofBuffer ((inn.take pos).drop 6)) with
    | none =>
      rw [hresult] at h
      cases h
    | some out' =>
      rw [hresult] at h
      cases h
      rfl
  · rintro ⟨hle, line, hline, htext⟩
    have hn := hline.length_eq
    have hshort : (ofBuffer line).length ≤ line.length := (List.takeWhile_prefix _).length_le
    have hseven := htext.length_le
    have hlf : n - 1 < inn.length := (List.getElem?_eq_some_iff.1 hline.ends.lf).1
    rw [parseV1_of_crlfPos (by omega) (crlfPos_of_v1Line hline hle), ← hline.eq_drop,
      v1Result_eq_some_iff.2 htext]
    exact congrArg (ProxyProtocolVerdict.ok · out) (by omega)

/-! ### The port -/

theorem toNat_atoiShort {port : List UInt8} (hnum : IsNumber port) (hle : value port ≤ 65535) :
    (atoiShort port).toNat = value port := by
  have hread : atoi port = value port := by
    have hdigits := strtol_digits hnum.1 hnum.2 (stopsAt_nil isDigit)
    rw [append_nil] at hdigits
    rw [atoi, hdigits, clamp, max_eq_right (by omega), min_eq_left (by omega)]
    exact Int.bmod_eq_of_le (by omega) (by omega)
  rw [atoiShort, hread, BitVec.ofInt_natCast, BitVec.toNat_ofNat]
  omega

/-- Text determines its fields, so the port that is reported is the one of the fields. -/
theorem V1Text.srcPort_eq {f : V1Fields} {tag : List UInt8} (htag : tag = tcp4Text ∨ tag = tcp6Text)
    (h : V1Text pton (tag ++ f.text) out) : out.srcPort = atoiShort f.port := by
  rw [← v1Result_eq_some_iff] at h
  rcases htag with rfl | rfl
  · have hresult : v1Result pton (tcp4Text ++ f.text) = v1Addresses pton .inet f.text := rfl
    rw [hresult, v1Addresses_inet, map_eq_some_iff] at h
    obtain ⟨ip, -, rfl⟩ := h
    rfl
  · have hresult : v1Result pton (tcp6Text ++ f.text) = v1Addresses pton .inet6 f.text := rfl
    rw [hresult, v1Addresses_inet6, map_eq_some_iff] at h
    obtain ⟨ip, -, rfl⟩ := h
    rfl

/-- **The grammar of version 1.**  A message that starts with `"PROXY "` is accepted if and only if
it has a line of at most 108 bytes whose text, up to a NUL, starts with `"UNKNOWN"`, or with the
family, a source address that `inet_pton` accepts, a destination and a source port without blanks
and a last blank.  If the source port is a decimal number in the range of a port, it is what is
reported. -/
theorem parse_v1_grammar (pton : InetPton) {inn : List UInt8} (htext : inn.take 6 = proxyText)
    (n : ℕ) (out : ProxyProtocolResult) :
    (parseV1 pton inn = .ok n out ↔
      n ≤ 108 ∧ ∃ line, V1Line inn n line ∧ V1Text pton (ofBuffer line) out) ∧
    ∀ line tag, ∀ f : V1Fields, parseV1 pton inn = .ok n out → V1Line inn n line →
      (tag = tcp4Text ∨ tag = tcp6Text) → ofBuffer line = tag ++ f.text →
      IsNumber f.port → value f.port ≤ 65535 → out.srcPort.toNat = value f.port := by
  refine ⟨parseV1_eq_ok_iff htext, ?_⟩
  intro line tag f hok hline htag hsplit hnum hle
  obtain ⟨-, line', hline', hv1⟩ := (parseV1_eq_ok_iff htext).1 hok
  obtain rfl : line = line' := hline.eq_drop.trans hline'.eq_drop.symm
  rw [hsplit] at hv1
  rw [hv1.srcPort_eq htag, toNat_atoiShort hnum hle]

/-- `"PROXY TCP4 1.2.3.4 2 77 9"`. -/
theorem parse_v1_grammar_tcp4 :
    ∃ line, V1Line (proxyText ++ tcp4Text ++ sampleSource ++
        [0x20, 0x32, 0x20, 0x37, 0x37, 0x20, 0x39, 13, 10]) 27 line ∧
      V1Text samplePton (ofBuffer line) ⟨.inet, 0x01020304#32, List.replicate 16 0, 77⟩ :=
  (((parse_v1_grammar samplePton (by decide) 27
    ⟨.inet, 0x01020304#32, replicate 16 0, 77⟩).1).1 (by decide)).2

/-- `"PROXY UNKNOWNx"` is accepted, and so is `"PROXY TCP4 1.2.3.4 x 70000 y"`, for which the port
4464 is reported. -/
theorem parseV1_looseTexts :
    parseV1 samplePton (proxyText ++ unknownText ++ [0x78, 13, 10]) = .ok 16 .zero ∧
    parseV1 samplePton (proxyText ++ tcp4Text ++ sampleSource ++
        [0x20, 0x78, 0x20, 0x37, 0x30, 0x30, 0x30, 0x30, 0x20, 0x79, 13, 10]) =
      .ok 30 ⟨.inet, 0x01020304#32, List.replicate 16 0, 4464⟩ := by
  decide

/-- The scan for the end goes one byte further than the 107 of the comment. -/
example : parseV1 ⟨fun _ => none, fun _ => none⟩
    (proxyText ++ unknownText ++ List.replicate 93 0x20 ++ [13, 10]) = .ok 108 .zero := by
  decide

end Mtbolt.Net
