import Mtbolt.Net.ClientHello

/-!
# The JA4 inputs of a ClientHello

`ja4_parse` of `net-ja4.c` goes through a ClientHello once and collects what the JA4 fingerprint is
computed from: the version, the cipher suites, the extensions, the signature algorithms, the first
protocol of ALPN, and whether there is a server name.  GREASE values are left out.
-/

namespace Mtbolt.Net

open Option

/-! ### The function -/

/-- `is_grease_u16`. -/
def isGreaseU16 (v : ℕ) : Bool := v &&& 0x0f0f == 0x0a0a && (v >>> 8) &&& 0xff == v &&& 0xff

/-- `%04x`. -/
def hex4 (v : ℕ) : String := String.ofList ((Nat.toDigits 16 v).leftpad 4 '0')

/-- `u16_be` at `pos`, for `n` values one after the other. -/
def u16Values (ch : List UInt8) : ℕ → ℕ → List ℕ
  | 0, _ => []
  | n + 1, pos => tlsReadLength ch pos :: u16Values ch n (pos + 2)

/-- The text of a version: "10" for TLS 1.0 up to "13". -/
def tlsVer (minor : ℕ) : String := String.ofList ['1', Char.ofNat (48 + (minor - 1))]

/-- What `ja4_parse` fills in.  The arrays are the lists of what is stored in them, and a number
that the function returns for one is the length of its list. -/
structure Ja4Inputs where
  tlsVer : String
  hasSni : Bool
  ciphers : List String
  exts : List String
  extCountTotal : ℕ
  sigalgs : List String
  alpn0First : UInt8
  alpn0Last : UInt8
  deriving DecidableEq, Repr

/-- The sizes of the arrays. -/
structure Ja4Limits where
  cipherMax : ℕ
  extsMax : ℕ
  sigalgsMax : ℕ

/-- The version by `legacy_version`. -/
def legacyTlsVer (ch : List UInt8) : String :=
  let minor := (ch.getD 10 0).toNat
  if ch.getD 9 0 = 0x03 ∧ 1 ≤ minor ∧ minor ≤ 4 then tlsVer minor else "00"

/-- The values of `supported_versions` that count: TLS 1.0 to 1.3. -/
def tlsMinor (v : ℕ) : Option ℕ :=
  if isGreaseU16 v then none
  else if v >>> 8 = 0x03 ∧ 1 ≤ v &&& 0xff ∧ v &&& 0xff ≤ 4 then some (v &&& 0xff)
  else none

/-- `supported_versions` at `pos`: the highest version wins. -/
def ja4SupportedVersions (ch : List UInt8) (pos extLen : ℕ) (r : Ja4Inputs) : Ja4Inputs :=
  let svListLen := (ch.getD pos 0).toNat
  if 0 < svListLen ∧ svListLen + 1 ≤ extLen ∧ svListLen % 2 = 0 then
    match ((u16Values ch (svListLen / 2) (pos + 1)).filterMap tlsMinor).max? with
    | some bestMinor => { r with tlsVer := Net.tlsVer bestMinor }
    | none => r
  else r

/-- `signature_algorithms` at `pos`. -/
def ja4Sigalgs (lim : Ja4Limits) (ch : List UInt8) (pos extLen : ℕ) (r : Ja4Inputs) : Ja4Inputs :=
  let saListLen := tlsReadLength ch pos
  if 0 < saListLen ∧ saListLen + 2 ≤ extLen ∧ saListLen % 2 = 0 then
    { r with
      sigalgs := (r.sigalgs ++ (u16Values ch (saListLen / 2) (pos + 2)).map hex4).take
        lim.sigalgsMax }
  else r

/-- ALPN at `pos`: the first and the last byte of the first protocol. -/
def ja4Alpn (ch : List UInt8) (extEnd pos extLen : ℕ) (r : Ja4Inputs) : Ja4Inputs :=
  let alpnListLen := tlsReadLength ch pos
  let firstLen := (ch.getD (pos + 2) 0).toNat
  if 0 < alpnListLen ∧ alpnListLen + 2 ≤ extLen ∧ 0 < firstLen ∧ pos + 3 + firstLen ≤ extEnd then
    { r with alpn0First := ch.getD (pos + 3) 0, alpn0Last := ch.getD (pos + 3 + firstLen - 1) 0 }
  else r

/-- The pass of the loop for an extension. -/
def ja4Extension (lim : Ja4Limits) (ch : List UInt8) (extEnd : ℕ) (r : Ja4Inputs) (v : Visit) :
    Ja4Inputs :=
  if isGreaseU16 v.id then r
  else
    let r := { r with extCountTotal := r.extCountTotal + 1 }
    let r :=
      if v.id = 0x0000 then { r with hasSni := true }
      else if v.id = 0x002b ∧ 1 ≤ v.len then ja4SupportedVersions ch v.pos v.len r
      else if v.id = 0x000d ∧ 2 ≤ v.len then ja4Sigalgs lim ch v.pos v.len r
      else if v.id = 0x0010 ∧ 3 ≤ v.len then ja4Alpn ch extEnd v.pos v.len r
      else r
    if v.id ≠ 0x0000 ∧ v.id ≠ 0x0010 then
      { r with exts := (r.exts ++ [hex4 v.id]).take lim.extsMax }
    else r

/-- The loop over the extensions from `pos` to `extEnd`, at most `fuel` passes. -/
def ja4Loop (lim : Ja4Limits) (ch : List UInt8) (extEnd : ℕ) :
    ℕ → ℕ → Ja4Inputs → Option Ja4Inputs
  | 0, _, r => some r
  | fuel + 1, pos, r =>
    if pos + 4 ≤ extEnd then
      let extType := tlsReadLength ch pos
      let extLen := tlsReadLength ch (pos + 2)
      if extEnd < pos + 4 + extLen then none
      else
        ja4Loop lim ch extEnd fuel (pos + 4 + extLen)
          (ja4Extension lim ch extEnd r ⟨extType, pos + 4, extLen⟩)
    else some r

/-- The part of `ja4_parse` in front of the extensions: what it fills in, and where the extensions
begin and end, unless the message ends before. -/
def ja4Header (lim : Ja4Limits) (ch : List UInt8) : Option (Ja4Inputs × Option (ℕ × ℕ)) :=
  let len := ch.length
  if len < 44 then none
  else
    let pos := 44 + (ch.getD 43 0).toNat
    if len < pos then none
    else if len < pos + 2 then none
    else
      let csLen := tlsReadLength ch pos
      if csLen % 2 = 1 ∨ len < pos + 2 + csLen then none
      else
        let ciphers := ((u16Values ch (csLen / 2) (pos + 2)).filter (!isGreaseU16 ·)).map hex4
        let r : Ja4Inputs := ⟨legacyTlsVer ch, false, ciphers.take lim.cipherMax, [], 0, [], 0, 0⟩
        let pos := pos + 2 + csLen
        if len < pos + 1 then none
        else
          let compLen := (ch.getD pos 0).toNat
          if len < pos + 1 + compLen then none
          else
            let pos := pos + 1 + compLen
            if len < pos + 2 then some (r, none)
            else
              let extEnd := pos + 2 + tlsReadLength ch pos
              if len < extEnd then none else some (r, some (pos + 2, extEnd))

/-- `ja4_parse`: what it fills in, or `none` for -1. -/
def ja4Parse (lim : Ja4Limits) (ch : List UInt8) : Option Ja4Inputs :=
  (ja4Header lim ch).bind fun h =>
    match h.2 with
    | none => some h.1
    | some p => ja4Loop lim ch p.2 ch.length p.1 h.1

/-! ### What the loop does -/

theorem ja4Loop_eq_visits (lim : Ja4Limits) (ch : List UInt8) (extEnd fuel pos : ℕ)
    (r : Ja4Inputs) :
    ja4Loop lim ch extEnd fuel pos r =
      (visits ch extEnd (fun _ => false) fuel pos).map
        (·.foldl (ja4Extension lim ch extEnd) r) := by
  induction fuel generalizing pos r with
  | zero => rfl
  | succ fuel ih =>
    rw [ja4Loop]
    dsimp only
    split_ifs with hend hlong
    · rw [visits_of_long hend hlong]
      rfl
    · rw [ih, visits_of_not_stop hend hlong rfl, map_map]
      rfl
    · rw [visits_of_end (by omega)]
      rfl

section HasSni

variable (lim : Ja4Limits) (ch : List UInt8) (extEnd : ℕ) (r : Ja4Inputs)

@[simp] theorem hasSni_ja4SupportedVersions (pos extLen : ℕ) :
    (ja4SupportedVersions ch pos extLen r).hasSni = r.hasSni := by
  unfold ja4SupportedVersions
  dsimp only
  split_ifs
  · split <;> rfl
  · rfl

@[simp] theorem hasSni_ja4Sigalgs (pos extLen : ℕ) :
    (ja4Sigalgs lim ch pos extLen r).hasSni = r.hasSni := by
  unfold ja4Sigalgs
  dsimp only
  split_ifs <;> rfl

@[simp] theorem hasSni_ja4Alpn (pos extLen : ℕ) :
    (ja4Alpn ch extEnd pos extLen r).hasSni = r.hasSni := by
  unfold ja4Alpn
  dsimp only
  split_ifs <;> rfl

theorem hasSni_ja4Extension (v : Visit) :
    (ja4Extension lim ch extEnd r v).hasSni = (r.hasSni || v.id == 0) := by
  unfold ja4Extension
  by_cases hsni : v.id = 0
  · simp [hsni, isGreaseU16]
  · simp only [beq_eq_false_iff_ne.2 hsni, Bool.or_false, if_neg hsni]
    split_ifs <;> simp

theorem hasSni_foldl (vs : List Visit) :
    (vs.foldl (ja4Extension lim ch extEnd) r).hasSni = (r.hasSni || vs.any (·.id == 0)) := by
  induction vs generalizing r with
  | nil => simp
  | cons v vs ih =>
    rw [List.foldl_cons, ih, hasSni_ja4Extension, List.any_cons, Bool.or_assoc]

end HasSni

/-! ### The three functions on a message -/

theorem upTo_false {α : Type*} (l : List α) : upTo (fun _ => false) l = l := by
  induction l with
  | nil => rfl
  | cons a l ih => rw [upTo, if_neg Bool.false_ne_true, ih]

variable {clientHello : List UInt8} {vs : List Visit} {exts : List HelloExtension}

theorem any_visits (h : List.Forall₂ (VisitOf clientHello) vs exts) :
    vs.any (·.id == 0) = exts.any (·.serverNames.isSome) := by
  induction h with
  | nil => rfl
  | cons hv _ ih => rw [List.any_cons, List.any_cons, ih, hv.id_eq, HelloExtension.id_eq_zero]

namespace ClientHello

variable (h : ClientHello)

/-- **`ja4_parse` by what it visits**: all extensions, one after the other. -/
theorem ja4Parse_bytes (lim : Ja4Limits) : ∃ r vs,
    ja4Header lim h.bytes = some (r, some (h.extPos, h.bytes.length)) ∧ r.hasSni = false ∧
      ja4Parse lim h.bytes = some (vs.foldl (ja4Extension lim h.bytes h.bytes.length) r) ∧
      List.Forall₂ (VisitOf h.bytes) vs h.extensions := by
  have hlen := h.length_bytes
  obtain ⟨hstart, hpos⟩ := h.extPos_eq
  obtain ⟨vs, hvs, hall⟩ := h.visits_bytes fun _ => false
  rw [upTo_false] at hall
  have hheader : ∃ r, ja4Header lim h.bytes = some (r, some (h.extPos, h.bytes.length)) ∧
      r.hasSni = false := by
    unfold ja4Header
    dsimp only
    rw [h.read_sessionId, h.read_cipherSuites, h.read_compression, hstart, h.read_extensions, hpos,
      ← hlen, if_neg (by omega), if_neg (by omega), if_neg (by omega), if_neg (by omega),
      if_neg (by omega), if_neg (by omega), if_neg (by omega), if_neg (by omega)]
    exact ⟨_, rfl, rfl⟩
  obtain ⟨r, hr, hsni⟩ := hheader
  refine ⟨r, vs, hr, hsni, ?_, hall⟩
  rw [ja4Parse, hr]
  exact (ja4Loop_eq_visits lim h.bytes _ _ _ r).trans (by rw [hvs, map_some])

end ClientHello

/-- What a loop has come to: the ids, and the contents in the message. -/
def readBack (clientHello : List UInt8) (vs : List Visit) : List (ℕ × List UInt8) :=
  vs.map fun v => (v.id, v.contents clientHello)

theorem readBack_eq (h : List.Forall₂ (VisitOf clientHello) vs exts) :
    readBack clientHello vs = exts.map fun e => (e.id, e.contents) := by
  induction h with
  | nil => rfl
  | cons hv _ ih =>
    rw [readBack, List.map_cons, hv.id_eq, hv.contents_eq]
    exact congrArg _ ih

/-- **The three functions on a ClientHello.**  `ja4_parse` goes through all of its extensions,
`tls_parse_sni` and `tls_client_hello_offers_mlkem` through the same ones up to the first server
name and the first key share extension.  `tls_parse_sni` returns the name in that extension if it is
one that the caller can take, `ja4_parse` says whether there is such an extension, and
`tls_client_hello_offers_mlkem` whether the first key share extension lists X25519MLKEM768. -/
theorem walkers_agree (h : ClientHello) (lim : Ja4Limits) (maxDomainLen : ℕ) :
    (∃ r vs, ja4Header lim h.bytes = some (r, some (h.extPos, h.bytes.length)) ∧
      ja4Parse lim h.bytes = some (vs.foldl (ja4Extension lim h.bytes h.bytes.length) r) ∧
      readBack h.bytes vs = h.extensions.map fun e => (e.id, e.contents)) ∧
      (sniVisits h.bytes).map (readBack h.bytes) =
        some ((upTo (fun e => e.id == 0) h.extensions).map fun e => (e.id, e.contents)) ∧
      (mlkemVisits h.bytes).map (readBack h.bytes) =
        some ((upTo (fun e => e.id == 0x33) h.extensions).map fun e => (e.id, e.contents)) ∧
      tlsParseSni h.bytes maxDomainLen = h.serverNames.bind (hostName maxDomainLen) ∧
      (∃ r, ja4Parse lim h.bytes = some r ∧ (r.hasSni = true ↔ h.serverNames.isSome = true)) ∧
      tlsClientHelloOffersMlkem h.bytes = h.keyShares.any (·.any (·.group == 0x11ec)) := by
  obtain ⟨r, vs, hheader, hfresh, hparse, hvs⟩ := h.ja4Parse_bytes lim
  obtain ⟨sni, hsni, hsniOf⟩ := h.sniVisits_bytes
  obtain ⟨mlkem, hmlkem, hmlkemOf⟩ := h.mlkemVisits_bytes
  refine ⟨⟨r, vs, hheader, hparse, readBack_eq hvs⟩, ?_, ?_, h.tlsParseSni_bytes maxDomainLen,
    ⟨_, hparse, ?_⟩, h.tlsClientHelloOffersMlkem_bytes⟩
  · rw [hsni, map_some, readBack_eq hsniOf]
  · rw [hmlkem, map_some, readBack_eq hmlkemOf]
  · rw [hasSni_foldl, hfresh, Bool.false_or, any_visits hvs, ClientHello.serverNames,
      List.findSome?_isSome_iff, List.any_eq_true]

theorem length_zeros : (List.replicate 32 (0 : UInt8)).length = 32 := rfl

theorem longName_fits : 77 + 2 * [(0x1301 : UInt16)].length +
    ([HelloExtension.serverName [⟨0, List.replicate 256 0x61⟩]].flatMap HelloExtension.bytes).length <
      65536 := by
  decide +kernel

/-- A message whose server name has 256 bytes. -/
def longNameHello : ClientHello where
  recordVersion := 0x0301
  version := 0x0303
  random := List.replicate 32 0
  sessionId := List.replicate 32 0
  cipherSuites := [0x1301]
  compressionMethod := 0
  extensions := [.serverName [⟨0, List.replicate 256 0x61⟩]]
  random_length := length_zeros
  sessionId_length := length_zeros
  fits := longName_fits

/-- `tls_parse_sni` does not return a name that does not fit in the caller's buffer. -/
theorem tlsParseSni_longNameHello :
    longNameHello.serverNames = some [⟨0, List.replicate 256 0x61⟩] ∧
      tlsParseSni longNameHello.bytes 256 = none := by
  decide +kernel

end Mtbolt.Net
