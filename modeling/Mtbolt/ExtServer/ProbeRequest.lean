import Mtbolt.ExtServer.Domains
import Mtbolt.Net.ClientHello

/-!
# The ClientHello of the start-up probe

`create_request` writes the ClientHello that is sent to a backend into a buffer of 517 bytes, piece
by piece: constants, random bytes, GREASE values, a public key, and the name of the server.  All
lengths but those of the name are part of the constants; a padding extension fills the message up.
Each piece is checked to fit, and so is the header of the padding.

The key is a point of Curve25519, three times doubled.  A draw whose double or fourfold has no double
makes the inversion fail, and with it an assertion.
-/

namespace Mtbolt.ExtServer

open Net List Option

/-! ### The public key -/

/-- `mod` of `generate_public_key`. -/
def keyMod : ℕ := 0x7fffffffffffffffffffffffffffffffffffffffffffffffffffffffffffffed

/-- `pow` of `generate_public_key`. -/
def keyPow : ℕ := 0x3ffffffffffffffffffffffffffffffffffffffffffffffffffffffffffffff6

/-- `BN_mod_exp`. -/
def bnModExp (a p m : ℕ) : ℕ := p.bits.foldr (fun b r => r * r * (if b then a else 1) % m) (1 % m)

theorem bnModExp_eq (a p m : ℕ) : bnModExp a p m = a ^ p % m := by
  induction p using Nat.binaryRec' with
  | zero => rw [bnModExp, Nat.zero_bits, foldr_nil, pow_zero]
  | bit b p hbit ih =>
    rw [bnModExp, Nat.bits_append_bit p b hbit, foldr_cons, ← bnModExp, ih]
    cases b <;> simp [Nat.bit, pow_add, two_mul, Nat.mul_mod]

/-- `BN_mod_inverse`. -/
def bnModInverse (a m : ℕ) : Option ℕ :=
  if a.Coprime m then some (a.gcdA m % m).toNat else none

/-- `get_y2`. -/
def getY2 (x : ℕ) : ℕ :=
  let y := (x + 486662) % keyMod
  let y := y * x % keyMod
  let y := (y + 1) % keyMod
  y * x % keyMod

/-- `get_double_x`. -/
def getDoubleX (x : ℕ) : Option ℕ := do
  let denominator := getY2 x * 4 % keyMod
  let numerator := x * x % keyMod
  let numerator := (numerator + keyMod - 1) % keyMod
  let numerator := numerator * numerator % keyMod
  let denominator ← bnModInverse denominator keyMod
  some (numerator * denominator % keyMod)

/-- The loop over the draws: the square of the first one that belongs to a point. -/
def drawX : List (List UInt8) → Option ℕ
  | [] => none
  | key :: draws =>
    let x := (key.modify 31 (· &&& 127)).foldl (fun x b => x * 256 + b.toNat) 0
    let x := x * x % keyMod
    if bnModExp (getY2 x) keyPow keyMod = 1 then some x else drawX draws

/-- `generate_public_key`; `none` when an assertion fails, or no draw belongs to a point. -/
def generatePublicKey (draws : List (List UInt8)) : Option (List UInt8) := do
  let x ← drawX draws
  let x ← getDoubleX x
  let x ← getDoubleX x
  let x ← getDoubleX x
  some ((range 32).map fun i => UInt8.ofNat (x / 256 ^ i))

theorem length_of_generatePublicKey {draws : List (List UInt8)} {key : List UInt8}
    (h : generatePublicKey draws = some key) : key.length = 32 := by
  simp only [generatePublicKey, bind_eq_bind, bind_eq_some_iff] at h
  obtain ⟨-, -, -, -, -, -, x, -, hkey⟩ := h
  cases hkey
  rw [length_map, length_range]

/-- A draw of 32 bytes. -/
def smallDraw (b : UInt8) : List UInt8 := replicate 31 0 ++ [b]

/-- The double of `1` is `0`, which has none. -/
example : drawX [smallDraw 1] = some 1 ∧ getDoubleX 1 = some 0 ∧ getDoubleX 0 = none := by
  decide +kernel

/-! ### The function -/

/-- `TLS_REQUEST_LENGTH`. -/
def tlsRequestLength : ℕ := 517

/-- The random choices for a request, with the draws for its key. -/
structure RequestRandom where
  greases : ℕ → UInt8
  random : List UInt8
  sessionId : List UInt8
  draws : List (List UInt8)
  random_length : random.length = 32
  sessionId_length : sessionId.length = 32

/-- What the functions that write a piece have in common: the piece has to fit. -/
def addPiece (str data : List UInt8) : Option (List UInt8) :=
  if str.length + data.length ≤ tlsRequestLength then some (str ++ data) else none

/-- `add_string`. -/
def addString (str data : List UInt8) : Option (List UInt8) := addPiece str data

/-- `add_random`. -/
def addRandom (str random : List UInt8) : Option (List UInt8) := addPiece str random

/-- `add_length`. -/
def addLength (str : List UInt8) (length : ℕ) : Option (List UInt8) :=
  addPiece str (be16Bytes length)

/-- `add_grease`. -/
def addGrease (str : List UInt8) (greases : ℕ → UInt8) (num : ℕ) : Option (List UInt8) :=
  addPiece str [greases num, greases num]

/-- `add_public_key`. -/
def addPublicKey (str : List UInt8) (draws : List (List UInt8)) : Option (List UInt8) :=
  if str.length + 32 ≤ tlsRequestLength then (generatePublicKey draws).map (str ++ ·) else none

/-- The GREASE values: two neighbours of a pair differ. -/
def greaseValues (random : ℕ → UInt8) (i : ℕ) : UInt8 :=
  let grease := fun i => (random i &&& 0xf0) + 0x0a
  if i % 2 = 1 ∧ grease i = grease (i - 1) then 0x10 ^^^ grease i else grease i

/-- The headers of the record and of the handshake, and the version. -/
def requestStart : List UInt8 :=
  [0x16, 0x03, 0x01, 0x02, 0x00, 0x01, 0x00, 0x01, 0xfc, 0x03, 0x03]

/-- The cipher suites but the first, the compression method and the length of the extensions. -/
def requestSuites : List UInt8 :=
  [0x13, 0x01, 0x13, 0x02, 0x13, 0x03, 0xc0, 0x2b, 0xc0, 0x2f, 0xc0, 0x2c, 0xc0, 0x30, 0xcc, 0xa9,
    0xcc, 0xa8, 0xc0, 0x13, 0xc0, 0x14, 0x00, 0x9c, 0x00, 0x9d, 0x00, 0x2f, 0x00, 0x35, 0x00, 0x0a,
    0x01, 0x00, 0x01, 0x91]

/-- The extensions behind the name, up to the first of the groups. -/
def requestGroups : List UInt8 :=
  [0x00, 0x17, 0x00, 0x00, 0xff, 0x01, 0x00, 0x01, 0x00, 0x00, 0x0a, 0x00, 0x0a, 0x00, 0x08]

/-- The other groups, and the extensions up to the first key share. -/
def requestMiddle : List UInt8 :=
  [0x00, 0x1d, 0x00, 0x17, 0x00, 0x18, 0x00, 0x0b, 0x00, 0x02, 0x01, 0x00, 0x00, 0x23, 0x00, 0x00,
    0x00, 0x10, 0x00, 0x0e, 0x00, 0x0c, 0x02, 0x68, 0x32, 0x08, 0x68, 0x74, 0x74, 0x70, 0x2f, 0x31,
    0x2e, 0x31, 0x00, 0x05, 0x00, 0x05, 0x01, 0x00, 0x00, 0x00, 0x00, 0x00, 0x0d, 0x00, 0x14, 0x00,
    0x12, 0x04, 0x03, 0x08, 0x04, 0x04, 0x01, 0x05, 0x03, 0x08, 0x05, 0x05, 0x01, 0x08, 0x06, 0x06,
    0x01, 0x02, 0x01, 0x00, 0x12, 0x00, 0x00, 0x00, 0x33, 0x00, 0x2b, 0x00, 0x29]

/-- The other versions, and the compression of certificates. -/
def requestVersions : List UInt8 :=
  [0x03, 0x04, 0x03, 0x03, 0x03, 0x02, 0x03, 0x01, 0x00, 0x1b, 0x00, 0x03, 0x02, 0x00, 0x02]

/-- `create_request`; `none` when an assertion fails. -/
def createRequest (r : RequestRandom) (domain : List UInt8) : Option (List UInt8) := do
  let greases := greaseValues r.greases
  let domainLength := domain.length
  let s ← addString [] requestStart
  let s ← addRandom s r.random
  let s ← addString s [0x20]
  let s ← addRandom s r.sessionId
  let s ← addString s [0x00, 0x22]
  let s ← addGrease s greases 0
  let s ← addString s requestSuites
  let s ← addGrease s greases 2
  let s ← addString s [0x00, 0x00, 0x00, 0x00]
  let s ← addLength s (domainLength + 5)
  let s ← addLength s (domainLength + 3)
  let s ← addString s [0x00]
  let s ← addLength s domainLength
  let s ← addString s domain
  let s ← addString s requestGroups
  let s ← addGrease s greases 4
  let s ← addString s requestMiddle
  let s ← addGrease s greases 4
  let s ← addString s [0x00, 0x01, 0x00, 0x00, 0x1d, 0x00, 0x20]
  let s ← addPublicKey s r.draws
  let s ← addString s [0x00, 0x2d, 0x00, 0x02, 0x01, 0x01, 0x00, 0x2b, 0x00, 0x0b, 0x0a]
  let s ← addGrease s greases 6
  let s ← addString s requestVersions
  let s ← addGrease s greases 3
  let s ← addString s [0x00, 0x01, 0x00, 0x00, 0x15]
  let paddingLength : ℤ := tlsRequestLength - 2 - s.length
  if paddingLength < 0 then none
  else
    let s ← addLength s paddingLength.toNat
    some (s ++ List.replicate (tlsRequestLength - s.length) 0)

/-! ### The message -/

/-- A GREASE value as a number of two bytes. -/
def greaseId (g : UInt8) : UInt16 := UInt16.ofNat (g.toNat * 257)

theorem greaseValues_mod (random : ℕ → UInt8) (i : ℕ) :
    (greaseValues random i).toNat % 16 = 10 := by
  have hgrease : ∀ i, ((random i &&& 0xf0) + 0x0a).toNat % 16 = 10 := by
    intro i
    have hand : ((random i).toNat &&& 0xf0) % 2 ^ 4 = 0 := by
      rw [Nat.and_mod_two_pow]
      exact Nat.and_zero _
    change (((random i).toNat &&& 0xf0) + 10) % 256 % 16 = 10
    omega
  unfold greaseValues
  dsimp only
  split_ifs
  · have hxor : (0x10 ^^^ ((random i &&& 0xf0) + 0x0a).toNat) % 2 ^ 4 = 10 := by
      rw [Nat.xor_mod_two_pow, hgrease i]
      rfl
    exact hxor
  · exact hgrease i

theorem toNat_greaseId (g : UInt8) : (greaseId g).toNat = g.toNat * 257 := by
  have hlt := g.toNat_lt
  rw [greaseId, UInt16.toNat_ofNat']
  omega

theorem be16Bytes_greaseId (g : UInt8) : be16Bytes (greaseId g).toNat = [g, g] := by
  have hlt := g.toNat_lt
  have hhigh : g.toNat * 257 / 256 = g.toNat := by omega
  have hlow : UInt8.ofNat (g.toNat * 257) = g := by
    apply UInt8.toNat_inj.1
    rw [UInt8.toNat_ofNat']
    omega
  rw [toNat_greaseId, be16Bytes, hhigh, hlow, UInt8.ofNat_toNat]

theorem greaseId_other (random : ℕ → UInt8) (i : ℕ) :
    greaseId (greaseValues random i) ≠ 0 ∧ greaseId (greaseValues random i) ≠ 0x33 := by
  have hmod := greaseValues_mod random i
  have hnat := toNat_greaseId (greaseValues random i)
  constructor
  · intro h
    rw [h] at hnat
    change 0 = _ at hnat
    omega
  · intro h
    rw [h] at hnat
    change 0x33 = _ at hnat
    omega

section Message

variable (r : RequestRandom) (key : List UInt8) (hkey : key.length = 32) (domain : List UInt8)

/-- The cipher suites of the request. -/
def requestCiphers : List UInt16 :=
  [greaseId (greaseValues r.greases 0), 0x1301, 0x1302, 0x1303, 0xc02b, 0xc02f, 0xc02c, 0xc030,
    0xcca9, 0xcca8, 0xc013, 0xc014, 0x009c, 0x009d, 0x002f, 0x0035, 0x000a]

/-- The extensions of the request. -/
def requestExtensions : List HelloExtension :=
  let grease := greaseValues r.greases
  [.other (greaseId (grease 2)) [] (greaseId_other r.greases 2),
    .serverName [⟨0, domain⟩],
    .other 0x0017 [] (by decide),
    .other 0xff01 [0x00] (by decide),
    .other 0x000a [0x00, 0x08, grease 4, grease 4, 0x00, 0x1d, 0x00, 0x17, 0x00, 0x18] (by decide),
    .other 0x000b [0x01, 0x00] (by decide),
    .other 0x0023 [] (by decide),
    .other 0x0010 [0x00, 0x0c, 0x02, 0x68, 0x32, 0x08, 0x68, 0x74, 0x74, 0x70, 0x2f, 0x31, 0x2e,
      0x31] (by decide),
    .other 0x0005 [0x01, 0x00, 0x00, 0x00, 0x00] (by decide),
    .other 0x000d [0x00, 0x12, 0x04, 0x03, 0x08, 0x04, 0x04, 0x01, 0x05, 0x03, 0x08, 0x05, 0x05,
      0x01, 0x08, 0x06, 0x06, 0x01, 0x02, 0x01] (by decide),
    .other 0x0012 [] (by decide),
    .keyShare [⟨greaseId (grease 4), [0x00]⟩, ⟨0x001d, key⟩],
    .other 0x002d [0x01, 0x01] (by decide),
    .other 0x002b [0x0a, grease 6, grease 6, 0x03, 0x04, 0x03, 0x03, 0x03, 0x02, 0x03, 0x01]
      (by decide),
    .other 0x001b [0x02, 0x00, 0x02] (by decide),
    .other (greaseId (grease 3)) [0x00] (greaseId_other r.greases 3),
    .other 0x0015 (List.replicate (216 - domain.length) 0) (by decide)]

variable {key}

include hkey in
theorem length_requestExtensions (h : domain.length ≤ 216) :
    ((requestExtensions r key domain).flatMap HelloExtension.bytes).length = 401 := by
  simp only [requestExtensions, flatMap_cons, flatMap_nil, length_append,
    HelloExtension.length_bytes, HelloExtension.contents, length_cons, length_nil,
    length_replicate, ServerName.length_bytes, KeyShare.length_bytes, be16Bytes, hkey]
  clear hkey
  omega

/-- **The message that the pieces make up.** -/
def requestHello (h : domain.length ≤ 216) : ClientHello where
  recordVersion := 0x0301
  version := 0x0303
  random := r.random
  sessionId := r.sessionId
  cipherSuites := requestCiphers r
  compressionMethod := 0x00
  extensions := requestExtensions r key domain
  random_length := r.random_length
  sessionId_length := r.sessionId_length
  fits := by
    rw [length_requestExtensions r hkey domain h]
    exact (by decide : 77 + 2 * 17 + 401 < 65536)

/-! ### The pieces -/

/-- The pieces before the padding. -/
def requestPieces (r : RequestRandom) (key domain : List UInt8) : List (List UInt8) :=
  let grease := fun i => [greaseValues r.greases i, greaseValues r.greases i]
  [requestStart, r.random, [0x20], r.sessionId, [0x00, 0x22], grease 0, requestSuites, grease 2,
    [0x00, 0x00, 0x00, 0x00], be16Bytes (domain.length + 5),
    be16Bytes (domain.length + 3), [0x00], be16Bytes domain.length, domain, requestGroups, grease 4,
    requestMiddle, grease 4, [0x00, 0x01, 0x00, 0x00, 0x1d, 0x00, 0x20], key,
    [0x00, 0x2d, 0x00, 0x02, 0x01, 0x01, 0x00, 0x2b, 0x00, 0x0b, 0x0a], grease 6,
    requestVersions, grease 3, [0x00, 0x01, 0x00, 0x00, 0x15]]

include hkey in
theorem length_requestPieces : (requestPieces r key domain).flatten.length = 299 + domain.length := by
  simp only [requestPieces, flatten_cons, flatten_nil, length_append,
    length_cons, length_nil, be16Bytes, r.random_length, r.sessionId_length,
    hkey, requestStart, requestSuites, requestGroups, requestMiddle, requestVersions]
  clear hkey
  omega

theorem foldlM_addPiece (pieces : List (List UInt8)) {s : List UInt8}
    (hs : s.length ≤ tlsRequestLength) :
    pieces.foldlM addPiece s =
      if s.length + pieces.flatten.length ≤ tlsRequestLength then some (s ++ pieces.flatten)
      else none := by
  induction pieces generalizing s with
  | nil => simp [hs]
  | cons p pieces ih =>
    rw [foldlM_cons, addPiece, flatten_cons, length_append]
    by_cases hp : s.length + p.length ≤ tlsRequestLength
    · rw [if_pos hp]
      change pieces.foldlM addPiece (s ++ p) = _
      rw [ih (by rw [length_append]; exact hp), length_append, append_assoc, Nat.add_assoc]
    · rw [if_neg hp, if_neg (by omega)]
      rfl

include hkey in
theorem addPublicKey_eq {draws : List (List UInt8)} (h : generatePublicKey draws = some key)
    (str : List UInt8) : addPublicKey str draws = addPiece str key := by
  rw [addPublicKey, addPiece, h, hkey, map_some]

theorem createRequest_eq_none (h : generatePublicKey r.draws = none) :
    createRequest r domain = none := by
  simp only [createRequest, addPublicKey, h, map_none, ite_self, bind_eq_bind, bind_none,
    Option.bind_fun_none]

include hkey in
theorem createRequest_eq_foldlM (h : generatePublicKey r.draws = some key) :
    createRequest r domain =
    ((requestPieces r key domain).foldlM addPiece []).bind fun s =>
      if (tlsRequestLength : ℤ) - 2 - s.length < 0 then none
      else (addLength s ((tlsRequestLength : ℤ) - 2 - s.length).toNat).bind fun s =>
        some (s ++ replicate (tlsRequestLength - s.length) 0) := by
  simp only [createRequest, addPublicKey_eq hkey h, requestPieces, foldlM_cons, foldlM_nil,
    bind_eq_bind, Option.bind_assoc, Option.pure_def, bind_some]
  rfl

theorem bytes_other {id : UInt16} {data : List UInt8} (hid : id ≠ 0 ∧ id ≠ 0x33) :
    (HelloExtension.other id data hid).bytes =
      be16Bytes id.toNat ++ (be16Bytes data.length ++ data) := rfl

theorem bytes_serverName : (HelloExtension.serverName [⟨0, domain⟩]).bytes =
    [0x00, 0x00] ++ (be16Bytes (domain.length + 5) ++ (be16Bytes (domain.length + 3) ++
      ([0x00] ++ (be16Bytes domain.length ++ domain)))) := by
  have hname : [ServerName.mk 0 domain].flatMap ServerName.bytes =
      [0x00] ++ (be16Bytes domain.length ++ domain) := append_nil _
  have hlength : ([0x00] ++ (be16Bytes domain.length ++ domain)).length = domain.length + 3 := by
    simp only [be16Bytes, length_append, length_cons, length_nil]
    omega
  have hlength' : (be16Bytes (domain.length + 3) ++
      ([0x00] ++ (be16Bytes domain.length ++ domain))).length = domain.length + 5 := by
    rw [length_append, hlength]
    simp only [be16Bytes, length_cons, length_nil]
    omega
  rw [HelloExtension.bytes, HelloExtension.contents, hname, hlength, extension, HelloExtension.id]
  rfl

include hkey in
theorem bytes_keyShare (g : UInt8) :
    (HelloExtension.keyShare [⟨greaseId g, [0x00]⟩, ⟨0x001d, key⟩]).bytes =
      [0x00, 0x33, 0x00, 0x2b, 0x00, 0x29, g, g, 0x00, 0x01, 0x00, 0x00, 0x1d, 0x00, 0x20] ++
        key := by
  have htwo : be16Bytes key.length = [0x00, 0x20] := by
    rw [hkey]
    rfl
  have hshares : [KeyShare.mk (greaseId g) [0x00], KeyShare.mk 0x001d key].flatMap
      KeyShare.bytes = [g, g, 0x00, 0x01, 0x00, 0x00, 0x1d, 0x00, 0x20] ++ key := by
    simp only [flatMap_cons, flatMap_nil, append_nil, KeyShare.bytes, be16Bytes_greaseId, htwo]
    rfl
  have hlength : ([g, g, 0x00, 0x01, 0x00, 0x00, 0x1d, 0x00, 0x20] ++ key).length = 41 := by
    rw [length_append, hkey]
    rfl
  have hlength' : (be16Bytes 41 ++
      ([g, g, 0x00, 0x01, 0x00, 0x00, 0x1d, 0x00, 0x20] ++ key)).length = 43 := by
    rw [length_append, hlength]
    rfl
  rw [HelloExtension.bytes, HelloExtension.contents, hshares, hlength, extension, hlength',
    HelloExtension.id]
  rfl

set_option maxRecDepth 2000 in
theorem bytes_requestHello (h : domain.length ≤ 216) :
    (requestHello r hkey domain h).bytes = (requestPieces r key domain).flatten ++
      (be16Bytes (216 - domain.length) ++ replicate (216 - domain.length) 0) := by
  have hext : (requestHello r hkey domain h).extensionBytes.length = 401 :=
    length_requestExtensions r hkey domain h
  have hlength : (requestHello r hkey domain h).length = 508 := by
    unfold ClientHello.length
    rw [hext]
    rfl
  have hciphers : 2 * (requestHello r hkey domain h).cipherSuites.length = 34 := rfl
  unfold ClientHello.bytes
  rw [hlength, hext, hciphers]
  simp only [requestHello, ClientHello.cipherBytes, ClientHello.extensionBytes, requestCiphers,
    requestExtensions, flatMap_cons, flatMap_nil, be16Bytes_greaseId, bytes_other,
    bytes_serverName, bytes_keyShare hkey, requestPieces, flatten_cons, flatten_nil,
    append_assoc, length_replicate, append_nil, length_cons, length_nil]
  rfl

theorem length_requestHello (h : domain.length ≤ 216) :
    (requestHello r hkey domain h).bytes.length = tlsRequestLength := by
  rw [bytes_requestHello, length_append, length_requestPieces r hkey, length_append,
    length_replicate]
  change 299 + domain.length + (2 + (216 - domain.length)) = 517
  omega

theorem tlsParseSni_requestHello {domain : List UInt8} (h : domain.length ≤ 216)
    (hne : domain ≠ []) (hnul : 0 ∉ domain) :
    tlsParseSni (requestHello r hkey domain h).bytes 256 = some domain := by
  have hnames : (requestHello r hkey domain h).serverNames = some [⟨0, domain⟩] := rfl
  rw [ClientHello.tlsParseSni_bytes, hnames, bind_some]
  refine if_pos ⟨rfl, hne, ?_, ?_⟩
  · change domain.length < 256
    omega
  · simpa using hnul

/-- **The request** is the message if the name leaves room for the padding; otherwise an assertion
fails. -/
theorem createRequest_eq (hgen : generatePublicKey r.draws = some key) :
    createRequest r domain = if h : domain.length ≤ 216 then
      some (requestHello r (length_of_generatePublicKey hgen) domain h).bytes else none := by
  have hkey := length_of_generatePublicKey hgen
  have hlen := length_requestPieces r hkey domain
  rw [createRequest_eq_foldlM r hkey domain hgen, foldlM_addPiece _ (Nat.zero_le _), hlen,
    length_nil, nil_append]
  by_cases h : domain.length ≤ 216
  · have hpad : ((tlsRequestLength : ℤ) - 2 - ((299 + domain.length : ℕ) : ℤ)).toNat =
        216 - domain.length := by
      unfold tlsRequestLength
      omega
    have hrest : tlsRequestLength - (299 + domain.length + 2) = 216 - domain.length := by
      omega
    have htwo : (be16Bytes (216 - domain.length)).length = 2 := rfl
    rw [dif_pos h, if_pos (by unfold tlsRequestLength; omega), bind_some, hlen,
      if_neg (by unfold tlsRequestLength; omega), hpad, addLength, addPiece,
      if_pos (by unfold tlsRequestLength; omega), bind_some, length_append, hlen, htwo, hrest,
        bytes_requestHello, append_assoc]
  · rw [dif_neg h]
    by_cases hfits : 0 + (299 + domain.length) ≤ tlsRequestLength
    · -- all pieces fit, but not the header of the padding
      rw [if_pos hfits, bind_some, if_pos (by unfold tlsRequestLength; omega)]
    · rw [if_neg hfits]
      rfl

end Message

/-! ### The names -/

/-- The name in the probe for an entry: the backend's for a pattern (`update_domain_info`). -/
def probeSni (info : DomainEntry) : List UInt8 :=
  if info.domain.head? = some 0x2a then info.backendHost.getD info.domain else info.domain

/-- **What the probe needs of a request**: it is a ClientHello of 517 bytes, and the name that
`tls_parse_sni` reads from it, into a buffer of 256 bytes, is the given one. -/
def GoodRequest (request : Option (List UInt8)) (name : List UInt8) : Prop :=
  ∃ h : ClientHello, request = some h.bytes ∧ h.bytes.length = tlsRequestLength ∧
    tlsParseSni h.bytes 256 = some name

theorem mem_of_parseHostPort {spec host : List UInt8} {port : ℤ}
    (h : parseHostPort spec = some (host, port)) {b : UInt8} (hb : b ∈ host) : b ∈ spec := by
  unfold parseHostPort at h
  split_ifs at h with hbracket
  · cases hclose : CString.strchr spec 0x5d with
    | none =>
      rw [hclose] at h
      cases h
    | some e =>
      rw [hclose] at h
      cases h
      exact mem_of_mem_take (mem_of_mem_drop hb)
  · cases hcolon : CString.strrchr spec 0x3a with
    | none =>
      rw [hcolon] at h
      cases h
      exact hb
    | some c =>
      rw [hcolon] at h
      dsimp only at h
      split_ifs at h
      · cases h
        exact mem_of_mem_take hb
      · cases h
        exact hb

theorem mem_of_parseDomain {name : List UInt8} {backend : Option (List UInt8)} {info : DomainEntry}
    (h : parseDomain name backend = .ok info) {b : UInt8} (hb : b ∈ probeSni info) :
    b ∈ name ∨ ∃ s, backend = some s ∧ b ∈ s := by
  unfold parseDomain at h
  cases hback : backend.filter (· ≠ []) with
  | none =>
    rw [hback] at h
    cases hhost : parseHostPort name with
    | none =>
      rw [hhost] at h
      cases h
    | some r =>
      rw [hhost] at h
      cases h
      have hb' : b ∈ r.1 := by simpa [probeSni] using hb
      exact .inl (mem_of_parseHostPort hhost hb')
  | some bspec =>
    have hspec : backend = some bspec := (filter_eq_some_iff.1 hback).1
    rw [hback] at h
    dsimp only at h
    by_cases hunix : bspec.take 5 = unixText ∨ bspec.head? = some 0x2f
    · rw [if_pos hunix] at h
      cases h
      exact .inl (by simpa [probeSni] using hb)
    · rw [if_neg hunix] at h
      cases hhost : parseHostPort bspec with
      | none =>
        rw [hhost] at h
        cases h
      | some r =>
        rw [hhost] at h
        cases h
        unfold probeSni at hb
        split_ifs at hb
        · exact .inr ⟨bspec, hspec, mem_of_parseHostPort hhost hb⟩
        · exact .inl hb

/-- **The request for a registered name.**  For every specification that is accepted and every
choice of random bytes, no assertion fails, the request is a ClientHello of 517 bytes and has the
name, exactly if the name has at most 216 bytes and the draws give a key.  The arguments are C
strings. -/
theorem create_request_good (r : RequestRandom) {name : List UInt8} {backend : Option (List UInt8)}
    {info : DomainEntry} (haccepted : (parseDomain name backend).bind checkDomain = .ok info)
    (hname : 0 ∉ name) (hbackend : ∀ s, backend = some s → 0 ∉ s) (hne : probeSni info ≠ []) :
    GoodRequest (createRequest r (probeSni info)) (probeSni info) ↔
      (probeSni info).length ≤ 216 ∧ (generatePublicKey r.draws).isSome := by
  have hnul : 0 ∉ probeSni info := by
    intro hmem
    cases hparse : parseDomain name backend with
    | error e =>
      rw [hparse] at haccepted
      cases haccepted
    | ok info' =>
      rw [hparse] at haccepted
      obtain ⟨rfl, -⟩ := port_of_checkDomain haccepted
      rcases mem_of_parseDomain hparse hmem with h | ⟨s, hs, h⟩
      · exact hname h
      · exact hbackend s hs h
  generalize probeSni info = domain at hne hnul
  cases hgen : generatePublicKey r.draws with
  | none =>
    rw [createRequest_eq_none r domain hgen]
    constructor
    · rintro ⟨h, hrequest, -⟩
      cases hrequest
    · rintro ⟨-, hsome⟩
      cases hsome
  | some key =>
    rw [createRequest_eq r domain hgen]
    constructor
    · rintro ⟨h, hrequest, -⟩
      refine ⟨?_, rfl⟩
      by_contra hlong
      rw [dif_neg hlong] at hrequest
      cases hrequest
    · rintro ⟨h, -⟩
      rw [dif_pos h]
      exact ⟨_, rfl, length_requestHello r _ domain h, tlsParseSni_requestHello r _ h hne hnul⟩

/-- Some random bytes. -/
def zeroRequestRandom : RequestRandom where
  greases := fun _ => 0
  random := List.replicate 32 0
  sessionId := List.replicate 32 0
  draws := [smallDraw 2]
  random_length := rfl
  sessionId_length := rfl

/-- `a.b`, which is its own backend. -/
theorem create_request_good_short :
    (parseDomain [0x61, 0x2e, 0x62] none).bind checkDomain =
        .ok ⟨[0x61, 0x2e, 0x62], none, none, 443⟩ ∧
      GoodRequest (createRequest zeroRequestRandom [0x61, 0x2e, 0x62]) [0x61, 0x2e, 0x62] := by
  have haccepted : (parseDomain [0x61, 0x2e, 0x62] none).bind checkDomain =
      .ok ⟨[0x61, 0x2e, 0x62], none, none, 443⟩ := by decide +kernel
  exact ⟨haccepted, (create_request_good zeroRequestRandom haccepted (by decide)
    (fun s h => by cases h) (by decide)).2 ⟨by decide, by decide +kernel⟩⟩

/-- A name of 217 bytes: three labels of 63 letters and one of 25. -/
def longName : List UInt8 :=
  List.replicate 63 0x61 ++ [0x2e] ++ List.replicate 63 0x61 ++ [0x2e] ++ List.replicate 63 0x61 ++
    [0x2e] ++ List.replicate 25 0x61

/-- That name is accepted, and an assertion fails. -/
theorem create_request_longName :
    longName.length = 217 ∧
      (parseDomain longName none).bind checkDomain = .ok ⟨longName, none, none, 443⟩ ∧
      probeSni ⟨longName, none, none, 443⟩ = longName ∧
      ∀ r, createRequest r longName = none := by
  refine ⟨rfl, by decide +kernel, by decide +kernel, fun r => ?_⟩
  cases hgen : generatePublicKey r.draws with
  | none => exact createRequest_eq_none r longName hgen
  | some key => rw [createRequest_eq r longName hgen, dif_neg (by decide +kernel)]

end Mtbolt.ExtServer
