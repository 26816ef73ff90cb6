import Mtbolt.Lib.Words

/-!
# Parsing TLS messages

`net-tls-parse.c`: the check of a ServerHello that a backend sends to the start-up probe, and the
two parsers of a ClientHello that decide how it is answered.  A byte that a parser reads is always
one that it has checked to be there.
-/

namespace Mtbolt.Net

open List

/-! ### The parsers -/

/-- `tls_read_length` at `pos`. -/
def tlsReadLength (data : List UInt8) (pos : ℕ) : ℕ := Words.be16 data pos

/-- `memcmp` of the bytes from `pos` on with `str`, as equality. -/
def memEq (data : List UInt8) (pos : ℕ) (str : List UInt8) : Bool :=
  (data.drop pos).take str.length == str

/-- The random bytes of a HelloRetryRequest. -/
def helloRetryRequest : List UInt8 :=
  [0xcf, 0x21, 0xad, 0x74, 0xe5, 0x9a, 0x61, 0x11, 0xbe, 0x1d, 0x8c, 0x02, 0x1e, 0x65, 0xb8, 0x91,
    0xc2, 0xa2, 0x11, 0x16, 0x7a, 0xbb, 0x8c, 0x5e, 0x07, 0x9e, 0x09, 0xe2, 0xc8, 0xa8, 0x33, 0x9c]

/-- `MAX_ENCRYPTED_RECORDS`. -/
def maxEncryptedRecords : ℕ := 8

/-- What `tls_check_server_hello` fills in.  `isReversedExtensionOrder` is `none` as long as it has
not been written. -/
structure HelloReport where
  isReversedExtensionOrder : Option Bool
  encryptedRecordSizes : List ℕ
  encryptedRecordCount : ℕ
  deriving DecidableEq, Repr

/-- The tests in front of the extensions, up to the session id. -/
def checkHelloStart (response requestSessionId : List UInt8) : Except String Unit :=
  let serverHelloLength := tlsReadLength response 3
  if response.length < 3 then .error "Too short"
  else if !memEq response 0 [0x16, 0x03, 0x03] then .error "Non-TLS response or TLS <= 1.1"
  else if response.length < 5 then .error "Too short"
  else if serverHelloLength ≤ 39 then .error "Receive too short ServerHello"
  else if response.length < 5 + serverHelloLength then .error "Too short"
  else if !memEq response 5 [0x02, 0x00] then .error "Non-TLS response 2"
  else if !memEq response 9 [0x03, 0x03] then .error "Non-TLS response 3"
  else if memEq response 11 helloRetryRequest then
    .error "TLS 1.3 servers returning HelloRetryRequest are not supprted"
  else if response.getD 43 0 = 0x00 then .error "TLS <= 1.2: empty session_id"
  else if !memEq response 43 [0x20] then .error "Non-TLS response 4"
  else if serverHelloLength ≤ 75 then .error "Receive too short server hello 2"
  else if !memEq response 44 requestSessionId then
    .error "TLS <= 1.2: expected mirrored session_id"
  else .ok ()

/-- The tests of the cipher and of the length of the extensions. -/
def checkHelloCipher (response : List UInt8) : Except String Unit :=
  if !memEq response 76 [0x13] then .error "TLS <= 1.2: expected a TLS 1.3 cipher"
  else if response.getD 77 0 < 0x01 || 0x03 < response.getD 77 0 || response.getD 78 0 ≠ 0x00 then
    .error "TLS <= 1.2: expected a TLS 1.3 cipher"
  else if tlsReadLength response 79 + 76 ≠ tlsReadLength response 3 then
    .error "Receive wrong extensions length"
  else .ok ()

/-- An extension has the wrong length: supported versions are two bytes, and a key share is one of
X25519 or of X25519MLKEM768. -/
def badExtensionLength (extensionId extensionLength : ℕ) : Bool :=
  if extensionId = 0x2b then extensionLength ≠ 2
  else extensionLength ≠ 36 && extensionLength ≠ 1124

/-- The loop over the extensions, at most `fuel` passes: the position and the sum of the ids when it
ends, and the order. -/
def extensionLoop (response : List UInt8) (serverHelloLength : ℕ) :
    ℕ → ℕ → ℕ → Option Bool → Except String (ℕ × ℕ × Option Bool)
  | 0, pos, sum, reversed => .ok (pos, sum, reversed)
  | fuel + 1, pos, sum, reversed =>
    if pos < 5 + serverHelloLength - 4 then
      let extensionId := tlsReadLength response pos
      let extensionLength := tlsReadLength response (pos + 2)
      if extensionId ≠ 0x33 ∧ extensionId ≠ 0x2b then .error "Receive unexpected extension"
      else if 5 + serverHelloLength < pos + 4 + extensionLength then
        .error "Receive wrong extension length"
      else if badExtensionLength extensionId extensionLength then
        .error "Unexpected extension length"
      else
        extensionLoop response serverHelloLength fuel (pos + 4 + extensionLength)
          (sum + extensionId) (if pos + 2 = 83 then some (extensionId == 0x2b) else reversed)
    else .ok (pos, sum, reversed)

/-- The loop over the encrypted records, at most `fuel` passes: the sizes of the first ones and the
number of all. -/
def recordLoop (response : List UInt8) : ℕ → ℕ → List ℕ → ℕ → List ℕ × ℕ
  | 0, _, sizes, count => (sizes, count)
  | fuel + 1, pos, sizes, count =>
    if pos + 5 ≤ response.length ∧ memEq response pos [0x17, 0x03, 0x03] = true then
      let recLen := tlsReadLength response (pos + 3)
      if recLen = 0 ∨ response.length < pos + 5 + recLen then (sizes, count)
      else
        recordLoop response fuel (pos + 5 + recLen)
          (if count < maxEncryptedRecords then sizes ++ [recLen] else sizes) (count + 1)
    else (sizes, count)

/-- The records behind the ServerHello, which ends at `pos`. -/
def checkRecords (response : List UInt8) (pos : ℕ) (reversed : Option Bool) :
    Except String HelloReport :=
  let pos :=
    if pos + 6 ≤ response.length ∧ memEq response pos [0x14, 0x03, 0x03, 0x00, 0x01, 0x01] = true
    then pos + 6 else pos
  let r := recordLoop response response.length pos [] 0
  if r.2 = 0 then .error "No encrypted application data records"
  else .ok ⟨reversed, r.1, r.2⟩

/-- `tls_check_server_hello`: what it reports, or the message that it logs.  `requestSessionId` are
the 32 bytes that the request had. -/
def tlsCheckServerHello (response requestSessionId : List UInt8) : Except String HelloReport := do
  checkHelloStart response requestSessionId
  checkHelloCipher response
  let serverHelloLength := tlsReadLength response 3
  let r ← extensionLoop response serverHelloLength serverHelloLength 81 0 none
  if r.2.1 ≠ 0x33 + 0x2b then .error "Receive duplicate extensions"
  else if r.1 ≠ 5 + serverHelloLength then .error "Receive wrong extensions list"
  else checkRecords response r.1 r.2.2

/-- The loop over the key shares from `p` to `ksEnd`, at most `fuel` passes: one of them is for
X25519MLKEM768. -/
def keyShareLoop (clientHello : List UInt8) (ksEnd : ℕ) : ℕ → ℕ → Bool
  | 0, _ => false
  | fuel + 1, p =>
    if p + 4 ≤ ksEnd then
      let klen := tlsReadLength clientHello (p + 2)
      if ksEnd - (p + 4) < klen then false
      else if tlsReadLength clientHello p = 0x11ec then true
      else keyShareLoop clientHello ksEnd fuel (p + 4 + klen)
    else false

/-- The loop over the extensions from `pos` to `extEnd`, at most `fuel` passes, which ends at the
first key share extension. -/
def offersMlkemLoop (clientHello : List UInt8) (extEnd : ℕ) : ℕ → ℕ → Bool
  | 0, _ => false
  | fuel + 1, pos =>
    if pos + 4 ≤ extEnd then
      let extSize := tlsReadLength clientHello (pos + 2)
      let pos' := pos + 4
      if extEnd < pos' + extSize then false
      else if tlsReadLength clientHello pos = 0x33 then
        if pos' + extSize < pos' + 2 then false
        else
          let ksEnd := pos' + 2 + tlsReadLength clientHello pos'
          if pos' + extSize < ksEnd then false
          else keyShareLoop clientHello ksEnd clientHello.length (pos' + 2)
      else offersMlkemLoop clientHello extEnd fuel (pos' + extSize)
    else false

/-- The way to the extensions in `tls_client_hello_offers_mlkem`: where they begin and end. -/
def mlkemExtensions (clientHello : List UInt8) : Option (ℕ × ℕ) :=
  let len := clientHello.length
  if len < 44 then none
  else
    let pos := 44 + (clientHello.getD 43 0).toNat
    if len < pos + 2 then none
    else
      let pos := pos + 2 + tlsReadLength clientHello pos
      if len < pos + 1 then none
      else
        let pos := pos + 1 + (clientHello.getD pos 0).toNat
        if len < pos + 2 then none
        else
          let extEnd := pos + 2 + tlsReadLength clientHello pos
          if len < extEnd then none else some (pos + 2, extEnd)

/-- `tls_client_hello_offers_mlkem`. -/
def tlsClientHelloOffersMlkem (clientHello : List UInt8) : Bool :=
  (mlkemExtensions clientHello).any fun p =>
    offersMlkemLoop clientHello p.2 clientHello.length p.1

/-! ### Messages by their parts -/

/-- A number in two bytes, the high one first. -/
def be16Bytes (n : ℕ) : List UInt8 := [UInt8.ofNat (n / 256), UInt8.ofNat n]

/-- An extension. -/
def extension (id : ℕ) (body : List UInt8) : List UInt8 :=
  be16Bytes id ++ (be16Bytes body.length ++ body)

/-- The record of a ChangeCipherSpec. -/
def changeCipherSpecRecord : List UInt8 := [0x14, 0x03, 0x03, 0x00, 0x01, 0x01]

theorem length_le_length_flatMap {α : Type*} {f : α → List UInt8} (hf : ∀ a, f a ≠ [])
    (l : List α) : l.length ≤ (l.flatMap f).length := by
  rw [length_flatMap, ← length_map (f := fun a => (f a).length)]
  refine length_le_sum_of_one_le _ fun n hn => ?_
  obtain ⟨a, -, rfl⟩ := mem_map.1 hn
  exact length_pos_iff.2 (hf a)

section Reads

variable {data rest str : List UInt8} {pos n : ℕ}

theorem tlsReadLength_of_drop (h : data.drop pos = be16Bytes n ++ rest) (hn : n < 65536) :
    tlsReadLength data pos = n := by
  have hget (k : ℕ) : data.getD (pos + k) 0 = (be16Bytes n ++ rest).getD k 0 := by
    rw [← h, getD_eq_getElem?_getD, getD_eq_getElem?_getD, getElem?_drop]
  have hhigh := hget 0
  have hlow := hget 1
  rw [Nat.add_zero] at hhigh
  rw [tlsReadLength, Words.be16, Words.byteAt, Words.byteAt, hhigh, hlow]
  simp only [be16Bytes, cons_append, nil_append, getD_cons_zero, getD_cons_succ, UInt8.toNat_ofNat']
  omega

theorem getD_of_drop {b : UInt8} (h : data.drop pos = b :: rest) : data.getD pos 0 = b := by
  have hget : data[pos]? = (data.drop pos)[0]? := by rw [getElem?_drop, Nat.add_zero]
  rw [getD_eq_getElem?_getD, hget, h]
  rfl

theorem drop_of_drop (h : data.drop pos = str ++ rest) (hlen : str.length = n) :
    data.drop (pos + n) = rest := by
  rw [← drop_drop, h, drop_left' hlen]

theorem drop_next {pos' : ℕ} (h : data.drop pos = str ++ rest) (hpos : pos' = pos + str.length) :
    data.drop pos' = rest := by
  rw [hpos]
  exact drop_of_drop h rfl

end Reads

/-! ### The extensions -/

section Extensions

variable {response rest body : List UInt8} {serverHelloLength pos sum id fuel : ℕ}
  {reversed : Option Bool}

theorem drop_extension (hdrop : response.drop pos = extension id body ++ rest) :
    response.drop (pos + 4 + body.length) = rest := by
  rw [Nat.add_assoc]
  refine drop_of_drop hdrop ?_
  simp [extension, be16Bytes]
  omega

end Extensions

/-! ### The records -/

section Records

variable {response : List UInt8} {pos : ℕ}

variable {records : List (List UInt8)} {fuel n : ℕ} {rest : List UInt8}

end Records

/-! ### The whole check -/

section Check

variable {random sessionId keyShare : List UInt8} {cipher : UInt8} {records : List (List UInt8)}

variable {response : List UInt8} {report : HelloReport}

section

variable (h : tlsCheckServerHello response sessionId = .ok report)
include h

end

end Check

end Mtbolt.Net
