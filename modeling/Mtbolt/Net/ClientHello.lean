import Mtbolt.Net.TlsParse

/-!
# Walking through the extensions of a ClientHello

Three functions look through the extensions of a ClientHello: `tls_parse_sni` for the name of the
server, `tls_client_hello_offers_mlkem` for a key share, and `ja4_parse` for everything.  Each of
them has its own loop.  The loops differ in where they start, in what they take for the end and in
where they stop, but not in how they go from one extension to the next.
-/

namespace Mtbolt.Net

open List Option

/-! ### The name of the server -/

/-- A server name extension whose contents start at `pos`: the name in it. -/
def sniAt (clientHello : List UInt8) (maxDomainLen pos extensionLength : ℕ) : Option (List UInt8) :=
  if clientHello.length < pos + 5 then none
  else if (tlsReadLength clientHello pos : ℤ) ≠ extensionLength - 2 then none
  else if clientHello.getD (pos + 2) 0 ≠ 0 then none
  else
    let domainLength := tlsReadLength clientHello (pos + 3)
    let domain := (clientHello.drop (pos + 5)).take domainLength
    if (domainLength : ℤ) ≠ extensionLength - 5 then none
    else if domain.contains 0 then none
    else if maxDomainLen ≤ domainLength ∨ domainLength = 0 then none
    else some domain

/-- The loop over the extensions from `pos` on, at most `fuel` passes. -/
def sniLoop (clientHello : List UInt8) (maxDomainLen : ℕ) : ℕ → ℕ → Option (List UInt8)
  | 0, _ => none
  | fuel + 1, pos =>
    if clientHello.length < pos + 4 then none
    else
      let extensionLength := tlsReadLength clientHello (pos + 2)
      if clientHello.length < pos + 4 + extensionLength then none
      else if tlsReadLength clientHello pos = 0 then
        sniAt clientHello maxDomainLen (pos + 4) extensionLength
      else sniLoop clientHello maxDomainLen fuel (pos + 4 + extensionLength)

/-- The way to the extensions in `tls_parse_sni`: where they begin. -/
def sniExtensions (clientHello : List UInt8) : Option ℕ :=
  if clientHello.length < 78 then none
  else
    let cipherSuitesLength := tlsReadLength clientHello 76
    if clientHello.length < 78 + (cipherSuitesLength + 4) then none
    else some (78 + (cipherSuitesLength + 4))

/-- `tls_parse_sni`: the name, or `none` for -1. -/
def tlsParseSni (clientHello : List UInt8) (maxDomainLen : ℕ) : Option (List UInt8) :=
  (sniExtensions clientHello).bind (sniLoop clientHello maxDomainLen clientHello.length)

/-! ### The extensions that a loop comes to -/

/-- An extension as a loop comes to it: its id, and where its contents are. -/
structure Visit where
  id : ℕ
  pos : ℕ
  len : ℕ
  deriving DecidableEq, Repr

/-- The bytes of an extension. -/
def Visit.contents (clientHello : List UInt8) (v : Visit) : List UInt8 :=
  (clientHello.drop v.pos).take v.len

/-- The extensions that a loop from `pos` to `bound` comes to, if it ends at the first one with
`stop`; `none` if one of them goes beyond `bound`. -/
def visits (clientHello : List UInt8) (bound : ℕ) (stop : ℕ → Bool) : ℕ → ℕ → Option (List Visit)
  | 0, _ => some []
  | fuel + 1, pos =>
    if pos + 4 ≤ bound then
      let v : Visit := ⟨tlsReadLength clientHello pos, pos + 4, tlsReadLength clientHello (pos + 2)⟩
      if bound < v.pos + v.len then none
      else if stop v.id then some [v]
      else (visits clientHello bound stop fuel (v.pos + v.len)).map (v :: ·)
    else some []

section Visits

variable {clientHello : List UInt8} {bound pos fuel : ℕ} {stop : ℕ → Bool}

/-- The extension at `pos`. -/
def visitAt (clientHello : List UInt8) (pos : ℕ) : Visit :=
  ⟨tlsReadLength clientHello pos, pos + 4, tlsReadLength clientHello (pos + 2)⟩

theorem visits_of_end (h : bound < pos + 4) : visits clientHello bound stop fuel pos = some [] := by
  cases fuel with
  | zero => rfl
  | succ fuel => rw [visits, if_neg (by omega)]

theorem visits_of_long (hend : pos + 4 ≤ bound)
    (h : bound < pos + 4 + tlsReadLength clientHello (pos + 2)) :
    visits clientHello bound stop (fuel + 1) pos = none := by
  rw [visits, if_pos hend]
  exact if_pos h

theorem visits_of_stop (hend : pos + 4 ≤ bound)
    (h : ¬ bound < pos + 4 + tlsReadLength clientHello (pos + 2))
    (hstop : stop (tlsReadLength clientHello pos) = true) :
    visits clientHello bound stop (fuel + 1) pos = some [visitAt clientHello pos] := by
  rw [visits, if_pos hend]
  exact (if_neg h).trans (if_pos hstop)

theorem visits_of_not_stop (hend : pos + 4 ≤ bound)
    (h : ¬ bound < pos + 4 + tlsReadLength clientHello (pos + 2))
    (hstop : stop (tlsReadLength clientHello pos) = false) :
    visits clientHello bound stop (fuel + 1) pos =
      (visits clientHello bound stop fuel (pos + 4 + tlsReadLength clientHello (pos + 2))).map
        (visitAt clientHello pos :: ·) := by
  rw [visits, if_pos hend]
  exact (if_neg h).trans (if_neg (by rw [hstop]; exact Bool.false_ne_true))

end Visits

/-- The contents of a key share extension list X25519MLKEM768. -/
def keySharesAt (clientHello : List UInt8) (v : Visit) : Bool :=
  let ksEnd := v.pos + 2 + tlsReadLength clientHello v.pos
  if v.pos + v.len < v.pos + 2 then false
  else if v.pos + v.len < ksEnd then false
  else keyShareLoop clientHello ksEnd clientHello.length (v.pos + 2)

/-- **`tls_parse_sni` by what it visits**: up to the first server name, which it reads. -/
theorem sniLoop_eq_visits (clientHello : List UInt8) (maxDomainLen fuel pos : ℕ) :
    sniLoop clientHello maxDomainLen fuel pos =
      ((visits clientHello clientHello.length (· == 0) fuel pos).bind
        (·.find? (·.id == 0))).bind fun v => sniAt clientHello maxDomainLen v.pos v.len := by
  induction fuel generalizing pos with
  | zero => rfl
  | succ fuel ih =>
    rw [sniLoop]
    dsimp only
    split_ifs with hend hlong hid
    · rw [visits_of_end hend]
      rfl
    · rw [visits_of_long (by omega) hlong]
      rfl
    · rw [visits_of_stop (by omega) hlong (by simpa using hid)]
      simp [visitAt, hid]
    · rw [ih, visits_of_not_stop (by omega) hlong (by simpa using hid)]
      cases visits clientHello clientHello.length (· == 0) fuel
          (pos + 4 + tlsReadLength clientHello (pos + 2)) with
      | none => rfl
      | some vs => simp [visitAt, hid]

/-- **`tls_client_hello_offers_mlkem` by what it visits**: up to the first key share extension. -/
theorem offersMlkemLoop_eq_visits (clientHello : List UInt8) (extEnd fuel pos : ℕ) :
    offersMlkemLoop clientHello extEnd fuel pos =
      ((visits clientHello extEnd (· == 0x33) fuel pos).bind
        (·.find? (·.id == 0x33))).any (keySharesAt clientHello) := by
  induction fuel generalizing pos with
  | zero => rfl
  | succ fuel ih =>
    rw [offersMlkemLoop]
    by_cases hend : pos + 4 ≤ extEnd
    · rw [if_pos hend]
      by_cases hlong : extEnd < pos + 4 + tlsReadLength clientHello (pos + 2)
      · rw [if_pos hlong, visits_of_long hend hlong]
        rfl
      rw [if_neg hlong]
      by_cases hid : tlsReadLength clientHello pos = 0x33
      · rw [visits_of_stop hend hlong (by simpa using hid)]
        simp only [bind_some, visitAt, hid, beq_self_eq_true, find?_cons_of_pos, any_some]
        rfl
      · rw [if_neg hid, ih, visits_of_not_stop hend hlong (by simpa using hid)]
        cases visits clientHello extEnd (· == 0x33) fuel
            (pos + 4 + tlsReadLength clientHello (pos + 2)) with
        | none => rfl
        | some vs => simp [visitAt, hid]
    · rw [if_neg hend, visits_of_end (by omega)]
      rfl

/-- The extensions that `tls_parse_sni` comes to. -/
def sniVisits (clientHello : List UInt8) : Option (List Visit) :=
  (sniExtensions clientHello).bind
    (visits clientHello clientHello.length (· == 0) clientHello.length)

theorem tlsParseSni_eq_visits (clientHello : List UInt8) (maxDomainLen : ℕ) :
    tlsParseSni clientHello maxDomainLen =
      ((sniVisits clientHello).bind (·.find? (·.id == 0))).bind fun v =>
        sniAt clientHello maxDomainLen v.pos v.len := by
  unfold tlsParseSni sniVisits
  cases sniExtensions clientHello with
  | none => rfl
  | some pos => exact sniLoop_eq_visits clientHello maxDomainLen _ pos

/-- The extensions that `tls_client_hello_offers_mlkem` comes to. -/
def mlkemVisits (clientHello : List UInt8) : Option (List Visit) :=
  (mlkemExtensions clientHello).bind fun p =>
    visits clientHello p.2 (· == 0x33) clientHello.length p.1

theorem tlsClientHelloOffersMlkem_eq_visits (clientHello : List UInt8) :
    tlsClientHelloOffersMlkem clientHello =
      ((mlkemVisits clientHello).bind (·.find? (·.id == 0x33))).any (keySharesAt clientHello) := by
  unfold tlsClientHelloOffersMlkem mlkemVisits
  cases mlkemExtensions clientHello with
  | none => rfl
  | some p => exact offersMlkemLoop_eq_visits clientHello p.2 _ p.1

/-! ### The messages -/

/-- An entry of a server name extension. -/
structure ServerName where
  nameType : UInt8
  name : List UInt8
  deriving DecidableEq, Repr

def ServerName.bytes (n : ServerName) : List UInt8 :=
  [n.nameType] ++ (be16Bytes n.name.length ++ n.name)

/-- An entry of a key share extension. -/
structure KeyShare where
  group : UInt16
  key : List UInt8
  deriving DecidableEq, Repr

def KeyShare.bytes (k : KeyShare) : List UInt8 :=
  be16Bytes k.group.toNat ++ (be16Bytes k.key.length ++ k.key)

/-- An extension.  The contents of those that nothing here depends on are any bytes. -/
inductive HelloExtension
  | serverName (names : List ServerName)
  | keyShare (shares : List KeyShare)
  | other (id : UInt16) (data : List UInt8) (hid : id ≠ 0 ∧ id ≠ 0x33)

def HelloExtension.id : HelloExtension → ℕ
  | .serverName _ => 0
  | .keyShare _ => 0x33
  | .other id _ _ => id.toNat

def HelloExtension.serverNames : HelloExtension → Option (List ServerName)
  | .serverName names => some names
  | _ => none

def HelloExtension.keyShares : HelloExtension → Option (List KeyShare)
  | .keyShare shares => some shares
  | _ => none

def HelloExtension.contents : HelloExtension → List UInt8
  | .serverName names => be16Bytes (names.flatMap ServerName.bytes).length ++
      names.flatMap ServerName.bytes
  | .keyShare shares => be16Bytes (shares.flatMap KeyShare.bytes).length ++
      shares.flatMap KeyShare.bytes
  | .other _ data _ => data

def HelloExtension.bytes (e : HelloExtension) : List UInt8 := extension e.id e.contents

/-- **A ClientHello** in one record, with a session id of 32 bytes and one compression method. -/
structure ClientHello where
  recordVersion : UInt16
  version : UInt16
  random : List UInt8
  sessionId : List UInt8
  cipherSuites : List UInt16
  compressionMethod : UInt8
  extensions : List HelloExtension
  random_length : random.length = 32
  sessionId_length : sessionId.length = 32
  -- the length of the record is written in two bytes
  fits : 77 + 2 * cipherSuites.length + (extensions.flatMap HelloExtension.bytes).length < 65536

namespace ClientHello

/-- The cipher suites. -/
def cipherBytes (h : ClientHello) : List UInt8 := h.cipherSuites.flatMap (be16Bytes ·.toNat)

/-- The extensions. -/
def extensionBytes (h : ClientHello) : List UInt8 := h.extensions.flatMap HelloExtension.bytes

/-- The length of the message behind the header of the handshake. -/
def length (h : ClientHello) : ℕ := 73 + 2 * h.cipherSuites.length + h.extensionBytes.length

/-- The message in its record. -/
def bytes (h : ClientHello) : List UInt8 :=
  [0x16] ++ (be16Bytes h.recordVersion.toNat ++ (be16Bytes (h.length + 4) ++ ([0x01, 0x00] ++
    (be16Bytes h.length ++ (be16Bytes h.version.toNat ++ (h.random ++ ([0x20] ++ (h.sessionId ++
      (be16Bytes (2 * h.cipherSuites.length) ++ (h.cipherBytes ++ ([0x01, h.compressionMethod] ++
        (be16Bytes h.extensionBytes.length ++ h.extensionBytes))))))))))))

/-- The names in the first server name extension. -/
def serverNames (h : ClientHello) : Option (List ServerName) :=
  h.extensions.findSome? HelloExtension.serverNames

/-- The entries of the first key share extension. -/
def keyShares (h : ClientHello) : Option (List KeyShare) :=
  h.extensions.findSome? HelloExtension.keyShares

end ClientHello

/-! ### The loops on a message -/

/-- The elements up to the first one with `stop`. -/
def upTo {α : Type*} (stop : α → Bool) : List α → List α
  | [] => []
  | a :: l => if stop a then [a] else a :: upTo stop l

/-- A loop comes to the extension `e` of the message. -/
structure VisitOf (clientHello : List UInt8) (v : Visit) (e : HelloExtension) : Prop where
  id_eq : v.id = e.id
  len_eq : v.len = e.contents.length
  drop_eq : ∃ rest, clientHello.drop v.pos = e.contents ++ rest

variable {clientHello : List UInt8}

variable {v : Visit}

theorem VisitOf.contents_eq {e : HelloExtension}
    (h : VisitOf clientHello v e) : v.contents clientHello = e.contents := by
  obtain ⟨rest, hrest⟩ := h.drop_eq
  rw [Visit.contents, hrest, h.len_eq, take_left' rfl]

variable (e : HelloExtension)

theorem HelloExtension.id_lt : e.id < 65536 := by
  cases e with
  | serverName names => exact (by decide : 0 < 65536)
  | keyShare shares => exact (by decide : 0x33 < 65536)
  | other id data hid => exact id.toNat_lt

theorem HelloExtension.length_bytes : e.bytes.length = 4 + e.contents.length := by
  simp [HelloExtension.bytes, extension, be16Bytes]
  omega

variable {exts : List HelloExtension}

/-- **A loop over the extensions of a message** comes to them, up to the first where it stops. -/
theorem visits_extensions {rest : List UInt8}
    {bound pos fuel : ℕ} (stop : ℕ → Bool) (hfuel : exts.length ≤ fuel)
    (hdrop : clientHello.drop pos = exts.flatMap HelloExtension.bytes ++ rest)
    (hbound : bound = pos + (exts.flatMap HelloExtension.bytes).length)
    (hlt : (exts.flatMap HelloExtension.bytes).length < 65536) :
    ∃ vs, visits clientHello bound stop fuel pos = some vs ∧
      List.Forall₂ (VisitOf clientHello) vs (upTo (fun e => stop e.id) exts) := by
  induction exts generalizing pos fuel with
  | nil =>
    refine ⟨[], visits_of_end ?_, .nil⟩
    rw [hbound]
    simp
  | cons e exts ih =>
    obtain ⟨fuel, rfl⟩ : ∃ k, fuel = k + 1 := ⟨fuel - 1, by simp at hfuel; omega⟩
    rw [flatMap_cons, length_append, e.length_bytes] at hbound hlt
    rw [flatMap_cons, append_assoc] at hdrop
    have hnext : clientHello.drop (pos + 4 + e.contents.length) =
        exts.flatMap HelloExtension.bytes ++ rest := drop_extension hdrop
    rw [HelloExtension.bytes, extension, append_assoc, append_assoc] at hdrop
    have hid : tlsReadLength clientHello pos = e.id := tlsReadLength_of_drop hdrop e.id_lt
    have hlen : tlsReadLength clientHello (pos + 2) = e.contents.length :=
      tlsReadLength_of_drop (drop_of_drop hdrop rfl) (by omega)
    have hdrop2 : clientHello.drop (pos + 2) = _ := drop_of_drop hdrop rfl
    have hvisit : VisitOf clientHello (visitAt clientHello pos) e :=
      ⟨hid, hlen, _, drop_next hdrop2 rfl⟩
    have hend : pos + 4 ≤ bound := by omega
    have hfits : ¬ bound < pos + 4 + tlsReadLength clientHello (pos + 2) := by
      omega
    cases hstop : stop e.id with
    | true =>
      refine ⟨_, visits_of_stop hend hfits (by rw [hid, hstop]), ?_⟩
      rw [upTo, if_pos hstop]
      exact .cons hvisit .nil
    | false =>
      obtain ⟨vs, hvs, hall⟩ := ih (by simpa using hfuel) hnext (by omega) (by omega)
      refine ⟨visitAt clientHello pos :: vs, ?_, ?_⟩
      · rw [visits_of_not_stop hend hfits (by rw [hid, hstop]), hlen, hvs]
        rfl
      · rw [upTo, if_neg (by rw [hstop]; exact Bool.false_ne_true)]
        exact .cons hvisit hall

theorem HelloExtension.id_eq_zero : (e.id == 0) = e.serverNames.isSome := by
  cases e with
  | serverName names => rfl
  | keyShare shares => rfl
  | other id data hid =>
    have hne : id.toNat ≠ 0 := fun h => hid.1 (UInt16.toNat_inj.1 h)
    exact beq_eq_false_iff_ne.2 hne

theorem HelloExtension.id_eq_keyShare : (e.id == 0x33) = e.keyShares.isSome := by
  cases e with
  | serverName names => rfl
  | keyShare shares => rfl
  | other id data hid =>
    have hne : id.toNat ≠ 0x33 := fun h => hid.2 (UInt16.toNat_inj.1 h)
    exact beq_eq_false_iff_ne.2 hne

theorem findSome?_eq_find?_bind {α β : Type*} {p : α → Bool} {f : α → Option β}
    (h : ∀ a, p a = (f a).isSome) (l : List α) : l.findSome? f = (l.find? p).bind f := by
  induction l with
  | nil => rfl
  | cons a l ih =>
    rw [findSome?_cons, find?_cons, h a]
    cases hf : f a with
    | none => exact ih
    | some b => exact hf.symm

theorem find?_visits {vs : List Visit}
    {k : ℕ} (h : List.Forall₂ (VisitOf clientHello) vs (upTo (fun e => e.id == k) exts)) :
    (vs.find? (·.id == k) = none ∧ exts.find? (·.id == k) = none) ∨
      ∃ v e, vs.find? (·.id == k) = some v ∧ exts.find? (·.id == k) = some e ∧
        VisitOf clientHello v e := by
  induction exts generalizing vs with
  | nil =>
    cases h
    exact .inl ⟨rfl, rfl⟩
  | cons e exts ih =>
    rw [upTo] at h
    by_cases hid : (e.id == k) = true
    · rw [if_pos hid] at h
      obtain ⟨v, vs, hv, -, rfl⟩ := forall₂_cons_right_iff.1 h
      refine .inr ⟨v, e, ?_, ?_, hv⟩
      · rw [find?_cons_of_pos]
        rw [hv.id_eq]
        exact hid
      · rw [find?_cons_of_pos]
        exact hid
    · rw [if_neg hid] at h
      obtain ⟨v, vs, hv, hvs, rfl⟩ := forall₂_cons_right_iff.1 h
      simp only [find?_cons, hv.id_eq, eq_false_of_ne_true hid]
      exact ih hvs

/-! ### The name of the server in a message -/

/-- The name that `tls_parse_sni` finds in a server name extension: it has to be the only entry and
a host name, to be shorter than `maxDomainLen` and not empty, and to have no NUL byte. -/
def hostName (maxDomainLen : ℕ) : List ServerName → Option (List UInt8)
  | [n] =>
    if n.nameType = 0 ∧ n.name ≠ [] ∧ n.name.length < maxDomainLen ∧ ¬ n.name.contains 0
    then some n.name else none
  | _ => none

theorem ServerName.length_bytes (n : ServerName) : n.bytes.length = 3 + n.name.length := by
  simp [ServerName.bytes, be16Bytes]
  omega

section Sni

variable {clientHello rest : List UInt8} {maxDomainLen pos : ℕ}

theorem sniAt_nil : sniAt clientHello maxDomainLen pos 2 = none := by
  unfold sniAt
  have hshort : (tlsReadLength clientHello (pos + 3) : ℤ) ≠ ((2 : ℕ) : ℤ) - 5 := by omega
  rw [if_pos hshort]
  split_ifs <;> rfl

theorem sniAt_cons {n : ServerName} {m : ℕ} (hm : m < 65536 - n.bytes.length)
    (hdrop : clientHello.drop pos = be16Bytes (n.bytes.length + m) ++ (n.bytes ++ rest)) :
    sniAt clientHello maxDomainLen pos (2 + (n.bytes.length + m)) =
      if m = 0 then hostName maxDomainLen [n] else none := by
  have hn := n.length_bytes
  have hroom : pos + 5 + n.name.length ≤ clientHello.length := by
    have hlength := congrArg length hdrop
    simp only [length_drop, length_append, be16Bytes, length_cons, length_nil] at hlength
    omega
  have hinner : tlsReadLength clientHello pos = n.bytes.length + m :=
    tlsReadLength_of_drop hdrop (by omega)
  rw [ServerName.bytes, append_assoc, append_assoc] at hdrop
  have hdrop2 : clientHello.drop (pos + 2) = _ := drop_next hdrop rfl
  have hdrop3 : clientHello.drop (pos + 3) = _ := drop_next hdrop2 rfl
  have hdrop5 : clientHello.drop (pos + 5) = n.name ++ rest := drop_next hdrop3 rfl
  have htype : clientHello.getD (pos + 2) 0 = n.nameType := getD_of_drop hdrop2
  have hlen : tlsReadLength clientHello (pos + 3) = n.name.length :=
    tlsReadLength_of_drop hdrop3 (by omega)
  unfold sniAt
  dsimp only
  rw [hlen, hdrop5, take_left' rfl, if_neg (by omega), if_neg (by omega)]
  by_cases hm0 : m = 0
  · -- the only entry: the tests are those of `hostName`
    have honly : ¬ (n.name.length : ℤ) ≠ ((2 + (n.bytes.length + m) : ℕ) : ℤ) - 5 := by
      omega
    rw [hostName]
    split_ifs <;> first | rfl | grind
  · have hmore : (n.name.length : ℤ) ≠ ((2 + (n.bytes.length + m) : ℕ) : ℤ) - 5 := by
      omega
    rw [if_neg hm0, if_pos hmore]
    exact ite_self none

theorem sniAt_serverName {names : List ServerName}
    (h : VisitOf clientHello v (.serverName names))
    (hlt : (HelloExtension.serverName names).contents.length < 65536) :
    sniAt clientHello maxDomainLen v.pos v.len = hostName maxDomainLen names := by
  obtain ⟨rest, hdrop⟩ := h.drop_eq
  have hlen := h.len_eq
  have hlength : (HelloExtension.serverName names).contents.length =
      2 + (names.flatMap ServerName.bytes).length := by
    simp only [HelloExtension.contents, be16Bytes, length_append, length_cons, length_nil]
  rw [hlength] at hlen hlt
  rw [HelloExtension.contents, append_assoc] at hdrop
  cases names with
  | nil =>
    rw [hlen]
    exact sniAt_nil
  | cons n names =>
    rw [flatMap_cons, length_append] at hlen hlt hdrop
    rw [append_assoc] at hdrop
    rw [hlen, sniAt_cons (by omega) hdrop]
    cases names with
    | nil => rfl
    | cons n' names =>
      rw [if_neg ?_]
      · rfl
      · rw [flatMap_cons, length_append, n'.length_bytes]
        omega

end Sni

/-! ### The key shares in a message -/

theorem KeyShare.length_bytes (k : KeyShare) : k.bytes.length = 4 + k.key.length := by
  simp [KeyShare.bytes, be16Bytes]
  omega

section KeyShares

variable {clientHello rest : List UInt8}

variable {shares : List KeyShare}

theorem keyShareLoop_eq_any {ksEnd p fuel : ℕ}
    (hfuel : shares.length ≤ fuel)
    (hdrop : clientHello.drop p = shares.flatMap KeyShare.bytes ++ rest)
    (hend : ksEnd = p + (shares.flatMap KeyShare.bytes).length)
    (hlt : (shares.flatMap KeyShare.bytes).length < 65536) :
    keyShareLoop clientHello ksEnd fuel p = shares.any (·.group == 0x11ec) := by
  induction shares generalizing p fuel with
  | nil =>
    cases fuel with
    | zero => rfl
    | succ fuel =>
      rw [keyShareLoop, if_neg (by rw [hend]; simp)]
      rfl
  | cons k shares ih =>
    obtain ⟨fuel, rfl⟩ : ∃ n, fuel = n + 1 := ⟨fuel - 1, by simp at hfuel; omega⟩
    rw [flatMap_cons, length_append, k.length_bytes] at hend hlt
    rw [flatMap_cons, KeyShare.bytes, append_assoc, append_assoc, append_assoc] at hdrop
    have hgroup : tlsReadLength clientHello p = k.group.toNat :=
      tlsReadLength_of_drop hdrop k.group.toNat_lt
    have hdrop2 : clientHello.drop (p + 2) = _ := drop_next hdrop rfl
    have hdrop4 : clientHello.drop (p + 4) = _ := drop_next hdrop2 rfl
    have hlen : tlsReadLength clientHello (p + 2) = k.key.length :=
      tlsReadLength_of_drop hdrop2 (by omega)
    have hsame : k.group.toNat = 0x11ec ↔ k.group = 0x11ec := UInt16.toNat_inj (b := 0x11ec)
    rw [keyShareLoop, if_pos (by omega)]
    rw [hlen, hgroup, if_neg (by omega), any_cons]
    by_cases hmlkem : k.group = 0x11ec
    · rw [hmlkem]
      rfl
    · rw [if_neg (mt hsame.1 hmlkem),
        ih (by simpa using hfuel) (drop_next hdrop4 rfl) (by omega) (by omega)]
      simp [hmlkem]

theorem keySharesAt_keyShare
    (h : VisitOf clientHello v (.keyShare shares))
    (hlt : (HelloExtension.keyShare shares).contents.length < 65536) :
    keySharesAt clientHello v = shares.any (·.group == 0x11ec) := by
  obtain ⟨rest, hdrop⟩ := h.drop_eq
  have hlen := h.len_eq
  have hlength : (HelloExtension.keyShare shares).contents.length =
      2 + (shares.flatMap KeyShare.bytes).length := by
    simp only [HelloExtension.contents, be16Bytes, length_append, length_cons, length_nil]
  rw [HelloExtension.contents, append_assoc] at hdrop
  have hks : tlsReadLength clientHello v.pos = (shares.flatMap KeyShare.bytes).length :=
    tlsReadLength_of_drop hdrop (by omega)
  have hdrop2 : clientHello.drop (v.pos + 2) = _ := drop_next hdrop rfl
  have hcount : shares.length ≤ (shares.flatMap KeyShare.bytes).length :=
    length_le_length_flatMap (fun k => by simp [KeyShare.bytes, be16Bytes]) shares
  have hroom := congrArg length hdrop2
  rw [length_drop, length_append] at hroom
  unfold keySharesAt
  rw [hks, if_neg (by omega), if_neg (by omega)]
  exact keyShareLoop_eq_any (by omega) hdrop2 rfl (by omega)

end KeyShares

/-! ### The two functions on a message -/

namespace ClientHello

variable (h : ClientHello)

/-- Where the extensions start. -/
def extPos : ℕ := 82 + 2 * h.cipherSuites.length

theorem length_cipherBytes : h.cipherBytes.length = 2 * h.cipherSuites.length := by
  unfold cipherBytes
  simp [be16Bytes, Nat.mul_comm]

theorem drop_sessionId : h.bytes.drop 43 = [0x20] ++ (h.sessionId ++
    (be16Bytes (2 * h.cipherSuites.length) ++ (h.cipherBytes ++ ([0x01, h.compressionMethod] ++
      (be16Bytes h.extensionBytes.length ++ h.extensionBytes))))) := by
  have hdrop0 : h.bytes.drop 0 = _ := rfl
  have hdrop1 : h.bytes.drop 1 = _ := drop_next hdrop0 rfl
  have hdrop3 : h.bytes.drop 3 = _ := drop_next hdrop1 rfl
  have hdrop5 : h.bytes.drop 5 = _ := drop_next hdrop3 rfl
  have hdrop7 : h.bytes.drop 7 = _ := drop_next hdrop5 rfl
  have hdrop9 : h.bytes.drop 9 = _ := drop_next hdrop7 rfl
  have hdrop11 : h.bytes.drop 11 = _ := drop_next hdrop9 rfl
  exact drop_next hdrop11 (by rw [h.random_length])

theorem drop_cipherLength : h.bytes.drop 76 = be16Bytes (2 * h.cipherSuites.length) ++
    (h.cipherBytes ++ ([0x01, h.compressionMethod] ++
      (be16Bytes h.extensionBytes.length ++ h.extensionBytes))) := by
  have hdrop44 : h.bytes.drop 44 = _ := drop_next h.drop_sessionId rfl
  exact drop_next hdrop44 (by rw [h.sessionId_length])

theorem drop_compression : h.bytes.drop (78 + 2 * h.cipherSuites.length) =
    [0x01, h.compressionMethod] ++ (be16Bytes h.extensionBytes.length ++ h.extensionBytes) := by
  have hdrop78 : h.bytes.drop 78 = _ := drop_next h.drop_cipherLength rfl
  exact drop_next hdrop78 (by rw [length_cipherBytes])

theorem drop_extensionLength : h.bytes.drop (80 + 2 * h.cipherSuites.length) =
    be16Bytes h.extensionBytes.length ++ h.extensionBytes :=
  drop_next h.drop_compression (by simp only [length_cons, length_nil]; omega)

theorem drop_extPos : h.bytes.drop h.extPos = h.extensionBytes :=
  drop_next h.drop_extensionLength (by
    simp only [extPos, be16Bytes, length_cons, length_nil]
    omega)

theorem length_bytes : h.bytes.length = h.extPos + h.extensionBytes.length := by
  simp only [bytes, length_append, be16Bytes, length_cons, length_nil,
    h.random_length, h.sessionId_length, length_cipherBytes, extPos]
  omega

theorem extensionBytes_lt : h.extensionBytes.length < 65536 := by
  have := h.fits
  unfold extensionBytes
  omega

theorem visits_bytes (stop : ℕ → Bool) :
    ∃ vs, visits h.bytes h.bytes.length stop h.bytes.length h.extPos = some vs ∧
      List.Forall₂ (VisitOf h.bytes) vs (upTo (fun e => stop e.id) h.extensions) := by
  have hcount : h.extensions.length ≤ h.extensionBytes.length :=
    length_le_length_flatMap
      (fun e => by simp [HelloExtension.bytes, extension, be16Bytes]) h.extensions
  have hdrop : h.bytes.drop h.extPos = h.extensions.flatMap HelloExtension.bytes ++ [] := by
    rw [append_nil]
    exact h.drop_extPos
  refine visits_extensions stop ?_ hdrop h.length_bytes h.extensionBytes_lt
  rw [length_bytes]
  omega

theorem contents_lt {e : HelloExtension} (he : e ∈ h.extensions) : e.contents.length < 65536 := by
  have hsub : e.bytes.Sublist h.extensionBytes := by
    exact sublist_flatten_of_mem (mem_map_of_mem he)
  have hle := hsub.length_le
  rw [e.length_bytes] at hle
  have := h.extensionBytes_lt
  omega

/-! The lengths that the functions read on the way to the extensions. -/

theorem read_sessionId : 44 + (h.bytes.getD 43 0).toNat = 76 := by
  rw [getD_of_drop h.drop_sessionId]
  rfl

theorem read_cipherSuites : tlsReadLength h.bytes 76 = 2 * h.cipherSuites.length :=
  tlsReadLength_of_drop h.drop_cipherLength (by have := h.fits; omega)

theorem read_compression : (h.bytes.getD (78 + 2 * h.cipherSuites.length) 0).toNat = 1 := by
  rw [getD_of_drop h.drop_compression]
  rfl

theorem read_extensions :
    tlsReadLength h.bytes (80 + 2 * h.cipherSuites.length) = h.extensionBytes.length :=
  tlsReadLength_of_drop h.drop_extensionLength h.extensionBytes_lt

theorem sniVisits_bytes : ∃ vs, sniVisits h.bytes = some vs ∧
    List.Forall₂ (VisitOf h.bytes) vs (upTo (fun e => e.id == 0) h.extensions) := by
  have hlen := h.length_bytes
  have hpos : 78 + (2 * h.cipherSuites.length + 4) = h.extPos := by
    unfold extPos
    omega
  have hstart : sniExtensions h.bytes = some h.extPos := by
    unfold sniExtensions
    dsimp only
    rw [h.read_cipherSuites, hpos, if_neg (by omega), if_neg (by omega)]
  rw [sniVisits, hstart]
  exact h.visits_bytes (· == 0)

theorem extPos_eq : 78 + 2 * h.cipherSuites.length + 1 + 1 = 80 + 2 * h.cipherSuites.length ∧
    80 + 2 * h.cipherSuites.length + 2 = h.extPos := by
  unfold extPos
  omega

theorem mlkemVisits_bytes : ∃ vs, mlkemVisits h.bytes = some vs ∧
    List.Forall₂ (VisitOf h.bytes) vs (upTo (fun e => e.id == 0x33) h.extensions) := by
  have hlen := h.length_bytes
  obtain ⟨hstart, hpos⟩ := h.extPos_eq
  have hexts : mlkemExtensions h.bytes = some (h.extPos, h.bytes.length) := by
    unfold mlkemExtensions
    dsimp only
    rw [h.read_sessionId, h.read_cipherSuites, h.read_compression, hstart, h.read_extensions, hpos,
      ← hlen, if_neg (by omega), if_neg (by omega), if_neg (by omega), if_neg (by omega),
      if_neg (by omega)]
  rw [mlkemVisits, hexts]
  exact h.visits_bytes (· == 0x33)

theorem tlsParseSni_bytes (maxDomainLen : ℕ) :
    tlsParseSni h.bytes maxDomainLen = h.serverNames.bind (hostName maxDomainLen) := by
  obtain ⟨vs, hvs, hall⟩ := h.sniVisits_bytes
  rw [tlsParseSni_eq_visits, hvs, bind_some, serverNames,
    findSome?_eq_find?_bind HelloExtension.id_eq_zero]
  rcases find?_visits hall with ⟨hnone, hext⟩ | ⟨v, e, hv, hext, hvisit⟩
  · rw [hnone, hext]
    rfl
  · rw [hv, hext]
    have hid := find?_some hext
    rw [HelloExtension.id_eq_zero] at hid
    have hlt := h.contents_lt (mem_of_find?_eq_some hext)
    cases e with
    | serverName names => exact sniAt_serverName hvisit hlt
    | keyShare shares => cases hid
    | other id data hne => cases hid

theorem tlsClientHelloOffersMlkem_bytes :
    tlsClientHelloOffersMlkem h.bytes = h.keyShares.any (·.any (·.group == 0x11ec)) := by
  obtain ⟨vs, hvs, hall⟩ := h.mlkemVisits_bytes
  rw [tlsClientHelloOffersMlkem_eq_visits, hvs, bind_some, keyShares,
    findSome?_eq_find?_bind HelloExtension.id_eq_keyShare]
  rcases find?_visits hall with ⟨hnone, hext⟩ | ⟨v, e, hv, hext, hvisit⟩
  · rw [hnone, hext]
    rfl
  · rw [hv, hext]
    have hid := find?_some hext
    rw [HelloExtension.id_eq_keyShare] at hid
    have hlt := h.contents_lt (mem_of_find?_eq_some hext)
    cases e with
    | serverName names => cases hid
    | keyShare shares => exact keySharesAt_keyShare hvisit hlt
    | other id data hne => cases hid

end ClientHello

end Mtbolt.Net
