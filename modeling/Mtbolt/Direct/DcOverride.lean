import Mtbolt.Direct.DcTable

/-!
# Overrides of data centres

`direct_dc_override` puts an address under the id it is given.  The entry of a new id is made before
the host is read, so that a call that fails on its host leaves an entry without an address behind,
and lookups of the id find it in place of the built-in one.  Lookups strip the offset of test data
centres before they search the overrides: an override is found under four ids.
-/

namespace Mtbolt.Direct.DcTable

open Option List

/-- `direct_dc_override` returns 0. -/
def directDcOverrideOk (r : InetHost) (ov : List DcEntry) (dcId : ℤ) (host : String) (port : ℤ) :
    Bool :=
  match findEntry ov dcId with
  | some i =>
    (ov[i]?).any (fun e => e.addrs.length < dcMaxAddrs) && (overrideAddr r host port).isSome
  | none => ov.length < maxOverrides && (overrideAddr r host port).isSome

/-- The contents of the entry that `direct_dc_lookup` returns. -/
def lookupEntry (ov : List DcEntry) (id : ℤ) : Option DcEntry :=
  (directDcLookup ov id).bind (DcRef.entry ov)

/-- The call makes an entry that lookups find and then fails on its host. -/
def LeavesEntry (r : InetHost) (ov : List DcEntry) (d : ℤ) (host : String) (port : ℤ) : Prop :=
  0 ≤ d ∧ findEntry ov d = none ∧ ov.length < maxOverrides ∧ overrideAddr r host port = none

/-- The override of an id. -/
def overrideOf (ov : List DcEntry) (d : ℤ) : Option DcEntry := ov.find? fun e => e.dcId = d

variable {r : InetHost} {ov : List DcEntry} {d k id : ℤ} {host : String} {port : ℤ} {i : ℕ}
  {e : DcEntry} {f : DcEntry → DcEntry}

theorem overrideOf_eq (ov : List DcEntry) (d : ℤ) :
    overrideOf ov d = (findEntry ov d).bind fun i => ov[i]? :=
  find?_eq_bind_findIdx?_getElem?

theorem overrideOf_eq_none : overrideOf ov d = none ↔ findEntry ov d = none := by
  simp [overrideOf, findEntry]

theorem lookupEntry_eq (ov : List DcEntry) (id : ℤ) :
    lookupEntry ov id = (overrideOf ov (stripTest id)).or (lookupEntry [] id) := by
  have hnone : findEntry [] (stripTest id) = none := rfl
  cases hfind : findEntry ov (stripTest id) with
  | none =>
    rw [overrideOf_eq_none.2 hfind, lookupEntry, lookupEntry, directDcLookup, directDcLookup, hfind]
    split_ifs
    · cases findEntry testTable (stripCdn (stripTest id)) <;> rfl
    · cases findEntry prodTable (stripCdn (stripTest id)) <;> rfl
  | some i =>
    obtain ⟨hlt, -⟩ := findIdx?_eq_some_iff_getElem.1 hfind
    rw [lookupEntry, directDcLookup, overrideOf_eq, hfind]
    simp [DcRef.entry, hlt]

theorem overrideOf_modify (hf : ∀ e, (f e).dcId = e.dcId) (h : findEntry ov d = some i) :
    overrideOf (ov.modify i f) k = if k = d then (overrideOf ov d).map f else overrideOf ov k := by
  induction ov generalizing i with
  | nil => cases h
  | cons e ov ih =>
    rw [findEntry, findIdx?_cons] at h
    by_cases hd : e.dcId = d
    · simp only [hd, decide_true, if_true, Option.some.injEq] at h
      subst h
      by_cases hk : k = d
      · simp [overrideOf, hf, hd, hk]
      · simp [overrideOf, hf, hd, hk, Ne.symm hk]
    · simp only [hd, decide_false, Bool.false_eq_true, if_false] at h
      obtain ⟨j, hj, rfl⟩ := map_eq_some_iff.1 h
      have hrest := ih hj
      by_cases he : e.dcId = k
      · have hk : k ≠ d := fun hk => hd (he.trans hk)
        simp [overrideOf, modify_succ_cons, he, hk]
      · simp only [overrideOf, modify_succ_cons, find?_cons, he, hd, decide_false] at hrest ⊢
        exact hrest

theorem overrideOf_directDcOverride :
    overrideOf (directDcOverride r ov d host port) k =
      if k = d ∧ (directDcOverrideOk r ov d host port = true ∨
          findEntry ov d = none ∧ ov.length < maxOverrides) then
        some ⟨d, ((overrideOf ov d).elim [] DcEntry.addrs) ++ (overrideAddr r host port).toList⟩
      else overrideOf ov k := by
  unfold directDcOverride directDcOverrideOk addAddr
  cases hfind : findEntry ov d with
  | some j =>
    obtain ⟨hlt, hid, -⟩ := findIdx?_eq_some_iff_getElem.1 hfind
    have he : overrideOf ov d = some ov[j] := by
      rw [overrideOf_eq, hfind]
      exact getElem?_eq_getElem hlt
    have hid : ov[j].dcId = d := by simpa using hid
    rw [overrideOf_modify (fun e => by split_ifs <;> rfl) hfind, he]
    simp only [getElem?_eq_getElem hlt]
    by_cases hk : k = d
    · subst hk
      cases haddr : overrideAddr r host port with
      | none => simp [he]
      | some a =>
        by_cases hfull : ov[j].addrs.length < dcMaxAddrs
        · simp [hfull, Nat.not_le.2 hfull, ← hid]
        · simp [hfull, Nat.not_lt.1 hfull, he]
    · simp [hk]
  | none =>
    by_cases hroom : ov.length < maxOverrides
    · have hnone : overrideOf ov d = none := overrideOf_eq_none.2 hfind
      have hnew : findEntry (ov ++ [⟨d, []⟩]) d = some ov.length := by
        rw [findEntry, findIdx?_append, show findIdx? _ ov = none from hfind]
        simp
      rw [if_neg (Nat.not_le.2 hroom), overrideOf_modify (fun e => by split_ifs <;> rfl) hnew]
      by_cases hk : k = d
      · simp [hk, overrideOf, hroom, show find? _ ov = none from hnone, dcMaxAddrs]
      · simp [hk, overrideOf, Ne.symm hk]
    · simp [hroom, Nat.not_lt.1 hroom]

theorem stripTest_add (hd : 0 ≤ d) : stripTest (d + 10000) = d := by
  have habs : |d + 10000| = d + 10000 := abs_of_nonneg (by omega)
  rw [stripTest]
  omega

theorem id_of_stripTest (h : stripTest id = d) : |id| = d ∨ |id| = d + 10000 := by
  unfold stripTest at h
  split_ifs at h <;> omega

theorem addrs_ne_nil_of_builtin (h : lookupEntry [] id = some e) : e.addrs ≠ [] := by
  obtain ⟨p, hp, he⟩ := bind_eq_some_iff.1 h
  have hall : ∀ e ∈ testTable ++ prodTable, e.addrs ≠ [] := by decide
  refine hall e ?_
  cases p with
  | override i => cases he
  | test i => exact mem_append_left _ (mem_of_getElem? he)
  | prod i => exact mem_append_right _ (mem_of_getElem? he)

theorem directDcOverrideOk_addr (h : directDcOverrideOk r ov d host port = true) :
    ∃ a, overrideAddr r host port = some a := by
  rw [← isSome_iff_exists]
  unfold directDcOverrideOk at h
  split at h <;> exact (Bool.and_eq_true_iff.1 h).2

theorem overrideTable_concat (r : InetHost) (calls : List (ℤ × String × ℤ)) (c : ℤ × String × ℤ) :
    overrideTable r (calls ++ [c]) = directDcOverride r (overrideTable r calls) c.1 c.2.1 c.2.2 := by
  simp [overrideTable]

theorem addrs_ne_nil_of_calls {calls : List (ℤ × String × ℤ)}
    (h : ∀ pre c, pre ++ [c] <+: calls → ¬ LeavesEntry r (overrideTable r pre) c.1 c.2.1 c.2.2)
    (hk : 0 ≤ k) (he : overrideOf (overrideTable r calls) k = some e) : e.addrs ≠ [] := by
  induction calls using reverseRecOn generalizing e with
  | nil => cases he
  | append_singleton calls c ih =>
    rw [overrideTable_concat, overrideOf_directDcOverride] at he
    split_ifs at he with hcall
    · obtain rfl := some.inj he
      obtain ⟨rfl, hok | ⟨hfind, hroom⟩⟩ := hcall
      · obtain ⟨a, ha⟩ := directDcOverrideOk_addr hok
        simp [ha]
      · cases haddr : overrideAddr r c.2.1 c.2.2 with
        | none => exact absurd ⟨hk, hfind, hroom, haddr⟩ (h calls c (prefix_refl _))
        | some a => simp
    · exact ih (fun pre c' hpre => h pre c' (hpre.trans (prefix_append _ _))) he

/-- **The calls of `direct_dc_override`**, after any calls.  One that fails leaves every lookup as it
is, except one that makes an entry and then fails on its host.  One that succeeds adds its address
to the override of its id, which is what the id, the id of the test data centre and their negatives
then lead to; no other lookup changes.  What a lookup returns has an address, if no call has left an
entry without one. -/
theorem dc_override_calls (r : InetHost) (calls : List (ℤ × String × ℤ)) (d : ℤ) (host : String)
    (port : ℤ) :
    (directDcOverrideOk r (overrideTable r calls) d host port = false →
      ((∀ id, lookupEntry (overrideTable r (calls ++ [(d, host, port)])) id =
          lookupEntry (overrideTable r calls) id) ↔
        ¬ LeavesEntry r (overrideTable r calls) d host port)) ∧
    (directDcOverrideOk r (overrideTable r calls) d host port = true →
      ∃ a, overrideAddr r host port = some a ∧ ∀ id,
        lookupEntry (overrideTable r (calls ++ [(d, host, port)])) id =
          if stripTest id = d then
            some ⟨d, ((overrideOf (overrideTable r calls) d).elim [] DcEntry.addrs) ++ [a]⟩
          else lookupEntry (overrideTable r calls) id) ∧
    (∀ id, stripTest id = d → |id| = d ∨ |id| = d + 10000) ∧
    ((∀ pre c, pre ++ [c] <+: calls → ¬ LeavesEntry r (overrideTable r pre) c.1 c.2.1 c.2.2) →
      ∀ id e, lookupEntry (overrideTable r calls) id = some e → e.addrs ≠ []) := by
  refine ⟨fun hfail => ⟨fun hsame hleaves => ?_, fun hleaves id => ?_⟩, fun hok => ?_,
    fun id => id_of_stripTest, fun hcalls id e he => ?_⟩
  · -- the id of the test data centre has no address any more
    obtain ⟨hd, hfind, hroom, haddr⟩ := hleaves
    have hnew := hsame (d + 10000)
    rw [lookupEntry_eq, lookupEntry_eq (overrideTable r calls), stripTest_add hd,
      overrideTable_concat, overrideOf_directDcOverride, if_pos ⟨rfl, .inr ⟨hfind, hroom⟩⟩,
      overrideOf_eq_none.2 hfind, haddr] at hnew
    exact addrs_ne_nil_of_builtin hnew.symm rfl
  · rw [lookupEntry_eq, lookupEntry_eq (overrideTable r calls), overrideTable_concat,
      overrideOf_directDcOverride]
    split_ifs with hcall
    · obtain ⟨hk, hok | ⟨hfind, hroom⟩⟩ := hcall
      · rw [hfail] at hok
        cases hok
      · have hd : 0 ≤ d := (stripTest_nonneg id).trans_eq hk
        refine absurd ⟨hd, hfind, hroom, ?_⟩ hleaves
        simpa [directDcOverrideOk, hfind, hroom] using hfail
    · rfl
  · obtain ⟨a, ha⟩ := directDcOverrideOk_addr hok
    refine ⟨a, ha, fun id => ?_⟩
    rw [lookupEntry_eq, overrideTable_concat, overrideOf_directDcOverride, ha, hok]
    by_cases hid : stripTest id = d
    · rw [if_pos ⟨hid, .inl rfl⟩, if_pos hid]
      rfl
    · rw [if_neg fun h => hid h.1, if_neg hid, ← lookupEntry_eq]
  · rw [lookupEntry_eq] at he
    cases hov : overrideOf (overrideTable r calls) (stripTest id) with
    | none =>
      rw [hov] at he
      exact addrs_ne_nil_of_builtin he
    | some e' =>
      rw [hov] at he
      obtain rfl := some.inj he
      exact addrs_ne_nil_of_calls hcalls (stripTest_nonneg id) hov

/-- A call with a host that is no address fails, and data centre 2 has no address any more; one that
succeeds for data centre 2 changes what the id of the test data centre leads to. -/
theorem dc_override_calls_leftEntry :
    ∃ r : InetHost,
      (directDcOverrideOk r [] 2 "dc2.example" 443 = false ∧
        lookupEntry (overrideTable r [(2, "dc2.example", 443)]) 2 = some ⟨2, []⟩) ∧
      (directDcOverrideOk r [] 2 "10.0.0.2" 443 = true ∧
        lookupEntry (overrideTable r [(2, "10.0.0.2", 443)]) 10002 ≠ lookupEntry [] 10002) :=
  ⟨⟨fun _ => none, fun host => if host = "10.0.0.2" then #v[10, 0, 0, 2] else inaddrNone⟩,
    by decide +kernel⟩

end Mtbolt.Direct.DcTable
