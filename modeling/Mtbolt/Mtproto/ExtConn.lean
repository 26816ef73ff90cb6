import Mtbolt.Lib.Keyed
import Mtbolt.Lib.Words

/-!
# The table of external connections

In relay mode the proxy keeps an `ext_connection` for each client whose queries it forwards
(`mtproto-proxy.c`).  The entry ties the client, known by its descriptor and generation, to a
connection to a middle-end, and has an identifier of its own, `out_conn_id`, by which the
middle-end names the client.

The source reaches the entries in two ways: by the client's descriptor (`ExtConnectionHead`,
`InExtConnectionHash`), and by the low bits of `out_conn_id` (`OutExtConnections`), where a slot
keeps the last identifier it gave out.  `ExtTable` is the collection of entries, with the facts
that the source asserts about these links as fields.
-/

namespace Mtbolt.Mtproto

open Keyed Words Function List BitVec

/-- How one connection refers to another: descriptor and generation, an `int`. -/
structure ConnId where
  fd : ℕ
  gen : BitVec 32
  deriving DecidableEq, Repr

/-- `struct ext_connection`; `inn` is `in_fd` and `in_gen`, `out` is `out_fd` and `out_gen`. -/
structure ExtConnection where
  inn : ConnId
  out : ConnId
  outConnId : BitVec 64
  authKeyId : BitVec 64
  deriving DecidableEq, Repr

def ExtConnection.inFd (e : ExtConnection) : ℕ := e.inn.fd

/-- `EXT_CONN_TABLE_SIZE`. -/
def extConnTableSize : ℕ := 2 ^ 22

/-- The place of an identifier in `OutExtConnections`. -/
def slotOf (outConnId : BitVec 64) : ℕ := outConnId.toNat % extConnTableSize

def ExtConnection.slot (e : ExtConnection) : ℕ := slotOf e.outConnId

/-- The identifier that a slot gives out after `last`. -/
def nextOutConnId (last : BitVec 64) (h : ℕ) : BitVec 64 :=
  (last ||| BitVec.ofNat 64 (extConnTableSize - 1)) + 1 + BitVec.ofNat 64 h

/-- The entries, newest first, and the last identifier of each slot of `OutExtConnections`.  A
client has one entry at most, and a slot of `OutExtConnections` holds one entry at most, which has
the slot's last identifier. -/
structure ExtTable where
  entries : List ExtConnection
  lastId : ℕ → BitVec 64
  inFds : (entries.map ExtConnection.inFd).Nodup
  slots : (entries.map ExtConnection.slot).Nodup
  ids : ∀ e ∈ entries, lastId e.slot = e.outConnId

/-- The table at the start. -/
def ExtTable.empty : ExtTable where
  entries := []
  lastId := fun _ => 0
  inFds := nodup_nil
  slots := nodup_nil
  ids := by simp

/-! ### Finding -/

/-- `get_ext_connection_by_in_fd`. -/
def getExtConnectionByInFd (t : ExtTable) (inFd : ℕ) : Option ExtConnection :=
  lookup ExtConnection.inFd t.entries inFd

/-- `OutExtConnections[h].ref`. -/
def ExtTable.ref (t : ExtTable) (h : ℕ) : Option ExtConnection :=
  lookup ExtConnection.slot t.entries h

/-- `find_ext_connection_by_out_conn_id`. -/
def findExtConnectionByOutConnId (t : ExtTable) (outConnId : BitVec 64) : Option ExtConnection :=
  match t.ref (slotOf outConnId) with
  | none => none
  | some cur => if t.lastId (slotOf outConnId) ≠ outConnId then none else some cur

variable {t : ExtTable} {inFd : ℕ} {e x : ExtConnection}

theorem getExtConnectionByInFd_eq_some_iff :
    getExtConnectionByInFd t inFd = some e ↔ e ∈ t.entries ∧ e.inn.fd = inFd :=
  lookup_eq_some_iff t.inFds

theorem getExtConnectionByInFd_eq_none_iff :
    getExtConnectionByInFd t inFd = none ↔ ∀ e ∈ t.entries, e.inn.fd ≠ inFd :=
  lookup_eq_none_iff

variable {t' : ExtTable} {authKeyId : BitVec 64} {h : ℕ} {draws : List ℕ}

theorem fresh_of_subset (hsub : t'.entries ⊆ t.entries)
    (h : getExtConnectionByInFd t inFd = none) : getExtConnectionByInFd t' inFd = none := by
  rw [getExtConnectionByInFd_eq_none_iff] at h ⊢
  intro e he
  exact h e (hsub he)

theorem findExtConnectionByOutConnId_eq_some_iff {outConnId : BitVec 64} :
    findExtConnectionByOutConnId t outConnId = some e ↔
      e ∈ t.entries ∧ e.outConnId = outConnId := by
  unfold findExtConnectionByOutConnId
  constructor
  · intro h
    cases href : t.ref (slotOf outConnId) with
    | none => simp [href] at h
    | some cur =>
      simp only [href] at h
      split_ifs at h with hid
      obtain rfl := Option.some.inj h
      obtain ⟨hmem, hslot⟩ := mem_of_lookup href
      exact ⟨hmem, by rw [← t.ids cur hmem, hslot]; exact not_not.1 hid⟩
  · rintro ⟨hmem, rfl⟩
    have href : t.ref e.slot = some e := (lookup_eq_some_iff t.slots).2 ⟨hmem, rfl⟩
    have hid : t.lastId (slotOf e.outConnId) = e.outConnId := t.ids e hmem
    rw [show slotOf e.outConnId = e.slot from rfl, href]
    exact if_neg (not_not.2 hid)

/-! ### Removing and changing -/

/-- The deletion in `remove_ext_connection` (mode 1 of `get_ext_connection_by_in_conn_id`). -/
def removeExtConnection (t : ExtTable) (e : ExtConnection) : ExtTable where
  entries := remove ExtConnection.inFd t.entries e.inFd
  lastId := t.lastId
  inFds := nodup_map_remove t.inFds
  slots := nodup_map_remove t.slots
  ids := fun x hx => t.ids x (remove_sublist.subset hx)

theorem mem_removeExtConnection :
    x ∈ (removeExtConnection t e).entries ↔ x ∈ t.entries ∧ x.inn.fd ≠ e.inn.fd :=
  mem_remove_iff t.inFds

/-- The table without the session of a client, if it has one. -/
def closeSession (t : ExtTable) (inFd : ℕ) : ExtTable :=
  match getExtConnectionByInFd t inFd with
  | none => t
  | some ex => removeExtConnection t ex

theorem mem_closeSession : x ∈ (closeSession t inFd).entries ↔ x ∈ t.entries ∧ x.inn.fd ≠ inFd := by
  unfold closeSession
  cases hget : getExtConnectionByInFd t inFd with
  | none =>
    have hnone := getExtConnectionByInFd_eq_none_iff.1 hget
    exact ⟨fun hx => ⟨hx, hnone x hx⟩, fun h => h.1⟩
  | some ex =>
    obtain ⟨-, rfl⟩ := getExtConnectionByInFd_eq_some_iff.1 hget
    exact mem_removeExtConnection

/-- The loop of `mtfront_client_close`: every entry on the middle-end connection with the
descriptor `outFd` is removed. -/
def removeAllByOutFd (t : ExtTable) (outFd : ℕ) : ExtTable where
  entries := t.entries.filter fun e => e.out.fd ≠ outFd
  lastId := t.lastId
  inFds := t.inFds.sublist (filter_sublist.map _)
  slots := t.slots.sublist (filter_sublist.map _)
  ids := fun x hx => t.ids x (mem_of_mem_filter hx)

theorem mem_of_mem_removeAllByOutFd {outFd : ℕ} (hx : x ∈ (removeAllByOutFd t outFd).entries) :
    x ∈ t.entries :=
  mem_of_mem_filter hx

def ExtConnection.withAuthKeyId (authKeyId : BitVec 64) (e : ExtConnection) : ExtConnection :=
  { e with authKeyId := authKeyId }

/-- `Ex->auth_key_id = auth_key_id`, for the entry of a client. -/
def setAuthKeyId (t : ExtTable) (inFd : ℕ) (authKeyId : BitVec 64) : ExtTable where
  entries := modify ExtConnection.inFd (.withAuthKeyId authKeyId) t.entries inFd
  lastId := t.lastId
  inFds := nodup_map_modify (fun _ => rfl) t.inFds
  slots := nodup_map_modify (fun _ => rfl) t.slots
  ids := by
    intro x hx
    obtain ⟨e, he, rfl⟩ := mem_modify_iff.1 hx
    split_ifs <;> exact t.ids e he

/-! ### Creating -/

theorem slotOf_nextOutConnId (last : BitVec 64) (hh : h < extConnTableSize) :
    slotOf (nextOutConnId last h) = h := by
  have hmask : (last ||| BitVec.ofNat 64 (2 ^ 22 - 1)).toNat % 2 ^ 22 = 2 ^ 22 - 1 := by
    exact or_low_mod last.toNat 22
  have hone : (1 : BitVec 64).toNat = 1 := rfl
  unfold extConnTableSize at hh
  simp only [slotOf, nextOutConnId, extConnTableSize, toNat_add, toNat_ofNat, hone]
  omega

/-- The table with one more entry, in a free slot. -/
def ExtTable.insert (t : ExtTable) (e : ExtConnection) (hfd : ∀ x ∈ t.entries, x.inFd ≠ e.inFd)
    (hslot : ∀ x ∈ t.entries, x.slot ≠ e.slot) : ExtTable where
  entries := e :: t.entries
  lastId := update t.lastId e.slot e.outConnId
  inFds := by
    rw [map_cons, nodup_cons, mem_map]
    exact ⟨fun ⟨x, hx, h⟩ => hfd x hx h, t.inFds⟩
  slots := by
    rw [map_cons, nodup_cons, mem_map]
    exact ⟨fun ⟨x, hx, h⟩ => hslot x hx h, t.slots⟩
  ids := by
    intro x hx
    rcases mem_cons.1 hx with rfl | hx
    · exact update_self ..
    · rw [update_of_ne (hslot x hx)]
      exact t.ids x hx

/-- The search for a free slot: the client's descriptor, then the numbers drawn. -/
def freeSlot (t : ExtTable) (inFd : ℕ) (draws : List ℕ) : Option ℕ :=
  ((inFd :: draws).map (· % extConnTableSize)).find? fun h => (t.ref h).isNone

theorem freeSlot_spec (hfree : freeSlot t inFd draws = some h) :
    h < extConnTableSize ∧ ∀ x ∈ t.entries, x.slot ≠ h := by
  obtain ⟨n, -, rfl⟩ := mem_map.1 (mem_of_find?_eq_some hfree)
  refine ⟨Nat.mod_lt _ (by decide), lookup_eq_none_iff.1 ?_⟩
  simpa [ExtTable.ref] using List.find?_some hfree

/-- `create_ext_connection`: the new entry and the table with it.  `none` when the client has an
entry or the table is half full, which the source asserts not to happen, or when the numbers drawn
do not reach a free slot. -/
def createExtConnection (t : ExtTable) (ci co : ConnId) (authKeyId : BitVec 64)
    (draws : List ℕ) : Option (ExtConnection × ExtTable) :=
  if hfd : getExtConnectionByInFd t ci.fd = none ∧ t.entries.length < extConnTableSize / 2 then
    match hfree : freeSlot t ci.fd draws with
    | none => none
    | some h =>
      let e : ExtConnection := ⟨ci, co, nextOutConnId (t.lastId h) h, authKeyId⟩
      have hslot : e.slot = h := slotOf_nextOutConnId _ (freeSlot_spec hfree).1
      some (e, t.insert e (getExtConnectionByInFd_eq_none_iff.1 hfd.1)
        (fun x hx => hslot ▸ (freeSlot_spec hfree).2 x hx))
  else none

theorem createExtConnection_spec {ci co : ConnId}
    (h : createExtConnection t ci co authKeyId draws = some (e, t')) :
    e.inn = ci ∧ e.out = co ∧ getExtConnectionByInFd t ci.fd = none ∧
      t'.entries = e :: t.entries := by
  unfold createExtConnection at h
  split_ifs at h with hfd
  split at h
  · cases h
  · cases h
    exact ⟨rfl, rfl, hfd.1, rfl⟩

end Mtbolt.Mtproto
