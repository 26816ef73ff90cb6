import Mtbolt.Lib.Indexed
import Mtbolt.Mtproto.ExtHeap

/-!
# The invariant of the external connections

What holds of the structures of `ExtHeap.lean` between two calls, in four parts: the lists, the two
tables, the connections that are ready, and the identifiers that were issued.
-/

namespace Mtbolt.Mtproto.ExtHeap

open Links Links.Rings Indexed Function List Option BitVec

/-- The lists of the descriptors; `none` for a head that is not set up. -/
abbrev Lists := ListSide → ℕ → Option (List ℕ)

/-- **The lists**: an entry is on the list of its descriptor, unless this is 0, and on no other; an
input list has one entry at most; the entries of `ConnLRU` are allocated. -/
structure ListsOk (st : ExtHeap) (lists : Lists) (lru : List ℕ) : Prop where
  rings : ∀ side, Rings (st.links side) (lists side)
  lruRing : Rings st.connLru fun _ => some lru
  cell_of_on : ∀ side fd a, On (lists side) fd a → ∃ x, st.cell a = some x ∧ x.fd side = fd
  on_of_cell : ∀ side a x, st.cell a = some x → x.fd side ≠ 0 → On (lists side) (x.fd side) a
  short : ∀ fd, ((lists .inn fd).getD []).length ≤ 1
  cell_of_lru : ∀ a ∈ lru, ∃ x, st.cell a = some x
  range : ∀ side a x, st.cell a = some x → x.fd side ≠ 0 → x.fd side < st.size

/-- **The tables**: an entry is in the chain of its key and in the slot of its identifier, keys and
identifiers are different, and the entries are counted. -/
structure TablesOk (st : ExtHeap) : Prop where
  chain : ∀ h a, a ∈ st.inHash h ↔ ∃ x, st.cell a = some x ∧ extConnHash x.inn.fd x.inConnId = h
  nodup : ∀ h, (st.inHash h).Nodup
  keys : ∀ a b x y, st.cell a = some x → st.cell b = some y → x.inn.fd = y.inn.fd →
    x.inConnId = y.inConnId → a = b
  refs : ∀ s a, st.ref s = some a ↔ ∃ x, st.cell a = some x ∧ slotOf x.outConnId = s
  ids : ∀ a x, st.cell a = some x → st.lastId (slotOf x.outConnId) = x.outConnId
  nonzero : ∀ a x, st.cell a = some x → x.outConnId ≠ 0
  count : ∃ live : Finset ℕ, (∀ a, a ∈ live ↔ (st.cell a).isSome) ∧ st.extConnections = live.card

/-- The `extra_int` of a connection with a list: the tag of a middle-end, minus the tag of a
proxy. -/
def tagOf : ListSide → ConnId → ℤ
  | .inn, c => -getConnTag c
  | .out, c => getConnTag c

/-- **The connections that are ready**: a descriptor has one of them at most on each side, and then a
list; an output list is there only for a middle-end that is ready. -/
structure ReadyOk (st : ExtHeap) (lists : Lists) : Prop where
  tag : ∀ c, st.extraInt c = 0 ∨ ∃ side, st.extraInt c = tagOf side c
  list : ∀ side c, st.extraInt c = tagOf side c → (lists side c.fd).isSome
  unique : ∀ side c c', st.extraInt c = tagOf side c → st.extraInt c' = tagOf side c' →
    c.fd = c'.fd → c = c'
  out : ∀ fd, (lists .out fd).isSome → ∃ c, c.fd = fd ∧ st.extraInt c = tagOf .out c

/-- How often a slot was used when it gave out this identifier. -/
def useOf (id : BitVec 64) : ℕ := id.toNat / extConnTableSize

/-- **The identifiers issued**: all different; the uses of a slot are counted by its identifiers. -/
structure IssuedOk (st : ExtHeap) (issued : List (BitVec 64)) : Prop where
  nodup : issued.Nodup
  uses : ∀ s, useOf (st.lastId s) = issued.countP (slotOf · = s)
  le : ∀ id ∈ issued, useOf id ≤ useOf (st.lastId (slotOf id))
  issued : ∀ a x, st.cell a = some x → x.outConnId ∈ issued

/-- The invariant. -/
structure Inv (st : ExtHeap) (lists : Lists) (lru : List ℕ) (issued : List (BitVec 64)) : Prop where
  listsOk : ListsOk st lists lru
  tablesOk : TablesOk st
  readyOk : ReadyOk st lists
  issuedOk : IssuedOk st issued

theorem getConnTag_pos (c : ConnId) : 0 < getConnTag c := by
  unfold getConnTag
  omega

theorem tagOf_ne_zero (side : ListSide) (c : ConnId) : tagOf side c ≠ 0 := by
  have hpos := getConnTag_pos c
  cases side <;> simp only [tagOf] <;> omega

variable {side : ListSide} {p : Prop} {α β : Type} {lists' : Lists} {co : ConnId}

theorem tagOf_side {side' : ListSide} {c : ConnId} (h : tagOf side c = tagOf side' c) :
    side = side' := by
  have hpos := getConnTag_pos c
  cases side <;> cases side' <;> simp only [tagOf] at h
  · rfl
  · omega
  · omega
  · rfl

/-! ### Assertions and pointers -/

@[simp] theorem check_pos [Decidable p] (h : p) (a : Abort) : check p a = .ok () := if_pos h

@[simp] theorem deref_some (x : α) : deref (some x) = .ok x := rfl

theorem ok_bind (x : α) (f : α → Except Abort β) : ((.ok x : Except Abort α) >>= f) = f x := rfl

theorem check_bind [Decidable p] (h : p) (a : Abort) (f : Unit → Except Abort β) :
    (check p a >>= f) = f () := by
  rw [check_pos h, ok_bind]

/-! ### Lookups -/

variable {st st' : ExtHeap} {lists : Lists} {lru : List ℕ} {issued : List (BitVec 64)}
  {fd a b s : ℕ} {ls : ℕ → Option (List ℕ)} {x y : ExtFields} {inConnId : BitVec 64}
  {draws : List ℕ} {ci : ConnId}

theorem TablesOk.indexes_inHash (ht : TablesOk st) :
    Indexes st.cell (fun x => extConnHash x.inn.fd x.inConnId) fun h a => a ∈ st.inHash h :=
  ht.chain

theorem TablesOk.indexes_ref (ht : TablesOk st) :
    Indexes st.cell (fun x => slotOf x.outConnId) fun s a => st.ref s = some a :=
  ht.refs

theorem ListsOk.not_on (hl : ListsOk st lists lru) (ha : st.cell a = none) (side : ListSide)
    (fd : ℕ) : ¬ On (lists side) fd a := by
  intro hon
  obtain ⟨x, hx, -⟩ := hl.cell_of_on side fd a hon
  exact ne_of_empty ha hx rfl

theorem getByInFd_ok (hl : ListsOk st lists lru) (hfd : fd < st.size) :
    ∃ r, st.getByInFd fd = .ok r ∧ ∀ a, r = some a ↔ On (lists .inn) fd a := by
  have hr := hl.rings .inn
  have hshort := hl.short fd
  unfold getByInFd
  rw [check_pos hfd, ok_bind]
  cases hlist : lists .inn fd with
  | none =>
    refine ⟨none, ?_, fun a => ?_⟩
    · rw [(hr.unset fd hlist).1, (hr.unset fd hlist).2, check_pos rfl, ok_bind]
    · simp [On, hlist]
  | some l =>
    rw [hlist] at hshort
    cases l with
    | nil =>
      refine ⟨none, ?_, fun a => ?_⟩
      · rw [(hr.link_nil hlist).1, (hr.link_nil hlist).2, check_pos rfl]
        exact if_pos rfl
      · simp [On, hlist]
    | cons a l =>
      obtain rfl : l = [] := length_eq_zero_iff.1 (by simpa using hshort)
      obtain ⟨x, hx, hfd'⟩ := hl.cell_of_on .inn fd a (by simp [On, hlist])
      refine ⟨some a, ?_, fun b => ?_⟩
      · rw [(hr.link_head hlist).1, (hr.link_last hlist).2, check_pos rfl, ok_bind]
        dsimp only
        rw [hx, deref_some, ok_bind, check_pos (show x.inn.fd = fd from hfd'), ok_bind]
      · simp [On, hlist, eq_comm]

theorem searchChain_eq (ht : TablesOk st) (fd : ℕ) (inConnId : BitVec 64) {chain : List ℕ}
    (hchain : ∀ a ∈ chain, ∃ x, st.cell a = some x) :
    st.searchChain fd inConnId chain = .ok (chain.find? fun a =>
      (st.cell a).any fun x => x.inn.fd = fd ∧ x.inConnId = inConnId) := by
  induction chain with
  | nil => rfl
  | cons a chain ih =>
    obtain ⟨x, hx⟩ := hchain a mem_cons_self
    rw [searchChain, hx, deref_some, ok_bind, find?_cons, hx, any_some]
    by_cases hkey : x.inn.fd = fd ∧ x.inConnId = inConnId
    · rw [if_pos hkey, check_pos (ht.nonzero a x hx), ok_bind, decide_eq_true hkey]
    · rw [if_neg hkey, decide_eq_false hkey]
      exact ih fun b hb => hchain b (mem_cons_of_mem a hb)

theorem search_ok (ht : TablesOk st) (fd : ℕ) (inConnId : BitVec 64) :
    ∃ r, st.searchChain fd inConnId (st.inHash (extConnHash fd inConnId)) = .ok r ∧
      ∀ a, r = some a ↔ ∃ x, st.cell a = some x ∧ x.inn.fd = fd ∧ x.inConnId = inConnId := by
  refine ⟨_, searchChain_eq ht fd inConnId fun a ha => ?_, fun a => ⟨fun hfind => ?_, ?_⟩⟩
  · obtain ⟨x, hx, -⟩ := (ht.chain _ a).1 ha
    exact ⟨x, hx⟩
  · obtain ⟨x, hx, -⟩ := (ht.chain _ a).1 (mem_of_find?_eq_some hfind)
    have hkey := find?_some hfind
    rw [hx] at hkey
    exact ⟨x, hx, of_decide_eq_true hkey⟩
  · rintro ⟨x, hx, rfl, rfl⟩
    have hmem := (ht.chain _ a).2 ⟨x, hx, rfl⟩
    cases hfind : (st.inHash (extConnHash x.inn.fd x.inConnId)).find? fun b =>
        (st.cell b).any fun y => y.inn.fd = x.inn.fd ∧ y.inConnId = x.inConnId with
    | none =>
      have hno := find?_eq_none.1 hfind a hmem
      simp [hx] at hno
    | some b =>
      obtain ⟨y, hy, -⟩ := (ht.chain _ b).1 (mem_of_find?_eq_some hfind)
      have hkey := find?_some hfind
      rw [hy] at hkey
      obtain ⟨hfd, hid⟩ := of_decide_eq_true hkey
      rw [ht.keys b a y x hy hx hfd hid]

theorem findByOutConnId_ok (ht : TablesOk st) (id : BitVec 64) :
    ∃ r, st.findByOutConnId id = .ok r ∧
      ∀ a, r = some a ↔ ∃ x, st.cell a = some x ∧ x.outConnId = id := by
  unfold findByOutConnId
  cases href : st.ref (slotOf id) with
  | none =>
    refine ⟨none, rfl, fun a => ⟨nofun, ?_⟩⟩
    rintro ⟨x, hx, rfl⟩
    rw [(ht.refs _ a).2 ⟨x, hx, rfl⟩] at href
    cases href
  | some cur =>
    obtain ⟨x, hx, hslot⟩ := (ht.refs _ cur).1 href
    have hlast := ht.ids cur x hx
    rw [hslot] at hlast
    dsimp only
    rw [hlast, hx]
    by_cases hid : x.outConnId = id
    · refine ⟨some cur, ?_, fun a => ⟨?_, ?_⟩⟩
      · rw [if_neg (not_not.2 hid), deref_some, ok_bind, check_pos hid, ok_bind]
      · rintro ⟨⟩
        exact ⟨x, hx, hid⟩
      · rintro ⟨y, hy, rfl⟩
        rw [← href, (ht.refs _ a).2 ⟨y, hy, rfl⟩]
    · refine ⟨none, if_pos hid, fun a => ⟨nofun, ?_⟩⟩
      rintro ⟨y, hy, rfl⟩
      have hsame := (ht.refs _ a).2 ⟨y, hy, rfl⟩
      rw [href] at hsame
      cases hsame
      rw [hx] at hy
      cases hy
      exact absurd rfl hid

/-! ### Deletion -/

theorem leaveList_ok (hr : Rings (st.links side) ls) (a : ℕ) :
    ∃ L, st.leaveList side a = .ok (st.setLinks side L) ∧ Rings L (without ls a) := by
  obtain ⟨L, hL, hr'⟩ := hr.detach a
  exact ⟨L, by rw [leaveList, hL, deref_some, ok_bind], hr'⟩

theorem lruDeleteExtConn_ok (hr : Rings st.connLru fun _ => some lru) (a : ℕ) :
    ∃ L, st.lruDeleteExtConn a = .ok { st with connLru := L } ∧
      Rings L fun _ => some (lru.erase a) := by
  obtain ⟨L, hL, hr'⟩ := hr.detach a
  have hnull := hr'.free a fun h hon => (hr.on_without.1 hon).2 rfl
  refine ⟨L, ?_, hr'⟩
  rw [lruDeleteExtConn, hL, deref_some, ok_bind, reset_of_null hnull.1 hnull.2]

theorem lruInsertExtConn_ok (hr : Rings st.connLru fun _ => some lru) (a : ℕ) :
    ∃ L, st.lruInsertExtConn a = .ok { st with connLru := L } ∧
      Rings L fun _ => some (lru.erase a ++ [a]) := by
  obtain ⟨L, hL, hr'⟩ := lruDeleteExtConn_ok hr a
  obtain ⟨L', hL', hr''⟩ := hr'.insert (n := a) rfl fun h hon => (hr.on_without.1 hon).2 rfl
  refine ⟨L', ?_, ?_⟩
  · rw [lruInsertExtConn, hL, ok_bind, hL', deref_some, ok_bind]
  · have hupdate : (fun _ : Unit => some (lru.erase a ++ [a])) = update
        (fun _ => some (lru.erase a)) () (some (lru.erase a ++ [a])) := by
      funext u
      rw [update_self]
    exact hr''

theorem TablesOk.delete (ht : TablesOk st) (hx : st.cell a = some x)
    (hcell : st'.cell = update st.cell a none)
    (hhash : st'.inHash = update st.inHash (extConnHash x.inn.fd x.inConnId)
      ((st.inHash (extConnHash x.inn.fd x.inConnId)).erase a))
    (href : st'.ref = update st.ref (slotOf x.outConnId) none)
    (hlast : st'.lastId = st.lastId) (hcount : st'.extConnections = st.extConnections - 1) :
    TablesOk st' := by
  have hold {b : ℕ} {y : ExtFields} (hy : st'.cell b = some y) : st.cell b = some y := by
    rw [hcell] at hy
    exact (update_none_eq_some.1 hy).2
  refine ⟨?_, ?_, fun b c y z hy hz => ht.keys b c y z (hold hy) (hold hz), ?_, fun b y hy => ?_,
    fun b y hy => ht.nonzero b y (hold hy), ?_⟩
  · rw [hcell, hhash]
    refine ht.indexes_inHash.delete hx (fun b => ?_) fun h hh b => ?_
    · rw [update_self, (ht.nodup _).mem_erase_iff]
    · rw [update_of_ne hh]
  · rw [hhash]
    exact (forall_update_iff _ fun _ (l : List ℕ) => l.Nodup).2
      ⟨(ht.nodup _).erase a, fun h _ => ht.nodup h⟩
  · rw [hcell, href]
    refine ht.indexes_ref.delete hx (fun b => ?_) fun s hs b => ?_
    · rw [update_self, (ht.refs _ a).2 ⟨x, hx, rfl⟩]
      exact ⟨nofun, fun ⟨hne, hb⟩ => absurd (some.inj hb).symm hne⟩
    · rw [update_of_ne hs]
  · rw [hlast]
    exact ht.ids b y (hold hy)
  · obtain ⟨live, hlive, hcard⟩ := ht.count
    have ha : a ∈ live := (hlive a).2 (by rw [hx]; rfl)
    refine ⟨live.erase a, fun b => ?_, ?_⟩
    · rw [Finset.mem_erase, hlive, hcell]
      by_cases hb : b = a
      · simp [hb]
      · simp [hb]
    · rw [hcount, Finset.card_erase_of_mem ha]
      have hpos := Finset.card_pos.2 ⟨a, ha⟩
      omega

theorem ListsOk.delete (hl : ListsOk st lists lru)
    (hcell : st'.cell = update st.cell a none) (hsize : st'.size = st.size)
    (hrings : ∀ side, Rings (st'.links side) (without (lists side) a))
    (hlru : Rings st'.connLru fun _ => some (lru.erase a)) :
    ListsOk st' (fun side => without (lists side) a) (lru.erase a) := by
  refine ⟨hrings, hlru, fun side fd b hb => ?_, fun side b y hy hfd => ?_, fun fd => ?_,
    fun b hb => ?_, fun side b y hy => ?_⟩
  · obtain ⟨hon, hne⟩ := (hl.rings side).on_without.1 hb
    obtain ⟨y, hy, hfd⟩ := hl.cell_of_on side fd b hon
    exact ⟨y, by rw [hcell, update_none_eq_some]; exact ⟨hne, hy⟩, hfd⟩
  · rw [hcell, update_none_eq_some] at hy
    exact (hl.rings side).on_without.2 ⟨hl.on_of_cell side b y hy.2 hfd, hy.1⟩
  · refine le_trans ?_ (hl.short fd)
    rw [without]
    cases lists .inn fd with
    | none => exact le_rfl
    | some l => exact length_erase_le
  · have hnd : lru.Nodup := (nodup_cons.1 (hl.lruRing.ring () lru rfl).nodup).2.of_map _
    rw [hnd.mem_erase_iff] at hb
    obtain ⟨y, hy⟩ := hl.cell_of_lru b hb.2
    exact ⟨y, by rw [hcell, update_none_eq_some]; exact ⟨hb.1, hy⟩⟩
  · rw [hcell, update_none_eq_some] at hy
    rw [hsize]
    exact hl.range side b y hy.2

theorem isSome_without (ls : ℕ → Option (List ℕ)) (a fd : ℕ) :
    (without ls a fd).isSome = (ls fd).isSome := by
  rw [without, isSome_map]

/-- Which lists are set up is all that counts for the connections. -/
theorem ReadyOk.congr (hr : ReadyOk st lists) (hextra : st'.extraInt = st.extraInt)
    (hout : ∀ fd, (lists' .out fd).isSome = (lists .out fd).isSome)
    (hinn : ∀ fd, (lists .inn fd).isSome → (lists' .inn fd).isSome) : ReadyOk st' lists' := by
  refine ⟨?_, fun side c hc => ?_, ?_, fun fd hfd => ?_⟩
  · rw [hextra]
    exact hr.tag
  · rw [hextra] at hc
    have hold := hr.list side c hc
    cases side with
    | inn => exact hinn c.fd hold
    | out => rwa [hout]
  · rw [hextra]
    exact hr.unique
  · rw [hout] at hfd
    rw [hextra]
    exact hr.out fd hfd

theorem deleteExt_ok (hinv : Inv st lists lru issued) (hx : st.cell a = some x) :
    ∃ st', st.deleteExt (extConnHash x.inn.fd x.inConnId) a x = .ok st' ∧
      st'.cell = update st.cell a none ∧ st'.extraInt = st.extraInt ∧
      Inv st' (fun side => without (lists side) a) (lru.erase a) issued := by
  have hl := hinv.listsOk
  obtain ⟨Lin, hLin, hrin⟩ := leaveList_ok (hl.rings .inn) a
  have hout : Rings ((st.setLinks .inn Lin).links .out) (lists .out) := hl.rings .out
  obtain ⟨Lout, hLout, hrout⟩ := leaveList_ok hout a
  have hlru : Rings ((st.setLinks .inn Lin).setLinks .out Lout).connLru fun _ => some lru :=
    hl.lruRing
  obtain ⟨Llru, hLlru, hrlru⟩ := lruDeleteExtConn_ok hlru a
  have href : st.ref (slotOf x.outConnId) = some a := (hinv.tablesOk.refs _ a).2 ⟨x, hx, rfl⟩
  have hid := hinv.tablesOk.ids a x hx
  refine ⟨{ (st.setLinks .inn Lin).setLinks .out Lout with
    connLru := Llru
    cell := update st.cell a none
    inHash := update st.inHash (extConnHash x.inn.fd x.inConnId)
      ((st.inHash (extConnHash x.inn.fd x.inConnId)).erase a)
    ref := update st.ref (slotOf x.outConnId) none
    extConnections := st.extConnections - 1 }, ?_, rfl, rfl, ?_⟩
  · rw [deleteExt, hLin, ok_bind, hLout, ok_bind, hLlru]
    exact (check_bind href ..).trans (check_bind hid ..)
  · refine ⟨hl.delete rfl rfl (fun side => ?_) hrlru, ?_, ?_, ?_⟩
    · cases side with
      | inn => exact hrin
      | out => exact hrout
    · exact hinv.tablesOk.delete hx rfl rfl rfl rfl rfl
    · refine hinv.readyOk.congr rfl (fun fd => isSome_without _ _ _) fun fd hsome => ?_
      rw [isSome_without]
      exact hsome
    · refine { hinv.issuedOk with issued := fun b y hy => ?_ }
      exact hinv.issuedOk.issued b y (update_none_eq_some.1 hy).2

/-! ### Removal -/

theorem ListsOk.next_isSome (hl : ListsOk st lists lru) (side : ListSide) (hx : st.cell a = some x)
    (hfd : x.fd side ≠ 0) : ((st.links side).next (.inr a)).isSome :=
  (hl.rings side).next_isSome_iff.2 ⟨_, hl.on_of_cell side a x hx hfd⟩

theorem noticeOut_ok (hl : ListsOk st lists lru) (isOpen : ConnId → Bool) (hx : st.cell a = some x)
    (sendNotifications : ℕ) :
    ∃ notices, st.noticeOut isOpen a x sendNotifications = .ok notices := by
  unfold noticeOut
  by_cases hfd : x.out.fd = 0
  · exact ⟨_, if_pos hfd⟩
  · have hrange := hl.range .out a x hx hfd
    have hlinked := hl.next_isSome .out hx hfd
    rw [if_neg hfd]
    exact ⟨_, (check_bind hrange ..).trans (check_bind hlinked ..)⟩

variable {sendNotifications h : ℕ}

theorem noticeIn_ok (hl : ListsOk st lists lru) (isOpen : ConnId → Bool) (hx : st.cell a = some x)
    (hplain : sendNotifications &&& 2 ≠ 0 → x.inn.fd ≠ 0 → x.inConnId = 0) :
    ∃ notices, st.noticeIn isOpen a x sendNotifications = .ok notices := by
  unfold noticeIn
  by_cases hfd : x.inn.fd = 0
  · exact ⟨_, if_pos hfd⟩
  · have hrange : x.inn.fd < st.size := hl.range .inn a x hx hfd
    have hlinked := hl.next_isSome .inn hx hfd
    rw [if_neg hfd, check_bind hrange, check_bind hlinked]
    by_cases hsend : sendNotifications &&& 2 ≠ 0
    · rw [if_pos hsend]
      exact ⟨_, check_bind (hplain hsend hfd) ..⟩
    · exact ⟨_, if_neg hsend⟩

theorem getByInConnId_delete (hinv : Inv st lists lru issued) (hx : st.cell a = some x) (addr : ℕ)
    (draws : List ℕ) :
    ∃ st', st.getByInConnId x.inn x.inConnId .delete addr draws = .ok (.minusOne, st') ∧
      st'.cell = update st.cell a none ∧ st'.extraInt = st.extraInt ∧
      Inv st' (fun side => without (lists side) a) (lru.erase a) issued := by
  obtain ⟨r, hr, hiff⟩ := search_ok hinv.tablesOk x.inn.fd x.inConnId
  obtain rfl : r = some a := (hiff a).2 ⟨x, hx, rfl, rfl⟩
  obtain ⟨st', hdelete, hrest⟩ := deleteExt_ok hinv hx
  refine ⟨st', ?_, hrest⟩
  rw [getByInConnId, hr, ok_bind]
  dsimp only
  rw [hx, deref_some, ok_bind, hdelete, ok_bind]

theorem removeExt_ok (hinv : Inv st lists lru issued) (isOpen : ConnId → Bool)
    (hx : st.cell a = some x)
    (hplain : sendNotifications &&& 2 ≠ 0 → x.inn.fd ≠ 0 → x.inConnId = 0) :
    ∃ notices st', st.removeExt isOpen a sendNotifications = .ok (notices, st') ∧
      st'.cell = update st.cell a none ∧ st'.extraInt = st.extraInt ∧
      Inv st' (fun side => without (lists side) a) (lru.erase a) issued := by
  obtain ⟨r, hr, hiff⟩ := findByOutConnId_ok hinv.tablesOk x.outConnId
  obtain rfl : r = some a := (hiff a).2 ⟨x, hx, rfl⟩
  obtain ⟨outs, houts⟩ := noticeOut_ok hinv.listsOk isOpen hx sendNotifications
  obtain ⟨ins, hins⟩ := noticeIn_ok hinv.listsOk isOpen hx hplain
  obtain ⟨st', hdelete, hrest⟩ := getByInConnId_delete hinv hx 0 []
  refine ⟨outs ++ ins, st', ?_, hrest⟩
  rw [removeExt, hx, deref_some, ok_bind, check_bind (hinv.tablesOk.nonzero a x hx), hr, ok_bind,
    houts, hins, hdelete]
  exact check_bind rfl ..

/-! ### Identifiers -/

theorem useOf_nextOutConnId {last : BitVec 64} (hs : s < extConnTableSize)
    (huse : useOf last + 1 < 2 ^ 42) : useOf (nextOutConnId last s) = useOf last + 1 := by
  have hmod : (last ||| BitVec.ofNat 64 (2 ^ 22 - 1)).toNat % 2 ^ 22 = 2 ^ 22 - 1 := by
    exact Words.or_low_mod last.toNat 22
  have hdiv : (last ||| BitVec.ofNat 64 (2 ^ 22 - 1)).toNat / 2 ^ 22 = last.toNat / 2 ^ 22 := by
    have hzero : (BitVec.ofNat 64 (2 ^ 22 - 1)).toNat >>> 22 = 0 := by decide
    rw [toNat_or, ← Nat.shiftRight_eq_div_pow, Nat.shiftRight_or_distrib, hzero,
      Nat.or_zero, Nat.shiftRight_eq_div_pow]
  have hone : (1 : BitVec 64).toNat = 1 := rfl
  unfold extConnTableSize at hs
  simp only [useOf, extConnTableSize] at huse
  simp only [useOf, nextOutConnId, extConnTableSize, toNat_add, toNat_ofNat, hone]
  omega

theorem ne_zero_of_useOf_pos {id : BitVec 64} (h : 0 < useOf id) : id ≠ 0 := by
  rintro rfl
  exact absurd h (by decide)

theorem IssuedOk.insert (hi : IssuedOk st issued) (hs : s < extConnTableSize)
    (huse : useOf (st.lastId s) + 1 < 2 ^ 42)
    (hlast : st'.lastId = update st.lastId s (nextOutConnId (st.lastId s) s))
    (hcell : ∀ a x, st'.cell a = some x → x.outConnId = nextOutConnId (st.lastId s) s ∨
      ∃ y, st.cell a = some y ∧ y.outConnId = x.outConnId) :
    IssuedOk st' (issued ++ [nextOutConnId (st.lastId s) s]) := by
  have hslot := slotOf_nextOutConnId (st.lastId s) hs
  have hnext := useOf_nextOutConnId hs huse
  refine ⟨?_, fun s' => ?_, fun id hid => ?_, fun a x hx => ?_⟩
  · -- The slot has not been used so often before.
    rw [← concat_eq_append]
    refine hi.nodup.concat fun hmem => ?_
    have hle := hi.le _ hmem
    rw [hslot] at hle
    omega
  · rw [hlast, countP_append, countP_singleton, hslot]
    by_cases hs' : s' = s
    · rw [hs', update_self, hnext, hi.uses s]
      simp
    · rw [update_of_ne hs', hi.uses s']
      simp [Ne.symm hs']
  · rw [hlast]
    rcases mem_append.1 hid with hid | hid
    · by_cases hs' : slotOf id = s
      · have hle := hi.le id hid
        rw [hs'] at hle
        rw [hs', update_self]
        omega
      · rw [update_of_ne hs']
        exact hi.le id hid
    · rw [mem_singleton.1 hid, hslot, update_self]
  · rcases hcell a x hx with hid | ⟨y, hy, hid⟩
    · exact mem_append_right _ (mem_singleton.2 hid)
    · exact mem_append_left _ (hid ▸ hi.issued a y hy)

/-! ### Creation -/

theorem calloc_eq (hl : ListsOk st lists lru) (ha : st.cell a = none) :
    st.calloc a = { st with cell := update st.cell a (some ⟨⟨0, 0⟩, ⟨0, 0⟩, 0, 0, 0⟩) } := by
  have hlinks (side : ListSide) : (st.links side).reset (.inr a) = st.links side := by
    have hnull := (hl.rings side).free a (hl.not_on ha side)
    exact reset_of_null hnull.1 hnull.2
  have hlru : st.connLru.reset (.inr a) = st.connLru := by
    have hnull := hl.lruRing.free a fun u hon => by
      obtain ⟨x, hx⟩ := hl.cell_of_lru a ((on_iff rfl).1 hon)
      exact ne_of_empty ha hx rfl
    exact reset_of_null hnull.1 hnull.2
  unfold calloc
  rw [hlru]
  simp only [hlinks]

/-- The lists after an entry went to the input list of its descriptor. -/
def inListsWith (ls : ℕ → Option (List ℕ)) (fd a : ℕ) : ℕ → Option (List ℕ) :=
  if fd = 0 then ls else update ls fd (some [a])

theorem enterInList_ok (hr : Rings (st.links .inn) ls) (hfd : fd < st.size)
    (hempty : fd ≠ 0 → (ls fd).getD [] = []) (hfree : ∀ h, ¬ On ls h a) :
    ∃ L, st.enterInList fd a = .ok (st.setLinks .inn L) ∧ Rings L (inListsWith ls fd a) := by
  rw [enterInList, check_bind hfd, inListsWith]
  by_cases hzero : fd = 0
  · refine ⟨st.links .inn, ?_, ?_⟩
    · rw [if_pos hzero, setLinks, update_eq_self]
    · rw [if_pos hzero]
      exact hr
  · rw [if_neg hzero, if_neg hzero]
    -- The head is set up if it was not, and has an empty list in both cases.
    obtain ⟨L₀, hL₀, hr₀⟩ : ∃ L₀, (if ((st.links .inn).next (.inl fd)).isNone then
        (st.links .inn).close (.inl fd) else st.links .inn) = L₀ ∧
        Rings L₀ (update ls fd (some [])) := by
      refine ⟨_, rfl, ?_⟩
      cases hlist : ls fd with
      | none =>
        rw [(hr.unset fd hlist).1]
        exact hr.close hlist
      | some l =>
        have hnil := hempty hzero
        rw [hlist, getD_some] at hnil
        rw [hnil] at hlist
        rw [(hr.link_nil hlist).1, ← hlist, update_eq_self]
        exact hr
    have hself : update ls fd (some []) fd = some [] := update_self ..
    have hfree₀ : ∀ h, ¬ On (update ls fd (some [])) h a := by
      intro h hon
      by_cases hh : h = fd
      · rw [hh, On, hself] at hon
        cases hon
      · rw [On, update_of_ne hh] at hon
        exact hfree h hon
    obtain ⟨L, hL, hr'⟩ := hr₀.insert hself hfree₀
    rw [update_idem] at hr'
    refine ⟨L, ?_, hr'⟩
    dsimp only
    rw [hL₀, check_bind (hr₀.link_nil hself).1, hL, deref_some, ok_bind]

theorem TablesOk.insert (ht : TablesOk st) (ha : st.cell a = none)
    (hkey : ∀ b y, st.cell b = some y → y.inn.fd = x.inn.fd → y.inConnId ≠ x.inConnId)
    (hs : st.ref s = none) (hslot : slotOf x.outConnId = s) (hnonzero : x.outConnId ≠ 0)
    (hcell : st'.cell = update st.cell a (some x))
    (hhash : st'.inHash = update st.inHash (extConnHash x.inn.fd x.inConnId)
      (a :: st.inHash (extConnHash x.inn.fd x.inConnId)))
    (href : st'.ref = update st.ref s (some a))
    (hlast : st'.lastId = update st.lastId s x.outConnId)
    (hcount : st'.extConnections = st.extConnections + 1) : TablesOk st' := by
  subst hslot
  refine ⟨?_, ?_, fun b c y z hy hz hfd hid => ?_, ?_, fun b y hy => ?_, fun b y hy => ?_, ?_⟩
  · rw [hcell, hhash]
    refine ht.indexes_inHash.insert ha (fun b => ?_) fun h hh b => ?_
    · rw [update_self, mem_cons]
    · rw [update_of_ne hh]
  · rw [hhash]
    refine (forall_update_iff _ fun _ (l : List ℕ) => l.Nodup).2
      ⟨nodup_cons.2 ⟨fun hmem => ?_, ht.nodup _⟩, fun h _ => ht.nodup h⟩
    obtain ⟨y, hy, -⟩ := (ht.chain _ a).1 hmem
    exact ne_of_empty ha hy rfl
  · rw [hcell, update_some_eq_some] at hy hz
    rcases hy with ⟨rfl, rfl⟩ | ⟨-, hy⟩ <;> rcases hz with ⟨rfl, rfl⟩ | ⟨-, hz⟩
    · rfl
    · exact absurd hid.symm (hkey c z hz hfd.symm)
    · exact absurd hid (hkey b y hy hfd)
    · exact ht.keys b c y z hy hz hfd hid
  · rw [hcell, href]
    refine ht.indexes_ref.insert ha (fun b => ?_) fun s' hs' b => ?_
    · rw [hs]
      simp [eq_comm]
    · rw [update_of_ne hs']
  · rw [hcell, update_some_eq_some] at hy
    rw [hlast]
    rcases hy with ⟨rfl, rfl⟩ | ⟨-, hy⟩
    · rw [update_self]
    · rw [update_of_ne fun heq => ne_of_empty hs ((ht.refs _ b).2 ⟨y, hy, rfl⟩) heq]
      exact ht.ids b y hy
  · rw [hcell, update_some_eq_some] at hy
    rcases hy with ⟨rfl, rfl⟩ | ⟨-, hy⟩
    · exact hnonzero
    · exact ht.nonzero b y hy
  · obtain ⟨live, hlive, hcard⟩ := ht.count
    have ha' : a ∉ live := by
      rw [hlive, ha]
      exact Bool.false_ne_true
    refine ⟨live.cons a ha', fun b => ?_, ?_⟩
    · rw [Finset.mem_cons, hlive, hcell]
      by_cases hb : b = a
      · simp [hb]
      · simp [hb]
    · rw [hcount, hcard, Finset.card_cons]
      norm_cast

theorem on_inListsWith (hempty : fd ≠ 0 → (ls fd).getD [] = []) :
    On (inListsWith ls fd a) h b ↔ On ls h b ∨ (fd ≠ 0 ∧ h = fd ∧ b = a) := by
  unfold inListsWith
  by_cases hzero : fd = 0
  · simp [hzero]
  · rw [if_neg hzero]
    by_cases hh : h = fd
    · subst hh
      simp [On, hempty hzero, hzero]
    · simp [On, hh]

theorem isSome_inListsWith (hsome : (ls h).isSome) : (inListsWith ls fd a h).isSome := by
  unfold inListsWith
  split_ifs with hzero
  · exact hsome
  · by_cases hh : h = fd
    · rw [hh, update_self]
      rfl
    · rw [update_of_ne hh]
      exact hsome

theorem ListsOk.fill (hl : ListsOk st lists lru) (hcell : st'.cell = update st.cell a (some y))
    (hsize : st'.size = st.size) (hrings : ∀ side, Rings (st'.links side) (lists' side))
    (hlru : st'.connLru = st.connLru)
    (hother : ∀ side fd b, b ≠ a → (On (lists' side) fd b ↔ On (lists side) fd b))
    (hself : ∀ side fd, On (lists' side) fd a → y.fd side = fd)
    (hon : ∀ side, y.fd side ≠ 0 → On (lists' side) (y.fd side) a ∧ y.fd side < st.size)
    (hshort : ∀ fd, ((lists' .inn fd).getD []).length ≤ 1) : ListsOk st' lists' lru := by
  have hnew : st'.cell a = some y := by rw [hcell, update_self]
  have hold {b : ℕ} (hb : b ≠ a) : st'.cell b = st.cell b := by rw [hcell, update_of_ne hb]
  refine ⟨hrings, hlru ▸ hl.lruRing, fun side fd b hb => ?_, fun side b z hz hne => ?_, hshort,
    fun b hb => ?_, fun side b z hz hne => ?_⟩
  · by_cases hba : b = a
    · subst hba
      exact ⟨y, hnew, hself side fd hb⟩
    · rw [hold hba]
      exact hl.cell_of_on side fd b ((hother side fd b hba).1 hb)
  · rw [hcell] at hz
    rcases update_some_eq_some.1 hz with ⟨rfl, rfl⟩ | ⟨hba, hz⟩
    · exact (hon side hne).1
    · exact (hother side _ b hba).2 (hl.on_of_cell side b z hz hne)
  · by_cases hba : b = a
    · exact ⟨y, hba ▸ hnew⟩
    · rw [hold hba]
      exact hl.cell_of_lru b hb
  · rw [hcell] at hz
    rw [hsize]
    rcases update_some_eq_some.1 hz with ⟨rfl, rfl⟩ | ⟨-, hz⟩
    · exact (hon side hne).2
    · exact hl.range side b z hz hne

theorem ListsOk.insert (hl : ListsOk st lists lru) (hout : x.out.fd = 0) (ha : st.cell a = none)
    (hfd : x.inn.fd < st.size) (hempty : x.inn.fd ≠ 0 → (lists .inn x.inn.fd).getD [] = [])
    (hcell : st'.cell = update st.cell a (some x)) (hsize : st'.size = st.size)
    (hinn : Rings (st'.links .inn) (inListsWith (lists .inn) x.inn.fd a))
    (houts : st'.links .out = st.links .out) (hlru : st'.connLru = st.connLru) :
    ListsOk st' (update lists .inn (inListsWith (lists .inn) x.inn.fd a)) lru := by
  refine hl.fill hcell hsize (fun side => ?_) hlru (fun side fd b hba => ?_) (fun side fd hon => ?_)
    (fun side hne => ?_) fun fd => ?_
  · cases side with
    | inn => exact hinn
    | out =>
      rw [houts]
      exact hl.rings .out
  · cases side with
    | inn =>
      rw [update_self, on_inListsWith hempty]
      exact or_iff_left fun h => hba h.2.2
    | out => exact Iff.rfl
  · cases side with
    | inn =>
      rw [update_self, on_inListsWith hempty] at hon
      exact (hon.resolve_left (hl.not_on ha .inn fd)).2.1.symm
    | out => exact absurd hon (hl.not_on ha .out fd)
  · cases side with
    | inn =>
      rw [update_self, on_inListsWith hempty]
      exact ⟨.inr ⟨hne, rfl, rfl⟩, hfd⟩
    | out => exact absurd hout hne
  · unfold inListsWith
    split_ifs with hzero
    · exact hl.short fd
    · exact (forall_update_iff _ fun _ (l : Option (List ℕ)) => (l.getD []).length ≤ 1).2
        ⟨le_rfl, fun fd _ => hl.short fd⟩ fd

theorem searchSlot_spec (h : st.searchSlot fd inConnId draws = some s) :
    s < extConnTableSize ∧ st.ref s = none := by
  obtain ⟨n, -, rfl⟩ := mem_map.1 (mem_of_find?_eq_some h)
  exact ⟨Nat.mod_lt _ (by decide), by simpa using find?_some h⟩

/-- What is asked of a new entry for the connection `ci` with the number `inConnId`: there is none
with this key, nor with this descriptor unless it is 0. -/
structure IsNew (st : ExtHeap) (ci : ConnId) (inConnId : BitVec 64) : Prop where
  range : ci.fd < st.size
  key : ∀ b y, st.cell b = some y → y.inn.fd = ci.fd → y.inConnId ≠ inConnId
  one : ci.fd ≠ 0 → ∀ b y, st.cell b = some y → y.inn.fd ≠ ci.fd

theorem IsNew.list_nil (hl : ListsOk st lists lru) (hnew : IsNew st ci inConnId) (hfd : ci.fd ≠ 0) :
    (lists .inn ci.fd).getD [] = [] := by
  refine eq_nil_iff_forall_not_mem.2 fun b hb => ?_
  obtain ⟨y, hy, hfd'⟩ := hl.cell_of_on .inn ci.fd b hb
  exact hnew.one hfd b y hy hfd'

theorem newExt_ok (hinv : Inv st lists lru issued) (hnew : IsNew st ci inConnId)
    (hfull : st.extConnections < extConnTableSize / 2) (ha : st.cell a = none)
    (hslot : st.searchSlot ci.fd inConnId draws = some s)
    (huse : useOf (st.lastId s) + 1 < 2 ^ 42) :
    ∃ st', st.newExt ci inConnId a draws = .ok st' ∧
      st'.cell = update st.cell a (some ⟨ci, ⟨0, 0⟩, inConnId, nextOutConnId (st.lastId s) s, 0⟩) ∧
      st'.extraInt = st.extraInt ∧ st'.size = st.size ∧
      Inv st' (update lists .inn (inListsWith (lists .inn) ci.fd a)) lru
        (issued ++ [nextOutConnId (st.lastId s) s]) := by
  have hl := hinv.listsOk
  obtain ⟨hs, href⟩ := searchSlot_spec hslot
  have hslotOf := slotOf_nextOutConnId (st.lastId s) hs
  have hnonzero : nextOutConnId (st.lastId s) s ≠ 0 := by
    refine ne_zero_of_useOf_pos ?_
    rw [useOf_nextOutConnId hs huse]
    omega
  -- The state before the entry goes to its list.
  obtain ⟨st₁, hst₁⟩ : ∃ st₁ : ExtHeap, st₁ = { st with
      cell := update (update st.cell a (some ⟨⟨0, 0⟩, ⟨0, 0⟩, 0, 0, 0⟩)) a
        (some ⟨ci, ⟨0, 0⟩, inConnId, 0, 0⟩)
      inHash := update st.inHash (extConnHash ci.fd inConnId)
        (a :: st.inHash (extConnHash ci.fd inConnId)) } := ⟨_, rfl⟩
  have hrings : Rings (st₁.links .inn) (lists .inn) := by
    rw [hst₁]
    exact hl.rings .inn
  have hrange : ci.fd < st₁.size := by
    rw [hst₁]
    exact hnew.range
  obtain ⟨L, hL, hrL⟩ := enterInList_ok hrings hrange (hnew.list_nil hl) (hl.not_on ha .inn)
  refine ⟨{ st₁ with
    links := update st₁.links .inn L
    cell := update st₁.cell a (some ⟨ci, ⟨0, 0⟩, inConnId, nextOutConnId (st.lastId s) s, 0⟩)
    ref := update st.ref s (some a)
    lastId := update st.lastId s (nextOutConnId (st.lastId s) s)
    extConnections := st.extConnections + 1
    extConnectionsCreated := st.extConnectionsCreated + 1 }, ?_, ?_, ?_, ?_, ?_⟩
  · rw [newExt, check_bind hfull, calloc_eq hl ha]
    dsimp only [setCell]
    rw [← hst₁, hL, ok_bind]
    have hslot₁ : (st₁.setLinks .inn L).searchSlot ci.fd inConnId draws = some s := by
      rw [hst₁]
      exact hslot
    rw [hslot₁]
    subst hst₁
    exact check_bind hnonzero ..
  · subst hst₁
    rw [update_idem, update_idem]
  · rw [hst₁]
  · rw [hst₁]
  · have hcell : update st₁.cell a (some (⟨ci, ⟨0, 0⟩, inConnId,
        nextOutConnId (st.lastId s) s, 0⟩ : ExtFields)) = update st.cell a (some ⟨ci,
          ⟨0, 0⟩, inConnId, nextOutConnId (st.lastId s) s, 0⟩) := by
      rw [hst₁, update_idem, update_idem]
    have houts : update st₁.links .inn L .out = st.links .out := by
      rw [hst₁]
      rfl
    refine ⟨?_, ?_, ?_, ?_⟩
    · refine hl.insert (x := ⟨ci, ⟨0, 0⟩, inConnId, nextOutConnId (st.lastId s) s, 0⟩) rfl ha
        hnew.range (hnew.list_nil hl) hcell (by rw [hst₁]) hrL houts (by rw [hst₁])
    · exact hinv.tablesOk.insert ha hnew.key href hslotOf hnonzero hcell (by rw [hst₁]) rfl rfl rfl
    · refine hinv.readyOk.congr (by rw [hst₁]) (fun fd => rfl) fun fd hsome => ?_
      exact isSome_inListsWith hsome
    · refine hinv.issuedOk.insert hs huse rfl fun b y hy => ?_
      rw [hcell, update_some_eq_some] at hy
      rcases hy with ⟨-, rfl⟩ | ⟨-, hy⟩
      · exact Or.inl rfl
      · exact Or.inr ⟨y, hy, rfl⟩

/-- Two versions of an entry with the same key and identifier. -/
structure ExtFields.SameKeys (x y : ExtFields) : Prop where
  fd : x.inn.fd = y.inn.fd
  inConnId : x.inConnId = y.inConnId
  outConnId : x.outConnId = y.outConnId

theorem TablesOk.setFields (ht : TablesOk st) (hx : st.cell a = some x)
    (hsame : ExtFields.SameKeys x y) (hcell : st'.cell = update st.cell a (some y))
    (hhash : st'.inHash = st.inHash) (href : st'.ref = st.ref) (hlast : st'.lastId = st.lastId)
    (hcount : st'.extConnections = st.extConnections) : TablesOk st' := by
  have hback {b : ℕ} {z : ExtFields} (hz : st'.cell b = some z) :
      ∃ w, st.cell b = some w ∧ ExtFields.SameKeys w z := by
    rw [hcell] at hz
    exact exists_before hx hsame (fun _ => ⟨rfl, rfl, rfl⟩) hz
  refine ⟨?_, fun h => ?_, fun b c z w hz hw hfd hid => ?_, ?_, fun b z hz => ?_, fun b z hz => ?_, ?_⟩
  · rw [hcell, hhash]
    exact ht.indexes_inHash.set hx (by rw [hsame.fd, hsame.inConnId])
  · rw [hhash]
    exact ht.nodup h
  · obtain ⟨z', hz', hkz⟩ := hback hz
    obtain ⟨w', hw', hkw⟩ := hback hw
    refine ht.keys b c z' w' hz' hw' ?_ ?_
    · rw [hkz.fd, hfd, hkw.fd]
    · rw [hkz.inConnId, hid, hkw.inConnId]
  · rw [hcell, href]
    exact ht.indexes_ref.set hx (by rw [hsame.outConnId])
  · obtain ⟨w, hw, hkeys⟩ := hback hz
    rw [hlast, ← hkeys.outConnId]
    exact ht.ids b w hw
  · obtain ⟨w, hw, hkeys⟩ := hback hz
    rw [← hkeys.outConnId]
    exact ht.nonzero b w hw
  · obtain ⟨live, hlive, hcard⟩ := ht.count
    refine ⟨live, fun b => ?_, hcount.trans hcard⟩
    rw [hlive, hcell]
    by_cases hb : b = a
    · simp [hb, hx]
    · simp [hb]

theorem IssuedOk.setFields (hi : IssuedOk st issued) (hx : st.cell a = some x)
    (hid : x.outConnId = y.outConnId) (hcell : st'.cell = update st.cell a (some y))
    (hlast : st'.lastId = st.lastId) : IssuedOk st' issued := by
  refine ⟨hi.nodup, ?_, ?_, fun b z hz => ?_⟩
  · rw [hlast]
    exact hi.uses
  · rw [hlast]
    exact hi.le
  · rw [hcell] at hz
    obtain ⟨w, hw, hwz⟩ := exists_before (R := fun w z => w.outConnId = z.outConnId) hx hid
      (fun _ => rfl) hz
    exact hwz ▸ hi.issued b w hw

theorem Inv.setAuthKeyId (hinv : Inv st lists lru issued) (hx : st.cell a = some x)
    (authKeyId : BitVec 64) :
    Inv (st.setCell a (some { x with authKeyId := authKeyId })) lists lru issued := by
  have hl := hinv.listsOk
  have hsame (side : ListSide) : ({ x with authKeyId := authKeyId } : ExtFields).fd side =
    x.fd side := by
    cases side <;> rfl
  refine ⟨hl.fill rfl rfl hl.rings rfl (fun _ _ _ _ => Iff.rfl) (fun side fd hon => ?_)
    (fun side hne => ?_) hl.short, ?_, ?_, ?_⟩
  · obtain ⟨w, hw, hfd⟩ := hl.cell_of_on side fd a hon
    rw [hx] at hw
    cases hw
    rw [hsame, hfd]
  · exact ⟨hl.on_of_cell side a x hx hne, hl.range side a x hx hne⟩
  · exact hinv.tablesOk.setFields (y := { x with authKeyId := authKeyId }) hx ⟨rfl, rfl, rfl⟩ rfl
      rfl rfl rfl rfl
  · exact hinv.readyOk.congr rfl (fun _ => rfl) fun _ => id
  · exact hinv.issuedOk.setFields (y := { x with authKeyId := authKeyId }) hx rfl rfl rfl

theorem enterOutList_ok (hinv : Inv st lists lru issued) {l : List ℕ} (hx : st.cell a = some x)
    (hfree : ∀ fd, ¬ On (lists .out) fd a) (hl : lists .out co.fd = some l)
    (hrange : co.fd < st.size) :
    ∃ st', st.enterOutList a x co = .ok st' ∧
      st'.cell = update st.cell a (some { x with out := co }) ∧
      Inv st' (update lists .out (update (lists .out) co.fd (some (l ++ [a])))) lru issued := by
  have hlists := hinv.listsOk
  obtain ⟨L, hL, hrL⟩ := (hlists.rings .out).insert hl hfree
  have hsome : ((st.links .out).next (.inl co.fd)).isSome = true := by
    rw [(hlists.rings .out).next_head_isSome, hl]
    rfl
  have hon {fd b : ℕ} : On (update (lists .out) co.fd (some (l ++ [a]))) fd b ↔
      On (lists .out) fd b ∨ (fd = co.fd ∧ b = a) := by
    by_cases hfd : fd = co.fd
    · subst hfd
      rw [On, update_self, On, hl]
      simp
    · rw [On, On]
      simp [hfd]
  refine ⟨(st.setLinks .out L).setCell a (some { x with out := co }), ?_, rfl, ⟨?_, ?_, ?_, ?_⟩⟩
  · rw [enterOutList, check_bind hsome, hL, deref_some, ok_bind]
  · refine hlists.fill rfl rfl (fun side => ?_) rfl (fun side fd b hba => ?_) (fun side fd hb => ?_)
      (fun side hne => ?_) hlists.short
    · cases side with
      | inn => exact hlists.rings .inn
      | out => exact hrL
    · cases side with
      | inn => exact Iff.rfl
      | out => exact hon.trans (or_iff_left fun h => hba h.2)
    · cases side with
      | inn =>
        obtain ⟨w, hw, hfd⟩ := hlists.cell_of_on .inn fd a hb
        rw [hx] at hw
        cases hw
        exact hfd
      | out => exact ((hon.1 hb).resolve_left (hfree fd)).1.symm
    · cases side with
      | inn => exact ⟨hlists.on_of_cell .inn a x hx hne, hlists.range .inn a x hx hne⟩
      | out => exact ⟨hon.2 (.inr ⟨rfl, rfl⟩), hrange⟩
  · exact hinv.tablesOk.setFields (y := { x with out := co }) hx ⟨rfl, rfl, rfl⟩ rfl rfl rfl rfl rfl
  · refine hinv.readyOk.congr rfl (fun fd => ?_) fun fd hfd => hfd
    rw [update_self]
    by_cases hfd : fd = co.fd
    · rw [hfd, update_self, hl]
      rfl
    · rw [update_of_ne hfd]
  · exact hinv.issuedOk.setFields (y := { x with out := co }) hx rfl rfl rfl

/-- **`create_ext_connection`**: no assertion fails for a new client and a middle-end that is
ready. -/
theorem createExt_ok (hinv : Inv st lists lru issued) {co : Option ConnId} (authKeyId : BitVec 64)
    (hnew : IsNew st ci inConnId) (hfull : st.extConnections < extConnTableSize / 2)
    (ha : st.cell a = none) (hslot : st.searchSlot ci.fd inConnId draws = some s)
    (huse : useOf (st.lastId s) + 1 < 2 ^ 42)
    (hco : ∀ c ∈ co, c.fd < st.size ∧ c ≠ ci ∧ st.extraInt c = getConnTag c) :
    ∃ st' lists', st.createExt ci inConnId co authKeyId a draws = .ok (a, st') ∧
      st'.cell = update st.cell a (some ⟨ci, co.getD ⟨0, 0⟩, inConnId,
        nextOutConnId (st.lastId s) s, authKeyId⟩) ∧
      Inv st' lists' lru (issued ++ [nextOutConnId (st.lastId s) s]) := by
  obtain ⟨r, hr, hiff⟩ := search_ok hinv.tablesOk ci.fd inConnId
  obtain rfl : r = none := by
    refine eq_none_iff_forall_ne_some.2 fun b hb => ?_
    obtain ⟨y, hy, hfd, hid⟩ := (hiff b).1 hb
    exact hnew.key b y hy hfd hid
  obtain ⟨st₁, hst₁, hcell₁, hextra₁, hsize₁, hinv₁⟩ := newExt_ok hinv hnew hfull ha hslot huse
  have hx₁ : st₁.cell a = some ⟨ci, ⟨0, 0⟩, inConnId, nextOutConnId (st.lastId s) s, 0⟩ := by
    rw [hcell₁, update_self]
  have hfree := hinv.listsOk.not_on ha .out
  have hnull : ((st₁.links .out).next (.inr a)).isNone = true := by
    rw [((hinv₁.listsOk.rings .out).free a hfree).1]
    rfl
  have hget : st.getByInConnId ci inConnId .create a draws = .ok (.entry a, st₁) := by
    rw [getByInConnId, hr, ok_bind]
    rw [hst₁, ok_bind]
  have hrange : ∀ c ∈ co, c.fd < st₁.size := fun c hc => hsize₁ ▸ (hco c hc).1
  have hne : co ≠ some ci := fun heq => (hco ci heq).2.1 rfl
  rw [createExt, hget, ok_bind]
  dsimp only
  rw [hx₁, deref_some, ok_bind, check_bind ⟨rfl, hnull, rfl⟩, check_bind hrange, check_bind hne]
  cases co with
  | none =>
    refine ⟨_, _, ?_, ?_, hinv₁.setAuthKeyId hx₁ authKeyId⟩
    · rw [ok_bind, hx₁, deref_some, ok_bind]
    · rw [setCell, hcell₁, update_idem]
      rfl
  | some c =>
    obtain ⟨-, -, hready⟩ := hco c rfl
    rw [← hextra₁] at hready
    obtain ⟨l, hl⟩ := isSome_iff_exists.1 (hinv₁.readyOk.list .out c hready)
    obtain ⟨st₂, hst₂, hcell₂, hinv₂⟩ := enterOutList_ok hinv₁ hx₁ hfree hl (hrange c rfl)
    have hx₂ : st₂.cell a = some ⟨ci, c, inConnId, nextOutConnId (st.lastId s) s, 0⟩ := by
      rw [hcell₂, update_self]
    refine ⟨_, _, ?_, ?_, hinv₂.setAuthKeyId hx₂ authKeyId⟩
    · dsimp only
      rw [hst₂, ok_bind, hx₂, deref_some, ok_bind]
    · rw [setCell, hcell₂, hcell₁, update_idem, update_idem]
      rfl

end Mtbolt.Mtproto.ExtHeap
