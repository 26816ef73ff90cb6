import Mtbolt.Mtproto.ExtHeapInv

/-!
# Runs of the external connections

The events at both ends of an external connection, and the sequences of calls: what each call asks of
its caller, that no assertion fails if this is given, and what holds after every such sequence.
-/

namespace Mtbolt.Mtproto.ExtHeap

open Links Links.Rings Indexed Function List Option

variable {st : ExtHeap} {lists : Lists} {lru : List ℕ} {issued : List (BitVec 64)}

variable {side side' : ListSide} {st' : ExtHeap} {ls : ℕ → Option (List ℕ)} {fd h b : ℕ}
  {c : ConnId} {l : List ℕ}

/-- Entries are at most removed. -/
def Shrinks (st st' : ExtHeap) : Prop := ∀ a x, st'.cell a = some x → st.cell a = some x

theorem Shrinks.of_eq (h : st'.cell = st.cell) : Shrinks st st' :=
  fun _ _ hx => h ▸ hx

/-- A call comes to its end: the invariant stays, and entries are at most removed. -/
def Ends (st : ExtHeap) (issued : List (BitVec 64)) (r : Except Abort ExtHeap) : Prop :=
  ∃ st' lists' lru', r = .ok st' ∧ Inv st' lists' lru' issued ∧ Shrinks st st'

theorem Ends.same (hinv : Inv st lists lru issued) {r : Except Abort ExtHeap} (h : r = .ok st) :
    Ends st issued r :=
  ⟨st, lists, lru, h, hinv, .of_eq rfl⟩

theorem map_ok {α β : Type} {f : α → β} {r : Except Abort α} {x : α} (h : r = .ok x) :
    r.map f = .ok (f x) := by
  rw [h]
  rfl

/-! ### A connection becomes ready -/

variable {v : Option (List ℕ)} {L : Links (ℕ ⊕ ℕ)} {sendNotifications size : ℕ}

theorem on_update_iff (hold : (lists side fd).getD [] = [])
    (hv : v.getD [] = []) :
    On (update lists side (update (lists side) fd v) side') h b ↔ On (lists side') h b := by
  by_cases hside : side' = side
  · subst hside
    rw [update_self]
    by_cases hh : h = fd
    · rw [hh, On, update_self, On, hold, hv]
    · rw [On, update_of_ne hh, On]
  · rw [update_of_ne hside]

theorem ListsOk.update_head (hl : ListsOk st lists lru)
    (hold : (lists side fd).getD [] = []) (hv : v.getD [] = [])
    (hr : Rings L (update (lists side) fd v)) :
    ListsOk (st.setLinks side L) (update lists side (update (lists side) fd v)) lru := by
  refine ⟨fun side' => ?_, hl.lruRing, fun side' h b hb => ?_, fun side' b x hx hne => ?_,
    fun h => ?_, hl.cell_of_lru, hl.range⟩
  · by_cases hside : side' = side
    · subst hside
      simp only [setLinks, update_self]
      exact hr
    · simp only [setLinks, update_of_ne hside]
      exact hl.rings side'
  · exact hl.cell_of_on side' h b ((on_update_iff hold hv).1 hb)
  · exact (on_update_iff hold hv).2 (hl.on_of_cell side' b x hx hne)
  · by_cases hside : ListSide.inn = side
    · subst hside
      rw [update_self]
      by_cases hh : h = fd
      · simp [hh, hv]
      · rw [update_of_ne hh]
        exact hl.short h
    · rw [update_of_ne hside]
      exact hl.short h

/-- The lists after a head is set up. -/
def setUp (lists : Lists) (side : ListSide) (fd : ℕ) : Lists :=
  update lists side (update (lists side) fd (some []))

theorem setUpList_ok (hl : ListsOk st lists lru) (hnone : lists side fd = none) :
    ∃ L, st.setUpList side fd = .ok (st.setLinks side L) ∧
      ListsOk (st.setLinks side L) (setUp lists side fd) lru := by
  have hr := hl.rings side
  have hprev : ((st.links side).prev (.inl fd)).isNone = true := by
    rw [(hr.unset fd hnone).2]
    rfl
  refine ⟨(st.links side).close (.inl fd), check_bind hprev .., ?_⟩
  exact hl.update_head (by rw [hnone]; rfl) rfl (hr.close hnone)

theorem isSome_setUp (side side' : ListSide) (fd h : ℕ) :
    (setUp lists side fd side' h).isSome ↔ (side' = side ∧ h = fd) ∨ (lists side' h).isSome := by
  unfold setUp
  by_cases hside : side' = side
  · subst hside
    by_cases hh : h = fd
    · simp [hh]
    · simp [hh]
  · simp [hside]

theorem TablesOk.congr (ht : TablesOk st) (hcell : st'.cell = st.cell)
    (hhash : st'.inHash = st.inHash) (href : st'.ref = st.ref) (hlast : st'.lastId = st.lastId)
    (hcount : st'.extConnections = st.extConnections) : TablesOk st' := by
  obtain ⟨h₁, h₂, h₃, h₄, h₅, h₆, h₇⟩ := ht
  rw [← hcell] at h₁ h₃ h₄ h₅ h₆ h₇
  rw [← hhash] at h₁ h₂
  rw [← href] at h₄
  rw [← hlast] at h₅
  rw [← hcount] at h₇
  exact ⟨h₁, h₂, h₃, h₄, h₅, h₆, h₇⟩

theorem IssuedOk.congr (hi : IssuedOk st issued) (hcell : st'.cell = st.cell)
    (hlast : st'.lastId = st.lastId) : IssuedOk st' issued := by
  obtain ⟨h₁, h₂, h₃, h₄⟩ := hi
  rw [← hlast] at h₂ h₃
  rw [← hcell] at h₄
  exact ⟨h₁, h₂, h₃, h₄⟩

theorem ListsOk.congr (hl : ListsOk st lists lru) (hcell : st'.cell = st.cell)
    (hlinks : st'.links = st.links) (hlru : st'.connLru = st.connLru) (hsize : st'.size = st.size) :
    ListsOk st' lists lru := by
  obtain ⟨h₁, h₂, h₃, h₄, h₅, h₆, h₇⟩ := hl
  rw [← hcell] at h₃ h₄ h₆ h₇
  rw [← hlinks] at h₁
  rw [← hlru] at h₂
  rw [← hsize] at h₇
  exact ⟨h₁, h₂, h₃, h₄, h₅, h₆, h₇⟩

theorem ReadyOk.ready (hr : ReadyOk st lists) (side : ListSide) (hzero : st.extraInt c = 0)
    (hnone : lists side c.fd = none)
    (hextra : st'.extraInt = update st.extraInt c (tagOf side c)) :
    ReadyOk st' (setUp lists side c.fd) := by
  have hself : st'.extraInt c = tagOf side c := by rw [hextra, update_self]
  have hother {c' : ConnId} (hne : c' ≠ c) : st'.extraInt c' = st.extraInt c' := by
    rw [hextra, update_of_ne hne]
  have hnofd {c' : ConnId} (hc' : st.extraInt c' = tagOf side c') : c'.fd ≠ c.fd := by
    intro hfd
    have hsome := hr.list side c' hc'
    rw [hfd, hnone] at hsome
    cases hsome
  -- What is ready afterwards is the connection itself or was ready before.
  have hready {side' : ListSide} {c' : ConnId} (hc' : st'.extraInt c' = tagOf side' c') :
      (c' = c ∧ side' = side) ∨ st.extraInt c' = tagOf side' c' := by
    by_cases hne : c' = c
    · subst hne
      exact Or.inl ⟨rfl, (tagOf_side (hself.symm.trans hc')).symm⟩
    · exact Or.inr (hother hne ▸ hc')
  refine ⟨fun c' => ?_, fun side' c' hc' => ?_, fun side' c₁ c₂ h₁ h₂ hfd => ?_, fun fd hfd => ?_⟩
  · by_cases hne : c' = c
    · exact Or.inr ⟨side, hne ▸ hself⟩
    · rw [hother hne]
      exact hr.tag c'
  · rw [isSome_setUp]
    rcases hready hc' with ⟨rfl, rfl⟩ | hold
    · exact Or.inl ⟨rfl, rfl⟩
    · exact Or.inr (hr.list side' c' hold)
  · rcases hready h₁ with ⟨rfl, rfl⟩ | hold₁
    · rcases hready h₂ with ⟨rfl, -⟩ | hold₂
      · rfl
      · exact absurd hfd.symm (hnofd hold₂)
    · rcases hready h₂ with ⟨rfl, rfl⟩ | hold₂
      · exact absurd hfd (hnofd hold₁)
      · exact hr.unique side' c₁ c₂ hold₁ hold₂ hfd
  · rcases (isSome_setUp ..).1 hfd with ⟨rfl, rfl⟩ | hfd
    · exact ⟨c, rfl, hself⟩
    · obtain ⟨c', hc', htag⟩ := hr.out fd hfd
      refine ⟨c', hc', ?_⟩
      rwa [hother]
      rintro rfl
      exact tagOf_ne_zero .out c' (htag.symm.trans hzero)

theorem ReadyOk.closed {lists' : Lists} (hr : ReadyOk st lists)
    (htag : st.extraInt c = tagOf side c) (hnone : lists' side c.fd = none)
    (hsome : ∀ side' fd, side' ≠ side ∨ fd ≠ c.fd → (lists' side' fd).isSome = (lists side' fd).isSome)
    (hextra : st'.extraInt = update st.extraInt c 0) : ReadyOk st' lists' := by
  have hself : st'.extraInt c = 0 := by rw [hextra, update_self]
  have hother {c' : ConnId} (hne : c' ≠ c) : st'.extraInt c' = st.extraInt c' := by
    rw [hextra, update_of_ne hne]
  -- What is ready afterwards was ready before, on another side or with another descriptor.
  have hready {side' : ListSide} {c' : ConnId} (hc' : st'.extraInt c' = tagOf side' c') :
      st.extraInt c' = tagOf side' c' ∧ (side' ≠ side ∨ c'.fd ≠ c.fd) := by
    have hne : c' ≠ c := by
      rintro rfl
      exact tagOf_ne_zero side' c' (hc'.symm.trans hself)
    rw [hother hne] at hc'
    refine ⟨hc', ?_⟩
    by_contra hboth
    push Not at hboth
    obtain ⟨rfl, hfd⟩ := hboth
    exact hne (hr.unique side' c' c hc' htag hfd)
  refine ⟨fun c' => ?_, fun side' c' hc' => ?_, fun side' c₁ c₂ h₁ h₂ => ?_, fun fd hfd => ?_⟩
  · by_cases hne : c' = c
    · exact Or.inl (hne ▸ hself)
    · rw [hother hne]
      exact hr.tag c'
  · obtain ⟨hold, hne⟩ := hready hc'
    rw [hsome side' c'.fd hne]
    exact hr.list side' c' hold
  · exact hr.unique side' c₁ c₂ (hready h₁).1 (hready h₂).1
  · have hne : ListSide.out ≠ side ∨ fd ≠ c.fd := by
      by_contra hboth
      push Not at hboth
      obtain ⟨rfl, rfl⟩ := hboth
      rw [hnone] at hfd
      cases hfd
    rw [hsome .out fd hne] at hfd
    obtain ⟨c', rfl, hc'⟩ := hr.out fd hfd
    refine ⟨c', rfl, ?_⟩
    rwa [hother]
    rintro rfl
    exact hne.elim (fun h => h (tagOf_side (hc'.symm.trans htag))) fun h => h rfl

theorem mtfrontClientReady_ok (hinv : Inv st lists lru issued) (hfd : c.fd < st.size)
    (hzero : st.extraInt c = 0) (hnone : ∀ c', c'.fd = c.fd → st.extraInt c' ≠ getConnTag c') :
    Ends st issued (st.mtfrontClientReady c) := by
  have hlist : lists .out c.fd = none := by
    rw [← not_isSome_iff_eq_none]
    intro hsome
    obtain ⟨c', hc', htag⟩ := hinv.readyOk.out c.fd hsome
    exact hnone c' hc' htag
  have hl : ListsOk (st.setExtraInt c (getConnTag c)) lists lru :=
    hinv.listsOk.congr rfl rfl rfl rfl
  obtain ⟨L, hL, hl'⟩ := setUpList_ok hl hlist
  refine ⟨_, _, lru, ?_, ⟨hl', ?_, ?_, ?_⟩, .of_eq rfl⟩
  · rw [mtfrontClientReady, check_bind hfd, check_bind hzero, hL]
  · exact hinv.tablesOk.congr rfl rfl rfl rfl rfl
  · exact hinv.readyOk.ready .out hzero hlist rfl
  · exact hinv.issuedOk.congr rfl rfl

/-! ### A connection is closed -/

/-- The first of the nodes, or the head. -/
def firstOf (fd : ℕ) : List ℕ → ℕ ⊕ ℕ
  | [] => .inl fd
  | a :: _ => .inr a

theorem next_head_eq (hr : Rings L ls) (hl : ls fd = some l) :
    L.next (.inl fd) = some (firstOf fd l) := by
  cases l with
  | nil => exact (hr.link_nil hl).1
  | cons a l => exact (hr.link_head hl).1

theorem next_node_eq (hr : Rings L ls) {a : ℕ} (hl : ls fd = some (a :: l)) :
    L.next (.inr a) = some (firstOf fd l) := by
  cases l with
  | nil => exact (hr.link_last hl).1
  | cons b l => exact (hr.link_next hl).1

theorem removeAll_ok (isOpen : ConnId → Bool) {fuel : ℕ}
    (hfuel : l.length < fuel) (hinv : Inv st lists lru issued) (hl : lists side fd = some l)
    (hplain : sendNotifications &&& 2 ≠ 0 → ∀ b y, st.cell b = some y → y.fd side = fd →
      y.inn.fd ≠ 0 → y.inConnId = 0) :
    ∃ notices st' lists' lru',
      removeAll isOpen side sendNotifications fd fuel (firstOf fd l) st = .ok (notices, st') ∧
      Inv st' lists' lru' issued ∧ lists' side fd = some [] ∧ st'.extraInt = st.extraInt ∧
      (∀ side' fd', (lists' side' fd').isSome = (lists side' fd').isSome) ∧ Shrinks st st' := by
  induction l generalizing st lists lru fuel with
  | nil =>
    obtain ⟨fuel, rfl⟩ := Nat.exists_eq_add_one_of_ne_zero (Nat.ne_of_gt hfuel)
    refine ⟨[], st, lists, lru, ?_, hinv, hl, rfl, fun _ _ => rfl, .of_eq rfl⟩
    rw [firstOf, removeAll, if_pos rfl]
  | cons a l ih =>
    obtain ⟨fuel, rfl⟩ := Nat.exists_eq_add_one_of_ne_zero (Nat.ne_zero_of_lt hfuel)
    have hon : On (lists side) fd a := (on_iff hl).2 mem_cons_self
    obtain ⟨x, hx, hfd⟩ := hinv.listsOk.cell_of_on side fd a hon
    obtain ⟨notices, st₁, hremove, hcell₁, hextra₁, hinv₁⟩ :=
      removeExt_ok hinv isOpen hx fun hsend hne => hplain hsend a x hx hfd hne
    have hl₁ : without (lists side) a fd = some l := by
      rw [without, hl, map_some, erase_cons_head]
    have hshrinks₁ : Shrinks st st₁ := by
      intro b y hy
      rw [hcell₁, update_none_eq_some] at hy
      exact hy.2
    obtain ⟨more, st₂, lists₂, lru₂, hloop, hinv₂, hnil, hextra₂, hsome₂, hshrinks₂⟩ :=
      ih (Nat.lt_of_succ_lt_succ hfuel) hinv₁ hl₁ fun hsend b y hy =>
        hplain hsend b y (hshrinks₁ b y hy)
    refine ⟨notices ++ more, st₂, lists₂, lru₂, ?_, hinv₂, hnil, hextra₂.trans hextra₁,
      fun side' fd' => ?_, fun b y hy => hshrinks₁ b y (hshrinks₂ b y hy)⟩
    · rw [firstOf, removeAll, hx, deref_some, ok_bind, check_bind hfd, hremove, ok_bind]
      dsimp only
      rw [next_node_eq (hinv.listsOk.rings side) hl, deref_some, ok_bind, hloop, ok_bind]
    · rw [hsome₂, isSome_without]

theorem length_le_count (hinv : Inv st lists lru issued) (hl : lists side fd = some l) :
    l.length ≤ st.extConnections.toNat := by
  obtain ⟨live, hlive, hcard⟩ := hinv.tablesOk.count
  have hnd : l.Nodup := (nodup_cons.1 ((hinv.listsOk.rings side).ring fd l hl).nodup).2.of_map _
  have hsub : l.toFinset ⊆ live := by
    intro a ha
    obtain ⟨x, hx, -⟩ := hinv.listsOk.cell_of_on side fd a ((on_iff hl).2 (mem_toFinset.1 ha))
    rw [hlive, hx]
    rfl
  rw [hcard, ← toFinset_card_of_nodup hnd]
  exact Finset.card_le_card hsub

/-- The lists after a head is cleared. -/
def clear (lists : Lists) (side : ListSide) (fd : ℕ) : Lists :=
  update lists side (update (lists side) fd none)

section

variable (hinv : Inv st lists lru issued)
include hinv

theorem closeList_ok (isOpen : ConnId → Bool)
    (htag : st.extraInt c = tagOf side c)
    (hplain : sendNotifications &&& 2 ≠ 0 → ∀ b y, st.cell b = some y → y.fd side = c.fd →
      y.inn.fd ≠ 0 → y.inConnId = 0) :
    ∃ notices st' lists' lru', st.closeList isOpen side sendNotifications c.fd = .ok (notices, st') ∧
      Inv (st'.setExtraInt c 0) lists' lru' issued ∧ Shrinks st st' := by
  obtain ⟨l, hl⟩ := isSome_iff_exists.1 (hinv.readyOk.list side c htag)
  have hnext := next_head_eq (hinv.listsOk.rings side) hl
  obtain ⟨notices, st₁, lists₁, lru₁, hloop, hinv₁, hnil, hextra₁, hsome₁, hshrinks₁⟩ :=
    removeAll_ok isOpen (Nat.lt_succ_of_le (length_le_count hinv hl)) hinv hl hplain
  have hlink := (hinv₁.listsOk.rings side).link_nil hnil
  refine ⟨notices, st₁.setLinks side ((st₁.links side).reset (.inl c.fd)), clear lists₁ side c.fd,
    lru₁, ?_, ⟨?_, ?_, ?_, ?_⟩, hshrinks₁⟩
  · rw [closeList, hnext, check_bind (isSome_some ..), deref_some, ok_bind, hloop, ok_bind]
    dsimp only
    rw [check_bind ⟨hlink.1, hlink.2⟩]
  · refine ListsOk.congr (hinv₁.listsOk.update_head ?_ rfl ?_) rfl rfl rfl rfl
    · rw [hnil]
      rfl
    · exact (hinv₁.listsOk.rings side).reset hnil
  · exact hinv₁.tablesOk.congr rfl rfl rfl rfl rfl
  · refine hinv.readyOk.closed htag ?_ (fun side' fd hne => ?_) ?_
    · rw [clear, update_self, update_self]
    · rw [← hsome₁ side' fd, clear]
      by_cases hside : side' = side
      · subst hside
        rw [update_self, update_of_ne (hne.resolve_left fun h => h rfl)]
      · rw [update_of_ne hside]
    · rw [← hextra₁]
      rfl
  · exact hinv₁.issuedOk.congr rfl rfl

/-- **`mtfront_client_close`**, for a connection that is no proxy, if the clients on it are not
multiplexed. -/
theorem mtfrontClientClose_ok (isOpen : ConnId → Bool) (hfd : c.fd < st.size)
    (hside : st.extraInt c ≠ -getConnTag c)
    (hplain : ∀ b y, st.cell b = some y → y.out.fd = c.fd → y.inn.fd ≠ 0 → y.inConnId = 0) :
    Ends st issued ((st.mtfrontClientClose isOpen c).map Prod.snd) := by
  rw [mtfrontClientClose, check_bind hfd]
  by_cases hzero : st.extraInt c = 0
  · exact .same hinv (map_ok (if_pos hzero))
  · obtain ⟨side, htag⟩ := (hinv.readyOk.tag c).resolve_left hzero
    cases side with
    | inn => exact absurd htag hside
    | out =>
      obtain ⟨notices, st₁, lists₁, lru₁, hclose, hinv₁, hshrinks⟩ := closeList_ok hinv isOpen htag
        (fun _ => hplain)
      refine ⟨_, lists₁, lru₁, map_ok (x := (notices, st₁.setExtraInt c 0)) ?_, hinv₁, hshrinks⟩
      rw [if_neg hzero, check_bind (show st.extraInt c = getConnTag c from htag), hclose, ok_bind]

/-- **`mtproto_proxy_rpc_close`**, for a connection that is no middle-end. -/
theorem mtprotoProxyRpcClose_ok (isOpen : ConnId → Bool) (hfd : c.fd < st.size)
    (hside : st.extraInt c ≠ getConnTag c) :
    Ends st issued ((st.mtprotoProxyRpcClose isOpen c).map Prod.snd) := by
  rw [mtprotoProxyRpcClose, check_bind hfd]
  by_cases hzero : st.extraInt c = 0
  · exact .same hinv (map_ok (if_pos hzero))
  · obtain ⟨side, htag⟩ := (hinv.readyOk.tag c).resolve_left hzero
    cases side with
    | out => exact absurd htag hside
    | inn =>
      obtain ⟨notices, st₁, lists₁, lru₁, hclose, hinv₁, hshrinks⟩ := closeList_ok hinv isOpen htag
        (fun hsend => absurd (show 1 &&& 2 = 0 from rfl) hsend)
      refine ⟨_, lists₁, lru₁, map_ok (x := (notices, st₁.setExtraInt c 0)) ?_, hinv₁, hshrinks⟩
      rw [if_neg hzero, check_bind (show st.extraInt c = -getConnTag c from htag), hclose, ok_bind]

/-! ### The list of all connections -/

theorem Inv.setLru {L : Links (Unit ⊕ ℕ)} {lru' : List ℕ} (hr : Rings L fun _ => some lru')
    (hcell : ∀ b ∈ lru', ∃ x, st.cell b = some x) :
    Inv { st with connLru := L } lists lru' issued := by
  have hl := hinv.listsOk
  refine ⟨{ hl with lruRing := hr, cell_of_lru := hcell }, ?_, ?_, ?_⟩
  · exact hinv.tablesOk.congr rfl rfl rfl rfl rfl
  · exact hinv.readyOk.congr rfl (fun _ => rfl) fun _ => id
  · exact hinv.issuedOk.congr rfl rfl

theorem getByInFd_cases (hfd : fd < st.size) :
    st.getByInFd fd = .ok none ∨ ∃ a x, st.getByInFd fd = .ok (some a) ∧ st.cell a = some x := by
  obtain ⟨r, hr, hon⟩ := getByInFd_ok hinv.listsOk hfd
  cases r with
  | none => exact .inl hr
  | some a =>
    obtain ⟨x, hx, -⟩ := hinv.listsOk.cell_of_on .inn fd a ((hon a).1 rfl)
    exact .inr ⟨a, x, hr, hx⟩

theorem lruDeleteConn_ok (hfd : c.fd < st.size) : Ends st issued (st.lruDeleteConn c) := by
  unfold lruDeleteConn
  rcases getByInFd_cases hinv hfd with hr | ⟨a, x, hr, hx⟩
  · exact .same hinv (by rw [hr, ok_bind])
  · rw [hr, ok_bind]
    dsimp only
    rw [hx, deref_some]
    by_cases hsame : x.inn.fd = c.fd
    · obtain ⟨L, hL, hrL⟩ := lruDeleteExtConn_ok hinv.listsOk.lruRing a
      refine ⟨_, _, _, (if_pos hsame).trans hL, hinv.setLru hrL fun b hb => ?_, .of_eq rfl⟩
      exact hinv.listsOk.cell_of_lru b (mem_of_mem_erase hb)
    · exact .same hinv (if_neg hsame)

theorem lruInsertConn_ok (hfd : c.fd < st.size) : Ends st issued (st.lruInsertConn c) := by
  unfold lruInsertConn
  rcases getByInFd_cases hinv hfd with hr | ⟨a, x, hr, hx⟩
  · exact .same hinv (by rw [hr, ok_bind])
  · rw [hr, ok_bind]
    dsimp only
    rw [hx, deref_some]
    by_cases hsame : x.inn.fd = c.fd ∧ x.inn.gen = c.gen
    · obtain ⟨L, hL, hrL⟩ := lruInsertExtConn_ok hinv.listsOk.lruRing a
      refine ⟨_, _, _, (if_pos hsame).trans hL, hinv.setLru hrL fun b hb => ?_, .of_eq rfl⟩
      rcases mem_append.1 hb with hb | hb
      · exact hinv.listsOk.cell_of_lru b (mem_of_mem_erase hb)
      · exact ⟨x, mem_singleton.1 hb ▸ hx⟩
    · exact .same hinv (if_neg hsame)

/-- **`mtproto_proxy_rpc_ready`**, for a descriptor whose input list is not set up. -/
theorem mtprotoProxyRpcReady_ok (hfd : c.fd < st.size) (hzero : st.extraInt c = 0)
    (hnone : (st.links .inn).prev (.inl c.fd) = none) :
    Ends st issued (st.mtprotoProxyRpcReady c) := by
  have hlist : lists .inn c.fd = none := by
    rw [← not_isSome_iff_eq_none, ← (hinv.listsOk.rings .inn).prev_head_isSome, hnone]
    exact Bool.false_ne_true
  obtain ⟨L, hL, hl'⟩ := setUpList_ok hinv.listsOk hlist
  have hinv₁ : Inv ((st.setLinks .inn L).setExtraInt c (-getConnTag c)) (setUp lists .inn c.fd) lru
      issued := by
    refine ⟨hl'.congr rfl rfl rfl rfl, ?_, ?_, ?_⟩
    · exact hinv.tablesOk.congr rfl rfl rfl rfl rfl
    · exact hinv.readyOk.ready .inn hzero hlist rfl
    · exact hinv.issuedOk.congr rfl rfl
  have hfd₁ : c.fd < ((st.setLinks .inn L).setExtraInt c (-getConnTag c)).size := hfd
  have hzero₁ : (st.setLinks .inn L).extraInt c = 0 := hzero
  obtain ⟨st₂, lists₂, lru₂, hinsert, hinv₂, hshrinks⟩ := lruInsertConn_ok hinv₁ hfd₁
  refine ⟨st₂, lists₂, lru₂, ?_, hinv₂, hshrinks⟩
  rw [mtprotoProxyRpcReady, check_bind hfd, hL, ok_bind, check_bind hzero₁, hinsert]

end

/-! ### Calls -/

/-- The calls, with what comes from outside: the address of a new structure, the numbers drawn, and
which connections exist. -/
inductive Call
  | create (ci : ConnId) (inConnId : BitVec 64) (co : Option ConnId) (authKeyId : BitVec 64)
      (a : ℕ) (draws : List ℕ)
  | findByInFd (fd : ℕ)
  | findByInConnId (ci : ConnId) (inConnId : BitVec 64)
  | findByOutConnId (outConnId : BitVec 64)
  | remove (isOpen : ConnId → Bool) (a sendNotifications : ℕ)
  | clientReady (c : ConnId)
  | clientClose (isOpen : ConnId → Bool) (c : ConnId)
  | rpcReady (c : ConnId)
  | rpcClose (isOpen : ConnId → Bool) (c : ConnId)
  | lruInsert (c : ConnId)
  | lruDelete (c : ConnId)

/-- The state after a call. -/
def Call.exec (st : ExtHeap) : Call → Except Abort ExtHeap
  | .create ci inConnId co authKeyId a draws =>
    (st.createExt ci inConnId co authKeyId a draws).map Prod.snd
  | .findByInFd fd => (st.getByInFd fd).map fun _ => st
  | .findByInConnId ci inConnId => (st.getByInConnId ci inConnId .find 0 []).map Prod.snd
  | .findByOutConnId outConnId => (st.findByOutConnId outConnId).map fun _ => st
  | .remove isOpen a sendNotifications => (st.removeExt isOpen a sendNotifications).map Prod.snd
  | .clientReady c => st.mtfrontClientReady c
  | .clientClose isOpen c => (st.mtfrontClientClose isOpen c).map Prod.snd
  | .rpcReady c => st.mtprotoProxyRpcReady c
  | .rpcClose isOpen c => (st.mtprotoProxyRpcClose isOpen c).map Prod.snd
  | .lruInsert c => st.lruInsertConn c
  | .lruDelete c => st.lruDeleteConn c

/-- The identifiers that a call has issued, with the state after it. -/
def Call.newIds (st' : ExtHeap) : Call → List (BitVec 64)
  | .create _ _ _ _ a _ => ((st'.cell a).map ExtFields.outConnId).toList
  | _ => []

/-- The structures, and all identifiers issued so far. -/
structure ExtRun where
  heap : ExtHeap
  issued : List (BitVec 64)

/-- **What a call asks of its caller.**  An entry is created for a client that has none, with a
middle-end that is ready, as long as the table is not half full and the slot found has not run
through all its identifiers; `calloc` gives an address that is not in use.  An entry that is removed
exists, and is not multiplexed if its client is to be notified.  A connection becomes ready once, while
no other one with its descriptor has a list, and is closed on the side on which it became ready. -/
def Call.Allowed (s : ExtRun) : Call → Prop
  | .create ci inConnId co _ a draws =>
    IsNew s.heap ci inConnId ∧ s.heap.extConnections < extConnTableSize / 2 ∧
      s.heap.cell a = none ∧
      (∀ c ∈ co, c.fd < s.heap.size ∧ c ≠ ci ∧ s.heap.extraInt c = getConnTag c) ∧
      ∃ slot, s.heap.searchSlot ci.fd inConnId draws = some slot ∧
        s.issued.countP (slotOf · = slot) + 1 < 2 ^ 42
  | .findByInFd fd => fd < s.heap.size
  | .findByInConnId _ _ => True
  | .findByOutConnId _ => True
  | .remove _ a sendNotifications =>
    ∃ x, s.heap.cell a = some x ∧ (sendNotifications &&& 2 ≠ 0 → x.inn.fd ≠ 0 → x.inConnId = 0)
  | .clientReady c =>
    c.fd < s.heap.size ∧ s.heap.extraInt c = 0 ∧
      ∀ c', c'.fd = c.fd → s.heap.extraInt c' ≠ getConnTag c'
  | .clientClose _ c =>
    c.fd < s.heap.size ∧ s.heap.extraInt c ≠ -getConnTag c ∧
      ∀ b y, s.heap.cell b = some y → y.out.fd = c.fd → y.inn.fd ≠ 0 → y.inConnId = 0
  | .rpcReady c =>
    c.fd < s.heap.size ∧ s.heap.extraInt c = 0 ∧ (s.heap.links .inn).prev (.inl c.fd) = none
  | .rpcClose _ c => c.fd < s.heap.size ∧ s.heap.extraInt c ≠ getConnTag c
  | .lruInsert c => c.fd < s.heap.size
  | .lruDelete c => c.fd < s.heap.size

theorem getByInConnId_find (ht : TablesOk st) (ci : ConnId) (inConnId : BitVec 64) (addr : ℕ)
    (draws : List ℕ) :
    ∃ r, st.getByInConnId ci inConnId .find addr draws = .ok (r, st) ∧
      ∀ a, r = .entry a ↔ ∃ x, st.cell a = some x ∧ x.inn.fd = ci.fd ∧ x.inConnId = inConnId := by
  obtain ⟨r, hr, hiff⟩ := search_ok ht ci.fd inConnId
  rw [getByInConnId, hr]
  cases r with
  | none =>
    refine ⟨.null, rfl, fun a => ?_⟩
    rw [← hiff a]
    exact iff_of_false (fun h => by cases h) fun h => by cases h
  | some cur =>
    refine ⟨.entry cur, rfl, fun a => ?_⟩
    rw [← hiff a, some.injEq, Found.entry.injEq]

variable {s : ExtRun}

/-- No assertion fails, the invariant stays, and every entry afterwards was there before or has a new
identifier. -/
def Call.Safe (s : ExtRun) (call : Call) : Prop :=
  ∃ st' lists' lru', call.exec s.heap = .ok st' ∧
    Inv st' lists' lru' (s.issued ++ call.newIds st') ∧
    ∀ a x, st'.cell a = some x → s.heap.cell a = some x ∨ x.outConnId ∈ call.newIds st'

theorem Ends.safe {call : Call} (h : Ends s.heap s.issued (call.exec s.heap))
    (hids : ∀ st', call.newIds st' = []) : call.Safe s := by
  obtain ⟨st', lists', lru', hexec, hinv', hshrinks⟩ := h
  refine ⟨st', lists', lru', hexec, ?_, fun a x hx => .inl (hshrinks a x hx)⟩
  rw [hids, append_nil]
  exact hinv'

theorem Call.exec_ok {call : Call} (hinv : Inv s.heap lists lru s.issued)
    (hallowed : call.Allowed s) : call.Safe s := by
  cases call with
  | create ci inConnId co authKeyId a draws =>
    obtain ⟨hnew, hfull, ha, hco, slot, hslot, huse⟩ := hallowed
    rw [← hinv.issuedOk.uses slot] at huse
    obtain ⟨st', lists', hcreate, hcell, hinv'⟩ :=
      createExt_ok hinv authKeyId hnew hfull ha hslot huse hco
    have hids : Call.newIds st' (.create ci inConnId co authKeyId a draws) =
        [nextOutConnId (s.heap.lastId slot) slot] := by
      rw [Call.newIds, hcell, update_self]
      rfl
    refine ⟨st', lists', lru, map_ok hcreate, hids ▸ hinv', fun b y hy => ?_⟩
    rw [hids]
    rw [hcell, update_some_eq_some] at hy
    rcases hy with ⟨-, rfl⟩ | ⟨-, hy⟩
    · exact Or.inr (mem_singleton_self _)
    · exact Or.inl hy
  | findByInFd fd =>
    obtain ⟨r, hr, -⟩ := getByInFd_ok hinv.listsOk hallowed
    exact Ends.safe (.same hinv (map_ok hr)) fun _ => rfl
  | findByInConnId ci inConnId =>
    obtain ⟨r, hr, -⟩ := getByInConnId_find hinv.tablesOk ci inConnId 0 []
    exact Ends.safe (.same hinv (map_ok hr)) fun _ => rfl
  | findByOutConnId outConnId =>
    obtain ⟨r, hr, -⟩ := findByOutConnId_ok hinv.tablesOk outConnId
    exact Ends.safe (.same hinv (map_ok hr)) fun _ => rfl
  | remove isOpen a sendNotifications =>
    obtain ⟨x, hx, hplain⟩ := hallowed
    obtain ⟨notices, st', hremove, hcell, -, hinv'⟩ := removeExt_ok hinv isOpen hx hplain
    refine Ends.safe ⟨st', _, _, map_ok hremove, hinv', fun b y hy => ?_⟩ fun _ => rfl
    rw [hcell, update_none_eq_some] at hy
    exact hy.2
  | clientReady c =>
    obtain ⟨hfd, hzero, hnone⟩ := hallowed
    exact (mtfrontClientReady_ok hinv hfd hzero hnone).safe fun _ => rfl
  | clientClose isOpen c =>
    obtain ⟨hfd, hside, hplain⟩ := hallowed
    exact (mtfrontClientClose_ok hinv isOpen hfd hside hplain).safe fun _ => rfl
  | rpcReady c =>
    obtain ⟨hfd, hzero, hnone⟩ := hallowed
    exact (mtprotoProxyRpcReady_ok hinv hfd hzero hnone).safe fun _ => rfl
  | rpcClose isOpen c =>
    obtain ⟨hfd, hside⟩ := hallowed
    exact (mtprotoProxyRpcClose_ok hinv isOpen hfd hside).safe fun _ => rfl
  | lruInsert c => exact (lruInsertConn_ok hinv hallowed).safe fun _ => rfl
  | lruDelete c => exact (lruDeleteConn_ok hinv hallowed).safe fun _ => rfl

/-! ### Runs -/

/-- A call that is allowed. -/
def Step (s s' : ExtRun) : Prop :=
  ∃ call : Call, call.Allowed s ∧ call.exec s.heap = .ok s'.heap ∧
    s'.issued = s.issued ++ call.newIds s'.heap

/-- The start. -/
def start (size : ℕ) : ExtRun := ⟨init size, []⟩

theorem inv_start (size : ℕ) : Inv (start size).heap (fun _ _ => none) [] (start size).issued where
  listsOk := by
    refine ⟨fun _ => rings_empty, ?_, ?_, ?_, ?_, ?_, ?_⟩
    · have hr := (rings_empty (H := Unit) (N := ℕ)).close (h := ()) rfl
      have hupdate : update (fun _ : Unit => (none : Option (List ℕ))) () (some []) =
          fun _ => some [] := by
        funext u
        rw [update_self]
      rwa [hupdate] at hr
    · intro side fd a hon
      cases hon
    · intro side a x hx
      cases hx
    · intro fd
      exact Nat.zero_le 1
    · intro a ha
      cases ha
    · intro side a x hx
      cases hx
  tablesOk := by
    refine ⟨fun h a => ⟨fun ha => ?_, ?_⟩, fun h => nodup_nil, ?_, fun s a => ⟨?_, ?_⟩, ?_, ?_,
      ∅, fun a => ⟨?_, ?_⟩, rfl⟩
    · cases ha
    · rintro ⟨x, hx, -⟩
      cases hx
    · intro a b x y hx
      cases hx
    · intro h
      cases h
    · rintro ⟨x, hx, -⟩
      cases hx
    · intro a x hx
      cases hx
    · intro a x hx
      cases hx
    · intro ha
      exact absurd ha (Finset.notMem_empty a)
    · intro ha
      cases ha
  readyOk := by
    refine ⟨fun c => Or.inl rfl, fun side c hc => ?_, fun side c c' hc => ?_, fun fd hfd => ?_⟩
    · exact absurd hc.symm (tagOf_ne_zero side c)
    · exact absurd hc.symm (tagOf_ne_zero side c)
    · cases hfd
  issuedOk := by
    refine ⟨nodup_nil, fun _ => Nat.zero_div _, fun id hid => ?_, fun a x hx => ?_⟩
    · cases hid
    · cases hx

theorem inv_of_run (h : Relation.ReflTransGen Step (start size) s) :
    ∃ lists lru, Inv s.heap lists lru s.issued := by
  induction h with
  | refl => exact ⟨_, _, inv_start size⟩
  | tail _ hstep ih =>
    obtain ⟨lists, lru, hinv⟩ := ih
    obtain ⟨call, hallowed, hexec, hissued⟩ := hstep
    obtain ⟨st', lists', lru', hexec', hinv', -⟩ := Call.exec_ok hinv hallowed
    cases hexec.symm.trans hexec'
    exact ⟨lists', lru', hissued ▸ hinv'⟩

/-- The entry is on the circle of the head. -/
def OnList {H : Type} (L : Links (H ⊕ ℕ)) (h : H) (a : ℕ) : Prop :=
  ∃ l : List ℕ, L.IsRing (.inl h) (l.map .inr) ∧ a ∈ l

/-- **What holds of the table**: an entry is found by its key and by its identifier and by no other;
it is on the lists of its descriptors, where 0 stands for none, and on no other; `ConnLRU` is a circle
of entries, each on it once; the entries are counted; no identifier was issued twice; and an identifier
that no entry has finds nothing. -/
structure TableRight (s : ExtRun) : Prop where
  byKey : ∀ a x, s.heap.cell a = some x → ∀ ci inConnId addr draws,
    s.heap.getByInConnId ci inConnId .find addr draws = .ok (.entry a, s.heap) ↔
      ci.fd = x.inn.fd ∧ inConnId = x.inConnId
  byId : ∀ a x, s.heap.cell a = some x → ∀ outConnId,
    s.heap.findByOutConnId outConnId = .ok (some a) ↔ outConnId = x.outConnId
  onList : ∀ a x, s.heap.cell a = some x → ∀ side fd, fd ≠ 0 →
    (OnList (s.heap.links side) fd a ↔ fd = x.fd side)
  listed : ∀ side fd a, OnList (s.heap.links side) fd a →
    ∃ x, s.heap.cell a = some x ∧ x.fd side = fd
  lru : ∃ l : List ℕ, s.heap.connLru.IsRing (.inl ()) (l.map .inr) ∧
    ∀ a ∈ l, ∃ x, s.heap.cell a = some x
  count : ∃ live : Finset ℕ, (∀ a, a ∈ live ↔ (s.heap.cell a).isSome) ∧
    s.heap.extConnections = live.card
  once : s.issued.Nodup
  gone : ∀ outConnId, (∀ a x, s.heap.cell a = some x → x.outConnId ≠ outConnId) →
    s.heap.findByOutConnId outConnId = .ok none

theorem tableRight_of_inv (hinv : Inv s.heap lists lru s.issued) : TableRight s where
  byKey := by
    intro a x hx ci inConnId addr draws
    obtain ⟨r, hr, hiff⟩ := getByInConnId_find hinv.tablesOk ci inConnId addr draws
    rw [hr, Except.ok.injEq, Prod.mk.injEq, hiff a]
    constructor
    · rintro ⟨⟨y, hy, hfd, hid⟩, -⟩
      rw [hx] at hy
      cases hy
      exact ⟨hfd.symm, hid.symm⟩
    · rintro ⟨hfd, hid⟩
      exact ⟨⟨x, hx, hfd.symm, hid.symm⟩, rfl⟩
  byId := by
    intro a x hx outConnId
    obtain ⟨r, hr, hiff⟩ := findByOutConnId_ok hinv.tablesOk outConnId
    rw [hr, Except.ok.injEq, hiff a]
    constructor
    · rintro ⟨y, hy, hid⟩
      rw [hx] at hy
      cases hy
      exact hid.symm
    · intro hid
      exact ⟨x, hx, hid.symm⟩
  onList := by
    intro a x hx side fd hne
    rw [OnList, ← (hinv.listsOk.rings side).on_iff_isRing]
    constructor
    · intro hon
      obtain ⟨y, hy, hfd⟩ := hinv.listsOk.cell_of_on side fd a hon
      rw [hx] at hy
      cases hy
      exact hfd.symm
    · rintro rfl
      exact hinv.listsOk.on_of_cell side a x hx hne
  listed := by
    intro side fd a hon
    rw [OnList, ← (hinv.listsOk.rings side).on_iff_isRing] at hon
    exact hinv.listsOk.cell_of_on side fd a hon
  lru := ⟨lru, hinv.listsOk.lruRing.ring () lru rfl, hinv.listsOk.cell_of_lru⟩
  count := hinv.tablesOk.count
  once := hinv.issuedOk.nodup
  gone := by
    intro outConnId hno
    obtain ⟨r, hr, hiff⟩ := findByOutConnId_ok hinv.tablesOk outConnId
    rw [hr]
    cases r with
    | none => rfl
    | some a =>
      obtain ⟨x, hx, hid⟩ := (hiff a).1 rfl
      exact absurd hid (hno a x hx)

/-- The identifier was issued, and its entry was removed. -/
def Removed (s : ExtRun) (outConnId : BitVec 64) : Prop :=
  outConnId ∈ s.issued ∧ ∀ a x, s.heap.cell a = some x → x.outConnId ≠ outConnId

theorem removed_of_run {s' : ExtRun} (hs : Relation.ReflTransGen Step (start size) s)
    (h : Relation.ReflTransGen Step s s') {outConnId : BitVec 64} (hremoved : Removed s outConnId) :
    Removed s' outConnId := by
  induction h with
  | refl => exact hremoved
  | tail hrun hstep ih =>
    obtain ⟨lists, lru, hinv⟩ := inv_of_run (hs.trans hrun)
    obtain ⟨call, hallowed, hexec, hissued⟩ := hstep
    obtain ⟨st', lists', lru', hexec', hinv', hold⟩ := Call.exec_ok hinv hallowed
    cases hexec.symm.trans hexec'
    refine ⟨hissued ▸ mem_append_left _ ih.1, fun a x hx hid => ?_⟩
    rcases hold a x hx with hx | hnew
    · exact ih.2 a x hx hid
    · -- It would have been issued a second time.
      have hnd := hinv'.issuedOk.nodup
      rw [nodup_append] at hnd
      exact hnd.2.2 outConnId ih.1 x.outConnId hnew hid.symm

/-- **The table of external connections, over every sequence of calls that are allowed**: what holds of
the table, that the next call does not fail an assertion, and that an identifier which was removed
finds nothing ever after. -/
theorem ext_connection_table {size : ℕ} {s : ExtRun}
    (h : Relation.ReflTransGen Step (start size) s) :
    TableRight s ∧
      (∀ call : Call, call.Allowed s → ∃ st', call.exec s.heap = .ok st') ∧
      ∀ s', Relation.ReflTransGen Step s s' → ∀ outConnId, Removed s outConnId →
        s'.heap.findByOutConnId outConnId = .ok none := by
  obtain ⟨lists, lru, hinv⟩ := inv_of_run h
  refine ⟨tableRight_of_inv hinv, fun call hallowed => ?_, fun s' hrun outConnId hremoved => ?_⟩
  · obtain ⟨st', -, -, hexec, -⟩ := Call.exec_ok hinv hallowed
    exact ⟨st', hexec⟩
  · obtain ⟨lists', lru', hinv'⟩ := inv_of_run (h.trans hrun)
    exact (tableRight_of_inv hinv').gone outConnId (removed_of_run h hrun hremoved).2

/-- A middle-end with descriptor 5 is ready. -/
def sampleReady : ExtRun :=
  ⟨((Call.clientReady ⟨5, 1⟩).exec (init 16)).toOption.getD (init 16), []⟩

/-- The client with descriptor 7 has an entry on it. -/
def sampleCreated : ExtRun :=
  ⟨((Call.create ⟨7, 1⟩ 0 (some ⟨5, 1⟩) 3 0 []).exec sampleReady.heap).toOption.getD (init 16),
    [0x400007]⟩

theorem step_sampleReady : Step (start 16) sampleReady := by
  refine ⟨.clientReady ⟨5, 1⟩, ⟨by decide, rfl, fun c' _ h => ?_⟩, rfl, rfl⟩
  exact tagOf_ne_zero .out c' h.symm

theorem step_sampleCreated : Step sampleReady sampleCreated := by
  refine ⟨.create ⟨7, 1⟩ 0 (some ⟨5, 1⟩) 3 0 [], ⟨⟨by decide, ?_, ?_⟩, by decide, rfl, ?_, 7, rfl, ?_⟩,
    rfl, rfl⟩
  · intro b y hy
    cases hy
  · intro _ b y hy
    cases hy
  · rintro c ⟨⟩
    exact ⟨by decide, by decide, rfl⟩
  · decide

/-- The client's entry is found by the identifier `0x400007`. -/
theorem ext_connection_table_sample :
    Relation.ReflTransGen Step (start 16) sampleCreated ∧ TableRight sampleCreated ∧
      sampleCreated.heap.findByOutConnId 0x400007 = .ok (some 0) := by
  have hrun : Relation.ReflTransGen Step (start 16) sampleCreated :=
    (Relation.ReflTransGen.single step_sampleReady).tail step_sampleCreated
  exact ⟨hrun, (ext_connection_table hrun).1, rfl⟩

/-- **A second entry with the same descriptor**: the list of the descriptor is in use, and the
assertion `H->i_next == H` fails. -/
theorem ext_connection_second_entry :
    ∃ st, (init 16).createExt ⟨7, 1⟩ 1 none 0 0 [3] = .ok (0, st) ∧
      st.createExt ⟨7, 1⟩ 2 none 0 1 [4] = .error .inListUsed :=
  ⟨_, rfl, rfl⟩

end Mtbolt.Mtproto.ExtHeap
