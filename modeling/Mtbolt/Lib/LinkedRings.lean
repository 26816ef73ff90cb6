import Mathlib.Tactic

/-!
# Circular doubly linked lists

Nodes with two link fields are threaded into circles through a head, as in C: an insertion before
the head and a removal each change four fields, and a node outside every list has null links.

* `Links`: the fields; `insertBefore`, `unlink`, `close`, `reset`: the operations on them;
* `IsRing`: a head and a list of nodes form a circle;
* `Rings`: a family of heads, each with its list, through the same fields; a node is on one list at
  most;
* `Rings.insert`, `Rings.detach`, `Rings.close`, `Rings.reset`: what the operations do to the lists.
-/

/-- The link fields of the nodes `P`; `none` is the null pointer. -/
@[ext]
structure Links (P : Type*) where
  next : P → Option P
  prev : P → Option P

namespace Links

open Function List Option

variable {P H N : Type*}

/-- No node is linked. -/
def empty : Links P := ⟨fun _ => none, fun _ => none⟩

section Operations

variable [DecidableEq P]

def setNext (L : Links P) (x : P) (y : Option P) : Links P :=
  { L with next := update L.next x y }

def setPrev (L : Links P) (x : P) (y : Option P) : Links P :=
  { L with prev := update L.prev x y }

/-- `x->next = x->prev = x`. -/
def close (L : Links P) (x : P) : Links P := (L.setNext x (some x)).setPrev x (some x)

/-- `x->next = x->prev = 0`. -/
def reset (L : Links P) (x : P) : Links P := (L.setNext x none).setPrev x none

/-- `x->next = h; x->prev = h->prev; h->prev->next = x; h->prev = x`, which needs `h->prev`. -/
def insertBefore (L : Links P) (x h : P) : Option (Links P) :=
  (L.prev h).map fun p =>
    (((L.setNext x (some h)).setPrev x (some p)).setNext p (some x)).setPrev h (some x)

/-- `x->next->prev = x->prev; x->prev->next = x->next; x->next = x->prev = 0`, which needs both
links. -/
def unlink (L : Links P) (x : P) : Option (Links P) :=
  (L.next x).bind fun n => (L.prev x).map fun p =>
    ((L.setPrev n (some p)).setNext p (some n)).reset x

/-- Remove a node if it is linked. -/
def detach (L : Links P) (x : P) : Option (Links P) :=
  if (L.next x).isSome then L.unlink x else some L

variable {L : Links P} {x : P} {l' : List P} {m : N}

theorem reset_of_null (hnext : L.next x = none) (hprev : L.prev x = none) : L.reset x = L := by
  ext1
  · exact update_eq_self_iff.2 hnext.symm
  · exact update_eq_self_iff.2 hprev.symm

end Operations

/-! ### One circle -/

/-- The link from a node to the next one, in both directions. -/
def Link (L : Links P) (x y : P) : Prop := L.next x = some y ∧ L.prev y = some x

/-- The head `h` and the nodes of `l` form a circle. -/
structure IsRing (L : Links P) (h : P) (l : List P) : Prop where
  nodup : (h :: l).Nodup
  chain : List.IsChain L.Link (h :: l ++ [h])

variable {l : List P} {L : Links P} {h : P}

/-- A chain of one relation is a chain of another one if the links carry over; a link leaves a node
other than the last and reaches one other than the first. -/
theorem isChain_of_imp {R S : P → P → Prop} (h : l.IsChain R)
    (himp : ∀ x ∈ l.dropLast, ∀ y ∈ l.tail, R x y → S x y) : l.IsChain S := by
  induction l with
  | nil => exact List.IsChain.nil
  | cons a l ih =>
    cases l with
    | nil => exact List.IsChain.singleton a
    | cons b l =>
      rw [isChain_cons_cons] at h ⊢
      refine ⟨himp a (by simp) b (by simp) h.1, ih h.2 fun x hx y hy => ?_⟩
      exact himp x (mem_cons_of_mem a hx) y (mem_of_mem_tail hy)

theorem IsRing.congr {L' : Links P} (hring : L.IsRing h l)
    (hsame : ∀ x ∈ h :: l, L'.next x = L.next x ∧ L'.prev x = L.prev x) : L'.IsRing h l := by
  refine ⟨hring.nodup, isChain_of_imp hring.chain fun x hx y hy hlink => ?_⟩
  rw [dropLast_concat] at hx
  have hy : y ∈ h :: l := by simpa [or_comm] using hy
  exact ⟨(hsame x hx).1.trans hlink.1, (hsame y hy).2.trans hlink.2⟩

theorem IsRing.last (hring : L.IsRing h l) : ∃ p init, h :: l = init ++ [p] ∧ L.Link p h := by
  obtain ⟨init, p, hp⟩ : ∃ init p, h :: l = init ++ [p] :=
    ⟨_, _, (dropLast_append_getLast (cons_ne_nil h l)).symm⟩
  have hchain := hring.chain
  rw [hp, append_assoc] at hchain
  exact ⟨p, init, hp, (isChain_cons_cons.1 (isChain_append.1 hchain).2.1).1⟩

theorem chain_unique (hl : List.IsChain L.Link (x :: l ++ [h]))
    (hl' : List.IsChain L.Link (x :: l' ++ [h])) (hno : h ∉ l) (hno' : h ∉ l') : l = l' := by
  induction l generalizing x l' with
  | nil =>
    cases l' with
    | nil => rfl
    | cons y l' =>
      have hx := (isChain_cons_cons.1 hl).1.1
      rw [(isChain_cons_cons.1 hl').1.1] at hx
      exact absurd (some.inj hx ▸ mem_cons_self) hno'
  | cons z l ih =>
    cases l' with
    | nil =>
      have hx := (isChain_cons_cons.1 hl').1.1
      rw [(isChain_cons_cons.1 hl).1.1] at hx
      exact absurd (some.inj hx ▸ mem_cons_self) hno
    | cons y l' =>
      have hx := (isChain_cons_cons.1 hl').1.1
      rw [(isChain_cons_cons.1 hl).1.1] at hx
      obtain rfl := some.inj hx
      rw [ih (isChain_cons_cons.1 hl).2 (isChain_cons_cons.1 hl').2
        (fun hmem => hno (mem_cons_of_mem z hmem))
        (fun hmem => hno' (mem_cons_of_mem z hmem))]

theorem IsRing.unique (hl : L.IsRing h l) (hl' : L.IsRing h l') : l = l' :=
  chain_unique hl.chain hl'.chain (nodup_cons.1 hl.nodup).1 (nodup_cons.1 hl'.nodup).1

theorem IsRing.neighbours {l₁ l₂ : List P} (hring : L.IsRing h (l₁ ++ x :: l₂)) :
    ∃ init p n rest, h :: l₁ = init ++ [p] ∧ l₂ ++ [h] = n :: rest ∧ L.Link p x ∧ L.Link x n := by
  obtain ⟨init, p, hp⟩ : ∃ init p, h :: l₁ = init ++ [p] :=
    ⟨_, _, (dropLast_append_getLast (cons_ne_nil h l₁)).symm⟩
  obtain ⟨n, rest, hn⟩ : ∃ n rest, l₂ ++ [h] = n :: rest :=
    exists_cons_of_ne_nil (append_ne_nil_of_right_ne_nil l₂ (cons_ne_nil h []))
  have hchain := hring.chain
  have hsplit : h :: (l₁ ++ x :: l₂) ++ [h] = init ++ p :: x :: n :: rest := by
    rw [← cons_append, hp, append_assoc, cons_append, hn, append_assoc, singleton_append]
  rw [hsplit, isChain_append, isChain_cons_cons, isChain_cons_cons] at hchain
  exact ⟨init, p, n, rest, hp, hn, hchain.2.1.1, hchain.2.1.2.1⟩

section Operations

variable [DecidableEq P]

theorem link_inserted {h p a b : P} (hap : a ≠ p) (hax : a ≠ x) (hbh : b ≠ h)
    (hbx : b ≠ x) (hab : L.Link a b) :
    ((((L.setNext x (some h)).setPrev x (some p)).setNext p (some x)).setPrev h (some x)).Link
      a b := by
  constructor
  · simpa [setNext, setPrev, update_of_ne hap, update_of_ne hax] using hab.1
  · simpa [setNext, setPrev, update_of_ne hbh, update_of_ne hbx] using hab.2

theorem link_unlinked {n p a b : P} (hap : a ≠ p) (hax : a ≠ x) (hbn : b ≠ n)
    (hbx : b ≠ x) (hab : L.Link a b) :
    (((L.setPrev n (some p)).setNext p (some n)).reset x).Link a b := by
  constructor
  · simpa [reset, setNext, setPrev, update_of_ne hap, update_of_ne hax] using hab.1
  · simpa [reset, setNext, setPrev, update_of_ne hbn, update_of_ne hbx] using hab.2

theorem IsRing.insertBefore {h : P} {l : List P} (hring : L.IsRing h l)
    (hx : x ∉ h :: l) :
    ∃ L', L.insertBefore x h = some L' ∧ L'.IsRing h (l ++ [x]) ∧
      ∀ y, y ∉ h :: l → y ≠ x → L'.next y = L.next y ∧ L'.prev y = L.prev y := by
  obtain ⟨p, init, hp, hlink⟩ := hring.last
  have hpmem : p ∈ h :: l := hp ▸ mem_append_right init (mem_singleton_self p)
  have hpx : p ≠ x := ne_of_mem_of_not_mem hpmem hx
  have hhx : h ≠ x := ne_of_mem_of_not_mem mem_cons_self hx
  refine ⟨_, by rw [Links.insertBefore, hlink.2]; rfl, ⟨?_, ?_⟩, ?_⟩
  · rw [← concat_eq_append]
    exact hring.nodup.concat hx
  · have hold : List.IsChain (_ : P → P → Prop) (h :: l) := (isChain_append.1 hring.chain).1
    rw [← cons_append, append_assoc, isChain_append]
    refine ⟨isChain_of_imp hold fun a ha b hb hab => ?_, ?_, fun a ha b hb => ?_⟩
    -- No link of the list leaves its last node or reaches the head.
    · have hap : a ≠ p := by
        rw [hp, dropLast_concat] at ha
        have hnd := hring.nodup
        rw [hp, nodup_append] at hnd
        exact hnd.2.2 a ha p (mem_singleton_self p)
      have hbh : b ≠ h := ne_of_mem_of_not_mem hb (nodup_cons.1 hring.nodup).1
      have hax : a ≠ x := ne_of_mem_of_not_mem (mem_of_mem_dropLast ha) hx
      have hbx : b ≠ x := ne_of_mem_of_not_mem (mem_of_mem_tail hb) hx
      exact link_inserted hap hax hbh hbx hab
    · rw [singleton_append, isChain_cons_cons]
      refine ⟨⟨?_, ?_⟩, List.IsChain.singleton h⟩
      · simp [setNext, setPrev, update_of_ne hpx.symm]
      · simp [setNext, setPrev]
    · have hap : a = p := by simpa [hp] using ha.symm
      have hbx : b = x := by simpa using hb.symm
      subst hap hbx
      constructor
      · simp [setNext, setPrev]
      · simp [setNext, setPrev, update_of_ne hhx.symm]
  · intro y hy hyx
    have hyh : y ≠ h := fun h' => hy (h' ▸ mem_cons_self)
    have hyp : y ≠ p := (ne_of_mem_of_not_mem hpmem hy).symm
    simp [setNext, setPrev, update_of_ne hyh, update_of_ne hyp, update_of_ne hyx]

/-- **Removal of a node** takes it out of the list. -/
theorem IsRing.unlink {h : P} {l₁ l₂ : List P}
    (hring : L.IsRing h (l₁ ++ x :: l₂)) :
    ∃ L', L.unlink x = some L' ∧ L'.IsRing h (l₁ ++ l₂) ∧ L'.next x = none ∧ L'.prev x = none ∧
      ∀ y, y ∉ h :: (l₁ ++ x :: l₂) → L'.next y = L.next y ∧ L'.prev y = L.prev y := by
  obtain ⟨init, p, n, rest, hp, hn, hpx, hxn⟩ := hring.neighbours
  have hnd := hring.nodup
  rw [← cons_append, nodup_append] at hnd
  obtain ⟨hnd₁, hndx, hdis⟩ := hnd
  obtain ⟨hx₂, hnd₂⟩ := nodup_cons.1 hndx
  have hx₁ : x ∉ h :: l₁ := fun hx => hdis x hx x mem_cons_self rfl
  have hh₂ : h ∉ l₂ := fun hh => hdis h mem_cons_self h (mem_cons_of_mem x hh) rfl
  have hxh : x ≠ h := fun hx => hx₁ (hx ▸ mem_cons_self)
  have hpmem : p ∈ h :: l₁ := hp ▸ mem_append_right init (mem_singleton_self p)
  have hnmem : n ∈ l₂ ++ [h] := hn ▸ mem_cons_self
  have hxp : p ≠ x := ne_of_mem_of_not_mem hpmem hx₁
  have hxn' : n ≠ x := by
    refine ne_of_mem_of_not_mem hnmem ?_
    simp [hx₂, hxh]
  have hndn : (l₂ ++ [h]).Nodup := by
    rw [← concat_eq_append]
    exact hnd₂.concat hh₂
  refine ⟨_, by rw [Links.unlink, hxn.1, hpx.2]; rfl, ⟨?_, ?_⟩, ?_, ?_, ?_⟩
  · rw [← cons_append, nodup_append]
    exact ⟨hnd₁, hnd₂, fun a ha b hb => hdis a ha b (mem_cons_of_mem x hb)⟩
  · have hchain := hring.chain
    rw [← cons_append, append_assoc, isChain_append] at hchain
    have hchain₂ := (isChain_cons.1 hchain.2.1).2
    rw [← cons_append, append_assoc, isChain_append]
    refine ⟨isChain_of_imp hchain.1 fun a ha b hb hab => ?_,
      isChain_of_imp hchain₂ fun a ha b hb hab => ?_, fun a ha b hb => ?_⟩
    -- No link before the node leaves `p`, and none reaches `n`.
    · have hap : a ≠ p := by
        rw [hp, dropLast_concat] at ha
        rw [hp, nodup_append] at hnd₁
        exact hnd₁.2.2 a ha p (mem_singleton_self p)
      have hax : a ≠ x := ne_of_mem_of_not_mem (mem_of_mem_dropLast ha) hx₁
      have hbx : b ≠ x := ne_of_mem_of_not_mem (mem_of_mem_tail hb) hx₁
      have hbn : b ≠ n := by
        rintro rfl
        rcases mem_append.1 hnmem with hmem | hmem
        · exact hdis b (mem_of_mem_tail hb) b (mem_cons_of_mem x hmem) rfl
        · rw [mem_singleton] at hmem
          exact (nodup_cons.1 hnd₁).1 (hmem ▸ hb)
      exact link_unlinked hap hax hbn hbx hab
    · rw [dropLast_concat] at ha
      have hap : a ≠ p := by
        rintro rfl
        exact hdis a hpmem a (mem_cons_of_mem x ha) rfl
      have hax : a ≠ x := ne_of_mem_of_not_mem ha hx₂
      have hbx : b ≠ x := by
        refine ne_of_mem_of_not_mem (mem_of_mem_tail hb) ?_
        simp [hx₂, hxh]
      have hbn : b ≠ n := by
        rw [hn] at hb
        rw [hn, nodup_cons] at hndn
        exact ne_of_mem_of_not_mem hb hndn.1
      exact link_unlinked hap hax hbn hbx hab
    · have hap : a = p := by simpa [hp] using ha.symm
      have hbn : b = n := by simpa [hn] using hb.symm
      subst hap hbn
      constructor
      · simp [reset, setNext, setPrev, update_of_ne hxp]
      · simp [reset, setNext, setPrev, update_of_ne hxn']
  · simp [reset, setNext, setPrev]
  · simp [reset, setNext, setPrev]
  · intro y hy
    have hyx : y ≠ x := fun h' => hy (by simp [h'])
    have hyp : y ≠ p := by
      rintro rfl
      exact hy (mem_append_left _ hpmem)
    have hyn : y ≠ n := by
      rintro rfl
      refine hy ?_
      rcases mem_append.1 hnmem with hmem | hmem
      · simp [hmem]
      · simp [mem_singleton.1 hmem]
    simp [reset, setNext, setPrev, update_of_ne hyx, update_of_ne hyp, update_of_ne hyn]

end Operations

/-! ### A family of circles -/

/-- The node is on the list of the head; `none` stands for a head that is not set up. -/
def On (lists : H → Option (List N)) (h : H) (n : N) : Prop := n ∈ (lists h).getD []

/-- The heads have these lists, a node is on one of them at most, and heads without a list and nodes
on no list have null links. -/
structure Rings (L : Links (H ⊕ N)) (lists : H → Option (List N)) : Prop where
  unset : ∀ h, lists h = none → L.next (.inl h) = none ∧ L.prev (.inl h) = none
  ring : ∀ h l, lists h = some l → L.IsRing (.inl h) (l.map .inr)
  apart : ∀ h h' n, On lists h n → On lists h' n → h = h'
  free : ∀ n, (∀ h, ¬ On lists h n) → L.next (.inr n) = none ∧ L.prev (.inr n) = none

theorem rings_empty : Rings (empty : Links (H ⊕ N)) fun _ => none where
  unset := fun _ _ => ⟨rfl, rfl⟩
  ring := nofun
  apart := nofun
  free := fun _ _ => ⟨rfl, rfl⟩

namespace Rings

variable {L L' : Links (H ⊕ N)} {lists : H → Option (List N)} {h : H} {n : N} {l : List N}

theorem on_iff (hl : lists h = some l) : On lists h n ↔ n ∈ l := by
  rw [On, hl, getD_some]

/-! What the fields of heads and nodes are. -/

section

variable (hr : Rings L lists)
include hr

theorem link_head (hl : lists h = some (n :: l)) : L.Link (.inl h) (.inr n) :=
  (isChain_cons_cons.1 (hr.ring h _ hl).chain).1

theorem link_nil (hl : lists h = some []) : L.Link (.inl h) (.inl h) :=
  (isChain_cons_cons.1 (hr.ring h _ hl).chain).1

theorem link_next (hl : lists h = some (n :: m :: l)) : L.Link (.inr n) (.inr m) :=
  (isChain_cons_cons.1 (isChain_cons_cons.1 (hr.ring h _ hl).chain).2).1

theorem link_last (hl : lists h = some [n]) : L.Link (.inr n) (.inl h) :=
  (isChain_cons_cons.1 (isChain_cons_cons.1 (hr.ring h _ hl).chain).2).1

theorem next_head_isSome : (L.next (.inl h)).isSome = (lists h).isSome := by
  cases hl : lists h with
  | none => rw [(hr.unset h hl).1]; rfl
  | some l =>
    cases l with
    | nil => rw [(hr.link_nil hl).1]; rfl
    | cons n l => rw [(hr.link_head hl).1]; rfl

theorem prev_head_isSome : (L.prev (.inl h)).isSome = (lists h).isSome := by
  cases hl : lists h with
  | none => rw [(hr.unset h hl).2]; rfl
  | some l =>
    obtain ⟨p, -, -, hlink⟩ := (hr.ring h l hl).last
    rw [hlink.2]
    rfl

theorem exists_link (hn : On lists h n) : ∃ x, L.Link (.inr n) x := by
  cases hl : lists h with
  | none => rw [On, hl] at hn; cases hn
  | some l =>
    obtain ⟨l₁, l₂, rfl⟩ := append_of_mem ((on_iff hl).1 hn)
    have hring := hr.ring h _ hl
    rw [map_append] at hring
    obtain ⟨-, -, x, -, -, -, -, hlink⟩ := hring.neighbours
    exact ⟨x, hlink⟩

theorem next_isSome_iff : (L.next (.inr n)).isSome ↔ ∃ h, On lists h n := by
  constructor
  · intro hsome
    by_contra hno
    rw [(hr.free n (not_exists.1 hno)).1] at hsome
    cases hsome
  · rintro ⟨h, hn⟩
    obtain ⟨x, hlink⟩ := hr.exists_link hn
    rw [hlink.1]
    rfl

/-- The lists are what one finds by following the links. -/
theorem on_iff_isRing : On lists h n ↔ ∃ l : List N, L.IsRing (.inl h) (l.map .inr) ∧ n ∈ l := by
  constructor
  · intro hon
    cases hl : lists h with
    | none => rw [On, hl] at hon; cases hon
    | some l => exact ⟨l, hr.ring h l hl, (on_iff hl).1 hon⟩
  · rintro ⟨l, hring, hn⟩
    cases hl : lists h with
    | none =>
      obtain ⟨p, -, -, hlink⟩ := hring.last
      cases (hr.unset h hl).2.symm.trans hlink.2
    | some l' =>
      have heq := (hr.ring h l' hl).unique hring
      rw [on_iff hl, map_injective_iff.2 Sum.inr_injective heq]
      exact hn

end

/-! What the operations do to the lists. -/

variable [DecidableEq H]

/-- **A change to one list**: it forms a circle afterwards, the links outside it stay, the nodes that
come in were on no list, and those that go out have null links. -/
theorem change {v : Option (List N)} (hr : Rings L lists)
    (hunset : v = none → L'.next (.inl h) = none ∧ L'.prev (.inl h) = none)
    (hring : ∀ l, v = some l → L'.IsRing (.inl h) (l.map .inr))
    (hheads : ∀ h', h' ≠ h →
      L'.next (.inl h') = L.next (.inl h') ∧ L'.prev (.inl h') = L.prev (.inl h'))
    (hnodes : ∀ m, ¬ On lists h m → m ∉ v.getD [] →
      L'.next (.inr m) = L.next (.inr m) ∧ L'.prev (.inr m) = L.prev (.inr m))
    (hin : ∀ m ∈ v.getD [], On lists h m ∨ ∀ h', ¬ On lists h' m)
    (hout : ∀ m, On lists h m → m ∉ v.getD [] → L'.next (.inr m) = none ∧ L'.prev (.inr m) = none) :
    Rings L' (update lists h v) := by
  have hother {h' : H} (hne : h' ≠ h) : ∀ m, On lists h' m → ¬ On lists h m ∧ m ∉ v.getD [] := by
    intro m hm
    have hno : ¬ On lists h m := fun hm' => hne (hr.apart h' h m hm hm')
    exact ⟨hno, fun hmem => (hin m hmem).elim hno fun hfree => hfree h' hm⟩
  have hself (m : N) : On (update lists h v) h m ↔ m ∈ v.getD [] := by
    rw [On, update_self]
  have helse {h' : H} (hne : h' ≠ h) (m : N) : On (update lists h v) h' m ↔ On lists h' m := by
    rw [On, update_of_ne hne, On]
  refine ⟨fun h' hl => ?_, fun h' l hl => ?_, fun h₁ h₂ m hm₁ hm₂ => ?_, fun m hm => ?_⟩
  · by_cases hne : h' = h
    · subst hne
      rw [update_self] at hl
      exact hunset hl
    · rw [update_of_ne hne] at hl
      rw [(hheads h' hne).1, (hheads h' hne).2]
      exact hr.unset h' hl
  · by_cases hne : h' = h
    · subst hne
      rw [update_self] at hl
      exact hring l hl
    · rw [update_of_ne hne] at hl
      refine (hr.ring h' l hl).congr fun x hx => ?_
      rcases mem_cons.1 hx with rfl | hx
      · exact hheads h' hne
      · obtain ⟨m, hm, rfl⟩ := mem_map.1 hx
        obtain ⟨hno, hno'⟩ := hother hne m ((on_iff hl).2 hm)
        exact hnodes m hno hno'
  · by_cases hne₁ : h₁ = h
    · subst hne₁
      by_contra hne₂
      rw [hself] at hm₁
      rw [helse (Ne.symm hne₂)] at hm₂
      exact (hother (Ne.symm hne₂) m hm₂).2 hm₁
    · rw [helse hne₁] at hm₁
      by_cases hne₂ : h₂ = h
      · subst hne₂
        rw [hself] at hm₂
        exact absurd hm₂ (hother hne₁ m hm₁).2
      · rw [helse hne₂] at hm₂
        exact hr.apart h₁ h₂ m hm₁ hm₂
  · have hno : m ∉ v.getD [] := fun hmem => hm h ((hself m).2 hmem)
    by_cases hold : On lists h m
    · exact hout m hold hno
    · rw [(hnodes m hold hno).1, (hnodes m hold hno).2]
      refine hr.free m fun h' hm' => ?_
      by_cases hne : h' = h
      · exact hold (hne ▸ hm')
      · exact hm h' ((helse hne m).2 hm')

variable [DecidableEq N]

section

variable (hr : Rings L lists)
include hr

theorem close (hl : lists h = none) : Rings (L.close (.inl h)) (update lists h (some [])) := by
  have hno (m : N) : ¬ On lists h m := by simp [On, hl]
  refine hr.change (by simp) ?_ ?_ ?_ (by simp) fun m hm => absurd hm (hno m)
  · rintro l ⟨⟩
    refine ⟨by simp, ?_⟩
    rw [map_nil, singleton_append, isChain_cons_cons]
    refine ⟨⟨?_, ?_⟩, List.IsChain.singleton _⟩ <;> simp [Links.close, setNext, setPrev]
  · intro h' hne
    simp [Links.close, setNext, setPrev, update_of_ne hne]
  · simp [Links.close, setNext, setPrev]

theorem reset (hl : lists h = some []) : Rings (L.reset (.inl h)) (update lists h none) := by
  have hno (m : N) : ¬ On lists h m := by simp [On, hl]
  refine hr.change ?_ (by simp) ?_ ?_ (by simp) fun m hm => absurd hm (hno m)
  · simp [Links.reset, setNext, setPrev]
  · intro h' hne
    simp [Links.reset, setNext, setPrev, update_of_ne hne]
  · simp [Links.reset, setNext, setPrev]

theorem insert (hl : lists h = some l) (hfree : ∀ h', ¬ On lists h' n) :
    ∃ L', L.insertBefore (.inr n) (.inl h) = some L' ∧
      Rings L' (update lists h (some (l ++ [n]))) := by
  have hn : (Sum.inr n : H ⊕ N) ∉ .inl h :: l.map .inr := by
    simpa using fun hmem => hfree h ((on_iff hl).2 hmem)
  obtain ⟨L', hL', hring, hframe⟩ := (hr.ring h l hl).insertBefore hn
  refine ⟨L', hL', hr.change (by simp) ?_ ?_ ?_ ?_ ?_⟩
  · rintro _ ⟨⟩
    rw [map_append]
    exact hring
  · intro h' hne
    exact hframe _ (by simpa using hne) (by simp)
  · intro m hm hno
    rw [on_iff hl] at hm
    rw [getD_some, mem_append, not_or] at hno
    exact hframe _ (by simpa using hm) (by simpa using hno.2)
  · intro m hm
    rw [getD_some, mem_append, mem_singleton] at hm
    rcases hm with hm | rfl
    · exact Or.inl ((on_iff hl).2 hm)
    · exact Or.inr hfree
  · intro m hm hno
    exact absurd (mem_append_left [n] ((on_iff hl).1 hm)) hno

theorem unlink (hl : lists h = some l) (hn : n ∈ l) :
    ∃ L', L.unlink (.inr n) = some L' ∧ Rings L' (update lists h (some (l.erase n))) := by
  obtain ⟨l₁, l₂, rfl⟩ := append_of_mem hn
  have hring := hr.ring h _ hl
  have hnd : (l₁ ++ n :: l₂).Nodup := (nodup_cons.1 hring.nodup).2.of_map _
  rw [nodup_append] at hnd
  have hn₁ : n ∉ l₁ := fun hmem => hnd.2.2 n hmem n mem_cons_self rfl
  have herase : (l₁ ++ n :: l₂).erase n = l₁ ++ l₂ := by
    rw [erase_append_right _ hn₁, erase_cons_head]
  rw [map_append] at hring
  obtain ⟨L', hL', hring', hnext, hprev, hframe⟩ := hring.unlink
  rw [herase]
  refine ⟨L', hL', hr.change (by simp) ?_ ?_ ?_ ?_ ?_⟩
  · rintro _ ⟨⟩
    rw [map_append]
    exact hring'
  · intro h' hne
    exact hframe _ (by simpa using hne)
  · intro m hm _
    rw [on_iff hl] at hm
    exact hframe _ (by simpa using hm)
  · intro m hm
    refine Or.inl ((on_iff hl).2 ?_)
    rw [getD_some, mem_append] at hm
    simpa using hm.imp_right Or.inr
  · intro m hm hno
    rw [on_iff hl] at hm
    rw [getD_some, mem_append, not_or] at hno
    obtain rfl : m = n := by simpa [hno.1, hno.2] using hm
    exact ⟨hnext, hprev⟩

/-- The lists without a node. -/
def without (lists : H → Option (List N)) (n : N) (h : H) : Option (List N) :=
  (lists h).map (List.erase · n)

omit [DecidableEq H] in
theorem on_without : On (without lists n) h m ↔ On lists h m ∧ m ≠ n := by
  cases hl : lists h with
  | none => simp [On, without, hl]
  | some l =>
    have hnd : l.Nodup := (nodup_cons.1 (hr.ring h l hl).nodup).2.of_map _
    rw [on_iff hl, On, without, hl, map_some, getD_some, hnd.mem_erase_iff, and_comm]

theorem detach (n : N) : ∃ L', L.detach (.inr n) = some L' ∧ Rings L' (without lists n) := by
  by_cases hon : ∃ h, On lists h n
  · obtain ⟨h, hn⟩ := hon
    obtain ⟨l, hl⟩ : ∃ l, lists h = some l := by
      cases hl : lists h with
      | none => rw [On, hl] at hn; cases hn
      | some l => exact ⟨l, rfl⟩
    obtain ⟨L', hL', hrings⟩ := hr.unlink hl ((on_iff hl).1 hn)
    refine ⟨L', by rw [Links.detach, if_pos (hr.next_isSome_iff.2 ⟨h, hn⟩), hL'], ?_⟩
    -- The node is on no other list, so erasing it there changes nothing.
    have hlists : without lists n = update lists h (some (l.erase n)) := by
      funext h'
      by_cases hne : h' = h
      · rw [hne, update_self, without, hl, map_some]
      · rw [update_of_ne hne, without]
        cases hl' : lists h' with
        | none => rfl
        | some l' =>
          have hno : n ∉ l' := fun hmem => hne (hr.apart h' h n ((on_iff hl').2 hmem) hn)
          rw [map_some, erase_of_not_mem hno]
    rw [hlists]
    exact hrings
  · have hnext := (hr.free n (not_exists.1 hon)).1
    have hlists : without lists n = lists := by
      funext h
      rw [without]
      cases hl : lists h with
      | none => rfl
      | some l =>
        have hno : n ∉ l := fun hmem => hon ⟨h, (on_iff hl).2 hmem⟩
        rw [map_some, erase_of_not_mem hno]
    rw [hlists]
    exact ⟨L, by rw [Links.detach, hnext]; rfl, hr⟩

end

end Rings

end Links
