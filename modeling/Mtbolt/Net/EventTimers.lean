import Mtbolt.Lib.HeapOrder

/-!
# Event timers

The timers of a thread are in a binary heap (`net-timers.c`), and each knows its position.  Whatever
is inserted and removed, the heap holds the timers that it should, where they say that they are, and
the one at the top wakes up first.
-/

namespace Mtbolt.Net

open Function HeapOrder

/-! ### The functions -/

/-- `et_heap` and `et_heap_size`, and `h_idx` of the timers. -/
structure EtHeap (ι : Type*) where
  heap : ℕ → ι
  size : ℕ
  hIdx : ι → ℕ

/-- `MAX_EVENT_TIMERS`. -/
def maxEventTimers : ℕ := 2 ^ 19

variable {ι α : Type*} [DecidableEq ι] [LinearOrder α]

/-- `et_heap[i] = et` and `et->h_idx = i`. -/
def EtHeap.put (h : EtHeap ι) (i : ℕ) (et : ι) : EtHeap ι :=
  { h with heap := update h.heap i et, hIdx := update h.hIdx et i }

/-- The first loop of `basic_et_adjust`, at most `fuel` passes.  `w` is `wakeup_time`. -/
def moveUp (w : ι → α) (et : ι) : ℕ → EtHeap ι → ℕ → EtHeap ι × ℕ
  | 0, h, i => (h, i)
  | fuel + 1, h, i =>
    if 1 < i then
      let j := i / 2
      if w (h.heap j) ≤ w et then (h, i) else moveUp w et fuel (h.put i (h.heap j)) j
    else (h, i)

/-- The child of `i` that wakes up first. -/
def firstChild (w : ι → α) (h : EtHeap ι) (i : ℕ) : ℕ :=
  let j := 2 * i
  if j < h.size ∧ w (h.heap (j + 1)) < w (h.heap j) then j + 1 else j

/-- The second loop. -/
def moveDown (w : ι → α) (et : ι) : ℕ → EtHeap ι → ℕ → EtHeap ι × ℕ
  | 0, h, i => (h, i)
  | fuel + 1, h, i =>
    if 2 * i ≤ h.size then
      let j := firstChild w h i
      if w et ≤ w (h.heap j) then (h, i) else moveDown w et fuel (h.put i (h.heap j)) j
    else (h, i)

/-- `basic_et_adjust`. -/
def basicEtAdjust (w : ι → α) (h : EtHeap ι) (et : ι) (i : ℕ) : EtHeap ι :=
  let up := moveUp w et i h i
  let down := moveDown w et h.size up.1 up.2
  down.1.put down.2 et

/-- `insert_event_timer`; `none` when an assertion fails, or when the timer gets the position
`MAX_EVENT_TIMERS`, which the assertion allows and the array does not have. -/
def insertEventTimer (w : ι → α) (h : EtHeap ι) (et : ι) : Option (EtHeap ι) :=
  let i := h.hIdx et
  if i ≠ 0 then
    if i ≤ h.size ∧ h.heap i = et then some (basicEtAdjust w h et i) else none
  else if h.size + 1 < maxEventTimers then
    some (basicEtAdjust w { h with size := h.size + 1 } et (h.size + 1))
  else none

/-- `remove_event_timer`; `none` when its assertion fails. -/
def removeEventTimer (w : ι → α) (h : EtHeap ι) (et : ι) : Option (EtHeap ι) :=
  let i := h.hIdx et
  if i = 0 then some h
  else if i ≤ h.size ∧ h.heap i = et then
    let h' := { h with hIdx := update h.hIdx et 0, size := h.size - 1 }
    if h'.size < i then some h' else some (basicEtAdjust w h' (h.heap h.size) i)
  else none

/-! ### The heap holds a set of timers -/

/-- **The heap holds the timers of `S`**: each is where its `h_idx` says, and none wakes up before
its parent. -/
structure EtHeap.Holds (w : ι → α) (h : EtHeap ι) (S : Set ι) : Prop where
  idx : ∀ p, 1 ≤ p → p ≤ h.size → h.hIdx (h.heap p) = p
  mem : ∀ et, et ∈ S ↔ h.hIdx et ≠ 0
  back : ∀ et ∈ S, h.hIdx et ≤ h.size ∧ h.heap (h.hIdx et) = et
  ordered : Ordered h.size (w ∘ h.heap)

/-- The heap holds the timers of `S`, and the position `i` is free for `et`. -/
structure EtHeap.HasHole (w : ι → α) (h : EtHeap ι) (S : Set ι) (et : ι) (i : ℕ) : Prop where
  pos : 1 ≤ i
  le : i ≤ h.size
  idx : ∀ p, 1 ≤ p → p ≤ h.size → p ≠ i → h.hIdx (h.heap p) = p ∧ h.heap p ≠ et
  mem : ∀ x, x ∈ S ↔ x ≠ et ∧ h.hIdx x ≠ 0
  back : ∀ x ∈ S, h.hIdx x ≤ h.size ∧ h.hIdx x ≠ i ∧ h.heap (h.hIdx x) = x
  ordered : OrderedBut h.size i (w ∘ h.heap)

variable {w w' : ι → α} {h : EtHeap ι} {S : Set ι} {et : ι} {i j fuel : ℕ}

omit [DecidableEq ι] in
theorem firstChild_spec (hle : 2 * i ≤ h.size) :
    firstChild w h i / 2 = i ∧ firstChild w h i ≤ h.size ∧
      ∀ p, p ≤ h.size → p / 2 = i → w (h.heap (firstChild w h i)) ≤ w (h.heap p) := by
  unfold firstChild
  dsimp only
  have hchild {p : ℕ} (hp : p / 2 = i) : p = 2 * i ∨ p = 2 * i + 1 := by omega
  split_ifs <;> grind

namespace EtHeap.HasHole

/-- The timer at `j` moves into the hole. -/
theorem move (hh : h.HasHole w S et i) (hj : 1 ≤ j) (hn : j ≤ h.size) (hne : j ≠ i)
    (hord : OrderedBut h.size j (update (w ∘ h.heap) i ((w ∘ h.heap) j))) :
    (h.put i (h.heap j)).HasHole w S et j := by
  obtain ⟨hpos, hle, hidx, hmem, hback, -⟩ := hh
  refine ⟨hj, hn, ?_, ?_, ?_, comp_update w h.heap i _ ▸ hord⟩
  all_goals simp only [put, update_apply]; grind

/-- The timer takes the place that is free for it. -/
theorem fill (hh : h.HasHole w S et i) (hup : 2 ≤ i → w (h.heap (i / 2)) ≤ w et)
    (hdown : ∀ p, p ≤ h.size → p / 2 = i → w et ≤ w (h.heap p)) :
    (h.put i et).Holds w (insert et S) := by
  obtain ⟨hpos, hle, hidx, hmem, hback, hord⟩ := hh
  refine ⟨?_, ?_, ?_, comp_update w h.heap i et ▸ hord.fill hpos hup hdown⟩
  all_goals simp only [put, update_apply]; grind

/-- The hole is at the last position, which is given up. -/
theorem dropLast (hh : h.HasHole w S et h.size) :
    EtHeap.Holds w { h with hIdx := update h.hIdx et 0, size := h.size - 1 } S := by
  obtain ⟨hpos, hle, hidx, hmem, hback, hord⟩ := hh
  refine ⟨?_, ?_, ?_, fun p hp hn => hord.off p hp ?_ ?_ ?_⟩ <;> grind

/-- The last position is given up, and its timer is to go to the hole. -/
theorem takeLast (hh : h.HasHole w S et i) (hi : i < h.size) :
    EtHeap.HasHole w { h with hIdx := update h.hIdx et 0, size := h.size - 1 }
      (S \ {h.heap h.size}) (h.heap h.size) i := by
  obtain ⟨hpos, hle, hidx, hmem, hback, hord⟩ := hh
  refine ⟨hpos, ?_, ?_, ?_, ?_, hord.mono (Nat.sub_le _ _)⟩ <;> grind

theorem moveUp (hh : h.HasHole w S et i) (hfuel : i ≤ fuel) :
    ∃ h' i', Net.moveUp w et fuel h i = (h', i') ∧ h'.size = h.size ∧ h'.HasHole w S et i' ∧
      (2 ≤ i' → w (h'.heap (i' / 2)) ≤ w et) := by
  induction fuel generalizing h i with
  | zero => exact absurd hh.pos (by omega)
  | succ fuel ih =>
    have hle := hh.le
    rw [Net.moveUp]
    dsimp only
    split_ifs with h1 hstop
    · exact ⟨h, i, rfl, rfl, hh, fun _ => hstop⟩
    · exact ih (hh.move (by omega) (by omega) (by omega) (hh.ordered.up h1 hle)) (by omega)
    · exact ⟨h, i, rfl, rfl, hh, fun h2 => absurd h2 h1⟩

theorem moveDown (hh : h.HasHole w S et i) (hup : 2 ≤ i → w (h.heap (i / 2)) ≤ w et)
    (hfuel : h.size < fuel + i) :
    ∃ h' i', Net.moveDown w et fuel h i = (h', i') ∧ h'.size = h.size ∧ h'.HasHole w S et i' ∧
      (2 ≤ i' → w (h'.heap (i' / 2)) ≤ w et) ∧
      ∀ p, p ≤ h'.size → p / 2 = i' → w et ≤ w (h'.heap p) := by
  induction fuel generalizing h i with
  | zero => exact absurd hh.le (by omega)
  | succ fuel ih =>
    have hpos := hh.pos
    rw [Net.moveDown]
    dsimp only
    by_cases hchild : 2 * i ≤ h.size
    · obtain ⟨hj, hjn, hmin⟩ := firstChild_spec (w := w) hchild
      rw [if_pos hchild]
      split_ifs with hstop
      · exact ⟨h, i, rfl, rfl, hh, hup, fun p hp hpi => hstop.trans (hmin p hp hpi)⟩
      · refine ih (hh.move (by omega) hjn (by omega) (hh.ordered.down hpos hj hjn hmin))
          (fun _ => ?_) (by dsimp only [put]; omega)
        rw [hj]
        dsimp only [put]
        rw [update_self]
        exact (not_le.1 hstop).le
    · rw [if_neg hchild]
      exact ⟨h, i, rfl, rfl, hh, hup, fun p hp hpi => absurd hp (by omega)⟩

/-- **`basic_et_adjust` fills the hole.** -/
theorem adjust (hh : h.HasHole w S et i) :
    (basicEtAdjust w h et i).Holds w (insert et S) ∧ (basicEtAdjust w h et i).size = h.size := by
  obtain ⟨h₁, i₁, hrun₁, hsize₁, hh₁, hup⟩ := hh.moveUp le_rfl
  have hpos := hh₁.pos
  have hfuel : h₁.size < h.size + i₁ := by omega
  obtain ⟨h₂, i₂, hrun₂, hsize₂, hh₂, hup₂, hdown⟩ := hh₁.moveDown hup hfuel
  unfold basicEtAdjust
  rw [hrun₁]
  dsimp only
  rw [hrun₂]
  exact ⟨hh₂.fill hup₂ hdown, hsize₂.trans hsize₁⟩

end EtHeap.HasHole

namespace EtHeap.Holds

omit [DecidableEq ι] in
/-- **The first timer wakes up first.** -/
theorem root_le (hh : h.Holds w S) (het : et ∈ S) : 0 < h.size ∧ w (h.heap 1) ≤ w et := by
  obtain ⟨hle, hback⟩ := hh.back et het
  have hpos := Nat.pos_of_ne_zero ((hh.mem et).1 het)
  have hroot := hh.ordered.root_le hpos hle
  rw [comp_apply, comp_apply, hback] at hroot
  exact ⟨hpos.trans_le hle, hroot⟩

omit [DecidableEq ι] in
/-- The place of a timer whose wake-up time may have changed. -/
theorem hole (hh : h.Holds w S) (hw : ∀ x ≠ et, w' x = w x) (het : et ∈ S) :
    h.HasHole w' (S \ {et}) et (h.hIdx et) := by
  obtain ⟨hidx, hmem, hback, hord⟩ := hh
  refine ⟨?_, ?_, ?_, ?_, ?_, (hord.but _).congr ?_ ?_⟩ <;> grind

/-- **`insert_event_timer`** puts the timer into the heap, at its new time. -/
theorem insertEventTimer (hh : h.Holds w S) (hw : ∀ x ≠ et, w' x = w x)
    (hroom : h.size + 1 < maxEventTimers) :
    ∃ h', Net.insertEventTimer w' h et = some h' ∧ h'.Holds w' (insert et S) := by
  unfold Net.insertEventTimer
  dsimp only
  by_cases het : et ∈ S
  · have hheld := (hh.hole hw het).adjust.1
    rw [if_pos ((hh.mem et).1 het), if_pos (hh.back et het)]
    rw [Set.insert_sdiff_singleton] at hheld
    exact ⟨_, rfl, hheld⟩
  · obtain ⟨hidx, hmem, hback, hord⟩ := hh
    rw [if_neg (by grind), if_pos hroom]
    refine ⟨_, rfl, (HasHole.adjust ⟨?_, le_rfl, ?_, ?_, ?_, hord.succ.congr ?_ ?_⟩).1⟩ <;> grind

/-- **`remove_event_timer`** takes the timer out. -/
theorem removeEventTimer (hh : h.Holds w S) (hw : ∀ x ≠ et, w' x = w x) :
    ∃ h', Net.removeEventTimer w' h et = some h' ∧ h'.Holds w' (S \ {et}) ∧
      (et ∈ S → h'.size + 1 = h.size) := by
  unfold Net.removeEventTimer
  dsimp only
  by_cases het : et ∈ S
  · have hhole := hh.hole hw het
    obtain ⟨hpos, hle⟩ := And.intro hhole.pos hhole.le
    rw [if_neg ((hh.mem et).1 het), if_pos (hh.back et het)]
    split_ifs with hlast
    · have heq : h.hIdx et = h.size := by omega
      exact ⟨_, rfl, (heq ▸ hhole).dropLast, fun _ => by dsimp only; omega⟩
    · obtain ⟨hidx, hne⟩ := hhole.idx h.size (by omega) le_rfl (by omega)
      have hin : h.heap h.size ∈ S \ {et} := (hhole.mem _).2 ⟨hne, by omega⟩
      obtain ⟨hheld, hsize⟩ := (hhole.takeLast (by omega)).adjust
      rw [Set.insert_sdiff_singleton, Set.insert_eq_of_mem hin] at hheld
      exact ⟨_, rfl, hheld, fun _ => by dsimp only at hsize; omega⟩
  · obtain ⟨hidx, hmem, hback, hord⟩ := hh
    rw [if_pos (by grind), Set.sdiff_singleton_eq_self het]
    refine ⟨h, rfl, ⟨hidx, hmem, hback, hord.congr fun p hp hn => ?_⟩, fun h => absurd h het⟩
    have := hidx p hp hn
    grind

end EtHeap.Holds

end Mtbolt.Net
