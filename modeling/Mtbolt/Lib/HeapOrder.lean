import Mathlib.Tactic

/-!
# Binary heaps with a hole

The positions of a heap are `1`, …, `n`, and `p / 2` is the parent of `p`.  The place of a value
that is still to be put in is a hole.  It goes up or down, and what stood there takes its place,
until the value fits in.
-/

namespace HeapOrder

open Function

variable {α : Type*} [LinearOrder α] {m n i j p : ℕ} {f g : ℕ → α} {x : α}

/-- No value is less than its parent's. -/
def Ordered (n : ℕ) (f : ℕ → α) : Prop := ∀ p, 2 ≤ p → p ≤ n → f (p / 2) ≤ f p

/-- The heap is in order but for the hole at `i`, whose own value does not matter. -/
structure OrderedBut (n i : ℕ) (f : ℕ → α) : Prop where
  off : ∀ p, 2 ≤ p → p ≤ n → p ≠ i → p / 2 ≠ i → f (p / 2) ≤ f p
  across : 2 ≤ i → ∀ p, p ≤ n → p / 2 = i → f (i / 2) ≤ f p

/-- **The first value is the least.** -/
theorem Ordered.root_le (h : Ordered n f) (hp : 1 ≤ p) (hn : p ≤ n) : f 1 ≤ f p := by
  induction p using Nat.strong_induction_on with
  | _ p ih =>
    obtain rfl | hlt := hp.eq_or_lt
    · exact le_rfl
    · exact (ih (p / 2) (by omega) (by omega) (by omega)).trans (h p hlt hn)

theorem Ordered.congr (h : Ordered n f) (hfg : ∀ p, 1 ≤ p → p ≤ n → f p = g p) : Ordered n g := by
  intro p hp hn
  have := h p hp hn
  grind

theorem Ordered.but (h : Ordered n f) (i : ℕ) : OrderedBut n i f where
  off p hp hn _ _ := h p hp hn
  across hi p hn hpi := (h i hi (by omega)).trans (hpi ▸ h p (by omega) hn)

theorem Ordered.succ (h : Ordered n f) : OrderedBut (n + 1) (n + 1) f where
  off p hp hn hne _ := h p hp (by omega)
  across _ p hn hp := by omega

theorem OrderedBut.mono (h : OrderedBut n i f) (hm : m ≤ n) : OrderedBut m i f where
  off p hp hpm := h.off p hp (hpm.trans hm)
  across hi p hpm := h.across hi p (hpm.trans hm)

theorem OrderedBut.congr (h : OrderedBut n i f) (_ : 1 ≤ i)
    (hfg : ∀ p, 1 ≤ p → p ≤ n → p ≠ i → f p = g p) : OrderedBut n i g where
  off p hp hn hpi hpi' := by
    have := h.off p hp hn hpi hpi'
    grind
  across hi p hn hp := by
    have := h.across hi p hn hp
    grind

/-- **The hole goes up.** -/
theorem OrderedBut.up (h : OrderedBut n i f) (hi : 2 ≤ i) (hn : i ≤ n) :
    OrderedBut n (i / 2) (update f i (f (i / 2))) where
  off p hp hpn _ _ := by
    have hoff := h.off p hp hpn
    have hchild := h.across hi p hpn
    grind
  across hi' p hpn hp := by
    -- the children of the new hole are the value that came down and its sibling
    have hup := h.off (i / 2) hi'
    have hsibling := h.off p (by omega) hpn
    grind

/-- **The hole goes down**, to a child that is not greater than the other one. -/
theorem OrderedBut.down (h : OrderedBut n i f) (_ : 1 ≤ i) (hj : j / 2 = i) (hn : j ≤ n)
    (hmin : ∀ p, p ≤ n → p / 2 = i → f j ≤ f p) : OrderedBut n j (update f i (f j)) where
  off p hp hpn _ _ := by
    have hoff := h.off p hp hpn
    have hup := h.across
    grind
  across _ p hpn hp := by
    have hoff := h.off p (by omega) hpn
    grind

/-- **The value fits in.** -/
theorem OrderedBut.fill (h : OrderedBut n i f) (_ : 1 ≤ i) (habove : 2 ≤ i → f (i / 2) ≤ x)
    (hbelow : ∀ p, p ≤ n → p / 2 = i → x ≤ f p) : Ordered n (update f i x) := by
  intro p hp hn
  have hoff := h.off p hp hn
  grind

end HeapOrder
