import Mathlib.Tactic

/-!
# Totals over a growing family

The objects made so far are `f 0 .. f (n - 1)`; a total adds up a weight of each of them.  The two
ways such a family changes are a change of one member and a new member.
-/

namespace Tally

open Function Finset

variable {α : Type*} {wt : α → ℤ} {n i : ℕ} {f : ℕ → α}

/-- The sum of the weights of the first `n` members. -/
def tally (wt : α → ℤ) (n : ℕ) (f : ℕ → α) : ℤ := ∑ i ∈ Finset.range n, wt (f i)

theorem tally_congr {g : ℕ → α} (h : ∀ i < n, wt (g i) = wt (f i)) :
    tally wt n g = tally wt n f :=
  sum_congr rfl fun i hi => h i (mem_range.1 hi)

theorem tally_update (hi : i < n) (a : α) :
    tally wt n (update f i a) = tally wt n f + (wt a - wt (f i)) := by
  have hmem : i ∈ range n := mem_range.2 hi
  have hrest : ∑ j ∈ (range n).erase i, wt (update f i a j) =
      ∑ j ∈ (range n).erase i, wt (f j) := by
    refine sum_congr rfl fun j hj => ?_
    rw [update_of_ne (ne_of_mem_erase hj)]
  rw [tally, tally, ← add_sum_erase _ _ hmem, ← add_sum_erase _ _ hmem, hrest, update_self]
  ring

theorem tally_update_of_eq {a : α} (h : wt a = wt (f i)) :
    tally wt n (update f i a) = tally wt n f := by
  refine tally_congr fun j _ => ?_
  by_cases hj : j = i
  · subst hj
    rw [update_self, h]
  · rw [update_of_ne hj]

theorem tally_succ_update (a : α) : tally wt (n + 1) (update f n a) = tally wt n f + wt a := by
  rw [tally, sum_range_succ, update_self]
  congr 1
  refine sum_congr rfl fun j hj => ?_
  rw [update_of_ne (mem_range.1 hj).ne]

theorem tally_eq_of_le {m : ℕ} (hnm : n ≤ m) (h : ∀ i, n ≤ i → wt (f i) = 0) :
    tally wt m f = tally wt n f := by
  refine (sum_subset (range_mono hnm) fun i _ hi => h i ?_).symm
  simpa using hi

theorem le_tally (hwt : ∀ a, 0 ≤ wt a) (f : ℕ → α) (hi : i < n) : wt (f i) ≤ tally wt n f :=
  single_le_sum (f := fun j => wt (f j)) (fun j _ => hwt (f j)) (mem_range.2 hi)

theorem tally_nonneg (hwt : ∀ a, 0 ≤ wt a) (n : ℕ) (f : ℕ → α) : 0 ≤ tally wt n f :=
  sum_nonneg fun _ _ => hwt _

theorem tally_eq_zero (h : ∀ i < n, wt (f i) = 0) : tally wt n f = 0 :=
  sum_eq_zero fun i hi => h i (mem_range.1 hi)

theorem tally_le (hwt : ∀ a, wt a ≤ 1) (n : ℕ) (f : ℕ → α) : tally wt n f ≤ n := by
  calc tally wt n f ≤ ∑ _i ∈ range n, (1 : ℤ) := sum_le_sum fun _ _ => hwt _
    _ = n := by simp

end Tally
