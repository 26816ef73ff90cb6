import Mathlib.Tactic

/-!
# Counting with a Bloom filter

Every key has some bits.  A key is counted when one of its bits was not set yet, and all of them are
set then.  Keys may share bits, so the count can be below the number of distinct keys, but a key whose
bits are set is not counted again.
-/

namespace BloomFilter

open Function

variable {α β : Type*} [DecidableEq β] {bits : β → Bool} {l : List β}

/-- Set the bits of the list one by one; whether one of them was not set. -/
def testAndSet (bits : β → Bool) (l : List β) : Bool × (β → Bool) :=
  l.foldl (fun r b => if !r.2 b then (true, update r.2 b true) else r) (false, bits)

theorem testAndSet_snd (b : β) (h : bits b = true ∨ b ∈ l) : (testAndSet bits l).2 b = true := by
  unfold testAndSet
  generalize false = novel
  induction l generalizing bits novel with
  | nil => exact h.resolve_right List.not_mem_nil
  | cons b' l ih =>
    rw [List.foldl_cons]
    split_ifs with hset
    · refine ih ?_ true
      by_cases hb : b = b'
      · rw [hb, update_self]
        exact .inl rfl
      · rw [update_of_ne hb]
        exact h.imp_right fun hmem => (List.mem_cons.1 hmem).resolve_left hb
    · refine ih (h.elim .inl fun hmem => ?_) novel
      exact (List.mem_cons.1 hmem).imp_left fun hb => by simpa [hb] using hset

theorem testAndSet_of_set (h : ∀ b ∈ l, bits b = true) : testAndSet bits l = (false, bits) := by
  unfold testAndSet
  induction l with
  | nil => rfl
  | cons b l ih =>
    obtain ⟨hb, hl⟩ := List.forall_mem_cons.1 h
    rw [List.foldl_cons, if_neg (by simp [hb])]
    exact ih hl

variable [DecidableEq α] {hashes : α → List β} {seen : Finset α} {count : ℤ}

/-- The bits of all keys seen are set, and the count is not above their number. -/
structure Counts (hashes : α → List β) (bits : β → Bool) (seen : Finset α) (count : ℤ) : Prop where
  set : ∀ a ∈ seen, ∀ b ∈ hashes a, bits b = true
  le : count ≤ seen.card

omit [DecidableEq β] [DecidableEq α] in
theorem counts_empty : Counts hashes (fun _ => false) ∅ 0 :=
  ⟨fun a ha => absurd ha (Finset.notMem_empty a), le_refl _⟩

/-- **One key**, seen before or not. -/
theorem Counts.insert (h : Counts hashes bits seen count) (a : α) :
    Counts hashes (testAndSet bits (hashes a)).2 (insert a seen)
      (if (testAndSet bits (hashes a)).1 then count + 1 else count) := by
  refine ⟨fun a' ha' b hb => ?_, ?_⟩
  · refine testAndSet_snd b ((Finset.mem_insert.1 ha').symm.imp (fun hs => h.set a' hs b hb) ?_)
    rintro rfl
    exact hb
  · have hle := h.le
    by_cases ha : a ∈ seen
    · rw [testAndSet_of_set (h.set a ha), Finset.insert_eq_of_mem ha]
      exact hle
    · rw [Finset.card_insert_of_notMem ha]
      split_ifs <;> push_cast <;> omega

end BloomFilter
