import Mathlib.Tactic

/-!
# Tables over a heap

The cells of a heap are empty or filled, and a table has the filled ones under the keys of what is in
them.  A table follows its heap when a cell is filled, is emptied, or is filled anew under the key it
has.

* `Indexes`: the table has the filled cells under their keys;
* `Indexes.insert`, `Indexes.delete`, `Indexes.set`: the three changes.
-/

namespace Indexed

open Function

variable {α β γ : Type*} {cell : α → Option β} {key : β → γ} {M M' : γ → α → Prop}
  {R : β → β → Prop} {a b : α} {x y : β}

/-- The table, in which `M k a` says that the cell `a` is under the key `k`, has the filled cells. -/
def Indexes (cell : α → Option β) (key : β → γ) (M : γ → α → Prop) : Prop :=
  ∀ k a, M k a ↔ ∃ x, cell a = some x ∧ key x = k

theorem ne_of_empty (ha : cell a = none) (hb : cell b = some y) : b ≠ a := by
  rintro rfl
  rw [ha] at hb
  cases hb

variable [DecidableEq α]

theorem update_none_eq_some : update cell a none b = some x ↔ b ≠ a ∧ cell b = some x := by
  by_cases hb : b = a
  · subst hb
    simp
  · simp [hb]

theorem update_some_eq_some :
    update cell a (some x) b = some y ↔ (b = a ∧ x = y) ∨ (b ≠ a ∧ cell b = some y) := by
  by_cases hb : b = a
  · subst hb
    simp
  · simp [hb]

theorem exists_after (hx : cell a = some x) (hR : R x y) (hrefl : ∀ z, R z z) {w : β}
    (hw : cell b = some w) : ∃ z, update cell a (some y) b = some z ∧ R w z := by
  by_cases hb : b = a
  · subst hb
    rw [hx] at hw
    cases hw
    exact ⟨y, update_self .., hR⟩
  · exact ⟨w, by rw [update_of_ne hb, hw], hrefl w⟩

theorem exists_before (hx : cell a = some x) (hR : R x y) (hrefl : ∀ z, R z z) {z : β}
    (hz : update cell a (some y) b = some z) : ∃ w, cell b = some w ∧ R w z := by
  rcases update_some_eq_some.1 hz with ⟨rfl, rfl⟩ | ⟨-, hz⟩
  · exact ⟨x, hx, hR⟩
  · exact ⟨z, hz, hrefl z⟩

theorem Indexes.insert (h : Indexes cell key M) (ha : cell a = none)
    (hself : ∀ b, M' (key x) b ↔ b = a ∨ M (key x) b)
    (hother : ∀ k ≠ key x, ∀ b, M' k b ↔ M k b) : Indexes (update cell a (some x)) key M' := by
  intro k b
  have hmem : M' k b ↔ (b = a ∧ key x = k) ∨ M k b := by
    by_cases hk : k = key x
    · simp [hk, hself]
    · simp [hother k hk, Ne.symm hk]
  simp only [hmem, update_some_eq_some, h k b]
  constructor
  · rintro (⟨rfl, hk⟩ | ⟨y, hy, hk⟩)
    · exact ⟨x, .inl ⟨rfl, rfl⟩, hk⟩
    · exact ⟨y, .inr ⟨ne_of_empty ha hy, hy⟩, hk⟩
  · rintro ⟨y, ⟨rfl, rfl⟩ | ⟨-, hy⟩, hk⟩
    · exact .inl ⟨rfl, hk⟩
    · exact .inr ⟨y, hy, hk⟩

theorem Indexes.delete (h : Indexes cell key M) (hx : cell a = some x)
    (hself : ∀ b, M' (key x) b ↔ b ≠ a ∧ M (key x) b)
    (hother : ∀ k ≠ key x, ∀ b, M' k b ↔ M k b) : Indexes (update cell a none) key M' := by
  intro k b
  have hmem : M' k b ↔ b ≠ a ∧ M k b := by
    by_cases hk : k = key x
    · rw [hk, hself]
    · rw [hother k hk]
      refine ⟨fun hb => ⟨?_, hb⟩, And.right⟩
      rintro rfl
      obtain ⟨y, hy, hkey⟩ := (h k b).1 hb
      rw [hx] at hy
      cases hy
      exact hk hkey.symm
  simp only [hmem, update_none_eq_some, h k b]
  exact ⟨fun ⟨hb, y, hy, hk⟩ => ⟨y, ⟨hb, hy⟩, hk⟩, fun ⟨y, ⟨hb, hy⟩, hk⟩ => ⟨hb, y, hy, hk⟩⟩

theorem Indexes.set (h : Indexes cell key M) (hx : cell a = some x) (hkey : key x = key y) :
    Indexes (update cell a (some y)) key M := by
  intro k b
  rw [h k b]
  constructor
  · rintro ⟨w, hw, rfl⟩
    obtain ⟨z, hz, hwz⟩ := exists_after (R := fun w z => key w = key z) hx hkey (fun _ => rfl) hw
    exact ⟨z, hz, hwz.symm⟩
  · rintro ⟨z, hz, rfl⟩
    exact exists_before (R := fun w z => key w = key z) hx hkey (fun _ => rfl) hz

end Indexed
