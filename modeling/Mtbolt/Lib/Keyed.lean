import Mathlib.Tactic

/-!
# Lists whose members have distinct keys

A chained hash table seen from outside: the members in some order, no two with the same key.

* `lookup`, `remove`: the first member with a key, and the list without it;
* `lookup_eq_some_iff`, `mem_remove_iff`: what they are when the keys are distinct;
* `modify`, `nodup_map_modify`: a change of members that leaves a key alone.
-/

namespace Keyed

open List

variable {α β γ : Type*} [DecidableEq β] {key : α → β} {l : List α} {a x : α} {b : β}

/-- The first member with the key `b`. -/
def lookup (key : α → β) (l : List α) (b : β) : Option α := l.find? fun x => key x = b

/-- The list without the first member with the key `b`. -/
def remove (key : α → β) (l : List α) (b : β) : List α := l.eraseP fun x => key x = b

/-- The list with every member with the key `b` changed by `f`. -/
def modify (key : α → β) (f : α → α) (l : List α) (b : β) : List α :=
  l.map fun x => if key x = b then f x else x

theorem lookup_eq_none_iff : lookup key l b = none ↔ ∀ x ∈ l, key x ≠ b := by
  simp [lookup]

theorem mem_of_lookup (h : lookup key l b = some a) : a ∈ l ∧ key a = b :=
  ⟨mem_of_find?_eq_some h, by simpa using List.find?_some h⟩

theorem lookup_eq_some_iff (h : (l.map key).Nodup) :
    lookup key l b = some a ↔ a ∈ l ∧ key a = b := by
  refine ⟨mem_of_lookup, fun ⟨hmem, hkey⟩ => ?_⟩
  cases hfind : lookup key l b with
  | none => exact absurd hkey (lookup_eq_none_iff.1 hfind a hmem)
  | some x =>
    obtain ⟨hx, hxkey⟩ := mem_of_lookup hfind
    rw [inj_on_of_nodup_map h hx hmem (hxkey.trans hkey.symm)]

theorem remove_sublist : (remove key l b).Sublist l := eraseP_sublist

theorem mem_remove_iff (h : (l.map key).Nodup) : x ∈ remove key l b ↔ x ∈ l ∧ key x ≠ b := by
  induction l with
  | nil => simp [remove]
  | cons y l ih =>
    rw [map_cons, nodup_cons] at h
    by_cases hy : key y = b
    · -- the head goes, and no other member has its key
      have hrest : remove key (y :: l) b = l := eraseP_cons_of_pos (by simpa using hy)
      rw [hrest, mem_cons]
      constructor
      · intro hx
        exact ⟨.inr hx, fun hkey => h.1 (mem_map.2 ⟨x, hx, hkey.trans hy.symm⟩)⟩
      · rintro ⟨rfl | hx, hne⟩
        · exact absurd hy hne
        · exact hx
    · have hrest : remove key (y :: l) b = y :: remove key l b :=
        eraseP_cons_of_neg (by simpa using hy)
      rw [hrest, mem_cons, mem_cons, ih h.2]
      constructor
      · rintro (rfl | ⟨hx, hne⟩)
        · exact ⟨.inl rfl, hy⟩
        · exact ⟨.inr hx, hne⟩
      · rintro ⟨rfl | hx, hne⟩
        · exact .inl rfl
        · exact .inr ⟨hx, hne⟩

variable {other : α → γ} {f : α → α}

theorem nodup_map_remove (h : (l.map other).Nodup) : ((remove key l b).map other).Nodup :=
  h.sublist (remove_sublist.map other)

theorem map_modify_of_eq (hf : ∀ x, other (f x) = other x) :
    (modify key f l b).map other = l.map other := by
  rw [modify, map_map]
  apply map_congr_left
  intro x _
  show other (if key x = b then f x else x) = other x
  split_ifs
  · exact hf x
  · rfl

theorem nodup_map_modify (hf : ∀ x, other (f x) = other x) (h : (l.map other).Nodup) :
    ((modify key f l b).map other).Nodup := by
  rwa [map_modify_of_eq hf]

theorem mem_modify_iff : a ∈ modify key f l b ↔ ∃ x ∈ l, (if key x = b then f x else x) = a := by
  simp [modify]

end Keyed
