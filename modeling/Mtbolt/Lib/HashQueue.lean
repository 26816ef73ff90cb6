import Mathlib.Tactic

/-!
# Queues threaded through hash chains

Entries are kept twice: in one queue, oldest first, and in the chain of their hash value, newest
first.  Taking the oldest entry off both structures is cheap because it ends its chain; this file
proves that it does.

* `Linked`: each chain is the reversed part of the queue with its hash;
* `linked_push`, `linked_pop`: both operations keep this;
* `unlink_head`: the oldest entry can always be cut off its chain.
-/

variable {α ι : Type*} [DecidableEq ι] {hash : α → ι}

/-- A queue, oldest entry first, and the chains, newest entry first. -/
structure HashQueue (α ι : Type*) where
  queue : List α
  chain : ι → List α

namespace HashQueue

open Function List

def empty : HashQueue α ι := ⟨[], fun _ => []⟩

/-- Append an entry to the queue and put it in front of its chain. -/
def push (hash : α → ι) (q : HashQueue α ι) (a : α) : HashQueue α ι where
  queue := q.queue ++ [a]
  chain := update q.chain (hash a) (a :: q.chain (hash a))

/-- Cut the chain before `a`.  Defined only if `a` is in the chain and has no successor there. -/
def unlink [DecidableEq α] (a : α) (chain : List α) : Option (List α) :=
  match chain.dropWhile (· ≠ a) with
  | [_] => some (chain.takeWhile (· ≠ a))
  | _ => none

/-- Each chain holds the entries of the queue with its hash, in the opposite order. -/
def Linked (hash : α → ι) (q : HashQueue α ι) : Prop :=
  ∀ i, q.chain i = (q.queue.filter (hash · = i)).reverse

theorem linked_empty : Linked hash (empty : HashQueue α ι) := fun _ => rfl

variable {q : HashQueue α ι} {a : α}

theorem mem_chain_iff (hq : Linked hash q) {i : ι} : a ∈ q.chain i ↔ a ∈ q.queue ∧ hash a = i := by
  rw [hq i]
  simp

theorem linked_push (hq : Linked hash q) (a : α) : Linked hash (q.push hash a) := by
  intro i
  rw [push]
  by_cases hi : hash a = i
  · subst hi
    simp [hq (hash a)]
  · have hne : i ≠ hash a := fun h => hi h.symm
    simp [update_of_ne hne, hq i, hi]

theorem unlink_append_singleton [DecidableEq α] {l : List α} (ha : a ∉ l) :
    unlink a (l ++ [a]) = some l := by
  have hall : ∀ b ∈ l, decide (b ≠ a) = true := fun b hb => by
    simpa using ne_of_mem_of_not_mem hb ha
  rw [unlink, dropWhile_append_of_pos hall, takeWhile_append_of_pos hall]
  simp

theorem unlink_head [DecidableEq α] (hq : Linked hash q) {rest : List α}
    (hcons : q.queue = a :: rest) (hnd : q.queue.Nodup) :
    unlink a (q.chain (hash a)) = some ((rest.filter (hash · = hash a)).reverse) := by
  rw [hcons, nodup_cons] at hnd
  have hchain : q.chain (hash a) = (rest.filter (hash · = hash a)).reverse ++ [a] := by
    rw [hq (hash a), hcons]
    simp
  rw [hchain]
  refine unlink_append_singleton fun h => hnd.1 ?_
  rw [mem_reverse] at h
  exact mem_of_mem_filter h

theorem linked_pop (hq : Linked hash q) {rest : List α} (hcons : q.queue = a :: rest) :
    Linked hash ⟨rest, update q.chain (hash a) (rest.filter (hash · = hash a)).reverse⟩ := by
  intro i
  by_cases hi : hash a = i
  · subst hi
    simp
  · have hne : i ≠ hash a := fun h => hi h.symm
    simp only [update_of_ne hne, hq i, hcons]
    simp [hi]

end HashQueue
