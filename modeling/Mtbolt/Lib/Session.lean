import Mathlib.Logic.Relation

/-!
# Sessions with a handshake of two packets

A session begins with a packet that fixes its keys and goes on with one that confirms them; from
then on it carries other packets.  Which packets are accepted is a parameter.

* `Stage`: how far a session is, and the packets it has taken;
* `Step`, `Reachable`: what can happen to a session;
* `Reachable.accepted`: the packets of a session were accepted, each in its place.
-/

namespace Session

variable {π κ : Type*}

/-- Which packets are accepted: the one that fixes the keys, the one that confirms them, and those
after it. -/
structure Rules (π κ : Type*) where
  keyed : π → κ → Prop
  confirmed : π → κ → Prop
  carried : π → Prop

/-- How far a session is. -/
inductive Stage (π κ : Type*)
  | waiting
  | keyed (first : π) (keys : κ)
  | running (first second : π) (rest : List π) (keys : κ)

/-- The packets of a session. -/
def Stage.log : Stage π κ → List π
  | .waiting => []
  | .keyed first _ => [first]
  | .running first second rest _ => first :: second :: rest

/-- The keys of a session. -/
def Stage.keys : Stage π κ → Option κ
  | .waiting => none
  | .keyed _ keys => some keys
  | .running _ _ _ keys => some keys

inductive Step (R : Rules π κ) : Stage π κ → Stage π κ → Prop
  | key {p : π} {keys : κ} (h : R.keyed p keys) : Step R .waiting (.keyed p keys)
  | confirm {first p : π} {keys : κ} (h : R.confirmed p keys) :
      Step R (.keyed first keys) (.running first p [] keys)
  | carry {first second p : π} {rest : List π} {keys : κ} (h : R.carried p) :
      Step R (.running first second rest keys) (.running first second (rest ++ [p]) keys)

/-- The stages of a session. -/
def Reachable (R : Rules π κ) (s : Stage π κ) : Prop := Relation.ReflTransGen (Step R) .waiting s

/-- The packets of a stage are accepted. -/
def Stage.Accepted (R : Rules π κ) : Stage π κ → Prop
  | .waiting => True
  | .keyed first keys => R.keyed first keys
  | .running first second rest keys =>
    R.keyed first keys ∧ R.confirmed second keys ∧ ∀ p ∈ rest, R.carried p

variable {R : Rules π κ} {s s' : Stage π κ}

theorem Step.accepted (h : Step R s s') (hs : s.Accepted R) : s'.Accepted R := by
  cases h with
  | key hp => exact hp
  | confirm hp => exact ⟨hs, hp, fun p h => absurd h List.not_mem_nil⟩
  | carry hp =>
    refine ⟨hs.1, hs.2.1, fun p hmem => ?_⟩
    rcases List.mem_append.1 hmem with hmem | hmem
    · exact hs.2.2 p hmem
    · rw [List.mem_singleton.1 hmem]
      exact hp

/-- **The packets of a session** were accepted, each in its place. -/
theorem Reachable.accepted (h : Reachable R s) : s.Accepted R := by
  induction h with
  | refl => trivial
  | tail _ hstep ih => exact hstep.accepted ih

theorem Step.log (h : Step R s s') : ∃ p, s'.log = s.log ++ [p] ∧
    ((∃ keys, R.keyed p keys) ∨ (∃ keys, R.confirmed p keys) ∨
      ∃ first second rest keys, s = .running first second rest keys) := by
  cases h with
  | @key p keys hp => exact ⟨p, rfl, .inl ⟨keys, hp⟩⟩
  | @confirm first p keys hp => exact ⟨p, rfl, .inr (.inl ⟨keys, hp⟩)⟩
  | @carry first second p rest keys hp =>
    exact ⟨p, rfl, .inr (.inr ⟨first, second, rest, keys, rfl⟩)⟩

end Session
