import Mathlib.Tactic

/-!
# Runs of event-driven machines

A machine is a partial function `step s e`: `none` means that the event `e` cannot be taken
in the state `s` (it is not enabled, or taking it stops the machine).  All nondeterminism is
in the events, so that a run is a function of the event list and can be evaluated.

* `run`: the state after a list of events;
* `decidableExistsRun`: the end of a run can be evaluated;
* `Along ok`: every event of the list is taken in a state that meets the side condition `ok`;
* `run_invariant`: an invariant kept by every step that meets `ok` holds after every run that
  does;
* `run_progress`: the same for steps that are also defined;
* `run_rel`: a relation between two machines that take the same events;
* `translate`, `run_translate`: a machine whose steps are runs of another one;
* `run_isSome_iff_along`: when `ok` is exactly the condition under which a step is defined, a
  run is defined iff it goes along `ok`;
* `forall_run_iff_along`: when `ok` is exactly the condition under which a step keeps an invariant, all
  states of a run have it iff the run goes along `ok`;
* `familyStep`, `run_familyStep_iff`: independent copies of a machine, each of which runs along
  its own events.
-/

namespace EventRun

open Function Option

variable {σ ε : Type*} {step : σ → ε → Option σ} {ok : σ → ε → Prop}

/-- The state after a list of events, `none` once one of them cannot be taken. -/
def run (step : σ → ε → Option σ) : σ → List ε → Option σ
  | s, [] => some s
  | s, e :: es => (step s e).bind fun s' => run step s' es

@[simp] theorem run_nil (s : σ) : run step s [] = some s := rfl

theorem run_cons (s : σ) (e : ε) (es : List ε) :
    run step s (e :: es) = (step s e).bind fun s' => run step s' es := rfl

variable {s s' : σ} {es : List ε} {I : σ → Prop}

theorem run_cons_of_eq {e : ε} (es : List ε) (h : step s e = some s') :
    run step s (e :: es) = run step s' es := by
  rw [run_cons, h]; rfl

theorem run_append (s : σ) (es fs : List ε) :
    run step s (es ++ fs) = (run step s es).bind fun s' => run step s' fs := by
  induction es generalizing s with
  | nil => rfl
  | cons e es ih =>
    rw [List.cons_append, run_cons, run_cons]
    cases step s e with
    | none => rfl
    | some s' => exact ih s'

/-- Whether a run ends in a state with a given property can be evaluated. -/
instance decidableExistsRun {P : σ → Prop} [DecidablePred P] (s : σ) (es : List ε) :
    Decidable (∃ s', run step s es = some s' ∧ P s') :=
  decidable_of_iff ((run step s es).any (fun s' => decide (P s')) = true) (by
    simp only [any_eq_true, decide_eq_true_eq])

/-- Every event of the run from `s` along `es` is taken in a state that meets `ok`. -/
def Along (step : σ → ε → Option σ) (ok : σ → ε → Prop) : σ → List ε → Prop
  | _, [] => True
  | s, e :: es => ok s e ∧ ∀ s', step s e = some s' → Along step ok s' es

theorem Along.tail {e : ε} (h : Along step ok s (e :: es)) (hs : step s e = some s') :
    Along step ok s' es := h.2 s' hs

theorem Along.of_append {fs : List ε} (h : Along step ok s (es ++ fs)) :
    Along step ok s es ∧ ∀ s', run step s es = some s' → Along step ok s' fs := by
  induction es generalizing s with
  | nil => exact ⟨trivial, fun s' hs => some.inj hs ▸ h⟩
  | cons e es ih =>
    refine ⟨⟨h.1, fun t ht => (ih (h.tail ht)).1⟩, fun s' hs => ?_⟩
    obtain ⟨t, ht, hrest⟩ := bind_eq_some_iff.1 hs
    exact (ih (h.tail ht)).2 s' hrest

theorem Along.imp {ok' : σ → ε → Prop} (himp : ∀ s, ∀ e ∈ es, ok s e → ok' s e)
    (h : Along step ok s es) : Along step ok' s es := by
  induction es generalizing s with
  | nil => trivial
  | cons e es ih =>
    refine ⟨himp s e List.mem_cons_self h.1, fun s' hs => ih (fun t e' he' => ?_) (h.tail hs)⟩
    exact himp t e' (List.mem_cons_of_mem _ he')

instance Along.decidable [∀ s e, Decidable (ok s e)] :
    ∀ (s : σ) (es : List ε), Decidable (Along step ok s es)
  | _, [] => isTrue trivial
  | s, e :: es =>
    match hs : step s e with
    | none => decidable_of_iff (ok s e) ⟨fun h => ⟨h, by simp [hs]⟩, fun h => h.1⟩
    | some s' =>
      have := Along.decidable s' es
      decidable_of_iff (ok s e ∧ Along step ok s' es)
        ⟨fun h => ⟨h.1, fun t ht => by cases hs.symm.trans ht; exact h.2⟩,
          fun h => ⟨h.1, h.2 s' hs⟩⟩

/-- **The invariant rule.** What every step that meets `ok` keeps, holds after every run whose
steps all meet `ok`. -/
theorem run_invariant (hstep : ∀ s e s', I s → ok s e → step s e = some s' → I s') (h0 : I s)
    (hok : Along step ok s es) (hrun : run step s es = some s') : I s' := by
  induction es generalizing s with
  | nil => cases hrun; exact h0
  | cons e es ih =>
    obtain ⟨t, ht, hrest⟩ := bind_eq_some_iff.1 hrun
    exact ih (hstep s e t h0 hok.1 ht) (hok.tail ht) hrest

/-- **The relational rule.** What the steps of two machines on the same event keep between them,
holds after runs of both along the same events. -/
theorem run_rel {τ : Type*} {step' : τ → ε → Option τ} {R : σ → τ → Prop}
    (hstep : ∀ s t e s' t', R s t → ok s e → step s e = some s' → step' t e = some t' → R s' t')
    {t t' : τ} (h0 : R s t) (hok : Along step ok s es) (hs : run step s es = some s')
    (ht : run step' t es = some t') : R s' t' := by
  induction es generalizing s t with
  | nil =>
    cases hs
    cases ht
    exact h0
  | cons e es ih =>
    obtain ⟨s₁, hs₁, hs⟩ := bind_eq_some_iff.1 hs
    obtain ⟨t₁, ht₁, ht⟩ := bind_eq_some_iff.1 ht
    exact ih (hstep s t e s₁ t₁ h0 hok.1 hs₁ ht₁) (hok.tail hs₁) hs ht

/-- **The progress rule.** When every step from an `I`-state that meets `ok` is defined and leads
to an `I`-state, so is every run whose steps all meet `ok`. -/
theorem run_progress (hstep : ∀ s e, I s → ok s e → ∃ s', step s e = some s' ∧ I s') (h0 : I s)
    (hok : Along step ok s es) : ∃ s', run step s es = some s' ∧ I s' := by
  induction es generalizing s with
  | nil => exact ⟨s, rfl, h0⟩
  | cons e es ih =>
    obtain ⟨t, ht, hI⟩ := hstep s e h0 hok.1
    rw [run_cons_of_eq es ht]
    exact ih hI (hok.tail ht)

/-- The events of another machine that a run stands for, when the event `e` in the state `s` stands
for `f s e`. -/
def translate {ζ : Type*} (step : σ → ε → Option σ) (f : σ → ε → List ζ) : σ → List ε → List ζ
  | _, [] => []
  | s, e :: es => f s e ++ (step s e).elim [] fun s' => translate step f s' es

/-- **The refinement rule.** When every step from an `I`-state is a run of the other machine along
the events it stands for, so is every run. -/
theorem run_translate {τ ζ : Type*} {step' : τ → ζ → Option τ} {f : σ → ε → List ζ} {a : σ → τ}
    (hstep : ∀ s e s', I s → step s e = some s' → I s' ∧ run step' (a s) (f s e) = some (a s'))
    (h0 : I s) (hrun : run step s es = some s') :
    I s' ∧ run step' (a s) (translate step f s es) = some (a s') := by
  induction es generalizing s with
  | nil =>
    cases hrun
    exact ⟨h0, rfl⟩
  | cons e es ih =>
    obtain ⟨t, ht, hrest⟩ := bind_eq_some_iff.1 hrun
    obtain ⟨hI, hfirst⟩ := hstep s e t h0 ht
    rw [translate, run_append, hfirst, ht]
    exact ih hI hrest

theorem along_true (s : σ) (es : List ε) : Along step (fun _ _ => True) s es := by
  induction es generalizing s with
  | nil => trivial
  | cons e es ih => exact ⟨trivial, fun s' _ => ih s'⟩

/-- When `ok` is exactly the condition under which a step from an `I`-state is defined, a run
from an `I`-state is defined iff it goes along `ok`. -/
theorem run_isSome_iff_along (hdef : ∀ s e, I s → ((step s e).isSome ↔ ok s e))
    (hstep : ∀ s e s', I s → step s e = some s' → I s') (es : List ε) (h0 : I s) :
    (run step s es).isSome ↔ Along step ok s es := by
  induction es generalizing s with
  | nil => simp [Along]
  | cons e es ih =>
    rw [run_cons, Along, ← hdef s e h0]
    cases hs : step s e with
    | none => simp
    | some t => simpa using ih (hstep s e t h0 hs)

/-- When `ok` is exactly the condition under which a step keeps `I`, all states of a run have `I` iff
the first has it and the run goes along `ok`. -/
theorem forall_run_iff_along (hstep : ∀ s e, I s → ((∀ s', step s e = some s' → I s') ↔ ok s e)) :
    (∀ fs, fs <+: es → ∀ s', run step s fs = some s' → I s') ↔ I s ∧ Along step ok s es := by
  induction es generalizing s with
  | nil =>
    simp only [List.prefix_nil, forall_eq, Along, and_true]
    exact ⟨fun h => h s rfl, fun h s' hs' => some.inj hs' ▸ h⟩
  | cons e es ih =>
    constructor
    · intro h
      have h0 : I s := h [] (List.nil_prefix) s rfl
      -- the runs from the next state are the rest of runs from this one
      have htail : ∀ s', step s e = some s' → I s' ∧ Along step ok s' es := by
        intro s' hs'
        refine ih.1 fun fs hfs s'' hrun => h (e :: fs) ((List.prefix_cons_inj e).2 hfs) s'' ?_
        rw [run_cons_of_eq fs hs']
        exact hrun
      exact ⟨h0, (hstep s e h0).1 fun s' hs' => (htail s' hs').1, fun s' hs' => (htail s' hs').2⟩
    · rintro ⟨h0, hok⟩ fs hfs s' hrun
      cases fs with
      | nil => exact some.inj hrun ▸ h0
      | cons e' fs =>
        obtain ⟨rfl, hrestfs⟩ := List.cons_prefix_cons.1 hfs
        obtain ⟨s₁, hs₁, hrest⟩ := bind_eq_some_iff.1 hrun
        have h1 : I s₁ := (hstep s e' h0).2 hok.1 s₁ hs₁
        exact ih.2 ⟨h1, hok.tail hs₁⟩ fs hrestfs s' hrest

/-! ### Families -/

section Family

variable {ι : Type*} [DecidableEq ι]

/-- Independent copies of a machine; an event goes to one of them. -/
def familyStep (step : σ → ε → Option σ) (ws : ι → σ) (ke : ι × ε) : Option (ι → σ) :=
  (step (ws ke.1) ke.2).map (update ws ke.1)

/-- The events that go to the copy `k`. -/
def eventsOf (k : ι) (kes : List (ι × ε)) : List ε :=
  kes.filterMap fun ke => if ke.1 = k then some ke.2 else none

theorem eventsOf_cons_self (k : ι) (e : ε) (kes : List (ι × ε)) :
    eventsOf k ((k, e) :: kes) = e :: eventsOf k kes := List.filterMap_cons_some (if_pos rfl)

theorem eventsOf_cons_of_ne {j k : ι} (h : j ≠ k) (e : ε) (kes : List (ι × ε)) :
    eventsOf k ((j, e) :: kes) = eventsOf k kes := List.filterMap_cons_none (if_neg h)

theorem eventsOf_append (k : ι) (kes kes' : List (ι × ε)) :
    eventsOf k (kes ++ kes') = eventsOf k kes ++ eventsOf k kes' := List.filterMap_append

/-- **The copies are independent**: a run of the family is a run of every copy along its own
events. -/
theorem run_familyStep_iff {ws ws' : ι → σ} {kes : List (ι × ε)} :
    run (familyStep step) ws kes = some ws' ↔
      ∀ k, run step (ws k) (eventsOf k kes) = some (ws' k) := by
  induction kes generalizing ws with
  | nil => simp [eventsOf, funext_iff]
  | cons ke kes ih =>
    obtain ⟨j, e⟩ := ke
    have hne {k : ι} (h : k ≠ j) (t : σ) :
        run step (update ws j t k) (eventsOf k kes) =
          run step (ws k) (eventsOf k ((j, e) :: kes)) := by
      rw [update_of_ne h, eventsOf_cons_of_ne h.symm]
    rw [run_cons, familyStep, bind_map]
    constructor
    · intro h k
      obtain ⟨t, ht, hrest⟩ := bind_eq_some_iff.1 h
      have hk := ih.1 hrest k
      by_cases hkj : k = j
      · subst hkj
        rw [update_self] at hk
        rw [eventsOf_cons_self, run_cons_of_eq _ ht, hk]
      · rwa [hne hkj] at hk
    · intro h
      have hj := h j
      rw [eventsOf_cons_self] at hj
      obtain ⟨t, ht, hrest⟩ := bind_eq_some_iff.1 hj
      refine bind_eq_some_iff.2 ⟨t, ht, ih.2 fun k => ?_⟩
      by_cases hkj : k = j
      · subst hkj
        rwa [update_self]
      · rw [hne hkj]
        exact h k

/-- The copies' events can be put in one list. -/
theorem exists_eventsOf_eq [Fintype ι] (es : ι → List ε) : ∃ kes, ∀ k, eventsOf k kes = es k := by
  have hmap (j k : ι) (l : List ε) : eventsOf k (l.map (j, ·)) = if j = k then l else [] := by
    unfold eventsOf
    split_ifs with h <;> simp [List.filterMap_map, h]
  refine ⟨Finset.univ.toList.flatMap fun j => (es j).map (j, ·), fun k => ?_⟩
  have hflat (l : List ι) (hl : l.Nodup) :
      eventsOf k (l.flatMap fun j => (es j).map (j, ·)) = if k ∈ l then es k else [] := by
    induction l with
    | nil => rfl
    | cons j l ih =>
      rw [List.flatMap_cons, eventsOf_append, hmap, ih hl.of_cons]
      by_cases hjk : j = k
      · subst hjk
        simp [List.nodup_cons.1 hl]
      · simp [hjk, Ne.symm hjk]
  rw [hflat _ (Finset.nodup_toList _), if_pos (by simp)]

end Family

end EventRun
