import Mtbolt.Secrets.Reload

/-!
# What a successful reload establishes

`reload_cases` says what a reload may do to one slot.  This file says what a reload that returns `0`
has done to the whole table: which slot carries which secret of the configuration, with which
settings, and what has become of the others.

An entry with an empty label does not set an empty label: the slot is called `secret_N` then, with
its index (`slotLabel`).
-/

namespace Mtbolt.Secrets

open Function List Nat

/-- The slot without its settings and its state: the key, all counters and the tracked addresses. -/
def Slot.tally (x : Slot) : Slot :=
  { x with label := "", limit := 0, quota := 0, rateLimit := 0, maxIps := 0, expires := 0,
           state := .free }

/-- The keys of the slots in use are pairwise distinct. -/
def SecretTable.Distinct (t : SecretTable) : Prop :=
  ∀ s < maxSlots, ∀ s' < maxSlots, (t.slot s).state ≠ .free → (t.slot s').state ≠ .free →
    (t.slot s).key = (t.slot s').key → s = s'

/-- The slots in use have distinct keys and are below `ext_secret_cnt`. -/
structure SecretTable.Sound (t : SecretTable) : Prop where
  distinct : t.Distinct
  below : ∀ s < maxSlots, (t.slot s).state ≠ .free → s < t.cnt

/-- What a successful reload of `es` makes of the table `t`. -/
structure Reloaded (t : SecretTable) (es : List SecretEntry) (t' : SecretTable) : Prop where
  pinned : ∀ s < t.pinned, t'.slot s = t.slot s
  listed : ∀ e ∈ es, (∀ p < t.pinned, (t.slot p).key ≠ e.key) →
    ∃ s < maxSlots, (t'.slot s).key = e.key ∧ (t'.slot s).SetTo s e ∧
      ∀ s' < maxSlots, (t'.slot s').state = .active → (t'.slot s').key = e.key → s' = s
  kept : ∀ s < maxSlots, (t.slot s).state ≠ .free →
    (t'.slot s).state ≠ .free ∧ (t'.slot s).tally = (t.slot s).tally
  removed : ∀ s, t.pinned ≤ s → s < maxSlots → (t.slot s).state = .active →
    (∀ e ∈ es, e.key ≠ (t.slot s).key) → t'.slot s = { t.slot s with state := .draining }
  allocated : ∀ s < maxSlots, (t'.slot s).state ≠ .free →
    (∀ s' < maxSlots, (t.slot s').state ≠ .free → (t.slot s').key ≠ (t'.slot s).key) →
    (t.slot s).state = .free ∧ (t'.slot s).tally = { Slot.zero with key := (t'.slot s).key }
  sound : t'.Sound
  active : ((List.range maxSlots).countP fun s => (t'.slot s).state = .active) ≤ maxActive

/-- The entries whose key no slot in use has, as many of them as there are free slots, have distinct
keys. -/
def SecretTable.NewKeysOnce (t : SecretTable) (es : List SecretEntry) : Prop :=
  (((t.unplaced es).take (freeCount t.pinned t.slot)).map (·.key)).Nodup

instance (t : SecretTable) (es : List SecretEntry) : Decidable (t.NewKeysOnce es) :=
  inferInstanceAs (Decidable (List.Nodup _))

/-! ### The high-water mark -/

variable {pinned s : ℕ} {slot : ℕ → Slot} {t : SecretTable} {es : List SecretEntry}
  {e : SecretEntry}

theorem lt_highWater (hle : pinned ≤ s) (hlt : s < maxSlots) (hs : (slot s).state ≠ .free) :
    s < highWater pinned slot := by
  -- the mark only grows, and is above a slot in use once the loop has passed it
  have hgrow : ∀ (l : List ℕ) (hw : ℕ), hw ≤
      l.foldl (fun hw s => if (slot s).state ≠ .free ∧ s + 1 > hw then s + 1 else hw) hw := by
    intro l
    induction l with
    | nil => exact fun hw => le_refl hw
    | cons s' l ih =>
      intro hw
      refine le_trans ?_ (ih _)
      dsimp only
      split_ifs <;> omega
  have hpass : ∀ (l : List ℕ) (hw : ℕ), s ∈ l → s <
      l.foldl (fun hw s => if (slot s).state ≠ .free ∧ s + 1 > hw then s + 1 else hw) hw := by
    intro l
    induction l with
    | nil => exact fun hw h => absurd h not_mem_nil
    | cons s' l ih =>
      intro hw hmem
      rcases mem_cons.1 hmem with rfl | hmem
      · refine lt_of_lt_of_le ?_ (hgrow l _)
        dsimp only
        split_ifs with h
        · omega
        · exact Nat.lt_of_not_ge fun h' => h ⟨hs, by omega⟩
      · exact ih _ hmem
  exact hpass _ _ (mem_range'_1.2 ⟨hle, by omega⟩)

/-! ### The first passes -/

theorem tally_refreshed (t : SecretTable) (es : List SecretEntry) (s : ℕ) :
    (t.refreshed es s).tally = (t.slot s).tally := by
  rw [refreshed_eq]
  unfold Slot.refreshLast
  split_ifs
  · rfl
  · cases (t.entriesOf es s).getLast? <;> rfl

theorem mem_unpinnedEntries :
    e ∈ unpinnedEntries t es ↔ e ∈ es ∧ ∀ p < t.pinned, (t.slot p).key ≠ e.key := by
  simp [unpinnedEntries]

theorem slotOf_eq_some_iff (ht : t.Sound) :
    slotOf t.pinned t.slot e = some s ↔
      t.pinned ≤ s ∧ s < maxSlots ∧ (t.slot s).state ≠ .free ∧ (t.slot s).key = e.key := by
  have hfound : ∀ {s'}, slotOf t.pinned t.slot e = some s' →
      t.pinned ≤ s' ∧ s' < maxSlots ∧ (t.slot s').state ≠ .free ∧ (t.slot s').key = e.key := by
    intro s' h
    obtain ⟨hle, hlt, hp⟩ := findSlot_eq_some h
    simp only [Bool.and_eq_true, decide_eq_true_eq] at hp
    exact ⟨hle, hlt, hp.1, hp.2⟩
  refine ⟨hfound, ?_⟩
  rintro ⟨hle, hlt, hused, hkey⟩
  cases hfind : slotOf t.pinned t.slot e with
  | none =>
    have hnone := find?_eq_none.1 hfind s (mem_range'_1.2 ⟨hle, by omega⟩)
    simp [hused, hkey] at hnone
  | some s' =>
    obtain ⟨-, hlt', hused', hkey'⟩ := hfound hfind
    rw [ht.distinct s' hlt' s hlt hused' hused (hkey'.trans hkey.symm)]

theorem mem_entriesOf (ht : t.Sound) :
    e ∈ t.entriesOf es s ↔ e ∈ unpinnedEntries t es ∧
      t.pinned ≤ s ∧ s < maxSlots ∧ (t.slot s).state ≠ .free ∧ (t.slot s).key = e.key := by
  unfold SecretTable.entriesOf Secrets.entriesOf
  rw [mem_filter, decide_eq_true_iff, slotOf_eq_some_iff ht]

theorem unplaced_key (he : e ∈ t.unplaced es) (hlt : s < maxSlots)
    (hused : (t.slot s).state ≠ .free) : (t.slot s).key ≠ e.key := by
  unfold SecretTable.unplaced Secrets.unplaced at he
  rw [mem_filter, decide_eq_true_iff] at he
  intro hkey
  by_cases hpin : s < t.pinned
  · exact (mem_unpinnedEntries.1 he.1).2 s hpin hkey
  · have hnone := find?_eq_none.1 he.2 s (mem_range'_1.2 ⟨by omega, by omega⟩)
    simp [hused, hkey] at hnone

theorem refreshed_setTo (ht : t.Sound) (hes : (es.map (·.key)).Nodup) (he : e ∈ t.entriesOf es s) :
    (t.refreshed es s).SetTo s e := by
  have hlast : (t.entriesOf es s).getLast? = some e := by
    cases hl : (t.entriesOf es s).getLast? with
    | none =>
      rw [getLast?_eq_none_iff.1 hl] at he
      cases he
    | some e' =>
      -- both entries have the slot's key
      obtain ⟨hmem, -, -, -, hkey⟩ := (mem_entriesOf ht).1 he
      obtain ⟨hmem', -, -, -, hkey'⟩ := (mem_entriesOf ht).1 (mem_of_getLast? hl)
      rw [inj_on_of_nodup_map hes (mem_unpinnedEntries.1 hmem').1 (mem_unpinnedEntries.1 hmem).1
        (hkey'.symm.trans hkey)]
  rw [refreshed_eq, if_neg (by simp [ne_nil_of_mem he]), Slot.refreshLast, hlast]
  constructor <;> rfl

theorem refreshed_removed (ht : t.Sound) (hle : t.pinned ≤ s) (hlt : s < maxSlots)
    (hactive : (t.slot s).state = .active) (hes : ∀ e ∈ es, e.key ≠ (t.slot s).key) :
    t.refreshed es s = { t.slot s with state := .draining } := by
  have hnil : t.entriesOf es s = [] := by
    refine eq_nil_iff_forall_not_mem.2 fun e he => ?_
    obtain ⟨hmem, -, -, -, hkey⟩ := (mem_entriesOf ht).1 he
    exact hes e (mem_unpinnedEntries.1 hmem).1 hkey.symm
  rw [refreshed_eq]
  simp [hnil, drainCandidate_iff, hle, hlt, hactive]

/-! ### The allocation -/

theorem passD_of_used (hs : (slot s).state ≠ .free) : (passD pinned es slot).2 s = slot s := by
  rcases passD_filled pinned es slot s with h | ⟨-, -, hfree, -⟩
  · exact h
  · exact absurd hfree hs

theorem passD_placed (hok : (passD pinned es slot).1 = true) (he : e ∈ es) :
    ∃ s < maxSlots, (slot s).state = .free ∧ (passD pinned es slot).2 s = Slot.fresh s e := by
  induction es generalizing slot with
  | nil => cases he
  | cons e' es ih =>
    rw [passD] at hok ⊢
    cases hfind : findSlot pinned slot fun x => decide (x.state = .free) with
    | none =>
      rw [hfind] at hok
      cases hok
    | some s =>
      rw [hfind] at hok
      obtain ⟨-, hlt, hfree⟩ := findSlot_eq_some hfind
      rcases mem_cons.1 he with rfl | he
      · refine ⟨s, hlt, by simpa using hfree, ?_⟩
        rw [passD_of_used]
        · rw [update_self]
        · rw [update_self]
          exact fun h => by cases h
      · obtain ⟨s', hlt', hfree', hfresh⟩ := ih hok he
        -- the slot just filled is not free any more
        have hne : s' ≠ s := by
          rintro rfl
          rw [update_self] at hfree'
          cases hfree'
        rw [update_of_ne hne] at hfree'
        exact ⟨s', hlt', hfree', hfresh⟩

theorem passD_keys (hes : (es.map (·.key)).Nodup) {s' : ℕ} (hs : (slot s).state = .free)
    (hs' : (slot s').state = .free) (hr : ((passD pinned es slot).2 s).state ≠ .free)
    (hr' : ((passD pinned es slot).2 s').state ≠ .free)
    (hkey : ((passD pinned es slot).2 s).key = ((passD pinned es slot).2 s').key) : s = s' := by
  induction es generalizing slot with
  | nil => exact absurd hs hr
  | cons e es ih =>
    rw [passD] at hr hr' hkey
    cases hfind : findSlot pinned slot fun x => decide (x.state = .free) with
    | none =>
      rw [hfind] at hr
      exact absurd hs hr
    | some s₀ =>
      rw [hfind] at hr hr' hkey
      rw [map_cons, nodup_cons] at hes
      have hfirst : (passD pinned es (update slot s₀ (Slot.fresh s₀ e))).2 s₀ =
          Slot.fresh s₀ e := by
        rw [passD_of_used, update_self]
        rw [update_self]
        exact fun h => by cases h
      -- a slot that the rest of the pass fills has the key of another entry
      have hother : ∀ {u}, u ≠ s₀ → (slot u).state = .free →
          ((passD pinned es (update slot s₀ (Slot.fresh s₀ e))).2 u).state ≠ .free →
          ((passD pinned es (update slot s₀ (Slot.fresh s₀ e))).2 u).key ≠ e.key := by
        intro u hu hfree hused hk
        rcases passD_filled pinned es (update slot s₀ (Slot.fresh s₀ e)) u with
          h | ⟨-, -, -, e', he', h⟩
        · rw [h, update_of_ne hu] at hused
          exact hused hfree
        · rw [h] at hk
          exact hes.1 (mem_map.2 ⟨e', he', hk⟩)
      by_cases h : s = s₀
      · by_cases h' : s' = s₀
        · rw [h, h']
        · subst h
          rw [hfirst] at hkey
          exact absurd hkey.symm (hother h' hs' hr')
      · by_cases h' : s' = s₀
        · subst h'
          rw [hfirst] at hkey
          exact absurd hkey (hother h hs hr)
        · refine ih hes.2 ?_ ?_ hr hr' hkey
          · rwa [update_of_ne h]
          · rwa [update_of_ne h']

theorem passD_take (pinned : ℕ) (es : List SecretEntry) (slot : ℕ → Slot) :
    (passD pinned es slot).2 = (passD pinned (es.take (freeCount pinned slot)) slot).2 := by
  induction es generalizing slot with
  | nil => rw [take_nil]
  | cons e es ih =>
    cases hfind : findSlot pinned slot fun x => decide (x.state = .free) with
    | none =>
      have hzero : freeCount pinned slot = 0 := findSlot_eq_none_iff.1 hfind
      rw [hzero, take_zero, passD, passD, hfind]
    | some s =>
      obtain ⟨hle, hlt, hp⟩ := findSlot_eq_some hfind
      have hcount := freeCount_fresh hle hlt (by simpa using hp) e
      rw [hcount, take_succ_cons, passD, passD, hfind]
      exact ih _

/-- The slots that pass D fills get distinct keys only from entries with distinct keys. -/
theorem nodup_of_passD (hok : (passD pinned es slot).1 = true)
    (h : ∀ s < maxSlots, ∀ s' < maxSlots, (slot s).state = .free → (slot s').state = .free →
      ((passD pinned es slot).2 s).state ≠ .free → ((passD pinned es slot).2 s').state ≠ .free →
      ((passD pinned es slot).2 s).key = ((passD pinned es slot).2 s').key → s = s') :
    (es.map (·.key)).Nodup := by
  induction es generalizing slot with
  | nil => exact nodup_nil
  | cons e es ih =>
    rw [passD] at hok h
    cases hfind : findSlot pinned slot fun x => decide (x.state = .free) with
    | none =>
      rw [hfind] at hok
      cases hok
    | some s₀ =>
      rw [hfind] at hok h
      obtain ⟨-, hlt₀, hp⟩ := findSlot_eq_some hfind
      have hfree₀ : (slot s₀).state = .free := by simpa using hp
      have hused₀ : (update slot s₀ (Slot.fresh s₀ e) s₀).state ≠ .free := by
        rw [update_self]
        exact fun h => by cases h
      have hfirst := (passD_of_used hused₀ : (passD pinned es _).2 s₀ = _)
      rw [update_self] at hfirst
      -- a slot that is free after the first allocation was free before
      have hbefore : ∀ {s}, (update slot s₀ (Slot.fresh s₀ e) s).state = .free →
          s ≠ s₀ ∧ (slot s).state = .free := by
        intro s hs
        have hne : s ≠ s₀ := by
          rintro rfl
          exact hused₀ hs
        rw [update_of_ne hne] at hs
        exact ⟨hne, hs⟩
      refine nodup_cons.2 ⟨fun hmem => ?_, ?_⟩
      · obtain ⟨e', he', hkey⟩ := mem_map.1 hmem
        obtain ⟨s, hlt, hfree, hfresh⟩ := passD_placed hok he'
        obtain ⟨hne, hfree⟩ := hbefore hfree
        refine hne (h s hlt s₀ hlt₀ hfree hfree₀ ?_ ?_ ?_)
        · rw [hfresh]
          exact fun h => by cases h
        · rw [hfirst]
          exact fun h => by cases h
        · rw [hfresh, hfirst]
          exact hkey
      · refine ih hok fun s hlt s' hlt' hfree hfree' => ?_
        exact h s hlt s' hlt' (hbefore hfree).2 (hbefore hfree').2

/-! ### The table after the reload -/

section Spec

variable {t : SecretTable} {es : List SecretEntry}

theorem reload_success (h : (reloadExtSecrets t es).1 = true) :
    (passD t.pinned (t.unplaced es) (t.refreshed es)).1 = true ∧
      activeTotal t.pinned (reloadExtSecrets t es).2.slot ≤ maxActive ∧
      (reloadExtSecrets t es).2.cnt = highWater t.pinned (reloadExtSecrets t es).2.slot := by
  rw [← reloadSlots_eq]
  revert h
  unfold reloadExtSecrets
  dsimp only
  split_ifs with hok hmax
  · exact fun h => by cases h
  · exact fun h => by cases h
  · exact fun _ => ⟨by simpa using hok, Nat.le_of_not_gt hmax, rfl⟩

/-- **A slot after a reload**: it was in use, and is as the first passes left it, or it was free, and
holds a new entry if it is in use now. -/
theorem reload_slot_cases {s : ℕ} (hused : ((reloadExtSecrets t es).2.slot s).state ≠ .free) :
    ((t.slot s).state ≠ .free ∧ (reloadExtSecrets t es).2.slot s = t.refreshed es s) ∨
      ((t.slot s).state = .free ∧ (t.refreshed es s).state = .free ∧ t.pinned ≤ s ∧ s < maxSlots ∧
        ∃ e ∈ t.unplaced es, (reloadExtSecrets t es).2.slot s = Slot.fresh s e) := by
  have hfree := (refreshed_kept t es s).free
  rw [slot_reload, reloadSlots_eq] at hused ⊢
  rcases passD_filled t.pinned (t.unplaced es) (t.refreshed es) s with h | ⟨hle, hlt, hs, hfill⟩
  · rw [h] at hused
    exact .inl ⟨fun h' => hused (hfree.2 h'), h⟩
  · exact .inr ⟨hfree.1 hs, hs, hle, hlt, hfill⟩

theorem reload_of_used {s : ℕ} (hs : (t.slot s).state ≠ .free) :
    (reloadExtSecrets t es).2.slot s = t.refreshed es s := by
  rw [slot_reload, reloadSlots_eq, passD_of_used]
  exact fun h => hs ((refreshed_kept t es s).free.1 h)

/-- **A reload keeps the keys distinct exactly if the new secrets that there is room for are listed
once.** -/
theorem reload_distinct_iff (ht : t.Distinct) :
    (reloadExtSecrets t es).2.Distinct ↔ t.NewKeysOnce es := by
  have hkept := fun s => (refreshed_kept t es s).key
  have hslot : (reloadExtSecrets t es).2.slot =
      (passD t.pinned ((t.unplaced es).take (freeCount t.pinned t.slot)) (t.refreshed es)).2 := by
    rw [slot_reload, reloadSlots_eq, passD_take, freeCount_refreshed]
  constructor
  · intro hdistinct
    have hok : (passD t.pinned ((t.unplaced es).take (freeCount t.pinned t.slot))
        (t.refreshed es)).1 = true := by
      rw [(passD_spec _ _ _).1, freeCount_refreshed]
      exact length_take_le _ _
    refine nodup_of_passD hok fun s hlt s' hlt' _ _ hused hused' hkey => ?_
    rw [← hslot] at hused hused' hkey
    exact hdistinct s hlt s' hlt' hused hused' hkey
  · intro honce s hlt s' hlt' hused hused' hkey
    rcases reload_slot_cases hused with ⟨h, heq⟩ | ⟨-, hfree, -, -, e, he, heq⟩
    · rcases reload_slot_cases hused' with ⟨h', heq'⟩ | ⟨-, -, -, -, e', he', heq'⟩
      · rw [heq, heq', hkept, hkept] at hkey
        exact ht s hlt s' hlt' h h' hkey
      · rw [heq, heq', hkept] at hkey
        exact absurd hkey (unplaced_key he' hlt h)
    · rcases reload_slot_cases hused' with ⟨h', heq'⟩ | ⟨-, hfree', -, -, e', he', heq'⟩
      · rw [heq, heq', hkept] at hkey
        exact absurd hkey.symm (unplaced_key he hlt' h')
      · rw [hslot] at hused hused' hkey
        exact passD_keys honce hfree hfree' hused hused' hkey

theorem reload_distinct (ht : t.Distinct) (hes : (es.map (·.key)).Nodup) :
    (reloadExtSecrets t es).2.Distinct := by
  have hunplaced : ((t.unplaced es).map (·.key)).Nodup :=
    hes.sublist ((filter_sublist.trans filter_sublist).map _)
  exact (reload_distinct_iff ht).2 (hunplaced.sublist ((take_sublist _ _).map _))

theorem reload_below (h : (reloadExtSecrets t es).1 = true) {s : ℕ} (hlt : s < maxSlots)
    (hused : ((reloadExtSecrets t es).2.slot s).state ≠ .free) :
    s < (reloadExtSecrets t es).2.cnt := by
  obtain ⟨-, hactive, hcnt⟩ := reload_success h
  rw [hcnt]
  by_cases hpin : s < t.pinned
  · have hp : t.pinned ≤ maxSlots :=
      le_trans (Nat.le_add_right _ _) (hactive.trans (by decide : maxActive ≤ maxSlots))
    exact lt_of_lt_of_le hpin (highWater_bounds hp _).1
  · exact lt_highWater (Nat.le_of_not_lt hpin) hlt hused

/-- The pinned slots and the active others are at most 16, so at most 16 slots are active. -/
theorem countP_active_le {pinned : ℕ} {slot : ℕ → Slot} (h : activeTotal pinned slot ≤ maxActive) :
    ((range maxSlots).countP fun s => (slot s).state = .active) ≤ maxActive := by
  have hp : pinned ≤ maxSlots :=
    le_trans (Nat.le_add_right _ _) (h.trans (by decide : maxActive ≤ maxSlots))
  have hsplit : range maxSlots = range' 0 pinned ++ range' pinned (maxSlots - pinned) := by
    have happ := range'_append_1 (s := 0) (m := pinned) (n := maxSlots - pinned)
    rw [Nat.zero_add, Nat.add_sub_cancel' hp] at happ
    rw [range_eq_range', happ]
  have hle := (range' 0 pinned).countP_le_length (p := fun s => (slot s).state = .active)
  rw [length_range'] at hle
  unfold activeTotal at h
  rw [hsplit, countP_append]
  omega

theorem reload_listed (ht : t.Sound) (hes : (es.map (·.key)).Nodup)
    (h : (reloadExtSecrets t es).1 = true) {e : SecretEntry} (he : e ∈ es)
    (hpin : ∀ p < t.pinned, (t.slot p).key ≠ e.key) :
    ∃ s < maxSlots, ((reloadExtSecrets t es).2.slot s).key = e.key ∧
      ((reloadExtSecrets t es).2.slot s).SetTo s e := by
  have hmem := mem_unpinnedEntries.2 ⟨he, hpin⟩
  cases hslot : slotOf t.pinned t.slot e with
  | some s =>
    obtain ⟨hle, hlt, hused, hkey⟩ := (slotOf_eq_some_iff ht).1 hslot
    refine ⟨s, hlt, ?_, ?_⟩
    · rw [reload_of_used hused, (refreshed_kept t es s).key, hkey]
    · rw [reload_of_used hused]
      exact refreshed_setTo ht hes ((mem_entriesOf ht).2 ⟨hmem, hle, hlt, hused, hkey⟩)
  | none =>
    have hun : e ∈ t.unplaced es := mem_filter.2 ⟨hmem, decide_eq_true hslot⟩
    obtain ⟨s, hlt, -, hfresh⟩ := passD_placed (reload_success h).1 hun
    refine ⟨s, hlt, ?_⟩
    rw [slot_reload, reloadSlots_eq, hfresh]
    exact ⟨rfl, rfl, rfl, rfl, rfl, rfl, rfl, rfl⟩

/-- **The specification of a reload.** -/
theorem reload_spec (ht : t.Sound) (hes : (es.map (·.key)).Nodup)
    (h : (reloadExtSecrets t es).1 = true) : Reloaded t es (reloadExtSecrets t es).2 where
  pinned := fun s hs => reload_pinned hs es
  listed := by
    intro e he hpin
    obtain ⟨s, hlt, hkey, hset⟩ := reload_listed ht hes h he hpin
    refine ⟨s, hlt, hkey, hset, fun s' hlt' hactive hkey' => ?_⟩
    exact reload_distinct ht.distinct hes s' hlt' s hlt (by simp [hactive]) (by simp [hset.active])
      (hkey'.trans hkey.symm)
  kept := by
    intro s _ hused
    rw [reload_of_used hused]
    exact ⟨fun h' => hused ((refreshed_kept t es s).free.1 h'), tally_refreshed t es s⟩
  removed := by
    intro s hle hlt hactive hnot
    rw [reload_of_used (by simp [hactive])]
    exact refreshed_removed ht hle hlt hactive hnot
  allocated := by
    intro s hlt hused hnew
    rcases reload_slot_cases hused with ⟨hold, heq⟩ | ⟨hfree, -, -, -, e, -, heq⟩
    · refine absurd ?_ (hnew s hlt hold)
      rw [heq, (refreshed_kept t es s).key]
    · rw [heq]
      exact ⟨hfree, rfl⟩
  sound := ⟨reload_distinct ht.distinct hes, fun s hs => reload_below h hs⟩
  active := countP_active_le (reload_success h).2.1

end Spec

/-- A table with an active and a draining secret, both in use. -/
def sampleDraining : SecretTable where
  slot := fun s =>
    if s = 0 then { Slot.fresh 0 ⟨List.replicate 16 1, "one", 0, 0, 0, 0, 0⟩ with connections := 3 }
    else if s = 1 then
      { Slot.fresh 1 ⟨List.replicate 16 2, "two", 0, 0, 0, 0, 0⟩ with
        state := .draining, connections := 5 }
    else Slot.zero
  cnt := 2
  pinned := 0

/-- A configuration without the first of the two secrets, and with a new one. -/
def sampleRevival : List SecretEntry :=
  [⟨List.replicate 16 2, "again", 7, 0, 0, 0, 0⟩, ⟨List.replicate 16 3, "", 0, 0, 0, 0, 0⟩]

theorem sampleDraining_sound : sampleDraining.Sound := by
  have hbelow : ∀ s < maxSlots, (sampleDraining.slot s).state ≠ .free → s < sampleDraining.cnt := by
    decide
  have hkeys : ∀ s < 2, ∀ s' < 2,
      (sampleDraining.slot s).key = (sampleDraining.slot s').key → s = s' := by decide
  exact ⟨fun s hs s' hs' h h' => hkeys s (hbelow s hs h) s' (hbelow s' hs' h'), hbelow⟩

theorem reload_spec_revival :
    sampleDraining.Sound ∧ (sampleRevival.map (·.key)).Nodup ∧
      (reloadExtSecrets sampleDraining sampleRevival).1 = true ∧
      Reloaded sampleDraining sampleRevival (reloadExtSecrets sampleDraining sampleRevival).2 :=
  ⟨sampleDraining_sound, by decide +kernel, by decide +kernel,
    reload_spec sampleDraining_sound (by decide +kernel) (by decide +kernel)⟩

/-- The new secret of the configuration has no label, and no active slot has its key with that
label: the slot is called `secret_2`. -/
theorem reload_label_default :
    sampleDraining.Sound ∧ (sampleRevival.map (·.key)).Nodup ∧
      (reloadExtSecrets sampleDraining sampleRevival).1 = true ∧
      ∃ e ∈ sampleRevival, (∀ p < sampleDraining.pinned, (sampleDraining.slot p).key ≠ e.key) ∧
        ∀ s < maxSlots,
          ((reloadExtSecrets sampleDraining sampleRevival).2.slot s).state = .active →
          ((reloadExtSecrets sampleDraining sampleRevival).2.slot s).key = e.key →
          ((reloadExtSecrets sampleDraining sampleRevival).2.slot s).label ≠ e.label :=
  ⟨sampleDraining_sound, by decide +kernel, by decide +kernel,
    ⟨replicate 16 3, "", 0, 0, 0, 0, 0⟩, by decide +kernel, by decide +kernel,
    by decide +kernel⟩

end Mtbolt.Secrets
