import Mtbolt.Secrets.Table

/-!
# A failed reload of the secrets

`tcp_rpcs_reload_ext_secrets` fails in its last pass, when a new secret finds no free slot, or after
it, when more than 16 secrets would be active.  It does not take back what the passes before have
done.  This file computes the outcome of the passes from the table and the configuration.
-/

namespace Mtbolt.Secrets

open Function List

/-! ### The entries of a slot -/

/-- The slot in use, not pinned, that has the key of an entry. -/
def slotOf (pinned : ℕ) (slot : ℕ → Slot) (e : SecretEntry) : Option ℕ :=
  findSlot pinned slot fun x => x.state ≠ .free && x.key = e.key

/-- The entries that refresh the slot `s`. -/
def entriesOf (pinned : ℕ) (slot : ℕ → Slot) (s : ℕ) (es : List SecretEntry) : List SecretEntry :=
  es.filter fun e => slotOf pinned slot e = some s

/-- The entries that need a slot of their own. -/
def unplaced (pinned : ℕ) (slot : ℕ → Slot) (es : List SecretEntry) : List SecretEntry :=
  es.filter fun e => slotOf pinned slot e = none

/-- The slot with the settings of the last of the given entries. -/
def Slot.refreshLast (x : Slot) (s : ℕ) (es : List SecretEntry) : Slot :=
  match es.getLast? with
  | none => x
  | some e => x.refresh s e

variable {pinned s : ℕ} {slot : ℕ → Slot} {e : SecretEntry}

theorem slotOf_congr {slot' : ℕ → Slot} (h : ∀ s, (slot s).Kept (slot' s)) (e : SecretEntry) :
    slotOf pinned slot' e = slotOf pinned slot e := by
  unfold slotOf findSlot
  congr 1
  funext s
  simp [(h s).key, (h s).free]

theorem kept_update_refresh (h : slotOf pinned slot e = some s) (s' : ℕ) :
    (slot s').Kept (update slot s ((slot s).refresh s e) s') := by
  obtain ⟨-, -, hp⟩ := findSlot_eq_some h
  by_cases hs : s' = s
  · subst hs
    rw [update_self]
    refine kept_refresh ?_ s' e
    simp only [Bool.and_eq_true, decide_eq_true_eq] at hp
    exact hp.1
  · rw [update_of_ne hs]
    exact .refl _

theorem passB_cons_none {candidate : ℕ → Bool} (h : slotOf pinned slot e = none)
    (es : List SecretEntry) :
    passB pinned (e :: es) slot candidate =
      ((passB pinned es slot candidate).1, (passB pinned es slot candidate).2.1,
        e :: (passB pinned es slot candidate).2.2) := by
  unfold slotOf at h
  rw [passB, h]

theorem passB_cons_some {candidate : ℕ → Bool} (h : slotOf pinned slot e = some s)
    (es : List SecretEntry) :
    passB pinned (e :: es) slot candidate =
      passB pinned es (update slot s ((slot s).refresh s e)) (update candidate s false) := by
  unfold slotOf at h
  rw [passB, h]

section

variable (pinned) (es : List SecretEntry) (slot) (candidate : ℕ → Bool)

/-- **Pass B**: the last entry with the key of a slot sets the slot, a slot with an entry is no
candidate any more, and the entries of no slot are left. -/
theorem passB_eq : passB pinned es slot candidate =
    (fun s => (slot s).refreshLast s (entriesOf pinned slot s es),
      fun s => candidate s && (entriesOf pinned slot s es).isEmpty, unplaced pinned slot es) := by
  induction es generalizing slot candidate with
  | nil => simp [passB, entriesOf, unplaced, Slot.refreshLast]
  | cons e es ih =>
    cases hfind : slotOf pinned slot e with
    | none =>
      rw [passB_cons_none hfind, ih]
      simp [entriesOf, unplaced, hfind]
    | some s' =>
      rw [passB_cons_some hfind, ih]
      simp only [entriesOf, unplaced, slotOf_congr (kept_update_refresh hfind)]
      refine Prod.ext (funext fun s => ?_) (Prod.ext (funext fun s => ?_) (by simp [hfind]))
      all_goals by_cases hs : s' = s
      · -- the refreshed slot: a later entry overwrites all that this one has set
        subst hs
        simp only [update_self, hfind, decide_true, filter_cons_of_pos, Slot.refreshLast,
          getLast?_cons]
        cases (es.filter fun e => slotOf pinned slot e = some s').getLast? <;> rfl
      · simp [update_of_ne (Ne.symm hs), hfind, hs]
      · simp [← hs, hfind]
      · simp [update_of_ne (Ne.symm hs), hfind, hs]

end

/-! ### The allocation of free slots -/

/-- The number of unpinned slots with a property. -/
def countSlots (pinned : ℕ) (p : ℕ → Bool) : ℕ :=
  (List.range' pinned (maxSlots - pinned)).countP p

def freeCount (pinned : ℕ) (slot : ℕ → Slot) : ℕ :=
  countSlots pinned fun s => (slot s).state = .free

theorem countSlots_congr {p q : ℕ → Bool} (h : ∀ s, pinned ≤ s → s < maxSlots → p s = q s) :
    countSlots pinned p = countSlots pinned q := by
  apply countP_congr
  intro s hs
  have hs' := mem_range'_1.1 hs
  rw [h s hs'.1 (by omega)]

theorem countSlots_update (hle : pinned ≤ s) (hlt : s < maxSlots) {p q : ℕ → Bool}
    (hp : p s = false) (hq : q s = true) (h : ∀ s', s' ≠ s → q s' = p s') :
    countSlots pinned q = countSlots pinned p + 1 := by
  have hmem : s ∈ range' pinned (maxSlots - pinned) := mem_range'_1.2 ⟨hle, by omega⟩
  have hnodup : (range' pinned (maxSlots - pinned)).Nodup := nodup_range'
  obtain ⟨l₁, l₂, hl⟩ := append_of_mem hmem
  unfold countSlots
  rw [hl] at hnodup ⊢
  have hne : ∀ s' ∈ l₁ ++ l₂, s' ≠ s := by
    rintro s' hs' rfl
    rw [nodup_middle] at hnodup
    exact (nodup_cons.1 hnodup).1 hs'
  have h₁ : l₁.countP q = l₁.countP p :=
    countP_congr fun s' hs' => by rw [h s' (hne s' (mem_append_left _ hs'))]
  have h₂ : l₂.countP q = l₂.countP p :=
    countP_congr fun s' hs' => by rw [h s' (hne s' (mem_append_right _ hs'))]
  simp only [countP_append, countP_cons, hp, hq, h₁, h₂]
  simp only [if_true, Bool.false_eq_true, if_false]
  omega

theorem findSlot_eq_none_iff {p : Slot → Bool} :
    findSlot pinned slot p = none ↔ countSlots pinned (fun s => p (slot s)) = 0 := by
  simp [findSlot, countSlots, countP_eq_zero]

section Allocate

variable {pinned s : ℕ} {slot : ℕ → Slot}

theorem freeCount_fresh (hle : pinned ≤ s) (hlt : s < maxSlots) (hfree : (slot s).state = .free)
    (e : SecretEntry) :
    freeCount pinned slot = freeCount pinned (update slot s (Slot.fresh s e)) + 1 := by
  refine countSlots_update hle hlt ?_ ?_ fun s' hs' => ?_
  · simp [Slot.fresh, Slot.refresh]
  · simpa using hfree
  · simp [update_of_ne hs']

theorem activeTotal_fresh (hle : pinned ≤ s) (hlt : s < maxSlots) (hfree : (slot s).state = .free)
    (e : SecretEntry) :
    activeTotal pinned (update slot s (Slot.fresh s e)) = activeTotal pinned slot + 1 := by
  have h := countSlots_update (p := fun s => decide ((slot s).state = .active))
    (q := fun s' => decide ((update slot s (Slot.fresh s e) s').state = .active)) hle hlt
    (by simp [hfree]) (by simp [Slot.fresh, Slot.refresh])
    fun s' hs' => by simp [update_of_ne hs']
  unfold countSlots at h
  unfold activeTotal
  omega

end Allocate

/-- **Pass D succeeds iff there are enough free slots**, and every entry is then active. -/
theorem passD_spec (pinned : ℕ) (es : List SecretEntry) (slot : ℕ → Slot) :
    ((passD pinned es slot).1 = true ↔ es.length ≤ freeCount pinned slot) ∧
      ((passD pinned es slot).1 = true →
        activeTotal pinned (passD pinned es slot).2 = activeTotal pinned slot + es.length) := by
  induction es generalizing slot with
  | nil => simp [passD]
  | cons e es ih =>
    rw [passD]
    cases hfind : findSlot pinned slot fun x => decide (x.state = .free) with
    | none =>
      have hzero : freeCount pinned slot = 0 := findSlot_eq_none_iff.1 hfind
      simp [hzero]
    | some s =>
      obtain ⟨hle, hlt, hp⟩ := findSlot_eq_some hfind
      have hfree : (slot s).state = .free := by simpa using hp
      obtain ⟨hiff, hactive⟩ := ih (update slot s (Slot.fresh s e))
      have hcount := freeCount_fresh hle hlt hfree e
      constructor
      · rw [hiff, length_cons]
        omega
      · intro hok
        rw [hactive hok, activeTotal_fresh hle hlt hfree e, length_cons]
        omega

/-- Pass D changes the table as soon as it has an entry and a free slot for it. -/
theorem passD_eq_self_iff (pinned : ℕ) (es : List SecretEntry) (slot : ℕ → Slot) :
    (passD pinned es slot).2 = slot ↔ es = [] ∨ freeCount pinned slot = 0 := by
  cases es with
  | nil => simp [passD]
  | cons e es =>
    rw [passD]
    cases hfind : findSlot pinned slot fun x => decide (x.state = .free) with
    | none =>
      have hzero : freeCount pinned slot = 0 := findSlot_eq_none_iff.1 hfind
      simp [hzero]
    | some s =>
      obtain ⟨hle, hlt, hp⟩ := findSlot_eq_some hfind
      have hfree : (slot s).state = .free := by simpa using hp
      have hcount := freeCount_fresh hle hlt hfree e
      refine iff_of_false (fun h => ?_) (by simp; omega)
      -- the slot just filled is active from then on
      have hs := congrFun h s
      rcases passD_filled pinned es (update slot s (Slot.fresh s e)) s with h' | ⟨-, -, h', -⟩
      · rw [hs, update_self] at h'
        rw [h'] at hfree
        cases hfree
      · rw [update_self] at h'
        cases h'

/-! ### The outcome of a reload -/

section Outcome

variable (t : SecretTable) (es : List SecretEntry)

/-- The entries that refresh the slot `s` of the table. -/
def SecretTable.entriesOf (s : ℕ) : List SecretEntry :=
  Secrets.entriesOf t.pinned t.slot s (unpinnedEntries t es)

/-- The entries without a slot in the table. -/
def SecretTable.unplaced : List SecretEntry :=
  Secrets.unplaced t.pinned t.slot (unpinnedEntries t es)

/-- The number of unpinned slots whose secret the configuration has. -/
def SecretTable.matched : ℕ := countSlots t.pinned fun s => !(t.entriesOf es s).isEmpty

/-- There is a free slot for every new secret, and not too many secrets are active then. -/
def SecretTable.Fits : Prop :=
  (t.unplaced es).length ≤ freeCount t.pinned t.slot ∧
    t.pinned + t.matched es + (t.unplaced es).length ≤ maxActive

/-- The slot is active with the settings of the entry. -/
structure Slot.SetTo (x : Slot) (s : ℕ) (e : SecretEntry) : Prop where
  active : x.state = .active
  label : x.label = slotLabel s e.label
  limit : x.limit = e.limit
  quota : x.quota = e.quota
  rateLimit : x.rateLimit = e.rateLimit
  maxIps : x.maxIps = e.maxIps
  expires : x.expires = e.expires

/-- The configuration says about the slots in use what the table says: the last entry with the
slot's key has the slot's settings, and a slot without an entry is not active. -/
def SecretTable.Agrees : Prop :=
  ∀ s, t.pinned ≤ s → s < maxSlots →
    (∀ e ∈ (t.entriesOf es s).getLast?, (t.slot s).SetTo s e) ∧
      (t.entriesOf es s = [] → (t.slot s).state ≠ .active)

/-- The slots after the passes that do not allocate. -/
def SecretTable.refreshed : ℕ → Slot :=
  passC (passB t.pinned (unpinnedEntries t es) t.slot (drainCandidate t)).1
    (passB t.pinned (unpinnedEntries t es) t.slot (drainCandidate t)).2.1

theorem reloadSlots_eq : reloadSlots t es = passD t.pinned (t.unplaced es) (t.refreshed es) := by
  unfold reloadSlots SecretTable.unplaced SecretTable.refreshed
  rw [passB_eq]

theorem refreshed_kept (s : ℕ) : (t.slot s).Kept (t.refreshed es s) :=
  passC_passB_kept t (unpinnedEntries t es) s

/-- The first passes on one slot: it takes the settings of its last entry, and drains if it was
active and has none. -/
theorem refreshed_eq (s : ℕ) :
    t.refreshed es s =
      if drainCandidate t s && (t.entriesOf es s).isEmpty then
        { t.slot s with state := .draining }
      else (t.slot s).refreshLast s (t.entriesOf es s) := by
  unfold SecretTable.refreshed passC SecretTable.entriesOf
  rw [passB_eq]
  dsimp only
  split_ifs with h
  · simp only [Bool.and_eq_true, List.isEmpty_iff] at h
    rw [h.2]
    rfl
  · rfl

theorem entriesOf_outside {s : ℕ} (h : ¬ (t.pinned ≤ s ∧ s < maxSlots)) : t.entriesOf es s = [] := by
  unfold SecretTable.entriesOf Secrets.entriesOf
  rw [filter_eq_nil_iff]
  intro e _ hs
  obtain ⟨hle, hlt, -⟩ := findSlot_eq_some (of_decide_eq_true hs)
  exact h ⟨hle, hlt⟩

theorem drainCandidate_iff (s : ℕ) :
    drainCandidate t s = true ↔ (t.pinned ≤ s ∧ s < maxSlots) ∧ (t.slot s).state = .active := by
  simp [drainCandidate, and_assoc]

theorem refreshed_active_iff {s : ℕ} (hle : t.pinned ≤ s) (hlt : s < maxSlots) :
    (t.refreshed es s).state = .active ↔ t.entriesOf es s ≠ [] := by
  rw [refreshed_eq]
  cases hlast : (t.entriesOf es s).getLast? with
  | none =>
    have hnil := getLast?_eq_none_iff.1 hlast
    by_cases hactive : (t.slot s).state = .active
    · rw [if_pos (by simp [hnil, drainCandidate_iff, hle, hlt, hactive])]
      simp [hnil]
    · rw [if_neg (by simp [drainCandidate_iff, hactive])]
      simp [Slot.refreshLast, hnil, hactive]
  | some e =>
    have hne : t.entriesOf es s ≠ [] := by
      rintro hnil
      simp [hnil] at hlast
    simp [Slot.refreshLast, hlast, Slot.refresh, hne]

theorem activeTotal_refreshed : activeTotal t.pinned (t.refreshed es) = t.pinned + t.matched es := by
  unfold activeTotal SecretTable.matched
  congr 1
  refine countSlots_congr fun s hle hlt => ?_
  rw [Bool.eq_iff_iff, decide_eq_true_iff, refreshed_active_iff t es hle hlt]
  simp

theorem freeCount_refreshed : freeCount t.pinned (t.refreshed es) = freeCount t.pinned t.slot := by
  refine countSlots_congr fun s _ _ => ?_
  rw [Bool.eq_iff_iff, decide_eq_true_iff, decide_eq_true_iff]
  exact (refreshed_kept t es s).free

theorem refresh_eq_self_iff (x : Slot) (s : ℕ) (e : SecretEntry) :
    x.refresh s e = x ↔ x.SetTo s e := by
  constructor
  · intro h
    rw [← h]
    constructor <;> rfl
  · rintro ⟨h1, h2, h3, h4, h5, h6, h7⟩
    unfold Slot.refresh
    rw [← h1, ← h2, ← h3, ← h4, ← h5, ← h6, ← h7]

theorem refreshed_eq_self_iff : t.refreshed es = t.slot ↔ t.Agrees es := by
  rw [funext_iff]
  refine forall_congr' fun s => ?_
  rw [refreshed_eq]
  by_cases hrange : t.pinned ≤ s ∧ s < maxSlots
  · cases hlast : (t.entriesOf es s).getLast? with
    | none =>
      have hnil := getLast?_eq_none_iff.1 hlast
      by_cases hactive : (t.slot s).state = .active
      · rw [if_pos (by simp [hnil, drainCandidate_iff, hrange, hactive])]
        refine iff_of_false (fun h => ?_) fun h => (h hrange.1 hrange.2).2 hnil hactive
        rw [← h] at hactive
        cases hactive
      · rw [if_neg (by simp [drainCandidate_iff, hactive])]
        simp [Slot.refreshLast, hnil, hactive]
    | some e =>
      have hne : t.entriesOf es s ≠ [] := by
        rintro hnil
        simp [hnil] at hlast
      simp [Slot.refreshLast, hlast, refresh_eq_self_iff, hne, hrange]
  · rw [if_neg (by simp [drainCandidate_iff, hrange]), entriesOf_outside t es hrange]
    refine iff_of_true rfl fun hle hlt => absurd ⟨hle, hlt⟩ hrange

theorem reload_succeeds_iff : (reloadExtSecrets t es).1 = true ↔ t.Fits es := by
  obtain ⟨hroom, hactive⟩ := passD_spec t.pinned (t.unplaced es) (t.refreshed es)
  rw [freeCount_refreshed] at hroom
  rw [activeTotal_refreshed] at hactive
  unfold reloadExtSecrets SecretTable.Fits
  rw [reloadSlots_eq, ← hroom]
  dsimp only
  cases hok : (passD t.pinned (t.unplaced es) (t.refreshed es)).1 with
  | false => simp
  | true =>
    rw [hactive hok]
    by_cases hmax : t.pinned + t.matched es + (t.unplaced es).length > maxActive
    · simp [hmax]
    · simp [hmax, Nat.le_of_not_gt hmax]

theorem slot_reload_eq_self_iff :
    (reloadExtSecrets t es).2.slot = t.slot ↔
      t.Agrees es ∧ (t.unplaced es = [] ∨ freeCount t.pinned t.slot = 0) := by
  rw [slot_reload, reloadSlots_eq, ← refreshed_eq_self_iff, ← freeCount_refreshed t es,
    ← passD_eq_self_iff]
  refine ⟨fun h => ?_, fun h => h.2.trans h.1⟩
  -- a slot that the last pass filled was free before, and would not be any more
  have hD : (passD t.pinned (t.unplaced es) (t.refreshed es)).2 = t.refreshed es := by
    funext s
    rcases passD_filled t.pinned (t.unplaced es) (t.refreshed es) s with h' | ⟨-, -, hfree, e, -, h'⟩
    · exact h'
    · rw [(refreshed_kept t es s).free, ← congrFun h s, h'] at hfree
      cases hfree
  exact ⟨hD.symm.trans h, hD⟩

/-- **What a failed reload leaves behind**: it keeps the table exactly if the configuration fits,
so that it does not fail, or asks for no change of the slots in use and there is nothing, or no
free slot, to allocate. -/
theorem reload_failed_keeps_iff :
    ((reloadExtSecrets t es).1 = false → (reloadExtSecrets t es).2 = t) ↔
      t.Fits es ∨ (t.Agrees es ∧ (t.unplaced es = [] ∨ freeCount t.pinned t.slot = 0)) := by
  rw [← reload_succeeds_iff, ← slot_reload_eq_self_iff]
  cases hok : (reloadExtSecrets t es).1 with
  | true => simp
  | false =>
    have htable : (reloadExtSecrets t es).2 = { t with slot := (reloadExtSecrets t es).2.slot } := by
      revert hok
      unfold reloadExtSecrets
      dsimp only
      split_ifs <;> simp
    rw [htable]
    constructor
    · intro h
      exact .inr (congrArg SecretTable.slot (h rfl))
    · rintro (h | h) _
      · cases h
      · rw [h]

end Outcome

/-- Sixteen secrets of a configuration. -/
def sampleSixteen : List SecretEntry :=
  (List.range 16).map fun i => ⟨List.replicate 16 (UInt8.ofNat (i + 1)), "", 0, 0, 0, 0, 0⟩

/-- The table of a process with one command-line secret. -/
def sampleOnePinned : SecretTable where
  slot := update (fun _ => Slot.zero) 0 (Slot.fresh 0 ⟨List.replicate 16 0xaa, "", 0, 0, 0, 0, 0⟩)
  cnt := 1
  pinned := 1

/-- Seventeen secrets are one too many; the sixteen new ones are active nevertheless, above
`ext_secret_cnt`. -/
theorem reload_failed_half_done :
    pinExtSecrets [⟨List.replicate 16 0xaa, "", 0, 0, 0, 0, 0⟩] = some sampleOnePinned ∧
      (reloadExtSecrets sampleOnePinned sampleSixteen).1 = false ∧
      (sampleOnePinned.slot 16).state = .free ∧
      ((reloadExtSecrets sampleOnePinned sampleSixteen).2.slot 16).state = .active ∧
      (reloadExtSecrets sampleOnePinned sampleSixteen).2.cnt = 1 := by
  refine ⟨?_, by decide +kernel, by decide, by decide +kernel, by decide +kernel⟩
  rfl

end Mtbolt.Secrets
