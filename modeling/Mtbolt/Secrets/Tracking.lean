import Mtbolt.Lib.EventRun
import Mtbolt.Secrets.Table

/-!
# The table of client addresses

A slot with a limit on addresses or a rate limit records the addresses of its clients in
`per_secret_ips`.  A connection is recorded when it is counted, if the slot has such a limit at that
moment; when it closes, it is taken off the record whatever the limits are.  A reload can switch the
limits on and off in between.
-/

namespace Mtbolt.Secrets

open EventRun Function List

/-! ### Addresses -/

/-- The address of an IPv4 client has no IPv6 part, that of an IPv6 client no IPv4 part. -/
def Addr.WellFormed (a : Addr) : Prop := a.ip = 0 ∨ a.ipv6 = 0

instance (a : Addr) : Decidable a.WellFormed := inferInstanceAs (Decidable (_ ∨ _))

def Addr.zero : Addr := ⟨0, 0⟩

theorem isFor_iff {e : TrackedIp} {a : Addr} (he : e.addr.WellFormed) (hne : e.addr ≠ .zero)
    (ha : a.WellFormed) : e.isFor a = true ↔ e.addr = a := by
  obtain ⟨⟨ip, ipv6⟩, connections⟩ := e
  obtain ⟨ip', ipv6'⟩ := a
  simp only [Addr.WellFormed, Addr.zero, ne_eq, Addr.mk.injEq, TrackedIp.isFor] at *
  by_cases hip : ip' = 0
  · simp only [hip, not_true_eq_false, if_false, Bool.and_eq_true, decide_eq_true_eq]
    omega
  · simp only [hip, not_false_eq_true, if_true, decide_eq_true_eq]
    omega

/-! ### The record -/

/-- The number of connections recorded for an address. -/
def recorded (ips : List TrackedIp) (a : Addr) : ℤ :=
  (ips.map fun e => if e.addr = a then e.connections else 0).sum

@[simp] theorem recorded_nil (a : Addr) : recorded [] a = 0 := rfl

@[simp] theorem recorded_cons (e : TrackedIp) (ips : List TrackedIp) (a : Addr) :
    recorded (e :: ips) a = (if e.addr = a then e.connections else 0) + recorded ips a := by
  simp [recorded]

@[simp] theorem recorded_append (ips ips' : List TrackedIp) (a : Addr) :
    recorded (ips ++ ips') a = recorded ips a + recorded ips' a := by
  simp [recorded]

/-- The shape of a slot's record: proper addresses, each once, with their connections. -/
structure TableOk (ips : List TrackedIp) : Prop where
  wellFormed : ∀ e ∈ ips, e.addr.WellFormed
  ne_zero : ∀ e ∈ ips, e.addr ≠ .zero
  pos : ∀ e ∈ ips, 0 < e.connections
  nodup : (ips.map (·.addr)).Nodup

theorem tableOk_nil : TableOk [] :=
  ⟨fun _ h => absurd h (by simp), fun _ h => absurd h (by simp), fun _ h => absurd h (by simp),
    nodup_nil⟩

section Record

variable {ips : List TrackedIp} {e : TrackedIp} {a : Addr}

theorem tableOk_cons : TableOk (e :: ips) ↔
    (e.addr.WellFormed ∧ e.addr ≠ .zero ∧ 0 < e.connections ∧ ∀ e' ∈ ips, e'.addr ≠ e.addr) ∧
      TableOk ips := by
  constructor
  · rintro ⟨hwf, hne, hpos, hnodup⟩
    rw [map_cons, nodup_cons] at hnodup
    refine ⟨⟨hwf e mem_cons_self, hne e mem_cons_self, hpos e mem_cons_self, ?_⟩, ?_⟩
    · rintro e' he' heq
      exact hnodup.1 (heq ▸ mem_map_of_mem he')
    · exact ⟨fun e' he' => hwf e' (mem_cons_of_mem _ he'),
        fun e' he' => hne e' (mem_cons_of_mem _ he'),
        fun e' he' => hpos e' (mem_cons_of_mem _ he'), hnodup.2⟩
  · rintro ⟨⟨hwf, hne, hpos, hnew⟩, h⟩
    refine ⟨?_, ?_, ?_, ?_⟩
    · rintro e' (_ | ⟨_, he'⟩)
      · exact hwf
      · exact h.wellFormed e' he'
    · rintro e' (_ | ⟨_, he'⟩)
      · exact hne
      · exact h.ne_zero e' he'
    · rintro e' (_ | ⟨_, he'⟩)
      · exact hpos
      · exact h.pos e' he'
    · rw [map_cons, nodup_cons]
      refine ⟨fun hmem => ?_, h.nodup⟩
      obtain ⟨e', he', heq⟩ := mem_map.1 hmem
      exact hnew e' he' heq

theorem recorded_eq_zero (h : ∀ e ∈ ips, e.addr ≠ a) : recorded ips a = 0 := by
  induction ips with
  | nil => rfl
  | cons e ips ih =>
    rw [recorded_cons, if_neg (h e mem_cons_self),
      ih fun e' he' => h e' (mem_cons_of_mem _ he'), add_zero]

theorem recorded_of_mem (h : TableOk ips) (he : e ∈ ips) : recorded ips e.addr = e.connections := by
  induction ips with
  | nil => cases he
  | cons e' ips ih =>
    obtain ⟨⟨-, -, -, hnew⟩, htail⟩ := tableOk_cons.1 h
    rw [recorded_cons]
    rcases mem_cons.1 he with rfl | he
    · rw [if_pos rfl, recorded_eq_zero hnew, add_zero]
    · rw [if_neg (hnew e he).symm, ih htail he, zero_add]

theorem exists_entry_iff (h : TableOk ips) : (∃ e ∈ ips, e.addr = a) ↔ 0 < recorded ips a := by
  constructor
  · rintro ⟨e, he, rfl⟩
    rw [recorded_of_mem h he]
    exact h.pos e he
  · intro hpos
    by_contra hnone
    push Not at hnone
    rw [recorded_eq_zero hnone] at hpos
    exact lt_irrefl _ hpos

theorem any_isFor_iff (h : TableOk ips) (ha : a.WellFormed) :
    (ips.any (·.isFor a) = true) ↔ ∃ e ∈ ips, e.addr = a := by
  rw [any_eq_true]
  refine exists_congr fun e => and_congr_right fun he => ?_
  exact isFor_iff (h.wellFormed e he) (h.ne_zero e he) ha

theorem recorded_updateTracked (h : TableOk ips) (ha : a.WellFormed) (d : ℤ)
    (hmem : ∃ e ∈ ips, e.addr = a) (b : Addr) :
    recorded (updateTracked a (fun e => { e with connections := e.connections + d }) ips) b =
      recorded ips b + if b = a then d else 0 := by
  induction ips with
  | nil => simp at hmem
  | cons e ips ih =>
    obtain ⟨⟨hwf, hne, -, -⟩, htail⟩ := tableOk_cons.1 h
    have hiff := isFor_iff hwf hne ha
    by_cases he : e.addr = a
    · rw [updateTracked, if_pos (hiff.2 he)]
      subst he
      by_cases hb : e.addr = b
      · simp [hb]
        ring
      · simp [hb, Ne.symm hb]
    · rw [updateTracked, if_neg (fun h' => he (hiff.1 h')), recorded_cons, recorded_cons,
        ih htail, add_assoc]
      simpa [he] using hmem

theorem map_addr_updateTracked (f : TrackedIp → TrackedIp) (hf : ∀ e, (f e).addr = e.addr) :
    (updateTracked a f ips).map (·.addr) = ips.map (·.addr) := by
  induction ips with
  | nil => rfl
  | cons e ips ih =>
    rw [updateTracked]
    split_ifs <;> simp [hf, ih]

@[simp] theorem length_updateTracked (f : TrackedIp → TrackedIp) :
    (updateTracked a f ips).length = ips.length := by
  induction ips with
  | nil => rfl
  | cons e ips ih =>
    rw [updateTracked]
    split_ifs <;> simp [ih]

theorem tableOk_updateTracked (h : TableOk ips) (ha : a.WellFormed) {d : ℤ}
    (hpos : 0 < recorded ips a + d) :
    TableOk (updateTracked a (fun e => { e with connections := e.connections + d }) ips) := by
  induction ips with
  | nil => exact tableOk_nil
  | cons e ips ih =>
    obtain ⟨⟨hwf, hne, hconn, hnew⟩, htail⟩ := tableOk_cons.1 h
    have hiff := isFor_iff hwf hne ha
    rw [updateTracked]
    by_cases he : e.addr = a
    · rw [if_pos (hiff.2 he), tableOk_cons]
      subst he
      rw [recorded_of_mem h mem_cons_self] at hpos
      exact ⟨⟨hwf, hne, hpos, hnew⟩, htail⟩
    · rw [if_neg (fun h' => he (hiff.1 h')), tableOk_cons]
      rw [recorded_cons, if_neg he, zero_add] at hpos
      refine ⟨⟨hwf, hne, hconn, fun e' he' heq => ?_⟩, ih htail hpos⟩
      -- the addresses are the same as before the update
      have hmem := mem_map_of_mem (f := (·.addr)) he'
      rw [map_addr_updateTracked (fun e => { e with connections := e.connections + d })
        fun _ => rfl] at hmem
      obtain ⟨e'', he'', heq'⟩ := mem_map.1 hmem
      exact hnew e'' he'' (heq'.trans heq)

theorem recorded_eraseP (h : TableOk ips) (ha : a.WellFormed) (b : Addr) :
    recorded (ips.eraseP (·.isFor a)) b = if b = a then 0 else recorded ips b := by
  induction ips with
  | nil => simp
  | cons e ips ih =>
    obtain ⟨⟨hwf, hne, -, hnew⟩, htail⟩ := tableOk_cons.1 h
    have hiff := isFor_iff hwf hne ha
    by_cases he : e.addr = a
    · rw [eraseP_cons_of_pos (p := fun e : TrackedIp => e.isFor a) (hiff.2 he)]
      subst he
      split_ifs with hb
      · rw [hb]
        exact recorded_eq_zero hnew
      · rw [recorded_cons, if_neg (Ne.symm hb), zero_add]
    · rw [eraseP_cons_of_neg (p := fun e : TrackedIp => e.isFor a) (fun h' => he (hiff.1 h')),
        recorded_cons,
        ih htail]
      split_ifs with h1 h2 h2
      · exact absurd (h1.trans h2) he
      · rw [recorded_cons, if_pos h1]
      · rfl
      · rw [recorded_cons, if_neg h1]

theorem tableOk_sublist {ips' : List TrackedIp} (h : TableOk ips) (hsub : ips'.Sublist ips) :
    TableOk ips' :=
  ⟨fun e he => h.wellFormed e (hsub.subset he), fun e he => h.ne_zero e (hsub.subset he),
    fun e he => h.pos e (hsub.subset he), h.nodup.sublist (hsub.map _)⟩

end Record

/-! ### One connection -/

/-- The slot records its clients: `max_ips` or the rate limit is positive. -/
def Slot.tracks (x : Slot) : Bool := x.maxIps > 0 || x.rateLimit > 0

theorem tracks_connect (x : Slot) (a : Addr) : (x.connect a).tracks = x.tracks := by
  unfold Slot.connect ipTrackConnect
  split_ifs <;> rfl

theorem tracks_disconnect (x : Slot) (a : Addr) : (x.disconnect a).tracks = x.tracks := by
  unfold Slot.disconnect ipTrackDisconnect
  split
  · rfl
  · split_ifs <;> rfl

/-- The record of a slot is in order. -/
structure Slot.RecordOk (x : Slot) : Prop where
  table : TableOk x.ips
  unique : x.uniqueIpCount = x.ips.length

theorem Slot.Unused.recordOk {x : Slot} (h : x.Unused) : x.RecordOk := by
  constructor
  · rw [h.ips.1]
    exact tableOk_nil
  · rw [h.ips.1, h.ips.2]
    rfl

section Connection

variable {x : Slot} {a : Addr}

theorem connect_of_not_tracks (h : x.tracks = false) (a : Addr) :
    x.connect a = { x with
      connections := x.connections + 1, connectionsCreated := x.connectionsCreated + 1 } := by
  have hlimits : x.maxIps ≤ 0 ∧ x.rateLimit ≤ 0 := by simpa [Slot.tracks] using h
  unfold Slot.connect ipTrackConnect
  rw [if_pos (by exact hlimits)]

theorem recordOk_connect (hx : x.RecordOk) (htracks : x.tracks = true) (ha : a.WellFormed)
    (hne : a ≠ .zero) (hroom : recorded x.ips a = 0 → x.ips.length < maxTrackedIps) :
    (x.connect a).RecordOk ∧
      ∀ b, recorded (x.connect a).ips b = recorded x.ips b + if b = a then 1 else 0 := by
  have hlimits : ¬ (x.maxIps ≤ 0 ∧ x.rateLimit ≤ 0) := by
    simp only [Slot.tracks, Bool.or_eq_true, decide_eq_true_eq] at htracks
    omega
  have hiff := any_isFor_iff hx.table ha
  unfold Slot.connect ipTrackConnect
  rw [if_neg (by exact hlimits)]
  by_cases hmem : ∃ e ∈ x.ips, e.addr = a
  · have hpos := (exists_entry_iff hx.table).1 hmem
    rw [if_pos (by exact hiff.2 hmem)]
    refine ⟨⟨tableOk_updateTracked hx.table ha (by omega), ?_⟩,
      recorded_updateTracked hx.table ha 1 hmem⟩
    simpa using hx.unique
  · have hzero : recorded x.ips a = 0 := recorded_eq_zero fun e he heq => hmem ⟨e, he, heq⟩
    rw [if_neg (by exact fun h => hmem (hiff.1 h)), if_pos (by exact hroom hzero)]
    refine ⟨⟨⟨?_, ?_, ?_, ?_⟩, ?_⟩, ?_⟩
    · intro e he
      rcases mem_append.1 he with he | he
      · exact hx.table.wellFormed e he
      · rw [mem_singleton.1 he]
        exact ha
    · intro e he
      rcases mem_append.1 he with he | he
      · exact hx.table.ne_zero e he
      · rw [mem_singleton.1 he]
        exact hne
    · intro e he
      rcases mem_append.1 he with he | he
      · exact hx.table.pos e he
      · rw [mem_singleton.1 he]
        exact one_pos
    · simp only [map_append, map_cons, map_nil]
      refine nodup_append.2 ⟨hx.table.nodup, nodup_singleton _, ?_⟩
      rintro b hb c hc rfl
      obtain ⟨e, he, heq⟩ := mem_map.1 hb
      exact hmem ⟨e, he, heq.trans (mem_singleton.1 hc)⟩
    · simp [hx.unique]
    · simp [eq_comm]

theorem recordOk_disconnect (hx : x.RecordOk) (ha : a.WellFormed) :
    (x.disconnect a).RecordOk ∧
      ∀ b, recorded (x.disconnect a).ips b =
        if b = a then max (recorded x.ips a - 1) 0 else recorded x.ips b := by
  unfold Slot.disconnect ipTrackDisconnect
  cases hfind : x.ips.find? (·.isFor a) with
  | none =>
    have hnone : ∀ e ∈ x.ips, e.addr ≠ a := by
      intro e he heq
      have := find?_eq_none.1 hfind e he
      exact this ((isFor_iff (hx.table.wellFormed e he) (hx.table.ne_zero e he) ha).2 heq)
    refine ⟨⟨hx.table, hx.unique⟩, fun b => ?_⟩
    by_cases hb : b = a
    · subst hb
      simp [recorded_eq_zero hnone]
    · simp [hb]
  | some e =>
    have he := mem_of_find?_eq_some hfind
    have heq : e.addr = a := (isFor_iff (hx.table.wellFormed e he) (hx.table.ne_zero e he) ha).1
      (find?_some (p := fun e : TrackedIp => e.isFor a) hfind)
    have hrec : recorded x.ips a = e.connections := by
      rw [← heq]
      exact recorded_of_mem hx.table he
    dsimp only
    by_cases hlast : e.connections - 1 ≤ 0
    · rw [if_pos hlast]
      refine ⟨⟨tableOk_sublist hx.table eraseP_sublist, ?_⟩, fun b => ?_⟩
      · have hlen := length_eraseP_of_mem (p := fun e : TrackedIp => e.isFor a) he
          (find?_some (p := fun e : TrackedIp => e.isFor a) hfind)
        have hlt := length_pos_of_mem he
        simp only [hlen, hx.unique]
        omega
      · rw [recorded_eraseP hx.table ha]
        split_ifs with hb
        · omega
        · rfl
    · rw [if_neg hlast]
      have hmem : ∃ e ∈ x.ips, e.addr = a := ⟨e, he, heq⟩
      have hupd := recorded_updateTracked hx.table ha (-1) hmem
      have hok := tableOk_updateTracked (d := -1) hx.table ha (by omega)
      simp only [← sub_eq_add_neg] at hupd hok
      refine ⟨⟨hok, ?_⟩, fun b => ?_⟩
      · simpa using hx.unique
      · rw [hupd]
        split_ifs with hb
        · subst hb
          omega
        · omega

end Connection

/-! ### Runs -/

/-- The table of secrets, the addresses of the live connections counted under each slot, and the
addresses of which a client was missed: it was counted while the slot recorded nothing, and the
address has had a live connection ever since. -/
structure TrackState where
  tbl : SecretTable
  live : ℕ → List Addr
  missed : ℕ → Addr → Bool

inductive TrackEvent
  | connect (s : ℕ) (a : Addr)
  | disconnect (s : ℕ) (a : Addr)
  | reload (entries : List SecretEntry)
  | release (s : ℕ)
  deriving DecidableEq, Repr

/-- A client is counted under the slot. -/
def trackConnect (st : TrackState) (s : ℕ) (a : Addr) : TrackState where
  tbl := { st.tbl with slot := update st.tbl.slot s ((st.tbl.slot s).connect a) }
  live := update st.live s (a :: st.live s)
  missed := if (st.tbl.slot s).tracks then st.missed
    else update st.missed s (update (st.missed s) a true)

/-- A connection counted under the slot closes. -/
def trackDisconnect (st : TrackState) (s : ℕ) (a : Addr) : TrackState where
  tbl := { st.tbl with slot := update st.tbl.slot s ((st.tbl.slot s).disconnect a) }
  live := update st.live s ((st.live s).erase a)
  missed := if a ∈ (st.live s).erase a then st.missed
    else update st.missed s (update (st.missed s) a false)

/-- Connects, disconnects, successful reloads and the release of drained slots. -/
def trackStep (st : TrackState) : TrackEvent → Option TrackState
  | .connect s a => if s < maxSlots ∧ a.WellFormed then some (trackConnect st s a) else none
  | .disconnect s a => if a ∈ st.live s then some (trackDisconnect st s a) else none
  | .reload entries =>
    if (reloadExtSecrets st.tbl entries).1 then
      some { st with tbl := (reloadExtSecrets st.tbl entries).2 }
    else none
  | .release s => some { st with tbl := releaseSlotIfEmpty st.tbl s }

def trackStart (tbl : SecretTable) : TrackState where
  tbl := tbl
  live := fun _ => []
  missed := fun _ _ => false

/-- The slot has at most 256 distinct live addresses, the new client's included. -/
def TrackState.HasRoom (st : TrackState) (s : ℕ) (a : Addr) : Prop :=
  (a :: st.live s).toFinset.card ≤ maxTrackedIps

/-- The condition on a step: a client is counted under a slot in use with at most 256 addresses,
and under one that records its clients only with an address; and a reload makes a slot record its
clients only if no client of a live address was missed. -/
def SoundTracking (st : TrackState) : TrackEvent → Prop
  | .connect s a => st.HasRoom s a ∧ (st.tbl.slot s).state ≠ .free ∧
      ((st.tbl.slot s).tracks = true → a ≠ .zero)
  | .disconnect _ _ => True
  | .reload entries => ∀ s < maxSlots, (st.tbl.slot s).tracks = false →
      ((reloadExtSecrets st.tbl entries).2.slot s).tracks = true →
        ∀ a ∈ st.live s, st.missed s a = false
  | .release _ => True

instance (st : TrackState) : ∀ e, Decidable (SoundTracking st e)
  | .connect _ _ => inferInstanceAs (Decidable (_ ≤ _ ∧ _ ∧ _))
  | .disconnect _ _ => inferInstanceAs (Decidable True)
  | .reload _ => inferInstanceAs (Decidable (∀ s < maxSlots, _))
  | .release _ => inferInstanceAs (Decidable True)

/-- One slot with its live connections: the record has nothing that is not live, and everything of
an address none of whose clients was missed. -/
structure TrackInv (x : Slot) (live : List Addr) (missed : Addr → Bool) : Prop where
  record : x.RecordOk
  connections : x.connections = live.length
  wellFormed : ∀ a ∈ live, a.WellFormed
  le : ∀ a, recorded x.ips a ≤ live.count a
  eq : ∀ a, a ≠ .zero → missed a = false → recorded x.ips a = live.count a
  mem_of_missed : ∀ a, missed a = true → a ∈ live
  tracks : x.tracks = true → ∀ a, missed a = false

section Invariant

variable {x : Slot} {live : List Addr} {missed : Addr → Bool} {a : Addr}

theorem trackInv_unused (hx : x.Unused) : TrackInv x [] fun _ => false where
  record := hx.recordOk
  connections := hx.connections
  wellFormed := fun a ha => absurd ha (by simp)
  le := fun a => by simp [hx.ips.1]
  eq := fun a _ _ => by simp [hx.ips.1]
  mem_of_missed := fun a h => absurd h (by simp)
  tracks := fun _ _ => rfl

section

variable (h : TrackInv x live missed)
include h

theorem TrackInv.length_ips_le : x.ips.length ≤ live.toFinset.card := by
  rw [← length_map (·.addr), ← toFinset_card_of_nodup h.record.table.nodup]
  apply Finset.card_le_card
  intro b hb
  obtain ⟨e, he, rfl⟩ := mem_map.1 (mem_toFinset.1 hb)
  have hle := h.le e.addr
  have hpos := h.record.table.pos e he
  rw [recorded_of_mem h.record.table he] at hle
  exact mem_toFinset.2 (count_pos_iff.1 (by omega))

theorem trackInv_connect (ha : a.WellFormed) (hroom : (a :: live).toFinset.card ≤ maxTrackedIps)
    (hne : x.tracks = true → a ≠ .zero) :
    TrackInv (x.connect a) (a :: live) (if x.tracks then missed else update missed a true) := by
  have hwf : ∀ b ∈ a :: live, b.WellFormed := by
    rintro b (_ | ⟨_, hb⟩)
    · exact ha
    · exact h.wellFormed b hb
  have hcount : (x.connect a).connections = (a :: live).length := by
    rw [connections_connect, h.connections]
    simp
  cases htracks : x.tracks with
  | true =>
    have hall := h.tracks htracks
    have hfull : recorded x.ips a = 0 → x.ips.length < maxTrackedIps := by
      intro hzero
      have hnew : a ∉ live := by
        intro hmem
        have := count_pos_iff.2 hmem
        have := h.eq a (hne htracks) (hall a)
        omega
      have hcard := h.length_ips_le
      rw [toFinset_cons, Finset.card_insert_of_notMem (by simpa using hnew)] at hroom
      omega
    obtain ⟨hrecord, hrec⟩ := recordOk_connect h.record htracks ha (hne htracks) hfull
    refine ⟨hrecord, hcount, hwf, fun b => ?_, fun b hb hmiss => ?_, fun b hb => ?_, fun _ => hall⟩
    · have := h.le b
      rw [hrec]
      by_cases hab : b = a
      · simp [hab] at this ⊢
        omega
      · simp [hab, Ne.symm hab]
        exact this
    · rw [hrec, h.eq b hb (hall b)]
      by_cases hab : b = a
      · simp [hab]
      · simp [hab, Ne.symm hab]
    · have := hall b
      simp only [if_true] at hb
      rw [this] at hb
      cases hb
  | false =>
    have hsame := connect_of_not_tracks htracks a
    have hips : (x.connect a).ips = x.ips := by rw [hsame]
    refine ⟨⟨hips ▸ h.record.table, by rw [hsame]; exact h.record.unique⟩, hcount, hwf,
      fun b => ?_, fun b hb hmiss => ?_, fun b hb => ?_, fun ht => ?_⟩
    · rw [hips]
      exact (h.le b).trans (by exact_mod_cast count_le_count_cons)
    · -- the address just counted is missed from now on
      have hab : b ≠ a := by
        rintro rfl
        simp at hmiss
      rw [hips, h.eq b hb (by simpa [hab] using hmiss), count_cons_of_ne (Ne.symm hab)]
    · by_cases hab : b = a
      · exact hab ▸ mem_cons_self
      · exact mem_cons_of_mem _ (h.mem_of_missed b (by simpa [hab] using hb))
    · rw [tracks_connect, htracks] at ht
      cases ht

theorem trackInv_disconnect (ha : a ∈ live) :
    TrackInv (x.disconnect a) (live.erase a)
      (if a ∈ live.erase a then missed else update missed a false) := by
  obtain ⟨hrecord, hrec⟩ := recordOk_disconnect h.record (h.wellFormed a ha)
  have hself : (live.erase a).count a = live.count a - 1 := count_erase_self
  have hmissed : ∀ b, b ≠ a →
      (if a ∈ live.erase a then missed else update missed a false) b = missed b := by
    intro b hb
    split_ifs
    · rfl
    · exact update_of_ne hb _ _
  refine ⟨hrecord, ?_, fun b hb => h.wellFormed b (mem_of_mem_erase hb), fun b => ?_,
    fun b hb hmiss => ?_, fun b hb => ?_, fun ht b => ?_⟩
  · rw [connections_disconnect, h.connections, length_erase_of_mem ha]
    have := length_pos_of_mem ha
    omega
  · have hle := h.le b
    rw [hrec]
    split_ifs with hab
    · subst hab
      omega
    · rw [count_erase_of_ne hab]
      exact hle
  · rw [hrec]
    split_ifs with hab
    · subst hab
      by_cases hlast : b ∈ live.erase b
      · rw [if_pos hlast] at hmiss
        have := h.eq b hb hmiss
        omega
      · -- the address has no live connection left
        have hzero := count_eq_zero.2 hlast
        have hle := h.le b
        omega
    · rw [count_erase_of_ne hab]
      exact h.eq b hb (by rwa [hmissed b hab] at hmiss)
  · by_cases hab : b = a
    · subst hab
      by_contra hlast
      rw [if_neg hlast] at hb
      simp at hb
    · rw [hmissed b hab] at hb
      exact (mem_erase_of_ne hab).2 (h.mem_of_missed b hb)
  · rw [tracks_disconnect] at ht
    have hall := h.tracks ht
    by_cases hab : b = a
    · subst hab
      split_ifs
      · exact hall b
      · simp
    · rw [hmissed b hab]
      exact hall b

theorem TrackInv.kept {y : Slot} (hkept : x.Kept y)
    (htracks : x.tracks = false → y.tracks = true → ∀ a ∈ live, missed a = false) :
    TrackInv y live missed where
  record := ⟨hkept.ips.1 ▸ h.record.table, by rw [hkept.ips.1, hkept.ips.2]; exact h.record.unique⟩
  connections := hkept.connections.trans h.connections
  wellFormed := h.wellFormed
  le := by rw [hkept.ips.1]; exact h.le
  eq := by rw [hkept.ips.1]; exact h.eq
  mem_of_missed := h.mem_of_missed
  tracks := by
    intro ht b
    cases hx : x.tracks with
    | true => exact h.tracks hx b
    | false =>
      by_contra hb
      have hb : missed b = true := by simpa using hb
      have := htracks hx ht b (h.mem_of_missed b hb)
      rw [this] at hb
      cases hb

theorem TrackInv.replace {y : Slot} (hx : x.connections = 0) (hy : y.Unused) :
    TrackInv y live missed := by
  have hlive : live = [] := by
    have := h.connections
    exact length_eq_zero_iff.1 (by omega)
  subst hlive
  have hmissed : missed = fun _ => false := by
    funext b
    by_contra hb
    exact absurd (h.mem_of_missed b (by simpa using hb)) (by simp)
  rw [hmissed]
  exact trackInv_unused hy

end

end Invariant

/-- The table is in order, and every slot is. -/
structure TrackState.Ok (st : TrackState) : Prop where
  good : st.tbl.Good
  slot : ∀ s < maxSlots, TrackInv (st.tbl.slot s) (st.live s) (st.missed s)
  live : ∀ s, maxSlots ≤ s → st.live s = []

theorem trackState_ok_start {cli : List SecretEntry} {tbl : SecretTable}
    (h : pinExtSecrets cli = some tbl) : (trackStart tbl).Ok where
  good := (pinExtSecrets_spec h).1
  slot := fun s _ => trackInv_unused ((pinExtSecrets_loading h).1.unused s)
  live := fun _ _ => rfl

theorem trackState_ok_step (st : TrackState) (e : TrackEvent) (st' : TrackState) (h : st.Ok)
    (hok : SoundTracking st e) (hstep : trackStep st e = some st') : st'.Ok := by
  cases e with
  | connect s a =>
    obtain ⟨hroom, hused, hne⟩ := hok
    simp only [trackStep] at hstep
    split_ifs at hstep with hen
    cases hstep
    refine ⟨good_setSlot h.good (state_connect _ a) fun hfree => ?_, fun s' hs' => ?_,
      fun s' hs' => ?_⟩
    · rw [state_connect] at hfree
      exact absurd hfree hused
    · by_cases hs : s' = s
      · subst hs
        have hinv := trackInv_connect (h.slot s' hs') hen.2 hroom hne
        simp only [trackConnect, update_self]
        split_ifs with ht
        · simpa [ht] using hinv
        · simpa [ht] using hinv
      · have hinv := h.slot s' hs'
        simp only [trackConnect, update_of_ne hs]
        split_ifs
        · exact hinv
        · simpa [update_of_ne hs] using hinv
    · have hs : s' ≠ s := by omega
      simpa [trackConnect, update_of_ne hs] using h.live s' hs'
  | disconnect s a =>
    simp only [trackStep] at hstep
    split_ifs at hstep with ha
    cases hstep
    have hs : s < maxSlots := by
      by_contra hge
      rw [h.live s (by omega)] at ha
      cases ha
    have hpos := length_pos_of_mem ha
    have hconn := (h.slot s hs).connections
    refine ⟨good_setSlot h.good (state_disconnect _ a) fun hfree => ?_, fun s' hs' => ?_,
      fun s' hs' => ?_⟩
    · rw [state_disconnect] at hfree
      have := h.good.free s hfree
      omega
    · by_cases hss : s' = s
      · subst hss
        have hinv := trackInv_disconnect (h.slot s' hs') ha
        simp only [trackDisconnect, update_self]
        split_ifs with hmem
        · simpa [hmem] using hinv
        · simpa [hmem] using hinv
      · have hinv := h.slot s' hs'
        simp only [trackDisconnect, update_of_ne hss]
        split_ifs
        · exact hinv
        · simpa [update_of_ne hss] using hinv
    · have hss : s' ≠ s := by omega
      simpa [trackDisconnect, update_of_ne hss] using h.live s' hs'
  | reload entries =>
    simp only [trackStep] at hstep
    split_ifs at hstep
    cases hstep
    refine ⟨good_reload h.good entries, fun s hs => ?_, h.live⟩
    rcases reload_cases st.tbl entries s with hkept | ⟨-, -, hfree, e, hfresh⟩
    · exact (h.slot s hs).kept hkept (hok s hs)
    · refine (h.slot s hs).replace (h.good.free s hfree) ?_
      rw [hfresh]
      exact unused_fresh s e
  | release s =>
    cases hstep
    refine ⟨good_release h.good s, fun s' hs' => ?_, h.live⟩
    rcases release_cases st.tbl s s' with hsame | ⟨rfl, -, hzero, hclear⟩
    · rw [hsame]
      exact h.slot s' hs'
    · refine (h.slot s' hs').replace hzero ?_
      rw [hclear]
      exact unused_zero

/-- **The record of a slot with limits is exact**, in every run that switches the recording of a
slot on only while no client of a live address was missed. -/
theorem tracked_eq_live {cli : List SecretEntry} {tbl : SecretTable}
    (hstart : pinExtSecrets cli = some tbl) {es : List TrackEvent} {st : TrackState}
    (hok : Along trackStep SoundTracking (trackStart tbl) es)
    (hrun : run trackStep (trackStart tbl) es = some st) {s : ℕ} (hs : s < maxSlots)
    (htracks : (st.tbl.slot s).tracks = true) :
    (∀ a : Addr, a.WellFormed → a ≠ .zero →
      (ipTracked (st.tbl.slot s) a = true ↔ a ∈ st.live s) ∧
        ∀ e ∈ (st.tbl.slot s).ips, e.isFor a = true → e.connections = (st.live s).count a) ∧
      (st.tbl.slot s).uniqueIpCount = ((st.live s).toFinset.erase .zero).card := by
  have hinv := (run_invariant trackState_ok_step (trackState_ok_start hstart) hok hrun).slot s hs
  have hall := hinv.tracks htracks
  have htable := hinv.record.table
  have htracked : ∀ a : Addr, a ≠ .zero →
      ((∃ e ∈ (st.tbl.slot s).ips, e.addr = a) ↔ a ∈ st.live s) := by
    intro a hne
    rw [exists_entry_iff htable, hinv.eq a hne (hall a), ← count_pos_iff]
    omega
  refine ⟨fun a ha hne => ⟨(any_isFor_iff htable ha).trans (htracked a hne), fun e he hfor => ?_⟩, ?_⟩
  · have heq := (isFor_iff (htable.wellFormed e he) (htable.ne_zero e he) ha).1 hfor
    rw [← recorded_of_mem htable he, heq]
    exact hinv.eq a hne (hall a)
  · rw [hinv.record.unique, ← length_map (·.addr), ← toFinset_card_of_nodup htable.nodup]
    congr 2
    ext b
    rw [Finset.mem_erase, mem_toFinset, mem_toFinset, mem_map]
    constructor
    · rintro ⟨e, he, rfl⟩
      have hne := htable.ne_zero e he
      exact ⟨hne, (htracked e.addr hne).1 ⟨e, he, rfl⟩⟩
    · rintro ⟨hne, hb⟩
      exact (htracked b hne).2 hb

/-- A process without command-line secrets. -/
def emptyTable : SecretTable := ⟨fun _ => Slot.zero, 0, 0⟩

/-- A configuration of one secret with the given limit on addresses. -/
def sampleMaxIps (maxIps : ℤ) : TrackEvent :=
  .reload [⟨List.replicate 16 7, "a", 0, 0, 0, maxIps, 0⟩]

/-- Two clients of an IPv4 address and one of an IPv6 address come, one goes. -/
def sampleComing : List TrackEvent :=
  [sampleMaxIps 5, .connect 0 ⟨1, 0⟩, .connect 0 ⟨1, 0⟩, .connect 0 ⟨0, 9⟩, .disconnect 0 ⟨1, 0⟩]

theorem tracked_eq_live_sampleComing :
    ∃ st, run trackStep (trackStart emptyTable) sampleComing = some st ∧
      (st.tbl.slot 0).ips = [⟨⟨1, 0⟩, 1⟩, ⟨⟨0, 9⟩, 1⟩] ∧
      (ipTracked (st.tbl.slot 0) ⟨0, 9⟩ = true ↔ ⟨0, 9⟩ ∈ st.live 0) ∧
      (st.tbl.slot 0).uniqueIpCount = ((st.live 0).toFinset.erase .zero).card := by
  obtain ⟨st, hst, htracks, hips⟩ : ∃ st, run trackStep (trackStart emptyTable) sampleComing = some st ∧
      (st.tbl.slot 0).tracks = true ∧ (st.tbl.slot 0).ips = [⟨⟨1, 0⟩, 1⟩, ⟨⟨0, 9⟩, 1⟩] := by
    decide +kernel
  have hok : Along trackStep SoundTracking (trackStart emptyTable) sampleComing := by
    decide +kernel
  obtain ⟨haddr, hunique⟩ :=
    tracked_eq_live (show pinExtSecrets [] = some emptyTable from rfl) hok hst (s := 0)
      (by decide) htracks
  exact ⟨st, hst, hips, (haddr ⟨0, 9⟩ (by decide) (by decide)).1, hunique⟩

/-- The limit is switched on while a client is connected: the client has no entry. -/
theorem tracked_missing_after_reload :
    ∃ st, run trackStep (trackStart emptyTable)
        [sampleMaxIps 0, .connect 0 ⟨1, 0⟩, sampleMaxIps 5] = some st ∧
      (st.tbl.slot 0).tracks = true ∧ ⟨1, 0⟩ ∈ st.live 0 ∧
      ipTracked (st.tbl.slot 0) ⟨1, 0⟩ = false ∧ (st.tbl.slot 0).uniqueIpCount = 0 := by
  decide +kernel

end Mtbolt.Secrets
