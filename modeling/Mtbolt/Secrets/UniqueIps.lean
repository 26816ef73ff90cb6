import Mtbolt.Secrets.SlotReuse

/-!
# The count of unique addresses

`ip_track_connect` counts a client in `per_secret_unique_ips` of its slot when
`uniq_bloom_test_and_set` finds one of the address's four bits not set.  When a slot is released or given
to a new secret, its count and its bits are cleared together.
-/

namespace Mtbolt.Secrets

open BloomFilter Function List

/-- `per_secret_unique_ips` and `uniq_bloom`. -/
structure UniqueIps where
  count : ℕ → ℤ
  bloom : ℕ → UniqBloom

inductive UniqueEvent
  | connect (s : ℕ) (addr : Addr)
  | clear (s : ℕ)

/-- The slot of an event. -/
def UniqueEvent.slot : UniqueEvent → ℕ
  | .connect s _ | .clear s => s

/-- The counting part of `ip_track_connect`, and what `tcp_rpcs_reload_ext_secrets` and
`tcp_rpcs_drain_release_slot_if_empty` do to the count and the filter of a slot. -/
def UniqueIps.step (u : UniqueIps) : UniqueEvent → UniqueIps
  | .connect s addr =>
    let r := uniqBloomTestAndSet (u.bloom s) addr
    ⟨if r.1 then update u.count s (u.count s + 1) else u.count, update u.bloom s r.2⟩
  | .clear s => ⟨update u.count s 0, update u.bloom s fun _ => false⟩

/-- All counts and filters are clear. -/
def UniqueIps.zero : UniqueIps := ⟨fun _ => 0, fun _ _ => false⟩

/-- The address as the filter sees it: `remote_ipv6` does not matter for an IPv4 client. -/
def Addr.client (addr : Addr) : Addr := if addr.ip ≠ 0 then ⟨addr.ip, 0⟩ else addr

/-- The clients of every slot since it was last cleared. -/
def seenStep (seen : ℕ → Finset Addr) : UniqueEvent → ℕ → Finset Addr
  | .connect s addr => update seen s (insert addr.client (seen s))
  | .clear s => update seen s ∅

theorem bloomHashes_client (addr : Addr) : bloomHashes addr.client = bloomHashes addr := by
  unfold Addr.client
  split_ifs with h
  · simp only [bloomHashes, if_pos h]
  · rfl

variable {u : UniqueIps} {seen : ℕ → Finset Addr}

/-- The count and the filter of every slot agree with its clients. -/
def UniqueIps.Counted (u : UniqueIps) (seen : ℕ → Finset Addr) : Prop :=
  ∀ s, Counts bloomHashes (u.bloom s) (seen s) (u.count s)

theorem UniqueIps.step_of_ne {e : UniqueEvent} {s : ℕ} (h : e.slot ≠ s) :
    (u.step e).count s = u.count s ∧ (u.step e).bloom s = u.bloom s := by
  cases e with
  | connect s' addr =>
    refine ⟨?_, update_of_ne h.symm _ _⟩
    unfold UniqueIps.step
    dsimp only
    split_ifs
    · exact update_of_ne h.symm _ _
    · rfl
  | clear s' => exact ⟨update_of_ne h.symm _ _, update_of_ne h.symm _ _⟩

theorem UniqueIps.count_connect (s : ℕ) (addr : Addr) : (u.step (.connect s addr)).count s =
    if (uniqBloomTestAndSet (u.bloom s) addr).1 then u.count s + 1 else u.count s := by
  unfold UniqueIps.step
  dsimp only
  split_ifs
  · exact update_self ..
  · rfl

theorem UniqueIps.Counted.step (h : u.Counted seen) (e : UniqueEvent) :
    (u.step e).Counted (seenStep seen e) := by
  intro s
  by_cases hs : e.slot = s
  · subst hs
    cases e with
    | connect s addr =>
      have hinsert := (h s).insert addr.client
      rw [bloomHashes_client] at hinsert
      have hbloom : (u.step (.connect s addr)).bloom s = (uniqBloomTestAndSet (u.bloom s) addr).2 :=
        update_self ..
      simp only [UniqueEvent.slot, UniqueIps.count_connect, seenStep, update_self, hbloom]
      exact hinsert
    | clear s =>
      simp only [UniqueEvent.slot, UniqueIps.step, seenStep, update_self]
      exact counts_empty
  · obtain ⟨hcount, hbloom⟩ := UniqueIps.step_of_ne (u := u) hs
    have hseen : seenStep seen e s = seen s := by
      cases e <;> exact update_of_ne (Ne.symm hs) _ _
    rw [hcount, hbloom, hseen]
    exact h s

theorem counted_run (es : List UniqueEvent) :
    (es.foldl UniqueIps.step .zero).Counted (es.foldl seenStep fun _ => ∅) := by
  induction es using reverseRecOn with
  | nil => exact fun _ => counts_empty
  | append_singleton es e ih =>
    rw [foldl_append, foldl_append]
    exact ih.step e

/-- **The count of unique addresses**, after every sequence of events: it is not above the number of
distinct clients of the slot since the slot was last cleared, a client among them is not counted
again, and an event for another slot changes neither the count nor the filter. -/
theorem unique_ips_counted (es : List UniqueEvent) (s : ℕ) :
    let u := es.foldl UniqueIps.step .zero
    let seen := es.foldl seenStep fun _ => ∅
    u.count s ≤ (seen s).card ∧
      (∀ addr, addr.client ∈ seen s → (u.step (.connect s addr)).count s = u.count s) ∧
      ∀ e, e.slot ≠ s → (u.step e).count s = u.count s ∧ (u.step e).bloom s = u.bloom s := by
  intro u seen
  have hcounts := counted_run es s
  refine ⟨hcounts.le, fun addr haddr => ?_, fun e he => UniqueIps.step_of_ne he⟩
  have hbits := hcounts.set addr.client haddr
  rw [bloomHashes_client] at hbits
  have hold : uniqBloomTestAndSet (u.bloom s) addr = (false, u.bloom s) := testAndSet_of_set hbits
  rw [UniqueIps.count_connect, hold]
  rfl

end Mtbolt.Secrets
