import Mtbolt.Worker.Admission

/-!
# Quotas

A quota bounds the bytes that the clients of a secret receive and send.  In direct mode the relay
handlers count the bytes before they hand them on, and hand nothing on once the count has reached
the quota.  In relay mode the packets of a client go to a middle-end through `ext_rpcs_execute`, and
the answers come back through `client_send_message`; neither counts or checks anything.
-/

namespace Mtbolt.Worker

open EventRun Secrets Function Option

/-- The bytes counted under a slot. -/
def charged (x : Slot) : ℤ := x.bytesReceived + x.bytesSent

/-- The worker, the bytes relayed under each slot since its allocation, and the clients for which a
packet was forwarded to a middle-end. -/
structure QuotaState where
  worker : State
  relayed : ℕ → ℤ
  forwarded : ℕ → Bool

/-- An event of the worker, or an answer of `bytes` bytes from a middle-end for the client `i`. -/
inductive QuotaEvent
  | worker (e : Event)
  | answer (i bytes : ℕ)
  deriving DecidableEq, Repr

/-- Add to the bytes relayed under a slot, if there is one. -/
def addRelayed (relayed : ℕ → ℤ) (bytes : ℕ) : Option ℕ → ℕ → ℤ
  | none => relayed
  | some s => update relayed s (relayed s + bytes)

/-- The bytes relayed after an event that leads from `w` to `w'`: a slot that is allocated starts
with none. -/
def relayedAfter (cfg : WorkerConfig) (w w' : State) (relayed : ℕ → ℤ) : Event → ℕ → ℤ
  | .parse i bytes => addRelayed relayed bytes (relayedUnder cfg w i bytes)
  | _ => fun s => if (w.tbl.slot s).state = .free ∧ (w'.tbl.slot s).state ≠ .free then 0
      else relayed s

def forwardedAfter (w : State) (forwarded : ℕ → Bool) : Event → ℕ → Bool
  | .parse i _ => if (w.conns i).relaying then update forwarded i true else forwarded
  | _ => forwarded

def quotaStep (cfg : WorkerConfig) (st : QuotaState) : QuotaEvent → Option QuotaState
  | .worker e => (step cfg st.worker e).map fun w' =>
      { worker := w'
        relayed := relayedAfter cfg st.worker w' st.relayed e
        forwarded := forwardedAfter st.worker st.forwarded e }
  | .answer i bytes =>
    if st.forwarded i ∧ (st.worker.conns i).cFailed = false then
      some { st with relayed := addRelayed st.relayed bytes (st.worker.conns i).secret }
    else none

def quotaStart (tbl : SecretTable) (now : ℤ) : QuotaState where
  worker := start tbl now
  relayed := fun _ => 0
  forwarded := fun _ => false

/-- The quota of a slot in use stays unchanged. -/
def QuotaSteady (st : QuotaState) : QuotaEvent → Prop
  | .worker (.reload entries) => ∀ s, (st.worker.tbl.slot s).state ≠ .free →
      ((reloadExtSecrets st.worker.tbl entries).2.slot s).quota = (st.worker.tbl.slot s).quota
  | _ => True

/-- A quota `Q` is respected: fewer bytes are relayed, and none once `Q` bytes were counted. -/
def QuotaRespected (cfg : WorkerConfig) (Q : ℤ) : Prop :=
  ∀ (cli : List SecretEntry) (tbl : SecretTable), pinExtSecrets cli = some tbl →
    ∀ (now : ℤ) (es : List QuotaEvent) (st : QuotaState),
      Along (quotaStep cfg) QuotaSteady (quotaStart tbl now) es →
      run (quotaStep cfg) (quotaStart tbl now) es = some st →
      ∀ s, (st.worker.tbl.slot s).state ≠ .free → (st.worker.tbl.slot s).quota = Q →
        st.relayed s < Q ∧
          (Q ≤ charged (st.worker.tbl.slot s) → ∀ e st', QuotaSteady st e →
            quotaStep cfg st e = some st' → st'.relayed s ≤ st.relayed s)

/-! ### Direct mode -/

/-- No client uses a middle-end, and what is relayed under a slot is counted and below the quota. -/
structure QuotaOk (st : QuotaState) : Prop where
  relaying : ∀ i, (st.worker.conns i).relaying = false
  forwarded : ∀ i, st.forwarded i = false
  counted : ∀ s, (st.worker.tbl.slot s).state ≠ .free →
    st.relayed s ≤ charged (st.worker.tbl.slot s)
  below : ∀ s, (st.worker.tbl.slot s).state ≠ .free → 0 < (st.worker.tbl.slot s).quota →
    st.relayed s < (st.worker.tbl.slot s).quota

theorem quotaOk_start (tbl : SecretTable) (hunused : ∀ s, (tbl.slot s).Unused) (now : ℤ) :
    QuotaOk (quotaStart tbl now) where
  relaying := fun _ => rfl
  forwarded := fun _ => rfl
  counted := fun s _ => by
    have h := (hunused s).bytes
    show (0 : ℤ) ≤ (tbl.slot s).bytesReceived + (tbl.slot s).bytesSent
    omega
  below := fun _ _ h => h

/-- The slot keeps its account: its quota, its state and the bytes counted. -/
structure SameAccount (x y : Slot) : Prop where
  quota : y.quota = x.quota
  state : y.state = x.state
  charged : charged y = charged x

theorem SlotCalm.sameAccount {x y : Slot} (h : SlotCalm x y) : SameAccount x y :=
  ⟨h.quota, h.state, by rw [charged, charged, h.bytes.1, h.bytes.2]⟩

theorem sameAccount_connect (x : Slot) (addr : Addr) : SameAccount x (x.connect addr) := by
  unfold Slot.connect ipTrackConnect
  split_ifs <;> exact ⟨rfl, rfl, rfl⟩

section Step

variable {cfg : WorkerConfig} {st : QuotaState} {w' : State}

theorem QuotaOk.of_sameAccount (h : QuotaOk st)
    (hslot : ∀ s, SameAccount (st.worker.tbl.slot s) (w'.tbl.slot s))
    (hrelaying : ∀ i, (w'.conns i).relaying = true → (st.worker.conns i).relaying = true)
    {relayed : ℕ → ℤ} (hrelayed : relayed = fun s =>
      if (st.worker.tbl.slot s).state = .free ∧ (w'.tbl.slot s).state ≠ .free then 0
      else st.relayed s) : QuotaOk ⟨w', relayed, st.forwarded⟩ := by
  have hsame : relayed = st.relayed := by
    funext s
    rw [hrelayed]
    refine if_neg fun hs => hs.2 ?_
    rw [(hslot s).state]
    exact hs.1
  subst hsame
  refine ⟨fun i => ?_, h.forwarded, fun s hs => ?_, fun s hs hq => ?_⟩
  · by_contra hi
    have := hrelaying i (by simpa using hi)
    rw [h.relaying i] at this
    cases this
  · rw [(hslot s).state] at hs
    rw [(hslot s).charged]
    exact h.counted s hs
  · rw [(hslot s).state] at hs
    rw [(hslot s).quota] at hq ⊢
    exact h.below s hs hq

variable {x : Slot} {bytes i : ℕ}

theorem charged_of_charged {y : Slot} (h : Charged x bytes y) :
    charged y = charged x + bytes ∧ y.quota = x.quota ∧ y.state = x.state := by
  cases h with
  | received => exact ⟨by simp only [charged]; ring, rfl, rfl⟩
  | sent => exact ⟨by simp only [charged]; ring, rfl, rfl⟩

/-- With one worker, a slot that is not over its quota has counted fewer bytes. -/
theorem charged_lt_quota (hworkers : cfg.workers ≤ 1) (hq : 0 < x.quota) :
    secretOverQuota cfg.workers x = false ↔ charged x < x.quota := by
  rw [secretOverQuota_eq_false_iff]
  have heff : effective cfg.workers x.quota = x.quota := by
    unfold effective
    rw [if_neg (by omega), max_eq_left (by omega)]
  rw [heff]
  exact ⟨fun h => h hq, fun h _ => h⟩

theorem QuotaOk.of_charged (h : QuotaOk st) (hworkers : cfg.workers ≤ 1) {s : ℕ}
    (hx : charged x = charged (st.worker.tbl.slot s) + bytes ∧
      x.quota = (st.worker.tbl.slot s).quota ∧ x.state = (st.worker.tbl.slot s).state)
    (htbl : w'.tbl = (setSlot st.worker s x).tbl)
    (hrelaying : ∀ i, (w'.conns i).relaying = true → (st.worker.conns i).relaying = true) {r : ℤ}
    (hr : r = st.relayed s ∨ (r = st.relayed s + bytes ∧ secretOverQuota cfg.workers x = false)) :
    QuotaOk ⟨w', update st.relayed s r, st.forwarded⟩ := by
  obtain ⟨hcharged, hquota, hstate⟩ := hx
  refine ⟨fun i => ?_, h.forwarded, fun s' hs' => ?_, fun s' hs' hq => ?_⟩
  · by_contra hi
    have := hrelaying i (by simpa using hi)
    rw [h.relaying i] at this
    cases this
  · dsimp only at hs' ⊢
    rw [htbl] at hs' ⊢
    by_cases hs : s' = s
    · subst hs
      rw [slot_setSlot_self] at hs' ⊢
      rw [update_self]
      have := h.counted s' (hstate ▸ hs')
      omega
    · rw [slot_setSlot_of_ne _ _ hs] at hs' ⊢
      rw [update_of_ne hs]
      exact h.counted s' hs'
  · dsimp only at hs' hq ⊢
    rw [htbl] at hs' hq ⊢
    by_cases hs : s' = s
    · subst hs
      rw [slot_setSlot_self] at hs' hq ⊢
      rw [update_self]
      rcases hr with hr | ⟨hr, hover⟩
      · rw [hr, hquota]
        exact h.below s' (hstate ▸ hs') (hquota ▸ hq)
      · -- what was relayed was counted before, and the count is below the quota
        have hlt := (charged_lt_quota hworkers hq).1 hover
        have := h.counted s' (hstate ▸ hs')
        omega
    · rw [slot_setSlot_of_ne _ _ hs] at hs' hq ⊢
      rw [update_of_ne hs]
      exact h.below s' hs' hq

theorem QuotaOk.relayedUnder_of_isExt (h : QuotaOk st) (hi : (st.worker.conns i).cError = false)
    (hext : (st.worker.conns i).isExt = true) (bytes : ℕ) :
    relayedUnder cfg st.worker i bytes = none := by
  have hhand : (st.worker.conns i).handshaken = false := by
    simpa [Conn.relaying, hext, hi] using h.relaying i
  simp only [Conn.isExt, Bool.or_eq_true, decide_eq_true_eq] at hext
  rcases hext with htype | htype <;> simp [relayedUnder, htype, hhand]

theorem addRelayed_zero (relayed : ℕ → ℤ) (s : Option ℕ) : addRelayed relayed 0 s = relayed := by
  cases s with
  | none => rfl
  | some s => simp [addRelayed]

theorem QuotaOk.addRelayed_eq (h : QuotaOk st) (hi : (st.worker.conns i).cError = false)
    (hnone : (st.worker.conns i).isExt = false → 0 < bytes →
      relayedUnder cfg st.worker i bytes = none) :
    addRelayed st.relayed bytes (relayedUnder cfg st.worker i bytes) = st.relayed := by
  rcases Nat.eq_zero_or_pos bytes with rfl | hpos
  · exact addRelayed_zero _ _
  · cases hext : (st.worker.conns i).isExt with
    | false =>
      rw [hnone hext hpos]
      rfl
    | true =>
      rw [h.relayedUnder_of_isExt hi hext]
      rfl

section

variable (h : QuotaOk st) (hworkers : cfg.workers ≤ 1) (hi : (st.worker.conns i).cError = false)
  (hout : ParseOutcome cfg st.worker i bytes w')
include h hworkers hi hout

theorem QuotaOk.of_parseOutcome :
    QuotaOk ⟨w', addRelayed st.relayed bytes (relayedUnder cfg st.worker i bytes),
      st.forwarded⟩ := by
  cases hout with
  | calm hcalm hnone =>
    refine h.of_sameAccount (fun s => (hcalm.slot s).sameAccount)
      (fun i => (hcalm.conn i).relaying) ?_
    rw [h.addRelayed_eq hi hnone]
    funext s
    rw [if_neg fun hs => hs.2 ((hcalm.slot s).state.trans hs.1)]
  | @refused s x hx _ hnone =>
    rw [hnone]
    have hcalm := calm_failConnection (setSlot st.worker s (x.reject .quota)) i
    -- the count of rejections is no part of the account
    have hcharged := charged_of_charged hx
    have hok := h.of_charged hworkers (x := x.reject .quota) hcharged
      (show (failConnection (setSlot st.worker s (x.reject .quota)) i).tbl = _ from rfl)
      (fun j => (hcalm.conn j).relaying) (.inl rfl)
    rwa [update_eq_self] at hok
  | @relayed s x hx _ hquota hsome =>
    rw [hsome]
    exact h.of_charged hworkers (charged_of_charged hx) rfl (fun _ => id) (.inr ⟨rfl, hquota⟩)

theorem QuotaOk.relayed_parse {s : ℕ}
    (hq : 0 < (st.worker.tbl.slot s).quota)
    (hfull : (st.worker.tbl.slot s).quota ≤ charged (st.worker.tbl.slot s)) :
    addRelayed st.relayed bytes (relayedUnder cfg st.worker i bytes) s = st.relayed s := by
  cases hout with
  | calm _ hnone => rw [h.addRelayed_eq hi hnone]
  | refused _ _ hnone => rw [hnone]; rfl
  | @relayed s' x hx _ hquota hsome =>
    rw [hsome]
    obtain ⟨hcharged, hsame, -⟩ := charged_of_charged hx
    by_cases hs : s = s'
    · subst hs
      have hlt := (charged_lt_quota hworkers (hsame ▸ hq)).1 hquota
      omega
    · exact update_of_ne hs _ _

end

theorem QuotaOk.of_reload (h : QuotaOk st) {entries : List SecretEntry}
    (hsteady : QuotaSteady st (.worker (.reload entries))) :
    QuotaOk ⟨{ st.worker with tbl := (reloadExtSecrets st.worker.tbl entries).2 },
      fun s => if (st.worker.tbl.slot s).state = .free ∧
          ((reloadExtSecrets st.worker.tbl entries).2.slot s).state ≠ .free then 0
        else st.relayed s, st.forwarded⟩ := by
  refine ⟨h.relaying, h.forwarded, fun s hs => ?_, fun s hs hq => ?_⟩
  · dsimp only at hs ⊢
    rcases reload_cases st.worker.tbl entries s with hkept | ⟨-, -, hfree, e, hfresh⟩
    · have hused : (st.worker.tbl.slot s).state ≠ .free := fun h' => hs (hkept.free.2 h')
      rw [if_neg (fun h' => hused h'.1), charged, hkept.bytes.1, hkept.bytes.2]
      exact h.counted s hused
    · have hbytes := (unused_fresh s e).bytes
      rw [if_pos ⟨hfree, hs⟩, hfresh, charged]
      rfl
  · dsimp only at hs hq ⊢
    rcases reload_cases st.worker.tbl entries s with hkept | ⟨-, -, hfree, e, hfresh⟩
    · have hused : (st.worker.tbl.slot s).state ≠ .free := fun h' => hs (hkept.free.2 h')
      rw [if_neg (fun h' => hused h'.1)]
      rw [hsteady s hused] at hq ⊢
      exact h.below s hused hq
    · rw [if_pos ⟨hfree, hs⟩]
      exact hq

theorem QuotaOk.of_release (h : QuotaOk st) (s : ℕ) :
    QuotaOk ⟨{ st.worker with tbl := releaseSlotIfEmpty st.worker.tbl s },
      fun s' => if (st.worker.tbl.slot s').state = .free ∧
          ((releaseSlotIfEmpty st.worker.tbl s).slot s').state ≠ .free then 0
        else st.relayed s', st.forwarded⟩ := by
  refine ⟨h.relaying, h.forwarded, fun s' hs' => ?_, fun s' hs' hq => ?_⟩
  · dsimp only at hs' ⊢
    rcases release_cases st.worker.tbl s s' with hsame | ⟨rfl, -, -, hclear⟩
    · rw [hsame] at hs' ⊢
      rw [if_neg fun h' => hs' h'.1]
      exact h.counted s' hs'
    · rw [hclear] at hs'
      exact absurd rfl hs'
  · dsimp only at hs' hq ⊢
    rcases release_cases st.worker.tbl s s' with hsame | ⟨rfl, -, -, hclear⟩
    · rw [hsame] at hs' hq ⊢
      rw [if_neg fun h' => hs' h'.1]
      exact h.below s' hs' hq
    · rw [hclear] at hs'
      exact absurd rfl hs'

end Step

theorem relayedAfter_of_ne_parse (cfg : WorkerConfig) (w w' : State) (relayed : ℕ → ℤ) {e : Event}
    (he : ∀ i bytes, e ≠ .parse i bytes) :
    relayedAfter cfg w w' relayed e = fun s =>
      if (w.tbl.slot s).state = .free ∧ (w'.tbl.slot s).state ≠ .free then 0 else relayed s := by
  cases e with
  | parse i bytes => exact absurd rfl (he i bytes)
  | _ => rfl

variable {cfg : WorkerConfig} {Q : ℤ}

theorem quotaOk_step (hworkers : cfg.workers ≤ 1) (hdirect : cfg.directMode = true)
    (st : QuotaState) (e : QuotaEvent) (st' : QuotaState) (h : QuotaOk st)
    (hsteady : QuotaSteady st e) (hstep : quotaStep cfg st e = some st') : QuotaOk st' := by
  cases e with
  | answer i bytes =>
    simp [quotaStep, h.forwarded i] at hstep
  | worker e =>
    obtain ⟨w', hw', rfl⟩ := map_eq_some_iff.1 hstep
    have hforwarded : forwardedAfter st.worker st.forwarded e = st.forwarded := by
      cases e with
      | parse i bytes => simp [forwardedAfter, h.relaying i]
      | _ => rfl
    rw [hforwarded]
    by_cases hparse : ∃ i bytes, e = .parse i bytes
    · obtain ⟨i, bytes, rfl⟩ := hparse
      obtain ⟨hen, rfl⟩ := step_eq_some hw'
      exact h.of_parseOutcome hworkers hen.2 (parseOutcome_parseExecute cfg st.worker i bytes)
    · have hne : ∀ i bytes, e ≠ .parse i bytes := fun i bytes he => hparse ⟨i, bytes, he⟩
      have hrelayed := relayedAfter_of_ne_parse cfg st.worker w' st.relayed hne
      rcases calm_or_acts hw' with hcalm | ⟨i, s, _, _, rfl, -, -, rfl⟩ |
        ⟨i, s, dc, rfl, -, hi, rfl⟩ | ⟨i, bytes, rfl, -⟩ | ⟨entries, rfl, rfl⟩ | ⟨s, rfl, rfl⟩
      · exact h.of_sameAccount (fun s => (hcalm.slot s).sameAccount)
          (fun i => (hcalm.conn i).relaying) hrelayed
      · -- the flag of a Fake-TLS client says nothing about its traffic
        have hslot : ∀ s', SameAccount (st.worker.tbl.slot s')
            ((setConn st.worker i { st.worker.conns i with isTls := true }).tbl.slot s') :=
          fun _ => ⟨rfl, rfl, rfl⟩
        refine h.of_sameAccount hslot (fun j hj => ?_) hrelayed
        by_cases hji : j = i
        · subst hji
          rwa [conns_setConn_self] at hj
        · rwa [conns_setConn_of_ne _ _ hji] at hj
      · obtain ⟨hslot, -, hrelaying⟩ := acceptHeader_cases cfg st.worker hi s dc
        refine h.of_sameAccount (fun s' => ?_) (hrelaying hdirect) hrelayed
        rcases hslot with hslot | ⟨-, htbl⟩
        · exact (hslot s').sameAccount
        · rw [htbl]
          by_cases hs : s' = s
          · subst hs
            rw [slot_setSlot_self]
            exact sameAccount_connect _ _
          · rw [slot_setSlot_of_ne _ _ hs]
            exact ⟨rfl, rfl, rfl⟩
      · exact absurd rfl (hne i bytes)
      · exact hrelayed ▸ h.of_reload hsteady
      · exact hrelayed ▸ h.of_release s

/-- Once the quota was counted, direct mode relays no further byte. -/
theorem QuotaOk.relayed_le (hworkers : cfg.workers ≤ 1) {st st' : QuotaState} (h : QuotaOk st)
    {s : ℕ} (hused : (st.worker.tbl.slot s).state ≠ .free) (hq : 0 < (st.worker.tbl.slot s).quota)
    (hfull : (st.worker.tbl.slot s).quota ≤ Worker.charged (st.worker.tbl.slot s)) {e : QuotaEvent}
    (hstep : quotaStep cfg st e = some st') : st'.relayed s ≤ st.relayed s := by
  cases e with
  | answer i bytes => simp [quotaStep, h.forwarded i] at hstep
  | worker e =>
    obtain ⟨w', hw', rfl⟩ := map_eq_some_iff.1 hstep
    by_cases hparse : ∃ i bytes, e = .parse i bytes
    · obtain ⟨i, bytes, rfl⟩ := hparse
      obtain ⟨hen, rfl⟩ := step_eq_some hw'
      exact (h.relayed_parse hworkers hen.2 (parseOutcome_parseExecute cfg st.worker i bytes) hq
        hfull).le
    · have hne : ∀ i bytes, e ≠ .parse i bytes := fun i bytes he => hparse ⟨i, bytes, he⟩
      rw [relayedAfter_of_ne_parse cfg st.worker w' st.relayed hne]
      simp [hused]

/-! ### Relay mode -/

/-- A command-line secret with a quota. -/
def quotaSecret (Q : ℤ) : SecretEntry := ⟨List.replicate 16 7, "a", 0, Q, 0, 0, 0⟩

def quotaTable (Q : ℤ) : SecretTable where
  slot := update (fun _ => Slot.zero) 0 (Slot.fresh 0 (quotaSecret Q))
  cnt := 1
  pinned := 1

/-- A plain client connects and sends `bytes` bytes of packets. -/
def plainUpload (bytes : ℕ) : List QuotaEvent :=
  [.worker (.accept ⟨1, 0⟩), .worker (.header 0 0 .linked), .worker (.parse 0 bytes)]

theorem rejection_quotaSecret (hworkers : cfg.workers ≤ 1) (hQ : 0 < Q) (addr : Addr) :
    rejection cfg.workers 0 (Slot.fresh 0 (quotaSecret Q)) addr = none := by
  have hcharged : charged (Slot.fresh 0 (quotaSecret Q)) < Q := hQ
  have hquota : secretOverQuota cfg.workers (Slot.fresh 0 (quotaSecret Q)) = false :=
    (charged_lt_quota hworkers hQ).2 hcharged
  have hlimit : secretOverLimit cfg.workers (Slot.fresh 0 (quotaSecret Q)) = false := rfl
  have hips : ipOverLimit cfg.workers (Slot.fresh 0 (quotaSecret Q)) addr = false := rfl
  have hactive : (Slot.fresh 0 (quotaSecret Q)).state ≠ .draining := SlotState.noConfusion
  exact (rejection_eq_none_iff ..).2 ⟨hactive, rfl, hlimit, hquota, hips⟩

theorem relayed_plainUpload (hworkers : cfg.workers ≤ 1) (hrelay : cfg.directMode = false)
    (hQ : 0 < Q) (bytes : ℕ) :
    ∃ st, run (quotaStep cfg) (quotaStart (quotaTable Q) 0) (plainUpload bytes) = some st ∧
      (st.worker.tbl.slot 0).state = .active ∧ (st.worker.tbl.slot 0).quota = Q ∧
      st.relayed 0 = bytes := by
  let w₁ := newConn (start (quotaTable Q) 0) (Conn.new .extServer .rpcFuncs ⟨1, 0⟩)
  have hheader : acceptHeader cfg w₁ 0 0 .linked =
      countConnection w₁ 0 0 ((w₁.conns 0).handshake 0) := by
    have hrej : rejection cfg.workers w₁.now (w₁.tbl.slot 0) (w₁.conns 0).addr = none :=
      rejection_quotaSecret hworkers hQ _
    have htls : ((w₁.conns 0).isTls || decide (0 ≥ maxSlots)) = false := rfl
    have hslot : 0 < maxSlots := by decide
    simp only [acceptHeader, htls, hrej, hrelay, hslot, Bool.false_eq_true, if_false, if_true]
  let w₂ := countConnection w₁ 0 0 ((w₁.conns 0).handshake 0)
  have h₁ : step cfg (start (quotaTable Q) 0) (.accept ⟨1, 0⟩) = some w₁ := rfl
  have h₂ : step cfg w₁ (.header 0 0 .linked) = some w₂ := by
    rw [step, if_pos (by rfl), handle, hheader]
  have h₃ : step cfg w₂ (.parse 0 bytes) = some w₂ := rfl
  have hrun : run (quotaStep cfg) (quotaStart (quotaTable Q) 0) (plainUpload bytes) =
      some ⟨w₂, addRelayed (relayedAfter cfg w₁ w₂ (relayedAfter cfg (start (quotaTable Q) 0) w₁
        (fun _ => 0) (.accept ⟨1, 0⟩)) (.header 0 0 .linked)) bytes (some 0),
        forwardedAfter w₂ (fun _ => false) (.parse 0 bytes)⟩ := by
    simp only [plainUpload, run, quotaStep, quotaStart, h₁, h₂, h₃, map_some, bind_some]
    rfl
  refine ⟨_, hrun, rfl, rfl, ?_⟩
  simp [relayedAfter, addRelayed]

/-- **A quota is respected in direct mode only.** -/
theorem quota_respected_iff (cfg : WorkerConfig) (hworkers : cfg.workers ≤ 1) (Q : ℤ) (hQ : 0 < Q) :
    QuotaRespected cfg Q ↔ cfg.directMode = true := by
  constructor
  · intro h
    by_contra hmode
    obtain ⟨st, hst, hactive, hquota, hrelayed⟩ := relayed_plainUpload hworkers
      (by simpa using hmode) hQ Q.toNat
    have hok : Along (quotaStep cfg) QuotaSteady (quotaStart (quotaTable Q) 0)
        (plainUpload Q.toNat) :=
      ⟨trivial, fun _ _ => ⟨trivial, fun _ _ => ⟨trivial, fun _ _ => trivial⟩⟩⟩
    have hlt := (h [quotaSecret Q] (quotaTable Q) rfl 0 _ st hok hst 0 (by simp [hactive]) hquota).1
    omega
  · intro hdirect cli tbl hcli now es st hok hrun s hused hq
    have hinv : QuotaOk st := run_invariant (quotaOk_step hworkers hdirect)
      (quotaOk_start tbl (pinExtSecrets_loading hcli).1.unused now) hok hrun
    have hpos : 0 < (st.worker.tbl.slot s).quota := hq.symm ▸ hQ
    refine ⟨hq ▸ hinv.below s hused hpos, fun hfull e st' _ hstep => ?_⟩
    exact hinv.relayed_le hworkers hused hpos (hq.symm ▸ hfull) hstep

/-- A quota of a thousand bytes in both modes. -/
theorem quota_respected_iff_thousand :
    QuotaRespected ⟨0, true⟩ 1000 ∧ ¬ QuotaRespected ⟨0, false⟩ 1000 := by
  refine ⟨(quota_respected_iff ⟨0, true⟩ (by decide) 1000 (by decide)).2 rfl, fun h => ?_⟩
  have hmode := (quota_respected_iff ⟨0, false⟩ (by decide) 1000 (by decide)).1 h
  cases hmode

/-- In relay mode a client uploads a thousand bytes and gets as many back under a quota of a
thousand, and nothing of it is counted. -/
theorem quota_passed_in_relay_mode :
    pinExtSecrets [quotaSecret 1000] = some (quotaTable 1000) ∧
      ∃ st, run (quotaStep ⟨0, false⟩) (quotaStart (quotaTable 1000) 0)
          (plainUpload 1000 ++ [.answer 0 1000]) = some st ∧
        (st.worker.tbl.slot 0).quota = 1000 ∧ st.relayed 0 = 2000 ∧
        charged (st.worker.tbl.slot 0) = 0 := by
  exact ⟨rfl, by decide +kernel⟩

end Mtbolt.Worker
