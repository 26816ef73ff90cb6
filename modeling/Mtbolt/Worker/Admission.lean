import Mtbolt.Worker.Frame

/-!
# Admission under a secret

The checks on a secret (draining, expired, connection limit, quota, addresses) guard two steps: the
header of a plain client, which is also the step that counts it, and the ClientHello of a Fake-TLS
client, which is counted only with its later header.  All other events are `Quiet`: they admit
nobody and raise no connection counter.
-/

namespace Mtbolt.Worker

open EventRun Secrets

/-! ### The checks -/

/-- The secret of slot `s` takes a client with this address. -/
structure Admissible (cfg : WorkerConfig) (w : State) (s : ℕ) (addr : Addr) : Prop where
  active : (w.tbl.slot s).state = .active
  notExpired : 0 < (w.tbl.slot s).expires → w.now < (w.tbl.slot s).expires
  belowLimit : 0 < (w.tbl.slot s).limit →
    (w.tbl.slot s).connections < effective cfg.workers (w.tbl.slot s).limit
  belowQuota : 0 < (w.tbl.slot s).quota →
    (w.tbl.slot s).bytesReceived + (w.tbl.slot s).bytesSent <
      effective cfg.workers (w.tbl.slot s).quota
  belowMaxIps : 0 < (w.tbl.slot s).maxIps → ipTracked (w.tbl.slot s) addr = true ∨
    (w.tbl.slot s).uniqueIpCount < effective cfg.workers (w.tbl.slot s).maxIps

theorem rejection_eq_none_iff (workers now : ℤ) (x : Slot) (addr : Addr) :
    rejection workers now x addr = none ↔
      x.state ≠ .draining ∧ secretExpired now x = false ∧ secretOverLimit workers x = false ∧
        secretOverQuota workers x = false ∧ ipOverLimit workers x addr = false := by
  unfold rejection
  split_ifs <;> simp_all

variable (workers : ℤ) (x : Slot)

theorem secretOverLimit_eq_false_iff :
    secretOverLimit workers x = false ↔
      (0 < x.limit → x.connections < effective workers x.limit) := by
  unfold secretOverLimit
  split_ifs with h
  · exact iff_of_true rfl fun hpos => absurd hpos (not_lt.2 h)
  · simp [not_le.1 h]

theorem secretOverQuota_eq_false_iff :
    secretOverQuota workers x = false ↔
      (0 < x.quota → x.bytesReceived + x.bytesSent < effective workers x.quota) := by
  unfold secretOverQuota
  split_ifs with h
  · exact iff_of_true rfl fun hpos => absurd hpos (not_lt.2 h)
  · simp [not_le.1 h]

theorem ipOverLimit_eq_false_iff (addr : Addr) :
    ipOverLimit workers x addr = false ↔ (0 < x.maxIps → ipTracked x addr = true ∨
      x.uniqueIpCount < effective workers x.maxIps) := by
  unfold ipOverLimit
  split_ifs with h htracked
  · exact iff_of_true rfl fun hpos => absurd hpos (not_lt.2 h)
  · exact iff_of_true rfl fun _ => .inl htracked
  · simp [not_le.1 h, htracked]

variable {cfg : WorkerConfig} {w w' : State} {s : ℕ} {e : Event}

theorem admissible_of_rejection {addr : Addr} (hused : (w.tbl.slot s).state ≠ .free)
    (h : rejection cfg.workers w.now (w.tbl.slot s) addr = none) : Admissible cfg w s addr := by
  obtain ⟨hdrain, hexpired, hlimit, hquota, hips⟩ := (rejection_eq_none_iff ..).1 h
  refine ⟨?_, fun hpos => ?_, (secretOverLimit_eq_false_iff ..).1 hlimit,
    (secretOverQuota_eq_false_iff ..).1 hquota, (ipOverLimit_eq_false_iff ..).1 hips⟩
  · cases hstate : (w.tbl.slot s).state with
    | free => exact absurd hstate hused
    | active => rfl
    | draining => exact absurd hstate hdrain
  · simpa [secretExpired, hpos] using hexpired

/-! ### What an event does to the counters -/

/-- No counter rises, no limit changes except for a slot without connections, and no connection
becomes a Fake-TLS one. -/
structure Quiet (w w' : State) : Prop where
  connections : ∀ s, (w'.tbl.slot s).connections ≤ (w.tbl.slot s).connections
  limit : ∀ s, (w'.tbl.slot s).limit = (w.tbl.slot s).limit ∨ (w'.tbl.slot s).connections ≤ 0
  isTls : ∀ i, (w'.conns i).isTls = true → (w.conns i).isTls = true

theorem Quiet.trans {w'' : State} (h : Quiet w w') (h' : Quiet w' w'') : Quiet w w'' := by
  refine ⟨fun s => (h'.connections s).trans (h.connections s), fun s => ?_,
    fun i hi => h.isTls i (h'.isTls i hi)⟩
  rcases h'.limit s with heq | hzero
  · rcases h.limit s with heq' | hzero'
    · exact .inl (heq.trans heq')
    · exact .inr ((h'.connections s).trans hzero')
  · exact .inr hzero

theorem Calm.quiet (h : Calm w w') : Quiet w w' :=
  ⟨fun s => (h.slot s).connections, fun s => .inl (h.slot s).limit, fun i => (h.conn i).isTls⟩

theorem quiet_setSlot (w : State) {x : Slot} (hlimit : x.limit = (w.tbl.slot s).limit)
    (hconn : x.connections = (w.tbl.slot s).connections) : Quiet w (setSlot w s x) := by
  refine ⟨fun s' => ?_, fun s' => ?_, fun _ => id⟩
  · by_cases hs : s' = s
    · subst hs
      rw [slot_setSlot_self, hconn]
    · rw [slot_setSlot_of_ne _ _ hs]
  · by_cases hs : s' = s
    · subst hs
      rw [slot_setSlot_self]
      exact .inl hlimit
    · rw [slot_setSlot_of_ne _ _ hs]
      exact .inl rfl

theorem ParseOutcome.quiet {i bytes : ℕ} (h : ParseOutcome cfg w i bytes w') : Quiet w w' := by
  cases h with
  | calm h _ => exact h.quiet
  | refused hx _ _ =>
    refine Quiet.trans (quiet_setSlot w ?_ ?_) (calm_failConnection _ i).quiet <;> cases hx <;> rfl
  | relayed hx _ _ _ => refine quiet_setSlot w ?_ ?_ <;> cases hx <;> rfl

theorem quiet_release (w : State) (s : ℕ) :
    Quiet w { w with tbl := releaseSlotIfEmpty w.tbl s } := by
  refine ⟨fun s' => ?_, fun s' => ?_, fun _ => id⟩
  · exact (connections_release w.tbl s s').le
  · rcases release_cases w.tbl s s' with h | ⟨-, -, -, h⟩
    · exact .inl (congrArg Slot.limit h)
    · exact .inr (congrArg Slot.connections h).le

/-- **What an event does to the counters**: it admits nobody, it is a reload, or it is one of the
two steps that the checks guard. -/
theorem quiet_or_admits (h : step cfg w e = some w') :
    Quiet w w' ∨ (∃ entries, e = .reload entries) ∨
      (∃ i s cipherOk linked, e = .hello i s cipherOk linked ∧
        (w.tbl.slot s).state ≠ .free ∧
        rejection cfg.workers w.now (w.tbl.slot s) (w.conns i).addr = none ∧
        w' = setConn w i { w.conns i with isTls := true }) ∨
      ∃ i s dc, e = .header i s dc ∧ answerable w.tbl s = true ∧
        ((w.conns i).isTls = false →
          rejection cfg.workers w.now (w.tbl.slot s) (w.conns i).addr = none) ∧
        (∀ j, (w'.conns j).isTls = true → (w.conns j).isTls = true) ∧
        w'.tbl = (setSlot w s ((w.tbl.slot s).connect (w.conns i).addr)).tbl := by
  rcases calm_or_acts h with hcalm | hhello | ⟨i, s, dc, rfl, hans, hi, rfl⟩ |
    ⟨i, bytes, -, -, rfl⟩ | ⟨entries, rfl, -⟩ | ⟨s, -, rfl⟩
  · exact .inl hcalm.quiet
  · exact .inr (.inr (.inl hhello))
  · obtain ⟨hslot, htls, -⟩ := acceptHeader_cases cfg w hi s dc
    rcases hslot with hslot | ⟨hrej, htbl⟩
    · exact .inl ⟨fun s' => (hslot s').connections, fun s' => .inl (hslot s').limit, htls⟩
    · exact .inr (.inr (.inr ⟨i, s, dc, rfl, hans, hrej, htls, htbl⟩))
  · exact .inl (parseOutcome_parseExecute cfg w i bytes).quiet
  · exact .inr (.inl ⟨entries, rfl⟩)
  · exact .inl (quiet_release w s)

/-! ### Runs -/

/-- The event is no ClientHello of a Fake-TLS client, and no reload that changes the connection
limit of a slot in use. -/
def PlainAndSteady (w : State) : Event → Prop
  | .hello _ _ _ _ => False
  | .reload entries => ∀ s, (w.tbl.slot s).state ≠ .free →
      ((reloadExtSecrets w.tbl entries).2.slot s).limit = (w.tbl.slot s).limit
  | _ => True

/-- All clients are plain, and no counter has passed its limit. -/
structure WithinLimit (cfg : WorkerConfig) (w : State) : Prop where
  plain : ∀ i, (w.conns i).isTls = false
  limit : ∀ s, 0 < (w.tbl.slot s).limit →
    (w.tbl.slot s).connections ≤ effective cfg.workers (w.tbl.slot s).limit

theorem effective_pos (limit : ℤ) : 0 < effective workers limit := by
  exact lt_of_lt_of_le Int.one_pos (le_max_right _ _)

theorem WithinLimit.of_quiet (hw : WithinLimit cfg w) (h : Quiet w w') : WithinLimit cfg w' := by
  refine ⟨fun i => ?_, fun s hpos => ?_⟩
  · have htls := mt (h.isTls i)
    rw [hw.plain i] at htls
    simpa using htls
  · rcases h.limit s with heq | hle
    · rw [heq] at hpos ⊢
      exact (h.connections s).trans (hw.limit s hpos)
    · exact hle.trans (effective_pos _ _).le

theorem within_limit_step (hw : WithinLimit cfg w) (hok : PlainAndSteady w e)
    (h : step cfg w e = some w') : WithinLimit cfg w' := by
  rcases quiet_or_admits h with hq | ⟨entries, rfl⟩ | ⟨i, s, _, _, rfl, -⟩ |
    ⟨i, s, dc, rfl, -, hrej, htls, htbl⟩
  · exact hw.of_quiet hq
  · obtain ⟨-, rfl⟩ := step_eq_some h
    refine ⟨hw.plain, fun s hpos => ?_⟩
    change 0 < ((reloadExtSecrets w.tbl entries).2.slot s).limit at hpos
    change ((reloadExtSecrets w.tbl entries).2.slot s).connections ≤
      effective cfg.workers ((reloadExtSecrets w.tbl entries).2.slot s).limit
    -- the reload keeps a slot in use, and a fresh slot has no connection
    rcases reload_cases w.tbl entries s with hkept | ⟨-, -, -, e, hfresh⟩
    · have hlimit : ((reloadExtSecrets w.tbl entries).2.slot s).limit = (w.tbl.slot s).limit := by
        by_cases hfree : (w.tbl.slot s).state = .free
        · rw [hkept.eq_of_free hfree]
        · exact hok s hfree
      rw [hlimit] at hpos ⊢
      rw [hkept.connections]
      exact hw.limit s hpos
    · rw [hfresh]
      exact (effective_pos _ _).le
  · exact absurd hok not_false
  · refine ⟨fun j => ?_, fun s' hpos => ?_⟩
    · have := mt (htls j)
      rw [hw.plain j] at this
      simpa using this
    · rw [htbl] at hpos ⊢
      by_cases hs : s' = s
      · subst hs
        rw [slot_setSlot_self, limit_connect] at hpos ⊢
        rw [connections_connect]
        obtain ⟨-, -, hlimit, -⟩ := (rejection_eq_none_iff ..).1 (hrej (hw.plain i))
        exact (secretOverLimit_eq_false_iff ..).1 hlimit hpos
      · rw [slot_setSlot_of_ne _ _ hs] at hpos ⊢
        exact hw.limit s' hpos

theorem within_limit_start {cli : List SecretEntry} {t : SecretTable}
    (hcli : pinExtSecrets cli = some t) (cfg : WorkerConfig) (now : ℤ) :
    WithinLimit cfg (start t now) := by
  refine ⟨fun _ => rfl, fun s _ => ?_⟩
  have hzero : ((start t now).tbl.slot s).connections = 0 := (pinExtSecrets_spec hcli).2 s
  rw [hzero]
  exact (effective_pos _ _).le

/-- A counter rises only with a header, by one; for a plain client under a secret the checks have
passed, and the limit is kept. -/
theorem counted_step (h : step cfg w e = some w') (hreload : ∀ entries, e ≠ .reload entries)
    (hlt : (w.tbl.slot s).connections < (w'.tbl.slot s).connections) :
    ∃ i dc, e = .header i s dc ∧
      (w'.tbl.slot s).connections = (w.tbl.slot s).connections + 1 ∧
      ((w.conns i).isTls = false → SlotInUse w.tbl → Admissible cfg w s (w.conns i).addr ∧
        (0 < (w'.tbl.slot s).limit →
          (w'.tbl.slot s).connections ≤ effective cfg.workers (w'.tbl.slot s).limit)) := by
  rcases quiet_or_admits h with hq | ⟨entries, rfl⟩ | ⟨i, s', _, _, -, -, -, rfl⟩ |
    ⟨i, s', dc, rfl, hans, hrej, -, htbl⟩
  · exact absurd hlt (not_lt.2 (hq.connections s))
  · exact absurd rfl (hreload entries)
  · exact absurd hlt (lt_irrefl _)
  · by_cases hs : s = s'
    · subst hs
      rw [htbl, slot_setSlot_self, connections_connect, limit_connect]
      refine ⟨i, dc, rfl, rfl, fun hplain huse => ?_⟩
      have hadm := admissible_of_rejection (answerable_in_use hans huse).2 (hrej hplain)
      exact ⟨hadm, hadm.belowLimit⟩
    · rw [htbl, slot_setSlot_of_ne _ _ hs] at hlt
      exact absurd hlt (lt_irrefl _)

theorem tls_step (h : step cfg w e = some w') {i : ℕ} (hplain : (w.conns i).isTls = false)
    (htls : (w'.conns i).isTls = true) :
    ∃ s cipherOk linked, e = .hello i s cipherOk linked ∧ Admissible cfg w s (w.conns i).addr := by
  have hnot {P : Prop} (himp : (w'.conns i).isTls = true → (w.conns i).isTls = true) : P := by
    rw [hplain] at himp
    exact absurd (himp htls) Bool.false_ne_true
  rcases quiet_or_admits h with hq | ⟨entries, rfl⟩ | ⟨j, s, c, l, rfl, hused, hrej, rfl⟩ |
    ⟨j, s, dc, -, -, -, htls', -⟩
  · exact hnot (hq.isTls i)
  · obtain ⟨-, rfl⟩ := step_eq_some h
    exact hnot id
  · by_cases hij : i = j
    · subst hij
      exact ⟨s, c, l, rfl, admissible_of_rejection hused hrej⟩
    · rw [conns_setConn_of_ne _ _ hij] at htls
      exact absurd (hplain.symm.trans htls) Bool.false_ne_true
  · exact hnot (htls' i)

/-- **Admission is checked** in every reachable state: where a plain client is counted, and where
the hello of a Fake-TLS client is accepted.  Without Fake-TLS clients and changes of limits, no
counter ever passes its limit. -/
theorem admission_checked (cfg : WorkerConfig) (cli : List SecretEntry) {t : SecretTable}
    (hcli : pinExtSecrets cli = some t) (now : ℤ) (es : List Event) {w : State}
    (hrun : run (step cfg) (start t now) es = some w) :
    (∀ e w', step cfg w e = some w' →
      (∀ s, (∀ entries, e ≠ .reload entries) →
        (w.tbl.slot s).connections < (w'.tbl.slot s).connections →
        ∃ i dc, e = .header i s dc ∧
          (w'.tbl.slot s).connections = (w.tbl.slot s).connections + 1 ∧
          ((w.conns i).isTls = false → SlotInUse w.tbl → Admissible cfg w s (w.conns i).addr ∧
            (0 < (w'.tbl.slot s).limit →
              (w'.tbl.slot s).connections ≤ effective cfg.workers (w'.tbl.slot s).limit))) ∧
      (∀ i, (w.conns i).isTls = false → (w'.conns i).isTls = true →
        ∃ s cipherOk linked, e = .hello i s cipherOk linked ∧
          Admissible cfg w s (w.conns i).addr)) ∧
    (Along (step cfg) PlainAndSteady (start t now) es → ∀ s, 0 < (w.tbl.slot s).limit →
      (w.tbl.slot s).connections ≤ effective cfg.workers (w.tbl.slot s).limit) := by
  refine ⟨fun e w' h => ⟨fun s hreload hlt => counted_step h hreload hlt,
    fun i hplain htls => tls_step h hplain htls⟩, fun hok => ?_⟩
  have hw : WithinLimit cfg w :=
    run_invariant (fun _ _ _ hw hok h => within_limit_step hw hok h)
      (within_limit_start hcli cfg now) hok hrun
  exact hw.limit

/-- A secret for one connection is used by one plain client. -/
theorem admission_checked_onePlain :
    pinExtSecrets [sampleSecret 1] = some (sampleTable 1) ∧
      ∃ w, run (step ⟨1, false⟩) (start (sampleTable 1) 0)
          [.accept ⟨1, 0⟩, .header 0 0 .linked] = some w ∧
        (w.tbl.slot 0).connections = 1 ∧
        (w.tbl.slot 0).connections ≤ effective 1 (w.tbl.slot 0).limit := by
  refine ⟨rfl, _, rfl, rfl, (admission_checked ⟨1, false⟩ [sampleSecret 1] rfl 0
    [.accept ⟨1, 0⟩, .header 0 0 .linked] rfl).2 ⟨trivial, fun _ _ => ⟨trivial, fun _ _ =>
      trivial⟩⟩ 0 ?_⟩
  decide

/-- Two Fake-TLS clients whose hellos arrive before the first header. -/
def twoHellos : List Event :=
  [.accept ⟨1, 0⟩, .accept ⟨2, 0⟩, .hello 0 0 true false, .hello 1 0 true false,
    .header 0 0 .linked]

/-- They are both counted under a secret for one connection: at the second header the slot is not
below its limit. -/
theorem admission_unchecked_twoHellos :
    pinExtSecrets [sampleSecret 1] = some (sampleTable 1) ∧
      ∃ w w', run (step ⟨1, false⟩) (start (sampleTable 1) 0) twoHellos = some w ∧
        secretOverLimit 1 (w.tbl.slot 0) = true ∧
        step ⟨1, false⟩ w (.header 1 0 .linked) = some w' ∧
        (w.tbl.slot 0).connections = 1 ∧ (w'.tbl.slot 0).connections = 2 ∧
        effective 1 (w'.tbl.slot 0).limit = 1 :=
  ⟨rfl, _, _, rfl, rfl, rfl, rfl, rfl, rfl⟩

end Mtbolt.Worker
