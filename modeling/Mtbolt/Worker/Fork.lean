import Mtbolt.Worker.Admission

/-!
# Several workers

With `-M` the master forks its workers in `mtfront_pre_init`, and each of them keeps its own table
of secrets.  The share of a limit that a worker enforces is computed from the global `workers`,
which the fork also uses to tell a worker from the master: the child sets it to zero.
-/

namespace Mtbolt.Worker

open EventRun Secrets Finset

/-- The configuration in the child of the `fork` in `mtfront_pre_init`. -/
def forkWorker (cfg : WorkerConfig) : WorkerConfig := { cfg with workers := 0 }

/-- A step of one of the workers that a master with the given configuration has forked. -/
def poolStep (cfg : WorkerConfig) {W : ℕ} : (Fin W → State) → Fin W × Event → Option (Fin W → State) :=
  familyStep (step (forkWorker cfg))

/-- The workers right after the fork. -/
def poolStart (W : ℕ) (tbl : SecretTable) (now : ℤ) : Fin W → State := fun _ => start tbl now

/-- The event is the header of a client that authenticates for the slot `s`. -/
def Event.isHeader (s : ℕ) : Event → Bool
  | .header _ s' _ => s' = s
  | _ => false

/-- The secret of the slot has the connection limit `L` and no other bound. -/
structure LimitOnly (L : ℤ) (x : Slot) : Prop where
  active : x.state = .active
  limit : x.limit = L
  expires : x.expires ≤ 0
  quota : x.quota ≤ 0
  maxIps : x.maxIps ≤ 0

variable {cfg : WorkerConfig} {w w' : State} {s : ℕ} {L : ℤ} {tbl : SecretTable}

/-! ### What a worker counts at most -/

theorem connections_step_le {e : Event} {m : ℕ} (hw : (w.tbl.slot s).connections ≤ m)
    (h : step cfg w e = some w') :
    (w'.tbl.slot s).connections ≤ (m + if e.isHeader s then 1 else 0 : ℕ) := by
  have hle : (m : ℤ) ≤ (m + if e.isHeader s then 1 else 0 : ℕ) := by omega
  rcases quiet_or_admits h with hq | ⟨entries, rfl⟩ | ⟨i, s', _, _, -, -, -, rfl⟩ |
    ⟨i, s', dc, rfl, -, -, -, htbl⟩
  · exact ((hq.connections s).trans hw).trans hle
  · obtain ⟨-, rfl⟩ := step_eq_some h
    rcases reload_cases w.tbl entries s with hkept | ⟨-, -, -, x, hfresh⟩
    · exact (hkept.connections.trans_le hw).trans hle
    · exact (congrArg Slot.connections hfresh).trans_le (Int.natCast_nonneg _)
  · exact hw.trans hle
  · rw [htbl]
    by_cases hs : s = s'
    · subst hs
      rw [slot_setSlot_self, connections_connect]
      simpa [Event.isHeader] using hw
    · rw [slot_setSlot_of_ne _ _ hs]
      exact hw.trans hle

/-- A counter of a worker is at most the number of clients that came with a header for it. -/
theorem connections_run_le {es : List Event} {m : ℕ} (hw : (w.tbl.slot s).connections ≤ m)
    (h : run (step cfg) w es = some w') :
    (w'.tbl.slot s).connections ≤ (m + es.countP (·.isHeader s) : ℕ) := by
  induction es generalizing w m with
  | nil =>
    cases h
    exact hw
  | cons e es ih =>
    obtain ⟨w₁, h₁, hrest⟩ := Option.bind_eq_some_iff.1 h
    have hend := ih (connections_step_le hw h₁) hrest
    rwa [List.countP_cons, Nat.add_comm (es.countP _), ← Nat.add_assoc]

/-- A forked worker enforces the whole limit. -/
theorem effective_forkWorker (hL : 0 < L) : effective (forkWorker cfg).workers L = L :=
  max_eq_left hL

/-! ### What a worker counts of clients that come and stay -/

theorem LimitOnly.connect {x : Slot} (hx : LimitOnly L x) (addr : Addr) :
    LimitOnly L (x.connect addr) := by
  unfold Slot.connect ipTrackConnect
  split_ifs <;> exact ⟨hx.active, hx.limit, hx.expires, hx.quota, hx.maxIps⟩

theorem rejection_of_limitOnly (cfg : WorkerConfig) {x : Slot} (hx : LimitOnly L x) (hL : 0 < L)
    (now : ℤ) (addr : Addr) : rejection (forkWorker cfg).workers now x addr =
      if L ≤ x.connections then some .limit else none := by
  have hlimit : secretOverLimit (forkWorker cfg).workers x = decide (L ≤ x.connections) := by
    rw [secretOverLimit, hx.limit, if_neg (not_le.2 hL), effective_forkWorker hL]
  simp [rejection, hx.active, secretExpired, not_lt.2 hx.expires, hlimit, secretOverQuota,
    hx.quota, ipOverLimit, hx.maxIps]

/-- A plain client comes with a header for the slot and is counted, unless the limit is reached. -/
theorem exists_run_client (cfg : WorkerConfig) (hL : 0 < L) (hs : s < w.tbl.cnt)
    (hmax : s < maxSlots) (hx : LimitOnly L (w.tbl.slot s)) :
    ∃ w', run (step (forkWorker cfg)) w [.accept ⟨1, 0⟩, .header w.next s .linked] = some w' ∧
      w'.tbl.cnt = w.tbl.cnt ∧ LimitOnly L (w'.tbl.slot s) ∧
      (w'.tbl.slot s).connections =
        if L ≤ (w.tbl.slot s).connections then (w.tbl.slot s).connections
        else (w.tbl.slot s).connections + 1 := by
  let w₁ := newConn w (Conn.new .extServer .rpcFuncs ⟨1, 0⟩)
  have hconn : w₁.conns w.next = Conn.new .extServer .rpcFuncs ⟨1, 0⟩ := conns_newConn_self ..
  have hans : answerable w₁.tbl s = true := by
    have hused : (w.tbl.slot s).state ≠ .free := by simp [hx.active]
    simp [answerable, w₁, newConn, hs, hused]
  have hen : enabled w₁ (.header w.next s .linked) = true := by
    simp only [enabled, hconn, hans, Bool.and_true]
    simp [w₁, Conn.beforeHandshake, Conn.new]
  refine ⟨acceptHeader (forkWorker cfg) w₁ w.next s .linked, ?_, ?_⟩
  · have haccept : step (forkWorker cfg) w (.accept ⟨1, 0⟩) = some w₁ := rfl
    rw [run_cons_of_eq _ haccept, run_cons_of_eq [] (if_pos hen)]
    rfl
  have hrej : (if (w₁.conns w.next).isTls || s ≥ maxSlots then none
      else rejection (forkWorker cfg).workers w₁.now (w₁.tbl.slot s) (w₁.conns w.next).addr) =
        if L ≤ (w.tbl.slot s).connections then some .limit else none := by
    rw [hconn, ← rejection_of_limitOnly cfg hx hL w₁.now ⟨1, 0⟩]
    simp [Conn.new, not_le.2 hmax, w₁, newConn]
  unfold acceptHeader
  dsimp only
  rw [hrej]
  by_cases hreached : L ≤ (w.tbl.slot s).connections
  · rw [if_pos hreached, if_pos hreached]
    dsimp only
    rw [setConn_tbl, slot_setSlot_self]
    exact ⟨rfl, ⟨hx.active, hx.limit, hx.expires, hx.quota, hx.maxIps⟩, rfl⟩
  · rw [if_neg hreached, if_neg hreached, if_pos hmax]
    dsimp only
    have hcounted := slot_setSlot_self w₁ s
      ((w₁.tbl.slot s).connect ((w₁.conns w.next).handshake s).addr)
    split_ifs
    · rw [tbl_directConnectToDc, countConnection, setConn_tbl, hcounted]
      exact ⟨rfl, hx.connect _, connections_connect ..⟩
    · rw [countConnection, setConn_tbl, hcounted]
      exact ⟨rfl, hx.connect _, connections_connect ..⟩

/-- The event is no hello and no reload. -/
def Event.isCalm : Event → Bool
  | .hello _ _ _ _ | .reload _ => false
  | _ => true

theorem plainAndSteady_of_isCalm {e : Event} (h : e.isCalm = true) (w : State) :
    PlainAndSteady w e := by
  cases e with
  | hello => cases h
  | reload => cases h
  | _ => trivial

/-- `n` plain clients come and stay: the worker counts as many as the limit allows. -/
theorem exists_run_clients (cfg : WorkerConfig) (hL : 0 < L) (n : ℕ) (hs : s < w.tbl.cnt)
    (hmax : s < maxSlots) (hx : LimitOnly L (w.tbl.slot s))
    (hle : (w.tbl.slot s).connections ≤ L) :
    ∃ es w', run (step (forkWorker cfg)) w es = some w' ∧ es.countP (·.isHeader s) = n ∧
      (∀ e ∈ es, e.isCalm = true) ∧ (w'.tbl.slot s).limit = L ∧
      (w'.tbl.slot s).connections = min ((w.tbl.slot s).connections + n) L := by
  induction n generalizing w with
  | zero => exact ⟨[], w, rfl, rfl, by simp, hx.limit, by simpa using hle⟩
  | succ n ih =>
    obtain ⟨w₁, hrun, hcnt, hx₁, hc⟩ := exists_run_client cfg hL hs hmax hx
    have hle₁ : (w₁.tbl.slot s).connections ≤ L := by
      rw [hc]
      split_ifs <;> omega
    obtain ⟨es, w', hrest, hcount, hcalm, hlimit, hc'⟩ := ih (hcnt ▸ hs) hx₁ hle₁
    refine ⟨[.accept ⟨1, 0⟩, .header w.next s .linked] ++ es, w', ?_, ?_, ?_, hlimit, ?_⟩
    · rw [run_append, hrun]
      exact hrest
    · rw [List.countP_append, hcount]
      simp [Event.isHeader, Nat.add_comm]
    · intro e he
      rcases List.mem_append.1 he with he | he
      · fin_cases he <;> rfl
      · exact hcalm e he
    · rw [hc', hc]
      split_ifs <;> push_cast <;> omega

/-! ### The sum over the workers -/

/-- **The limit of a secret over all workers.**  Every worker enforces the whole limit, so the sum
of what the workers count keeps to it, in every run with at most `n k` plain clients of the secret
at the worker `k`, iff the numbers `n k`, each cut off at `L`, add up to no more than `L`. -/
theorem sum_connections_le_limit_iff {W : ℕ} (hL : 0 < L) (cfg : WorkerConfig)
    {cli : List SecretEntry} (hcli : pinExtSecrets cli = some tbl) (hs : s < tbl.cnt)
    (hx : LimitOnly L (tbl.slot s)) (now : ℤ) (n : Fin W → ℕ) :
    (∀ kes ws, run (poolStep cfg) (poolStart W tbl now) kes = some ws →
      (∀ k, Along (step (forkWorker cfg)) PlainAndSteady (start tbl now) (eventsOf k kes) ∧
        (eventsOf k kes).countP (·.isHeader s) ≤ n k ∧ ((ws k).tbl.slot s).limit = L) →
      ∑ k, ((ws k).tbl.slot s).connections ≤ L) ↔
    ∑ k, min (n k : ℤ) L ≤ L := by
  have hgood := pinExtSecrets_spec hcli
  have hzero : ((start tbl now).tbl.slot s).connections = 0 := hgood.2 s
  constructor
  · intro h
    -- every worker gets its clients one after the other
    have hclients (k : Fin W) := exists_run_clients (w := start tbl now) cfg hL (n k) hs
      (hs.trans_le hgood.1.cnt) hx (hzero.trans_le hL.le)
    choose es ws hrun hcount hcalm hlimit hconn using hclients
    obtain ⟨kes, hkes⟩ := exists_eventsOf_eq es
    have hsum := h kes ws (run_familyStep_iff.2 fun k => hkes k ▸ hrun k) fun k => by
      rw [hkes k]
      exact ⟨(along_true _ _).imp fun w e he _ => plainAndSteady_of_isCalm (hcalm k e he) w,
        (hcount k).le, hlimit k⟩
    simpa only [hconn, hzero, zero_add] using hsum
  · intro hle kes ws hrun hok
    refine (sum_le_sum fun k _ => ?_).trans hle
    obtain ⟨halong, hcount, hlimit⟩ := hok k
    have hk := run_familyStep_iff.1 hrun k
    have hwithin : WithinLimit (forkWorker cfg) (ws k) :=
      run_invariant (fun _ _ _ hw hok h => within_limit_step hw hok h)
        (within_limit_start hcli (forkWorker cfg) now) halong hk
    have hbound := hwithin.limit s (by rwa [hlimit])
    rw [hlimit, effective_forkWorker hL] at hbound
    have hclients := connections_run_le (m := 0) (s := s) hzero.le hk
    exact le_min (hclients.trans (by exact_mod_cast (Nat.zero_add _).trans_le hcount)) hbound

/-- A plain client of the worker `k`, its `i`-th connection. -/
def plainClient {W : ℕ} (k : Fin W) (i : ℕ) : List (Fin W × Event) :=
  [(k, .accept ⟨i + 1, 0⟩), (k, .header i 0 .linked)]

/-- One client for each of two workers that share a limit of two, and no more. -/
theorem sum_connections_le_limit_iff_oneEach :
    ∃ ws, run (poolStep ⟨2, false⟩) (poolStart 2 (sampleTable 2) 0)
        (plainClient 0 0 ++ plainClient 1 0) = some ws ∧
      ∑ k, ((ws k).tbl.slot 0).connections = 2 ∧ ∑ k, ((ws k).tbl.slot 0).connections ≤ 2 := by
  obtain ⟨ws, hws, hlimit, hcount⟩ : ∃ ws, run (poolStep ⟨2, false⟩) (poolStart 2 (sampleTable 2) 0)
      (plainClient 0 0 ++ plainClient 1 0) = some ws ∧ (∀ k, ((ws k).tbl.slot 0).limit = 2) ∧
        ∑ k, ((ws k).tbl.slot 0).connections = 2 := by
    decide +kernel
  have hcalm : ∀ k : Fin 2, (∀ e ∈ eventsOf k (plainClient 0 0 ++ plainClient 1 0),
      e.isCalm = true) ∧
        (eventsOf k (plainClient (W := 2) 0 0 ++ plainClient 1 0)).countP (·.isHeader 0) ≤ 1 := by
    decide
  refine ⟨ws, hws, hcount, (sum_connections_le_limit_iff two_pos ⟨2, false⟩
    (show pinExtSecrets [sampleSecret 2] = some (sampleTable 2) from rfl) Nat.one_pos
    ⟨rfl, rfl, le_rfl, le_rfl, le_rfl⟩ 0 fun _ => 1).2 (by decide) _ ws hws fun k => ?_⟩
  exact ⟨(along_true _ _).imp fun w e he _ => plainAndSteady_of_isCalm ((hcalm k).1 e he) w,
    (hcalm k).2, hlimit k⟩

/-- Each of two workers counts two clients under a secret for two. -/
theorem sum_connections_over_limit :
    pinExtSecrets [sampleSecret 2] = some (sampleTable 2) ∧
      ∃ ws, run (poolStep ⟨2, false⟩) (poolStart 2 (sampleTable 2) 0)
          (plainClient 0 0 ++ plainClient 0 1 ++ plainClient 1 0 ++ plainClient 1 1) = some ws ∧
        (∀ k, ((ws k).tbl.slot 0).limit = 2) ∧ ∑ k, ((ws k).tbl.slot 0).connections = 4 := by
  exact ⟨rfl, by decide +kernel⟩

end Mtbolt.Worker
