import Mtbolt.Lib.EventRun
import Mtbolt.Lib.Tally

/-!
# The gate of the listening sockets

The client sockets of a worker ("special" ones) accept at most about `max_special_connections`
connections (`net-connections.c`).  The main thread accepts: it counts each connection, and takes
the socket out of epoll when the count has reached the maximum.  The connections are closed by the
NET-CPU threads: a close that takes the count down from the maximum signals every listening socket
(`JS_AUX`), and the main thread then puts it back into epoll, without looking at the count.

The steps below are as fine as the code: counting, comparing and removing are three steps of the
main thread, and a closing thread signals the sockets one by one, so that everything can happen in
between.
-/

namespace Mtbolt.Net

open EventRun Tally Function Finset

/-- `special_listen_sockets`, the number of NET-CPU threads, and `max_special_connections`. -/
structure GateConfig where
  listenSockets : ℕ
  netThreads : ℕ
  maxSpecial : ℤ
  deriving DecidableEq, Repr

/-- Where the main thread is: outside `net_accept_new_connections`, in its loop for the socket `i`,
in `alloc_new_connection` after the connection `c` was counted, or before its `epoll_remove`. -/
inductive MainPhase
  | idle
  | accepting (i : ℕ)
  | counted (i c : ℕ)
  | removing (i c : ℕ)
  deriving DecidableEq, Repr

/-- The connection that the main thread still holds locked. -/
def MainPhase.locked : MainPhase → Option ℕ
  | .counted _ c | .removing _ c => some c
  | _ => none

/-- `active` is `active_special_connections`, `openConns` the connections with `C_SPECIAL`, `aux`
the pending `JS_AUX` signals, `signalling t` the next socket that the thread `t` will signal. -/
structure Gate where
  active : ℤ
  openConns : Finset ℕ
  next : ℕ
  inEpoll : ℕ → Bool
  aux : ℕ → Bool
  main : MainPhase
  signalling : ℕ → Option ℕ

/-- `accept` is a connection that is kept, `refuse` one that is closed again (the accept rate, the
access list, a failed `init_accepted`), `stopAccept` the end of the loop. -/
inductive GateEvent
  | runAccept (i : ℕ)
  | accept
  | refuse
  | stopAccept
  | checkLimit
  | epollRemove
  | runAux (i : ℕ)
  | close (t c : ℕ)
  | signal (t : ℕ)
  deriving DecidableEq, Repr

/-- `alloc_new_connection` for the socket `i`, up to the increment of the count. -/
def allocNewConnection (g : Gate) (i : ℕ) : Gate :=
  { g with
    active := g.active + 1
    openConns := insert g.next g.openConns
    next := g.next + 1
    main := .counted i g.next }

/-- `cpu_server_close_connection` in the thread `t`, up to the loop over the sockets. -/
def cpuServerCloseConnection (cfg : GateConfig) (g : Gate) (t c : ℕ) : Gate :=
  { g with
    active := g.active - 1
    openConns := g.openConns.erase c
    signalling := if g.active = cfg.maxSpecial then update g.signalling t (some 0)
      else g.signalling }

/-- The steps.  A job that has both signals takes `JS_AUX` before `JS_RUN`. -/
def gateStep (cfg : GateConfig) (g : Gate) : GateEvent → Option Gate
  | .runAccept i =>
    if g.main = .idle ∧ i < cfg.listenSockets ∧ g.aux i = false then
      some { g with main := .accepting i }
    else none
  | .accept =>
    match g.main with
    | .accepting i =>
      if g.inEpoll i then some (allocNewConnection g i) else none
    | _ => none
  | .refuse =>
    match g.main with
    | .accepting i => if g.inEpoll i then some g else none
    | _ => none
  | .stopAccept =>
    match g.main with
    | .accepting _ => some { g with main := .idle }
    | _ => none
  | .checkLimit =>
    match g.main with
    | .counted i c =>
      some { g with main := if g.active ≥ cfg.maxSpecial then .removing i c else .accepting i }
    | _ => none
  | .epollRemove =>
    match g.main with
    | .removing i _ =>
      some { g with inEpoll := update g.inEpoll i false, main := .accepting i }
    | _ => none
  | .runAux i =>
    if g.main = .idle ∧ g.aux i then
      some { g with
        aux := update g.aux i false
        inEpoll := update g.inEpoll i true }
    else none
  | .close t c =>
    if t < cfg.netThreads ∧ g.signalling t = none ∧ c ∈ g.openConns ∧ g.main.locked ≠ some c then
      some (cpuServerCloseConnection cfg g t c)
    else none
  | .signal t =>
    match g.signalling t with
    | some k =>
      if t < cfg.netThreads then
        if k < cfg.listenSockets then
          some { g with
            aux := update g.aux k true
            signalling := update g.signalling t (some (k + 1)) }
        else some { g with signalling := update g.signalling t none }
      else none
    | none => none

/-- All sockets in epoll, no connection. -/
def gateStart : Gate where
  active := 0
  openConns := ∅
  next := 0
  inEpoll := fun _ => true
  aux := fun _ => false
  main := .idle
  signalling := fun _ => none

/-! ### Outstanding signals -/

/-- One if the thread has yet to signal the socket `j`. -/
def willSignal (j : ℕ) (o : Option ℕ) : ℤ := if o.any (· ≤ j) then 1 else 0

/-- The number of threads that have yet to signal the socket `j`. -/
def outstanding (cfg : GateConfig) (g : Gate) (j : ℕ) : ℤ :=
  tally (willSignal j) cfg.netThreads g.signalling

theorem willSignal_nonneg (j : ℕ) (o : Option ℕ) : 0 ≤ willSignal j o := by
  unfold willSignal
  split_ifs <;> omega

variable (cfg : GateConfig) (b : Bool) (g : Gate) (j : ℕ)

theorem willSignal_le_one (o : Option ℕ) : willSignal j o ≤ 1 := by
  unfold willSignal
  split_ifs <;> omega

theorem outstanding_nonneg : 0 ≤ outstanding cfg g j := tally_nonneg (willSignal_nonneg j) _ _

theorem outstanding_le : outstanding cfg g j ≤ cfg.netThreads := tally_le (willSignal_le_one j) _ _

/-! ### Slack -/

/-- A flag as a number. -/
def flag (b : Bool) : ℤ := if b then 1 else 0

/-- The connections that the socket `j` can still take, when the maximum is reached, by its place in
epoll and its pending signal.  A socket not being served takes the signal first, so the two count as
one; the connection just counted has used up the place of its socket. -/
def ownSlack (main : MainPhase) (inEpoll aux : Bool) (j : ℕ) : ℤ :=
  match main with
  | .idle => flag (inEpoll || aux)
  | .accepting i => if i = j then flag inEpoll + flag aux else flag (inEpoll || aux)
  | .counted i _ | .removing i _ => if i = j then flag aux else flag (inEpoll || aux)

def slack (cfg : GateConfig) (g : Gate) (j : ℕ) : ℤ :=
  ownSlack g.main (g.inEpoll j) (g.aux j) j + outstanding cfg g j

theorem flag_nonneg : 0 ≤ flag b := by cases b <;> decide

theorem flag_le_one : flag b ≤ 1 := by cases b <;> decide

theorem ownSlack_nonneg (main : MainPhase) (r a : Bool) (j : ℕ) : 0 ≤ ownSlack main r a j := by
  have hr := flag_nonneg r
  have ha := flag_nonneg a
  have hra := flag_nonneg (r || a)
  unfold ownSlack
  split
  · exact hra
  · split_ifs <;> omega
  · split_ifs <;> omega
  · split_ifs <;> omega

theorem slack_nonneg : 0 ≤ slack cfg g j :=
  add_nonneg (ownSlack_nonneg _ _ _ _) (outstanding_nonneg cfg g j)

/-- While a connection was just counted, no socket has more than one connection to take besides
those of the outstanding signals. -/
theorem ownSlack_counted_le (i c : ℕ) (r a : Bool) (j : ℕ) : ownSlack (.counted i c) r a j ≤ 1 := by
  have ha := flag_le_one a
  have hra := flag_le_one (r || a)
  show (if i = j then flag a else flag (r || a)) ≤ 1
  split_ifs <;> omega

section Total

variable {cfg : GateConfig} {g g' : Gate}

/-- The connections that all sockets together can still take. -/
def totalSlack (cfg : GateConfig) (g : Gate) : ℤ :=
  ∑ j ∈ Finset.range cfg.listenSockets, slack cfg g j

theorem totalSlack_le (h : ∀ j < cfg.listenSockets, slack cfg g' j ≤ slack cfg g j) :
    totalSlack cfg g' ≤ totalSlack cfg g :=
  sum_le_sum fun j hj => h j (mem_range.1 hj)

theorem totalSlack_counted_le {i c : ℕ} (h : g.main = .counted i c) :
    totalSlack cfg g ≤ (cfg.netThreads + 1) * cfg.listenSockets := by
  calc totalSlack cfg g
      ≤ ∑ _j ∈ range cfg.listenSockets, ((cfg.netThreads : ℤ) + 1) := by
        refine sum_le_sum fun j _ => ?_
        have hown := ownSlack_counted_le i c (g.inEpoll j) (g.aux j) j
        have hout := outstanding_le cfg g j
        rw [slack, h]
        omega
    _ = (cfg.netThreads + 1) * cfg.listenSockets := by
        rw [sum_const, card_range]
        ring

end Total

/-! ### The invariant -/

/-- What holds in every state.  A socket that is not in epoll has a signal pending or outstanding
unless the maximum is reached, and so has the socket that is about to be removed. -/
structure GateInv (cfg : GateConfig) (g : Gate) : Prop where
  active : g.active = g.openConns.card
  fresh : ∀ c ∈ g.openConns, c < g.next
  bound : cfg.maxSpecial ≤ g.active →
    g.active + totalSlack cfg g ≤ cfg.maxSpecial + (cfg.netThreads + 1) * cfg.listenSockets
  socket : ∀ i, g.main = .accepting i ∨ (∃ c, g.main = .counted i c) ∨ (∃ c, g.main = .removing i c) →
    i < cfg.listenSockets
  reopens : ∀ j < cfg.listenSockets, g.inEpoll j = true ∨ g.aux j = true ∨
    0 < outstanding cfg g j ∨ cfg.maxSpecial ≤ g.active
  removing : ∀ i c, g.main = .removing i c → g.aux i = true ∨ 0 < outstanding cfg g i ∨
    cfg.maxSpecial ≤ g.active

theorem gateInv_start {cfg : GateConfig} (hM : 0 < cfg.maxSpecial) : GateInv cfg gateStart where
  active := rfl
  fresh := fun c hc => absurd hc (notMem_empty c)
  bound := fun h => absurd h (not_le.2 hM)
  socket := by
    rintro i (h | ⟨c, h⟩ | ⟨c, h⟩) <;> cases h
  reopens := fun _ _ => .inl rfl
  removing := nofun

section Steps

variable {cfg : GateConfig} {g : Gate}

/-- A step of the main thread that counts nothing keeps the invariant if it gives no socket more
slack and forgets none. -/
theorem GateInv.mainStep (h : GateInv cfg g) {main : MainPhase} {inEpoll aux : ℕ → Bool}
    (hslack : cfg.maxSpecial ≤ g.active → ∀ j,
      ownSlack main (inEpoll j) (aux j) j ≤ ownSlack g.main (g.inEpoll j) (g.aux j) j)
    (hsocket : ∀ i, main = .accepting i ∨ (∃ c, main = .counted i c) ∨ (∃ c, main = .removing i c) →
      i < cfg.listenSockets)
    (hreopens : ∀ j < cfg.listenSockets, inEpoll j = true ∨ aux j = true ∨
      0 < outstanding cfg g j ∨ cfg.maxSpecial ≤ g.active)
    (hremoving : ∀ i c, main = .removing i c → aux i = true ∨ 0 < outstanding cfg g i ∨
      cfg.maxSpecial ≤ g.active) :
    GateInv cfg { g with main := main, inEpoll := inEpoll, aux := aux } where
  active := h.active
  fresh := h.fresh
  bound := by
    intro hM
    have hle : totalSlack cfg { g with main := main, inEpoll := inEpoll, aux := aux } ≤
        totalSlack cfg g :=
      totalSlack_le fun j _ => by
        have := hslack hM j
        show ownSlack main (inEpoll j) (aux j) j + outstanding cfg g j ≤ _
        unfold slack
        omega
    have := h.bound hM
    dsimp only
    omega
  socket := hsocket
  reopens := hreopens
  removing := hremoving

variable {i c t : ℕ}

theorem gateInv_runAccept (h : GateInv cfg g) (hmain : g.main = .idle) (hi : i < cfg.listenSockets)
    (haux : g.aux i = false) : GateInv cfg { g with main := .accepting i } := by
  refine h.mainStep (fun _ j => ?_) ?_ h.reopens nofun
  · rw [hmain]
    show (if i = j then flag (g.inEpoll j) + flag (g.aux j) else flag (g.inEpoll j || g.aux j)) ≤
      flag (g.inEpoll j || g.aux j)
    split_ifs with hij
    · subst hij
      simp [haux, flag]
    · exact le_refl _
  · rintro i' (h' | ⟨c, h'⟩ | ⟨c, h'⟩) <;> cases h'
    exact hi

theorem gateInv_stopAccept (h : GateInv cfg g) (hmain : g.main = .accepting i) :
    GateInv cfg { g with main := .idle } := by
  refine h.mainStep (fun _ j => ?_) ?_ h.reopens nofun
  · rw [hmain]
    show flag (g.inEpoll j || g.aux j) ≤
      if i = j then flag (g.inEpoll j) + flag (g.aux j) else flag (g.inEpoll j || g.aux j)
    split_ifs
    · cases g.inEpoll j <;> cases g.aux j <;> decide
    · exact le_refl _
  · rintro i' (h' | ⟨c, h'⟩ | ⟨c, h'⟩) <;> cases h'

/-- The comparison with the maximum: below it the loop goes on and there is no bound to keep. -/
theorem gateInv_checkLimit (h : GateInv cfg g) (hmain : g.main = .counted i c) :
    GateInv cfg { g with
      main := if g.active ≥ cfg.maxSpecial then .removing i c else .accepting i } := by
  have hi : i < cfg.listenSockets := h.socket i (.inr (.inl ⟨c, hmain⟩))
  by_cases hM : g.active ≥ cfg.maxSpecial
  · rw [if_pos hM]
    refine h.mainStep (fun _ j => ?_) ?_ h.reopens fun _ _ _ => .inr (.inr hM)
    · rw [hmain]
      exact le_refl _
    · rintro i' (h' | ⟨c', h'⟩ | ⟨c', h'⟩) <;> cases h'
      exact hi
  · rw [if_neg hM]
    refine h.mainStep (fun hM' => absurd hM' hM) ?_ h.reopens nofun
    rintro i' (h' | ⟨c', h'⟩ | ⟨c', h'⟩) <;> cases h'
    exact hi

theorem gateInv_epollRemove (h : GateInv cfg g) (hmain : g.main = .removing i c) :
    GateInv cfg { g with
      inEpoll := update g.inEpoll i false, main := .accepting i } := by
  refine h.mainStep (fun _ j => ?_) ?_ (fun j hj => ?_) nofun
  · rw [hmain]
    show (if i = j then flag (update g.inEpoll i false j) + flag (g.aux j)
      else flag (update g.inEpoll i false j || g.aux j)) ≤
        if i = j then flag (g.aux j) else flag (g.inEpoll j || g.aux j)
    split_ifs with hij
    · subst hij
      simp [flag]
    · rw [update_of_ne (Ne.symm hij)]
  · rintro i' (h' | ⟨c', h'⟩ | ⟨c', h'⟩) <;> cases h'
    exact h.socket i (.inr (.inr ⟨c, hmain⟩))
  · -- the socket that goes is the one the invariant has a reason for
    by_cases hij : j = i
    · subst hij
      exact .inr (h.removing j c hmain)
    · rw [update_of_ne hij]
      exact h.reopens j hj

theorem gateInv_runAux (h : GateInv cfg g) (hmain : g.main = .idle) (haux : g.aux i = true) :
    GateInv cfg { g with
      aux := update g.aux i false, inEpoll := update g.inEpoll i true } := by
  refine h.mainStep (fun _ j => ?_) (fun i' h' => h.socket i' h') (fun j hj => ?_) ?_
  · rw [hmain]
    show flag (update g.inEpoll i true j || update g.aux i false j) ≤ flag (g.inEpoll j || g.aux j)
    by_cases hij : j = i
    · subst hij
      simp [haux, flag]
    · rw [update_of_ne hij, update_of_ne hij]
  · by_cases hij : j = i
    · subst hij
      exact .inl (update_self ..)
    · rw [update_of_ne hij, update_of_ne hij]
      exact h.reopens j hj
  · intro i' c h'
    rw [hmain] at h'
    cases h'

/-- A connection is counted.  Below the maximum there is nothing to show; when the count reaches it,
every socket has at most its own place or signal and the outstanding ones; beyond it, the socket
pays with its place. -/
theorem gateInv_allocNewConnection (h : GateInv cfg g) (hmain : g.main = .accepting i)
    (hepoll : g.inEpoll i = true) : GateInv cfg (allocNewConnection g i) where
  active := by
    have hnew : g.next ∉ g.openConns := fun hmem => lt_irrefl _ (h.fresh _ hmem)
    show g.active + 1 = (insert g.next g.openConns).card
    rw [card_insert_of_notMem hnew, h.active]
    push_cast
    ring
  fresh := by
    intro c hc
    rcases mem_insert.1 hc with rfl | hc
    · exact Nat.lt_succ_self _
    · exact (h.fresh c hc).trans (Nat.lt_succ_self _)
  bound := by
    intro hM
    show g.active + 1 + totalSlack cfg (allocNewConnection g i) ≤ _
    change cfg.maxSpecial ≤ g.active + 1 at hM
    by_cases hfull : cfg.maxSpecial ≤ g.active
    · have hown : ∀ j, ownSlack (.counted i g.next) (g.inEpoll j) (g.aux j) j +
          (if i = j then flag (g.inEpoll j) else 0) =
            ownSlack g.main (g.inEpoll j) (g.aux j) j := by
        intro j
        rw [hmain]
        simp only [ownSlack]
        split_ifs <;> ring
      have hlt : totalSlack cfg (allocNewConnection g i) < totalSlack cfg g := by
        refine sum_lt_sum (fun j _ => ?_) ⟨i, mem_range.2 (h.socket i (.inl hmain)), ?_⟩
        · have hj := hown j
          have hflag := flag_nonneg (g.inEpoll j)
          show ownSlack (.counted i g.next) (g.inEpoll j) (g.aux j) j + outstanding cfg g j ≤ _
          unfold slack
          split_ifs at hj <;> omega
        · have hi := hown i
          rw [hepoll] at hi
          show ownSlack (.counted i g.next) (g.inEpoll i) (g.aux i) i + outstanding cfg g i < _
          unfold slack
          rw [hepoll, ← hi]
          simp [flag]
      have := h.bound hfull
      omega
    · have hle : totalSlack cfg (allocNewConnection g i) ≤
          (cfg.netThreads + 1) * cfg.listenSockets := totalSlack_counted_le rfl
      omega
  socket := by
    rintro i' (h' | ⟨c', h'⟩ | ⟨c', h'⟩) <;> cases h'
    exact h.socket _ (.inl hmain)
  reopens := by
    intro j hj
    rcases h.reopens j hj with h' | h' | h' | h'
    · exact .inl h'
    · exact .inr (.inl h')
    · exact .inr (.inr (.inl h'))
    · refine .inr (.inr (.inr (h'.trans ?_)))
      show g.active ≤ g.active + 1
      omega
  removing := nofun

theorem outstanding_begin (ht : t < cfg.netThreads) (hidle : g.signalling t = none) {g' : Gate}
    (hg' : g'.signalling = update g.signalling t (some 0)) (j : ℕ) :
    outstanding cfg g' j = outstanding cfg g j + 1 := by
  unfold outstanding
  rw [hg', tally_update ht, hidle]
  simp [willSignal]

/-- A close.  If it takes the count down from the maximum, every socket is going to be signalled. -/
theorem gateInv_close (h : GateInv cfg g) (ht : t < cfg.netThreads) (hidle : g.signalling t = none)
    (hc : c ∈ g.openConns) : GateInv cfg (cpuServerCloseConnection cfg g t c) := by
  have hcard : (g.active - 1 : ℤ) = (g.openConns.erase c).card := by
    have hpos := card_pos.2 ⟨c, hc⟩
    rw [card_erase_of_mem hc, h.active]
    omega
  have hfresh : ∀ c' ∈ g.openConns.erase c, c' < g.next := fun c' hc' =>
    h.fresh c' (mem_of_mem_erase hc')
  by_cases hM : g.active = cfg.maxSpecial
  · have hout : ∀ j, 0 < outstanding cfg (cpuServerCloseConnection cfg g t c) j := by
      intro j
      rw [outstanding_begin ht hidle (by simp [cpuServerCloseConnection, hM])]
      have := outstanding_nonneg cfg g j
      omega
    refine ⟨hcard, hfresh, fun hM' => ?_, h.socket, fun j _ => .inr (.inr (.inl (hout j))),
      fun i _ _ => .inr (.inl (hout i))⟩
    change cfg.maxSpecial ≤ g.active - 1 at hM'
    omega
  · have hsame : ∀ j, outstanding cfg (cpuServerCloseConnection cfg g t c) j = outstanding cfg g j := by
      simp [outstanding, cpuServerCloseConnection, hM]
    have hslack : totalSlack cfg (cpuServerCloseConnection cfg g t c) = totalSlack cfg g := by
      refine sum_congr rfl fun j _ => ?_
      unfold slack
      rw [hsame]
      rfl
    -- the count was above the maximum, or the reason for the socket is another one
    have hactive : cfg.maxSpecial ≤ g.active → cfg.maxSpecial ≤ g.active - 1 := by omega
    refine ⟨hcard, hfresh, fun hM' => ?_, h.socket, fun j hj => ?_, fun i c' hmain => ?_⟩
    · change cfg.maxSpecial ≤ g.active - 1 at hM'
      have := h.bound (by omega)
      show g.active - 1 + _ ≤ _
      omega
    · rw [hsame]
      rcases h.reopens j hj with h' | h' | h' | h'
      · exact .inl h'
      · exact .inr (.inl h')
      · exact .inr (.inr (.inl h'))
      · exact .inr (.inr (.inr (hactive h')))
    · rw [hsame]
      rcases h.removing i c' hmain with h' | h' | h'
      · exact .inl h'
      · exact .inr (.inl h')
      · exact .inr (.inr (hactive h'))

/-- A step of a signalling thread keeps the invariant if it gives no socket more slack and forgets
none. -/
theorem GateInv.signalStep (h : GateInv cfg g) {aux : ℕ → Bool} {signalling : ℕ → Option ℕ}
    (hslack : ∀ j < cfg.listenSockets,
      slack cfg { g with aux := aux, signalling := signalling } j ≤ slack cfg g j)
    (haux : ∀ j, g.aux j = true → aux j = true)
    (hout : ∀ j < cfg.listenSockets, 0 < outstanding cfg g j → aux j = true ∨
      0 < outstanding cfg { g with aux := aux, signalling := signalling } j) :
    GateInv cfg { g with aux := aux, signalling := signalling } := by
  refine ⟨h.active, h.fresh, fun hM => ?_, h.socket, fun j hj => ?_, fun i c hmain => ?_⟩
  · have hle := totalSlack_le hslack
    have := h.bound hM
    dsimp only
    omega
  · rcases h.reopens j hj with h' | h' | h' | h'
    · exact .inl h'
    · exact .inr (.inl (haux j h'))
    · rcases hout j hj h' with h'' | h''
      · exact .inr (.inl h'')
      · exact .inr (.inr (.inl h''))
    · exact .inr (.inr (.inr h'))
  · have hi : i < cfg.listenSockets := h.socket i (.inr (.inr ⟨c, hmain⟩))
    rcases h.removing i c hmain with h' | h' | h'
    · exact .inl (haux i h')
    · rcases hout i hi h' with h'' | h''
      · exact .inl h''
      · exact .inr (.inl h'')
    · exact .inr (.inr h')

theorem ownSlack_aux_le (main : MainPhase) (r a : Bool) (j : ℕ) :
    ownSlack main r true j ≤ ownSlack main r a j + 1 := by
  have ha := flag_nonneg a
  have hra := flag_nonneg (r || a)
  have htrue : flag true = 1 := rfl
  unfold ownSlack
  split
  · rw [Bool.or_true]
    omega
  all_goals
    rw [Bool.or_true]
    split_ifs <;> omega

theorem gateInv_signal (h : GateInv cfg g) {k : ℕ} (ht : t < cfg.netThreads)
    (hk : g.signalling t = some k) :
    GateInv cfg { g with
      aux := update g.aux k true
      signalling := update g.signalling t (some (k + 1)) } := by
  have hout : ∀ j, outstanding cfg { g with
      aux := update g.aux k true
      signalling := update g.signalling t (some (k + 1)) } j =
        outstanding cfg g j - if j = k then 1 else 0 := by
    intro j
    unfold outstanding
    rw [tally_update ht, hk]
    simp only [willSignal, Option.any_some, decide_eq_true_eq]
    split_ifs <;> omega
  refine h.signalStep (fun j _ => ?_) (fun j hj => ?_) fun j _ hj => ?_
  · unfold slack
    rw [hout]
    dsimp only
    by_cases hjk : j = k
    · subst hjk
      have := ownSlack_aux_le g.main (g.inEpoll j) (g.aux j) j
      rw [update_self]
      omega
    · rw [update_of_ne hjk, if_neg hjk, sub_zero]
  · by_cases hjk : j = k
    · rw [hjk]
      exact update_self ..
    · rwa [update_of_ne hjk]
  · by_cases hjk : j = k
    · rw [hjk]
      exact .inl (update_self ..)
    · rw [hout, if_neg hjk, sub_zero]
      exact .inr hj

theorem gateInv_signalDone (h : GateInv cfg g) {k : ℕ} (ht : t < cfg.netThreads)
    (hk : g.signalling t = some k) (hdone : cfg.listenSockets ≤ k) :
    GateInv cfg { g with signalling := update g.signalling t none } := by
  have hout : ∀ j < cfg.listenSockets, outstanding cfg
      { g with signalling := update g.signalling t none } j = outstanding cfg g j := by
    intro j hj
    unfold outstanding
    rw [tally_update ht, hk]
    simp [willSignal, show ¬ k ≤ j by omega]
  refine h.signalStep (fun j hj => ?_) (fun _ => id) fun j hj hpos => ?_
  · unfold slack
    rw [hout j hj]
  · rw [hout j hj]
    exact .inr hpos

end Steps

theorem gateInv_step {cfg : GateConfig} {g g' : Gate} {e : GateEvent} (h : GateInv cfg g)
    (hstep : gateStep cfg g e = some g') : GateInv cfg g' := by
  cases e with
  | runAccept i =>
    simp only [gateStep] at hstep
    split_ifs at hstep with hen
    cases hstep
    exact gateInv_runAccept h hen.1 hen.2.1 hen.2.2
  | accept =>
    simp only [gateStep] at hstep
    split at hstep
    · next i hmain =>
      split_ifs at hstep with hepoll
      cases hstep
      exact gateInv_allocNewConnection h hmain hepoll
    · cases hstep
  | refuse =>
    simp only [gateStep] at hstep
    split at hstep
    · split_ifs at hstep
      cases hstep
      exact h
    · cases hstep
  | stopAccept =>
    simp only [gateStep] at hstep
    split at hstep
    · next i hmain =>
      cases hstep
      exact gateInv_stopAccept h hmain
    · cases hstep
  | checkLimit =>
    simp only [gateStep] at hstep
    split at hstep
    · next i c hmain =>
      cases hstep
      exact gateInv_checkLimit h hmain
    · cases hstep
  | epollRemove =>
    simp only [gateStep] at hstep
    split at hstep
    · next i c hmain =>
      cases hstep
      exact gateInv_epollRemove h hmain
    · cases hstep
  | runAux i =>
    simp only [gateStep] at hstep
    split_ifs at hstep with hen
    cases hstep
    exact gateInv_runAux h hen.1 hen.2
  | close t c =>
    simp only [gateStep] at hstep
    split_ifs at hstep with hen
    cases hstep
    exact gateInv_close h hen.1 hen.2.1 hen.2.2.1
  | signal t =>
    simp only [gateStep] at hstep
    split at hstep
    · next k hk =>
      split_ifs at hstep with ht hlt
      · cases hstep
        exact gateInv_signal h ht hk
      · cases hstep
        exact gateInv_signalDone h ht hk (not_lt.1 hlt)
    · cases hstep

/-- **The gate**: `active_special_connections` is the number of open client connections; it exceeds
the maximum by at most one connection for every socket and every thread that can signal it, and one
more for every socket; and when nothing is pending and there is room, every socket is in epoll. -/
theorem gate_reopens {cfg : GateConfig} (hM : 0 < cfg.maxSpecial) {es : List GateEvent} {g : Gate}
    (hrun : run (gateStep cfg) gateStart es = some g) :
    g.active = g.openConns.card ∧
      g.active ≤ cfg.maxSpecial + (cfg.netThreads + 1) * cfg.listenSockets ∧
      (g.main = .idle → (∀ j < cfg.listenSockets, g.aux j = false) →
        (∀ t < cfg.netThreads, g.signalling t = none) → g.active < cfg.maxSpecial →
        ∀ j < cfg.listenSockets, g.inEpoll j = true) := by
  have h : GateInv cfg g := run_invariant (fun _ _ _ h _ hstep => gateInv_step h hstep)
    (gateInv_start hM) (along_true _ es) hrun
  refine ⟨h.active, ?_, fun _ haux hsig hroom j hj => ?_⟩
  · by_cases hfull : cfg.maxSpecial ≤ g.active
    · have hbound := h.bound hfull
      have hslack : 0 ≤ totalSlack cfg g := sum_nonneg fun j _ => slack_nonneg cfg g j
      omega
    · have : (0 : ℤ) ≤ (cfg.netThreads + 1) * cfg.listenSockets := by positivity
      omega
  · rcases h.reopens j hj with h' | h' | h' | h'
    · exact h'
    · rw [haux j hj] at h'
      cases h'
    · rw [outstanding, tally_eq_zero fun t ht => by rw [hsig t ht]; rfl] at h'
      exact absurd h' (lt_irrefl _)
    · omega

/-- The main thread serves socket 0 and takes connections beyond the maximum one at a time, each
time it is signalled. -/
def oneMore : List GateEvent :=
  [.runAux 0, .runAccept 0, .accept, .checkLimit, .epollRemove, .stopAccept]

/-- The main thread counts a connection, a thread closes another one in between, and the main thread
does not see the count at the maximum. -/
def slipThrough (t c : ℕ) : List GateEvent := [.accept, .close t c, .checkLimit]

/-- A full gate opens again: one socket, one thread, at most two connections. -/
theorem gate_reopens_afterClose :
    ∃ g, run (gateStep ⟨1, 1, 2⟩) gateStart
        [.runAccept 0, .accept, .checkLimit, .accept, .checkLimit, .epollRemove, .stopAccept,
          .close 0 0, .signal 0, .signal 0, .runAux 0] = some g ∧
      g.active = 1 ∧ g.active = g.openConns.card ∧ g.inEpoll 0 = true := by
  obtain ⟨g, hg, hidle, haux, hsig, hactive⟩ : ∃ g, run (gateStep ⟨1, 1, 2⟩) gateStart
      [.runAccept 0, .accept, .checkLimit, .accept, .checkLimit, .epollRemove, .stopAccept,
        .close 0 0, .signal 0, .signal 0, .runAux 0] = some g ∧
      g.main = .idle ∧ g.aux 0 = false ∧ g.signalling 0 = none ∧ g.active = 1 := by
    decide +kernel
  obtain ⟨hcount, -, hreopen⟩ := gate_reopens (by decide) hg
  refine ⟨g, hg, hactive, hcount, hreopen hidle (fun j hj => ?_) (fun t ht => ?_) ?_ 0 (by decide)⟩
  · rwa [Nat.lt_one_iff.1 hj]
  · rwa [Nat.lt_one_iff.1 ht]
  · rw [hactive]
    decide

/-- One socket, two threads, at most two connections: five are open. -/
theorem gate_overshoots_twice_sockets :
    ∃ g, run (gateStep ⟨1, 2, 2⟩) gateStart
        ([.runAccept 0, .accept, .checkLimit] ++ slipThrough 0 0 ++ [.signal 0, .signal 0] ++
          slipThrough 0 1 ++ slipThrough 1 2 ++ [.accept, .checkLimit, .epollRemove, .stopAccept] ++
          oneMore ++ [.signal 0] ++ oneMore ++ [.signal 1] ++ oneMore) = some g ∧
      g.active = 5 ∧ g.openConns.card = 5 := by
  decide +kernel

end Mtbolt.Net
