import Mtbolt.Worker.Switch

/-!
# Retries of a direct client

A direct client whose connection to the data centre fails tries again, at most `DIRECT_MAX_RETRIES`
times according to `direct_schedule_retry`, which reads the number of attempts from the client's
`extra_int`.  But `direct_retry_dc_connection` clears this field as soon as a connection has been
started, and not when the data centre has answered: a connection that fails after that counts from
zero again.
-/

namespace Mtbolt.Worker

open EventRun Secrets Function Option Bool

/-- The client for which an event schedules a retry, through `direct_schedule_retry` with attempts
left. -/
def scheduledBy (cfg : WorkerConfig) (w : State) : Event → Option ℕ
  | .header i s .allFailed =>
    if cfg.directMode && ((w.conns i).isTls || s ≥ maxSlots ||
        (rejection cfg.workers w.now (w.tbl.slot s) (w.conns i).addr).isNone) then some i
    else none
  | .alarm i false .allFailed =>
    if (w.conns i).extra = .null ∧ 0 < (w.conns i).extraInt ∧
        (w.conns i).extraInt < directMaxRetries then some i
    else none
  | .close i =>
    match (w.conns i).extra with
    | .conn j =>
      if (w.conns i).type = .directDc ∧ (w.conns i).crypto = false ∧
          (w.conns j).extraInt < directMaxRetries then some j
      else none
    | _ => none
  | _ => none

/-- The worker with the retries scheduled so far for each client while it was open. -/
structure RetryState where
  w : State
  retries : ℕ → ℕ

def startRetry (t : SecretTable) (now : ℤ) : RetryState := ⟨start t now, fun _ => 0⟩

/-- The retries after an event. -/
def countRetry (cfg : WorkerConfig) (st : RetryState) (e : Event) : ℕ → ℕ :=
  match scheduledBy cfg st.w e with
  | none => st.retries
  | some j =>
    if (st.w.conns j).closeRan then st.retries
    else update st.retries j (st.retries j + 1)

def retryStep (cfg : WorkerConfig) (st : RetryState) (e : Event) : Option RetryState :=
  (step cfg st.w e).map fun w' => ⟨w', countRetry cfg st e⟩

theorem countRetry_cases (cfg : WorkerConfig) (st : RetryState) (e : Event) (j : ℕ) :
    (countRetry cfg st e j = st.retries j ∧
        (scheduledBy cfg st.w e = some j → (st.w.conns j).closeRan = true)) ∨
      (countRetry cfg st e j = st.retries j + 1 ∧ scheduledBy cfg st.w e = some j ∧
        (st.w.conns j).closeRan = false) := by
  unfold countRetry
  cases hsched : scheduledBy cfg st.w e with
  | none => exact .inl ⟨rfl, nofun⟩
  | some k =>
    dsimp only
    by_cases hjk : j = k
    · subst hjk
      split_ifs with hrun
      · exact .inl ⟨rfl, fun _ => hrun⟩
      · exact .inr ⟨update_self .., rfl, eq_false_iff.2 hrun⟩
    · refine .inl ⟨?_, fun h => absurd (some.inj h).symm hjk⟩
      split_ifs
      · rfl
      · exact update_of_ne hjk ..

/-! ### The record of a client that tries again -/

section Scheduled

variable {cfg : WorkerConfig} {w w' : State} {j : ℕ}

/-- What a retry leaves behind: the attempt that follows the client's last one, or the first one. -/
structure Scheduled (w w' : State) (e : Event) (j : ℕ) : Prop where
  lt : j < w.next
  extraInt : (w'.conns j).extraInt ≤ directMaxRetries
  closeRan : (w'.conns j).closeRan = (w.conns j).closeRan
  isExt : (w'.conns j).isExt = false
  attempt : (w.conns j).beforeHandshake = true ∧ (w'.conns j).extraInt = 1 ∨
    (w.conns j).waiting ∧ (w'.conns j).extraInt = (w.conns j).extraInt + 1 ∨
    0 < (w'.conns j).extraInt ∧ ∃ i, e = .close i ∧ (w.conns i).type = .directDc ∧
      (w.conns i).extra = .conn j ∧ (w.conns i).crypto = false

variable {i : ℕ} {e : Event} {cfg : WorkerConfig}

theorem scheduled_header {s : ℕ} (hi : i < w.next)
    (hbefore : (w.conns i).beforeHandshake = true)
    (hsched : scheduledBy cfg w (.header i s .allFailed) = some j) :
    Scheduled w (acceptHeader cfg w i s .allFailed) (.header i s .allFailed) j := by
  simp only [scheduledBy] at hsched
  split_ifs at hsched with hcond
  obtain rfl := some.inj hsched
  simp only [and_eq_true, or_eq_true, decide_eq_true_eq, isNone_iff_eq_none] at hcond
  obtain ⟨hmode, hpassed⟩ := hcond
  have hconn : (acceptHeader cfg w i s .allFailed).conns i =
      { ((w.conns i).letIn s).toDirect with extraInt := 1 } := by
    unfold acceptHeader
    dsimp only
    split
    · next r hrej =>
      split_ifs at hrej with hskip
      simp only [or_eq_true, decide_eq_true_eq] at hskip
      rw [hpassed.resolve_left hskip] at hrej
      cases hrej
    · rw [if_pos hmode, conns_directConnectToDc (conns_letIn w i s) (next_letIn w i s) _ hi,
        if_pos rfl]
  refine ⟨hi, ?_, ?_, ?_, .inl ⟨hbefore, ?_⟩⟩
  · rw [hconn]
    exact Nat.le_of_ble_eq_true rfl
  · rw [hconn]
    exact Conn.closeRan_letIn ..
  · rw [hconn]
    exact Conn.isExt_eq_false (isDirectClient_toDirect _)
  · rw [hconn]

theorem scheduled_alarm (hi : i < w.next) (hdirect : (w.conns i).isDirectClient = true)
    (hsched : scheduledBy cfg w (.alarm i false .allFailed) = some j) :
    Scheduled w (directClientAlarm w i false .allFailed) (.alarm i false .allFailed) j := by
  simp only [scheduledBy] at hsched
  split_ifs at hsched with hcond
  obtain rfl := some.inj hsched
  obtain ⟨hnull, hpos, hlt⟩ := hcond
  have hconn : (directClientAlarm w i false .allFailed).conns i =
      { w.conns i with extraInt := (w.conns i).extraInt + 1 } := by
    unfold directClientAlarm
    rw [if_neg (by simp), if_pos ⟨hnull, hpos⟩]
    show (directScheduleRetry w i _).conns i = _
    unfold directScheduleRetry
    rw [if_neg (Nat.not_le_of_lt hlt), conns_setConn_self]
  refine ⟨hi, ?_, ?_, ?_, .inr (.inl ⟨⟨hnull, hpos⟩, ?_⟩)⟩
  · rw [hconn]
    exact hlt
  · rw [hconn]
  · rw [hconn]
    exact Conn.isExt_eq_false hdirect
  · rw [hconn]

theorem scheduled_close (hw : Tabled w) (hapart : Apart w) (hi : i < w.next)
    (hsched : scheduledBy cfg w (.close i) = some j) :
    Scheduled w (closeConnection w i) (.close i) j := by
  simp only [scheduledBy] at hsched
  split at hsched
  · next k hik =>
    split_ifs at hsched with hcond
    obtain rfl := some.inj hsched
    obtain ⟨htype, hcrypto, hlt⟩ := hcond
    obtain ⟨hk, hext⟩ := hw.partner i hi k hik
    have hne : k ≠ i := (hapart i hi k hik).2
    have hconn : (closeConnection w i).conns k =
        { w.conns k with extra := .null, extraInt := (w.conns k).extraInt + 1 } := by
      unfold closeConnection
      dsimp only
      rw [htype]
      unfold tcpDirectClose
      rw [conns_setConn_self]
      show (match (w.conns i).extra with | .conn j => _ | _ => _ : State).conns k = _
      rw [hik]
      dsimp only
      rw [conns_setConn_of_ne _ _ hne, if_pos ⟨htype, hcrypto, hlt⟩,
        conns_detachForRetry hne (by rwa [conns_setConn_of_ne _ _ hne]), if_pos rfl,
        conns_setConn_of_ne _ _ hne]
    refine ⟨hk, ?_, ?_, ?_, .inr (.inr ⟨?_, i, rfl, htype, hik, hcrypto⟩)⟩
    · rw [hconn]
      exact hlt
    · rw [hconn]
    · rw [hconn]
      exact hext
    · rw [hconn]
      exact Nat.succ_pos _
  · cases hsched

theorem scheduled_handle (hw : Tabled w) (hapart : Apart w)
    (h : step cfg w e = some w') (hsched : scheduledBy cfg w e = some j) : Scheduled w w' e j := by
  obtain ⟨hen, rfl⟩ := step_eq_some h
  cases e with
  | header i s dc =>
    cases dc with
    | allFailed => exact scheduled_header hen.1.1 hen.1.2 hsched
    | unknownDc => cases hsched
    | linked => cases hsched
  | alarm i resumed dc =>
    cases resumed with
    | true => cases hsched
    | false =>
      cases dc with
      | allFailed => exact scheduled_alarm hen.1.1 hen.1.2 hsched
      | unknownDc => cases hsched
      | linked => cases hsched
  | close i =>
    exact scheduled_close hw hapart hen.1.1 hsched
  | _ => cases hsched

end Scheduled

/-! ### The invariant -/

/-- The retries `n` of a client, against its record: none before it goes to a data centre, and as
many as `extra_int` says while it waits for the next one. -/
structure Conn.Within (c : Conn) (n : ℕ) : Prop where
  le : n ≤ directMaxRetries
  ext : c.isExt = true → n = 0
  waiting : c.closeRan = false → c.waiting → n ≤ c.extraInt

structure RetryBounded (st : RetryState) : Prop where
  tabled : Tabled st.w
  apart : Apart st.w
  conn : ∀ j < st.w.next, (st.w.conns j).Within (st.retries j)
  fresh : ∀ j, st.w.next ≤ j → st.retries j = 0

theorem Change.within {w : State} {j : ℕ} {c : Conn}
    (h : Change cfg w j e c) {n : ℕ} (hn : (w.conns j).Within n)
    (hquiet : scheduledBy cfg w e = some j → (w.conns j).closeRan = true) : c.Within n := by
  have hzero (hbefore : (w.conns j).beforeHandshake = true) : n = 0 :=
    hn.ext (Conn.isExt_of_before hbefore)
  have hnone {d : Conn} (hbefore : (w.conns j).beforeHandshake = true) : d.Within n := by
    rw [hzero hbefore]
    exact ⟨Nat.zero_le _, fun _ => rfl, fun _ _ => Nat.zero_le _⟩
  cases h with
  | same _ => exact hn
  | failed _ => exact ⟨hn.le, hn.ext, hn.waiting⟩
  | tls => exact ⟨hn.le, hn.ext, hn.waiting⟩
  | proxied hbefore _ | notProxied hbefore | rejected hbefore | admitted hbefore _
  | unknownDc hbefore | dialFailed hbefore | dialled hbefore _ | undecipherable hbefore =>
    exact hnone hbefore
  | queued _ => exact ⟨hn.le, hn.ext, hn.waiting⟩
  | closed hext => exact ⟨hn.le, hn.ext, fun hrun => by cases hrun⟩
  | @detached i hi htype hextra hcrypto hint =>
    have hsched : scheduledBy cfg w (.close i) = some j := by
      simp only [scheduledBy, hextra]
      rw [if_pos ⟨htype, hcrypto, hint⟩]
    refine ⟨hn.le, hn.ext, fun hopen => ?_⟩
    rw [hquiet hsched] at hopen
    cases hopen
  | closeRan _ => exact ⟨hn.le, hn.ext, fun hrun => by cases hrun⟩
  | retryUnknown _ => exact ⟨hn.le, hn.ext, fun _ hwait => absurd hwait.2 (Nat.lt_irrefl 0)⟩
  | retryFailed hwait _ =>
    exact ⟨hn.le, hn.ext, fun hopen _ => (hn.waiting hopen hwait).trans (Nat.le_succ _)⟩
  | retryDialled _ _ => exact ⟨hn.le, hn.ext, fun _ hwait => by cases hwait.1⟩
  | connected => exact ⟨hn.le, hn.ext, hn.waiting⟩

/-- No connection to a data centre that a retry has started fails before its handshake, while the
client is open. -/
def RetryHolds (st : RetryState) : Event → Prop
  | .close i =>
    match (st.w.conns i).extra with
    | .conn j =>
      (st.w.conns i).type = .directDc → (st.w.conns i).crypto = false →
        (st.w.conns j).closeRan = false → st.retries j = 0
    | _ => True
  | _ => True

theorem retryBounded_retryStep {st st' : RetryState}
    (hst : RetryBounded st) (hok : RetryHolds st e) (h : retryStep cfg st e = some st') :
    RetryBounded st' := by
  obtain ⟨w', hw', rfl⟩ := map_eq_some_iff.1 h
  have hlater (j : ℕ) (hj : st.w.next ≤ j) : countRetry cfg st e j = 0 := by
    rcases countRetry_cases cfg st e j with ⟨heq, -⟩ | ⟨-, hsched, -⟩
    · rw [heq, hst.fresh j hj]
    · have := (scheduled_handle hst.tabled hst.apart hw' hsched).lt
      omega
  refine ⟨tabled_handle hst.tabled hst.apart hw', apart_handle hst.apart hw', fun j hj => ?_,
    fun j hj => hlater j ((next_le_handle hw').trans hj)⟩
  show (w'.conns j).Within (countRetry cfg st e j)
  by_cases hold : j < st.w.next
  · have hn := hst.conn j hold
    rcases countRetry_cases cfg st e j with ⟨heq, hquiet⟩ | ⟨heq, hsched, hopen⟩
    · rw [heq]
      exact (change_handle hst.apart hw' hold).within hn hquiet
    · rw [heq]
      obtain ⟨-, hle, hrun, hext, hattempt⟩ := scheduled_handle hst.tabled hst.apart hw' hsched
      have hcount : st.retries j + 1 ≤ (w'.conns j).extraInt := by
        rcases hattempt with ⟨hbefore, hone⟩ | ⟨hwait, hnext⟩ | ⟨hpos, i, rfl, htype, hextra, hcrypto⟩
        · rw [hn.ext (Conn.isExt_of_before hbefore), hone]
        · rw [hnext]
          exact Nat.succ_le_succ (hn.waiting hopen hwait)
        · -- the connection that fails is the client's first one
          simp only [RetryHolds, hextra] at hok
          rw [hok htype hcrypto hopen]
          exact hpos
      exact ⟨hcount.trans hle, fun hx => by simp [hext] at hx, fun _ _ => hcount⟩
  · rw [hlater j (Nat.le_of_not_lt hold)]
    exact ⟨Nat.zero_le _, fun _ => rfl, fun _ _ => Nat.zero_le _⟩

theorem retryBounded_startRetry (t : SecretTable) (now : ℤ) : RetryBounded (startRetry t now) where
  tabled := tabled_start t now
  apart := apart_start t now
  conn := fun j hj => absurd hj (Nat.not_lt_zero j)
  fresh := fun _ _ => rfl

/-- **Retries are bounded** in every run in which no connection that a retry has started fails before
its handshake. -/
theorem retries_bounded (cfg : WorkerConfig) (t : SecretTable) (now : ℤ) (es : List Event)
    (st : RetryState) (hok : Along (retryStep cfg) RetryHolds (startRetry t now) es)
    (hrun : run (retryStep cfg) (startRetry t now) es = some st) (j : ℕ) :
    st.retries j ≤ directMaxRetries := by
  have hst : RetryBounded st :=
    run_invariant (fun _ _ _ => retryBounded_retryStep) (retryBounded_startRetry t now) hok hrun
  by_cases hj : j < st.w.next
  · exact (hst.conn j hj).le
  · rw [hst.fresh j (Nat.le_of_not_lt hj)]
    exact Nat.zero_le _

instance (st : RetryState) (e : Event) : Decidable (RetryHolds st e) := by
  induction e using Event.casesOn with
  | close i =>
    dsimp only [RetryHolds]
    induction (st.w.conns i).extra using Extra.casesOn <;> infer_instance
  | _ => exact isTrue trivial

/-- The first connection to the data centre fails before its handshake, and then no other one can be
started. -/
def deadDc : List Event :=
  [.accept ⟨1, 0⟩, .header 0 0 .linked, .fail 1, .close 1, .alarm 0 false .allFailed,
    .alarm 0 false .allFailed, .alarm 0 false .allFailed]

theorem retries_bounded_deadDc :
    ∃ st, run (retryStep ⟨1, true⟩) (startRetry (sampleTable 0) 0) deadDc = some st ∧
      st.retries 0 = directMaxRetries ∧ (st.w.conns 0).cError = true ∧
      st.retries 0 ≤ directMaxRetries := by
  obtain ⟨st, hrun, hcount, hfailed⟩ : ∃ st,
      run (retryStep ⟨1, true⟩) (startRetry (sampleTable 0) 0) deadDc = some st ∧
        st.retries 0 = directMaxRetries ∧ (st.w.conns 0).cError = true := by decide +kernel
  exact ⟨st, hrun, hcount, hfailed,
    retries_bounded ⟨1, true⟩ (sampleTable 0) 0 deadDc st (by decide +kernel) hrun 0⟩

/-- Each connection to the data centre is started and fails before its handshake. -/
def slowDc : List Event :=
  [.accept ⟨1, 0⟩, .header 0 0 .linked, .fail 1, .close 1, .alarm 0 false .linked, .fail 2, .close 2,
    .alarm 0 false .linked, .fail 3, .close 3, .alarm 0 false .linked, .fail 4, .close 4]

/-- The client has had four retries, is open, no connection to a data centre has come through its
handshake, and the fifth attempt is due. -/
theorem retries_unbounded :
    ∃ st, run (retryStep ⟨1, true⟩) (startRetry (sampleTable 0) 0) slowDc = some st ∧
      st.retries 0 = directMaxRetries + 1 ∧ (st.w.conns 0).cError = false ∧
      (∀ i < st.w.next, (st.w.conns i).type = .directDc → (st.w.conns i).crypto = false) ∧
      (st.w.conns 0).extraInt = 1 := by decide +kernel

end Mtbolt.Worker
