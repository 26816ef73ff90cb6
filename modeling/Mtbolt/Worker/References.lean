import Mtbolt.Worker.Retries

/-!
# References between paired connections

When a connection to a data centre or to the camouflage backend is opened for a client, each of the
two takes a reference on the other (`job_incref`) and keeps it in its `extra`.  A close handler moves
the reference out of `extra` and releases it (`job_decref`).  When a connection to a data centre fails
before its handshake, `tcp_direct_close` releases its own reference on the client and sets the
client's `extra` to null: the reference that the client held there is lost.
-/

namespace Mtbolt.Worker

open EventRun Secrets List

/-- A reference of the connection `holder` on the connection `target`. -/
inductive RefOp
  | take (holder target : ℕ)
  | release (holder target : ℕ)
  deriving DecidableEq, Repr

/-- The references that an event takes: both sides of a new pair. -/
def takes (cfg : WorkerConfig) (w : State) (e : Event) : List RefOp :=
  match linkedBy cfg w e with
  | some i => [.take i w.next, .take w.next i]
  | none => []

/-- The reference that an event releases: `tcp_direct_close` and `tcp_proxy_pass_close` release what
is in the connection's `extra`. -/
def releases (w : State) : Event → List RefOp
  | .close i =>
    if (w.conns i).isExt then []
    else match (w.conns i).extra with
      | .conn j => [.release i j]
      | _ => []
  | _ => []

def refOps (cfg : WorkerConfig) (w : State) (e : Event) : List RefOp := takes cfg w e ++ releases w e

/-- The worker with the references taken and released so far. -/
structure RefState where
  w : State
  log : List RefOp

def startRef (t : SecretTable) (now : ℤ) : RefState := ⟨start t now, []⟩

def refStep (cfg : WorkerConfig) (st : RefState) (e : Event) : Option RefState :=
  (step cfg st.w e).map fun w' => ⟨w', st.log ++ refOps cfg st.w e⟩

/-- Whether `c` holds a reference on `x`. -/
def Conn.holds (c : Conn) (x : ℕ) : ℕ := if c.extra = .conn x then 1 else 0

/-! ### What an event takes and releases -/

section Ops

variable {cfg : WorkerConfig} {w : State} {e : Event}

theorem linkedBy_of_releases (cfg : WorkerConfig) {h x : ℕ} (hmem : .release h x ∈ releases w e) :
    linkedBy cfg w e = none ∧ e = .close h ∧ (w.conns h).isExt = false ∧
      (w.conns h).extra = .conn x := by
  cases e with
  | close i =>
    simp only [releases] at hmem
    split_ifs at hmem with hext
    · cases hmem
    · split at hmem
      · next j hij =>
        obtain ⟨rfl, rfl⟩ := RefOp.release.inj (mem_singleton.1 hmem)
        exact ⟨rfl, rfl, Bool.eq_false_iff.2 hext, hij⟩
      · cases hmem
  | _ => cases hmem

theorem count_take_releases (h x : ℕ) : (releases w e).count (.take h x) = 0 := by
  refine count_eq_zero.2 fun hmem => ?_
  cases e with
  | close i =>
    simp only [releases] at hmem
    split_ifs at hmem
    · cases hmem
    · split at hmem
      · cases mem_singleton.1 hmem
      · cases hmem
  | _ => cases hmem

theorem count_release_takes (h x : ℕ) : (takes cfg w e).count (.release h x) = 0 := by
  unfold takes
  split <;> simp

variable {i j : ℕ}

theorem count_take_takes (hlink : linkedBy cfg w e = some i) (hi : i ≠ w.next) (h x : ℕ) :
    (takes cfg w e).count (.take h x) =
      (if h = i ∧ x = w.next then 1 else 0) + if h = w.next ∧ x = i then 1 else 0 := by
  unfold takes
  rw [hlink]
  by_cases hfirst : h = i ∧ x = w.next
  · obtain ⟨rfl, rfl⟩ := hfirst
    simp [hi, hi.symm]
  · by_cases hsecond : h = w.next ∧ x = i
    · obtain ⟨rfl, rfl⟩ := hsecond
      simp [hi, hi.symm]
    · rw [if_neg hfirst, if_neg hsecond]
      refine count_eq_zero.2 fun hmem => ?_
      simp only [mem_cons, RefOp.take.injEq, not_mem_nil, or_false] at hmem
      exact hmem.elim hfirst hsecond

theorem count_release_releases (h x : ℕ) :
    (releases w e).count (.release h x) =
      if e = .close h ∧ (w.conns h).isExt = false then (w.conns h).holds x else 0 := by
  by_cases hclose : e = .close h ∧ (w.conns h).isExt = false
  · obtain ⟨rfl, hext⟩ := hclose
    simp only [releases, hext, Conn.holds]
    cases (w.conns h).extra with
    | null => simp
    | rpcFuncs => simp
    | conn j =>
      by_cases hj : j = x
      · subst hj
        simp
      · simp [hj]
  · rw [if_neg hclose]
    refine count_eq_zero.2 fun hmem => hclose ?_
    obtain ⟨-, he, hext, -⟩ := linkedBy_of_releases ⟨0, false⟩ hmem
    exact ⟨he, hext⟩

end Ops

/-! ### The invariant -/

/-- The references of the log and those in the `extra` fields; `closed` says that a connection that
has closed holds none, and will not get one. -/
structure Balanced (st : RefState) : Prop where
  tabled : Tabled st.w
  apart : Apart st.w
  closed : ∀ h < st.w.next, (st.w.conns h).cFailed = true →
    (st.w.conns h).cError = true ∧ ∀ x, (st.w.conns h).extra ≠ .conn x
  past : ∀ h x, st.w.next ≤ h ∨ st.w.next ≤ x →
    st.log.count (.take h x) = 0 ∧ st.log.count (.release h x) = 0
  pair : ∀ h x, st.log.count (.take h x) = st.log.count (.take x h)
  once : ∀ h x, st.log.count (.take h x) ≤ 1
  held : ∀ h < st.w.next, ∀ x, st.log.count (.take h x) =
    st.log.count (.release h x) + (st.w.conns h).holds x

theorem balanced_startRef (t : SecretTable) (now : ℤ) : Balanced (startRef t now) where
  tabled := tabled_start t now
  apart := apart_start t now
  closed := fun h hh => absurd hh (Nat.not_lt_zero h)
  past := fun _ _ _ => ⟨rfl, rfl⟩
  pair := fun _ _ => rfl
  once := fun _ _ => Nat.zero_le _
  held := fun h hh => absurd hh (Nat.not_lt_zero h)

/-- A connection to a data centre that fails before its handshake, with a retry left, fails when its
client no longer refers to it. -/
def LinkHolds (st : RefState) : Event → Prop
  | .close i =>
    match (st.w.conns i).extra with
    | .conn j =>
      (st.w.conns i).type = .directDc → (st.w.conns i).crypto = false →
        (st.w.conns j).extraInt < directMaxRetries → (st.w.conns j).extra = .null
    | _ => True
  | _ => True

section Steps

variable {cfg : WorkerConfig} {w w' : State} {e : Event}

theorem Change.closed_holds_none {c : Conn} (hchange : Change cfg w j e c) (hw : Tabled w)
    (hj : j < w.next) (hen : e.Ready w)
    (hold : (w.conns j).cFailed = true →
      (w.conns j).cError = true ∧ ∀ x, (w.conns j).extra ≠ .conn x)
    (hfailed : c.cFailed = true) : c.cError = true ∧ ∀ x, c.extra ≠ .conn x := by
  have hbefore' {d : Conn} (hbefore : (w.conns j).beforeHandshake = true)
      (hd : d.cFailed = (w.conns j).cFailed) (hfailed : d.cFailed = true) :
      d.cError = true ∧ ∀ x, d.extra ≠ .conn x := by
    simp only [Conn.beforeHandshake, Bool.and_eq_true, Bool.not_eq_true'] at hbefore
    rw [hd, hbefore.2] at hfailed
    cases hfailed
  cases hchange with
  | same _ => exact hold hfailed
  | failed _ => exact ⟨rfl, (hold hfailed).2⟩
  | tls => exact hold hfailed
  | proxied hbefore _ | notProxied hbefore | rejected hbefore => exact hbefore' hbefore rfl hfailed
  | admitted hbefore _ | unknownDc hbefore | dialFailed hbefore | dialled hbefore _ =>
    exact hbefore' hbefore (Conn.cFailed_letIn ..) hfailed
  | undecipherable hbefore => exact hbefore' hbefore rfl hfailed
  | queued hext =>
    refine ⟨hen.1.2, fun x hx => ?_⟩
    have htable := hw.ext j hj hext
    rw [show (w.conns j).extra = .conn x from hx] at htable
    cases htable
  | closed _ =>
    exact ⟨hen.1.2, fun x hx => by cases hx⟩
  | detached _ _ _ _ _ => exact ⟨(hold hfailed).1, fun x hx => by cases hx⟩
  | closeRan _ => exact hold hfailed
  | retryUnknown _ => exact ⟨rfl, (hold hfailed).2⟩
  | retryFailed _ _ => exact hold hfailed
  | retryDialled _ _ =>
    have herr := (hold hfailed).1
    rw [hen.2] at herr
    cases herr
  | connected => exact hold hfailed

/-- The connection for which another one is opened held no reference: it had its function table, or
was waiting for a retry. -/
theorem extra_of_linkedBy (hw : Tabled w) (h : step cfg w e = some w')
    (hlink : linkedBy cfg w e = some i) (x : ℕ) : (w.conns i).extra ≠ .conn x := by
  intro hx
  rcases linkedBy_cases (step_eq_some h).1 hlink with hbefore | ⟨hwait, -⟩
  · have hi := (opened_of_linkedBy h hlink).lt
    cases hx.symm.trans (hw.ext i hi (Conn.isExt_of_before hbefore))
  · cases hx.symm.trans hwait.1

theorem holds_congr {c d : Conn} (h : d.extra = c.extra) (x : ℕ) : d.holds x = c.holds x := by
  rw [Conn.holds, Conn.holds, h]

theorem holds_eq_zero {c : Conn} {x : ℕ} (h : c.extra ≠ .conn x) : c.holds x = 0 := if_neg h

/-- What a connection holds after an event: what it held, without what it has released and with what
it has taken. -/
theorem holds_handle (hw : Tabled w) (hapart : Apart w) (h : step cfg w e = some w')
    (hok : LinkHolds ⟨w, []⟩ e) (hj : j < w.next) (x : ℕ) :
    (takes cfg w e).count (.take j x) + (w.conns j).holds x =
      (releases w e).count (.release j x) + (w'.conns j).holds x := by
  rw [count_release_releases]
  cases hlink : linkedBy cfg w e with
  | some i =>
    have hopen := opened_of_linkedBy h hlink
    have hnot : ¬ (e = .close j ∧ (w.conns j).isExt = false) := by
      rintro ⟨rfl, -⟩
      cases hlink
    have hold : ¬ (j = w.next ∧ x = i) := fun hn => hj.ne hn.1
    rw [count_take_takes hlink hopen.lt.ne, if_neg hnot, if_neg hold, Nat.zero_add]
    by_cases hji : j = i
    · subst hji
      rw [holds_eq_zero (extra_of_linkedBy hw h hlink x), Conn.holds, hopen.back]
      by_cases hx : x = w.next
      · rw [if_pos ⟨rfl, hx⟩, if_pos (by rw [hx])]
      · rw [if_neg fun hn => hx hn.2, if_neg fun hn => hx (Extra.conn.inj hn).symm]
    · rw [if_neg fun hn => hji hn.1, Nat.zero_add]
      rcases (change_handle hapart h hj).extra_cases with hx | ⟨k, rfl, -⟩ | ⟨-, hlink'⟩
      · exact (holds_congr hx x).symm
      · cases hlink
      · rw [hlink] at hlink'
        exact absurd (Option.some.inj hlink').symm hji
  | none =>
    have hnone : takes cfg w e = [] := by
      unfold takes
      rw [hlink]
    rw [hnone, count_nil, Nat.zero_add]
    by_cases hclose : e = .close j ∧ (w.conns j).isExt = false
    · obtain ⟨rfl, hext⟩ := hclose
      have hnull := extra_closed hapart h hext
      rw [if_pos ⟨rfl, hext⟩, holds_eq_zero (c := w'.conns j)
        (by rw [hnull]; exact fun hn => by cases hn),
        Nat.add_zero]
    · rw [if_neg hclose, Nat.zero_add]
      rcases (change_handle hapart h hj).extra_cases with
        hx | ⟨k, rfl, hnull, ⟨rfl, hext⟩ | ⟨hextra, htype, hcrypto, hint⟩⟩ | ⟨-, hlink'⟩
      · exact (holds_congr hx x).symm
      · exact absurd ⟨rfl, hext⟩ hclose
      · -- the detached client: it must have let go before
        simp only [LinkHolds, hextra] at hok
        exact (holds_congr (hnull.trans (hok htype hcrypto hint).symm) x).symm
      · rw [hlink] at hlink'
        cases hlink'

/-- What an event takes and releases is between connections that exist, or one of them is new. -/
theorem count_refOps_past (hapart : Apart w) (h : step cfg w e = some w') {x : ℕ}
    (hpast : w'.next ≤ j ∨ w'.next ≤ x) :
    (takes cfg w e).count (.take j x) = 0 ∧ (releases w e).count (.release j x) = 0 := by
  have hle := next_le_handle h
  constructor
  · cases hlink : linkedBy cfg w e with
    | none => simp [takes, hlink]
    | some i =>
      have hopen := opened_of_linkedBy h hlink
      have hlt := hopen.lt
      rw [hopen.next] at hpast
      rw [count_take_takes hlink hopen.lt.ne, if_neg (by omega), if_neg (by omega)]
  · refine count_eq_zero.2 fun hmem => ?_
    obtain ⟨-, rfl, -, hextra⟩ := linkedBy_of_releases cfg hmem
    have hlt := (step_eq_some h).1.1.1
    have := (hapart j hlt x hextra).1
    omega

end Steps

section Log

variable {cfg : WorkerConfig} {st : RefState} {e : Event}

theorem count_take_log (h x : ℕ) : (st.log ++ refOps cfg st.w e).count (.take h x) =
    st.log.count (.take h x) + (takes cfg st.w e).count (.take h x) := by
  rw [refOps, count_append, count_append, count_take_releases, Nat.add_zero]

theorem count_release_log (h x : ℕ) : (st.log ++ refOps cfg st.w e).count (.release h x) =
    st.log.count (.release h x) + (releases st.w e).count (.release h x) := by
  rw [refOps, count_append, count_append, count_release_takes, Nat.zero_add]

theorem held_new {w' : State} (h : step cfg st.w e = some w')
    (hj : st.w.next ≤ j) (hj' : j < w'.next) (x : ℕ) :
    (takes cfg st.w e).count (.take j x) =
      (releases st.w e).count (.release j x) + (w'.conns j).holds x := by
  have hreleased : (releases st.w e).count (.release j x) = 0 := by
    refine count_eq_zero.2 fun hmem => ?_
    obtain ⟨-, rfl, -, -⟩ := linkedBy_of_releases cfg hmem
    have hlt := (step_eq_some h).1.1.1
    omega
  rw [hreleased]
  cases hlink : linkedBy cfg st.w e with
  | some i =>
    have hopen := opened_of_linkedBy h hlink
    rw [hopen.next] at hj'
    obtain rfl : j = st.w.next := by omega
    rw [count_take_takes hlink hopen.lt.ne, if_neg fun hn => hopen.lt.ne hn.1.symm, Conn.holds,
      hopen.extra]
    by_cases hx : x = i
    · rw [if_pos ⟨rfl, hx⟩, if_pos (by rw [hx])]
    · rw [if_neg fun hn => hx hn.2, if_neg fun hn => hx (Extra.conn.inj hn).symm]
  | none =>
    have hnone : takes cfg st.w e = [] := by
      unfold takes
      rw [hlink]
    rw [hnone, count_nil]
    rcases next_handle h hlink with hnext | ⟨addr, -, hnext, hnew⟩
    · omega
    · obtain rfl : j = st.w.next := by omega
      rw [hnew, holds_eq_zero (fun hn => by cases hn)]

theorem balanced_refStep {st' : RefState} (hst : Balanced st) (hok : LinkHolds st e)
    (h : refStep cfg st e = some st') : Balanced st' := by
  obtain ⟨w', hw', rfl⟩ := Option.map_eq_some_iff.1 h
  have hle := next_le_handle hw'
  refine ⟨tabled_handle hst.tabled hst.apart hw', apart_handle hst.apart hw', ?_,
    fun j x hpast => ?_, fun j x => ?_, fun j x => ?_, fun j hj x => ?_⟩
  · -- a new connection has not been closed
    refine forall_handle hw' (fun j hj hfailed => ?_) (fun i _ hopen hfailed => ?_)
      fun addr _ hnew hfailed => ?_
    · exact (change_handle hst.apart hw' hj).closed_holds_none hst.tabled hj
        (step_eq_some hw').1 (hst.closed j hj) hfailed
    · rw [hopen.fresh] at hfailed
      cases hfailed
    · rw [hnew] at hfailed
      cases hfailed
  · obtain ⟨htake, hrelease⟩ := count_refOps_past hst.apart hw' hpast
    obtain ⟨htake', hrelease'⟩ := hst.past j x (hpast.imp hle.trans hle.trans)
    rw [count_take_log, count_release_log, htake, hrelease, htake', hrelease']
    exact ⟨rfl, rfl⟩
  · rw [count_take_log, count_take_log, hst.pair j x]
    cases hlink : linkedBy cfg st.w e with
    | some i =>
      have hopen := opened_of_linkedBy hw' hlink
      rw [count_take_takes hlink hopen.lt.ne, count_take_takes hlink hopen.lt.ne]
      simp only [and_comm]
      omega
    | none => simp [takes, hlink]
  · rw [count_take_log]
    cases hlink : linkedBy cfg st.w e with
    | some i =>
      have hopen := opened_of_linkedBy hw' hlink
      have hlt := hopen.lt
      rw [count_take_takes hlink hopen.lt.ne]
      have honce := hst.once j x
      have hpast := hst.past j x
      split_ifs with hfirst hsecond hsecond
      · omega
      · omega
      · omega
      · omega
    | none =>
      have hnone : takes cfg st.w e = [] := by
        unfold takes
        rw [hlink]
      rw [hnone, count_nil]
      exact hst.once j x
  · rw [count_take_log, count_release_log]
    by_cases hold : j < st.w.next
    · have hheld := hst.held j hold x
      have hstep := holds_handle hst.tabled hst.apart hw' hok hold x
      dsimp only
      omega
    · obtain ⟨htake, hrelease⟩ := hst.past j x (.inl (Nat.le_of_not_lt hold))
      rw [htake, hrelease, Nat.zero_add, Nat.zero_add]
      exact held_new hw' (Nat.le_of_not_lt hold) hj x

end Log

/-- **The references of a pair are released exactly once** in every run in which no connection to a
data centre fails before its handshake while its client still refers to it and has a retry left: when
the two that were linked have closed, neither holds a reference, and each of the two references was
taken once and released once. -/
theorem link_references_released (cfg : WorkerConfig) (t : SecretTable) (now : ℤ) (es : List Event)
    (st : RefState) (hok : Along (refStep cfg) LinkHolds (startRef t now) es)
    (hrun : run (refStep cfg) (startRef t now) es = some st) (c d : ℕ)
    (hlink : .take c d ∈ st.log) (hc : (st.w.conns c).cFailed = true)
    (hd : (st.w.conns d).cFailed = true) :
    (∀ x, (st.w.conns c).extra ≠ .conn x ∧ (st.w.conns d).extra ≠ .conn x) ∧
      st.log.count (.take c d) = 1 ∧ st.log.count (.release c d) = 1 ∧
      st.log.count (.take d c) = 1 ∧ st.log.count (.release d c) = 1 := by
  have hst : Balanced st := run_invariant (fun _ _ _ => balanced_refStep) (balanced_startRef t now)
    hok hrun
  have hcd : st.log.count (.take c d) = 1 := le_antisymm (hst.once c d) (one_le_count_iff.2 hlink)
  have hdc : st.log.count (.take d c) = 1 := (hst.pair d c).trans hcd
  have hlt : c < st.w.next ∧ d < st.w.next := by
    refine ⟨Nat.lt_of_not_le fun hn => ?_, Nat.lt_of_not_le fun hn => ?_⟩
    · have := (hst.past c d (.inl hn)).1
      omega
    · have := (hst.past c d (.inr hn)).1
      omega
  have hnone := (hst.closed c hlt.1 hc).2
  have hnone' := (hst.closed d hlt.2 hd).2
  have hheld := hst.held c hlt.1 d
  have hheld' := hst.held d hlt.2 c
  rw [holds_eq_zero (hnone d)] at hheld
  rw [holds_eq_zero (hnone' c)] at hheld'
  exact ⟨fun x => ⟨hnone x, hnone' x⟩, hcd, by omega, hdc, by omega⟩

instance (st : RefState) (e : Event) : Decidable (LinkHolds st e) := by
  induction e using Event.casesOn with
  | close i =>
    dsimp only [LinkHolds]
    induction (st.w.conns i).extra using Extra.casesOn <;> infer_instance
  | _ => exact isTrue trivial

/-- A direct client goes away before the data centre has answered, and a visitor of the backend after
the backend. -/
def pairsClose : List Event :=
  [.accept ⟨1, 0⟩, .header 0 0 .linked, .fail 0, .close 0, .close 1, .accept ⟨2, 0⟩,
    .toBackend 2 true, .fail 3, .close 3, .close 2]

theorem link_references_released_pairsClose :
    ∃ st, run (refStep ⟨1, true⟩) (startRef (sampleTable 0) 0) pairsClose = some st ∧
      st.log.count (.release 0 1) = 1 ∧ st.log.count (.release 1 0) = 1 ∧
      st.log.count (.release 2 3) = 1 ∧ st.log.count (.release 3 2) = 1 := by
  obtain ⟨st, hrun, hlink, hlink', h0, h1, h2, h3⟩ : ∃ st,
      run (refStep ⟨1, true⟩) (startRef (sampleTable 0) 0) pairsClose = some st ∧
        .take 0 1 ∈ st.log ∧ .take 2 3 ∈ st.log ∧ (st.w.conns 0).cFailed = true ∧
        (st.w.conns 1).cFailed = true ∧ (st.w.conns 2).cFailed = true ∧
        (st.w.conns 3).cFailed = true := by decide +kernel
  have hok : Along (refStep ⟨1, true⟩) LinkHolds (startRef (sampleTable 0) 0) pairsClose := by
    decide +kernel
  have hfirst := link_references_released ⟨1, true⟩ (sampleTable 0) 0 pairsClose st hok hrun 0 1
    hlink h0 h1
  have hsecond := link_references_released ⟨1, true⟩ (sampleTable 0) 0 pairsClose st hok hrun 2 3
    hlink' h2 h3
  exact ⟨st, hrun, hfirst.2.2.1, hfirst.2.2.2.2, hsecond.2.2.1, hsecond.2.2.2.2⟩

/-- The connection to the data centre fails before its handshake, and a retry is scheduled; then the
client goes away. -/
def dcFailsFirst : List Event :=
  [.accept ⟨1, 0⟩, .header 0 0 .linked, .fail 1, .close 1, .fail 0, .close 0]

/-- Both have closed, and the client's reference on the data centre's connection has not been
released. -/
theorem link_reference_lost :
    ∃ st, run (refStep ⟨1, true⟩) (startRef (sampleTable 0) 0) dcFailsFirst = some st ∧
      (st.w.conns 0).cFailed = true ∧ (st.w.conns 1).cFailed = true ∧
      st.log.count (.take 0 1) = 1 ∧ st.log.count (.release 0 1) = 0 := by decide +kernel

end Mtbolt.Worker
