import Mtbolt.Lib.Tally
import Mtbolt.Worker.State

/-!
# Connection counters per secret

`per_secret_connections` is incremented where the obfuscated2 header is accepted and decremented
in one of two close handlers; the one of direct mode does so only while
`direct_dc_connections_active` is positive.  The invariant `Accounted` ties the counters of the
slots, that global counter and the queue of close notifications to the connections that exist.  A
weaker form of it, in which the counters may be too high, survives more.
-/

namespace Mtbolt.Worker

open EventRun Secrets Tally Function Bool List

/-! ### The invariant -/

/-- A connection that was counted under the slot `s` and whose close handler has not run. -/
def Conn.countsFor (s : ℕ) (c : Conn) : Bool := c.countedAs = some s && !c.closeRan

def countWeight (s : ℕ) (c : Conn) : ℤ := if c.countsFor s then 1 else 0

theorem countWeight_nonneg (s : ℕ) (c : Conn) : 0 ≤ countWeight s c := by
  unfold countWeight
  split_ifs <;> decide

/-- A direct client that is still open. -/
def openWeight (c : Conn) : ℤ := if c.isDirectClient && !c.cFailed then 1 else 0

theorem openWeight_nonneg (c : Conn) : 0 ≤ openWeight c := by
  unfold openWeight
  split_ifs <;> decide

theorem openWeight_le_one (c : Conn) : openWeight c ≤ 1 := by
  unfold openWeight
  split_ifs <;> decide

/-- The fields that the accounting reads. -/
structure Conn.Ok (c : Conn) : Prop where
  counted : ∀ s, c.countedAs = some s → s < maxSlots ∧ c.extraInt2 = s + 1 ∧
    c.handshaken = true ∧ (c.isExt = true ∨ c.isDirectClient = true)
  uncounted : c.countedAs = none → c.extraInt2 = 0
  closed : c.closeRan = true → c.cFailed = true
  direct : c.isDirectClient = true → c.cFailed = true → c.closeRan = true

/-- The connection waits for the engine thread to run its close notification. -/
def Conn.closing (c : Conn) : Bool := c.isExt && c.cFailed && !c.closeRan

structure Accounted (w : State) : Prop where
  table : w.tbl.Good
  count : ∀ s, (w.tbl.slot s).connections = tally (countWeight s) w.next w.conns
  active : tally openWeight w.next w.conns ≤ w.active
  conn : ∀ i < w.next, (w.conns i).Ok
  nodup : w.closeQueue.Nodup
  queue : ∀ i, i ∈ w.closeQueue ↔ i < w.next ∧ (w.conns i).closing = true

/-- A counter `n` of `m` things: right if it is `exact`, and otherwise not too low. -/
def Balance (exact : Bool) (m n : ℤ) : Prop := if exact then n = m else m ≤ n

variable {m n : ℤ} {w : State} {t : SecretTable} {c c' : Conn} {i s : ℕ} {cfg : WorkerConfig}
  {e : Event}

variable {exact : Bool} {queue : List ℕ} {w' : State}

theorem Balance.le (h : Balance exact m n) : m ≤ n := by
  cases exact with
  | true => exact (show n = m from h).ge
  | false => exact h

theorem balance_of_eq (h : n = m) : Balance exact m n := by
  cases exact with
  | true => exact h
  | false => exact h.ge

theorem Balance.add (h : Balance exact m n) (d : ℤ) : Balance exact (m + d) (n + d) := by
  cases exact with
  | true => exact congrArg (· + d) (show n = m from h)
  | false => exact add_le_add_left (show m ≤ n from h) d

theorem Balance.trans {k : ℤ} (h : Balance exact m n) (h' : Balance exact n k) :
    Balance exact m k := by
  cases exact with
  | true => exact (show k = n from h').trans (show n = m from h)
  | false => exact le_trans (show m ≤ n from h) h'

/-- The accounts of a worker.  In the exact form the counters are right; in the weak form they may
be too high, and nothing is said about `direct_dc_connections_active`. -/
structure Ledger (exact : Bool) (w : State) : Prop where
  table : w.tbl.Good
  count : ∀ s, Balance exact (tally (countWeight s) w.next w.conns) (w.tbl.slot s).connections
  active : exact = true → tally openWeight w.next w.conns ≤ w.active
  conn : ∀ i < w.next, (w.conns i).Ok
  nodup : w.closeQueue.Nodup
  queue : ∀ i, i ∈ w.closeQueue ↔ i < w.next ∧ (w.conns i).closing = true

theorem ledger_true_iff : Ledger true w ↔ Accounted w :=
  ⟨fun h => { h with active := h.active rfl }, fun h => { h with active := fun _ => h.active }⟩

variable {exact : Bool}

theorem ledger_start {cli : List SecretEntry} (h : pinExtSecrets cli = some t) (now : ℤ) :
    Ledger exact (start t now) where
  table := (pinExtSecrets_spec h).1
  count := by
    intro s
    show Balance exact _ (t.slot s).connections
    rw [(pinExtSecrets_spec h).2 s]
    exact balance_of_eq rfl
  active := fun _ => le_refl _
  conn := fun i hi => absurd hi (Nat.not_lt_zero i)
  nodup := nodup_nil
  queue := by simp [start]

/-! ### Changes that the accounting does not see -/

/-- `c'` agrees with `c` in the fields that the accounting reads. -/
structure Conn.SameAccount (c c' : Conn) : Prop where
  type : c'.type = c.type
  countedAs : c'.countedAs = c.countedAs
  closeRan : c'.closeRan = c.closeRan
  cFailed : c'.cFailed = c.cFailed
  extraInt2 : c'.extraInt2 = c.extraInt2
  handshaken : c'.handshaken = c.handshaken

theorem Conn.SameAccount.ok (h : c.SameAccount c') (hc : c.Ok) : c'.Ok where
  counted := by
    rw [h.countedAs, h.extraInt2, h.handshaken, Conn.isExt, Conn.isDirectClient, h.type]
    exact hc.counted
  uncounted := by rw [h.countedAs, h.extraInt2]; exact hc.uncounted
  closed := by rw [h.closeRan, h.cFailed]; exact hc.closed
  direct := by
    rw [h.closeRan, h.cFailed, Conn.isDirectClient, h.type]
    exact hc.direct

theorem Conn.SameAccount.countWeight (h : c.SameAccount c') (s : ℕ) :
    countWeight s c' = Worker.countWeight s c := by
  rw [Worker.countWeight, Worker.countWeight, Conn.countsFor, Conn.countsFor, h.countedAs,
    h.closeRan]

theorem Conn.SameAccount.openWeight (h : c.SameAccount c') :
    openWeight c' = Worker.openWeight c := by
  rw [Worker.openWeight, Worker.openWeight, Conn.isDirectClient, Conn.isDirectClient, h.type,
    h.cFailed]

theorem Conn.SameAccount.closing (h : c.SameAccount c') : c'.closing = c.closing := by
  rw [Conn.closing, Conn.closing, Conn.isExt, Conn.isExt, h.type, h.cFailed, h.closeRan]

section

variable (hw : Ledger exact w)
include hw

theorem ledger_setConn (h : (w.conns i).SameAccount c) : Ledger exact (setConn w i c) where
  table := hw.table
  count := by
    intro s
    rw [setConn, tally_update_of_eq (h.countWeight s)]
    exact hw.count s
  active := fun hex => (tally_update_of_eq h.openWeight).trans_le (hw.active hex)
  conn := by
    intro j hj
    by_cases hji : j = i
    · subst hji
      rw [conns_setConn_self]
      exact h.ok (hw.conn j hj)
    · rw [conns_setConn_of_ne _ _ hji]
      exact hw.conn j hj
  nodup := hw.nodup
  queue := by
    intro j
    rw [setConn_closeQueue, setConn_next, hw.queue j]
    by_cases hji : j = i
    · subst hji
      rw [conns_setConn_self, h.closing]
    · rw [conns_setConn_of_ne _ _ hji]

theorem ledger_failConnection (i : ℕ) : Ledger exact (failConnection w i) :=
  ledger_setConn hw (by constructor <;> rfl)

theorem ledger_directScheduleRetry (i attempt : ℕ) :
    Ledger exact (directScheduleRetry w i attempt) := by
  unfold directScheduleRetry
  split_ifs
  · exact ledger_failConnection hw i
  · exact ledger_setConn hw (by constructor <;> rfl)

theorem ledger_setSlot {x : Slot} (hconn : x.connections = (w.tbl.slot s).connections)
    (hstate : x.state = (w.tbl.slot s).state) : Ledger exact (setSlot w s x) where
  table := good_setSlot hw.table hstate fun hfree => by
    rw [hconn]
    exact hw.table.free s (hstate ▸ hfree)
  count := by
    intro s'
    rw [setSlot]
    by_cases h : s' = s
    · subst h
      simpa [hconn] using hw.count s'
    · simpa [update_of_ne h] using hw.count s'
  active := hw.active
  conn := hw.conn
  nodup := hw.nodup
  queue := hw.queue

theorem ledger_newConn (type : ConnType) (extra : Extra) (addr : Addr)
    (htype : (Conn.new type extra addr).isDirectClient = false) :
    Ledger exact (newConn w (Conn.new type extra addr)) where
  table := hw.table
  count := by
    intro s
    have hzero : countWeight s (Conn.new type extra addr) = 0 := rfl
    rw [newConn, tally_succ_update, hzero, add_zero]
    exact hw.count s
  active := by
    intro hex
    rw [newConn, tally_succ_update, openWeight, htype]
    simpa using hw.active hex
  conn := by
    intro i hi
    by_cases h : i = w.next
    · subst h
      rw [conns_newConn_self]
      exact ⟨nofun, fun _ => rfl, nofun, nofun⟩
    · rw [conns_newConn_of_ne _ _ h]
      rw [newConn_next] at hi
      exact hw.conn i (by omega)
  nodup := hw.nodup
  queue := by
    intro i
    by_cases h : i = w.next
    · subst h
      simp [newConn, hw.queue, Conn.closing, Conn.new]
    · simp only [newConn, hw.queue, update_of_ne h]
      constructor
      · exact fun ⟨hi, hc⟩ => ⟨by omega, hc⟩
      · exact fun ⟨hi, hc⟩ => ⟨by omega, hc⟩

/-- **The accounting rule.** Connection `i` becomes `c`, and the counters and the queue change
with it. -/
theorem Ledger.change (hi : i < w.next) {active : ℤ} (ht : t.Good)
    (hcount : ∀ s, Balance exact ((w.tbl.slot s).connections + (countWeight s c - countWeight s
      (w.conns i))) (t.slot s).connections)
    (hactive : exact = true → w.active + (openWeight c - openWeight (w.conns i)) ≤ active)
    (hok : c.Ok) (hnd : queue.Nodup)
    (hqueue : ∀ j, j ∈ queue ↔ if j = i then c.closing = true else j ∈ w.closeQueue) :
    Ledger exact { w with
      tbl := t, conns := update w.conns i c, active := active, closeQueue := queue } where
  table := ht
  count := by
    intro s
    rw [tally_update hi]
    exact ((hw.count s).add _).trans (hcount s)
  active := by
    intro hex
    rw [tally_update hi]
    have := hw.active hex
    linarith [hactive hex]
  conn := by
    intro j hj
    dsimp only at hj ⊢
    by_cases h : j = i
    · subst h
      rw [update_self]
      exact hok
    · rw [update_of_ne h]
      exact hw.conn j hj
  nodup := hnd
  queue := by
    intro j
    rw [hqueue j]
    by_cases h : j = i
    · subst h
      simp [hi]
    · simp [h, hw.queue j]

theorem ledger_setConn_of_weights (hi : i < w.next)
    (hcount : ∀ s, countWeight s c = countWeight s (w.conns i))
    (hopen : exact = true → openWeight c ≤ openWeight (w.conns i)) (hok : c.Ok)
    (hclosing : c.closing = (w.conns i).closing) : Ledger exact (setConn w i c) := by
  refine hw.change hi hw.table (fun s => ?_) (fun hex => ?_) hok hw.nodup fun j => ?_
  · rw [hcount s, sub_self, add_zero]
    exact balance_of_eq rfl
  · linarith [hopen hex]
  · split_ifs with h
    · subst h
      rw [hw.queue, hclosing, and_iff_right hi]
    · rfl

/-! ### The handlers -/

theorem ledger_confused : Ledger exact { w with confused := true } := { hw with }

theorem ledger_failPeer (i : ℕ) : Ledger exact (failPeer w i) := by
  have hnull : Ledger exact (setConn w i (w.conns i).unlink) :=
    ledger_setConn hw (by constructor <;> rfl)
  unfold failPeer
  split
  · exact hw
  · exact ledger_failConnection hnull _
  · exact ledger_confused hnull

end

theorem Conn.Ok.beforeHandshake (hc : c.Ok) (h : c.beforeHandshake = true) :
    c.type = .extServer ∧ c.handshaken = false ∧ c.cFailed = false ∧ c.countedAs = none ∧
      c.closeRan = false := by
  simp only [Conn.beforeHandshake, and_eq_true, not_eq_true', decide_eq_true_eq] at h
  obtain ⟨⟨htype, hhs⟩, hfailed⟩ := h
  refine ⟨htype, hhs, hfailed, ?_, ?_⟩
  · cases hcount : c.countedAs with
    | none => rfl
    | some s => simp [(hc.counted s hcount).2.2.1] at hhs
  · cases hrun : c.closeRan with
    | false => rfl
    | true => simp [hc.closed hrun] at hfailed

theorem countWeight_of_uncounted (h : c.countedAs = none) (s : ℕ) : countWeight s c = 0 := by
  simp [countWeight, Conn.countsFor, h]

section

variable (hw : Ledger exact w) (hi : i < w.next)
include hw hi

theorem ledger_setConn_uncounted
    (hcount : (w.conns i).countedAs = none) (hfailed : (w.conns i).cFailed = false)
    (hcount' : c.countedAs = none) (hfailed' : c.cFailed = false) (hrun' : c.closeRan = false)
    (hint' : c.extraInt2 = 0) (hdirect' : c.isDirectClient = false) :
    Ledger exact (setConn w i c) := by
  refine ledger_setConn_of_weights hw hi (fun s => ?_) (fun _ => ?_)
    ⟨by simp [hcount'], fun _ => hint', by simp [hrun'], by simp [hdirect']⟩ ?_
  · rw [countWeight_of_uncounted hcount, countWeight_of_uncounted hcount']
  · refine le_trans ?_ (openWeight_nonneg _)
    simp [openWeight, hdirect']
  · simp [Conn.closing, hfailed, hfailed']

theorem ledger_proxyConnection
    (hc : (w.conns i).beforeHandshake = true) (linked : Bool) :
    Ledger exact (proxyConnection w i linked) := by
  obtain ⟨htype, -, hfailed, hcount, hrun⟩ := (hw.conn i hi).beforeHandshake hc
  unfold proxyConnection
  split_ifs
  · have hnew := ledger_newConn hw .proxyPass (.conn i) ⟨0, 0⟩ rfl
    have hsame : (newConn w (Conn.new .proxyPass (.conn i) ⟨0, 0⟩)).conns i = w.conns i :=
      conns_newConn_of_ne _ _ (by omega)
    exact ledger_setConn_uncounted hnew (Nat.lt_succ_of_lt hi) (hsame ▸ hcount)
      (hsame ▸ hfailed) hcount hfailed hrun rfl rfl
  · exact ledger_setConn_uncounted hw hi hcount hfailed hcount hfailed hrun rfl
      (by simp [Conn.isDirectClient, htype])

theorem ledger_acceptHello
    (hc : (w.conns i).beforeHandshake = true) (s : ℕ) (cipherOk linked : Bool) :
    Ledger exact (acceptHello cfg w i s cipherOk linked) := by
  unfold acceptHello
  split
  · refine ledger_proxyConnection (ledger_setSlot hw ?_ ?_) hi hc linked <;> rfl
  · split_ifs
    · exact ledger_setConn hw (by constructor <;> rfl)
    · exact ledger_proxyConnection hw hi hc linked

/-- The link to a data centre: the new connection is no client, and the counter of active
connections grows by as much as the client may have added to the open direct clients. -/
theorem ledger_linkDc
    (hcount : ∀ s, countWeight s c = countWeight s (w.conns i))
    (hopen : openWeight c ≤ openWeight (w.conns i) + 1) (hok : c.Ok)
    (hclosing : c.closing = (w.conns i).closing) : Ledger exact (linkDc w i c) := by
  have hnew := ledger_newConn hw .directDc (.conn i) ⟨0, 0⟩ rfl
  have hsame : (newConn w (Conn.new .directDc (.conn i) ⟨0, 0⟩)).conns i = w.conns i :=
    conns_newConn_of_ne _ _ (by omega)
  refine hnew.change (c := { c with extra := .conn w.next }) (Nat.lt_succ_of_lt hi) hnew.table
    (fun s => ?_) (fun _ => ?_) { hok with } hnew.nodup
    fun j => ?_
  · show Balance exact (_ + (countWeight s c - _)) _
    rw [hsame, hcount s, sub_self, add_zero]
    exact balance_of_eq rfl
  · show w.active + (openWeight c - _) ≤ w.active + 1
    rw [hsame]
    linarith
  · split_ifs with h
    · subst h
      show j ∈ (newConn w (Conn.new .directDc (.conn j) ⟨0, 0⟩)).closeQueue ↔ c.closing = true
      rw [hnew.queue, hsame, newConn_next, and_iff_right (Nat.lt_succ_of_lt hi), ← hclosing]
    · rfl

end

theorem Conn.Ok.toDirect (hok : c.Ok) (hfailed : c.cFailed = false) : c.toDirect.Ok := by
  refine ⟨fun s hs => ?_, hok.uncounted, hok.closed, ?_⟩
  · obtain ⟨hlt, hint, hhs, -⟩ := hok.counted s hs
    exact ⟨hlt, hint, hhs, .inr (isDirectClient_toDirect _)⟩
  · simp [Conn.toDirect, hfailed]

theorem Conn.closing_toDirect (hfailed : c.cFailed = false) : c.toDirect.closing = c.closing := by
  simp [Conn.closing, Conn.toDirect, hfailed]

section

variable (hw : Ledger exact w)
include hw

theorem ledger_linkDc_toDirect (hi : i < w.next) (hfailed : (w.conns i).cFailed = false) :
    Ledger exact (linkDc w i (w.conns i).toDirect) := by
  refine ledger_linkDc hw hi (fun _ => rfl) ?_ ((hw.conn i hi).toDirect hfailed)
    (Conn.closing_toDirect hfailed)
  linarith [openWeight_le_one (w.conns i).toDirect, openWeight_nonneg (w.conns i)]

/-- An open connection becomes a direct client without a link: `direct_dc_connections_active` does
not see it. -/
theorem ledger_toDirect (hi : i < w.next) (hfailed : (w.conns i).cFailed = false)
    (hexact : ¬ exact = true) : Ledger exact (setConn w i (w.conns i).toDirect) :=
  ledger_setConn_of_weights hw hi (fun _ => rfl) (fun hex => absurd hex hexact)
    ((hw.conn i hi).toDirect hfailed) (Conn.closing_toDirect hfailed)

theorem ledger_countConnection (hi : i < w.next) (hc : (w.conns i).beforeHandshake = true)
    (hs : s < maxSlots) (hused : (w.tbl.slot s).state ≠ .free) :
    Ledger exact (countConnection w i s ((w.conns i).handshake s)) := by
  obtain ⟨htype, -, hfailed, hcount, hrun⟩ := (hw.conn i hi).beforeHandshake hc
  refine hw.change hi (good_setSlot hw.table (by simp) (by simp [hused])) (fun s' => ?_)
    (fun _ => ?_) ?_ hw.nodup fun j => ?_
  · refine balance_of_eq ?_
    rw [countWeight_of_uncounted hcount]
    by_cases h : s' = s
    · subst h
      simp [countWeight, Conn.countsFor, Conn.handshake, hrun]
    · have hne : some s ≠ some s' := fun heq => h (Option.some.inj heq).symm
      simp [countWeight, Conn.countsFor, slot_setSlot_of_ne _ _ h, hne]
  · have hext : openWeight { (w.conns i).handshake s with countedAs := some s } = 0 := by
      simp only [openWeight, Conn.isDirectClient, Conn.handshake]
      split_ifs <;> simp_all
    have := openWeight_nonneg (w.conns i)
    show w.active + (_ - _) ≤ w.active
    linarith
  · refine ⟨?_, fun h => absurd h (by simp), by simp [Conn.handshake, hrun],
      by simp [Conn.handshake, hfailed]⟩
    rintro s' ⟨⟩
    refine ⟨hs, rfl, rfl, .inl ?_⟩
    simp only [Conn.isExt, Conn.handshake]
    split_ifs <;> simp [htype]
  · split_ifs with h
    · subst h
      show j ∈ w.closeQueue ↔ _
      rw [hw.queue]
      simp [Conn.closing, Conn.handshake, hfailed]
    · rfl

theorem ledger_acceptHeader (hi : i < w.next) (hc : (w.conns i).beforeHandshake = true)
    (hs : s < maxSlots) (hused : (w.tbl.slot s).state ≠ .free) {dc : DcOutcome}
    (hdc : exact = true → cfg.directMode = true → dc ≠ .allFailed) :
    Ledger exact (acceptHeader cfg w i s dc) := by
  obtain ⟨htype, -, hfailed, hcount, hrun⟩ := (hw.conn i hi).beforeHandshake hc
  unfold acceptHeader
  dsimp only
  split
  · refine ledger_setConn_uncounted (ledger_setSlot hw ?_ ?_) hi hcount hfailed hcount
      hfailed hrun rfl ?_
    · rfl
    · rfl
    · simp only [Conn.isDirectClient, Conn.handshake]
      split_ifs <;> simp [htype]
  · have hcounted := ledger_countConnection hw hi hc hs hused
    split_ifs with hdirect
    · cases dc with
      | unknownDc => exact ledger_failConnection hcounted i
      | allFailed =>
        refine ledger_directScheduleRetry (ledger_toDirect hcounted hi ?_ fun hex => ?_) i 0
        · simpa [countConnection, Conn.handshake] using hfailed
        · exact hdc hex hdirect rfl
      | linked =>
        refine ledger_linkDc_toDirect hcounted hi ?_
        simpa [countConnection, Conn.handshake] using hfailed
    · exact hcounted

/-! ### Closing -/

theorem Ledger.slot_used (hi : i < w.next) (hcount : (w.conns i).countedAs = some s)
    (hrun : (w.conns i).closeRan = false) : (w.tbl.slot s).state ≠ .free := by
  intro hfree
  have hle := (le_tally (countWeight_nonneg s) w.conns hi).trans (hw.count s).le
  rw [hw.table.free s hfree] at hle
  simp [countWeight, Conn.countsFor, hcount, hrun] at hle

theorem ledger_uncount (hi : i < w.next) (hsame : c.countedAs = (w.conns i).countedAs)
    (hrun : (w.conns i).closeRan = false) (hrun' : c.closeRan = true) (hok : c.Ok) (active : ℤ)
    (hactive : exact = true → w.active + (openWeight c - openWeight (w.conns i)) ≤ active)
    (hnd : queue.Nodup)
    (hqueue : ∀ j, j ∈ queue ↔ if j = i then c.closing = true else j ∈ w.closeQueue) :
    Ledger exact { uncountConnection (setConn w i c) i with
      active := active, closeQueue := queue } := by
  have hzero (s : ℕ) : countWeight s c = 0 := by simp [countWeight, Conn.countsFor, hrun']
  unfold uncountConnection
  rw [conns_setConn_self]
  cases hcount : (w.conns i).countedAs with
  | none =>
    have hint0 : c.extraInt2 = 0 := hok.uncounted (hsame.trans hcount)
    rw [if_neg (by omega)]
    refine hw.change hi hw.table (fun s => balance_of_eq ?_) hactive hok hnd hqueue
    rw [hzero s, countWeight_of_uncounted hcount, sub_self, add_zero, setConn_tbl]
  | some s =>
    obtain ⟨hlt, hs, -, -⟩ := hok.counted s (hsame.trans hcount)
    have hused := hw.slot_used hi hcount hrun
    rw [if_pos (by omega), hs, Nat.add_sub_cancel]
    refine hw.change hi (good_setSlot hw.table (by simp) (by simp [hused]))
      (fun s' => balance_of_eq ?_) hactive hok hnd hqueue
    rw [hzero s']
    by_cases h : s' = s
    · subst h
      simp [countWeight, Conn.countsFor, hcount, hrun]
      ring
    · have hne : some s ≠ some s' := fun heq => h (Option.some.inj heq).symm
      simp [countWeight, Conn.countsFor, hcount, slot_setSlot_of_ne _ _ h, hne]

theorem ledger_detachForRetry (i j : ℕ) : Ledger exact (detachForRetry w i j) := by
  refine ledger_directScheduleRetry (ledger_setConn (ledger_setConn hw ?_) ?_) _ _
  · constructor <;> rfl
  · by_cases hij : i = j
    · subst hij
      rw [conns_setConn_self]
      constructor <;> rfl
    · rw [conns_setConn_of_ne _ _ hij]
      constructor <;> rfl

end

theorem Conn.Ok.closed_ok (hc : c.Ok) : c.closed.Ok :=
  ⟨hc.counted, hc.uncounted, fun _ => rfl, fun _ _ => rfl⟩

section

variable (hw : Ledger exact w) (hi : i < w.next)
include hw hi

theorem ledger_setConn_closed
    (hext : (w.conns i).isExt = false) (hdirect : (w.conns i).isDirectClient = false) :
    Ledger exact (setConn w i (w.conns i).closed) := by
  have hok := hw.conn i hi
  have hcount : (w.conns i).countedAs = none := by
    cases hcount : (w.conns i).countedAs with
    | none => rfl
    | some s => simpa [hext, hdirect] using (hok.counted s hcount).2.2.2
  have hcount' : (w.conns i).closed.countedAs = none := hcount
  refine ledger_setConn_of_weights hw hi (fun s => ?_) (fun _ => ?_) hok.closed_ok ?_
  · rw [countWeight_of_uncounted hcount, countWeight_of_uncounted hcount']
  · refine le_trans (le_of_eq ?_) (openWeight_nonneg _)
    simp [openWeight, Conn.closed]
  · simp [Conn.closing, Conn.closed, hext]

theorem Ledger.closeRan_eq_false
    (hfailed : (w.conns i).cFailed = false) : (w.conns i).closeRan = false := by
  cases hrun : (w.conns i).closeRan with
  | false => rfl
  | true => simpa [hfailed] using (hw.conn i hi).closed hrun

/-- The record of a connection is closed and its slot keeps the count: the counter is too high. -/
theorem ledger_setConn_forgotten
    (hext : (w.conns i).isExt = false) (hexact : ¬ exact = true) :
    Ledger exact (setConn w i (w.conns i).closed) := by
  obtain rfl : exact = false := eq_false_iff.2 hexact
  refine hw.change hi hw.table (fun s => ?_) (fun hex => by cases hex) (hw.conn i hi).closed_ok
    hw.nodup fun j => ?_
  · show _ ≤ (w.tbl.slot s).connections
    have hzero : countWeight s (w.conns i).closed = 0 := by
      simp [countWeight, Conn.countsFor, Conn.closed]
    linarith [countWeight_nonneg s (w.conns i)]
  · split_ifs with h
    · subst h
      rw [hw.queue]
      simp [Conn.closing, Conn.closed, hext]
    · rfl

/-- The close of a direct client.  It is open, so in the exact form the counter of active
connections is positive and the handler takes the client off its slot. -/
theorem ledger_close_directClient
    (hdirect : (w.conns i).isDirectClient = true) (hfailed : (w.conns i).cFailed = false) :
    Ledger exact (directUncount (setConn w i (w.conns i).closed) i) := by
  have hext : (w.conns i).isExt = false := Conn.isExt_eq_false hdirect
  have hopen : openWeight (w.conns i) = 1 := by simp [openWeight, hdirect, hfailed]
  have hopen' : openWeight (w.conns i).closed = 0 := by simp [openWeight, Conn.closed]
  unfold directUncount
  rw [conns_setConn_self]
  by_cases hpos : 0 < w.active
  swap
  · rw [if_neg fun h => hpos h.2]
    refine ledger_setConn_forgotten hw hi hext fun hex => hpos ?_
    have hle := le_tally openWeight_nonneg w.conns hi
    linarith [hw.active hex]
  have hstep := ledger_uncount hw hi (c := (w.conns i).closed) rfl
    (hw.closeRan_eq_false hi hfailed) rfl (hw.conn i hi).closed_ok (w.active - 1)
    (fun _ => by linarith) hw.nodup fun j => by
      split_ifs with h
      · subst h
        rw [hw.queue]
        simp [Conn.closing, Conn.closed, hext]
      · rfl
  rw [if_pos ⟨hdirect, hpos⟩]
  have hq := closeQueue_uncountConnection (setConn w i (w.conns i).closed) i
  rw [setConn_closeQueue] at hq
  rw [← hq] at hstep
  exact hstep

end

theorem directUncount_of_directDc (h : (w.conns i).type = .directDc) : directUncount w i = w := by
  unfold directUncount
  simp [Conn.isDirectClient, h]

section

variable (hw : Ledger exact w)
include hw

theorem ledger_tcpDirectClose (hi : i < w.next) (hfailed : (w.conns i).cFailed = false)
    (h : (w.conns i).isDirectClient = true ∨ (w.conns i).type = .directDc) :
    Ledger exact (tcpDirectClose (setConn w i (w.conns i).closed) i) := by
  have huncount : Ledger exact (directUncount (setConn w i (w.conns i).closed) i) := by
    rcases h with h | h
    · exact ledger_close_directClient hw hi h hfailed
    · rw [directUncount_of_directDc (by rw [conns_setConn_self]; exact h)]
      exact ledger_setConn_closed hw hi (by simp [Conn.isExt, h]) (by simp [Conn.isDirectClient, h])
  unfold tcpDirectClose
  rw [conns_setConn_self]
  split
  · next j _ =>
    split_ifs with hretry
    · have htype : (w.conns i).type = .directDc := hretry.1
      exact ledger_detachForRetry (ledger_setConn_closed hw hi
        (by simp [Conn.isExt, htype]) (by simp [Conn.isDirectClient, htype])) i j
    · exact ledger_failPeer huncount i
  · exact ledger_failPeer huncount i

theorem ledger_close_ext (hi : i < w.next) (hext : (w.conns i).isExt = true)
    (hfailed : (w.conns i).cFailed = false) :
    Ledger exact { setConn w i { w.conns i with cFailed := true } with
      closeQueue := w.closeQueue ++ [i] } := by
  have hok := hw.conn i hi
  have hrun := hw.closeRan_eq_false hi hfailed
  have hdirect : (w.conns i).isDirectClient = false := by
    simp only [Conn.isDirectClient, Conn.isExt, or_eq_true, decide_eq_true_eq] at hext ⊢
    rcases hext with h | h <;> simp [h]
  have hnot : i ∉ w.closeQueue := by
    rw [hw.queue]
    simp [Conn.closing, hfailed]
  refine hw.change hi hw.table (fun s => balance_of_eq ?_) (fun _ => ?_)
    ⟨hok.counted, hok.uncounted, fun _ => rfl, fun h => absurd h ?_⟩ ?_ fun j => ?_
  · show _ = _ + (countWeight s (w.conns i) - countWeight s (w.conns i))
    rw [sub_self, add_zero, setConn_tbl]
  · show w.active + (_ - _) ≤ w.active
    have hopen : openWeight { w.conns i with cFailed := true } = 0 := by simp [openWeight]
    linarith [openWeight_nonneg (w.conns i)]
  · simpa [Conn.isDirectClient] using hdirect
  · exact nodup_append.2 ⟨hw.nodup, nodup_singleton i, fun a ha b hb hab =>
      hnot ((mem_singleton.1 hb) ▸ hab ▸ ha)⟩
  · split_ifs with h
    · subst h
      have hclosing : { w.conns j with cFailed := true }.closing = true := by
        simpa [Conn.closing, hrun, Conn.isExt] using hext
      simp [hclosing]
    · simp [h]

theorem ledger_closeConnection (hi : i < w.next) (hfailed : (w.conns i).cFailed = false) :
    Ledger exact (closeConnection w i) := by
  unfold closeConnection
  dsimp only
  split
  · next htype => exact ledger_close_ext hw hi (by simp [Conn.isExt, htype]) hfailed
  · next htype => exact ledger_close_ext hw hi (by simp [Conn.isExt, htype]) hfailed
  · next htype =>
    exact ledger_tcpDirectClose hw hi hfailed (.inl (by simp [Conn.isDirectClient, htype]))
  · next htype =>
    exact ledger_tcpDirectClose hw hi hfailed (.inl (by simp [Conn.isDirectClient, htype]))
  · next htype => exact ledger_tcpDirectClose hw hi hfailed (.inr htype)
  · next htype =>
    exact ledger_failPeer (ledger_setConn_closed hw hi (by simp [Conn.isExt, htype])
      (by simp [Conn.isDirectClient, htype])) i

theorem ledger_notify {rest : List ℕ} (hqueue : w.closeQueue = i :: rest) :
    Ledger exact (mtprotoExtRpcClose { w with closeQueue := rest } i) := by
  have hmem : i ∈ w.closeQueue := hqueue ▸ mem_cons_self
  obtain ⟨hi, hclosing⟩ := (hw.queue i).1 hmem
  simp only [Conn.closing, and_eq_true, not_eq_true'] at hclosing
  obtain ⟨⟨hext, hfailed⟩, hrun⟩ := hclosing
  have hok := hw.conn i hi
  have hnd := hw.nodup
  rw [hqueue, nodup_cons] at hnd
  have hstep := ledger_uncount hw hi (c := { w.conns i with closeRan := true }) rfl hrun rfl
    ⟨hok.counted, hok.uncounted, fun _ => hfailed, fun _ _ => rfl⟩ w.active
    (fun _ => by
      show w.active + (openWeight (w.conns i) - openWeight (w.conns i)) ≤ w.active
      linarith)
    hnd.2 fun j => by
      split_ifs with h
      · subst h
        simp [Conn.closing, hnd.1]
      · simp [hqueue, h]
  convert hstep using 1
  unfold mtprotoExtRpcClose uncountConnection
  simp only [conns_setConn_self]
  split_ifs <;> rfl

/-! ### Data and alarms -/

theorem ledger_directRetryDcConnection (hi : i < w.next) (dc : DcOutcome) :
    Ledger exact (directRetryDcConnection w i dc) := by
  have hok := hw.conn i hi
  cases dc with
  | unknownDc =>
    refine ledger_failConnection (ledger_setConn hw ?_) i
    constructor <;> rfl
  | allFailed => exact ledger_directScheduleRetry hw i _
  | linked =>
    refine ledger_linkDc hw hi (fun _ => rfl) ?_ { hok with } rfl
    show openWeight (w.conns i) ≤ _
    linarith

theorem ledger_directClientAlarm (hi : i < w.next) (resumed : Bool) (dc : DcOutcome) :
    Ledger exact (directClientAlarm w i resumed dc) := by
  unfold directClientAlarm
  split_ifs
  · exact hw
  · exact ledger_directRetryDcConnection hw hi dc
  · exact hw

theorem ledger_tcpDirectClientParseExecute (i bytes : ℕ) :
    Ledger exact (tcpDirectClientParseExecute cfg w i bytes) := by
  unfold tcpDirectClientParseExecute
  split
  · split_ifs
    · exact hw
    · exact ledger_failConnection hw i
  · exact ledger_confused hw
  · dsimp only
    split_ifs
    · exact hw
    · refine ledger_failConnection (ledger_setSlot hw ?_ ?_) i <;> rfl
    · refine ledger_setSlot hw ?_ ?_ <;> rfl
    · exact hw

theorem ledger_tcpDirectDcParseExecute (i bytes : ℕ) :
    Ledger exact (tcpDirectDcParseExecute cfg w i bytes) := by
  unfold tcpDirectDcParseExecute
  split
  · exact ledger_failConnection hw i
  · exact ledger_confused hw
  · dsimp only
    split_ifs
    · refine ledger_failConnection (ledger_setSlot hw ?_ ?_) i <;> rfl
    · refine ledger_setSlot hw ?_ ?_ <;> rfl
    · exact hw

theorem ledger_parseExecute (i bytes : ℕ) : Ledger exact (parseExecute cfg w i bytes) := by
  unfold parseExecute
  split
  · exact hw
  · exact hw
  · exact ledger_tcpDirectClientParseExecute hw i bytes
  · exact ledger_tcpDirectClientParseExecute hw i bytes
  · exact ledger_tcpDirectDcParseExecute hw i bytes
  · unfold tcpProxyPassParseExecute
    split
    · exact ledger_failConnection hw i
    · exact ledger_confused hw
    · exact hw

theorem ledger_table (ht : t.Good) (h : ∀ s, (t.slot s).connections = (w.tbl.slot s).connections) :
    Ledger exact { w with tbl := t } :=
  { hw with table := ht, count := fun s => (hw.count s).trans (balance_of_eq (h s)) }

end

/-! ### Runs -/

/-- A client's first connection to its data centre does not fail at once on every address, and no
client is let in while no slot is in use. -/
def SoundAdmission (cfg : WorkerConfig) (w : State) : Event → Prop
  | .header _ _ dc => (cfg.directMode = true → dc ≠ .allFailed) ∧ SlotInUse w.tbl
  | _ => True

/-- No client is let in while no slot is in use. -/
def SecretAdmission (w : State) : Event → Prop
  | .header _ _ _ => SlotInUse w.tbl
  | _ => True

/-- **Every event keeps the accounts**, if it is a sound admission, and in their weak form already if
it lets no client in while no slot is in use. -/
theorem ledger_handle (hw : Ledger exact w) (hsecret : SecretAdmission w e)
    (hok : exact = true → SoundAdmission cfg w e) (h : step cfg w e = some w') :
    Ledger exact w' := by
  obtain ⟨hen, rfl⟩ := step_eq_some h
  cases e with
  | accept addr => exact ledger_newConn hw .extServer .rpcFuncs addr rfl
  | hello i s cipherOk linked =>
    exact ledger_acceptHello hw hen.1.1.1.1 hen.1.1.1.2 s cipherOk linked
  | header i s dc =>
    obtain ⟨hlt, hused⟩ := answerable_in_use hen.2 hsecret
    exact ledger_acceptHeader hw hen.1.1 hen.1.2 (hlt.trans_le hw.table.cnt) hused
      fun hex => (hok hex).1
  | headerUndecipherable i =>
    obtain ⟨htype, -, hfailed, hcount, hrun⟩ := (hw.conn i hen.1).beforeHandshake hen.2
    exact ledger_setConn_uncounted hw hen.1 hcount hfailed hcount hfailed hrun
      ((hw.conn i hen.1).uncounted hcount) (by simp [Conn.isDirectClient, htype])
  | toBackend i linked =>
    exact ledger_proxyConnection hw hen.1 hen.2 linked
  | fail i => exact ledger_failConnection hw i
  | close i =>
    exact ledger_closeConnection hw hen.1.1 hen.2
  | notify =>
    simp only [handle]
    split
    · exact hw
    · next i rest hq => exact ledger_notify hw hq
  | alarm i resumed dc =>
    exact ledger_directClientAlarm hw hen.1.1 resumed dc
  | dcConnected i =>
    refine ledger_setConn hw ?_
    constructor <;> rfl
  | parse i bytes => exact ledger_parseExecute hw i bytes
  | reload entries =>
    exact ledger_table hw (good_reload hw.table entries) (connections_reload hw.table entries)
  | release s => exact ledger_table hw (good_release hw.table s) (connections_release w.tbl s)
  | tick now => exact { hw with }

theorem SoundAdmission.secret (h : SoundAdmission cfg w e) : SecretAdmission w e := by
  cases e with
  | header i s dc => exact h.2
  | _ => trivial

theorem accounted_handle (hw : Accounted w) (hok : SoundAdmission cfg w e)
    (h : step cfg w e = some w') : Accounted w' :=
  ledger_true_iff.1 (ledger_handle (ledger_true_iff.2 hw) hok.secret (fun _ => hok) h)

instance (cfg : WorkerConfig) (w : State) (e : Event) : Decidable (SoundAdmission cfg w e) := by
  induction e using Event.casesOn <;> dsimp only [SoundAdmission] <;> infer_instance

/-- The connections counted under `s` whose close handler has not run. -/
def openCounted (w : State) (s : ℕ) : Finset ℕ :=
  (Finset.range w.next).filter fun i => (w.conns i).countsFor s = true

/-- **The counter of a slot is the number of its open connections**, in every state of every run
whose admissions are sound. -/
theorem per_secret_connections_eq_card (cfg : WorkerConfig) (cli : List SecretEntry)
    {t : SecretTable} (hcli : pinExtSecrets cli = some t) (now : ℤ) (es : List Event) {w : State}
    (hok : Along (step cfg) (SoundAdmission cfg) (start t now) es)
    (hrun : run (step cfg) (start t now) es = some w) (s : ℕ) :
    (w.tbl.slot s).connections = (openCounted w s).card := by
  have hw : Accounted w :=
    run_invariant (fun _ _ _ hw hok h => accounted_handle hw hok h)
      (ledger_true_iff.1 (ledger_start hcli now)) hok hrun
  rw [hw.count s]
  simp [tally, countWeight, openCounted, Finset.sum_boole]

/-- A client comes, is admitted with the given outcome of its first connection to the data centre,
and goes. -/
def comeAndGo (dc : DcOutcome) : List Event :=
  [.accept ⟨1, 0⟩, .header 0 0 dc, .fail 0, .close 0]

theorem per_secret_connections_eq_card_comeAndGo :
    pinExtSecrets [sampleSecret 0] = some (sampleTable 0) ∧
      ∃ w, run (step ⟨1, true⟩) (start (sampleTable 0) 0) (comeAndGo .linked) = some w ∧
        (w.tbl.slot 0).connections = (openCounted w 0).card :=
  ⟨rfl, _, rfl, per_secret_connections_eq_card ⟨1, true⟩ [sampleSecret 0] rfl 0
    (comeAndGo .linked) (by decide) rfl 0⟩

/-- After an immediate failure on every address the close handler leaves the client counted. -/
theorem per_secret_connections_leak :
    pinExtSecrets [sampleSecret 0] = some (sampleTable 0) ∧
      ∃ w, run (step ⟨1, true⟩) (start (sampleTable 0) 0) (comeAndGo .allFailed) = some w ∧
        (w.tbl.slot 0).connections = 1 ∧ openCounted w 0 = ∅ :=
  ⟨rfl, _, rfl, by decide, by decide⟩

end Mtbolt.Worker
