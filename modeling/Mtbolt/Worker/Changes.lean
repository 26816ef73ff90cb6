import Mtbolt.Worker.State

/-!
# What an event does to one connection

The handlers of the worker go through several connections and several fields.  For an invariant about
single connections it is enough to know, for each event, which records a connection can have
afterwards; `Change` lists them, and `change_handle` is the case analysis of the handlers, made once.
-/

namespace Mtbolt.Worker

open Secrets Function Option Bool

/-- The connection for which an event opens a connection to a backend or to a data centre. -/
def linkedBy (cfg : WorkerConfig) (w : State) : Event → Option ℕ
  | .hello i s cipherOk linked =>
    if linked && (!cipherOk ||
        (rejection cfg.workers w.now (w.tbl.slot s) (w.conns i).addr).isSome) then some i
    else none
  | .header i s dc =>
    if cfg.directMode && dc = .linked && ((w.conns i).isTls || s ≥ maxSlots ||
        (rejection cfg.workers w.now (w.tbl.slot s) (w.conns i).addr).isNone) then some i
    else none
  | .toBackend i linked => if linked then some i else none
  | .alarm i resumed dc =>
    if !resumed && (w.conns i).extra = .null && (w.conns i).extraInt > 0 && dc = .linked then some i
    else none
  | _ => none

/-- The record of a client whose header was accepted for the slot `s`. -/
def Conn.letIn (c : Conn) (s : ℕ) : Conn :=
  if s < maxSlots then { c.handshake s with countedAs := some s } else c.handshake s

section LetIn

variable (c : Conn) (s : ℕ)

theorem Conn.letIn_eq : ∃ k, c.letIn s = { c.handshake s with countedAs := k } := by
  unfold Conn.letIn
  split_ifs
  · exact ⟨some s, rfl⟩
  · exact ⟨c.countedAs, rfl⟩

@[simp] theorem Conn.extra_letIn : (c.letIn s).extra = c.extra := by
  obtain ⟨k, h⟩ := c.letIn_eq s
  rw [h, Conn.handshake]

@[simp] theorem Conn.addr_letIn : (c.letIn s).addr = c.addr := by
  obtain ⟨k, h⟩ := c.letIn_eq s
  rw [h, Conn.handshake]

@[simp] theorem Conn.cFailed_letIn : (c.letIn s).cFailed = c.cFailed := by
  obtain ⟨k, h⟩ := c.letIn_eq s
  rw [h, Conn.handshake]

@[simp] theorem Conn.closeRan_letIn : (c.letIn s).closeRan = c.closeRan := by
  obtain ⟨k, h⟩ := c.letIn_eq s
  rw [h, Conn.handshake]

@[simp] theorem Conn.extraInt_letIn : (c.letIn s).extraInt = c.extraInt := by
  obtain ⟨k, h⟩ := c.letIn_eq s
  rw [h, Conn.handshake]

end LetIn

/-- The client waits for its next attempt to reach the data centre. -/
def Conn.waiting (c : Conn) : Prop := c.extra = .null ∧ 0 < c.extraInt

/-- The records that the connection `j` can have after an event. -/
inductive Change (cfg : WorkerConfig) (w : State) (j : ℕ) : Event → Conn → Prop
  | same {e} (hopen : e ≠ .close j) : Change cfg w j e (w.conns j)
  | failed {e} (hopen : e ≠ .close j) : Change cfg w j e { w.conns j with cError := true }
  | tls {s cipherOk linked} :
    Change cfg w j (.hello j s cipherOk linked) { w.conns j with isTls := true }
  | proxied {e} (hbefore : (w.conns j).beforeHandshake = true)
    (hlink : linkedBy cfg w e = some j) :
    Change cfg w j e
      { w.conns j with
        extraInt2 := 0, type := .proxyPass, crypto := false, extra := .conn w.next }
  | notProxied {e} (hbefore : (w.conns j).beforeHandshake = true) (hopen : e ≠ .close j) :
    Change cfg w j e { w.conns j with extraInt2 := 0, cError := true }
  | rejected {s dc} (hbefore : (w.conns j).beforeHandshake = true) :
    Change cfg w j (.header j s dc) { (w.conns j).handshake s with extraInt2 := 0, cError := true }
  | admitted {s dc} (hbefore : (w.conns j).beforeHandshake = true)
    (hmode : cfg.directMode = false) :
    Change cfg w j (.header j s dc) ((w.conns j).letIn s)
  | unknownDc {s} (hbefore : (w.conns j).beforeHandshake = true) :
    Change cfg w j (.header j s .unknownDc) { (w.conns j).letIn s with cError := true }
  | dialFailed {s} (hbefore : (w.conns j).beforeHandshake = true) :
    Change cfg w j (.header j s .allFailed) { ((w.conns j).letIn s).toDirect with extraInt := 1 }
  | dialled {s} (hbefore : (w.conns j).beforeHandshake = true)
    (hlink : linkedBy cfg w (.header j s .linked) = some j) :
    Change cfg w j (.header j s .linked)
      { ((w.conns j).letIn s).toDirect with extra := .conn w.next }
  | undecipherable (hbefore : (w.conns j).beforeHandshake = true) :
    Change cfg w j (.headerUndecipherable j)
      { w.conns j with handshaken := true, crypto := true, cError := true }
  | queued (hext : (w.conns j).isExt = true) :
    Change cfg w j (.close j) { w.conns j with cFailed := true }
  | closed (hext : (w.conns j).isExt = false) :
    Change cfg w j (.close j) { (w.conns j).closed with extra := .null }
  | detached {i} (hi : i < w.next) (htype : (w.conns i).type = .directDc)
    (hextra : (w.conns i).extra = .conn j) (hcrypto : (w.conns i).crypto = false)
    (hint : (w.conns j).extraInt < directMaxRetries) :
    Change cfg w j (.close i)
      { w.conns j with extra := .null, extraInt := (w.conns j).extraInt + 1 }
  | closeRan (hqueue : j ∈ w.closeQueue.head?) :
    Change cfg w j .notify { w.conns j with closeRan := true }
  | retryUnknown (hwait : (w.conns j).waiting) :
    Change cfg w j (.alarm j false .unknownDc) { w.conns j with extraInt := 0, cError := true }
  | retryFailed (hwait : (w.conns j).waiting) (hint : (w.conns j).extraInt < directMaxRetries) :
    Change cfg w j (.alarm j false .allFailed)
      { w.conns j with extraInt := (w.conns j).extraInt + 1 }
  | retryDialled (hwait : (w.conns j).waiting)
    (hlink : linkedBy cfg w (.alarm j false .linked) = some j) :
    Change cfg w j (.alarm j false .linked) { w.conns j with extraInt := 0, extra := .conn w.next }
  | connected : Change cfg w j (.dcConnected j) { w.conns j with crypto := true }

/-- A connection that refers to another one refers to one that exists, and not to itself. -/
def Apart (w : State) : Prop :=
  ∀ i < w.next, ∀ j, (w.conns i).extra = .conn j → j < w.next ∧ j ≠ i

/-! ### The handlers -/

section Handlers

variable {w : State} {i j : ℕ}

theorem conns_failConnection (w : State) (i j : ℕ) :
    (failConnection w i).conns j = w.conns j ∨
      (failConnection w i).conns j = { w.conns j with cError := true } := by
  by_cases hji : j = i
  · subst hji
    exact .inr (conns_setConn_self ..)
  · exact .inl (conns_setConn_of_ne _ _ hji)

theorem conns_failPeer_of_ne (hj : j ≠ i) :
    (failPeer w i).conns j = w.conns j ∨
      (failPeer w i).conns j = { w.conns j with cError := true } := by
  unfold failPeer
  split
  · exact .inl rfl
  · next e _ =>
    have h := conns_failConnection (setConn w i (w.conns i).unlink) e j
    rwa [conns_setConn_of_ne _ _ hj] at h
  · exact .inl (conns_setConn_of_ne _ _ hj)

theorem conns_failPeer_self (hself : (w.conns i).extra ≠ .conn i) :
    (failPeer w i).conns i = { w.conns i with extra := .null } := by
  unfold failPeer
  split
  · next hnull => rw [← hnull]
  · next e he =>
    have hne : i ≠ e := by
      rintro rfl
      exact hself he
    show (setConn _ e _).conns i = _
    rw [conns_setConn_of_ne _ _ hne, conns_setConn_self]
    rfl
  · exact conns_setConn_self ..

theorem conns_directUncount (w : State) (i : ℕ) : (directUncount w i).conns = w.conns := by
  unfold directUncount
  split_ifs
  · exact conns_uncountConnection w i
  · rfl

theorem conns_detachForRetry (hne : j ≠ i) (hint : (w.conns j).extraInt < directMaxRetries) (k : ℕ) :
    (detachForRetry w i j).conns k =
      if k = j then { w.conns j with extra := .null, extraInt := (w.conns j).extraInt + 1 }
      else if k = i then { w.conns i with extra := .null } else w.conns k := by
  unfold detachForRetry directScheduleRetry
  rw [if_neg (Nat.not_le_of_lt hint)]
  by_cases hkj : k = j
  · subst hkj
    rw [if_pos rfl, conns_setConn_self, conns_setConn_of_ne _ _ hne, conns_setConn_self]
    rfl
  · rw [if_neg hkj, conns_setConn_of_ne _ _ hkj]
    by_cases hki : k = i
    · subst hki
      rw [if_pos rfl, conns_setConn_self]
      rfl
    · rw [if_neg hki, conns_setConn_of_ne _ _ hki, conns_setConn_of_ne _ _ hkj]

theorem tcpDirectClose_cases (w : State) (i : ℕ) :
    tcpDirectClose w i = failPeer (directUncount w i) i ∨
      ∃ j, (w.conns i).extra = .conn j ∧ (w.conns i).type = .directDc ∧
        (w.conns i).crypto = false ∧ (w.conns j).extraInt < directMaxRetries ∧
        tcpDirectClose w i = detachForRetry w i j := by
  unfold tcpDirectClose
  split
  · next j hij =>
    split_ifs with h
    · exact .inr ⟨j, hij, h.1, h.2.1, h.2.2, rfl⟩
    · exact .inl rfl
  · exact .inl rfl

section Close

variable {cfg : WorkerConfig}

theorem close_ne (h : j ≠ i) : Event.close i ≠ .close j := fun heq => h (Event.close.inj heq).symm

theorem change_failPeer {w' : State} (hext : (w.conns i).isExt = false)
    (hself : (w.conns i).extra ≠ .conn i)
    (hconns : w'.conns = (setConn w i (w.conns i).closed).conns) (j : ℕ) :
    Change cfg w j (.close i) ((failPeer w' i).conns j) := by
  by_cases hji : j = i
  · subst hji
    have hrec : w'.conns j = (w.conns j).closed := by rw [hconns, conns_setConn_self]
    have hself' : (w'.conns j).extra ≠ .conn j := by
      rw [hrec]
      exact hself
    rw [conns_failPeer_self hself', hrec]
    exact .closed hext
  · have hrec : w'.conns j = w.conns j := by rw [hconns, conns_setConn_of_ne _ _ hji]
    rcases conns_failPeer_of_ne (w := w') hji with h | h
    · rw [h, hrec]
      exact .same (close_ne hji)
    · rw [h, hrec]
      exact .failed (close_ne hji)

theorem change_tcpDirectClose (hw : Apart w) (hi : i < w.next) (hext : (w.conns i).isExt = false)
    (j : ℕ) :
    Change cfg w j (.close i) ((tcpDirectClose (setConn w i (w.conns i).closed) i).conns j) := by
  have hself : (w.conns i).extra ≠ .conn i := fun h => (hw i hi i h).2 rfl
  rcases tcpDirectClose_cases (setConn w i (w.conns i).closed) i with h
    | ⟨k, hik, htype, hcrypto, hint, h⟩
  · rw [h]
    exact change_failPeer hext hself (conns_directUncount _ i) j
  · rw [conns_setConn_self] at hik htype hcrypto
    have hne : k ≠ i := (hw i hi k hik).2
    rw [conns_setConn_of_ne _ _ hne] at hint
    rw [h, conns_detachForRetry hne (by rwa [conns_setConn_of_ne _ _ hne]), conns_setConn_self,
      conns_setConn_of_ne _ _ hne]
    split_ifs with hjk hji
    · subst hjk
      exact .detached hi htype hik hcrypto hint
    · subst hji
      exact .closed hext
    · rw [conns_setConn_of_ne _ _ hji]
      exact .same (close_ne hji)

theorem change_closeConnection (hw : Apart w) (hi : i < w.next) (j : ℕ) :
    Change cfg w j (.close i) ((closeConnection w i).conns j) := by
  have hqueued (hext : (w.conns i).isExt = true) :
      Change cfg w j (.close i) ((setConn w i { w.conns i with cFailed := true }).conns j) := by
    by_cases hji : j = i
    · subst hji
      rw [conns_setConn_self]
      exact .queued hext
    · rw [conns_setConn_of_ne _ _ hji]
      exact .same (close_ne hji)
  unfold closeConnection
  dsimp only
  split
  · next htype => exact hqueued (by simp [Conn.isExt, htype])
  · next htype => exact hqueued (by simp [Conn.isExt, htype])
  · next htype => exact change_tcpDirectClose hw hi (by simp [Conn.isExt, htype]) j
  · next htype => exact change_tcpDirectClose hw hi (by simp [Conn.isExt, htype]) j
  · next htype => exact change_tcpDirectClose hw hi (by simp [Conn.isExt, htype]) j
  · next htype =>
    exact change_failPeer (by simp [Conn.isExt, htype]) (fun h => (hw i hi i h).2 rfl) rfl j

end Close

variable {cfg : WorkerConfig} {e : Event}

theorem change_setConn {c : Conn} (h : Change cfg w i e c) (j : ℕ) (hopen : e ≠ .close j) :
    Change cfg w j e ((setConn w i c).conns j) := by
  by_cases hji : j = i
  · subst hji
    rwa [conns_setConn_self]
  · rw [conns_setConn_of_ne _ _ hji]
    exact .same hopen

theorem change_link {c d : Conn} (h : Change cfg w i e c) (hj : j < w.next) (hopen : e ≠ .close j) :
    Change cfg w j e ((setConn (newConn w d) i c).conns j) := by
  by_cases hji : j = i
  · subst hji
    rwa [conns_setConn_self]
  · rw [conns_setConn_of_ne _ _ hji, conns_newConn_of_ne _ _ hj.ne]
    exact .same hopen

theorem change_proxyConnection {w' : State} (hconns : w'.conns = w.conns) (hnext : w'.next = w.next)
    (hbefore : (w.conns i).beforeHandshake = true) (linked : Bool)
    (hlink : linked = true → linkedBy cfg w e = some i) (hj : j < w.next) (hopen : e ≠ .close j) :
    Change cfg w j e ((proxyConnection w' i linked).conns j) := by
  unfold proxyConnection
  cases linked with
  | true =>
    show Change cfg w j e (update (update w'.conns w'.next _) i _ j)
    rw [hnext, hconns]
    exact change_link (Change.proxied hbefore (hlink rfl)) hj hopen
  | false =>
    show Change cfg w j e (update w'.conns i _ j)
    rw [hconns]
    by_cases hji : j = i
    · subst hji
      rw [update_self]
      exact .notProxied hbefore hopen
    · rw [update_of_ne hji]
      exact .same hopen

theorem change_acceptHello (hbefore : (w.conns i).beforeHandshake = true) (s : ℕ)
    (cipherOk linked : Bool) (hj : j < w.next) :
    Change cfg w j (.hello i s cipherOk linked) ((acceptHello cfg w i s cipherOk linked).conns j) := by
  unfold acceptHello
  split
  · next r hrej =>
    refine change_proxyConnection (setSlot_conns ..) (setSlot_next ..) hbefore linked
      (fun hlinked => ?_) hj (by simp)
    simp [linkedBy, hlinked, hrej]
  · split_ifs with hcipher
    · exact change_setConn .tls j (by simp)
    · refine change_proxyConnection rfl rfl hbefore linked (fun hlinked => ?_) hj (by simp)
      simp [linkedBy, hlinked, hcipher]

theorem conns_letIn (w : State) (i s : ℕ) :
    (if s < maxSlots then countConnection w i s ((w.conns i).handshake s)
      else setConn w i ((w.conns i).handshake s)).conns =
      update w.conns i ((w.conns i).letIn s) := by
  unfold Conn.letIn
  split_ifs <;> rfl

theorem next_letIn (w : State) (i s : ℕ) :
    (if s < maxSlots then countConnection w i s ((w.conns i).handshake s)
      else setConn w i ((w.conns i).handshake s)).next = w.next := by
  split_ifs <;> rfl

theorem conns_directConnectToDc {w' : State} {c : Conn}
    (hconns : w'.conns = update w.conns i c) (hnext : w'.next = w.next) (dc : DcOutcome)
    (hj : j < w.next) :
    (directConnectToDc w' i dc).conns j =
      if j = i then
        match dc with
        | .unknownDc => { c with cError := true }
        | .allFailed => { c.toDirect with extraInt := 1 }
        | .linked => { c.toDirect with extra := .conn w.next }
      else w.conns j := by
  have hself : w'.conns i = c := by rw [hconns, update_self]
  have hother : j ≠ i → w'.conns j = w.conns j := fun h => by rw [hconns, update_of_ne h]
  cases dc with
  | unknownDc =>
    show (setConn w' i _).conns j = _
    split_ifs with hji
    · subst hji
      rw [conns_setConn_self, hself]
    · rw [conns_setConn_of_ne _ _ hji, hother hji]
  | allFailed =>
    show (setConn _ i { (setConn w' i (w'.conns i).toDirect).conns i with extraInt := 1 }).conns j = _
    split_ifs with hji
    · subst hji
      rw [conns_setConn_self, conns_setConn_self, hself]
    · rw [conns_setConn_of_ne _ _ hji, conns_setConn_of_ne _ _ hji, hother hji]
  | linked =>
    show (setConn (newConn w' _) i { (w'.conns i).toDirect with extra := .conn w'.next }).conns j = _
    split_ifs with hji
    · subst hji
      rw [conns_setConn_self, hself, hnext]
    · rw [conns_setConn_of_ne _ _ hji, conns_newConn_of_ne _ _ (hnext ▸ hj.ne), hother hji]

/-- A client that `acceptHeader` does not turn away: Fake-TLS, without a slot, or not rejected. -/
theorem passed_of_not_rejected {j s : ℕ} (hrej : (if (w.conns j).isTls || s ≥ maxSlots then none
      else rejection cfg.workers w.now (w.tbl.slot s) (w.conns j).addr) = none) :
    ((w.conns j).isTls || s ≥ maxSlots ||
      (rejection cfg.workers w.now (w.tbl.slot s) (w.conns j).addr).isNone) = true := by
  split_ifs at hrej with hskip
  · rw [hskip, Bool.true_or]
  · rw [hrej, isNone_none, Bool.or_true]

theorem change_acceptHeader (hbefore : (w.conns i).beforeHandshake = true) (s : ℕ)
    (dc : DcOutcome) (hj : j < w.next) :
    Change cfg w j (.header i s dc) ((acceptHeader cfg w i s dc).conns j) := by
  unfold acceptHeader
  dsimp only
  split
  · exact change_setConn (.rejected hbefore) j (by simp)
  · next hrej =>
    by_cases hmode : cfg.directMode = true
    · rw [if_pos hmode, conns_directConnectToDc (conns_letIn w i s) (next_letIn w i s) dc hj]
      split_ifs with hji
      · subst hji
        cases dc with
        | unknownDc => exact .unknownDc hbefore
        | allFailed => exact .dialFailed hbefore
        | linked =>
          exact .dialled hbefore (by simp [linkedBy, hmode, passed_of_not_rejected hrej])
      · exact .same (by simp)
    · rw [if_neg hmode, conns_letIn]
      exact change_setConn (.admitted hbefore (eq_false_iff.2 hmode)) j (by simp)

theorem change_directClientAlarm (resumed : Bool) (dc : DcOutcome) (hj : j < w.next) :
    Change cfg w j (.alarm i resumed dc) ((directClientAlarm w i resumed dc).conns j) := by
  unfold directClientAlarm
  split_ifs with hresumed hwait
  · exact .same (by simp)
  · obtain rfl : resumed = false := eq_false_iff.2 hresumed
    cases dc with
    | unknownDc =>
      show Change cfg w j _ ((setConn _ i
        { (setConn w i { w.conns i with extraInt := 0 }).conns i with cError := true }).conns j)
      by_cases hji : j = i
      · subst hji
        rw [conns_setConn_self, conns_setConn_self]
        exact .retryUnknown hwait
      · rw [conns_setConn_of_ne _ _ hji, conns_setConn_of_ne _ _ hji]
        exact .same (by simp)
    | allFailed =>
      show Change cfg w j _ ((directScheduleRetry w i (w.conns i).extraInt).conns j)
      unfold directScheduleRetry
      split_ifs with hint
      · exact change_setConn (.failed (by simp)) j (by simp)
      · exact change_setConn (.retryFailed hwait (Nat.lt_of_not_ge hint)) j (by simp)
    | linked =>
      refine change_link (.retryDialled hwait ?_) hj (by simp)
      simp [linkedBy, hwait]
  · exact .same (by simp)

theorem change_parseExecute (bytes : ℕ) (j : ℕ) :
    Change cfg w j (.parse i bytes) ((parseExecute cfg w i bytes).conns j) := by
  have hfail (w' : State) (hconns : w'.conns = w.conns) :
      Change cfg w j (.parse i bytes) ((failConnection w' i).conns j) := by
    have h := conns_failConnection w' i j
    rw [hconns] at h
    rcases h with h | h
    · rw [h]
      exact .same (by simp)
    · rw [h]
      exact .failed (by simp)
  unfold parseExecute tcpDirectClientParseExecute tcpDirectDcParseExecute tcpProxyPassParseExecute
  dsimp only
  split
  all_goals try split
  all_goals try split_ifs
  all_goals
    first
    | exact .same (by simp)
    | exact hfail _ rfl

end Handlers

/-! ### The events -/

variable {cfg : WorkerConfig} {w w' : State} {e : Event} {j i : ℕ} {c : Conn}

theorem change_handle (hw : Apart w) (h : step cfg w e = some w') (hj : j < w.next) :
    Change cfg w j e (w'.conns j) := by
  obtain ⟨hen, rfl⟩ := step_eq_some h
  cases e with
  | accept addr =>
    show Change cfg w j _ ((newConn w _).conns j)
    rw [conns_newConn_of_ne _ _ hj.ne]
    exact .same (by simp)
  | hello i s cipherOk linked =>
    exact change_acceptHello hen.1.1.1.2 s cipherOk linked hj
  | header i s dc =>
    exact change_acceptHeader hen.1.2 s dc hj
  | headerUndecipherable i =>
    exact change_setConn (.undecipherable hen.2) j (by simp)
  | toBackend i linked =>
    exact change_proxyConnection rfl rfl hen.2 linked (fun hlinked => by simp [linkedBy, hlinked]) hj
      (by simp)
  | fail i => exact change_setConn (.failed (by simp)) j (by simp)
  | close i =>
    exact change_closeConnection hw hen.1.1 j
  | notify =>
    simp only [handle]
    split
    · exact .same (by simp)
    · next i rest hqueue =>
      show Change cfg w j _ ((uncountConnection _ i).conns j)
      rw [conns_uncountConnection]
      exact change_setConn (.closeRan (by rw [hqueue]; exact rfl)) j (by simp)
  | alarm i resumed dc => exact change_directClientAlarm resumed dc hj
  | dcConnected i => exact change_setConn .connected j (by simp)
  | parse i bytes => exact change_parseExecute bytes j
  | reload entries | release s | tick now => exact .same (by simp)

/-- The connection that is opened for `i` refers to it. -/
structure Opened (w w' : State) (i : ℕ) : Prop where
  lt : i < w.next
  next : w'.next = w.next + 1
  extra : (w'.conns w.next).extra = .conn i
  type : (w'.conns w.next).type = .directDc ∨ (w'.conns w.next).type = .proxyPass
  fresh : w'.conns w.next = Conn.new (w'.conns w.next).type (.conn i) ⟨0, 0⟩
  back : (w'.conns i).extra = .conn w.next

/-- The types of a client and of the connection that is opened for it. -/
def Fitting (client new : ConnType) : Prop :=
  (new = .proxyPass ∧ client = .proxyPass) ∨
    (new = .directDc ∧ (client = .directClient ∨ client = .directClientDrs))

theorem fitting_of_isDirectClient (h : c.isDirectClient = true) : Fitting c.type .directDc := by
  simp only [Conn.isDirectClient, or_eq_true, decide_eq_true_eq] at h
  exact .inr ⟨rfl, h⟩

theorem opened_link (hi : i < w.next) {type : ConnType} (hc : c.extra = .conn w.next)
    (htype : Fitting c.type type) :
    Opened w (setConn (newConn w (Conn.new type (.conn i) ⟨0, 0⟩)) i c) i ∧
      Fitting ((setConn (newConn w (Conn.new type (.conn i) ⟨0, 0⟩)) i c).conns i).type
        ((setConn (newConn w (Conn.new type (.conn i) ⟨0, 0⟩)) i c).conns w.next).type := by
  have hnew : (setConn (newConn w (Conn.new type (.conn i) ⟨0, 0⟩)) i c).conns w.next =
      Conn.new type (.conn i) ⟨0, 0⟩ := by
    rw [conns_setConn_of_ne _ _ hi.ne', conns_newConn_self]
  refine ⟨⟨hi, rfl, ?_, ?_, ?_, ?_⟩, ?_⟩
  · rw [hnew]
    rfl
  · rw [hnew]
    exact htype.elim (fun h => .inr h.1) fun h => .inl h.1
  · rw [hnew]
    rfl
  · rw [conns_setConn_self]
    exact hc
  · rw [hnew, conns_setConn_self]
    exact htype

theorem opened_and_fitting (h : step cfg w e = some w') (hlink : linkedBy cfg w e = some i) :
    Opened w w' i ∧ Fitting (w'.conns i).type (w'.conns w.next).type := by
  obtain ⟨hen, rfl⟩ := step_eq_some h
  have hcongr {w₁ w₂ w₃ : State} (h : Opened w₁ w₂ i ∧
    Fitting (w₂.conns i).type (w₂.conns w₁.next).type)
      (hnext : w₁.next = w.next) (hconns : w₃.conns = w₂.conns) (hnext' : w₃.next = w₂.next) :
      Opened w w₃ i ∧ Fitting (w₃.conns i).type (w₃.conns w.next).type := by
    obtain ⟨hlt, hnext₂, hextra, htype, hfresh, hback⟩ := h.1
    rw [← hnext, hconns]
    rw [hnext] at hlt
    exact ⟨⟨hlt, by rw [hnext', hnext₂, hnext], by rwa [← hnext, hconns], by rwa [← hnext, hconns],
      by rwa [← hnext, hconns], by rwa [← hnext, hconns]⟩, h.2⟩
  have hproxy (w₁ : State) (hnext : w₁.next = w.next) (hi : i < w.next) :
      Opened w (proxyConnection w₁ i true) i ∧ Fitting ((proxyConnection w₁ i true).conns i).type
        ((proxyConnection w₁ i true).conns w.next).type :=
    hcongr (opened_link (hnext ▸ hi) rfl (.inl ⟨rfl, rfl⟩)) hnext rfl rfl
  have hdc (w₁ : State) (c : Conn) (hc : c.isDirectClient = true) (hnext : w₁.next = w.next)
      (hi : i < w.next) : Opened w (linkDc w₁ i c) i ∧
        Fitting ((linkDc w₁ i c).conns i).type ((linkDc w₁ i c).conns w.next).type :=
    hcongr (opened_link (c := { c with extra := .conn w₁.next }) (hnext ▸ hi) rfl
      (fitting_of_isDirectClient hc)) hnext rfl rfl
  cases e with
  | hello j s cipherOk linked =>
    simp only [linkedBy] at hlink
    split_ifs at hlink with hcond
    obtain rfl := some.inj hlink
    simp only [and_eq_true, or_eq_true, not_eq_true'] at hcond
    obtain ⟨rfl, hcond⟩ := hcond
    simp only [handle]
    unfold acceptHello
    split
    · exact hproxy _ rfl hen.1.1.1.1
    · next hrej =>
      rw [hrej] at hcond
      rw [if_neg (by simpa using hcond.resolve_right (by simp))]
      exact hproxy _ rfl hen.1.1.1.1
  | header j s dc =>
    simp only [linkedBy] at hlink
    split_ifs at hlink with hcond
    obtain rfl := some.inj hlink
    simp only [and_eq_true, or_eq_true, decide_eq_true_eq, isNone_iff_eq_none] at hcond
    obtain ⟨⟨hmode, rfl⟩, hpassed⟩ := hcond
    simp only [handle, acceptHeader]
    rw [if_pos hmode]
    split
    · next r hrej =>
      -- the client was turned away, and then it is not linked
      split_ifs at hrej with hskip
      simp only [or_eq_true, decide_eq_true_eq] at hskip
      rw [hpassed.resolve_left hskip] at hrej
      cases hrej
    · exact hdc _ _ (isDirectClient_toDirect _) (next_letIn w j s) hen.1.1
  | toBackend j linked =>
    simp only [linkedBy] at hlink
    split_ifs at hlink with hcond
    obtain rfl := some.inj hlink
    subst hcond
    exact hproxy w rfl hen.1
  | alarm j resumed dc =>
    simp only [linkedBy] at hlink
    split_ifs at hlink with hcond
    obtain rfl := some.inj hlink
    simp only [and_eq_true, not_eq_true', decide_eq_true_eq] at hcond
    obtain ⟨⟨⟨rfl, hnull⟩, hint⟩, rfl⟩ := hcond
    simp only [handle, directClientAlarm]
    rw [if_neg (by simp), if_pos ⟨hnull, hint⟩]
    exact hdc w _ hen.1.2 rfl hen.1.1
  | _ => cases hlink

theorem opened_of_linkedBy (h : step cfg w e = some w') (hlink : linkedBy cfg w e = some i) :
    Opened w w' i :=
  (opened_and_fitting h hlink).1

/-- It is opened for a client before its handshake, or for one that waits for a retry. -/
theorem linkedBy_cases (hen : e.Ready w) (hlink : linkedBy cfg w e = some i) :
    (w.conns i).beforeHandshake = true ∨
      ((w.conns i).waiting ∧ (w.conns i).isDirectClient = true ∧ (w.conns i).cError = false) := by
  cases e with
  | hello j s cipherOk linked =>
    simp only [linkedBy] at hlink
    split_ifs at hlink
    obtain rfl := some.inj hlink
    exact .inl hen.1.1.1.2
  | header j s dc =>
    simp only [linkedBy] at hlink
    split_ifs at hlink
    obtain rfl := some.inj hlink
    exact .inl hen.1.2
  | toBackend j linked =>
    simp only [linkedBy] at hlink
    split_ifs at hlink
    obtain rfl := some.inj hlink
    exact .inl hen.2
  | alarm j resumed dc =>
    simp only [linkedBy] at hlink
    split_ifs at hlink with hcond
    obtain rfl := some.inj hlink
    simp only [and_eq_true, decide_eq_true_eq] at hcond
    exact .inr ⟨⟨hcond.1.1.2, hcond.1.2⟩, hen.1.2, hen.2⟩
  | _ => cases hlink

/-! ### The number of connections -/

section Next

variable (w : State) (i : ℕ)

theorem next_directScheduleRetry (attempt : ℕ) : (directScheduleRetry w i attempt).next = w.next := by
  unfold directScheduleRetry
  split_ifs <;> rfl

theorem next_directConnectToDc {dc : DcOutcome} (hdc : dc ≠ .linked) :
    (directConnectToDc w i dc).next = w.next := by
  cases dc with
  | unknownDc => rfl
  | allFailed => exact next_directScheduleRetry _ i 0
  | linked => exact absurd rfl hdc

theorem next_uncountConnection : (uncountConnection w i).next = w.next := by
  unfold uncountConnection
  dsimp only
  split_ifs <;> rfl

theorem next_failPeer : (failPeer w i).next = w.next := by
  unfold failPeer
  split <;> rfl

theorem next_tcpDirectClose : (tcpDirectClose w i).next = w.next := by
  rcases tcpDirectClose_cases w i with h | ⟨j, -, -, -, -, h⟩
  · rw [h, next_failPeer]
    unfold directUncount
    split_ifs
    · exact next_uncountConnection w i
    · rfl
  · rw [h]
    exact next_directScheduleRetry _ j _

theorem next_closeConnection : (closeConnection w i).next = w.next := by
  unfold closeConnection
  dsimp only
  split
  · rfl
  · rfl
  · exact next_tcpDirectClose _ i
  · exact next_tcpDirectClose _ i
  · exact next_tcpDirectClose _ i
  · exact next_failPeer _ i

end Next

theorem next_handle (h : step cfg w e = some w') (hlink : linkedBy cfg w e = none) :
    w'.next = w.next ∨ ∃ addr, e = .accept addr ∧ w'.next = w.next + 1 ∧
      w'.conns w.next = Conn.new .extServer .rpcFuncs addr := by
  obtain ⟨hen, rfl⟩ := step_eq_some h
  cases e with
  | accept addr => exact .inr ⟨addr, rfl, rfl, conns_newConn_self ..⟩
  | hello j s cipherOk linked =>
    left
    simp only [linkedBy] at hlink
    split_ifs at hlink with hcond
    simp only [handle]
    unfold acceptHello proxyConnection
    split
    · next r hrej =>
      cases linked with
      | true => simp [hrej] at hcond
      | false => rfl
    · split_ifs with hcipher hlinked
      · rfl
      · simp [hcipher, hlinked] at hcond
      · rfl
  | header j s dc =>
    left
    simp only [linkedBy] at hlink
    split_ifs at hlink with hcond
    simp only [handle, acceptHeader]
    split
    · rfl
    · next hrej =>
      have hnext := next_letIn w j s
      by_cases hmode : cfg.directMode = true
      · rw [if_pos hmode, ← hnext]
        refine next_directConnectToDc _ j fun hdc => hcond ?_
        simp only [hmode, passed_of_not_rejected hrej, decide_eq_true hdc, Bool.and_self]
      · rw [if_neg hmode, hnext]
  | toBackend j linked =>
    left
    simp only [linkedBy] at hlink
    split_ifs at hlink with hcond
    obtain rfl : linked = false := eq_false_iff.2 hcond
    rfl
  | close i => exact .inl (next_closeConnection w i)
  | notify =>
    left
    simp only [handle]
    split
    · rfl
    · exact next_uncountConnection _ _
  | alarm j resumed dc =>
    left
    simp only [linkedBy] at hlink
    split_ifs at hlink with hcond
    simp only [handle, directClientAlarm]
    split_ifs with hresumed hwait
    · rfl
    · cases dc with
      | unknownDc => rfl
      | allFailed => exact next_directScheduleRetry w j _
      | linked => simp [hresumed, hwait] at hcond
    · rfl
  | parse i bytes =>
    left
    simp only [handle]
    unfold parseExecute tcpDirectClientParseExecute tcpDirectDcParseExecute tcpProxyPassParseExecute
    dsimp only
    split
    all_goals try split
    all_goals try split_ifs
    all_goals rfl
  | _ => exact .inl rfl

theorem next_le_handle (h : step cfg w e = some w') : w.next ≤ w'.next := by
  cases hlink : linkedBy cfg w e with
  | some k => exact (opened_of_linkedBy h hlink).next ▸ Nat.le_succ _
  | none =>
    rcases next_handle h hlink with hnext | ⟨addr, -, hnext, -⟩
    · exact hnext.ge
    · exact hnext ▸ Nat.le_succ _

theorem apart_start (t : SecretTable) (now : ℤ) : Apart (start t now) :=
  fun i hi => absurd hi (Nat.not_lt_zero i)

/-- A new reference of a connection is to the connection opened for it, and only closes take one
away: that of the connection itself, or of the data centre's connection that it refers to. -/
theorem Change.extra_cases (h : Change cfg w j e c) :
    c.extra = (w.conns j).extra ∨
      (∃ i, e = .close i ∧ c.extra = .null ∧ ((i = j ∧ (w.conns j).isExt = false) ∨
        ((w.conns i).extra = .conn j ∧ (w.conns i).type = .directDc ∧
          (w.conns i).crypto = false ∧ (w.conns j).extraInt < directMaxRetries))) ∨
      (c.extra = .conn w.next ∧ linkedBy cfg w e = some j) := by
  cases h with
  | proxied _ hlink | dialled _ hlink | retryDialled _ hlink => exact .inr (.inr ⟨rfl, hlink⟩)
  | closed hext => exact .inr (.inl ⟨j, rfl, rfl, .inl ⟨rfl, hext⟩⟩)
  | @detached i _ htype hextra hcrypto hint =>
    exact .inr (.inl ⟨i, rfl, rfl, .inr ⟨hextra, htype, hcrypto, hint⟩⟩)
  | admitted _ _ | unknownDc _ | dialFailed _ => exact .inl (Conn.extra_letIn ..)
  | _ => exact .inl rfl

theorem Conn.isExt_of_before (h : c.beforeHandshake = true) : c.isExt = true := by
  simp only [Conn.beforeHandshake, and_eq_true, decide_eq_true_eq] at h
  simp [Conn.isExt, h.1.1]

/-- The address of a connection does not change, its type changes away from the accepting server's
only, and it is closed by its own close event. -/
theorem Change.frame (hw : Apart w) (h : Change cfg w j e c) :
    c.addr = (w.conns j).addr ∧ (c.isExt = true → (w.conns j).isExt = true) ∧
      (e ≠ .close j → c.cFailed = (w.conns j).cFailed) ∧ (e = .close j → c.cFailed = true) := by
  have hbefore {d : Conn} (hd : d.addr = (w.conns j).addr ∧ d.cFailed = (w.conns j).cFailed)
      (h : (w.conns j).beforeHandshake = true) (hopen : e ≠ .close j) :
      d.addr = (w.conns j).addr ∧ (d.isExt = true → (w.conns j).isExt = true) ∧
        (e ≠ .close j → d.cFailed = (w.conns j).cFailed) ∧ (e = .close j → d.cFailed = true) :=
    ⟨hd.1, fun _ => Conn.isExt_of_before h, fun _ => hd.2, fun he => absurd he hopen⟩
  have hletIn (s : ℕ) := And.intro ((w.conns j).addr_letIn s) ((w.conns j).cFailed_letIn s)
  cases h with
  | same hopen => exact ⟨rfl, id, fun _ => rfl, fun he => absurd he hopen⟩
  | failed hopen => exact ⟨rfl, id, fun _ => rfl, fun he => absurd he hopen⟩
  | tls => exact ⟨rfl, id, fun _ => rfl, fun he => by cases he⟩
  | proxied h hlink => exact hbefore ⟨rfl, rfl⟩ h fun he => by simp [he, linkedBy] at hlink
  | notProxied h hopen => exact hbefore ⟨rfl, rfl⟩ h hopen
  | rejected h => exact hbefore ⟨rfl, rfl⟩ h (by simp)
  | admitted h | unknownDc h | dialFailed h | dialled h => exact hbefore (hletIn _) h (by simp)
  | undecipherable h => exact hbefore ⟨rfl, rfl⟩ h (by simp)
  | queued hext => exact ⟨rfl, fun _ => hext, fun he => absurd rfl he, fun _ => rfl⟩
  | closed hext => exact ⟨rfl, id, fun he => absurd rfl he, fun _ => rfl⟩
  | @detached i hi _ hextra =>
    have hne : i ≠ j := (hw i hi j hextra).2.symm
    exact ⟨rfl, id, fun _ => rfl, fun he => absurd (Event.close.inj he) hne⟩
  | closeRan | retryUnknown | retryFailed | retryDialled | connected =>
    exact ⟨rfl, id, fun _ => rfl, fun he => by cases he⟩

theorem Change.type_eq (h : Change cfg w j e c) (hext : (w.conns j).isExt = false) :
    c.type = (w.conns j).type := by
  have hnot (hbefore : (w.conns j).beforeHandshake = true) : False := by
    rw [Conn.isExt_of_before hbefore] at hext
    cases hext
  cases h with
  | proxied hbefore | rejected hbefore | admitted hbefore | unknownDc hbefore | dialFailed hbefore
  | dialled hbefore => exact (hnot hbefore).elim
  | _ => rfl

theorem Change.cError (h : Change cfg w j e c) (herr : (w.conns j).cError = true) :
    c.cError = true := by
  have hletIn (s : ℕ) : ((w.conns j).letIn s).cError = true := by
    obtain ⟨k, h⟩ := (w.conns j).letIn_eq s
    rw [h]
    exact herr
  cases h with
  | failed => rfl
  | notProxied => rfl
  | rejected => rfl
  | admitted => exact hletIn _
  | unknownDc => rfl
  | dialFailed => exact hletIn _
  | dialled => exact hletIn _
  | undecipherable => rfl
  | retryUnknown => rfl
  | _ => exact herr

/-- A connection that closes, and is not of the accepting server's type, lets go of the other side. -/
theorem extra_closed (hw : Apart w) (h : step cfg w (.close i) = some w')
    (hext : (w.conns i).isExt = false) : (w'.conns i).extra = .null := by
  have hi : i < w.next := by
    have hen := (step_eq_some h).1
    exact hen.1.1
  have hchange := change_handle hw h hi
  generalize w'.conns i = c at hchange ⊢
  cases hchange with
  | same hopen => exact absurd rfl hopen
  | failed hopen => exact absurd rfl hopen
  | proxied _ hlink => cases hlink
  | notProxied _ hopen => exact absurd rfl hopen
  | queued hext' =>
    rw [hext] at hext'
    cases hext'
  | closed _ => rfl
  | detached _ _ _ _ _ => rfl

/-- The other side of a connection that closes fails, or it is a client that loses its reference. -/
theorem peer_closed (hw : Apart w) (h : step cfg w (.close i) = some w')
    (hext : (w.conns i).isExt = false) (hij : (w.conns i).extra = .conn j) :
    (w'.conns j).cError = true ∨ (w'.conns j).extra = .null := by
  obtain ⟨hen, rfl⟩ := step_eq_some h
  have hne : j ≠ i := (hw i hen.1.1 j hij).2
  have hpeer {w₁ : State} (hextra : (w₁.conns i).extra = .conn j) :
      ((failPeer w₁ i).conns j).cError = true := by
    rw [failPeer, hextra]
    exact congrArg Conn.cError (conns_setConn_self ..)
  have hself : ((setConn w i (w.conns i).closed).conns i).extra = .conn j := by
    rw [conns_setConn_self]
    exact hij
  have hdirect : ((tcpDirectClose (setConn w i (w.conns i).closed) i).conns j).cError = true ∨
      ((tcpDirectClose (setConn w i (w.conns i).closed) i).conns j).extra = .null := by
    rcases tcpDirectClose_cases (setConn w i (w.conns i).closed) i with h | ⟨k, hik, -, -, hint, h⟩
    · rw [h]
      exact .inl (hpeer (by rwa [conns_directUncount]))
    · obtain rfl := Extra.conn.inj (hself.symm.trans hik)
      rw [h, conns_detachForRetry hne hint, if_pos rfl]
      exact .inr rfl
  simp only [handle]
  unfold closeConnection
  dsimp only
  split
  · next htype => simp [Conn.isExt, htype] at hext
  · next htype => simp [Conn.isExt, htype] at hext
  · exact hdirect
  · exact hdirect
  · exact hdirect
  · exact .inl (hpeer hself)

/-- **The rule for the connections after an event**: those from before, and the one that was opened or
accepted. -/
theorem forall_handle {P : ℕ → Prop} (h : step cfg w e = some w') (hold : ∀ i < w.next, P i)
    (hopened : ∀ k, linkedBy cfg w e = some k → Opened w w' k → P w.next)
    (haccepted : ∀ addr, e = .accept addr → w'.conns w.next = Conn.new .extServer .rpcFuncs addr →
      P w.next) :
    ∀ i < w'.next, P i := by
  have hlast (hnext : w'.next = w.next + 1) (hlast : P w.next) : ∀ i < w'.next, P i := by
    intro i hi
    rcases Nat.lt_succ_iff_lt_or_eq.1 (hnext ▸ hi) with hi | rfl
    · exact hold i hi
    · exact hlast
  cases hlink : linkedBy cfg w e with
  | some k =>
    have hopen := opened_of_linkedBy h hlink
    exact hlast hopen.next (hopened k hlink hopen)
  | none =>
    rcases next_handle h hlink with hnext | ⟨addr, he, hnext, hnew⟩
    · exact hnext ▸ hold
    · exact hlast hnext (haccepted addr he hnew)

theorem apart_handle (hw : Apart w) (h : step cfg w e = some w') : Apart w' := by
  have hle := next_le_handle h
  refine forall_handle h (fun i hi j hij => ?_) (fun k _ hopen j hij => ?_) fun addr _ hnew j hij => ?_
  · rcases (change_handle hw h hi).extra_cases with hx | ⟨-, -, hx, -⟩ | ⟨hx, hlink⟩
    · obtain ⟨hlt, hne⟩ := hw i hi j (hx ▸ hij)
      exact ⟨hlt.trans_le hle, hne⟩
    · rw [hx] at hij
      cases hij
    · have hnext := (opened_of_linkedBy h hlink).next
      rw [hx] at hij
      obtain rfl := Extra.conn.inj hij
      exact ⟨hnext ▸ Nat.lt_succ_self _, hi.ne'⟩
  · rw [hopen.extra] at hij
    obtain rfl := Extra.conn.inj hij
    exact ⟨hopen.lt.trans_le hle, hopen.lt.ne⟩
  · rw [hnew] at hij
    cases hij

/-! ### Slots -/

/-- What an event other than a reload or a release does to a slot. -/
inductive SlotChange (x : Slot) : Slot → Prop
  | same : SlotChange x x
  | rejected (r : Rejection) : SlotChange x (x.reject r)
  | counted (addr : Addr) : SlotChange x (x.connect addr)
  | uncounted (addr : Addr) : SlotChange x (x.disconnect addr)
  | received (n : ℕ) : SlotChange x { x with bytesReceived := x.bytesReceived + n }
  | receivedOver (n : ℕ) :
    SlotChange x ({ x with bytesReceived := x.bytesReceived + n }.reject .quota)
  | sent (n : ℕ) : SlotChange x { x with bytesSent := x.bytesSent + n }
  | sentOver (n : ℕ) : SlotChange x ({ x with bytesSent := x.bytesSent + n }.reject .quota)

section Slots

variable {w w' : State} (s : ℕ)

theorem slotChange_of_tbl (h : w'.tbl = w.tbl) : SlotChange (w.tbl.slot s) (w'.tbl.slot s) := by
  rw [h]
  exact .same

theorem slotChange_setSlot {s' : ℕ} {x : Slot} (h : SlotChange (w.tbl.slot s') x)
    (htbl : w'.tbl = (setSlot w s' x).tbl) : SlotChange (w.tbl.slot s) (w'.tbl.slot s) := by
  rw [htbl]
  by_cases hs : s = s'
  · subst hs
    rwa [slot_setSlot_self]
  · rw [slot_setSlot_of_ne _ _ hs]
    exact .same

theorem tbl_directScheduleRetry (w : State) (i attempt : ℕ) :
    (directScheduleRetry w i attempt).tbl = w.tbl := by
  unfold directScheduleRetry
  split_ifs <;> rfl

theorem tbl_proxyConnection (w : State) (i : ℕ) (linked : Bool) :
    (proxyConnection w i linked).tbl = w.tbl := by
  cases linked <;> rfl

theorem tbl_directConnectToDc (w : State) (i : ℕ) (dc : DcOutcome) :
    (directConnectToDc w i dc).tbl = w.tbl := by
  cases dc with
  | unknownDc => rfl
  | allFailed => exact tbl_directScheduleRetry _ i 0
  | linked => rfl

theorem tbl_failPeer (w : State) (i : ℕ) : (failPeer w i).tbl = w.tbl := by
  unfold failPeer
  split <;> rfl

theorem slotChange_uncountConnection (w : State) (i : ℕ) :
    SlotChange (w.tbl.slot s) ((uncountConnection w i).tbl.slot s) := by
  unfold uncountConnection
  dsimp only
  split_ifs
  · exact slotChange_setSlot s (.uncounted _) rfl
  · exact .same

theorem slotChange_closeConnection (w : State) (i : ℕ) :
    SlotChange (w.tbl.slot s) ((closeConnection w i).tbl.slot s) := by
  have hclose (w₁ : State) (htbl : w₁.tbl = w.tbl) :
      SlotChange (w.tbl.slot s) ((tcpDirectClose w₁ i).tbl.slot s) := by
    rcases tcpDirectClose_cases w₁ i with h | ⟨j, -, -, -, -, h⟩
    · rw [h, tbl_failPeer, ← htbl]
      unfold directUncount
      split_ifs
      · exact slotChange_uncountConnection s w₁ i
      · exact .same
    · rw [h]
      exact slotChange_of_tbl s ((tbl_directScheduleRetry _ j _).trans htbl)
  unfold closeConnection
  dsimp only
  split
  · exact .same
  · exact .same
  · exact hclose _ rfl
  · exact hclose _ rfl
  · exact hclose _ rfl
  · exact slotChange_of_tbl s (tbl_failPeer _ i)

theorem slotChange_acceptHello (cfg : WorkerConfig) (w : State) (i s' : ℕ)
    (cipherOk linked : Bool) :
    SlotChange (w.tbl.slot s) ((acceptHello cfg w i s' cipherOk linked).tbl.slot s) := by
  unfold acceptHello
  split
  · exact slotChange_setSlot s (.rejected _) (tbl_proxyConnection _ i linked)
  · split_ifs
    · exact .same
    · exact slotChange_of_tbl s (tbl_proxyConnection w i linked)

theorem slotChange_acceptHeader (cfg : WorkerConfig) (w : State) (i s' : ℕ) (dc : DcOutcome) :
    SlotChange (w.tbl.slot s) ((acceptHeader cfg w i s' dc).tbl.slot s) := by
  unfold acceptHeader
  dsimp only
  split
  · exact slotChange_setSlot s (.rejected _) rfl
  · have hcounted : SlotChange (w.tbl.slot s)
        ((if s' < maxSlots then countConnection w i s' ((w.conns i).handshake s')
          else setConn w i ((w.conns i).handshake s')).tbl.slot s) := by
      split_ifs
      · exact slotChange_setSlot s (.counted _) rfl
      · exact .same
    by_cases hmode : cfg.directMode = true
    · rw [if_pos hmode, tbl_directConnectToDc]
      exact hcounted
    · rw [if_neg hmode]
      exact hcounted

theorem slotChange_directClientAlarm (w : State) (i : ℕ) (resumed : Bool) (dc : DcOutcome) :
    SlotChange (w.tbl.slot s) ((directClientAlarm w i resumed dc).tbl.slot s) := by
  unfold directClientAlarm
  split_ifs
  · exact .same
  · cases dc with
    | unknownDc => exact .same
    | allFailed => exact slotChange_of_tbl s (tbl_directScheduleRetry w i _)
    | linked => exact .same
  · exact .same

theorem slotChange_parseExecute (cfg : WorkerConfig) (w : State) (i bytes : ℕ) :
    SlotChange (w.tbl.slot s) ((parseExecute cfg w i bytes).tbl.slot s) := by
  unfold parseExecute tcpDirectClientParseExecute tcpDirectDcParseExecute tcpProxyPassParseExecute
  dsimp only
  split
  all_goals try split
  all_goals try split_ifs
  all_goals
    first
    | exact .same
    | exact slotChange_setSlot s (.receivedOver bytes) rfl
    | exact slotChange_setSlot s (.received bytes) rfl
    | exact slotChange_setSlot s (.sentOver bytes) rfl
    | exact slotChange_setSlot s (.sent bytes) rfl

end Slots

theorem slot_handle (h : step cfg w e = some w') :
    (∀ s, SlotChange (w.tbl.slot s) (w'.tbl.slot s)) ∨
      (∃ entries, e = .reload entries ∧ w'.tbl = (reloadExtSecrets w.tbl entries).2) ∨
      ∃ s, e = .release s ∧ w'.tbl = releaseSlotIfEmpty w.tbl s := by
  obtain ⟨-, rfl⟩ := step_eq_some h
  cases e with
  | hello i s' cipherOk linked =>
    exact .inl fun s => slotChange_acceptHello s cfg w i s' cipherOk linked
  | header i s' dc => exact .inl fun s => slotChange_acceptHeader s cfg w i s' dc
  | toBackend i linked => exact .inl fun s => slotChange_of_tbl s (tbl_proxyConnection w i linked)
  | close i => exact .inl fun s => slotChange_closeConnection s w i
  | notify =>
    simp only [handle]
    split
    · exact .inl fun _ => .same
    · next i rest _ =>
      exact .inl fun s => slotChange_uncountConnection s
        (setConn { w with closeQueue := rest } i { w.conns i with closeRan := true }) i
  | alarm i resumed dc => exact .inl fun s => slotChange_directClientAlarm s w i resumed dc
  | parse i bytes => exact .inl fun s => slotChange_parseExecute s cfg w i bytes
  | reload entries => exact .inr (.inl ⟨entries, rfl, rfl⟩)
  | release s => exact .inr (.inr ⟨s, rfl, rfl⟩)
  | _ => exact .inl fun _ => .same

end Mtbolt.Worker
