import Mtbolt.Worker.Changes

/-!
# Connections that change hands

An accepted connection keeps the function table it was accepted with in `c->extra` until the parser
hands it over to the camouflage backend or to a data centre, which replaces its type as well.  Here
is what each event of the worker does in this respect.
-/

namespace Mtbolt.Worker

open Secrets Bool

/-- What `c->extra` can be, by the type of the connection. -/
structure Tabled (w : State) : Prop where
  ext : ∀ i < w.next, (w.conns i).isExt = true → (w.conns i).extra = .rpcFuncs
  partner : ∀ i < w.next, ∀ j, (w.conns i).extra = .conn j → j < w.next ∧ (w.conns j).isExt = false

theorem tabled_start (t : SecretTable) (now : ℤ) : Tabled (start t now) where
  ext := fun i hi => absurd hi (Nat.not_lt_zero i)
  partner := fun i hi => absurd hi (Nat.not_lt_zero i)

theorem Tabled.congr {w w' : State} (hw : Tabled w) (hnext : w'.next = w.next)
    (h : ∀ i, (w'.conns i).isExt = (w.conns i).isExt ∧ (w'.conns i).extra = (w.conns i).extra) :
    Tabled w' := by
  constructor
  · intro i hi hext
    rw [(h i).2]
    exact hw.ext i (hnext ▸ hi) ((h i).1 ▸ hext)
  · intro i hi j hij
    rw [hnext, (h j).1]
    exact hw.partner i (hnext ▸ hi) j ((h i).2 ▸ hij)

/-! ### The events -/

/-- The connection whose type an event replaces: a client that is turned away or passed on while the
backend can be reached, or that goes to its data centre. -/
def switched (cfg : WorkerConfig) (w : State) : Event → Option ℕ
  | .hello i s cipherOk linked =>
    if linked && (!cipherOk ||
        (rejection cfg.workers w.now (w.tbl.slot s) (w.conns i).addr).isSome) then some i
    else none
  | .header i s dc =>
    if cfg.directMode && dc ≠ .unknownDc && ((w.conns i).isTls || s ≥ maxSlots ||
        (rejection cfg.workers w.now (w.tbl.slot s) (w.conns i).addr).isNone) then some i
    else none
  | .toBackend i linked => if linked then some i else none
  | _ => none

/-- The close notifications that an event queues. -/
def announced (w : State) : Event → List ℕ
  | .close i => if (w.conns i).isExt then [i] else []
  | _ => []

section Events

variable {cfg : WorkerConfig} {w w' : State} {e : Event} {i j : ℕ} {c : Conn}

/-! ### Types -/

theorem Conn.isExt_handshake (h : c.beforeHandshake = true) (s : ℕ) : (c.handshake s).isExt = true := by
  simp only [Conn.beforeHandshake, and_eq_true, decide_eq_true_eq] at h
  simp only [Conn.isExt, Conn.handshake, h.1.1]
  split_ifs <;> rfl

theorem Conn.isExt_letIn (h : c.beforeHandshake = true) (s : ℕ) : (c.letIn s).isExt = true := by
  obtain ⟨k, hk⟩ := c.letIn_eq s
  rw [hk]
  exact Conn.isExt_handshake h s

/-- A client becomes a direct one by its header only when it is handed over. -/
theorem switched_of_isDirectClient (hi : i < w.next) (hbefore : (w.conns i).beforeHandshake = true)
    {s : ℕ} {dc : DcOutcome} (h : ((acceptHeader cfg w i s dc).conns i).isDirectClient = true) :
    switched cfg w (.header i s dc) = some i := by
  have hnot {d : Conn} (hd : d.isExt = true) (h : d.isDirectClient = true) : False := by
    rw [Conn.isExt_eq_false h] at hd
    cases hd
  unfold acceptHeader at h
  dsimp only at h
  split at h
  · rw [conns_setConn_self] at h
    exact (hnot (Conn.isExt_handshake hbefore s) h).elim
  · next hrej =>
    by_cases hmode : cfg.directMode = true
    · rw [if_pos hmode, conns_directConnectToDc (conns_letIn w i s) (next_letIn w i s) dc hi,
        if_pos rfl] at h
      have hdc : dc ≠ .unknownDc := by
        rintro rfl
        exact hnot (Conn.isExt_letIn hbefore s) h
      -- The client was not turned away.
      have hpassed : ((w.conns i).isTls || s ≥ maxSlots ||
          (rejection cfg.workers w.now (w.tbl.slot s) (w.conns i).addr).isNone) = true := by
        split_ifs at hrej with hskip
        · rw [hskip, Bool.true_or]
        · rw [hrej, Option.isNone_none, Bool.or_true]
      simp only [switched, hmode, hpassed, decide_eq_true hdc, Bool.and_self, if_true]
    · rw [if_neg hmode, conns_letIn, Function.update_self] at h
      exact (hnot (Conn.isExt_letIn hbefore s) h).elim

/-- A client for which a connection is opened is handed over, unless it waits for a retry. -/
theorem switched_of_linkedBy (h : linkedBy cfg w e = some j) (hextra : (w.conns j).extra ≠ .null) :
    switched cfg w e = some j := by
  cases e with
  | hello i s cipherOk linked => exact h
  | header i s dc =>
    simp only [linkedBy] at h
    split_ifs at h with hcond
    obtain rfl := Option.some.inj h
    simp only [and_eq_true, decide_eq_true_eq] at hcond
    obtain ⟨⟨hmode, rfl⟩, hpassed⟩ := hcond
    simp only [switched, hmode, hpassed]
    rfl
  | toBackend i linked => exact h
  | alarm i resumed dc =>
    simp only [linkedBy] at h
    split_ifs at h with hcond
    obtain rfl := Option.some.inj h
    simp only [and_eq_true, decide_eq_true_eq] at hcond
    exact absurd hcond.1.1.2 hextra
  | _ => cases h

section

variable (hw : Tabled w) (hapart : Apart w) (h : step cfg w e = some w')
include hw hapart h

theorem isExt_handle
    (hj : j < w.next) (ho : switched cfg w e ≠ some j) :
    (w'.conns j).isExt = (w.conns j).isExt := by
  have hext (hbefore : (w.conns j).beforeHandshake = true) := Conn.isExt_of_before hbefore
  have hlinked (hbefore : (w.conns j).beforeHandshake = true) (hlink : linkedBy cfg w e = some j) :
      switched cfg w e = some j :=
    switched_of_linkedBy hlink fun hnull => by
      rw [hw.ext j hj (hext hbefore)] at hnull
      cases hnull
  have hchange := change_handle hapart h hj
  generalize hc : w'.conns j = c at hchange ⊢
  cases hchange with
  | proxied hbefore hlink => exact absurd (hlinked hbefore hlink) ho
  | dialled hbefore hlink => exact absurd (hlinked hbefore hlink) ho
  | @rejected s _ hbefore => exact (Conn.isExt_handshake hbefore s).trans (hext hbefore).symm
  | @admitted s _ hbefore => exact (Conn.isExt_letIn hbefore s).trans (hext hbefore).symm
  | @unknownDc s hbefore => exact (Conn.isExt_letIn hbefore s).trans (hext hbefore).symm
  | @dialFailed s hbefore =>
    refine absurd (switched_of_isDirectClient hj hbefore ?_) ho
    obtain ⟨-, rfl⟩ := step_eq_some h
    exact (congrArg Conn.isDirectClient hc).trans (isDirectClient_toDirect _)
  | _ => rfl

theorem isExt_linked
    (hj : j < w.next) (hback : (w'.conns j).extra = .conn w.next) : (w'.conns j).isExt = false := by
  have hold (hx : (w.conns j).extra = .conn w.next) : False := lt_irrefl _ (hapart j hj w.next hx).1
  have hchange := change_handle hapart h hj
  generalize w'.conns j = c at hchange hback ⊢
  cases hchange with
  | proxied => rfl
  | dialFailed => exact Conn.isExt_eq_false (isDirectClient_toDirect _)
  | dialled => exact Conn.isExt_eq_false (isDirectClient_toDirect _)
  | retryDialled hwait =>
    refine eq_false_iff.2 fun hext => ?_
    cases (hw.ext j hj hext).symm.trans hwait.1
  | closed => cases hback
  | detached => cases hback
  | admitted => exact (hold ((Conn.extra_letIn ..).symm.trans hback)).elim
  | unknownDc => exact (hold ((Conn.extra_letIn ..).symm.trans hback)).elim
  | _ => exact (hold hback).elim

/-! ### Tables and close notifications -/

theorem tabled_handle : Tabled w' := by
  have hle := next_le_handle h
  have hpartner : ∀ k < w.next, (w.conns k).isExt = false → (w'.conns k).isExt = false := by
    intro k hk hfalse
    refine eq_false_iff.2 fun hext => ?_
    rw [((change_handle hapart h hk).frame hapart).2.1 hext] at hfalse
    cases hfalse
  have hnew {k : ℕ} (hopen : Opened w w' k) : (w'.conns w.next).isExt = false := by
    rcases hopen.type with htype | htype <;> simp [Conn.isExt, htype]
  constructor
  · refine forall_handle h (fun i hi hext => ?_) (fun k _ hopen hext => ?_) fun addr _ hadd _ => ?_
    · have hchange := change_handle hapart h hi
      have hext' := (hchange.frame hapart).2.1 hext
      rcases hchange.extra_cases with hx | ⟨k, rfl, -, ⟨rfl, hfalse⟩ | ⟨hk, -⟩⟩ | ⟨hx, -⟩
      · rw [hx, hw.ext i hi hext']
      · cases hext'.symm.trans hfalse
      · have hen := (step_eq_some h).1
        cases hext'.symm.trans (hw.partner k hen.1.1 i hk).2
      · cases hext.symm.trans (isExt_linked hw hapart h hi hx)
    · cases hext.symm.trans (hnew hopen)
    · rw [hadd]
      rfl
  · refine forall_handle h (fun i hi j hij => ?_)
      (fun k _ hopen j hij => ?_) fun addr _ hadd j hij => ?_
    · rcases (change_handle hapart h hi).extra_cases with hx | ⟨-, -, hx, -⟩ | ⟨hx, hlink⟩
      · obtain ⟨hlt, hfalse⟩ := hw.partner i hi j (hx ▸ hij)
        exact ⟨hlt.trans_le hle, hpartner j hlt hfalse⟩
      · cases hx.symm.trans hij
      · obtain rfl := Extra.conn.inj (hx.symm.trans hij)
        have hopen := opened_of_linkedBy h hlink
        exact ⟨hopen.next ▸ Nat.lt_succ_self _, hnew hopen⟩
    · obtain rfl := Extra.conn.inj (hopen.extra.symm.trans hij)
      exact ⟨hopen.lt.trans_le hle, isExt_linked hw hapart h hopen.lt hopen.back⟩
    · rw [hadd] at hij
      cases hij

end

variable (w i)

theorem same_mtprotoExtRpcClose :
    (mtprotoExtRpcClose w i).next = w.next ∧ ∀ j,
      ((mtprotoExtRpcClose w i).conns j).isExt = (w.conns j).isExt ∧
        ((mtprotoExtRpcClose w i).conns j).extra = (w.conns j).extra := by
  refine ⟨next_uncountConnection _ i, fun j => ?_⟩
  rw [mtprotoExtRpcClose, conns_uncountConnection]
  by_cases hji : j = i
  · subst hji
    rw [conns_setConn_self]
    exact ⟨rfl, rfl⟩
  · rw [conns_setConn_of_ne _ _ hji]
    exact ⟨rfl, rfl⟩

/-- The close notifications and `confused` are as before. -/
def SameRest (w w' : State) : Prop := w'.closeQueue = w.closeQueue ∧ w'.confused = w.confused

theorem sameRest_directScheduleRetry (attempt : ℕ) :
    SameRest w (directScheduleRetry w i attempt) := by
  unfold directScheduleRetry
  split_ifs <;> exact ⟨rfl, rfl⟩

theorem sameRest_proxyConnection (linked : Bool) : SameRest w (proxyConnection w i linked) := by
  cases linked <;> exact ⟨rfl, rfl⟩

theorem sameRest_directConnectToDc (dc : DcOutcome) : SameRest w (directConnectToDc w i dc) := by
  cases dc with
  | unknownDc => exact ⟨rfl, rfl⟩
  | allFailed => exact sameRest_directScheduleRetry _ i 0
  | linked => exact ⟨rfl, rfl⟩

theorem sameRest_uncountConnection : SameRest w (uncountConnection w i) := by
  unfold uncountConnection
  dsimp only
  split_ifs <;> exact ⟨rfl, rfl⟩

theorem rest_failPeer : (failPeer w i).closeQueue = w.closeQueue ∧
    ((w.conns i).extra ≠ .rpcFuncs → (failPeer w i).confused = w.confused) := by
  unfold failPeer
  split
  · exact ⟨rfl, fun _ => rfl⟩
  · exact ⟨rfl, fun _ => rfl⟩
  · next h => exact ⟨rfl, fun hne => absurd h hne⟩

theorem rest_tcpDirectClose : (tcpDirectClose w i).closeQueue = w.closeQueue ∧
    ((w.conns i).extra ≠ .rpcFuncs → (tcpDirectClose w i).confused = w.confused) := by
  have huncount : SameRest w (directUncount w i) := by
    unfold directUncount
    split_ifs
    · exact sameRest_uncountConnection w i
    · exact ⟨rfl, rfl⟩
  rcases tcpDirectClose_cases w i with h | ⟨j, -, -, -, -, h⟩
  · have hpeer := rest_failPeer (directUncount w i) i
    rw [conns_directUncount, huncount.1, huncount.2] at hpeer
    rw [h]
    exact hpeer
  · have hretry := sameRest_directScheduleRetry
      (setConn (setConn w j (w.conns j).unlink) i (w.conns i).unlink) j (w.conns j).extraInt
    rw [h]
    exact ⟨hretry.1, fun _ => hretry.2⟩

/-- A connection of the accepting server's type that is closed is announced to the engine. -/
theorem rest_closeConnection :
    (closeConnection w i).closeQueue = w.closeQueue ++ announced w (.close i) ∧
      ((w.conns i).isExt = true ∨ (w.conns i).extra ≠ .rpcFuncs →
        (closeConnection w i).confused = w.confused) := by
  have hclosed : ((setConn w i (w.conns i).closed).conns i).extra = (w.conns i).extra := by
    rw [conns_setConn_self]
    rfl
  have hpeer := rest_failPeer (setConn w i (w.conns i).closed) i
  have hdirect := rest_tcpDirectClose (setConn w i (w.conns i).closed) i
  rw [hclosed] at hpeer hdirect
  rw [closeConnection, announced, Conn.isExt]
  cases (w.conns i).type with
  | extServer => exact ⟨rfl, fun _ => rfl⟩
  | extServerDrs => exact ⟨rfl, fun _ => rfl⟩
  | proxyPass =>
    exact ⟨hpeer.1.trans (List.append_nil _).symm, fun h => hpeer.2 (h.resolve_left (by simp))⟩
  | _ =>
    exact ⟨hdirect.1.trans (List.append_nil _).symm, fun h => hdirect.2 (h.resolve_left (by simp))⟩

variable (cfg) {i}

/-- **What an event does to the close notifications and to `confused`**, which is set when a
connection that has been handed over still has the function table. -/
theorem rest_handle {w : State} {e : Event} (hen : e.Ready w) (he : e ≠ .notify) :
    (handle cfg w e).closeQueue = w.closeQueue ++ announced w e ∧
      ((∀ i < w.next, (w.conns i).isExt = true ∨ (w.conns i).extra ≠ .rpcFuncs) →
        (handle cfg w e).confused = w.confused) := by
  have hsame {w' : State} (h : SameRest w w') : w'.closeQueue = w.closeQueue ++ [] ∧
      ((∀ i < w.next, (w.conns i).isExt = true ∨ (w.conns i).extra ≠ .rpcFuncs) →
        w'.confused = w.confused) :=
    ⟨h.1.trans (List.append_nil _).symm, fun _ => h.2⟩
  cases e with
  | hello i s cipherOk linked =>
    refine hsame ?_
    rw [handle, acceptHello]
    split
    · exact sameRest_proxyConnection _ i linked
    · split_ifs
      · exact ⟨rfl, rfl⟩
      · exact sameRest_proxyConnection w i linked
  | header i s dc =>
    refine hsame ?_
    rw [handle, acceptHeader]
    dsimp only
    split
    · exact ⟨rfl, rfl⟩
    · split_ifs
      · exact sameRest_directConnectToDc _ i dc
      · exact sameRest_directConnectToDc _ i dc
      · exact ⟨rfl, rfl⟩
      · exact ⟨rfl, rfl⟩
  | toBackend i linked => exact hsame (sameRest_proxyConnection w i linked)
  | close i =>
    have hrest := rest_closeConnection w i
    exact ⟨hrest.1, fun h => hrest.2 (h i hen.1.1)⟩
  | notify => exact absurd rfl he
  | alarm i resumed dc =>
    refine hsame ?_
    rw [handle, directClientAlarm]
    split_ifs
    · exact ⟨rfl, rfl⟩
    · cases dc with
      | unknownDc => exact ⟨rfl, rfl⟩
      | allFailed => exact sameRest_directScheduleRetry w i _
      | linked => exact ⟨rfl, rfl⟩
    · exact ⟨rfl, rfl⟩
  | parse i bytes =>
    simp only [handle]
    unfold parseExecute tcpDirectClientParseExecute tcpDirectDcParseExecute tcpProxyPassParseExecute
    dsimp only
    split
    all_goals try split
    all_goals try split_ifs
    all_goals
      first
      | exact hsame ⟨rfl, rfl⟩
      | next htype _ hextra =>
        refine ⟨(List.append_nil _).symm, fun h => ?_⟩
        simpa [Conn.isExt, htype, hextra] using h i hen.1
  | _ => exact hsame ⟨rfl, rfl⟩

end Events

end Mtbolt.Worker
