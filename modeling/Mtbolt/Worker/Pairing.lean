import Mtbolt.Worker.Switch

/-!
# Paired connections

`c->extra` of an accepted connection is the table of RPC functions it was accepted with; once the
connection is a direct client, a data centre's or one to the camouflage backend, it is the
connection on the other side.  The invariant `Paired` says which of the two it is, and that the
references of a pair agree as long as neither side has closed.
-/

namespace Mtbolt.Worker

open EventRun Secrets Bool

/-! ### The invariant -/

/-- The types of the two sides of a pair. -/
def Partners (c d : Conn) : Prop :=
  (c.isDirectClient = true ∧ d.type = .directDc) ∨ (c.type = .directDc ∧ d.isDirectClient = true) ∨
    (c.type = .proxyPass ∧ d.type = .proxyPass)

/-- `e` is the other side of `i`: it refers back to `i`, or it has closed and failed `i`. -/
structure PairOf (w : State) (i e : ℕ) : Prop where
  lt : e < w.next
  ne : e ≠ i
  partners : Partners (w.conns i) (w.conns e)
  back : (w.conns e).extra = .conn i ∨
    ((w.conns e).extra = .null ∧ (w.conns e).cFailed = true ∧ (w.conns i).cError = true)

structure Paired (w : State) : Prop where
  ext : ∀ i < w.next, (w.conns i).isExt = true →
    (w.conns i).extra = .rpcFuncs ∧ (w.conns i).extraInt = 0
  noFuncs : ∀ i < w.next, (w.conns i).isExt = false → (w.conns i).extra ≠ .rpcFuncs
  pair : ∀ i < w.next, ∀ e, (w.conns i).extra = .conn e → PairOf w i e
  waiting : ∀ i < w.next, (w.conns i).isDirectClient = true → 0 < (w.conns i).extraInt →
    (w.conns i).extra = .null
  failed : ∀ i < w.next, (w.conns i).cFailed = true → (w.conns i).cError = true
  calm : w.confused = false

theorem paired_start (t : SecretTable) (now : ℤ) : Paired (start t now) where
  ext := fun i hi => absurd hi (Nat.not_lt_zero i)
  noFuncs := fun i hi => absurd hi (Nat.not_lt_zero i)
  pair := fun i hi => absurd hi (Nat.not_lt_zero i)
  waiting := fun i hi => absurd hi (Nat.not_lt_zero i)
  failed := fun i hi => absurd hi (Nat.not_lt_zero i)
  calm := rfl

theorem partners_comm {c d : Conn} (h : Partners c d) : Partners d c := by
  rcases h with ⟨h, h'⟩ | ⟨h, h'⟩ | ⟨h, h'⟩
  · exact .inr (.inl ⟨h', h⟩)
  · exact .inl ⟨h', h⟩
  · exact .inr (.inr ⟨h', h⟩)

theorem Partners.isExt_eq_false {c d : Conn} (h : Partners c d) : c.isExt = false := by
  rcases h with ⟨h, -⟩ | ⟨h, -⟩ | ⟨h, -⟩
  · exact Conn.isExt_eq_false h
  · simp [Conn.isExt, h]
  · simp [Conn.isExt, h]

theorem partners_of_fitting {c d : Conn} (h : Fitting c.type d.type) : Partners c d := by
  rcases h with ⟨hd, hc⟩ | ⟨hd, hc⟩
  · exact .inr (.inr ⟨hc, hd⟩)
  · exact .inl ⟨by simpa [Conn.isDirectClient] using hc, hd⟩

section Paired

variable {w : State}

theorem Paired.apart (hw : Paired w) : Apart w := fun i hi j hij =>
  ⟨(hw.pair i hi j hij).lt, (hw.pair i hi j hij).ne⟩

theorem Paired.tabled (hw : Paired w) : Tabled w where
  ext := fun i hi hext => (hw.ext i hi hext).1
  partner := fun i hi j hij =>
    ⟨(hw.pair i hi j hij).lt, (partners_comm (hw.pair i hi j hij).partners).isExt_eq_false⟩

theorem Paired.eq_of_extra (hw : Paired w) {i j e : ℕ} (hj : j < w.next)
    (hie : (w.conns i).extra = .conn e) (hji : (w.conns j).extra = .conn i) : j = e := by
  rcases (hw.pair j hj i hji).back with h | ⟨h, -⟩
  · exact (Extra.conn.inj (hie.symm.trans h)).symm
  · cases hie.symm.trans h

end Paired

/-! ### The pairs after an event -/

/-- A client's first connection to its data centre does not fail at once on every address. -/
def FirstDialStarts (cfg : WorkerConfig) (_ : State) : Event → Prop
  | .header _ _ dc => cfg.directMode = true → dc ≠ .allFailed
  | _ => True

instance (cfg : WorkerConfig) (w : State) (e : Event) : Decidable (FirstDialStarts cfg w e) := by
  induction e using Event.casesOn <;> dsimp only [FirstDialStarts] <;> infer_instance

section Steps

variable {cfg : WorkerConfig} {w w' : State} {e : Event}

theorem lt_of_close {i : ℕ} (h : step cfg w (.close i) = some w') :
    i < w.next ∧ (w.conns i).cError = true := by
  have hen := (step_eq_some h).1
  exact hen.1

theorem pairOf_kept (hw : Paired w) (h : step cfg w e = some w') {i k : ℕ} (hi : i < w.next)
    (hik : (w.conns i).extra = .conn k) (hik' : (w'.conns i).extra = .conn k) : PairOf w' i k := by
  obtain ⟨hlt, hne, hpart, hback⟩ := hw.pair i hi k hik
  have hi' := change_handle hw.apart h hi
  have hk' := change_handle hw.apart h hlt
  have hext := (partners_comm hpart).isExt_eq_false
  refine ⟨hlt.trans_le (next_le_handle h), hne, ?_, ?_⟩
  · have htype := hi'.type_eq hpart.isExt_eq_false
    unfold Partners Conn.isDirectClient at hpart ⊢
    rwa [htype, hk'.type_eq hext]
  · have hfailed : (w'.conns k).cFailed = true ∨ (w'.conns k).cFailed = (w.conns k).cFailed := by
      by_cases he : e = .close k
      · exact .inl ((hk'.frame hw.apart).2.2.2 he)
      · exact .inr ((hk'.frame hw.apart).2.2.1 he)
    rcases hk'.extra_cases with hx | ⟨j, rfl, hnull, hclosed⟩ | ⟨-, hlink⟩
    · rw [hx]
      refine hback.imp id fun hclosed => ⟨hclosed.1, ?_, hi'.cError hclosed.2.2⟩
      exact hfailed.elim id fun hf => hf.trans hclosed.2.1
    · right
      rcases hback with hki | ⟨-, hf, herr⟩
      · rcases hclosed with ⟨rfl, -⟩ | ⟨hjk, htype, -⟩
        · -- The other side has closed and failed this one.
          refine ⟨hnull, (hk'.frame hw.apart).2.2.2 rfl, ?_⟩
          refine (peer_closed hw.apart h hext hki).resolve_right fun hgone => ?_
          cases hik'.symm.trans hgone
        · -- It has lost its reference, so this one has closed.
          obtain rfl := hw.eq_of_extra (lt_of_close h).1 hki hjk
          cases hik'.symm.trans (extra_closed hw.apart h hpart.isExt_eq_false)
      · exact ⟨hnull, hfailed.elim id fun h => h.trans hf, hi'.cError herr⟩
    · rcases linkedBy_cases (step_eq_some h).1 hlink with hbefore | ⟨hwait, -, hopen⟩
      · cases (Conn.isExt_of_before hbefore).symm.trans hext
      · rcases hback with hki | ⟨-, hf, -⟩
        · cases hki.symm.trans hwait.1
        · cases (hw.failed k hlt hf).symm.trans hopen

theorem pairOf_opened (h : step cfg w e = some w') {k : ℕ} (hlink : linkedBy cfg w e = some k) :
    PairOf w' w.next k ∧ PairOf w' k w.next := by
  obtain ⟨hopen, htype⟩ := opened_and_fitting h hlink
  have hpart := partners_of_fitting htype
  have hlt : w.next < w'.next := hopen.next ▸ Nat.lt_succ_self _
  exact ⟨⟨hopen.lt.trans hlt, hopen.lt.ne, partners_comm hpart, .inl hopen.back⟩,
    ⟨hlt, hopen.lt.ne', hpart, .inl hopen.extra⟩⟩

/-- What the invariant says of one record, the function table of an accepted connection apart. -/
structure Conn.Kept (c : Conn) : Prop where
  ext : c.isExt = true → c.extraInt = 0
  noFuncs : c.isExt = false → c.extra ≠ .rpcFuncs
  waiting : c.isDirectClient = true → 0 < c.extraInt → c.extra = .null
  failed : c.cFailed = true → c.cError = true

theorem Conn.Kept.of_isExt {c : Conn} (hext : c.isExt = true) (hint : c.extraInt = 0)
    (hfailed : c.cFailed = true → c.cError = true) : c.Kept :=
  ⟨fun _ => hint, fun h => (Bool.false_ne_true (h.symm.trans hext)).elim,
    fun _ hpos => by omega, hfailed⟩

theorem Conn.Kept.of_not_isExt {c : Conn} (hext : c.isExt = false) (hextra : c.extra ≠ .rpcFuncs)
    (hint : 0 < c.extraInt → c.extra = .null) (hfailed : c.cFailed = true → c.cError = true) :
    c.Kept :=
  ⟨fun h => (Bool.false_ne_true (hext.symm.trans h)).elim, fun _ => hextra, fun _ => hint, hfailed⟩

theorem kept_handle (hw : Paired w) (hok : FirstDialStarts cfg w e) (h : step cfg w e = some w')
    {i : ℕ} (hi : i < w.next) : (w'.conns i).Kept := by
  have hold : (w.conns i).Kept :=
    ⟨fun hext => (hw.ext i hi hext).2, hw.noFuncs i hi, hw.waiting i hi, hw.failed i hi⟩
  have hzero (hbefore : (w.conns i).beforeHandshake = true) : (w.conns i).extraInt = 0 :=
    hold.ext (Conn.isExt_of_before hbefore)
  have hwaits (hwait : (w.conns i).waiting) : (w.conns i).isExt = false :=
    eq_false_iff.2 fun hext => by cases (hw.ext i hi hext).1.symm.trans hwait.1
  have hletIn {s : ℕ} (hbefore : (w.conns i).beforeHandshake = true) :
      ((w.conns i).letIn s).extraInt = 0 := (Conn.extraInt_letIn ..).trans (hzero hbefore)
  have hopen (hbefore : (w.conns i).beforeHandshake = true) : (w.conns i).cFailed ≠ true := by
    simp only [Conn.beforeHandshake, and_eq_true, not_eq_true'] at hbefore
    exact eq_false_iff.1 hbefore.2
  have hchange := change_handle hw.apart h hi
  generalize hc : w'.conns i = c at hchange ⊢
  cases hchange with
  | same => exact hold
  | failed => exact { hold with failed := fun _ => rfl }
  | proxied hbefore =>
    exact .of_not_isExt rfl (by simp) (fun hpos => by simp [hzero hbefore] at hpos) hold.failed
  | notProxied => exact { hold with failed := fun _ => rfl }
  | @rejected s _ hbefore =>
    exact .of_isExt (Conn.isExt_handshake hbefore s) (hzero hbefore) fun _ => rfl
  | admitted hbefore =>
    exact .of_isExt (Conn.isExt_letIn hbefore _) (hletIn hbefore) fun hf => by
      rw [Conn.cFailed_letIn] at hf
      exact absurd hf (hopen hbefore)
  | unknownDc hbefore =>
    exact .of_isExt (Conn.isExt_letIn hbefore _) (hletIn hbefore) fun _ => rfl
  | @dialFailed s hbefore =>
    -- The client has gone to its data centre, so the mode is direct.
    obtain ⟨-, rfl⟩ := step_eq_some h
    have hswitched := switched_of_isDirectClient hi hbefore
      ((congrArg Conn.isDirectClient hc).trans (isDirectClient_toDirect _))
    simp only [switched] at hswitched
    split_ifs at hswitched with hcond
    simp only [and_eq_true] at hcond
    exact absurd rfl (hok hcond.1.1)
  | dialled hbefore =>
    refine .of_not_isExt (Conn.isExt_eq_false (isDirectClient_toDirect _)) (by simp) ?_ ?_
    · exact fun hpos => absurd (hletIn hbefore) hpos.ne'
    · exact fun hf => absurd ((Conn.cFailed_letIn ..).symm.trans hf) (hopen hbefore)
  | queued hext => exact { hold with failed := fun _ => (lt_of_close h).2 }
  | closed hext => exact .of_not_isExt hext (by simp) (fun _ => rfl) fun _ => (lt_of_close h).2
  | detached hj _ hextra =>
    exact .of_not_isExt (hw.tabled.partner _ hj i hextra).2 (by simp) (fun _ => rfl) hold.failed
  | retryUnknown hwait =>
    exact .of_not_isExt (hwaits hwait) (hold.noFuncs (hwaits hwait)) (fun _ => hwait.1) fun _ => rfl
  | retryFailed hwait =>
    exact .of_not_isExt (hwaits hwait) (hold.noFuncs (hwaits hwait)) (fun _ => hwait.1) hold.failed
  | retryDialled hwait =>
    exact .of_not_isExt (hwaits hwait) (by simp) (fun hpos => by simp at hpos) hold.failed
  | undecipherable => exact { hold with failed := fun _ => rfl }
  | tls | closeRan | connected => exact { hold with }

theorem confused_handle (hw : Paired w) (h : step cfg w e = some w') : w'.confused = false := by
  obtain ⟨hen, rfl⟩ := step_eq_some h
  by_cases he : e = .notify
  · subst he
    simp only [handle]
    split
    · exact hw.calm
    · exact (sameRest_uncountConnection _ _).2.trans hw.calm
  · refine ((rest_handle cfg hen he).2 fun i hi => ?_).trans hw.calm
    cases hext : (w.conns i).isExt with
    | true => exact .inl rfl
    | false => exact .inr (hw.noFuncs i hi hext)

/-- **Every event keeps the pairs**, if the first connection to a data centre is started. -/
theorem paired_step (hw : Paired w) (hok : FirstDialStarts cfg w e) (h : step cfg w e = some w') :
    Paired w' := by
  have htabled := tabled_handle hw.tabled hw.apart h
  have hkept : ∀ i < w'.next, (w'.conns i).Kept := by
    refine forall_handle h (fun i hi => kept_handle hw hok h hi) (fun k _ hopen => ?_)
      fun addr _ hnew => ?_
    · have hext : (w'.conns w.next).isExt = false := by
        rcases hopen.type with htype | htype <;> simp [Conn.isExt, htype]
      rw [hopen.fresh] at hext ⊢
      exact .of_not_isExt hext (by simp [Conn.new]) (by simp [Conn.new]) (by simp [Conn.new])
    · rw [hnew]
      exact .of_isExt rfl rfl (by simp [Conn.new])
  refine ⟨fun i hi hext => ⟨htabled.ext i hi hext, (hkept i hi).ext hext⟩,
    fun i hi => (hkept i hi).noFuncs, ?_, fun i hi => (hkept i hi).waiting,
    fun i hi => (hkept i hi).failed, confused_handle hw h⟩
  refine forall_handle h (fun i hi k hik => ?_) (fun j hlink hopen k hik => ?_)
    fun addr _ hnew k hik => ?_
  · rcases (change_handle hw.apart h hi).extra_cases with hx | ⟨-, -, hx, -⟩ | ⟨hx, hlink⟩
    · exact pairOf_kept hw h hi (hx ▸ hik) hik
    · cases hik.symm.trans hx
    · obtain rfl := Extra.conn.inj (hx.symm.trans hik)
      exact (pairOf_opened h hlink).2
  · obtain rfl := Extra.conn.inj (hopen.extra.symm.trans hik)
    exact (pairOf_opened h hlink).1
  · rw [hnew] at hik
    cases hik

end Steps

/-! ### Runs -/

/-- **Past its handshake a connection refers to its other side or to nothing**, in every state of
every run in which first connections to a data centre are started.  A client that waits for a
retry refers to nothing, so that its alarm retries, and no handler has used the RPC function table
as a connection. -/
theorem extra_null_or_paired (cfg : WorkerConfig) (t : SecretTable) (now : ℤ) (es : List Event)
    {w : State} (hok : Along (step cfg) (FirstDialStarts cfg) (start t now) es)
    (hrun : run (step cfg) (start t now) es = some w) :
    (∀ i < w.next, (w.conns i).isExt = false →
      (w.conns i).extra = .null ∨ ∃ e, (w.conns i).extra = .conn e ∧ PairOf w i e) ∧
    (∀ i < w.next, (w.conns i).isDirectClient = true → 0 < (w.conns i).extraInt →
      (w.conns i).extra = .null ∧
        ∀ dc, directClientAlarm w i false dc = directRetryDcConnection w i dc) ∧
    w.confused = false := by
  have hw : Paired w :=
    run_invariant (fun _ _ _ hw hok h => paired_step hw hok h) (paired_start t now) hok hrun
  refine ⟨fun i hi hext => ?_, fun i hi hdirect hint => ?_, hw.calm⟩
  · cases he : (w.conns i).extra with
    | null => exact .inl rfl
    | rpcFuncs => exact absurd he (hw.noFuncs i hi hext)
    | conn e => exact .inr ⟨e, rfl, hw.pair i hi e he⟩
  · have hnull := hw.waiting i hi hdirect hint
    refine ⟨hnull, fun dc => ?_⟩
    rw [directClientAlarm, if_neg Bool.false_ne_true, if_pos ⟨hnull, hint⟩]

/-- A client is admitted, its data centre accepts no connection, and it is retried once. -/
def dialLater : List Event :=
  [.accept ⟨1, 0⟩, .header 0 0 .linked, .fail 1, .close 1, .parse 0 16, .alarm 0 false .linked]

theorem extra_null_or_paired_dialLater :
    pinExtSecrets [sampleSecret 0] = some (sampleTable 0) ∧
      ∃ w, run (step ⟨1, true⟩) (start (sampleTable 0) 0) dialLater = some w ∧
        (w.conns 0).extra = .conn 2 ∧ w.confused = false :=
  ⟨rfl, _, rfl, rfl, (extra_null_or_paired ⟨1, true⟩ (sampleTable 0) 0 dialLater (by decide) rfl).2.2⟩

/-- When every address fails at once, the client waits for a retry with the function table still
in `extra`: its alarm does nothing, and its next data is relayed to the table. -/
theorem extra_rpcFuncs_of_failed_dial :
    pinExtSecrets [sampleSecret 0] = some (sampleTable 0) ∧
      ∃ w w', run (step ⟨1, true⟩) (start (sampleTable 0) 0)
          [.accept ⟨1, 0⟩, .header 0 0 .allFailed] = some w ∧
        (w.conns 0).type = .directClient ∧ (w.conns 0).extraInt = 1 ∧
        (w.conns 0).extra = .rpcFuncs ∧
        (∀ resumed dc, directClientAlarm w 0 resumed dc = w) ∧
        step ⟨1, true⟩ w (.parse 0 16) = some w' ∧ w'.confused = true := by
  refine ⟨rfl, _, _, rfl, rfl, rfl, rfl, fun resumed dc => ?_, rfl, rfl⟩
  cases resumed <;> rfl

end Mtbolt.Worker
