import Mtbolt.Mtproto.Forward

/-!
# Queries of plain and of Fake-TLS clients

The handshake changes the type of a Fake-TLS client to `ct_tcp_rpc_ext_server_drs`, while
`forward_tcp_query` asks for `ct_tcp_rpc_ext_server_mtfront` in two places: for the flag `0x1000` of
the request, and for the mark `RPC_F_DROPPED` of a connection that has lost a query.  This file
compares the two kinds of clients over whole runs: the same packets, the same middle-ends, the same
draws.
-/

namespace Mtbolt.Mtproto

open EventRun List Option

/-! ### One client -/

/-- The type of a client after its handshake. -/
def typeAfterHandshake (isTls : Bool) : Worker.ConnType :=
  let c := Worker.Conn.new .extServer .rpcFuncs ⟨0, 0⟩
  (Worker.Conn.handshake { c with isTls := isTls } 0).type

/-- The table, the client, its queued packets, and the outcomes of those that have run. -/
structure Side where
  tbl : ExtTable
  c : QueryClient
  jobs : List ExecJob
  outcomes : List Outcome

/-- What happens around the client: the parser has a packet, with or without the request for a
quick acknowledgement; a queued packet is run; a middle-end closes the client's session; the
connections to middle-ends with a descriptor go; another client gets a session. -/
inductive SideEvent
  | receive (data : List UInt8) (quickack roomy : Bool)
  | execute (i : ℕ) (env : QueryEnv)
  | closeSession
  | disconnect (outFd : ℕ)
  | other (ci co : ConnId) (authKeyId : BitVec 64) (draws : List ℕ)

/-- The client with a packet parsed and queued. -/
def receivePacket (s : Side) (data : List UInt8) (quickack roomy : Bool) : Side :=
  let c := { s.c with flags := setQuickack s.c.flags quickack }
  { s with c := c, jobs := s.jobs ++ (extRpcsExecute c data roomy).toList }

/-- The client after the `i`-th of its packets has run. -/
def executed (s : Side) (i : ℕ) (r : ForwardResult) : Side where
  tbl := r.tbl
  c := { s.c with flags := r.flags }
  jobs := s.jobs.eraseIdx i
  outcomes := s.outcomes ++ [r.outcome]

def sideStep (cfg : ProxyConfig) (s : Side) : SideEvent → Option Side
  | .receive data quickack roomy => some (receivePacket s data quickack roomy)
  | .execute i env =>
    (s.jobs[i]?).bind fun job =>
      (forwardMtprotoPacket cfg env s.tbl s.c job.data job.rpcFlags).map (executed s i)
  | .closeSession => some { s with tbl := closeSession s.tbl s.c.id.fd }
  | .disconnect outFd => some { s with tbl := removeAllByOutFd s.tbl outFd }
  | .other ci co authKeyId draws =>
    if ci.fd = s.c.id.fd then none
    else (createExtConnection s.tbl ci co authKeyId draws).map fun p => { s with tbl := p.2 }

/-- A client that has shaken hands. -/
def startSide (isTls : Bool) (t : ExtTable) (id : ConnId) (flags : BitVec 32)
    (remote our : Endpoint) : Side where
  tbl := t
  c := ⟨id, typeAfterHandshake isTls, flags, remote, our⟩
  jobs := []
  outcomes := []

/-- The flags of the requests that were forwarded, query by query. -/
def Side.flags (s : Side) : List (Option (BitVec 32)) := s.outcomes.map Outcome.flags

/-- After a query was dropped, none is forwarded. -/
def Side.StopsAfterDrop (s : Side) : Prop :=
  s.outcomes.Pairwise fun a b => a = .dropped → b.flags = none

/-- The packet that runs is no query, or it finds no connection to a middle-end. -/
def MeetsNothing (s : Side) : SideEvent → Prop
  | .execute i env => ∀ job, s.jobs[i]? = some job →
      acceptedPacket job.data = none ∨ chooseConnection env = none
  | _ => True

instance MeetsNothing.decidable (s : Side) (e : SideEvent) : Decidable (MeetsNothing s e) := by
  unfold MeetsNothing
  split
  · exact inferInstanceAs (Decidable (∀ job ∈ s.jobs[_]?, _))
  · infer_instance

/-! ### As long as no query finds a connection -/

/-- The client has no session, and none of its queries was forwarded. -/
structure Quiet (s : Side) : Prop where
  fresh : getExtConnectionByInFd s.tbl s.c.id.fd = none
  flags : ∀ o ∈ s.outcomes, o.flags = none

variable {cfg : ProxyConfig} {s s' p q p' q' : Side} {e : SideEvent} {env : QueryEnv} {t : ExtTable}
  {c : QueryClient} {data : List UInt8} {r : ForwardResult} {flags : BitVec 32}
  {authKeyId : BitVec 64}

theorem quiet_step (hs : Quiet s) (hmeets : MeetsNothing s e) (h : sideStep cfg s e = some s') :
    Quiet s' := by
  cases e with
  | receive data quickack roomy =>
    cases h
    exact ⟨hs.fresh, hs.flags⟩
  | execute i env =>
    obtain ⟨job, hjob, h⟩ := bind_eq_some_iff.1 h
    obtain ⟨r, hr, rfl⟩ := map_eq_some_iff.1 h
    obtain ⟨htbl, hflags⟩ := forward_nowhere hs.fresh (hmeets job hjob) hr
    constructor
    · show getExtConnectionByInFd r.tbl s.c.id.fd = none
      rw [htbl]
      exact hs.fresh
    · intro o ho
      rcases mem_append.1 ho with ho | ho
      · exact hs.flags o ho
      · rw [mem_singleton.1 ho]
        exact hflags
  | closeSession =>
    cases h
    refine ⟨?_, hs.flags⟩
    exact fresh_of_subset (fun _ hx => (mem_closeSession.1 hx).1) hs.fresh
  | disconnect outFd =>
    cases h
    exact ⟨fresh_of_subset (fun _ => mem_of_mem_removeAllByOutFd) hs.fresh, hs.flags⟩
  | other ci co authKeyId draws =>
    simp only [sideStep] at h
    split_ifs at h with hfd
    obtain ⟨⟨ex, t⟩, hcreate, rfl⟩ := map_eq_some_iff.1 h
    obtain ⟨hinn, -, -, hentries⟩ := createExtConnection_spec hcreate
    refine ⟨getExtConnectionByInFd_eq_none_iff.2 fun e he => ?_, hs.flags⟩
    rw [hentries] at he
    rcases mem_cons.1 he with rfl | he
    · rw [hinn]
      exact hfd
    · exact getExtConnectionByInFd_eq_none_iff.1 hs.fresh e he

/-! ### The two sides -/

/-- The queues hold the same packets, and as many packets have run. -/
structure InStep (p q : Side) : Prop where
  jobs : p.jobs.map ExecJob.data = q.jobs.map ExecJob.data
  count : p.outcomes.length = q.outcomes.length

theorem toList_extRpcsExecute (c : QueryClient) (data : List UInt8) (roomy : Bool) :
    (extRpcsExecute c data roomy).toList.map ExecJob.data =
      if data.length > maxPostSize ∨ !roomy then [] else [data] := by
  unfold extRpcsExecute
  split_ifs <;> rfl

theorem inStep_step (h : InStep p q) (hp : sideStep cfg p e = some p')
    (hq : sideStep cfg q e = some q') : InStep p' q' := by
  cases e with
  | receive data quickack roomy =>
    cases hp
    cases hq
    refine ⟨?_, h.count⟩
    simp only [receivePacket, map_append, toList_extRpcsExecute, h.jobs]
  | execute i env =>
    obtain ⟨job, -, hp⟩ := bind_eq_some_iff.1 hp
    obtain ⟨r, -, rfl⟩ := map_eq_some_iff.1 hp
    obtain ⟨job', -, hq⟩ := bind_eq_some_iff.1 hq
    obtain ⟨r', -, rfl⟩ := map_eq_some_iff.1 hq
    constructor
    · simp only [executed, ← eraseIdx_map, h.jobs]
    · simp only [executed, length_append, length_singleton, h.count]
  | closeSession =>
    cases hp
    cases hq
    exact ⟨h.jobs, h.count⟩
  | disconnect outFd =>
    cases hp
    cases hq
    exact ⟨h.jobs, h.count⟩
  | other ci co authKeyId draws =>
    simp only [sideStep] at hp hq
    split_ifs at hp hq
    obtain ⟨x, -, rfl⟩ := map_eq_some_iff.1 hp
    obtain ⟨y, -, rfl⟩ := map_eq_some_iff.1 hq
    exact ⟨h.jobs, h.count⟩

theorem InStep.meetsNothing (h : InStep p q) (hmeets : MeetsNothing p e) : MeetsNothing q e := by
  cases e with
  | execute i env =>
    intro job hjob
    have hdata : (p.jobs.map ExecJob.data)[i]? = some job.data := by
      rw [h.jobs, getElem?_map, hjob]
      rfl
    rw [getElem?_map] at hdata
    obtain ⟨job', hjob', heq⟩ := map_eq_some_iff.1 hdata
    rw [← heq]
    exact hmeets job' hjob'
  | _ => trivial

/-- The mark `RPC_F_DROPPED` is bit 28, the flag of an RPC client's request bit 12. -/
structure Unmarked (q : Side) : Prop where
  type : q.c.type = .extServerDrs
  dropped : q.c.flags.getLsbD 28 = false
  jobs : ∀ job ∈ q.jobs, job.rpcFlags.getLsbD 28 = false ∧ job.rpcFlags.getLsbD 12 = false

theorem getLsbD_setQuickack (flags : BitVec 32) (quickack : Bool) :
    (setQuickack flags quickack).getLsbD 28 = flags.getLsbD 28 := by
  unfold setQuickack
  split_ifs <;> simp [rpcFQuickack]

theorem flags_forward_unmarked {rpcFlags : BitVec 32} (htype : c.type = .extServerDrs)
    (h : forwardMtprotoPacket cfg env t c data rpcFlags = some r) : r.flags = c.flags := by
  have hdropped : droppedFlags c = c.flags := by simp [droppedFlags, htype]
  unfold forwardMtprotoPacket at h
  split at h
  · cases h
    rfl
  · simp only [forwardTcpQuery] at h
    split at h
    · cases h
      rfl
    · split at h
      · cases h
        exact hdropped
      · split_ifs at h
        · cases h
          rfl
        · obtain ⟨x, -, rfl⟩ := map_eq_some_iff.1 h
          rfl

theorem unmarked_step (hq : Unmarked q) (h : sideStep cfg q e = some q') : Unmarked q' := by
  cases e with
  | receive data quickack roomy =>
    cases h
    refine ⟨hq.type, (getLsbD_setQuickack _ _).trans hq.dropped, fun job hjob => ?_⟩
    rcases mem_append.1 hjob with hjob | hjob
    · exact hq.jobs job hjob
    · unfold extRpcsExecute at hjob
      split_ifs at hjob
      · cases hjob
      · rw [mem_singleton.1 hjob]
        constructor
        · rw [BitVec.getLsbD_and, getLsbD_setQuickack, hq.dropped]
          rfl
        · rw [BitVec.getLsbD_and]
          exact Bool.and_false _
  | execute i env =>
    obtain ⟨job, -, h⟩ := bind_eq_some_iff.1 h
    obtain ⟨r, hr, rfl⟩ := map_eq_some_iff.1 h
    refine ⟨hq.type, ?_, fun job hjob => hq.jobs job (mem_of_mem_eraseIdx hjob)⟩
    show r.flags.getLsbD 28 = false
    rw [flags_forward_unmarked hq.type hr]
    exact hq.dropped
  | closeSession =>
    cases h
    exact ⟨hq.type, hq.dropped, hq.jobs⟩
  | disconnect outFd =>
    cases h
    exact ⟨hq.type, hq.dropped, hq.jobs⟩
  | other ci co authKeyId draws =>
    simp only [sideStep] at h
    split_ifs at h
    obtain ⟨x, -, rfl⟩ := map_eq_some_iff.1 h
    exact ⟨hq.type, hq.dropped, hq.jobs⟩

/-! ### The first query that finds a connection -/

theorem acceptedPacket_flags (h : acceptedPacket data = some (flags, authKeyId)) :
    flags = 0 ∨ flags = 2 := by
  unfold acceptedPacket at h
  dsimp only at h
  split_ifs at h
  · cases h
    exact .inl rfl
  · cases h
    exact .inr rfl

theorem getLsbD_makeRequest (cfg : ProxyConfig) (c : QueryClient) (ex : ExtConnection)
    (flags : BitVec 32) (data : List UInt8) :
    (makeRequest cfg c ex flags data).flags.getLsbD 12 = flags.getLsbD 12 := by
  unfold makeRequest
  split_ifs <;> simp

section

variable {d : ConnId} (hfresh : getExtConnectionByInFd t c.id.fd = none)
  (hsome : chooseConnection env = some d)
  (h : forwardTcpQuery cfg env t c flags authKeyId data = some r)
include hfresh hsome h

theorem plain_outcome (htype : c.type = .extServer) :
    ∀ f, r.outcome.flags = some f → f.getLsbD 12 = true := by
  intro f hf
  have hout := forwardTcpQuery_somewhere hfresh hsome h
  split_ifs at hout with hdropped
  · rw [hout] at hf
    cases hf
  · obtain ⟨ex, hout⟩ := hout
    rw [hout] at hf
    cases hf
    rw [getLsbD_makeRequest, queryFlags, if_pos htype, BitVec.getLsbD_or]
    exact Bool.or_true _

theorem tls_outcome (htype : c.type = .extServerDrs) (hdropped : flags.getLsbD 28 = false)
    (hext : flags.getLsbD 12 = false) :
    ∃ f, r.outcome.flags = some f ∧ f.getLsbD 12 = false := by
  have hquery : queryFlags c flags = flags := by simp [queryFlags, htype]
  have hout := forwardTcpQuery_somewhere hfresh hsome h
  rw [hquery, if_neg] at hout
  · obtain ⟨ex, hout⟩ := hout
    exact ⟨_, by rw [hout]; rfl, (getLsbD_makeRequest cfg c ex flags data).trans hext⟩
  · intro hne
    have hset := (and_twoPow_ne_zero_iff flags (i := 28) (by decide)).1 hne
    rw [hdropped] at hset
    cases hset

end

theorem outcome_differs {job job' : ExecJob} {r' : ForwardResult} (hp : Quiet p) (hq : Quiet q)
    (htype : p.c.type = .extServer) (hunmarked : Unmarked q) (hjob : job' ∈ q.jobs)
    (hdata : job.data = job'.data) (haccepted : acceptedPacket job.data ≠ none)
    (hsome : chooseConnection env ≠ none)
    (hr : forwardMtprotoPacket cfg env p.tbl p.c job.data job.rpcFlags = some r)
    (hr' : forwardMtprotoPacket cfg env q.tbl q.c job'.data job'.rpcFlags = some r') :
    r.outcome.flags ≠ r'.outcome.flags := by
  obtain ⟨d, hsome⟩ := ne_none_iff_exists'.1 hsome
  obtain ⟨⟨flags, authKeyId⟩, haccepted⟩ := ne_none_iff_exists'.1 haccepted
  have hclear : flags.getLsbD 28 = false ∧ flags.getLsbD 12 = false := by
    rcases acceptedPacket_flags haccepted with rfl | rfl <;> exact ⟨rfl, rfl⟩
  obtain ⟨hdropped, hext⟩ := hunmarked.jobs job' hjob
  rw [hdata] at haccepted hr
  simp only [forwardMtprotoPacket, haccepted] at hr hr'
  obtain ⟨f, hf, hbit⟩ := tls_outcome hq.fresh hsome hr' hunmarked.type
    (by rw [BitVec.getLsbD_or, hclear.1, hdropped]; rfl)
    (by rw [BitVec.getLsbD_or, hclear.2, hext]; rfl)
  intro heq
  have hplain := plain_outcome hp.fresh hsome hr htype f (heq.trans hf)
  rw [hbit] at hplain
  cases hplain

/-! ### Whole runs -/

theorem type_sideStep (h : sideStep cfg s e = some s') : s'.c.type = s.c.type := by
  cases e with
  | execute i env =>
    obtain ⟨job, -, h⟩ := bind_eq_some_iff.1 h
    obtain ⟨r, -, rfl⟩ := map_eq_some_iff.1 h
    rfl
  | other ci co authKeyId draws =>
    simp only [sideStep] at h
    split_ifs at h
    obtain ⟨x, -, rfl⟩ := map_eq_some_iff.1 h
    rfl
  | _ =>
    cases h
    rfl

theorem outcomes_grow {es : List SideEvent} (h : run (sideStep cfg) s es = some s') :
    s.outcomes <+: s'.outcomes := by
  refine run_invariant (I := fun x => s.outcomes <+: x.outcomes) (fun x e x' hx _ hstep => ?_)
    (prefix_refl _) (along_true s es) h
  cases e with
  | execute i env =>
    obtain ⟨job, -, hstep⟩ := bind_eq_some_iff.1 hstep
    obtain ⟨r, -, rfl⟩ := map_eq_some_iff.1 hstep
    exact hx.trans (prefix_append _ _)
  | other ci co authKeyId draws =>
    simp only [sideStep] at hstep
    split_ifs at hstep
    obtain ⟨y, -, rfl⟩ := map_eq_some_iff.1 hstep
    exact hx
  | _ =>
    cases hstep
    exact hx

/-- A plain and a Fake-TLS client none of whose queries has found a connection. -/
structure Paired (p q : Side) : Prop where
  plain : Quiet p
  tls : Quiet q
  inStep : InStep p q
  type : p.c.type = .extServer
  unmarked : Unmarked q

theorem paired_step (h : Paired p q) (hmeets : MeetsNothing p e) (hp : sideStep cfg p e = some p')
    (hq : sideStep cfg q e = some q') : Paired p' q' where
  plain := quiet_step h.plain hmeets hp
  tls := quiet_step h.tls (h.inStep.meetsNothing hmeets) hq
  inStep := inStep_step h.inStep hp hq
  type := (type_sideStep hp).trans h.type
  unmarked := unmarked_step h.unmarked hq

theorem flags_ne_of_prefix {l l' m m' : List Outcome} {o o' : Outcome}
    (hlen : l.length = l'.length) (hne : o.flags ≠ o'.flags) (h : l ++ [o] <+: m)
    (h' : l' ++ [o'] <+: m') : m.map Outcome.flags ≠ m'.map Outcome.flags := by
  intro heq
  obtain ⟨n, rfl⟩ := h
  obtain ⟨n', rfl⟩ := h'
  simp only [map_append, append_assoc] at heq
  obtain ⟨-, hrest⟩ := append_inj heq (by simp [hlen])
  exact hne (cons.inj hrest).1

theorem meetsNothing_of_flags_eq {es : List SideEvent} (h : Paired p q)
    (hp : run (sideStep cfg) p es = some p') (hq : run (sideStep cfg) q es = some q')
    (hflags : p'.flags = q'.flags) : Along (sideStep cfg) MeetsNothing p es := by
  induction es generalizing p q with
  | nil => trivial
  | cons e es ih =>
    obtain ⟨p₁, hp₁, hp⟩ := bind_eq_some_iff.1 hp
    obtain ⟨q₁, hq₁, hq⟩ := bind_eq_some_iff.1 hq
    have hmeets : MeetsNothing p e := by
      cases e with
      | execute i env =>
        intro job hjob
        by_contra hmeets
        rw [not_or] at hmeets
        obtain ⟨job₁, hjob₁, hp₁⟩ := bind_eq_some_iff.1 hp₁
        obtain ⟨r, hr, rfl⟩ := map_eq_some_iff.1 hp₁
        obtain ⟨job₂, hjob₂, hq₁⟩ := bind_eq_some_iff.1 hq₁
        obtain ⟨r', hr', rfl⟩ := map_eq_some_iff.1 hq₁
        obtain rfl : job₁ = job := some.inj (hjob₁.symm.trans hjob)
        have hdata : job₁.data = job₂.data := by
          have := congrArg (fun l => l[i]?) h.inStep.jobs
          simpa [getElem?_map, hjob, hjob₂] using this
        have hne := outcome_differs h.plain h.tls h.type h.unmarked
          (mem_of_getElem? hjob₂) hdata hmeets.1 hmeets.2 hr hr'
        exact flags_ne_of_prefix h.inStep.count hne (outcomes_grow hp) (outcomes_grow hq) hflags
      | _ => trivial
    refine ⟨hmeets, fun p₂ hp₂ => ?_⟩
    obtain rfl : p₁ = p₂ := some.inj (hp₁.symm.trans hp₂)
    exact ih (paired_step h hmeets hp₁ hq₁) hp hq

theorem paired_start {id : ConnId} (hfresh : getExtConnectionByInFd t id.fd = none)
    (hflags : flags &&& rpcFDropped = 0) (remote our : Endpoint) :
    Paired (startSide false t id flags remote our) (startSide true t id flags remote our) where
  plain := ⟨hfresh, by simp [startSide]⟩
  tls := ⟨hfresh, by simp [startSide]⟩
  inStep := ⟨rfl, rfl⟩
  type := rfl
  unmarked := by
    refine ⟨rfl, ?_, by simp [startSide]⟩
    have := (and_twoPow_ne_zero_iff flags (i := 28) (by decide)).not
    rw [not_not, Bool.not_eq_true] at this
    exact this.1 hflags

theorem flags_eq_of_quiet (hp : Quiet p) (hq : Quiet q)
    (hlen : p.outcomes.length = q.outcomes.length) : p.flags = q.flags := by
  have hnone {s : Side} (hs : Quiet s) : s.flags = replicate s.outcomes.length none := by
    rw [eq_replicate_iff]
    refine ⟨length_map .., fun f hf => ?_⟩
    obtain ⟨o, ho, rfl⟩ := mem_map.1 hf
    exact hs.flags o ho
  rw [hnone hp, hnone hq, hlen]

theorem Quiet.stopsAfterDrop (hs : Quiet s) : s.StopsAfterDrop :=
  List.Pairwise.imp_of_mem (R := fun _ _ => True) (fun _ hb _ _ => hs.flags _ hb)
    (pairwise_of_forall fun _ _ => trivial)

/-- **When plain and Fake-TLS clients are treated alike.**  A plain client and a Fake-TLS client
that send the same packets in the same surroundings get the same flags on their requests, and are
both cut off after a dropped query, iff none of their queries ever finds a connection to a
middle-end. -/
theorem treated_alike_iff {cfg : ProxyConfig} {t : ExtTable} {id : ConnId} {flags : BitVec 32}
    {remote our : Endpoint} {es : List SideEvent} {p q : Side}
    (hfresh : getExtConnectionByInFd t id.fd = none) (hflags : flags &&& rpcFDropped = 0)
    (hp : run (sideStep cfg) (startSide false t id flags remote our) es = some p)
    (hq : run (sideStep cfg) (startSide true t id flags remote our) es = some q) :
    (p.flags = q.flags ∧ p.StopsAfterDrop ∧ q.StopsAfterDrop) ↔
      Along (sideStep cfg) MeetsNothing (startSide false t id flags remote our) es := by
  have hstart := paired_start hfresh hflags remote our
  constructor
  · rintro ⟨heq, -, -⟩
    exact meetsNothing_of_flags_eq hstart hp hq heq
  · intro hmeets
    have hkeep (x y : Side) (e : SideEvent) (x' y' : Side) (h : Paired x y)
        (hm : MeetsNothing x e) (hx : sideStep cfg x e = some x')
        (hy : sideStep cfg y e = some y') : Paired x' y' := paired_step h hm hx hy
    have hend : Paired p q := run_rel hkeep hstart hmeets hp hq
    exact ⟨flags_eq_of_quiet hend.plain hend.tls hend.inStep.count, hend.plain.stopsAfterDrop,
      hend.tls.stopsAfterDrop⟩

/-- A client in the padded transport. -/
def sampleSide (isTls : Bool) : Side :=
  startSide isTls .empty ⟨10, 1⟩ 0x28000000 ⟨1, [], 2⟩ ⟨3, [], 4⟩

theorem treated_alike_iff_noTarget :
    ∃ p q, run (sideStep sampleConfig) (sampleSide false)
        [.receive sampleQuery true true, .execute 0 noTarget] = some p ∧
      run (sideStep sampleConfig) (sampleSide true)
        [.receive sampleQuery true true, .execute 0 noTarget] = some q ∧
      p.outcomes = [.dropped] ∧ p.flags = q.flags ∧ p.StopsAfterDrop ∧ q.StopsAfterDrop := by
  obtain ⟨p, hp, hout⟩ : ∃ p, run (sideStep sampleConfig) (sampleSide false)
      [.receive sampleQuery true true, .execute 0 noTarget] = some p ∧ p.outcomes = [.dropped] := by
    decide +kernel
  obtain ⟨q, hq, -⟩ : ∃ q, run (sideStep sampleConfig) (sampleSide true)
      [.receive sampleQuery true true, .execute 0 noTarget] = some q ∧ q.outcomes = [.dropped] := by
    decide +kernel
  exact ⟨p, q, hp, hq, hout,
    (treated_alike_iff (by decide +kernel) (by decide) hp hq).2 (by decide +kernel)⟩

/-- The same two queries of a plain and of a Fake-TLS client.  When both find the middle-end, the
requests differ in the flag `0x1000`.  When the first is dropped, the plain client's second one is
refused, the Fake-TLS client's is forwarded. -/
theorem treated_differently :
    (run (sideStep sampleConfig) (sampleSide false)
        [.receive sampleQuery false true, .execute 0 oneMiddleEnd]).map Side.flags =
      some [some 0x20001000#32] ∧
    (run (sideStep sampleConfig) (sampleSide true)
        [.receive sampleQuery false true, .execute 0 oneMiddleEnd]).map Side.flags =
      some [some 0x20000000#32] ∧
    (run (sideStep sampleConfig) (sampleSide false)
        [.receive sampleQuery false true, .receive sampleQuery false true, .execute 0 noTarget,
          .execute 0 oneMiddleEnd]).map Side.outcomes = some [.dropped, .refused] ∧
    (run (sideStep sampleConfig) (sampleSide true)
        [.receive sampleQuery false true, .receive sampleQuery false true, .execute 0 noTarget,
          .execute 0 oneMiddleEnd]).map Side.flags = some [none, some 0x20000000#32] := by
  decide +kernel

end Mtbolt.Mtproto
