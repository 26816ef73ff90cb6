import Mtbolt.Mtproto.Forward
import Mtbolt.Mtproto.MiddleEnd

/-!
# Sessions and the life of their clients

A client's packets reach the engine thread as jobs of their own, and so does the notification that
its connection was closed; jobs and notifications wait in different queues.  The descriptor of a
closed connection is given back to the system when the last job and the last notification that
refer to the connection are gone, and the next client may get it.

`Engine` is the engine thread with these two queues, the table of sessions, and the clients that
were ever accepted.  The order in which it takes queued work is part of the run.
-/

namespace Mtbolt.Mtproto

open EventRun Function Option List

/-! ### The system -/

/-- A client: its connection, whether it was closed, whether its close notification has been
handled, and whether its descriptor was given back. -/
structure EngineClient where
  c : QueryClient
  closed : Bool
  closeHandled : Bool
  freed : Bool
  deriving DecidableEq, Repr

def EngineClient.close (x : EngineClient) : EngineClient := { x with closed := true }

def EngineClient.handleClose (x : EngineClient) : EngineClient := { x with closeHandled := true }

def EngineClient.free (x : EngineClient) : EngineClient := { x with freed := true }

def EngineClient.setFlags (x : EngineClient) (flags : BitVec 32) : EngineClient :=
  { x with c := { x.c with flags := flags } }

/-- The clients so far are `clients 0 .. clients (next - 1)`.  `jobs` are the queued packets, each
with its client, and `notifications` the clients whose close notification waits. -/
structure Engine where
  tbl : ExtTable
  clients : ℕ → EngineClient
  next : ℕ
  jobs : List (ℕ × ExecJob)
  notifications : List ℕ

def Engine.id (s : Engine) (i : ℕ) : ConnId := (s.clients i).c.id

def Engine.setClient (s : Engine) (i : ℕ) (x : EngineClient) : Engine :=
  { s with clients := update s.clients i x }

/-- What can happen.  `accept` is a new client; `conn_generation`, an `int` that wraps, has not come
back to the generation of an earlier one.  `free` is the end of a connection to which nothing
refers any more; `execute` is any one of the queued packets; `notify` is the first notification;
`packet` and `disconnect` come from the middle-ends. -/
inductive EngineEvent
  | accept (c : QueryClient)
  | receive (i : ℕ) (data : List UInt8) (quickack roomy : Bool)
  | close (i : ℕ)
  | free (i : ℕ)
  | execute (k : ℕ) (env : QueryEnv)
  | notify
  | packet (env : EngineEnv) (d : ConnId) (r : AckRandom) (msg : List UInt8)
  | disconnect (outFd : ℕ)

/-- A descriptor is not in use by a client. -/
def Engine.fdFree (s : Engine) (fd : ℕ) : Bool :=
  (List.range s.next).all fun i => (s.clients i).freed || (s.id i).fd ≠ fd

/-- A generation has not been issued to a client. -/
def Engine.genNew (s : Engine) (gen : BitVec 32) : Bool :=
  (List.range s.next).all fun i => (s.id i).gen ≠ gen

/-- Nothing refers to the connection of the client `i`. -/
def Engine.unreferenced (s : Engine) (i : ℕ) : Bool :=
  i ∉ s.notifications && s.jobs.all fun job => job.1 ≠ i

/-- A new client. -/
def Engine.addClient (s : Engine) (c : QueryClient) : Engine :=
  { s with
    clients := update s.clients s.next ⟨c, false, false, false⟩
    next := s.next + 1 }

/-- The parser has a packet of the client `i`. -/
def Engine.receive (s : Engine) (i : ℕ) (data : List UInt8) (quickack roomy : Bool) : Engine :=
  let x := (s.clients i).setFlags (setQuickack (s.clients i).c.flags quickack)
  { s.setClient i x with
    jobs := s.jobs ++ (extRpcsExecute x.c data roomy).toList.map fun job => (i, job) }

/-- `do_rpcs_execute` for the `k`-th queued packet, which is one of the client `i`, has led to
`r`. -/
def Engine.executed (s : Engine) (k i : ℕ) (r : ForwardResult) : Engine :=
  { s.setClient i ((s.clients i).setFlags r.flags) with
    tbl := r.tbl
    jobs := s.jobs.eraseIdx k }

/-- The connection of the client `i` is closed, and the notification of it is queued. -/
def Engine.close (s : Engine) (i : ℕ) : Engine :=
  { s.setClient i (s.clients i).close with notifications := s.notifications ++ [i] }

/-- `mtproto_ext_rpc_close` for the client `i`, with the notifications `rest` behind it. -/
def Engine.handleClose (s : Engine) (i : ℕ) (rest : List ℕ) : Engine :=
  { s.setClient i (s.clients i).handleClose with
    tbl := closeSession s.tbl (s.id i).fd
    notifications := rest }

def engineStep (cfg : ProxyConfig) (s : Engine) : EngineEvent → Option Engine
  | .accept c =>
    if s.genNew c.id.gen ∧ s.fdFree c.id.fd then some (s.addClient c) else none
  | .receive i data quickack roomy =>
    if i < s.next ∧ (s.clients i).closed = false then some (s.receive i data quickack roomy)
    else none
  | .close i =>
    if i < s.next ∧ (s.clients i).closed = false then some (s.close i) else none
  | .free i =>
    if i < s.next ∧ (s.clients i).closed = true ∧ s.unreferenced i then
      some (s.setClient i (s.clients i).free)
    else none
  | .execute k env =>
    (s.jobs[k]?).bind fun job =>
      (forwardMtprotoPacket cfg env s.tbl (s.clients job.1).c job.2.data job.2.rpcFlags).map
        (s.executed k job.1)
  | .notify =>
    match s.notifications with
    | [] => none
    | i :: rest => some (s.handleClose i rest)
  | .packet env d r msg =>
    (processClientPacket env s.tbl d r msg).map fun p => { s with tbl := p.1 }
  | .disconnect outFd => some { s with tbl := removeAllByOutFd s.tbl outFd }

/-- The engine before the first client; the value of `clients` there does not matter. -/
def Engine.start : Engine where
  tbl := .empty
  clients := fun _ => ⟨⟨⟨0, 0⟩, .extServer, 0, ⟨0, [], 0⟩, ⟨0, [], 0⟩⟩, false, false, false⟩
  next := 0
  jobs := []
  notifications := []

/-- A packet that runs although its client's close notification has been handled is no query, or
finds no connection. -/
def ForwardsNothingLate (s : Engine) : EngineEvent → Prop
  | .execute k env => ∀ job, s.jobs[k]? = some job → (s.clients job.1).closeHandled = true →
      acceptedPacket job.2.data = none ∨ chooseConnection env = none
  | _ => True

instance ForwardsNothingLate.decidable (s : Engine) (e : EngineEvent) :
    Decidable (ForwardsNothingLate s e) := by
  unfold ForwardsNothingLate
  split
  · exact inferInstanceAs (Decidable (∀ job ∈ s.jobs[_]?, _))
  · infer_instance

/-! ### Descriptors and generations -/

theorem view_setClient {α : Type*} (v : EngineClient → α) (s : Engine) (i : ℕ) (x : EngineClient)
    (h : v x = v (s.clients i)) (j : ℕ) : v ((s.setClient i x).clients j) = v (s.clients j) := by
  by_cases hj : j = i
  · subst hj
    show v (update s.clients j x j) = v (s.clients j)
    rw [update_self, h]
  · show v (update s.clients i x j) = v (s.clients j)
    rw [update_of_ne hj]

/-- The bookkeeping of clients: generations tell all of them apart, descriptors those that are not
freed, a closed client waits for its notification or has had it, and what is queued refers to
clients that are not freed. -/
structure Engine.Inv (s : Engine) : Prop where
  gen_inj : ∀ i < s.next, ∀ j < s.next, (s.id i).gen = (s.id j).gen → i = j
  fd_inj : ∀ i < s.next, ∀ j < s.next, (s.clients i).freed = false → (s.clients j).freed = false →
    (s.id i).fd = (s.id j).fd → i = j
  freed : ∀ i < s.next, (s.clients i).freed = true →
    (s.clients i).closed = true ∧ (s.clients i).closeHandled = true
  closing : ∀ i < s.next, (s.clients i).closed = true →
    (s.clients i).closeHandled = true ∨ i ∈ s.notifications
  notified : ∀ i ∈ s.notifications, i < s.next ∧ (s.clients i).freed = false
  jobs : ∀ job ∈ s.jobs, job.1 < s.next ∧ (s.clients job.1).freed = false

theorem inv_start : Engine.start.Inv where
  gen_inj := by simp [Engine.start]
  fd_inj := by simp [Engine.start]
  freed := by simp [Engine.start]
  closing := by simp [Engine.start]
  notified := by simp [Engine.start]
  jobs := by simp [Engine.start]

variable {s s' : Engine} {i : ℕ} {cfg : ProxyConfig}

section

variable (h : s.Inv)
include h

theorem Engine.Inv.marks (hnext : s'.next = s.next) (hid : ∀ i, s'.id i = s.id i)
    (hkept : ∀ i, (s'.clients i).freed = false → (s.clients i).freed = false)
    (hfreed : ∀ i < s.next, (s'.clients i).freed = true →
      (s'.clients i).closed = true ∧ (s'.clients i).closeHandled = true)
    (hclosing : ∀ i < s.next, (s'.clients i).closed = true →
      (s'.clients i).closeHandled = true ∨ i ∈ s'.notifications)
    (hnotified : ∀ i ∈ s'.notifications, i < s.next ∧ (s'.clients i).freed = false)
    (hjobs : ∀ job ∈ s'.jobs, job.1 < s.next ∧ (s'.clients job.1).freed = false) : s'.Inv where
  gen_inj := by simpa only [hnext, hid] using h.gen_inj
  fd_inj := by
    intro i hi j hj hfi hfj heq
    rw [hnext] at hi hj
    rw [hid, hid] at heq
    exact h.fd_inj i hi j hj (hkept i hfi) (hkept j hfj) heq
  freed := by simpa only [hnext] using hfreed
  closing := by simpa only [hnext] using hclosing
  notified := by simpa only [hnext] using hnotified
  jobs := by simpa only [hnext] using hjobs

theorem Engine.Inv.congr (hnext : s'.next = s.next) (hid : ∀ i, s'.id i = s.id i)
    (hclosed : ∀ i, (s'.clients i).closed = (s.clients i).closed)
    (hhandled : ∀ i, (s'.clients i).closeHandled = (s.clients i).closeHandled)
    (hfreed : ∀ i, (s'.clients i).freed = (s.clients i).freed)
    (hnotif : s'.notifications = s.notifications)
    (hjobs : ∀ job ∈ s'.jobs, job.1 < s.next ∧ (s.clients job.1).freed = false) : s'.Inv := by
  refine h.marks hnext hid ?_ ?_ ?_ ?_ ?_
  · intro i hi
    rwa [hfreed] at hi
  · simpa only [hclosed, hhandled, hfreed] using h.freed
  · simpa only [hclosed, hhandled, hnotif] using h.closing
  · simpa only [hfreed, hnotif] using h.notified
  · simpa only [hfreed] using hjobs

theorem inv_addClient {c : QueryClient} (hgen : s.genNew c.id.gen = true)
    (hfd : s.fdFree c.id.fd = true) : (s.addClient c).Inv := by
  have hnew : (s.addClient c).clients s.next = ⟨c, false, false, false⟩ := update_self ..
  have hold (i : ℕ) (hi : i < s.next) : (s.addClient c).clients i = s.clients i :=
    update_of_ne hi.ne ..
  have hid (i : ℕ) (hi : i < s.next) : (s.addClient c).id i = s.id i := by
    rw [Engine.id, hold i hi, Engine.id]
  have hidnew : (s.addClient c).id s.next = c.id := by rw [Engine.id, hnew]
  have hcases (i : ℕ) (hi : i < (s.addClient c).next) : i < s.next ∨ i = s.next :=
    Nat.lt_succ_iff_lt_or_eq.1 hi
  have hunused (i : ℕ) (hi : i < s.next) (hfreed : (s.clients i).freed = false) :
      (s.id i).fd ≠ c.id.fd := by
    have := all_eq_true.1 hfd i (mem_range.2 hi)
    simpa [hfreed] using this
  have hissued (i : ℕ) (hi : i < s.next) : (s.id i).gen ≠ c.id.gen := by
    simpa using all_eq_true.1 hgen i (mem_range.2 hi)
  constructor
  · intro i hi j hj heq
    rcases hcases i hi with hi | rfl <;> rcases hcases j hj with hj | rfl
    · rw [hid i hi, hid j hj] at heq
      exact h.gen_inj i hi j hj heq
    · rw [hid i hi, hidnew] at heq
      exact absurd heq (hissued i hi)
    · rw [hid j hj, hidnew] at heq
      exact absurd heq.symm (hissued j hj)
    · rfl
  · intro i hi j hj hfi hfj heq
    rcases hcases i hi with hi | rfl <;> rcases hcases j hj with hj | rfl
    · rw [hold i hi] at hfi
      rw [hold j hj] at hfj
      rw [hid i hi, hid j hj] at heq
      exact h.fd_inj i hi j hj hfi hfj heq
    · rw [hold i hi] at hfi
      rw [hid i hi, hidnew] at heq
      exact absurd heq (hunused i hi hfi)
    · rw [hold j hj] at hfj
      rw [hid j hj, hidnew] at heq
      exact absurd heq.symm (hunused j hj hfj)
    · rfl
  · intro i hi hfreed
    rcases hcases i hi with hi | rfl
    · rw [hold i hi] at hfreed ⊢
      exact h.freed i hi hfreed
    · rw [hnew] at hfreed
      cases hfreed
  · intro i hi hclosed
    rcases hcases i hi with hi | rfl
    · rw [hold i hi] at hclosed ⊢
      exact h.closing i hi hclosed
    · rw [hnew] at hclosed
      cases hclosed
  · intro i hi
    obtain ⟨hlt, hfreed⟩ := h.notified i hi
    rw [hold i hlt]
    exact ⟨Nat.lt_succ_of_lt hlt, hfreed⟩
  · intro job hjob
    obtain ⟨hlt, hfreed⟩ := h.jobs job hjob
    rw [hold job.1 hlt]
    exact ⟨Nat.lt_succ_of_lt hlt, hfreed⟩

theorem Engine.Inv.not_freed (hi : i < s.next) (hopen : (s.clients i).closed = false) :
    (s.clients i).freed = false := by
  by_contra hne
  rw [Bool.not_eq_false] at hne
  rw [(h.freed i hi hne).1] at hopen
  cases hopen

theorem inv_receive (hi : i < s.next) (hopen : (s.clients i).closed = false) (data : List UInt8)
    (quickack roomy : Bool) : (s.receive i data quickack roomy).Inv := by
  refine h.congr rfl (view_setClient (·.c.id) s i _ rfl) (view_setClient (·.closed) s i _ rfl)
    (view_setClient (·.closeHandled) s i _ rfl) (view_setClient (·.freed) s i _ rfl) rfl
    fun job hjob => ?_
  rcases mem_append.1 hjob with hjob | hjob
  · exact h.jobs job hjob
  · obtain ⟨j, -, rfl⟩ := mem_map.1 hjob
    exact ⟨hi, h.not_freed hi hopen⟩

theorem inv_executed (k i : ℕ) (r : ForwardResult) : (s.executed k i r).Inv :=
  h.congr rfl (view_setClient (·.c.id) s i _ rfl) (view_setClient (·.closed) s i _ rfl)
    (view_setClient (·.closeHandled) s i _ rfl) (view_setClient (·.freed) s i _ rfl) rfl
    fun job hjob => h.jobs job (mem_of_mem_eraseIdx hjob)

theorem inv_close (hi : i < s.next) (hopen : (s.clients i).closed = false) : (s.close i).Inv := by
  have hfreed (j : ℕ) : ((s.close i).clients j).freed = (s.clients j).freed :=
    view_setClient (·.freed) s i (s.clients i).close rfl j
  have hhandled (j : ℕ) : ((s.close i).clients j).closeHandled = (s.clients j).closeHandled :=
    view_setClient (·.closeHandled) s i (s.clients i).close rfl j
  have hother (j : ℕ) (hj : j ≠ i) : (s.close i).clients j = s.clients j := update_of_ne hj ..
  refine h.marks rfl (view_setClient (·.c.id) s i (s.clients i).close rfl)
    (fun j hj => hfreed j ▸ hj) (fun j hj hjfreed => ?_) (fun j hj hclosed => ?_)
    (fun j hj => ?_) fun job hjob => ?_
  · rw [hfreed] at hjfreed
    have hne : j ≠ i := by
      rintro rfl
      rw [h.not_freed hi hopen] at hjfreed
      cases hjfreed
    rw [hother j hne]
    exact h.freed j hj hjfreed
  · by_cases hji : j = i
    · exact .inr (mem_append_right _ (mem_singleton.2 hji))
    · rw [hother j hji] at hclosed
      rw [hhandled]
      exact (h.closing j hj hclosed).imp_right (mem_append_left _)
  · rw [hfreed]
    rcases mem_append.1 hj with hj | hj
    · exact h.notified j hj
    · rw [mem_singleton.1 hj]
      exact ⟨hi, h.not_freed hi hopen⟩
  · rw [hfreed]
    exact h.jobs job hjob

theorem inv_free (hi : i < s.next) (hclosed : (s.clients i).closed = true)
    (hunref : s.unreferenced i = true) : (s.setClient i (s.clients i).free).Inv := by
  obtain ⟨hnotif, hjobs⟩ : i ∉ s.notifications ∧ ∀ job ∈ s.jobs, job.1 ≠ i := by
    simpa [Engine.unreferenced] using hunref
  have hself : (s.setClient i (s.clients i).free).clients i = (s.clients i).free := update_self ..
  have hother (j : ℕ) (hj : j ≠ i) :
      (s.setClient i (s.clients i).free).clients j = s.clients j := update_of_ne hj ..
  refine h.marks rfl (view_setClient (·.c.id) s i (s.clients i).free rfl) (fun j hj => ?_)
    (fun j hj hjfreed => ?_) (fun j hj hjclosed => ?_) (fun j hj => ?_) fun job hjob => ?_
  · by_cases hji : j = i
    · subst hji
      rw [hself] at hj
      cases hj
    · rwa [hother j hji] at hj
  · by_cases hji : j = i
    · -- the notification of a closed client that is in no queue has been handled
      subst hji
      rw [hself]
      exact ⟨hclosed, (h.closing j hi hclosed).resolve_right hnotif⟩
    · rw [hother j hji] at hjfreed ⊢
      exact h.freed j hj hjfreed
  · have hkeep := view_setClient (fun x => (x.closed, x.closeHandled)) s i (s.clients i).free rfl j
    obtain ⟨hc, hh⟩ := Prod.mk.inj hkeep
    rw [hc] at hjclosed
    rw [hh]
    exact h.closing j hj hjclosed
  · rw [hother j fun hji => hnotif (hji ▸ hj)]
    exact h.notified j hj
  · rw [hother job.1 (hjobs job hjob)]
    exact h.jobs job hjob

theorem inv_handleClose {rest : List ℕ} (hnotif : s.notifications = i :: rest) :
    (s.handleClose i rest).Inv := by
  have hfreed (j : ℕ) : ((s.handleClose i rest).clients j).freed = (s.clients j).freed :=
    view_setClient (·.freed) s i (s.clients i).handleClose rfl j
  have hclosed (j : ℕ) : ((s.handleClose i rest).clients j).closed = (s.clients j).closed :=
    view_setClient (·.closed) s i (s.clients i).handleClose rfl j
  have hself : (s.handleClose i rest).clients i = (s.clients i).handleClose := update_self ..
  have hother (j : ℕ) (hj : j ≠ i) : (s.handleClose i rest).clients j = s.clients j :=
    update_of_ne hj ..
  have hhandled (j : ℕ) (hj : (s.clients j).closeHandled = true) :
      ((s.handleClose i rest).clients j).closeHandled = true := by
    by_cases hji : j = i
    · subst hji
      rw [hself]
      rfl
    · rw [hother j hji]
      exact hj
  refine h.marks rfl (view_setClient (·.c.id) s i (s.clients i).handleClose rfl)
    (fun j hj => hfreed j ▸ hj) (fun j hj hjfreed => ?_) (fun j hj hjclosed => ?_)
    (fun j hj => ?_) fun job hjob => ?_
  · rw [hfreed] at hjfreed
    obtain ⟨hc, hh⟩ := h.freed j hj hjfreed
    exact ⟨(hclosed j).trans hc, hhandled j hh⟩
  · rw [hclosed] at hjclosed
    rcases h.closing j hj hjclosed with hh | hmem
    · exact .inl (hhandled j hh)
    · rw [hnotif] at hmem
      rcases mem_cons.1 hmem with rfl | hmem
      · rw [hself]
        exact .inl rfl
      · exact .inr hmem
  · rw [hfreed]
    exact h.notified j (hnotif ▸ mem_cons_of_mem i hj)
  · rw [hfreed]
    exact h.jobs job hjob

theorem inv_step {e : EngineEvent} (hstep : engineStep cfg s e = some s') : s'.Inv := by
  cases e with
  | accept c =>
    simp only [engineStep] at hstep
    split_ifs at hstep with hen
    cases hstep
    exact inv_addClient h hen.1 hen.2
  | receive i data quickack roomy =>
    simp only [engineStep] at hstep
    split_ifs at hstep with hen
    cases hstep
    exact inv_receive h hen.1 hen.2 data quickack roomy
  | close i =>
    simp only [engineStep] at hstep
    split_ifs at hstep with hen
    cases hstep
    exact inv_close h hen.1 hen.2
  | free i =>
    simp only [engineStep] at hstep
    split_ifs at hstep with hen
    cases hstep
    exact inv_free h hen.1 hen.2.1 hen.2.2
  | execute k env =>
    obtain ⟨job, -, hstep⟩ := bind_eq_some_iff.1 hstep
    obtain ⟨r, -, rfl⟩ := map_eq_some_iff.1 hstep
    exact inv_executed h k job.1 r
  | notify =>
    simp only [engineStep] at hstep
    split at hstep
    · cases hstep
    · next i rest hnotif =>
      cases hstep
      exact inv_handleClose h hnotif
  | packet env d r msg =>
    obtain ⟨p, -, rfl⟩ := map_eq_some_iff.1 hstep
    exact { h with }
  | disconnect outFd =>
    cases hstep
    exact { h with }

end

/-! ### Sessions and their owners -/

/-- Every session belongs to a client whose close notification has not been handled. -/
def Engine.Owned (s : Engine) : Prop :=
  ∀ e ∈ s.tbl.entries, ∃ i < s.next, s.id i = e.inn ∧ (s.clients i).closeHandled = false

theorem Engine.Owned.of_subset (h : s.Owned) (hnext : s.next ≤ s'.next)
    (hsub : s'.tbl.entries ⊆ s.tbl.entries)
    (hkeep : ∀ i < s.next, (∃ e ∈ s'.tbl.entries, s.id i = e.inn) →
      s'.id i = s.id i ∧ (s'.clients i).closeHandled = (s.clients i).closeHandled) :
    s'.Owned := by
  intro e he
  obtain ⟨i, hi, hid, hopen⟩ := h e (hsub he)
  obtain ⟨hid', hopen'⟩ := hkeep i hi ⟨e, he, hid⟩
  exact ⟨i, hi.trans_le hnext, hid'.trans hid, hopen'.trans hopen⟩

theorem Engine.Owned.setClient (h : s.Owned) {x : EngineClient} (hid : x.c.id = s.id i)
    (hhandled : x.closeHandled = (s.clients i).closeHandled) : (s.setClient i x).Owned :=
  h.of_subset le_rfl (List.Subset.refl _) fun j _ _ =>
    ⟨view_setClient (·.c.id) s i x hid j, view_setClient (·.closeHandled) s i x hhandled j⟩

/-- The session under the descriptor of a client that is not freed is its own. -/
theorem Engine.Owned.inn_eq (h : s.Owned) (hinv : s.Inv) (hi : i < s.next)
    (hfreed : (s.clients i).freed = false) {e : ExtConnection} (he : e ∈ s.tbl.entries)
    (hfd : e.inn.fd = (s.id i).fd) : e.inn = s.id i ∧ (s.clients i).closeHandled = false := by
  obtain ⟨j, hj, hid, hopen⟩ := h e he
  have hjfreed : (s.clients j).freed = false := by
    by_contra hne
    rw [Bool.not_eq_false] at hne
    rw [(hinv.freed j hj hne).2] at hopen
    cases hopen
  obtain rfl : j = i := hinv.fd_inj j hj i hi hjfreed hfreed (by rw [hid, hfd])
  exact ⟨hid.symm, hopen⟩

theorem owned_executed {env : QueryEnv} (h : s.Owned) (hinv : s.Inv) {k : ℕ} {job : ℕ × ExecJob}
    {r : ForwardResult} (hjob : job ∈ s.jobs)
    (hlate : (s.clients job.1).closeHandled = true →
      acceptedPacket job.2.data = none ∨ chooseConnection env = none)
    (hr : forwardMtprotoPacket cfg env s.tbl (s.clients job.1).c job.2.data job.2.rpcFlags =
      some r) :
    (s.executed k job.1 r).Owned := by
  obtain ⟨hi, hfreed⟩ := hinv.jobs job hjob
  have hid (i : ℕ) : (s.executed k job.1 r).id i = s.id i :=
    view_setClient (·.c.id) s job.1 ((s.clients job.1).setFlags r.flags) rfl i
  have hhandled (i : ℕ) :
      ((s.executed k job.1 r).clients i).closeHandled = (s.clients i).closeHandled :=
    view_setClient (·.closeHandled) s job.1 ((s.clients job.1).setFlags r.flags) rfl i
  intro e he
  simp only [hid, hhandled]
  by_cases hclosed : (s.clients job.1).closeHandled = true
  · -- the client has no session, and the packet does not open one
    have hfresh : getExtConnectionByInFd s.tbl (s.clients job.1).c.id.fd = none := by
      rw [getExtConnectionByInFd_eq_none_iff]
      intro x hx hfd
      rw [(h.inn_eq hinv hi hfreed hx hfd).2] at hclosed
      cases hclosed
    have htbl := (forward_nowhere hfresh (hlate hclosed) hr).1
    change e ∈ r.tbl.entries at he
    rw [htbl] at he
    exact h e he
  · rcases mem_forwardMtprotoPacket hr he with ⟨x, hx, hinn⟩ | hinn
    · rw [hinn]
      exact h x hx
    · exact ⟨job.1, hi, hinn.symm, Bool.not_eq_true _ ▸ hclosed⟩

theorem owned_handleClose (h : s.Owned) {rest : List ℕ} : (s.handleClose i rest).Owned := by
  refine h.of_subset le_rfl (fun x hx => (mem_closeSession.1 hx).1) fun j _ hsession => ?_
  obtain ⟨e, he, hid⟩ := hsession
  -- sessions under the descriptor of `i` are gone
  have hne : j ≠ i := by
    rintro rfl
    exact (mem_closeSession.1 he).2 (by rw [← hid])
  have hother : (s.handleClose i rest).clients j = s.clients j := update_of_ne hne ..
  rw [Engine.id, hother]
  exact ⟨rfl, rfl⟩

theorem entries_processClientPacket {env : EngineEnv} {t t' : ExtTable} {d : ConnId}
    {r : AckRandom} {msg : List UInt8} {es : List Effect}
    (h : processClientPacket env t d r msg = some (t', es)) : t'.entries ⊆ t.entries := by
  have hclose (outConnId : BitVec 64) : (closeExt env t outConnId).1.entries ⊆ t.entries := by
    unfold closeExt
    split
    · exact List.Subset.refl _
    · exact fun x hx => (mem_removeExtConnection.1 hx).1
  unfold processClientPacket at h
  dsimp only at h
  split_ifs at h
  · cases h
    exact List.Subset.refl _
  · obtain ⟨x, -, heq⟩ := map_eq_some_iff.1 h
    cases heq
    exact List.Subset.refl _
  · cases h
    exact List.Subset.refl _
  · obtain ⟨x, -, heq⟩ := map_eq_some_iff.1 h
    cases heq
    exact List.Subset.refl _
  · cases h
    exact List.Subset.refl _
  · have := hclose (Words.le64 (msg.drop 4))
    rw [some.inj h] at this
    exact this
  · cases h
    exact List.Subset.refl _
  · cases h
    exact List.Subset.refl _

theorem owned_step {e : EngineEvent} (h : s.Owned) (hinv : s.Inv) (hlate : ForwardsNothingLate s e)
    (hstep : engineStep cfg s e = some s') : s'.Owned := by
  cases e with
  | accept c =>
    simp only [engineStep] at hstep
    split_ifs at hstep
    cases hstep
    refine h.of_subset (Nat.le_succ _) (List.Subset.refl _) fun i hi _ => ?_
    have hold : (s.addClient c).clients i = s.clients i := update_of_ne hi.ne ..
    rw [Engine.id, hold]
    exact ⟨rfl, rfl⟩
  | receive | close | free =>
    simp only [engineStep] at hstep
    split_ifs at hstep
    cases hstep
    exact h.setClient rfl rfl
  | execute k env =>
    obtain ⟨job, hjob, hstep⟩ := bind_eq_some_iff.1 hstep
    obtain ⟨r, hr, rfl⟩ := map_eq_some_iff.1 hstep
    exact owned_executed h hinv (mem_of_getElem? hjob) (hlate job hjob) hr
  | notify =>
    simp only [engineStep] at hstep
    split at hstep
    · cases hstep
    · cases hstep
      exact owned_handleClose h
  | packet env d r msg =>
    obtain ⟨⟨t, es⟩, hp, rfl⟩ := map_eq_some_iff.1 hstep
    exact h.of_subset le_rfl (entries_processClientPacket hp) fun _ _ _ => ⟨rfl, rfl⟩
  | disconnect outFd =>
    cases hstep
    exact h.of_subset le_rfl (fun _ => mem_of_mem_removeAllByOutFd) fun _ _ _ => ⟨rfl, rfl⟩

/-- **Sessions end with their clients.**  In every run in which no packet opens a session after its
client's close notification, no session of a client is left or made again once the notification has
been handled, and a client that uses a descriptor finds its own session under it or none. -/
theorem sessions_end_with_client {cfg : ProxyConfig} {es : List EngineEvent} {s : Engine}
    (hlate : Along (engineStep cfg) ForwardsNothingLate .start es)
    (hrun : run (engineStep cfg) .start es = some s) :
    (∀ i < s.next, (s.clients i).closeHandled = true → ∀ e ∈ s.tbl.entries, e.inn ≠ s.id i) ∧
      ∀ i < s.next, (s.clients i).freed = false →
        ∀ e, getExtConnectionByInFd s.tbl (s.id i).fd = some e → e.inn = s.id i := by
  obtain ⟨hinv, howned⟩ : s.Inv ∧ s.Owned :=
    run_invariant (I := fun s => s.Inv ∧ s.Owned)
      (fun _ _ _ h hl hstep => ⟨inv_step h.1 hstep, owned_step h.2 h.1 hl hstep⟩)
      ⟨inv_start, fun _ he => by cases he⟩ hlate hrun
  constructor
  · intro i hi hhandled e he hinn
    obtain ⟨j, hj, hid, hopen⟩ := howned e he
    obtain rfl : j = i := hinv.gen_inj j hj i hi (by rw [hid, hinn])
    rw [hhandled] at hopen
    cases hopen
  · intro i hi hfreed e hget
    obtain ⟨he, hfd⟩ := getExtConnectionByInFd_eq_some_iff.1 hget
    exact (howned.inn_eq hinv hi hfreed he hfd).1

/-- A client with descriptor 10. -/
def sampleClient (gen : BitVec 32) : QueryClient :=
  ⟨⟨10, gen⟩, .extServer, 0x28000000, ⟨1, [], 2⟩, ⟨3, [], 4⟩⟩

/-- Two clients one after the other under the same descriptor, each with a session. -/
def oneAfterTheOther : List EngineEvent :=
  [.accept (sampleClient 1), .receive 0 sampleQuery false true, .execute 0 oneMiddleEnd, .close 0,
    .notify, .free 0, .accept (sampleClient 2), .receive 1 sampleQuery false true,
    .execute 0 oneMiddleEnd]

theorem sessions_end_with_client_oneAfterTheOther :
    ∃ s, run (engineStep sampleConfig) .start oneAfterTheOther = some s ∧ s.next = 2 ∧
      (s.clients 0).closeHandled = true ∧ s.tbl.entries.map ExtConnection.inn = [⟨10, 2⟩] ∧
      (∀ i < s.next, (s.clients i).closeHandled = true → ∀ e ∈ s.tbl.entries, e.inn ≠ s.id i) ∧
      ∀ i < s.next, (s.clients i).freed = false →
        ∀ e, getExtConnectionByInFd s.tbl (s.id i).fd = some e → e.inn = s.id i := by
  obtain ⟨s, hs, hnext, hhandled, hentries⟩ : ∃ s,
      run (engineStep sampleConfig) .start oneAfterTheOther = some s ∧ s.next = 2 ∧
        (s.clients 0).closeHandled = true ∧ s.tbl.entries.map ExtConnection.inn = [⟨10, 2⟩] := by
    decide +kernel
  exact ⟨s, hs, hnext, hhandled, hentries, sessions_end_with_client (by decide +kernel) hs⟩

/-- The close notification of a client runs before its queued query.  The query opens a session
again; the descriptor is given to the next client, which finds that session under it. -/
theorem session_outlives_client :
    (run (engineStep sampleConfig) .start
      [.accept (sampleClient 1), .receive 0 sampleQuery false true, .close 0, .notify,
        .execute 0 oneMiddleEnd, .free 0, .accept (sampleClient 2)]).any (fun s =>
      (s.clients 0).closeHandled && (s.clients 0).freed && !(s.clients 1).freed &&
        (getExtConnectionByInFd s.tbl (s.id 1).fd).any fun e =>
          e.inn = s.id 0 && s.id 0 ≠ s.id 1) = true := by
  decide +kernel

end Mtbolt.Mtproto
