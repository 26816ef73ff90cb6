import Mtbolt.Lib.EventRun
import Mtbolt.Net.EventTimers

/-!
# Job timers

A job sets its timer in whatever thread it runs (`jobs.c`).  In the thread that has the timer in its
heap the change is made at once; any other thread writes the time down and queues the job to that
thread's timer manager.  A timer that fires sends its alarm only if its time has not changed since.
-/

namespace Mtbolt.Jobs

open Function EventRun List Net Option

/-! ### The functions -/

variable {ι α : Type*} [DecidableEq ι] [LinearOrder α] [Zero α]

/-- The timers of one timer manager, with `wakeup_time` and `real_wakeup_time` of each.  A job whose
time another thread has written is in `pushing` until it is in the manager's queue `mpq`.  `alarm`
says which jobs were sent `JS_ALARM` and have not handled it, and `refs` counts the references to a
job that the heap and the queue hold. -/
structure TimerManager (ι α : Type*) where
  et : EtHeap ι
  wakeupTime : ι → α
  realWakeupTime : ι → α
  pushing : List ι
  mpq : List ι
  alarm : ι → Bool
  refs : ι → ℤ

/-- `job_incref` and `job_decref`. -/
def TimerManager.addRef (m : TimerManager ι α) (job : ι) (n : ℤ) : TimerManager ι α :=
  { m with refs := update m.refs job (m.refs job + n) }

/-- `do_immediate_timer_insert`; `none` here and below when an assertion fails. -/
def doImmediateTimerInsert (m : TimerManager ι α) (job : ι) : Option (TimerManager ι α) :=
  let active := 0 < m.et.hIdx job
  let r := m.realWakeupTime job
  if 0 < r then
    let w := update m.wakeupTime job r
    (insertEventTimer w m.et job).map fun et =>
      { m with et, wakeupTime := w }.addRef job (if active then 0 else 1)
  else
    let w := update m.wakeupTime job 0
    (removeEventTimer w m.et job).map fun et =>
      { m with et, wakeupTime := w }.addRef job (if active then -1 else 0)

/-- `job_timer_insert` in the manager's thread, or in another one up to the push. -/
def jobTimerInsert (m : TimerManager ι α) (here : Bool) (job : ι) (timeout : α) :
    Option (TimerManager ι α) :=
  if m.realWakeupTime job = timeout then some m
  else
    let m := { m with realWakeupTime := update m.realWakeupTime job timeout }
    if here then doImmediateTimerInsert m job else some { m with pushing := job :: m.pushing }

/-- The push at the end of `job_timer_insert`. -/
def mpqPush (m : TimerManager ι α) (job : ι) : TimerManager ι α :=
  if job ∈ m.pushing then
    { m with pushing := m.pushing.erase job, mpq := m.mpq ++ [job] }.addRef job 1
  else m

/-- A pass of the loop of `do_timer_manager_job`. -/
def managerPass (m : TimerManager ι α) : Option (TimerManager ι α) :=
  match m.mpq with
  | [] => some m
  | job :: mpq => (doImmediateTimerInsert { m with mpq } job).map (·.addRef job (-1))

/-- A pass of the loop of `thread_run_timers`.  `job_timer_wakeup_gateway` passes the heap's
reference on with the signal, or gives it up. -/
def firePass (m : TimerManager ι α) : Option (TimerManager ι α) :=
  let job := m.et.heap 1
  if m.et.hIdx job = 1 then
    (removeEventTimer m.wakeupTime m.et job).map fun et =>
      { m with
        et
        alarm := if m.wakeupTime job = m.realWakeupTime job then update m.alarm job true
          else m.alarm }.addRef job (-1)
  else none

/-- `thread_run_timers`, at most `fuel` passes, with the timers that it fires. -/
def threadRunTimers (now : α) : ℕ → TimerManager ι α → Option (TimerManager ι α × List ι)
  | 0, _ => none
  | fuel + 1, m =>
    if 0 < m.et.size ∧ m.wakeupTime (m.et.heap 1) ≤ now then
      (firePass m).bind fun m' => (threadRunTimers now fuel m').map fun r =>
        (r.1, m.et.heap 1 :: r.2)
    else some (m, [])

/-- A job handles `JS_ALARM`: `job_timer_check`. -/
def jobTimerCheck (m : TimerManager ι α) (here : Bool) (job : ι) : Option (TimerManager ι α) :=
  let m := { m with alarm := update m.alarm job false }
  if m.realWakeupTime job = 0 ∨ m.realWakeupTime job ≠ m.wakeupTime job then some m
  else jobTimerInsert m here job 0

/-- What the threads do, one after the other. -/
inductive TimerEvent (ι α : Type*)
  | insert (here : Bool) (job : ι) (timeout : α)
  | push (job : ι)
  | manager
  | fire (now : α)
  | alarm (here : Bool) (job : ι)

def timerStep (m : TimerManager ι α) : TimerEvent ι α → Option (TimerManager ι α)
  | .insert here job timeout => jobTimerInsert m here job timeout
  | .push job => some (mpqPush m job)
  | .manager => managerPass m
  | .fire now =>
    if 0 < m.et.size ∧ m.wakeupTime (m.et.heap 1) ≤ now then firePass m else some m
  | .alarm here job => jobTimerCheck m here job

/-- No timer is set. -/
def TimerManager.start (null : ι) : TimerManager ι α :=
  ⟨⟨fun _ => null, 0, fun _ => 0⟩, fun _ => 0, fun _ => 0, [], [], fun _ => false, fun _ => 0⟩

/-- The heap has room for one more timer. -/
abbrev TimerManager.HasRoom (m : TimerManager ι α) : Prop := m.et.size + 1 < maxEventTimers

/-! ### No timer is lost -/

variable {m m' : TimerManager ι α} {job : ι} {timeout : α} {S : Set ι}

/-- A timer that is set is on its way to the manager, or in the heap at its time, or its alarm was
sent and `job_timer_check` will not ignore it. -/
def TimerManager.Kept (m : TimerManager ι α) (job : ι) : Prop :=
  0 < m.realWakeupTime job → (job ∈ m.pushing ∨ job ∈ m.mpq) ∨
    m.wakeupTime job = m.realWakeupTime job ∧ (m.et.hIdx job ≠ 0 ∨ m.alarm job = true)

/-- The references of the heap and of the queue. -/
def TimerManager.held (m : TimerManager ι α) (job : ι) : ℤ :=
  (if m.et.hIdx job = 0 then 0 else 1) + m.mpq.count job

structure TimerManager.Good (m : TimerManager ι α) : Prop where
  holds : ∃ S, m.et.Holds m.wakeupTime S
  kept : ∀ job, m.Kept job
  refs : ∀ job, m.refs job = m.held job

/-- One timer has changed its place, and the heap its reference. -/
structure Moved (m : TimerManager ι α) (job : ι) (m' : TimerManager ι α) : Prop where
  holds : ∃ S, m'.et.Holds m'.wakeupTime S
  real : m'.realWakeupTime = m.realWakeupTime
  pushing : m'.pushing = m.pushing
  mpq : m'.mpq = m.mpq
  other : ∀ x ≠ job, m'.wakeupTime x = m.wakeupTime x ∧ m'.alarm x = m.alarm x ∧
    (m'.et.hIdx x ≠ 0 ↔ m.et.hIdx x ≠ 0)
  refs : ∀ x, m'.refs x - m'.held x = m.refs x - m.held x

theorem Moved.kept (h : Moved m job m') (hk : ∀ x ≠ job, m.Kept x) (hjob : m'.Kept job) (x : ι) :
    m'.Kept x := by
  by_cases hx : x = job
  · exact hx ▸ hjob
  · obtain ⟨hw, halarm, hidx⟩ := h.other x hx
    have := hk x hx
    unfold TimerManager.Kept at this ⊢
    rwa [h.real, h.pushing, h.mpq, hw, halarm, hidx]

/-- **`do_immediate_timer_insert`** puts a timer that is set at its time. -/
theorem doImmediateTimerInsert_spec (hS : m.et.Holds m.wakeupTime S) (hroom : m.HasRoom) (job : ι) :
    ∃ m', doImmediateTimerInsert m job = some m' ∧ Moved m job m' ∧ m'.Kept job := by
  have hw (r : α) (x : ι) (hx : x ≠ job) : update m.wakeupTime job r x = m.wakeupTime x :=
    update_of_ne hx _ _
  have hmem := hS.mem
  unfold doImmediateTimerInsert
  dsimp only
  by_cases hr : 0 < m.realWakeupTime job
  · obtain ⟨h', hins, hh'⟩ := hS.insertEventTimer (hw _) hroom
    have hmem' := hh'.mem
    rw [if_pos hr, hins]
    refine ⟨_, rfl, ⟨⟨_, hh'⟩, rfl, rfl, rfl, fun x hx => ⟨hw _ x hx, rfl, ?_⟩, fun x => ?_⟩,
      fun _ => .inr ⟨update_self .., .inl ?_⟩⟩
    all_goals simp only [TimerManager.addRef, TimerManager.held, update_apply]; grind
  · obtain ⟨h', hrem, hh', -⟩ := hS.removeEventTimer (hw 0)
    have hmem' := hh'.mem
    rw [if_neg hr, hrem]
    refine ⟨_, rfl, ⟨⟨_, hh'⟩, rfl, rfl, rfl, fun x hx => ⟨hw _ x hx, rfl, ?_⟩, fun x => ?_⟩,
      fun h => absurd h hr⟩
    all_goals simp only [TimerManager.addRef, TimerManager.held, update_apply]; grind

omit [Zero α] in
/-- **A pass of `thread_run_timers`** fires the timer that wakes up first. -/
theorem firePass_spec (hS : m.et.Holds m.wakeupTime S) (hpos : 0 < m.et.size) :
    ∃ m', firePass m = some m' ∧ Moved m (m.et.heap 1) m' ∧ m'.wakeupTime = m.wakeupTime ∧
      (m'.alarm (m.et.heap 1) = true ↔ m.alarm (m.et.heap 1) = true ∨
        m.wakeupTime (m.et.heap 1) = m.realWakeupTime (m.et.heap 1)) ∧
      m'.et.Holds m'.wakeupTime (S \ {m.et.heap 1}) ∧ m'.et.size + 1 = m.et.size := by
  have hidx := hS.idx 1 le_rfl hpos
  obtain ⟨h', hrem, hh', hsize⟩ := hS.removeEventTimer fun x (_ : x ≠ m.et.heap 1) => rfl
  have hmem := hS.mem
  have hmem' := hh'.mem
  unfold firePass
  dsimp only
  rw [if_pos hidx, hrem]
  refine ⟨_, rfl, ⟨⟨_, hh'⟩, rfl, rfl, rfl, fun x hx => ⟨rfl, ?_, ?_⟩, fun x => ?_⟩, rfl, ?_, hh',
    hsize ((hmem _).2 (by omega))⟩
  all_goals simp only [TimerManager.addRef, TimerManager.held, update_apply]; grind

namespace TimerManager.Good

/-- **`job_timer_insert`**; the timer itself may have been lost, if its time changes. -/
theorem jobTimerInsert (hS : ∃ S, m.et.Holds m.wakeupTime S)
    (hk : ∀ x, (x = job → m.realWakeupTime job = timeout) → m.Kept x)
    (hrefs : ∀ x, m.refs x = m.held x) (hroom : m.HasRoom) (here : Bool) :
    ∃ m', Jobs.jobTimerInsert m here job timeout = some m' ∧ m'.Good := by
  have hk' (x : ι) (hx : x ≠ job) :
      Kept { m with realWakeupTime := update m.realWakeupTime job timeout } x := by
    have := hk x fun h => absurd h hx
    simp only [Kept, update_of_ne hx] at this ⊢
    exact this
  unfold Jobs.jobTimerInsert
  dsimp only
  split_ifs with hsame
  · exact ⟨m, rfl, hS, fun x => hk x fun _ => hsame, hrefs⟩
  · obtain ⟨m', hm', hmoved, hjob⟩ := doImmediateTimerInsert_spec
      (m := { m with realWakeupTime := update m.realWakeupTime job timeout })
      hS.choose_spec hroom job
    exact ⟨m', hm', hmoved.holds, hmoved.kept hk' hjob, fun x =>
      sub_eq_zero.1 ((hmoved.refs x).trans (sub_eq_zero.2 (hrefs x)))⟩
  · refine ⟨_, rfl, hS, fun x hx => ?_, hrefs⟩
    by_cases hxj : x = job
    · exact .inl (.inl (hxj ▸ mem_cons_self))
    · exact (hk' x hxj hx).imp_left (Or.imp_left (mem_cons_of_mem _))

theorem mpqPush (hm : m.Good) (job : ι) : (Jobs.mpqPush m job).Good := by
  unfold Jobs.mpqPush
  split_ifs with hjob
  · refine ⟨hm.holds, fun x hx => ?_, fun x => ?_⟩
    · have := hm.kept x hx
      simp only [addRef, mem_append, mem_singleton] at this ⊢
      grind
    · have := hm.refs x
      simp only [addRef, held, update_apply, count_append, count_singleton] at this ⊢
      grind
  · exact hm

theorem managerPass (hm : m.Good) (hroom : m.HasRoom) :
    ∃ m', Jobs.managerPass m = some m' ∧ m'.Good := by
  obtain ⟨⟨S, hS⟩, hkept, hrefs⟩ := id hm
  unfold Jobs.managerPass
  cases hq : m.mpq with
  | nil => exact ⟨m, rfl, hm⟩
  | cons job mpq =>
    obtain ⟨m', hm', hmoved, hjob⟩ :=
      doImmediateTimerInsert_spec (m := { m with mpq }) hS hroom job
    dsimp only
    rw [hm']
    refine ⟨_, rfl, hmoved.holds, hmoved.kept (fun x hx hpos => ?_) hjob, fun x => ?_⟩
    · have := hkept x hpos
      rwa [hq, mem_cons, or_iff_right hx] at this
    · have := hmoved.refs x
      have := hrefs x
      simp only [addRef, held, update_apply, hq, hmoved.mpq, count_cons] at *
      grind

theorem firePass (hm : m.Good) (hpos : 0 < m.et.size) :
    ∃ m', Jobs.firePass m = some m' ∧ m'.Good := by
  obtain ⟨⟨S, hS⟩, hkept, hrefs⟩ := hm
  obtain ⟨m', hm', hmoved, hw, halarm, -⟩ := firePass_spec hS hpos
  refine ⟨m', hm', hmoved.holds, hmoved.kept (fun x _ => hkept x) fun hset => ?_, fun x =>
    sub_eq_zero.1 ((hmoved.refs x).trans (sub_eq_zero.2 (hrefs x)))⟩
  -- a timer whose time has changed is not sent its alarm, but the manager still has to see it
  rw [hmoved.real] at hset ⊢
  rw [hmoved.pushing, hmoved.mpq, hw]
  have := hkept _ hset
  grind

theorem jobTimerCheck (hm : m.Good) (hroom : m.HasRoom) (here : Bool) :
    ∃ m', Jobs.jobTimerCheck m here job = some m' ∧ m'.Good := by
  have hk (x : ι) (hx : x ≠ job) : Kept { m with alarm := update m.alarm job false } x := by
    have := hm.kept x
    simp only [Kept, update_of_ne hx] at this ⊢
    exact this
  unfold Jobs.jobTimerCheck
  dsimp only
  split_ifs with hstale
  · refine ⟨_, rfl, hm.holds, fun x => ?_, hm.refs⟩
    by_cases hx : x = job
    · subst hx
      exact fun hset => (hm.kept x hset).imp_right fun h => absurd hstale (by simp [h.1, hset.ne'])
    · exact hk x hx
  · exact jobTimerInsert (m := { m with alarm := update m.alarm job false }) hm.holds
      (fun x hx => hk x fun h => hstale (.inl (hx h))) hm.refs hroom here

theorem timerStep (hm : m.Good) (e : TimerEvent ι α) (hroom : m.HasRoom) :
    ∃ m', Jobs.timerStep m e = some m' ∧ m'.Good := by
  cases e with
  | insert here job timeout =>
    exact jobTimerInsert hm.holds (fun x _ => hm.kept x) hm.refs hroom here
  | push job => exact ⟨_, rfl, hm.mpqPush job⟩
  | manager => exact hm.managerPass hroom
  | fire now =>
    dsimp only [Jobs.timerStep]
    split_ifs with hdue
    · exact hm.firePass hdue.1
    · exact ⟨m, rfl, hm⟩
  | alarm here job => exact hm.jobTimerCheck hroom here

/-- **`thread_run_timers`** fires the timers that are due, each once and in the order of their
wake-up times. -/
theorem threadRunTimers (now : α) (hm : m.Good) {fuel : ℕ} (hfuel : m.et.size < fuel) :
    ∃ m' fired, Jobs.threadRunTimers now fuel m = some (m', fired) ∧ m'.Good ∧
      (∀ x, m'.et.hIdx x ≠ 0 ↔ m.et.hIdx x ≠ 0 ∧ now < m.wakeupTime x) ∧
      (∀ x, x ∈ fired ↔ m.et.hIdx x ≠ 0 ∧ m.wakeupTime x ≤ now) ∧ fired.Nodup ∧
      fired.Pairwise (fun x y => m.wakeupTime x ≤ m.wakeupTime y) ∧
      m'.wakeupTime = m.wakeupTime := by
  induction fuel generalizing m with
  | zero => omega
  | succ fuel ih =>
    obtain ⟨S, hS⟩ := hm.holds
    have hmem := hS.mem
    rw [Jobs.threadRunTimers]
    split_ifs with hdue
    · obtain ⟨m₁, hm₁, -, hw, -, hS₁, hsize⟩ := firePass_spec hS hdue.1
      obtain ⟨m₁', hm₁', hgood⟩ := hm.firePass hdue.1
      obtain rfl := some.inj (hm₁.symm.trans hm₁')
      obtain ⟨m', fired, hm', hgood', hleft, hfired, hnodup, hsorted, hw'⟩ := ih hgood (by omega)
      have hidx := hS.idx 1 le_rfl hdue.1
      have hmem₁ := hS₁.mem
      have hfirst := hdue.2
      rw [hm₁, bind_some, hm']
      rw [hw] at *
      refine ⟨m', _, rfl, hgood', fun x => ?_, fun x => ?_, nodup_cons.2 ⟨fun h => ?_, hnodup⟩,
        pairwise_cons.2 ⟨fun x hx => (hS.root_le ?_).2, hsorted⟩, hw'⟩
      all_goals grind
    · have hlate (x : ι) (hx : m.et.hIdx x ≠ 0) : now < m.wakeupTime x := by
        obtain ⟨hpos, hle⟩ := hS.root_le ((hmem x).2 hx)
        exact (not_le.1 fun h => hdue ⟨hpos, h⟩).trans_le hle
      exact ⟨m, [], rfl, hm, fun x => ⟨fun h => ⟨h, hlate x h⟩, And.left⟩, fun x =>
        iff_of_false not_mem_nil fun h => (hlate x h.1).not_ge h.2, nodup_nil, .nil, rfl⟩

end TimerManager.Good

/-! ### Whatever the threads do -/

section Runs

variable (null : ι) (es : List (TimerEvent ι α))
  (hroom : Along timerStep (fun m _ => m.HasRoom) (.start null) es)

include hroom

theorem good_run : ∃ m, run timerStep (.start null) es = some m ∧ m.Good := by
  refine run_progress (fun _ e hm hok => hm.timerStep e hok) ⟨⟨∅, ?_⟩, ?_, fun _ => rfl⟩ hroom
  · constructor <;> simp [TimerManager.start, HeapOrder.Ordered]
    omega
  · exact fun _ h => absurd h (lt_irrefl _)

/-- **No timer is lost**, and no assertion fails, as long as the heap has room: the heap is in
order, each timer is where its `h_idx` says, and each that is set is on its way to the manager, in
the heap at its time, or about to be handled. -/
theorem timers_kept : ∃ m, run timerStep (.start null) es = some m ∧
    (∃ S, m.et.Holds m.wakeupTime S) ∧ ∀ job, m.Kept job := by
  obtain ⟨m, hrun, hm⟩ := good_run null es hroom
  exact ⟨m, hrun, hm.holds, hm.kept⟩

/-- **The references balance**: a job is held once while it is in the heap, and once for each time
that it is in the queue. -/
theorem timer_references : ∃ m, run timerStep (.start null) es = some m ∧
    ∀ job, m.refs job = (if m.et.hIdx job = 0 then 0 else 1) + m.mpq.count job := by
  obtain ⟨m, hrun, hm⟩ := good_run null es hroom
  exact ⟨m, hrun, hm.refs⟩

end Runs

/-- Timer 7 is set in another thread, and to a later time when it is about to fire; timer 8 is set,
fires and is handled. -/
def sampleTimers : List (TimerEvent ℕ ℤ) :=
  [.insert false 7 5, .push 7, .manager, .insert true 8 3, .fire 4, .insert false 7 9, .fire 6,
    .alarm true 8, .push 7, .manager]

theorem hasRoom_sampleTimers : Along timerStep (fun m _ => m.HasRoom) (.start 0) sampleTimers := by
  decide +kernel

theorem timers_kept_sampleTimers :
    ∃ m, run timerStep (.start 0) sampleTimers = some m ∧ ∀ job, m.Kept job := by
  obtain ⟨m, hrun, -, hkept⟩ := timers_kept 0 sampleTimers hasRoom_sampleTimers
  exact ⟨m, hrun, hkept⟩

theorem timer_references_sampleTimers :
    ∃ m, run timerStep (.start 0) sampleTimers = some m ∧
      ∀ job, m.refs job = (if m.et.hIdx job = 0 then 0 else 1) + m.mpq.count job :=
  timer_references 0 sampleTimers hasRoom_sampleTimers

end Mtbolt.Jobs
