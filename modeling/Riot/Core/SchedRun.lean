import Riot.Lib.Runs
import Riot.Core.Waiting

/-!
# The scheduler as a system

The life of the scheduler state under every sequence of its operations: status
and priority changes, scheduling, yielding, and the creation and end of threads.

An operation is enabled when its caller keeps the contract the code relies on
and does not check: status and priority changes name a thread in the table, a
priority is in range (the assertion of `sched_change_priority`), a new thread
gets a control block that is not in use, and only the active thread yields,
zombifies itself or exits.
-/

namespace Riot.Core

open Riot.Lib Function Option

variable {n : Nat}

/-! ## Operations -/

/-- The operations that interrupts perform as well. -/
inductive SchedOp (n : Nat) where
  | setStatus (t : Fin n) (st : ThreadStatus)
  | changePriority (t : Fin n) (p : Nat)
  deriving DecidableEq

/-- One operation, if its caller may perform it. -/
def schedOp (cfg : Cfg) (s : Sched n) : SchedOp n → Option (Sched n)
  | .setStatus t st => if s.Live t then some (schedSetStatus cfg s t st) else none
  | .changePriority t p =>
    if s.Live t ∧ p < cfg.schedPrioLevels then some (schedChangePriority cfg s t p) else none

def threadYield (s : Sched n) (me : Fin n) : Sched n :=
  if (s.status me).onRunqueue then schedRunqAdvance s (s.priority me) else s

/-- `sched_run` goes idle: no idle thread is configured and nobody is runnable. -/
def schedIdles (cfg : Cfg) (s : Sched n) : Bool :=
  !cfg.coreIdleThread && s.runqueueBitcache == 0#32

/-- The idle branch of `sched_run`. `isrs` is what interrupts do while the
scheduler waits in `sched_arch_idle`. -/
def schedIdle (cfg : Cfg) (isrs : List (SchedOp n)) (s : Sched n) : Option (Sched n) :=
  if schedIdles cfg s then
    let s :=
      match s.schedActiveThread with
      | some t => unschedule s t
      | none => s
    run (schedOp cfg) s isrs
  else
    some s

/-- `sched_run`: the new state and the thread returned; `none` while it idles. -/
def schedRun (cfg : Cfg) (isrs : List (SchedOp n)) (s : Sched n) : Option (Sched n × Fin n) :=
  let previousThread := s.schedActiveThread
  let activeThread := if schedIdles cfg s then none else s.schedActiveThread
  (schedIdle cfg isrs s).bind fun s =>
    if s.runqueueBitcache = 0#32 then
      none
    else
      match schedNextThread cfg s with
      | .ref nextThread =>
        some (schedSwitchTo s previousThread activeThread nextThread, nextThread)
      | _ => none

/-- The search of `thread_create` for a free slot of the thread table. -/
def freePid (cfg : Cfg) (s : Sched n) : Option Nat :=
  (List.range' kernelPidFirst cfg.kernelPidLast).find? fun pid => (s.schedThreads pid).isNone

/-- `-EINVAL` -/
def negEinval : Int := -22

/-- `-EOVERFLOW` -/
def negEoverflow : Int := -75

/-- `thread_create`: the new state and the return value. `thread` is the control
block at the top of the aligned stack, missing when the stack is too small for
it; `sleeping` is `THREAD_CREATE_SLEEPING`. -/
def threadCreate (cfg : Cfg) (s : Sched n) (thread : Option (Fin n)) (priority : Nat)
    (sleeping : Bool) : Sched n × Int :=
  if priority ≥ cfg.schedPrioLevels then
    (s, negEinval)
  else
    match thread with
    | none => (s, negEinval)
    | some t =>
      match freePid cfg s with
      | none => (s, negEoverflow)
      | some pid =>
        let s :=
          { s with
            schedThreads := update s.schedThreads pid (some t)
            pid := update s.pid t pid
            priority := update s.priority t priority
            status := update s.status t .stopped
            next := update s.next (.entry t) .null
            schedNumThreads := s.schedNumThreads + 1 }
        (schedSetStatus cfg s t (if sleeping then .sleeping else .pending), pid)

/-- `thread_kill_zombie`: the new state and whether a zombie was removed. -/
def threadKillZombie (cfg : Cfg) (s : Sched n) (pid : Nat) : Sched n × Bool :=
  match threadGet cfg s pid with
  | none => (s, false)
  | some t =>
    if s.status t = .zombie then
      let s :=
        { s with
          schedThreads := update s.schedThreads pid none
          schedNumThreads := s.schedNumThreads - 1 }
      (schedSetStatus cfg s t .stopped, true)
    else
      (s, false)

/-- `sched_task_exit` of the active thread, up to the context switch. -/
def schedTaskExit (cfg : Cfg) (s : Sched n) (me : Fin n) : Sched n :=
  let s :=
    { s with
      schedThreads := update s.schedThreads s.schedActivePid none
      schedNumThreads := s.schedNumThreads - 1 }
  { schedSetStatus cfg s me .stopped with schedActiveThread := none }

/-- What can happen to the scheduler. -/
inductive SchedEvent (n : Nat) where
  | op (o : SchedOp n)
  | run (isrs : List (SchedOp n))
  | yield
  | create (thread : Option (Fin n)) (priority : Nat) (sleeping : Bool)
  | zombify
  | killZombie (pid : Nat)
  | taskExit
  deriving DecidableEq

/-- The active thread, as long as it is in the thread table. -/
def Sched.activeLive (s : Sched n) : Option (Fin n) :=
  match s.schedActiveThread with
  | some t => if s.Live t then some t else none
  | none => none

/-- A control block nobody uses. -/
def Sched.Unused (s : Sched n) (t : Fin n) : Prop :=
  ¬ s.Live t ∧ s.schedActiveThread ≠ some t

instance (s : Sched n) (t : Fin n) : Decidable (s.Unused t) :=
  inferInstanceAs (Decidable (_ ∧ _))

/-- One step of the scheduler. -/
def schedStep (cfg : Cfg) (s : Sched n) : SchedEvent n → Option (Sched n)
  | .op o => schedOp cfg s o
  | .run isrs => (schedRun cfg isrs s).map Prod.fst
  | .yield => s.activeLive.map (threadYield s)
  | .create thread priority sleeping =>
    if ∀ t, thread = some t → s.Unused t then
      some (threadCreate cfg s thread priority sleeping).1
    else
      none
  | .zombify => s.activeLive.map fun me => schedSetStatus cfg s me .zombie
  | .killZombie pid => some (threadKillZombie cfg s pid).1
  | .taskExit => s.activeLive.map (schedTaskExit cfg s)

/-- The scheduler at boot: no threads, empty queues. The control blocks hold
whatever the memory held. -/
def schedInit (pid : Fin n → Nat) (status : Fin n → ThreadStatus) (priority : Fin n → Nat) :
    Sched n where
  pid := pid
  status := status
  priority := priority
  next := fun _ => .null
  runqueueBitcache := 0#32
  schedThreads := fun _ => none
  schedNumThreads := 0
  schedActiveThread := none
  schedActivePid := kernelPidUndef

/-! ## The representation invariant -/

/-- The lists are represented, the table is keyed by pid, and the active pid is
the active thread's. -/
structure SchedInv (cfg : Cfg) (s : Sched n) : Prop where
  /-- Run queues, status, priorities and bit cache agree; nobody waits. -/
  waiting : Waiting cfg s (fun _ => []) fun _ => False
  /-- A thread is in the table under its own pid, which is a valid one. -/
  table : ∀ pid t, s.schedThreads pid = some t → s.pid t = pid ∧ cfg.pidIsValid pid = true
  /-- The active pid names the active thread. -/
  active : ∀ t, s.schedActiveThread = some t → s.schedActivePid = s.pid t

variable {cfg : Cfg} {s s' : Sched n}

theorem free_nil (t : Fin n) : Free (fun _ : WaitList n => []) t := fun _ => by simp

variable {me t u : Fin n} {isrs : List (SchedOp n)} {pid : Nat}

theorem schedInv_setStatus {st : ThreadStatus} (h : SchedInv cfg s) (hl : s.Live t) :
    SchedInv cfg (schedSetStatus cfg s t st) where
  waiting := h.waiting.setStatus hl (free_nil t)
  table := by simpa using h.table
  active := by simpa using h.active

theorem schedInv_op {o : SchedOp n} (h : SchedInv cfg s) (hs : schedOp cfg s o = some s') :
    SchedInv cfg s' := by
  cases o with
  | setStatus t st =>
    simp only [schedOp, ite_none_right_eq_some, some.injEq] at hs
    obtain ⟨hl, rfl⟩ := hs
    exact schedInv_setStatus h hl
  | changePriority t p =>
    simp only [schedOp, ite_none_right_eq_some, some.injEq] at hs
    obtain ⟨⟨hl, hp⟩, rfl⟩ := hs
    exact ⟨h.waiting.changePriority hl hp, by simpa using h.table, by simpa using h.active⟩

theorem schedInv_unschedule (h : SchedInv cfg s) (t : Fin n) : SchedInv cfg (unschedule s t) := by
  have hw := h.waiting.unschedule t
  unfold unschedule at hw ⊢
  split
  · rename_i hrun
    rw [if_pos hrun] at hw
    exact ⟨hw, h.table, h.active⟩
  · exact h

theorem schedInv_idle (h : SchedInv cfg s) (hs : schedIdle cfg isrs s = some s') : SchedInv cfg s' := by
  unfold schedIdle at hs
  split at hs
  · refine run_invariant_all (fun _ _ _ hi hop => schedInv_op hi hop) isrs ?_ hs
    split
    · exact schedInv_unschedule h _
    · exact h
  · exact some.inj hs ▸ h

theorem schedSwitchTo_fields (s : Sched n) (prev act : Option (Fin n)) (t : Fin n) :
    (schedSwitchTo s prev act t).schedThreads = s.schedThreads ∧
    (schedSwitchTo s prev act t).pid = s.pid ∧
    (schedSwitchTo s prev act t).next = s.next ∧
    (prev = some t ∧ (schedSwitchTo s prev act t).schedActiveThread = s.schedActiveThread ∧
        (schedSwitchTo s prev act t).schedActivePid = s.schedActivePid ∨
      prev ≠ some t ∧ (schedSwitchTo s prev act t).schedActiveThread = some t ∧
        (schedSwitchTo s prev act t).schedActivePid = s.pid t) := by
  unfold schedSwitchTo unschedule
  split
  · rename_i hp
    exact ⟨rfl, rfl, rfl, .inl ⟨hp, rfl, rfl⟩⟩
  · rename_i hp
    cases act with
    | none => exact ⟨rfl, rfl, rfl, .inr ⟨hp, rfl, rfl⟩⟩
    | some a =>
      dsimp only
      split <;> exact ⟨rfl, rfl, rfl, .inr ⟨hp, rfl, rfl⟩⟩

/-- `sched_run`, taken apart: the state `u` after idling, in which the choice is
made, and the switch. -/
theorem schedRun_cases (h : schedRun cfg isrs s = some (s', t)) :
    ∃ u, schedIdle cfg isrs s = some u ∧ u.runqueueBitcache ≠ 0#32 ∧ schedNextThread cfg u = .ref t ∧
      s' = schedSwitchTo u s.schedActiveThread
        (if schedIdles cfg s then none else s.schedActiveThread) t := by
  obtain ⟨u, hu, h⟩ := bind_eq_some_iff.mp h
  refine ⟨u, hu, ?_⟩
  split at h
  · exact absurd h (by simp)
  · rename_i hbits
    split at h
    · rename_i t' ht'
      obtain ⟨rfl, rfl⟩ := h
      exact ⟨hbits, ht', rfl⟩
    · exact absurd h (by simp)

theorem schedNextThread_runnable {L : Head n → List (Fin n)} (hL : Linked cfg s L)
    (hbits : s.runqueueBitcache ≠ 0#32) (ht : schedNextThread cfg s = .ref t) :
    s.Live t ∧ (s.status t).onRunqueue = true := by
  obtain ⟨p, u, ts, _, hu, _, hnext⟩ := schedNextThread_spec hL hbits
  rw [ht] at hnext
  have htu : t = u := by simpa using hnext
  have := (hL.runq u p).mp (by rw [hu]; simp)
  rw [htu]
  exact ⟨this.1, this.2.1⟩

theorem schedInv_run (h : SchedInv cfg s) (hs : schedRun cfg isrs s = some (s', t)) : SchedInv cfg s' := by
  obtain ⟨u, hu, hbits, hnext, rfl⟩ := schedRun_cases hs
  have hinv := schedInv_idle h hu
  obtain ⟨L, hL, _⟩ := hinv.waiting
  have hrun := (schedNextThread_runnable hL hbits hnext).2
  obtain ⟨h1, h2, _, h3⟩ := schedSwitchTo_fields u s.schedActiveThread
    (if schedIdles cfg s then none else s.schedActiveThread) t
  refine ⟨hinv.waiting.switchTo hrun, ?_, fun v hv => ?_⟩
  · rw [h1, h2]
    exact hinv.table
  · rw [h2]
    rcases h3 with ⟨_, ha, hp⟩ | ⟨_, ha, hp⟩
    · rw [hp]
      exact hinv.active v (ha ▸ hv)
    · rw [ha] at hv
      rw [hp, some.inj hv]

/-! ## Threads come and go -/

theorem Waiting.unregister {W : WaitList n → List (Fin n)} {M : WaitList n → Prop}
    (hW : Waiting cfg s W M) {k : Int} (hpid : s.pid t = pid)
    (hoff : (s.status t).onRunqueue = false) (hfree : Free W t)
    (hslot : ∀ u, s.schedThreads pid = some u → u = t) :
    Waiting cfg
      { s with
        schedThreads := update s.schedThreads pid none
        schedNumThreads := k } W M := by
  obtain ⟨L, hL, hw, hm⟩ := hW
  have hun : Unlinked L t := hL.unlinked hoff (fun w => by rw [hw]; exact hfree w)
  have hlive : ∀ u, u ≠ t → ((if s.pid u = pid then none else s.schedThreads (s.pid u)) = some u ↔
      s.Live u) := by
    intro u hut
    split
    · rename_i hp
      refine ⟨fun h => absurd h (by simp), fun h => absurd (hslot u ?_) hut⟩
      rw [← hp]
      exact h
    · exact Iff.rfl
  refine ⟨L, ⟨hL.linkage, fun u p => ?_, fun u w hu => ?_, hL.bits, fun u hu => ?_⟩, hw, hm⟩
  · unfold Sched.Live
    simp only [update_apply]
    by_cases hut : u = t
    · subst hut
      simp only [hoff, Bool.false_eq_true, false_and, and_false, iff_false]
      exact hun _
    · rw [hlive u hut]
      exact hL.runq u p
  · unfold Sched.Live
    simp only [update_apply]
    have hut : u ≠ t := fun hut => hun _ (hut ▸ hu)
    rw [hlive u hut]
    exact hL.waits u w hu
  · unfold Sched.Live at hu
    simp only [update_apply] at hu
    by_cases hut : u = t
    · subst hut
      rw [if_pos hpid] at hu
      exact absurd hu (by simp)
    · exact hL.prio u ((hlive u hut).mp hu)

theorem schedSetStatus_table (s : Sched n) (t : Fin n) (st : ThreadStatus)
    (f : Nat → Option (Fin n)) (k : Int) :
    schedSetStatus cfg { s with schedThreads := f, schedNumThreads := k } t st =
      { schedSetStatus cfg s t st with schedThreads := f, schedNumThreads := k } := by
  unfold schedSetStatus
  split <;> split <;> rfl

theorem schedInv_end (h : SchedInv cfg s) (hl : s.Live t) : SchedInv cfg (schedSetStatus cfg
      { s with
        schedThreads := update s.schedThreads (s.pid t) none
        schedNumThreads := s.schedNumThreads - 1 } t .stopped) := by
  rw [schedSetStatus_table]
  have hset : SchedInv cfg (schedSetStatus cfg s t .stopped) := schedInv_setStatus h hl
  refine ⟨?_, fun pid u hu => ?_, by simpa using h.active⟩
  · have := hset.waiting.unregister (k := s.schedNumThreads - 1)
      (congrFun (schedSetStatus_pid cfg s t .stopped) t) (by simp [ThreadStatus.onRunqueue])
      (free_nil t) (fun u hu => by
        rw [schedSetStatus_schedThreads, show s.schedThreads (s.pid t) = some t from hl] at hu
        exact (some.inj hu).symm)
    simpa using this
  · dsimp only at hu ⊢
    rw [schedSetStatus_pid]
    by_cases hp : pid = s.pid t
    · rw [hp, update_self] at hu
      exact absurd hu (by simp)
    · rw [update_of_ne hp] at hu
      exact h.table pid u hu

theorem schedInv_killZombie (h : SchedInv cfg s) (pid : Nat) :
    SchedInv cfg (threadKillZombie cfg s pid).1 := by
  unfold threadKillZombie
  split
  · exact h
  · rename_i t ht
    have hslot : s.schedThreads pid = some t := by
      unfold threadGet at ht
      split at ht
      · exact ht
      · exact absurd ht (by simp)
    obtain ⟨hpid, _⟩ := h.table pid t hslot
    split
    · subst hpid
      exact schedInv_end h hslot
    · exact h

theorem schedInv_taskExit (h : SchedInv cfg s) (hl : s.Live me)
    (hact : s.schedActiveThread = some me) : SchedInv cfg (schedTaskExit cfg s me) := by
  have hend := schedInv_end h hl
  rw [← h.active me hact] at hend
  unfold schedTaskExit
  obtain ⟨L, hL, hw⟩ := hend.waiting
  exact ⟨⟨L, ⟨hL.linkage, hL.runq, hL.waits, hL.bits, hL.prio⟩, hw⟩, hend.table,
    fun t ht => absurd ht (by simp)⟩

theorem freePid_spec (h : freePid cfg s = some pid) :
    s.schedThreads pid = none ∧ cfg.pidIsValid pid = true := by
  have hnone := List.find?_some h
  obtain ⟨hfirst, hlast⟩ := List.mem_range'_1.mp (List.mem_of_find?_eq_some h)
  refine ⟨by simpa using hnone, ?_⟩
  unfold Cfg.pidIsValid
  rw [Bool.and_eq_true, decide_eq_true_eq, decide_eq_true_eq]
  exact ⟨hfirst, by unfold kernelPidFirst at hlast; omega⟩

theorem schedInv_create {thread : Option (Fin n)} {priority : Nat} {sleeping : Bool}
    (h : SchedInv cfg s) (hun : ∀ t, thread = some t → s.Unused t) :
    SchedInv cfg (threadCreate cfg s thread priority sleeping).1 := by
  unfold threadCreate
  split
  · exact h
  rename_i hprio
  split
  · exact h
  rename_i t
  split
  · exact h
  rename_i pid hfree
  obtain ⟨hslot, hvalid⟩ := freePid_spec hfree
  obtain ⟨hdead, hinactive⟩ := hun t rfl
  obtain ⟨L, hL, hw⟩ := h.waiting
  have hunl : Unlinked L t := by
    intro hd ht
    cases hd with
    | runqueue p => exact hdead ((hL.runq t p).mp ht).1
    | wait w => exact hdead (hL.waits t w ht).1
  have hlive : ∀ u, u ≠ t → (update s.schedThreads pid (some t) (s.pid u) = some u ↔ s.Live u) := by
    intro u hut
    unfold Sched.Live
    by_cases hp : s.pid u = pid
    · rw [hp, update_self, hslot]
      simp [Ne.symm hut]
    · rw [update_of_ne hp]
  refine schedInv_setStatus ⟨⟨L, ⟨hL.linkage.update_unlinked hunl _, fun u p => ?_,
    fun u w hu => ?_, hL.bits, fun u hu => ?_⟩, hw⟩, fun q u hu => ?_, fun u hu => ?_⟩ ?_
  · unfold Sched.Live
    by_cases hut : u = t
    · subst hut
      simp only [update_self, ThreadStatus.onRunqueue, Bool.false_eq_true, false_and, and_false, iff_false]
      exact hunl _
    · simp only [update_of_ne hut]
      rw [hlive u hut]
      exact hL.runq u p
  · have hut : u ≠ t := fun hut => hunl _ (hut ▸ hu)
    unfold Sched.Live
    simp only [update_of_ne hut]
    rw [hlive u hut]
    exact hL.waits u w hu
  · by_cases hut : u = t
    · subst hut
      simpa using hprio
    · unfold Sched.Live at hu
      simp only [update_of_ne hut] at hu ⊢
      exact hL.prio u ((hlive u hut).mp hu)
  · dsimp only at hu ⊢
    by_cases hq : q = pid
    · subst hq
      rw [update_self] at hu
      rw [← some.inj hu, update_self]
      exact ⟨rfl, hvalid⟩
    · rw [update_of_ne hq] at hu
      have hut : u ≠ t := by
        rintro rfl
        exact hdead (by unfold Sched.Live; rw [(h.table q u hu).1]; exact hu)
      rw [update_of_ne hut]
      exact h.table q u hu
  · have hut : u ≠ t := fun hut => hinactive (hut ▸ hu)
    dsimp only
    rw [update_of_ne hut]
    exact h.active u hu
  · unfold Sched.Live
    simp

/-! ## Every step -/

theorem activeLive_some (h : s.activeLive = some me) : s.schedActiveThread = some me ∧ s.Live me := by
  unfold Sched.activeLive at h
  split at h
  · rename_i t ht
    split at h
    · rename_i hl
      rw [← some.inj h]
      exact ⟨ht, hl⟩
    · exact absurd h (by simp)
  · exact absurd h (by simp)

theorem schedInv_yield (h : SchedInv cfg s) : SchedInv cfg (threadYield s me) := by
  unfold threadYield
  split
  · exact ⟨h.waiting.advance _, h.table, h.active⟩
  · exact h

/-- **The representation invariant is kept by every operation.** -/
theorem schedInv_step {e : SchedEvent n} (h : SchedInv cfg s) (hs : schedStep cfg s e = some s') :
    SchedInv cfg s' := by
  cases e with
  | op o => exact schedInv_op h hs
  | run isrs =>
    obtain ⟨⟨u, t⟩, hrun, rfl⟩ := map_eq_some_iff.mp hs
    exact schedInv_run h hrun
  | yield =>
    obtain ⟨me, _, rfl⟩ := map_eq_some_iff.mp hs
    exact schedInv_yield h
  | create thread priority sleeping =>
    simp only [schedStep, ite_none_right_eq_some, some.injEq] at hs
    obtain ⟨hun, rfl⟩ := hs
    exact schedInv_create h hun
  | zombify =>
    obtain ⟨me, hme, rfl⟩ := map_eq_some_iff.mp hs
    exact schedInv_setStatus h (activeLive_some hme).2
  | killZombie pid =>
    simp only [schedStep, some.injEq] at hs
    exact hs ▸ schedInv_killZombie h pid
  | taskExit =>
    obtain ⟨me, hme, rfl⟩ := map_eq_some_iff.mp hs
    exact schedInv_taskExit h (activeLive_some hme).2 (activeLive_some hme).1

theorem schedInv_init (pid : Fin n → Nat) (status : Fin n → ThreadStatus)
    (priority : Fin n → Nat) : SchedInv cfg (schedInit pid status priority) := by
  refine ⟨⟨fun _ => [], ⟨⟨fun h => ?_, by simp, by simp⟩, by simp [Sched.Live, schedInit],
    by simp, fun p _ => ?_, by simp [Sched.Live, schedInit]⟩, fun _ => rfl,
    by simp [schedInit]⟩,
    by simp [schedInit], by simp [schedInit]⟩
  · exact ⟨fun _ => ring_nil.mpr rfl, fun _ => .inl rfl⟩
  · simp [RunqueueBitSet, schedInit]

/-! ## At most one thread is running -/

/-- No live thread but the active one has `STATUS_RUNNING`. -/
def RunningActive (s : Sched n) : Prop :=
  ∀ t, s.Live t → s.status t = .running → s.schedActiveThread = some t

/-- The operation does not assign `STATUS_RUNNING`; only `sched_run` does. -/
def SchedOp.NoRunning : SchedOp n → Prop
  | .setStatus _ st => st ≠ .running
  | .changePriority _ _ => True

/-- No operation of the event assigns `STATUS_RUNNING`. -/
def SchedEvent.NoRunning : SchedEvent n → Prop
  | .op o => o.NoRunning
  | .run isrs => ∀ o ∈ isrs, o.NoRunning
  | _ => True

theorem schedOp_running {o : SchedOp n} (ho : o.NoRunning) (hs : schedOp cfg s o = some s') :
    s'.schedActiveThread = s.schedActiveThread ∧
      ∀ t, s'.Live t → s'.status t = .running → s.Live t ∧ s.status t = .running := by
  cases o with
  | setStatus t st =>
    simp only [schedOp, ite_none_right_eq_some, some.injEq] at hs
    obtain ⟨_, rfl⟩ := hs
    refine ⟨by simp, fun u hu hrun => ⟨by simpa using hu, ?_⟩⟩
    rw [schedSetStatus_status] at hrun
    by_cases hut : u = t
    · subst hut
      rw [update_self] at hrun
      exact absurd hrun ho
    · rwa [update_of_ne hut] at hrun
  | changePriority t p =>
    simp only [schedOp, ite_none_right_eq_some, some.injEq] at hs
    obtain ⟨_, rfl⟩ := hs
    exact ⟨by simp, fun u hu hrun => ⟨by simpa using hu, by simpa using hrun⟩⟩

theorem schedOps_running : ∀ {isrs : List (SchedOp n)} {s s' : Sched n},
    (∀ o ∈ isrs, o.NoRunning) → run (schedOp cfg) s isrs = some s' →
      s'.schedActiveThread = s.schedActiveThread ∧
        ∀ t, s'.Live t → s'.status t = .running → s.Live t ∧ s.status t = .running
  | [], s, s', _, h => by
    rw [← some.inj h]
    exact ⟨rfl, fun t h1 h2 => ⟨h1, h2⟩⟩
  | o :: os, s, s', hn, h => by
    obtain ⟨u, hu, hrest⟩ := run_cons h
    obtain ⟨ha, hr⟩ := schedOp_running (hn o (by simp)) hu
    obtain ⟨ha', hr'⟩ := schedOps_running (fun o ho => hn o (by simp [ho])) hrest
    exact ⟨ha'.trans ha, fun t h1 h2 => hr t (hr' t h1 h2).1 (hr' t h1 h2).2⟩

/-- Whoever has `STATUS_RUNNING` after a switch is the next thread or was running
before without being the local `active_thread`. -/
theorem schedSwitchTo_running {prev act : Option (Fin n)}
    (h : (schedSwitchTo s prev act t).status u = .running) :
    u = t ∨ (s.status u = .running ∧ (prev = some t ∨ act ≠ some u)) := by
  by_cases hut : u = t
  · exact .inl hut
  refine .inr ?_
  unfold schedSwitchTo at h
  split at h
  · rename_i hp
    dsimp only at h
    rw [update_of_ne hut] at h
    exact ⟨h, .inl hp⟩
  · cases act with
    | none =>
      dsimp only at h
      rw [update_of_ne hut] at h
      exact ⟨h, .inr (by simp)⟩
    | some a =>
      dsimp only at h
      unfold unschedule at h
      split at h
      · dsimp only at h
        by_cases hua : u = a
        · subst hua
          exact absurd h (by simp)
        · rw [update_of_ne hua, update_of_ne hut] at h
          exact ⟨h, .inr (by simpa using Ne.symm hua)⟩
      · rename_i hna
        dsimp only at h hna
        rw [update_of_ne hut] at h
        refine ⟨h, .inr fun hau => ?_⟩
        have hau : a = u := by simpa using hau
        subst hau
        rw [update_of_ne hut] at hna
        exact hna h

theorem unschedule_schedActiveThread (s : Sched n) (t : Fin n) :
    (unschedule s t).schedActiveThread = s.schedActiveThread := by
  unfold unschedule
  split <;> rfl

theorem unschedule_running (h : (unschedule s t).status u = .running) : u ≠ t ∧ s.status u = .running := by
  unfold unschedule at h
  by_cases hut : u = t
  · subst hut
    split at h
    · simp at h
    · rename_i hrun
      exact absurd h hrun
  · split at h
    · dsimp only at h
      rw [update_of_ne hut] at h
      exact ⟨hut, h⟩
    · exact ⟨hut, h⟩

theorem unschedule_live (h : (unschedule s t).Live u) : s.Live u := by
  unfold unschedule at h
  split at h <;> exact h

theorem schedIdle_running (hr : RunningActive s)
    (hn : ∀ o ∈ isrs, o.NoRunning) (hs : schedIdle cfg isrs s = some s') :
    s'.schedActiveThread = s.schedActiveThread ∧ ∀ t, s'.Live t → s'.status t = .running →
        schedIdles cfg s = false ∧ s.schedActiveThread = some t := by
  unfold schedIdle at hs
  split at hs
  · obtain ⟨ha, hrun⟩ := schedOps_running hn hs
    cases hact : s.schedActiveThread with
    | none =>
      rw [hact] at ha hrun
      refine ⟨ha.trans hact, fun t ht htr => ?_⟩
      obtain ⟨hl, hsr⟩ := hrun t ht htr
      exact absurd (hr t hl hsr) (by simp [hact])
    | some a =>
      rw [hact] at ha hrun
      refine ⟨ha.trans ((unschedule_schedActiveThread s a).trans hact), fun t ht htr => ?_⟩
      obtain ⟨hl, hsr⟩ := hrun t ht htr
      obtain ⟨hta, hsr⟩ := unschedule_running hsr
      have := hr t (unschedule_live hl) hsr
      rw [hact] at this
      exact absurd (some.inj this).symm hta
  · rename_i hidle
    cases hs
    exact ⟨rfl, fun t ht htr => ⟨by simpa using hidle, hr t ht htr⟩⟩

theorem runningActive_run (hr : RunningActive s)
    (hn : ∀ o ∈ isrs, o.NoRunning) (hs : schedRun cfg isrs s = some (s', t)) :
    RunningActive s' := by
  obtain ⟨u, hu, _, _, rfl⟩ := schedRun_cases hs
  obtain ⟨ha, hrun⟩ := schedIdle_running hr hn hu
  obtain ⟨h1, h2, _, h3⟩ := schedSwitchTo_fields u s.schedActiveThread
    (if schedIdles cfg s then none else s.schedActiveThread) t
  have hact : (schedSwitchTo u s.schedActiveThread
      (if schedIdles cfg s then none else s.schedActiveThread) t).schedActiveThread = some t := by
    rcases h3 with ⟨hp, hq, _⟩ | ⟨_, hq, _⟩
    · rw [hq, ha, hp]
    · exact hq
  intro v hv hvr
  unfold Sched.Live at hv
  rw [h1, h2] at hv
  rw [hact]
  rcases schedSwitchTo_running hvr with rfl | ⟨hur, hor⟩
  · rfl
  -- somebody else is running: it is the active thread, and it was not descheduled
  obtain ⟨hidle, hsv⟩ := hrun v hv hur
  rcases hor with hp | hne
  · rw [← hp]
    exact hsv
  · rw [hidle] at hne
    exact absurd hsv (by simpa using hne)

/-- Only `sched_run` makes a thread run: an event after which the active thread is
the same and nobody else is running keeps the property. -/
theorem RunningActive.mono (hr : RunningActive s) (hact : s'.schedActiveThread = s.schedActiveThread)
    (h : ∀ t, s'.Live t → s'.status t = .running → s.Live t ∧ s.status t = .running) :
    RunningActive s' := by
  intro t ht htr
  obtain ⟨hl, hsr⟩ := h t ht htr
  rw [hact]
  exact hr t hl hsr

theorem runningActive_setStatus {st : ThreadStatus} (hr : RunningActive s)
    (hst : st ≠ .running) : RunningActive (schedSetStatus cfg s t st) := by
  refine hr.mono (by simp) fun u hu hrun => ⟨by simpa using hu, ?_⟩
  rw [schedSetStatus_status] at hrun
  by_cases hut : u = t
  · subst hut
    rw [update_self] at hrun
    exact absurd hrun hst
  · rwa [update_of_ne hut] at hrun

theorem runningActive_create {thread : Option (Fin n)} {priority : Nat} {sleeping : Bool}
    (hr : RunningActive s) :
    RunningActive (threadCreate cfg s thread priority sleeping).1 := by
  unfold threadCreate
  split
  · exact hr
  split
  · exact hr
  rename_i t
  split
  · exact hr
  rename_i pid hfree
  refine runningActive_setStatus (hr.mono rfl fun u hu hrun => ?_) (by cases sleeping <;> simp)
  dsimp only at hrun
  by_cases hut : u = t
  · subst hut
    exact absurd hrun (by simp)
  · rw [update_of_ne hut] at hrun
    refine ⟨?_, hrun⟩
    unfold Sched.Live at hu ⊢
    dsimp only at hu
    rw [update_of_ne hut] at hu
    by_cases hp : s.pid u = pid
    · rw [hp, update_self] at hu
      exact absurd (some.inj hu).symm hut
    · rwa [update_of_ne hp] at hu

theorem runningActive_end {k : Int} (hr : RunningActive s) : RunningActive (schedSetStatus cfg
      { s with
        schedThreads := update s.schedThreads pid none
        schedNumThreads := k } t .stopped) := by
  refine runningActive_setStatus (hr.mono rfl fun u hu hrun => ⟨?_, hrun⟩) (by simp)
  unfold Sched.Live at hu ⊢
  dsimp only at hu
  by_cases hp : s.pid u = pid
  · rw [hp, update_self] at hu
    exact absurd hu (by simp)
  · rwa [update_of_ne hp] at hu

theorem runningActive_taskExit (hr : RunningActive s)
    (hact : s.schedActiveThread = some me) : RunningActive (schedTaskExit cfg s me) := by
  have hend : RunningActive (schedSetStatus cfg
      { s with
        schedThreads := update s.schedThreads s.schedActivePid none
        schedNumThreads := s.schedNumThreads - 1 } me .stopped) := runningActive_end hr
  intro t ht htr
  -- whoever still runs would be the active thread, and that one has stopped
  have hta := hend t ht htr
  rw [schedSetStatus_schedActiveThread] at hta
  rw [hact] at hta
  have hta : me = t := some.inj hta
  subst hta
  unfold schedTaskExit at htr
  simp at htr

theorem runningActive_step {e : SchedEvent n} (hr : RunningActive s) (hn : e.NoRunning)
    (hs : schedStep cfg s e = some s') : RunningActive s' := by
  cases e with
  | op o =>
    obtain ⟨ha, hrun⟩ := schedOp_running hn hs
    exact hr.mono ha hrun
  | run isrs =>
    obtain ⟨⟨u, t⟩, hrun, rfl⟩ := map_eq_some_iff.mp hs
    exact runningActive_run hr hn hrun
  | yield =>
    obtain ⟨me, _, rfl⟩ := map_eq_some_iff.mp hs
    unfold threadYield
    split <;> exact hr
  | create thread priority sleeping =>
    simp only [schedStep, ite_none_right_eq_some, some.injEq] at hs
    obtain ⟨_, rfl⟩ := hs
    exact runningActive_create hr
  | zombify =>
    obtain ⟨me, _, rfl⟩ := map_eq_some_iff.mp hs
    exact runningActive_setStatus hr (by simp)
  | killZombie pid =>
    simp only [schedStep, some.injEq] at hs
    subst hs
    unfold threadKillZombie
    split
    · exact hr
    split
    · exact runningActive_end hr
    · exact hr
  | taskExit =>
    obtain ⟨me, hme, rfl⟩ := map_eq_some_iff.mp hs
    exact runningActive_taskExit hr (activeLive_some hme).1

/-! ## The run queues of every reachable state -/

/-- `Q` is the content of the run queues, as the pointers, the bit cache and the
threads tell it. -/
structure RunqueuesAre (cfg : Cfg) (s : Sched n) (Q : Nat → List (Fin n)) : Prop where
  /-- `sched_runqueues[p]` is the ring of `Q p`. -/
  ring : ∀ p, RingAt s.next (s.next (.head (.runqueue p))) (Q p)
  /-- A bit is set iff its run queue is not empty. -/
  bits : ∀ p, p < 32 → (RunqueueBitSet cfg s.runqueueBitcache p ↔ Q p ≠ [])
  /-- A thread is in the run queue of its priority once if its status says so,
  and in no other. -/
  count : ∀ t p, (Q p).count t =
    if s.Live t ∧ (s.status t).onRunqueue = true ∧ s.priority t = p then 1 else 0

theorem Linked.runqueuesAre {L : Head n → List (Fin n)} (hL : Linked cfg s L) :
    RunqueuesAre cfg s fun p => L (.runqueue p) where
  ring := fun p => hL.linkage.ring_of (isRunqueue p)
  bits := hL.bits
  count := fun t p => by
    split
    · rename_i h
      exact List.count_eq_one_of_mem (hL.linkage.nodup _) ((hL.runq t p).mpr h)
    · rename_i h
      exact List.count_eq_zero_of_not_mem fun ht => h ((hL.runq t p).mp ht)

/-- `sched_run` in a represented state: it returns the head of the first
non-empty run queue. -/
theorem schedRun_head (h : SchedInv cfg s) (hs : schedRun cfg isrs s = some (s', t)) :
    ∃ Q p ts, RunqueuesAre cfg s' Q ∧ Q p = t :: ts ∧ ∀ q, q < p → Q q = [] := by
  obtain ⟨u, hu, hbits, hnext, rfl⟩ := schedRun_cases hs
  obtain ⟨L, hL, _⟩ := (schedInv_idle h hu).waiting
  obtain ⟨p, v, ts, _, hp, hlow, hv⟩ := schedNextThread_spec hL hbits
  rw [hnext] at hv
  have htv : t = v := by simpa using hv
  subst htv
  have hon := (schedNextThread_runnable hL hbits hnext).2
  exact ⟨_, p, ts, (schedSwitchTo_linked hL hon).runqueuesAre, hp, hlow⟩

theorem schedRun_isSome (h : SchedInv cfg s) (hl : s.Live t)
    (hon : (s.status t).onRunqueue = true) (isrs : List (SchedOp n)) :
    (schedRun cfg isrs s).isSome = true := by
  obtain ⟨L, hL, _⟩ := h.waiting
  have hne : s.runqueueBitcache ≠ 0#32 := by
    have hp : s.priority t < 32 := lt_of_lt_of_le (hL.prio t hl) cfg.levels_le
    refine runqueueBitSet_ne_zero ((hL.bits (s.priority t) hp).mpr ?_)
    exact List.ne_nil_of_mem (hL.mem_runq hl hon)
  obtain ⟨p, v, ts, _, _, _, hv⟩ := schedNextThread_spec hL hne
  have hidle : schedIdle cfg isrs s = some s := by
    unfold schedIdle schedIdles
    rw [if_neg (by simp [hne])]
  unfold schedRun
  rw [hidle, bind_some, if_neg hne, hv]
  rfl

/-- **The representation invariant over whole runs**, for either bit order: the
run queues, bit cache, status and priorities agree; at most one thread is
running, as long as only `sched_run` assigns that status; and `sched_run`
returns the head of the first non-empty run queue, whenever there is one. -/
theorem sched_representation (cfg : Cfg) (pid : Fin n → Nat) (status : Fin n → ThreadStatus)
    (priority : Fin n → Nat) (es : List (SchedEvent n)) (s : Sched n)
    (hrun : run (schedStep cfg) (schedInit pid status priority) es = some s) :
    (∃ Q, RunqueuesAre cfg s Q) ∧
    ((∀ e ∈ es, e.NoRunning) → ∀ t u, s.Live t → s.Live u → s.status t = .running →
      s.status u = .running → t = u) ∧
    (∀ isrs s' t, schedRun cfg isrs s = some (s', t) →
      ∃ Q p ts, RunqueuesAre cfg s' Q ∧ Q p = t :: ts ∧ ∀ q, q < p → Q q = []) ∧
    ((∃ t, s.Live t ∧ (s.status t).onRunqueue = true) →
      ∀ isrs, (schedRun cfg isrs s).isSome = true) := by
  have hinv : SchedInv cfg s :=
    run_invariant_all (fun _ _ _ hi hs => schedInv_step hi hs) es
      (schedInv_init pid status priority) hrun
  refine ⟨?_, fun hn t u ht hu htr hur => ?_, fun isrs s' t hs => schedRun_head hinv hs,
    fun ⟨t, hl, hon⟩ isrs => schedRun_isSome hinv hl hon isrs⟩
  · obtain ⟨L, hL, _⟩ := hinv.waiting
    exact ⟨_, hL.runqueuesAre⟩
  · have hra : RunningActive s := by
      refine run_invariant_mem (fun _ e _ hi he hs => runningActive_step hi (hn e he) hs) ?_ hrun
      intro t ht
      exact absurd ht (by simp [Sched.Live, schedInit])
    have := (hra t ht htr).symm.trans (hra u hu hur)
    exact Option.some.inj this

/-- A board with `clz` and no idle thread. -/
def clzCfg : Cfg where
  schedPrioLevels := 16
  hasClz := true
  lsbImpl := .builtin
  coreIdleThread := false
  priorityInheritance := true
  kernelPidLast := 32
  levels_le := by decide

/-- Two threads are created, the second one preempts the first, swaps priorities
with it and exits. -/
def twoThreads : List (SchedEvent 2) :=
  [.create (some 0) 7 false, .run [], .create (some 1) 3 false, .run [],
    .op (.changePriority 0 3), .op (.changePriority 1 7), .yield, .run [], .run [], .taskExit]

/-- `sched_set_status` stores whatever status it is given: a sleeping thread that
is woken with `STATUS_RUNNING` runs besides the active one. -/
theorem not_running_unique :
    ¬ ∀ (es : List (SchedEvent 2)) (s : Sched 2),
      run (schedStep clzCfg) (schedInit (fun _ => 0) (fun _ => .stopped) fun _ => 0) es = some s →
        ∀ t u, s.Live t → s.Live u → s.status t = .running → s.status u = .running → t = u := by
  intro h
  have hend : (run (schedStep clzCfg) (schedInit (fun _ => 0) (fun _ => .stopped) fun _ => 0)
      [.create (some 0) 7 false, .create (some 1) 6 true, .run [],
        .op (.setStatus (1 : Fin 2) .running)]).any (fun s =>
      decide (s.Live 0 ∧ s.Live 1 ∧ s.status 0 = .running ∧ s.status 1 = .running)) = true := by
    decide
  obtain ⟨s, hs, hboth⟩ := (Option.any_eq_true _ _).mp hend
  obtain ⟨h0, h1, hr0, hr1⟩ := of_decide_eq_true hboth
  exact absurd (h _ s hs 0 1 h0 h1 hr0 hr1) (by decide)

theorem sched_representation_twoThreads :
    ∃ s, run (schedStep clzCfg) (schedInit (fun _ => 0) (fun _ => .stopped) fun _ => 0)
        twoThreads = some s ∧ ∃ Q, RunqueuesAre clzCfg s Q := by
  obtain ⟨s, hs⟩ := Option.isSome_iff_exists.mp (show (run (schedStep clzCfg)
    (schedInit (fun _ => 0) (fun _ => .stopped) fun _ => 0) twoThreads).isSome = true by decide)
  exact ⟨s, hs, (sched_representation clzCfg _ _ _ twoThreads s hs).1⟩

end Riot.Core
