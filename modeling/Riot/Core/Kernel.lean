import Mathlib.Data.Fin.VecNotation
import Riot.Core.Cib
import Riot.Core.SchedRun

/-!
# The kernel state

The scheduler together with the objects threads block on, and where in the
kernel each thread is.

A thread executes one section with interrupts disabled at a time. When such a
section blocks, the thread's `cont` says where it continues once another party
has made it runnable. Which of the runnable threads goes next is left open:
`dispatch` may switch to any of them, so that whatever holds over all runs holds
under every timing of the interrupts that preempt a thread.
-/

namespace Riot.Core

open Riot.Lib Function

/-! ## Objects -/

/-- `msg_t` -/
structure Msg where
  senderPid : Nat
  type : Nat
  content : Nat
  deriving DecidableEq, Repr

/-- `mbox_t`, without its wait lists. -/
structure Mbox where
  cib : Cib
  msgArray : Nat → Msg

/-- `mutex_t`, without its queue. -/
structure Mutex where
  /-- a pid -/
  owner : Nat
  ownerOriginalPriority : Nat
  deriving DecidableEq

/-- `mutex_cancel_t` -/
structure MutexCancel (n : Nat) where
  mutex : Nat
  thread : Fin n
  cancelled : Bool
  deriving DecidableEq

/-- Where a thread is in the kernel: in none of its functions, or in the one
named, behind the point where it blocks. -/
inductive Cont where
  | idle
  | mboxPut (b : Nat)
  | mboxGet (b : Nat)
  | mutexLock (m : Nat)
  | mutexLockCancelable (mc : Nat)
  /-- asleep after `mutex_unlock_and_sleep` -/
  | sleep
  /-- in `cond_wait`, where the mutex has been unlocked -/
  | condUnlocked (c m : Nat)
  /-- in `cond_wait`, before the `mutex_lock` at its end -/
  | condWait (m : Nat)
  | msgSend (targetPid : Nat)
  | msgSendReceive
  | msgReceive
  deriving DecidableEq

/-- The kernel state. -/
structure Kernel (n : Nat) where
  sched : Sched n
  cont : Fin n → Cont
  /-- The message object the thread's current call works on. While the thread is
  blocked `thread_t::wait_data` points at it. -/
  waitData : Fin n → Msg
  mbox : Nat → Mbox
  mutex : Nat → Mutex
  /-- missing before `mutex_cancel_init` -/
  mutexCancel : Nat → Option (MutexCancel n)
  /-- `thread_t::msg_queue` -/
  msgQueue : Fin n → Cib
  /-- `thread_t::msg_array`, missing for a thread without a message queue -/
  msgArray : Fin n → Option (Nat → Msg)

variable {n : Nat}

/-- Switches to a runnable thread. -/
def dispatch (k : Kernel n) (t : Fin n) : Option (Kernel n) :=
  if k.sched.Live t ∧ (k.sched.status t).onRunqueue = true then
    some { k with
      sched := schedSwitchTo k.sched k.sched.schedActiveThread k.sched.schedActiveThread t }
  else
    none

/-- Everything freshly initialised, over a state of the scheduler. -/
def Kernel.init (s : Sched n) (mboxSize : Nat → BitVec 32) (msgQueueSize : Fin n → BitVec 32) :
    Kernel n where
  sched := s
  cont := fun _ => .idle
  waitData := fun _ => ⟨0, 0, 0⟩
  mbox := fun b => ⟨cibInit (mboxSize b), fun _ => ⟨0, 0, 0⟩⟩
  mutex := fun _ => ⟨kernelPidUndef, 0⟩
  mutexCancel := fun _ => none
  msgQueue := fun t => cibInit (msgQueueSize t)
  msgArray := fun t => if msgQueueSize t = 0 then none else some fun _ => ⟨0, 0, 0⟩

/-! ## What every part of the kernel relies on -/

/-- The same threads in the table, and the same one active. -/
structure Sched.SameTable (s s' : Sched n) : Prop where
  pid : s'.pid = s.pid
  schedThreads : s'.schedThreads = s.schedThreads
  schedActiveThread : s'.schedActiveThread = s.schedActiveThread
  schedActivePid : s'.schedActivePid = s.schedActivePid

/-- The state is well linked with wait lists `W`; only mutex queues are marked;
threads are found under their pids. -/
structure KernelInv (cfg : Cfg) (s : Sched n) (W : WaitList n → List (Fin n))
    (M : WaitList n → Prop) : Prop where
  waiting : Waiting cfg s W M
  /-- `MUTEX_LOCKED` is a mark for mutexes only. -/
  unmarked : ∀ w, M w → ∃ m, w = .mutexQueue m
  /-- A thread is in the table under its own pid, which is a valid one. -/
  table : ∀ pid t, s.schedThreads pid = some t → s.pid t = pid ∧ cfg.pidIsValid pid = true
  /-- The active pid names the active thread. -/
  active : ∀ t, s.schedActiveThread = some t → s.schedActivePid = s.pid t

/-- The states a system may be started in: any state of the scheduler that its
operations lead to. -/
def Booted (cfg : Cfg) (s : Sched n) : Prop :=
  ∃ pid status priority es, run (schedStep cfg) (schedInit pid status priority) es = some s

/-- One thread for each control block, created with the given priorities. -/
def bootWith (cfg : Cfg) (priority : Fin n → Nat) : Sched n :=
  (run (schedStep cfg) (schedInit (fun _ => 0) (fun _ => .stopped) fun _ => 0)
    (List.ofFn fun t => .create (some t) (priority t) false)).getD
    (schedInit (fun _ => 0) (fun _ => .stopped) fun _ => 0)

theorem booted_bootWith (cfg : Cfg) (priority : Fin n → Nat) : Booted cfg (bootWith cfg priority) := by
  unfold bootWith
  cases hrun : run (schedStep cfg) (schedInit (fun _ => 0) (fun _ => .stopped) fun _ => 0)
    (List.ofFn fun t => .create (some t) (priority t) false) with
  | none => exact ⟨_, _, _, [], rfl⟩
  | some s => exact ⟨_, _, _, _, hrun⟩

/-- The thread is the one `sched_run` picks. -/
def Picked (cfg : Cfg) (s : Sched n) (t : Fin n) : Prop := schedNextThread cfg s = .ref t

instance (cfg : Cfg) (s : Sched n) (t : Fin n) : Decidable (Picked cfg s t) :=
  inferInstanceAs (Decidable (_ = _))

variable {cfg : Cfg} {s s' : Sched n} {W W' : WaitList n → List (Fin n)}
  {M M' : WaitList n → Prop}

theorem Booted.inv (h : Booted cfg s) : KernelInv cfg s (fun _ => []) fun _ => False := by
  obtain ⟨pid, status, priority, es, hrun⟩ := h
  have hinv : SchedInv cfg s := run_invariant_all (fun _ _ _ hi hs => schedInv_step hi hs) es
      (schedInv_init pid status priority) hrun
  exact ⟨hinv.waiting, fun w hw => hw.elim, hinv.table, hinv.active⟩

section SameTable

theorem Sched.SameTable.refl (s : Sched n) : s.SameTable s := ⟨rfl, rfl, rfl, rfl⟩

theorem Sched.SameTable.trans {s'' : Sched n} (h : s.SameTable s') (h' : s'.SameTable s'') :
    s.SameTable s'' :=
  ⟨h'.pid.trans h.pid, h'.schedThreads.trans h.schedThreads,
    h'.schedActiveThread.trans h.schedActiveThread, h'.schedActivePid.trans h.schedActivePid⟩

theorem Sched.SameTable.live (h : s.SameTable s') (t : Fin n) : s'.Live t ↔ s.Live t := by
  unfold Sched.Live
  rw [h.pid, h.schedThreads]

theorem schedSetStatus_sameTable (cfg : Cfg) (s : Sched n) (t : Fin n) (st : ThreadStatus) :
    s.SameTable (schedSetStatus cfg s t st) := ⟨by simp, by simp, by simp, by simp⟩

theorem schedChangePriority_sameTable (cfg : Cfg) (s : Sched n) (t : Fin n) (p : Nat) :
    s.SameTable (schedChangePriority cfg s t p) := ⟨by simp, by simp, by simp, by simp⟩

theorem threadAddToList_sameTable (s : Sched n) (w : Node (Head n) (Fin n)) (t : Fin n) :
    s.SameTable (threadAddToList s w t) := ⟨rfl, rfl, rfl, rfl⟩

theorem next_sameTable (s : Sched n) (next : NodeMem (Head n) (Fin n)) :
    s.SameTable { s with next := next } := ⟨rfl, rfl, rfl, rfl⟩

/-- The invariant needs a proof for the lists only, as long as the thread table
stays. -/
theorem KernelInv.of_sameTable (h : KernelInv cfg s W M) (hs : s.SameTable s')
    (hW : Waiting cfg s' W' M') (hM : ∀ w, M' w → ∃ m, w = .mutexQueue m) :
    KernelInv cfg s' W' M' where
  waiting := hW
  unmarked := hM
  table := by
    rw [hs.schedThreads, hs.pid]
    exact h.table
  active := by
    rw [hs.schedActiveThread, hs.schedActivePid, hs.pid]
    exact h.active

end SameTable

/-! ## Dispatching -/

variable {t : Fin n} {w : WaitList n}

theorem dispatch_cases {k k' : Kernel n} (h : dispatch k t = some k') :
    k.sched.Live t ∧ (k.sched.status t).onRunqueue = true ∧
      k' = { k with
        sched := schedSwitchTo k.sched k.sched.schedActiveThread k.sched.schedActiveThread t } := by
  simp only [dispatch, Option.ite_none_right_eq_some, Option.some.injEq] at h
  exact ⟨h.1.1, h.1.2, h.2.symm⟩

/-- Switching changes `STATUS_RUNNING` to `STATUS_PENDING` and back, nothing else. -/
theorem schedSwitchTo_onRunqueue {prev act : Option (Fin n)} {t u : Fin n}
    (ht : (s.status t).onRunqueue = true) :
    ((schedSwitchTo s prev act t).status u).onRunqueue = (s.status u).onRunqueue ∧
      ((s.status u).onRunqueue = false → (schedSwitchTo s prev act t).status u = s.status u) := by
  have hrun : ((update s.status t .running) u).onRunqueue = (s.status u).onRunqueue ∧
      ((s.status u).onRunqueue = false → update s.status t .running u = s.status u) := by
    by_cases hut : u = t
    · subst hut
      simp [ht]
    · simp [hut]
  unfold schedSwitchTo
  split
  · exact hrun
  · cases act with
    | none => exact hrun
    | some a =>
      unfold unschedule
      dsimp only
      split
      · rename_i ha
        dsimp only
        by_cases hua : u = a
        · subst hua
          rw [update_self, ← hrun.1, ha]
          simp
        · rw [update_of_ne hua]
          exact hrun
      · exact hrun

@[simp] theorem schedSwitchTo_priority {prev act : Option (Fin n)} :
    (schedSwitchTo s prev act t).priority = s.priority := by
  unfold schedSwitchTo
  split
  · rfl
  · cases act with
    | none => rfl
    | some a =>
      unfold unschedule
      dsimp only
      split <;> rfl

/-- The dispatched thread is active, live, runnable and waits nowhere. -/
structure Dispatched (s s' : Sched n) (W : WaitList n → List (Fin n)) (me : Fin n) : Prop where
  live : s'.Live me
  onRunqueue : (s'.status me).onRunqueue = true
  free : Free W me
  active : s'.schedActiveThread = some me
  getpid : s'.schedActivePid = s'.pid me
  pid : s'.pid = s.pid
  priority : s'.priority = s.priority
  next : s'.next = s.next
  schedThreads : s'.schedThreads = s.schedThreads
  /-- Statuses change among the runnable ones only. -/
  status : ∀ u, (s.status u).onRunqueue = false → s'.status u = s.status u
  runnable : ∀ u, (s'.status u).onRunqueue = (s.status u).onRunqueue

theorem KernelInv.dispatch {k k' : Kernel n} {me : Fin n} (h : KernelInv cfg k.sched W M)
    (hd : dispatch k me = some k') :
    KernelInv cfg k'.sched W M ∧ Dispatched k.sched k'.sched W me ∧ k' = { k with sched := k'.sched } := by
  obtain ⟨hl, hon, rfl⟩ := dispatch_cases hd
  obtain ⟨h1, h2, h3, h4⟩ := schedSwitchTo_fields k.sched k.sched.schedActiveThread
    k.sched.schedActiveThread me
  have hact : (schedSwitchTo k.sched k.sched.schedActiveThread k.sched.schedActiveThread
      me).schedActiveThread = some me := by
    rcases h4 with ⟨hp, ha, _⟩ | ⟨_, ha, _⟩
    · rw [ha, hp]
    · exact ha
  have hpid : (schedSwitchTo k.sched k.sched.schedActiveThread k.sched.schedActiveThread
      me).schedActivePid = k.sched.pid me := by
    rcases h4 with ⟨hp, _, hq⟩ | ⟨_, _, hq⟩
    · rw [hq, h.active me hp]
    · exact hq
  refine ⟨⟨h.waiting.switchTo hon, h.unmarked, ?_, fun t ht => ?_⟩,
    ⟨?_, ?_, h.waiting.free hon, hact, ?_, h2, schedSwitchTo_priority, h3, h1,
      fun u hu => (schedSwitchTo_onRunqueue hon).2 hu, fun u => (schedSwitchTo_onRunqueue hon).1⟩,
    rfl⟩
  · rw [h1, h2]
    exact h.table
  · rw [hact] at ht
    rw [hpid, h2, Option.some.inj ht]
  · unfold Sched.Live
    rw [h1, h2]
    exact hl
  · rw [(schedSwitchTo_onRunqueue hon).1]
    exact hon
  · rw [hpid, h2]

/-! ## Blocking and waking -/

/-- The threads are the same and have these statuses and priorities. -/
structure SchedChange (s s' : Sched n) (status : Fin n → ThreadStatus) (priority : Fin n → Nat) :
    Prop where
  same : s.SameTable s'
  status : s'.status = status
  priority : s'.priority = priority

/-- One thread has a new status. -/
abbrev StatusSet (s s' : Sched n) (t : Fin n) (st : ThreadStatus) : Prop :=
  SchedChange s s' (update s.status t st) s.priority

theorem StatusSet.onRunqueue_of_ne {u : Fin n} {st : ThreadStatus} (h : StatusSet s s' t st)
    (hut : u ≠ t) : s'.status u = s.status u := by
  rw [h.status, update_of_ne hut]

theorem KernelInv.setStatus (h : KernelInv cfg s W M) (st : ThreadStatus) (hl : s.Live t) (hfree : Free W t) :
    KernelInv cfg (schedSetStatus cfg s t st) W M ∧ StatusSet s (schedSetStatus cfg s t st) t st := by
  have hsame := schedSetStatus_sameTable cfg s t st
  exact ⟨h.of_sameTable hsame (h.waiting.setStatus hl hfree) h.unmarked, ⟨hsame, by simp, by simp⟩⟩

theorem KernelInv.wakeFirst (h : KernelInv cfg s W M) {ts : List (Fin n)} (hw : W w = t :: ts) : KernelInv cfg
        (schedSetStatus cfg { s with next := (listRemoveHead s.next (waitHead w)).2 } t .pending)
        (update W w ts) M ∧
      StatusSet s (schedSetStatus cfg { s with next := (listRemoveHead s.next (waitHead w)).2 } t .pending)
        t .pending := by
  obtain ⟨_, hW, hfree⟩ := h.waiting.removeHead hw
  have hl : s.Live t := (h.waiting.status (by rw [hw]; simp)).1
  have hsame := (next_sameTable s (listRemoveHead s.next (waitHead w)).2).trans
    (schedSetStatus_sameTable cfg _ t .pending)
  exact ⟨h.of_sameTable hsame (hW.wake hl rfl hfree) h.unmarked, ⟨hsame, by simp, by simp⟩⟩

theorem KernelInv.blockIn (h : KernelInv cfg s W M) (w : WaitList n)
    (st : ThreadStatus) (hl : s.Live t) (hfree : Free W t) (hst : st.waitsIn w = true)
    (hnm : ¬ M w) :
    KernelInv cfg (threadAddToList (schedSetStatus cfg s t st) (waitHead w) t)
        (update W w (insertPrio s.priority t (W w))) M ∧
      StatusSet s (threadAddToList (schedSetStatus cfg s t st) (waitHead w) t) t st := by
  have hoff := ThreadStatus.waitsIn_not_onRunqueue hst
  have hW := (h.waiting.block hl hoff hfree).add (by simpa using hl) (by simpa using hst) hfree hnm
  rw [schedSetStatus_priority] at hW
  have hsame := (schedSetStatus_sameTable cfg s t st).trans (threadAddToList_sameTable _ (waitHead w) t)
  exact ⟨h.of_sameTable hsame hW h.unmarked, ⟨hsame, by simp, by simp⟩⟩

theorem KernelInv.next_null (h : KernelInv cfg s W M)
    (hw : ∀ m, w ≠ .mutexQueue m) : s.next (waitHead w) = .null ↔ W w = [] := by
  rw [h.waiting.next_null]
  refine ⟨And.left, fun hnil => ⟨hnil, fun hm => ?_⟩⟩
  obtain ⟨m, hwm⟩ := h.unmarked w hm
  exact hw m hwm

theorem KernelInv.not_marked (h : KernelInv cfg s W M) (hw : ∀ m, w ≠ .mutexQueue m) : ¬ M w := fun hm => by
  obtain ⟨m, hwm⟩ := h.unmarked w hm
  exact hw m hwm

theorem KernelInv.removeHead_cases (h : KernelInv cfg s W M) (hw : ∀ m, w ≠ .mutexQueue m) :
    (∃ t ts, W w = t :: ts ∧ (listRemoveHead s.next (waitHead w)).1 = .ref t) ∨
      (W w = [] ∧ listRemoveHead s.next (waitHead w) = (.null, s.next)) := by
  cases hts : W w with
  | nil =>
    refine .inr ⟨rfl, ?_⟩
    rw [h.waiting.removeHead_nil hts, (h.next_null hw).mpr hts]
  | cons t ts => exact .inl ⟨t, ts, rfl, (h.waiting.removeHead hts).1⟩

end Riot.Core
