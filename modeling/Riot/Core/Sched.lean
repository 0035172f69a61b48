import Riot.Core.Bitarithm
import Riot.Core.List

/-!
# Threads and the scheduler

`core/sched.c`, `core/include/sched.h` and the list helper of `core/thread.c`.

The state keeps the fields of `thread_t` as one map a field, indexed by the
control block. All `next` pointers of the kernel live in one memory: the heads
of the run queues and of the wait lists, and the `rq_entry` of every thread,
which the run queues and all wait lists share.

Context switches are not part of these functions. `thread_yield_higher` and
`sched_switch` only decide *when* `sched_run` is called next; the systems built
on this file let that happen between any two steps.
-/

namespace Riot.Core

open Riot.Lib Function

/-! ## Configuration -/

/-- The compile-time choices the kernel code depends on. -/
structure Cfg where
  /-- `SCHED_PRIO_LEVELS` -/
  schedPrioLevels : Nat
  /-- `BITARITHM_HAS_CLZ` -/
  hasClz : Bool
  /-- the implementation of `bitarithm_lsb` -/
  lsbImpl : LsbImpl
  /-- `MODULE_CORE_IDLE_THREAD` -/
  coreIdleThread : Bool
  /-- `MODULE_CORE_MUTEX_PRIORITY_INHERITANCE` -/
  priorityInheritance : Bool
  /-- `KERNEL_PID_LAST` -/
  kernelPidLast : Nat
  /-- The `static_assert` on the number of priority levels. -/
  levels_le : schedPrioLevels ≤ 32

def kernelPidUndef : Nat := 0

def kernelPidFirst : Nat := 1

def Cfg.kernelPidIsr (cfg : Cfg) : Nat := cfg.kernelPidLast + 1

def Cfg.pidIsValid (cfg : Cfg) (pid : Nat) : Bool :=
  decide (kernelPidFirst ≤ pid) && decide (pid ≤ cfg.kernelPidLast)

/-! ## Threads -/

/-- `thread_status_t` -/
inductive ThreadStatus where
  | stopped
  | zombie
  | sleeping
  | mutexBlocked
  | receiveBlocked
  | sendBlocked
  | replyBlocked
  | flagBlockedAny
  | flagBlockedAll
  | mboxBlocked
  | condBlocked
  | running
  | pending
  deriving DecidableEq, Repr

/-- `st >= STATUS_ON_RUNQUEUE`: the last two values of the enumeration. -/
def ThreadStatus.onRunqueue : ThreadStatus → Bool
  | .running => true
  | .pending => true
  | _ => false

@[simp] theorem ThreadStatus.onRunqueue_running : running.onRunqueue = true := rfl
@[simp] theorem ThreadStatus.onRunqueue_pending : pending.onRunqueue = true := rfl

/-- The wait lists of the kernel. -/
inductive WaitList (n : Nat) where
  /-- `thread_t::msg_waiters` -/
  | msgWaiters (t : Fin n)
  /-- `mutex_t::queue` -/
  | mutexQueue (m : Nat)
  /-- `mbox_t::readers` -/
  | mboxReaders (b : Nat)
  /-- `mbox_t::writers` -/
  | mboxWriters (b : Nat)
  /-- `cond_t::queue` -/
  | condQueue (c : Nat)
  deriving DecidableEq

/-- The list heads: `sched_runqueues[p]` and the wait lists. -/
inductive Head (n : Nat) where
  | runqueue (p : Nat)
  | wait (w : WaitList n)
  deriving DecidableEq

/-- The run queues are circular, the wait lists are not. -/
def Head.IsRunqueue {n : Nat} : Head n → Prop
  | .runqueue _ => True
  | .wait _ => False

/-- Whether a status says that the thread waits in a list of this kind. -/
def ThreadStatus.waitsIn {n : Nat} : ThreadStatus → WaitList n → Bool
  | .mutexBlocked, .mutexQueue _ => true
  | .sendBlocked, .msgWaiters _ => true
  | .replyBlocked, .msgWaiters _ => true
  | .mboxBlocked, .mboxReaders _ => true
  | .mboxBlocked, .mboxWriters _ => true
  | .condBlocked, .condQueue _ => true
  | _, _ => false

/-- The scheduler's part of the kernel state. -/
structure Sched (n : Nat) where
  /-- `thread_t::pid` -/
  pid : Fin n → Nat
  /-- `thread_t::status` -/
  status : Fin n → ThreadStatus
  /-- `thread_t::priority` -/
  priority : Fin n → Nat
  /-- every `list_node_t::next` -/
  next : NodeMem (Head n) (Fin n)
  /-- `runqueue_bitcache` -/
  runqueueBitcache : BitVec 32
  /-- `sched_threads` -/
  schedThreads : Nat → Option (Fin n)
  /-- `sched_num_threads` -/
  schedNumThreads : Int
  /-- `sched_active_thread` -/
  schedActiveThread : Option (Fin n)
  /-- `sched_active_pid` -/
  schedActivePid : Nat

variable {n : Nat}

/-- The control block is in the thread table. -/
def Sched.Live (s : Sched n) (t : Fin n) : Prop := s.schedThreads (s.pid t) = some t

instance (s : Sched n) (t : Fin n) : Decidable (s.Live t) :=
  inferInstanceAs (Decidable (s.schedThreads (s.pid t) = some t))

def threadGet (cfg : Cfg) (s : Sched n) (pid : Nat) : Option (Fin n) :=
  if cfg.pidIsValid pid then s.schedThreads pid else none

def threadIsActive (s : Sched n) (t : Fin n) : Bool := (s.status t).onRunqueue

/-- More steps than a list of threads has elements. -/
def listFuel (n : Nat) : Nat := n + 1

/-! ## The run queue bit cache -/

/-- The bit that stands for a priority. -/
def runqueueBit (cfg : Cfg) (priority : Nat) : BitVec 32 :=
  if cfg.hasClz then 0x80000000#32 >>> priority else 1#32 <<< priority

def setRunqueueBit (cfg : Cfg) (bitcache : BitVec 32) (priority : Nat) : BitVec 32 :=
  bitcache ||| runqueueBit cfg priority

def clearRunqueueBit (cfg : Cfg) (bitcache : BitVec 32) (priority : Nat) : BitVec 32 :=
  bitcache &&& ~~~(runqueueBit cfg priority)

def getPrioQueueFromRunqueue (cfg : Cfg) (bitcache : BitVec 32) : Nat :=
  if cfg.hasClz then 31 - bitarithmMsb bitcache else bitarithmLsb cfg.lsbImpl bitcache

/-! ## Run queues and status -/

def runqueuePush (cfg : Cfg) (s : Sched n) (t : Fin n) (priority : Nat) : Sched n :=
  { s with
    next := clistRpush s.next (.head (.runqueue priority)) t
    runqueueBitcache := setRunqueueBit cfg s.runqueueBitcache priority }

def runqueuePop (cfg : Cfg) (s : Sched n) (t : Fin n) : Sched n :=
  let rq : Node (Head n) (Fin n) := .head (.runqueue (s.priority t))
  let next := clistRemove s.next (listFuel n) rq t
  { s with
    next := next
    runqueueBitcache :=
      if next rq = .null then
        clearRunqueueBit cfg s.runqueueBitcache (s.priority t)
      else
        s.runqueueBitcache }

def schedSetStatus (cfg : Cfg) (s : Sched n) (t : Fin n) (st : ThreadStatus) : Sched n :=
  let s :=
    if st.onRunqueue then
      if (s.status t).onRunqueue then s else runqueuePush cfg s t (s.priority t)
    else
      if (s.status t).onRunqueue then runqueuePop cfg s t else s
  { s with status := update s.status t st }

def schedChangePriority (cfg : Cfg) (s : Sched n) (t : Fin n) (priority : Nat) : Sched n :=
  if s.priority t = priority then
    s
  else
    let s := if threadIsActive s t then runqueuePush cfg (runqueuePop cfg s t) t priority else s
    { s with priority := update s.priority t priority }

def schedRunqAdvance (s : Sched n) (priority : Nat) : Sched n :=
  { s with next := clistLpoprpush s.next (.head (.runqueue priority)) }

/-! ## Switching -/

def unschedule (s : Sched n) (t : Fin n) : Sched n :=
  if s.status t = .running then
    { s with status := update s.status t .pending }
  else
    s

/-- The end of `sched_run`, once `nextThread` is chosen: `activeThread` is the
local variable of that name, cleared when the scheduler went through idle. -/
def schedSwitchTo (s : Sched n) (previousThread activeThread : Option (Fin n))
    (nextThread : Fin n) : Sched n :=
  let s := { s with status := update s.status nextThread .running }
  if previousThread = some nextThread then
    s
  else
    let s :=
      match activeThread with
      | some t => unschedule s t
      | none => s
    { s with
      schedActivePid := s.pid nextThread
      schedActiveThread := some nextThread }

/-- The choice of `sched_run`: the head of the queue the bit cache names. -/
def schedNextThread (cfg : Cfg) (s : Sched n) : Link (Fin n) :=
  clistLpeek s.next (.head (.runqueue (getPrioQueueFromRunqueue cfg s.runqueueBitcache)))

/-! ## Wait lists -/

/-- The loop of `thread_add_to_list`: the node to insert behind. -/
def threadAddToListPos (s : Sched n) (myPrio : Nat) :
    Nat → Node (Head n) (Fin n) → Node (Head n) (Fin n)
  | 0, list => list
  | fuel + 1, list =>
    match s.next list with
    | .ref listEntry =>
      if s.priority listEntry > myPrio then
        list
      else
        threadAddToListPos s myPrio fuel (.entry listEntry)
    | _ => list

def threadAddToList (s : Sched n) (list : Node (Head n) (Fin n)) (t : Fin n) : Sched n :=
  let pos := threadAddToListPos s (s.priority t) (listFuel n) list
  let next := update s.next (.entry t) (s.next pos)
  { s with next := update next pos (.ref t) }

end Riot.Core
