import Riot.Core.Kernel

/-!
# Mutexes

`core/mutex.c`. The head of `mutex_t::queue` holds three kinds of values: no
link when the mutex is unlocked, the mark `MUTEX_LOCKED` when nobody waits for
it, and the first waiter otherwise.

The functions that may block are cut there, as `_block` has nothing to do after
its thread has been woken: `mutex_lock` returns, and `mutex_lock_cancelable`
looks at the flag in its `mutex_cancel_t` and returns.
-/

namespace Riot.Core

open Function

variable {n : Nat}

/-- `-ECANCELED` -/
def negEcanceled : Int := -125

/-- What the lock functions return: `mutex_lock_internal` a `bool`,
`mutex_lock_cancelable` an `int`. -/
inductive MutexRet where
  | bool (b : Bool)
  | int (i : Int)
  deriving DecidableEq

/-- How a section of a mutex function ends. -/
inductive MutexOut (n : Nat) where
  /-- nothing is returned, and nobody's ownership or place changes -/
  | nothing
  /-- the caller waits -/
  | blocked (m : Nat) (me : Fin n)
  /-- returns with the mutex, which was unlocked -/
  | locked (m : Nat) (me : Fin n) (ret : MutexRet)
  /-- returns at once without the mutex -/
  | refused (m : Nat) (me : Fin n) (ret : MutexRet)
  /-- a lock function that has waited returns -/
  | woken (m : Nat) (me : Fin n) (ret : MutexRet)
  /-- the mutex is unlocked -/
  | released (m : Nat)
  /-- the mutex goes to a waiter -/
  | handed (m : Nat) (process : Fin n)
  /-- a waiter is taken off the queue -/
  | dequeued (m : Nat) (thread : Fin n)
  deriving DecidableEq

/-- The owner's part of `_block`: `sched_change_priority` of the recorded owner. -/
def mutexBoost (cfg : Cfg) (s : Sched n) (mutex : Mutex) (me : Fin n) : Sched n :=
  if cfg.priorityInheritance then
    match threadGet cfg s mutex.owner with
    | some owner =>
      if s.priority owner > s.priority me then
        schedChangePriority cfg s owner (s.priority me)
      else
        s
    | none => s
  else
    s

/-- The owner's part of `mutex_unlock`. -/
def mutexRestore (cfg : Cfg) (s : Sched n) (mutex : Mutex) : Sched n :=
  if cfg.priorityInheritance then
    match threadGet cfg s mutex.owner with
    | some owner =>
      if s.priority owner ≠ mutex.ownerOriginalPriority then
        schedChangePriority cfg s owner mutex.ownerOriginalPriority
      else
        s
    | none => s
  else
    s

/-- The queue's part of `_block`. -/
def mutexEnqueue (cfg : Cfg) (s : Sched n) (m : Nat) (me : Fin n) : Sched n :=
  let s := schedSetStatus cfg s me .mutexBlocked
  if s.next (waitHead (.mutexQueue m)) = .mark then
    { s with
      next := update (update s.next (waitHead (.mutexQueue m)) (.ref me))
        (.entry me) .null }
  else
    threadAddToList s (waitHead (.mutexQueue m)) me

/-- `_block` up to the context switch. -/
def mutexBlock (cfg : Cfg) (k : Kernel n) (m : Nat) (me : Fin n) (c : Cont) : Kernel n :=
  { k with
    sched := mutexBoost cfg (mutexEnqueue cfg k.sched m me) (k.mutex m) me
    cont := update k.cont me c }

/-- The early out of the lock functions: the mutex was unlocked. -/
def mutexTake (cfg : Cfg) (k : Kernel n) (m : Nat) (me : Fin n) : Kernel n :=
  { k with
    sched :=
      { k.sched with next := update k.sched.next (waitHead (.mutexQueue m)) .mark }
    mutex :=
      if cfg.priorityInheritance then
        update k.mutex m
          { owner := k.sched.pid me, ownerOriginalPriority := k.sched.priority me }
      else
        k.mutex }

def mutexLockInternal (cfg : Cfg) (k : Kernel n) (m : Nat) (me : Fin n) (block : Bool) :
    Kernel n × MutexOut n :=
  if k.sched.next (waitHead (.mutexQueue m)) = .null then
    (mutexTake cfg k m me, .locked m me (.bool true))
  else if block then
    (mutexBlock cfg k m me (.mutexLock m), .blocked m me)
  else
    (k, .refused m me (.bool false))

def mutexCancelInit (k : Kernel n) (mc m : Nat) (me : Fin n) : Kernel n :=
  { k with mutexCancel := update k.mutexCancel mc (some ⟨m, me, false⟩) }

/-- `mutex_lock_cancelable`; `c` is what `mc` points at. -/
def mutexLockCancelable (cfg : Cfg) (k : Kernel n) (mc : Nat) (c : MutexCancel n) (me : Fin n) :
    Kernel n × MutexOut n :=
  if c.cancelled then
    (k, .refused c.mutex me (.int negEcanceled))
  else if k.sched.next (waitHead (.mutexQueue c.mutex)) = .null then
    (mutexTake cfg k c.mutex me, .locked c.mutex me (.int 0))
  else
    (mutexBlock cfg k c.mutex me (.mutexLockCancelable mc), .blocked c.mutex me)

/-- Taking the first waiter off the queue and waking it; the last one leaves the
mutex locked. -/
def mutexHandOver (cfg : Cfg) (s : Sched n) (m : Nat) (process : Fin n) : Sched n :=
  let s := schedSetStatus cfg
    { s with next := (listRemoveHead s.next (waitHead (.mutexQueue m))).2 } process .pending
  if s.next (waitHead (.mutexQueue m)) = .null then
    { s with next := update s.next (waitHead (.mutexQueue m)) .mark }
  else
    s

def mutexUnlock (cfg : Cfg) (k : Kernel n) (m : Nat) : Kernel n × MutexOut n :=
  match k.sched.next (waitHead (.mutexQueue m)) with
  | .null => (k, .nothing)
  | .mark =>
    ({ k with
        sched :=
          { k.sched with next := update k.sched.next (waitHead (.mutexQueue m)) .null } },
      .released m)
  | .ref process =>
    ({ k with sched := mutexRestore cfg (mutexHandOver cfg k.sched m process) (k.mutex m) },
      .handed m process)

def mutexUnlockAndSleep (cfg : Cfg) (k : Kernel n) (m : Nat) (me : Fin n) :
    Kernel n × MutexOut n :=
  let r : Sched n × MutexOut n :=
    match k.sched.next (waitHead (.mutexQueue m)) with
    | .null => (k.sched, .nothing)
    | .mark =>
      ({ k.sched with next := update k.sched.next (waitHead (.mutexQueue m)) .null },
        .released m)
    | .ref process => (mutexHandOver cfg k.sched m process, .handed m process)
  ({ k with
      sched := schedSetStatus cfg r.1 me .sleeping
      cont := update k.cont me .sleep },
    r.2)

/-- `mutex_cancel`; `c` is what `mc` points at. -/
def mutexCancel (cfg : Cfg) (k : Kernel n) (mc : Nat) (c : MutexCancel n) :
    Kernel n × MutexOut n :=
  let k :=
    { k with mutexCancel := update k.mutexCancel mc (some { c with cancelled := true }) }
  if threadIsActive k.sched c.thread then
    (k, .nothing)
  else
    match k.sched.next (waitHead (.mutexQueue c.mutex)) with
    | .ref _ =>
      let r := listRemove k.sched.next c.thread (listFuel n) (waitHead (.mutexQueue c.mutex))
      if r.1 then
        let s : Sched n := { k.sched with next := r.2 }
        let s : Sched n :=
          if s.next (waitHead (.mutexQueue c.mutex)) = .null then
            { s with next := update s.next (waitHead (.mutexQueue c.mutex)) .mark }
          else
            s
        ({ k with sched := schedSetStatus cfg s c.thread .pending }, .dequeued c.mutex c.thread)
      else
        (k, .nothing)
    | _ => (k, .nothing)

/-- `thread_wakeup`: the new state and the return value. -/
def threadWakeup (cfg : Cfg) (s : Sched n) (pid : Nat) : Sched n × Bool :=
  match threadGet cfg s pid with
  | some t =>
    if s.status t = .sleeping then (schedSetStatus cfg s t .pending, true) else (s, false)
  | none => (s, false)

/-- The calls a thread makes. -/
inductive MutexCall where
  | lock (m : Nat)
  | trylock (m : Nat)
  | cancelInit (mc m : Nat)
  | lockCancelable (mc : Nat)
  | unlock (m : Nat)
  | unlockAndSleep (m : Nat)
  | cancel (mc : Nat)
  deriving DecidableEq

/-- The first section of a call. -/
def mutexCall (cfg : Cfg) (k : Kernel n) (me : Fin n) : MutexCall → Option (Kernel n × MutexOut n)
  | .lock m => some (mutexLockInternal cfg k m me true)
  | .trylock m => some (mutexLockInternal cfg k m me false)
  | .cancelInit mc m => some (mutexCancelInit k mc m me, .nothing)
  | .lockCancelable mc => (k.mutexCancel mc).map fun c => mutexLockCancelable cfg k mc c me
  | .unlock m => some (mutexUnlock cfg k m)
  | .unlockAndSleep m => some (mutexUnlockAndSleep cfg k m me)
  | .cancel mc => (k.mutexCancel mc).map fun c => mutexCancel cfg k mc c

/-- What a thread does that was woken in `_block` or from its sleep. -/
def mutexResume (k : Kernel n) (me : Fin n) : Option (Kernel n × MutexOut n) :=
  let k' := { k with cont := update k.cont me .idle }
  match k.cont me with
  | .mutexLock m => some (k', .woken m me (.bool true))
  | .mutexLockCancelable mc =>
    (k.mutexCancel mc).map fun c =>
      (k', .woken c.mutex me (.int (if c.cancelled then negEcanceled else 0)))
  | .sleep => some (k', .nothing)
  | _ => none

/-- Threads call and continue, interrupts unlock and cancel, anybody wakes up. -/
inductive MutexEvent (n : Nat) where
  | call (me : Fin n) (c : MutexCall)
  | resume (me : Fin n)
  | isrUnlock (m : Nat)
  | isrCancel (mc : Nat)
  | wakeup (pid : Nat)
  deriving DecidableEq

/-- One section. -/
def mutexStep (cfg : Cfg) (k : Kernel n) : MutexEvent n → Option (Kernel n × MutexOut n)
  | .call me c =>
    (dispatch k me).bind fun k => if k.cont me = .idle then mutexCall cfg k me c else none
  | .resume me => (dispatch k me).bind fun k => mutexResume k me
  | .isrUnlock m => some (mutexUnlock cfg k m)
  | .isrCancel mc => (k.mutexCancel mc).map fun c => mutexCancel cfg k mc c
  | .wakeup pid => some ({ k with sched := (threadWakeup cfg k.sched pid).1 }, .nothing)

end Riot.Core
