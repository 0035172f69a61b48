import Riot.Core.MutexHist

/-!
# Recursive mutexes

`core/lib/rmutex.c`, over the mutexes of the kernel. The functions are cut in front of
every access to `owner` and `refcount`, and where `core/mutex.c` enables interrupts, so
that any other thread may run between two accesses. A thread that is in none of them may
use the other mutexes meanwhile, and so may the interrupts.
-/

namespace Riot.Core

open Function

variable {n : Nat}

/-- Where a thread is in the functions. -/
inductive RmutexPc where
  | idle
  /-- in `_lock`, where `mutex_trylock` has returned 0 -/
  | tried (trylock : Bool)
  /-- in front of `mutex_lock` -/
  | locking
  /-- in `mutex_lock` -/
  | blocked
  /-- in front of the write to `owner` -/
  | got
  /-- in front of `refcount++` -/
  | owned
  | loaded (refcount : BitVec 16)
  /-- in `rmutex_unlock`, between its assertions -/
  | asserted
  /-- in front of `refcount--` -/
  | unlocking
  | lowered (refcount : BitVec 16)
  /-- in front of the comparison with 0 -/
  | stored
  /-- in front of the write to `owner` -/
  | resetting
  /-- in front of `mutex_unlock` -/
  | releasing
  /-- an assertion has failed -/
  | failed
deriving DecidableEq

/-- `rmutex_t`, with the kernel that its `mutex` is in. -/
structure Rmutex (n : Nat) where
  kernel : Kernel n
  /-- The locked mutexes of the kernel with their holders. -/
  held : List (Nat × Fin n)
  refcount : BitVec 16
  owner : Nat
  pc : Fin n → RmutexPc
  /-- What `_lock` has returned last. -/
  ret : Fin n → Option Nat
  /-- How often a thread has returned from locking it, less how often from unlocking it. -/
  depth : Fin n → Nat

def rmutexInit (k : Kernel n) : Rmutex n where
  kernel := k
  held := []
  refcount := 0
  owner := kernelPidUndef
  pc := fun _ => .idle
  ret := fun _ => none
  depth := fun _ => 0

def Rmutex.goto (s : Rmutex n) (me : Fin n) (pc : RmutexPc) : Rmutex n :=
  { s with pc := update s.pc me pc }

/-- A section of `core/mutex.c`. -/
def Rmutex.withMutex (cfg : Cfg) (s : Rmutex n) (e : MutexEvent n) : Option (Rmutex n × MutexOut n) :=
  (mutexStep cfg s.kernel e).map fun r => ({ s with kernel := r.1, held := heldAfter s.held r.2 }, r.2)

/-- The end of `_lock`. -/
def Rmutex.locked (s : Rmutex n) (me : Fin n) : Rmutex n :=
  { s.goto me .idle with
    ret := update s.ret me (some 1)
    depth := update s.depth me (s.depth me + 1) }

/-- `return 0` in `_lock` -/
def Rmutex.refused (s : Rmutex n) (me : Fin n) : Rmutex n :=
  { s.goto me .idle with ret := update s.ret me (some 0) }

/-- The end of `rmutex_unlock`. -/
def Rmutex.unlocked (s : Rmutex n) (me : Fin n) : Rmutex n :=
  { s.goto me .idle with depth := update s.depth me (s.depth me - 1) }

/-- `mutex_trylock` in `_lock` -/
def rmutexTrylock (cfg : Cfg) (m : Nat) (s : Rmutex n) (me : Fin n) (trylock : Bool) : Option (Rmutex n) :=
  (s.withMutex cfg (.call me (.trylock m))).map fun r =>
    match r.2 with
    | .locked _ _ _ => r.1.goto me .got
    | _ => r.1.goto me (.tried trylock)

/-- `mutex_lock` in `_lock`, up to where the thread is blocked. -/
def rmutexMutexLock (cfg : Cfg) (m : Nat) (s : Rmutex n) (me : Fin n) : Option (Rmutex n) :=
  (s.withMutex cfg (.call me (.lock m))).map fun r =>
    match r.2 with
    | .locked _ _ _ => r.1.goto me .got
    | _ => r.1.goto me .blocked

/-- `mutex_lock` has got the mutex from the thread that unlocked it. -/
def rmutexWoken (cfg : Cfg) (s : Rmutex n) (me : Fin n) : Option (Rmutex n) :=
  (s.withMutex cfg (.resume me)).map fun r => r.1.goto me .got

/-- `mutex_unlock` in `rmutex_unlock` -/
def rmutexMutexUnlock (cfg : Cfg) (m : Nat) (s : Rmutex n) (me : Fin n) : Option (Rmutex n) :=
  (s.withMutex cfg (.call me (.unlock m))).map fun r => r.1.unlocked me

/-- One access to `owner` or `refcount`, by the running thread. -/
def rmutexAccess (s : Rmutex n) (me : Fin n) : RmutexPc → Option (Rmutex n)
  | .tried trylock =>
    if s.owner ≠ s.kernel.sched.schedActivePid then
      if trylock then some (s.refused me) else some (s.goto me .locking)
    else some (s.goto me .got)
  | .got => some { s.goto me .owned with owner := s.kernel.sched.schedActivePid }
  | .owned => some (s.goto me (.loaded s.refcount))
  | .loaded refcount => some { s.locked me with refcount := refcount + 1 }
  | .asserted => some (s.goto me (if s.refcount > 0 then .unlocking else .failed))
  | .unlocking => some (s.goto me (.lowered s.refcount))
  | .lowered refcount => some { s.goto me .stored with refcount := refcount - 1 }
  | .stored => some (if s.refcount = 0 then s.goto me .resetting else s.unlocked me)
  | .resetting => some { s.goto me .releasing with owner := kernelPidUndef }
  | _ => none

/-- Lets the thread run that is in no function of `core/mutex.c`. -/
def Rmutex.running (s : Rmutex n) (me : Fin n) : Option (Rmutex n) :=
  (dispatch s.kernel me).bind fun k => if k.cont me = .idle then some { s with kernel := k } else none

/-- The next step of a thread in one of the functions. -/
def rmutexGo (cfg : Cfg) (m : Nat) (s : Rmutex n) (me : Fin n) : Option (Rmutex n) :=
  match s.pc me with
  | .locking => rmutexMutexLock cfg m s me
  | .blocked => rmutexWoken cfg s me
  | .releasing => rmutexMutexUnlock cfg m s me
  | pc => (s.running me).bind fun s => rmutexAccess s me pc

/-- `rmutex_unlock`, up to its first assertion. -/
def rmutexUnlock (s : Rmutex n) (me : Fin n) : Option (Rmutex n) :=
  (s.running me).map fun s =>
    s.goto me (if s.owner = s.kernel.sched.schedActivePid then .asserted else .failed)

/-- The section is about other mutexes, and not by a thread in one of the functions. -/
def Rmutex.Foreign (m : Nat) (s : Rmutex n) : MutexEvent n → Prop
  | .call me (.lock m') => s.pc me = .idle ∧ m' ≠ m
  | .call me (.trylock m') => s.pc me = .idle ∧ m' ≠ m
  | .call me (.cancelInit _ m') => s.pc me = .idle ∧ m' ≠ m
  | .call me (.lockCancelable mc) => s.pc me = .idle ∧ ∀ c ∈ s.kernel.mutexCancel mc, c.mutex ≠ m
  | .call me (.unlock m') => s.pc me = .idle ∧ m' ≠ m
  | .call me (.unlockAndSleep m') => s.pc me = .idle ∧ m' ≠ m
  | .call me (.cancel mc) => s.pc me = .idle ∧ ∀ c ∈ s.kernel.mutexCancel mc, c.mutex ≠ m
  | .resume me => s.pc me = .idle
  | .isrUnlock m' => m' ≠ m
  | .isrCancel mc => ∀ c ∈ s.kernel.mutexCancel mc, c.mutex ≠ m
  | .wakeup _ => True

instance (m : Nat) (s : Rmutex n) : (e : MutexEvent n) → Decidable (s.Foreign m e)
  | .call _ (.lock _) | .call _ (.trylock _) | .call _ (.cancelInit _ _) | .call _ (.lockCancelable _)
  | .call _ (.unlock _) | .call _ (.unlockAndSleep _) | .call _ (.cancel _) =>
    inferInstanceAs (Decidable (_ ∧ _))
  | .resume _ => inferInstanceAs (Decidable (_ = _))
  | .isrUnlock _ => inferInstanceAs (Decidable (_ ≠ _))
  | .isrCancel mc => inferInstanceAs (Decidable (∀ c ∈ s.kernel.mutexCancel mc, c.mutex ≠ m))
  | .wakeup _ => inferInstanceAs (Decidable True)

/-- Threads call the functions, correctly nested, and go on in them. -/
inductive RmutexEvent (n : Nat) where
  | lock (me : Fin n) (trylock : Bool)
  | unlock (me : Fin n)
  | go (me : Fin n)
  | other (e : MutexEvent n)
deriving DecidableEq

/-- One step, with the mutex of the number `m` as the inner one. -/
def rmutexStep (cfg : Cfg) (m : Nat) (s : Rmutex n) : RmutexEvent n → Option (Rmutex n)
  | .lock me trylock => if s.pc me = .idle then rmutexTrylock cfg m s me trylock else none
  | .unlock me => if s.pc me = .idle ∧ 0 < s.depth me then rmutexUnlock s me else none
  | .go me => rmutexGo cfg m s me
  | .other e => if s.Foreign m e then (s.withMutex cfg e).map Prod.fst else none

/-! ## What should hold -/

/-- The thread holds the inner mutex. -/
def Rmutex.Holds (m : Nat) (s : Rmutex n) (t : Fin n) : Prop := (m, t) ∈ s.held

instance (m : Nat) (s : Rmutex n) (t : Fin n) : Decidable (s.Holds m t) :=
  inferInstanceAs (Decidable (_ ∈ _))

/-- **The lock is recursive and exclusive.** -/
structure RmutexRight (m : Nat) (s : Rmutex n) : Prop where
  exclusive : ∀ t u, s.Holds m t → s.Holds m u → t = u
  /-- Nobody holds it exactly if its mutex is free. -/
  free : (∀ t, ¬ s.Holds m t) ↔ ¬ MutexLocked s.kernel m
  /-- Who has locked it holds it. -/
  holds : ∀ t, 0 < s.depth t → s.Holds m t
  /-- Outside of the functions the holder is the owner, as deep in it as `refcount` says. -/
  outside : ∀ t, s.pc t = .idle → s.Holds m t →
    s.owner = s.kernel.sched.pid t ∧ 0 < s.depth t ∧ s.refcount.toNat = s.depth t
  no_failure : ∀ t, s.pc t ≠ .failed

/-- The step has left the lock alone. -/
structure SameLock (s s' : Rmutex n) : Prop where
  owner : s'.owner = s.owner
  refcount : s'.refcount = s.refcount
  held : s'.held = s.held
  depth : s'.depth = s.depth
  queues : s'.kernel.sched.next = s.kernel.sched.next
  mutex : s'.kernel.mutex = s.kernel.mutex

/-- What a step does to the lock. -/
structure RmutexStepRight (m : Nat) (s : Rmutex n) (e : RmutexEvent n) (s' : Rmutex n) : Prop where
  /-- `rmutex_trylock` changes nothing when another thread holds the lock, -/
  trylock : ∀ me t, e = .lock me true → s.Holds m t → t ≠ me →
    SameLock s s' ∧ s'.pc = update s.pc me (.tried true)
  /-- and then returns 0. -/
  trylock_ret : ∀ me, e = .go me → s.pc me = .tried true → ¬ s.Holds m me →
    SameLock s s' ∧ s'.pc = update s.pc me .idle ∧ s'.ret = update s.ret me (some 0)
  /-- The lock is given back at the end of the outermost `rmutex_unlock`, -/
  released : ∀ t, s.Holds m t → ¬ s'.Holds m t → e = .go t ∧ s.depth t = 1 ∧ s'.depth t = 0
  /-- and nowhere before it. -/
  outermost : ∀ t, s.depth t ≠ 0 → s'.depth t = 0 → ¬ s'.Holds m t

/-- Nobody locks it who holds it as often as `refcount` can count. -/
def NestsBelow (s : Rmutex n) : RmutexEvent n → Prop
  | .lock me _ => s.depth me < 65535
  | _ => True

instance (s : Rmutex n) (e : RmutexEvent n) : Decidable (NestsBelow s e) := by
  unfold NestsBelow
  cases e <;> infer_instance

end Riot.Core
