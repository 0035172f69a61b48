import Riot.Core.Sched

/-!
# Thread flags

`core/thread_flags.c`, as far as a thread waits for any of a set of flags. A call is cut
where it enables interrupts again: `thread_flags_wait_any` first goes to sleep unless a
flag is set, and clears what it waited for when it runs again.
-/

namespace Riot.Core

/-- The fields of `thread_t` that flags use; `waitData` is the mask waited for. -/
structure FlagThread where
  flags : BitVec 16
  waitData : BitVec 16
  status : ThreadStatus

variable {thread : FlagThread} {mask : BitVec 16}

/-- The decision of `_thread_flags_wake`. -/
def FlagThread.wakeup (thread : FlagThread) : Bool :=
  let mask := thread.waitData
  match thread.status with
  | .flagBlockedAny => decide (thread.flags &&& mask ≠ 0)
  | .flagBlockedAll => decide (thread.flags &&& mask = mask)
  | _ => false

def threadFlagsWake (thread : FlagThread) : Bool × FlagThread :=
  (thread.wakeup, if thread.wakeup then { thread with status := .pending } else thread)

/-- `thread_flags_set`, but for the context switch that follows. -/
def threadFlagsSet (thread : FlagThread) (mask : BitVec 16) : FlagThread :=
  (threadFlagsWake { thread with flags := thread.flags ||| mask }).2

def threadFlagsClearAtomic (thread : FlagThread) (mask : BitVec 16) : BitVec 16 × FlagThread :=
  let mask := mask &&& thread.flags
  (mask, { thread with flags := thread.flags &&& ~~~mask })

/-- `_thread_flags_wait_any`, up to where the thread is blocked or goes on. -/
def threadFlagsWaitAny (thread : FlagThread) (mask : BitVec 16) : FlagThread :=
  if thread.flags &&& mask = 0 then
    { thread with waitData := mask, status := .flagBlockedAny }
  else thread

theorem or_and_eq_zero {a b c : BitVec 16} : (a ||| b) &&& c = 0 ↔ a &&& c = 0 ∧ b &&& c = 0 := by
  rw [BitVec.and_or_distrib_right]
  exact BitVec.or_eq_zero_iff

theorem threadFlagsSet_flags : (threadFlagsSet thread mask).flags = thread.flags ||| mask := by
  unfold threadFlagsSet threadFlagsWake
  split <;> rfl

theorem threadFlagsSet_waitData : (threadFlagsSet thread mask).waitData = thread.waitData := by
  unfold threadFlagsSet threadFlagsWake
  split <;> rfl

/-- Setting flags blocks no thread, and leaves one blocked only if it waits for others. -/
theorem threadFlagsSet_blocked (h : (threadFlagsSet thread mask).status = .flagBlockedAny) :
    thread.status = .flagBlockedAny ∧ (thread.flags ||| mask) &&& thread.waitData = 0 := by
  unfold threadFlagsSet threadFlagsWake at h
  split at h
  · cases h
  next hwakeup =>
    refine ⟨h, ?_⟩
    unfold FlagThread.wakeup at hwakeup
    rw [h] at hwakeup
    simpa using hwakeup

/-- A thread that waits for any of some flags wakes up when all of them are set. -/
theorem threadFlagsSet_wakes (hne : thread.waitData ≠ 0) :
    (threadFlagsSet thread thread.waitData).status ≠ .flagBlockedAny := by
  intro h
  have hzero := (or_and_eq_zero.mp (threadFlagsSet_blocked h).2).2
  exact hne (BitVec.and_self.symm.trans hzero)

end Riot.Core
