import Riot.Ztimer.Core

/-!
# Timer clocks on a narrow counter (`MODULE_ZTIMER_EXTEND`)

A clock whose lower layer counts modulo `2 ^ w`. Its time is added up from what the counter has
moved between two readings, and the lower layer is set for half of its range at most, so that it
is read before it has gone round. The functions of the list are those of any clock.

The lower layer calls `ztimer_handler` no earlier than it was set for, and is through with it no
more than `latency` ticks later, the callbacks included.
-/

namespace Riot.Ztimer.Extend

variable {T : Type} [DecidableEq T] [Fintype T]

/-- `max_value`, of a counter of `w` bits -/
def maxValue (w : Nat) : UInt32 := UInt32.ofNat (2 ^ w - 1)

/-- A clock, its checkpoint and its lower layer. -/
structure Sys (T : Type) where
  clock : Clock T
  lowerLast : UInt32
  checkpoint : UInt32
  /-- the ticks that have elapsed, of which the lower layer shows the last `w` bits -/
  time : Nat
  /-- what the lower layer was last set for -/
  alarm : Nat
  /-- a callback is running -/
  handling : Bool
  /-- the tick each timer was last set for -/
  target : T → Nat
  fired : List (Firing T)

variable (w : Nat)

/-- `clock->ops->now` -/
def Sys.lowerNow (s : Sys T) : UInt32 := UInt32.ofNat (s.time % 2 ^ w)

/-- `clock->ops->set` -/
def Sys.set (s : Sys T) (val : UInt32) : Sys T := { s with alarm := s.time + val.toNat }

def addModulo (a b mod : UInt32) : UInt32 := (if a < b then a + (mod + 1) else a) - b

/-- `_ztimer_now_extend` -/
def ztimerNow (s : Sys T) : UInt32 × Sys T :=
  let lowerNow := s.lowerNow w
  let checkpoint := s.checkpoint + addModulo lowerNow s.lowerLast (maxValue w)
  (checkpoint, { s with checkpoint := checkpoint, lowerLast := lowerNow })

def ztimerUpdate (s : Sys T) : Sys T :=
  match s.clock.next list with
  | .ref entry => s.set (min (s.clock.offset (.entry entry)) (maxValue w >>> 1))
  | _ => s.set (maxValue w >>> 1)

def ztimerSet (s : Sys T) (timer : T) (val : UInt32) : UInt32 × Sys T :=
  let (now, s) := ztimerNow w s
  let c := ztimerUpdateHeadOffset s.clock now
  let c := if isSet c timer then (delEntryFromList c timer).2 else c
  let val := adjusted c.adjustSet val
  let c := addEntryToList { c with offset := Function.update c.offset (.entry timer) val } timer
  (now, ztimerUpdate w { s with clock := c, target := Function.update s.target timer (s.time + val.toNat) })

def ztimerRemove (s : Sys T) (timer : T) : Bool × Sys T :=
  if isSet s.clock timer then
    let (now, s) := ztimerNow w s
    let (wasRemoved, c) := delEntryFromList (ztimerUpdateHeadOffset s.clock now) timer
    (wasRemoved, ztimerUpdate w { s with clock := c })
  else (false, s)

/-- Runs the callback of a timer that was taken off the list. -/
def trigger (s : Sys T) (c : Clock T) (entry : T) : Sys T :=
  { s with
    clock := c
    handling := true
    fired := s.fired ++ [{ timer := entry, target := s.target entry, tick := s.time }] }

/-- `ztimer_handler`, up to the first callback. -/
def ztimerHandler (s : Sys T) : Sys T :=
  let (now, s) := ztimerNow w s
  match s.clock.next list with
  | .ref head =>
    let target := s.clock.offset list + s.clock.offset (.entry head)
    let diff := (target - now).toInt32
    -- an intermediate interrupt
    if 0 < diff then s.set (min (target - now) (maxValue w >>> 1))
    else
      match nowNext (expireHead s.clock head) with
      | (some entry, c) => trigger s c entry
      | (none, c) => ztimerUpdate w { s with clock := c }
  | _ => s.set (maxValue w >>> 1)

/-- `ztimer_handler`, from the return of a callback to the next one or to its end. -/
def ztimerHandlerResume (s : Sys T) : Sys T :=
  match nowNext s.clock with
  | (some entry, c) => trigger s c entry
  | (none, c) =>
    -- see if any more alarms expired during callback processing
    let (now, s) := ztimerNow w { s with clock := c }
    match nowNext (ztimerUpdateHeadOffset s.clock now) with
    | (some entry, c) => trigger s c entry
    | (none, c) => ztimerUpdate w { s with clock := c, handling := false }

/-! ## Runs -/

inductive Event (T : Type) where
  | set (timer : T) (val : UInt32)
  | remove (timer : T)
  /-- `ztimer_now` -/
  | now
  /-- ticks of the lower layer -/
  | advance (ticks : Nat)
  /-- the lower layer calls `ztimer_handler` -/
  | handler
  /-- a callback returns -/
  | resume

def step (latency : Nat) (s : Sys T) : Event T → Option (Sys T)
  | .set timer val => some (ztimerSet w s timer val).2
  | .remove timer => some (ztimerRemove w s timer).2
  | .now => some (ztimerNow w s).2
  | .advance ticks => if s.time + ticks ≤ s.alarm + latency then some { s with time := s.time + ticks } else none
  | .handler => if s.handling = false ∧ s.alarm ≤ s.time then some (ztimerHandler w s) else none
  | .resume => if s.handling then some (ztimerHandlerResume w s) else none

/-- A clock without timers that was read at a checkpoint, and set for the first intermediate
interrupt. After `ztimer_init_extend` of a counter that starts, `time` and `checkpoint` are 0. -/
def start (adjustSet : UInt16) (time : Nat) (checkpoint : UInt32) : Sys T where
  clock := { next := fun _ => .null, offset := fun _ => 0, last := .null, adjustSet := adjustSet }
  lowerLast := UInt32.ofNat (time % 2 ^ w)
  checkpoint := checkpoint
  time := time
  alarm := time + (maxValue w >>> 1).toNat
  handling := false
  target := fun _ => 0
  fired := []

/-- **What the extension is for.** `ztimer_now` shows the ticks that have elapsed since the first
reading, and no callback was run before the tick its timer was set for. -/
structure Right (time : Nat) (checkpoint : UInt32) (s : Sys T) : Prop where
  now : (ztimerNow w s).1 = checkpoint + UInt32.ofNat (s.time - time)
  onTime : ∀ f ∈ s.fired, f.target ≤ f.tick

end Riot.Ztimer.Extend
