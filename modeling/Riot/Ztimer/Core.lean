import Riot.Lib.IntrusiveList
import Riot.Lib.Runs
import Mathlib.Data.Fintype.Card

/-!
# Timer clocks (`ztimer/core.c`)

A clock keeps its timers in a chain of offsets, each counted from the entry in
front of it; the offset of the list itself is the time the first one counts from.
The model is of a clock without extension (`max_value == UINT32_MAX`).

The lower layer counts ticks, and calls `ztimer_handler` once the ticks it was set
to have elapsed, now or any time later. While a callback runs, nothing but the
callback does; its calls are steps of their own.
-/

namespace Riot.Ztimer

open Riot.Lib Function

variable {T : Type} [DecidableEq T] [Fintype T]

/-- `ztimer_clock_t`, with the `ztimer_base_t` of every timer. -/
structure Clock (T : Type) where
  /-- `base.next`; the head is `clock->list` -/
  next : NodeMem Unit T
  /-- `base.offset` -/
  offset : Node Unit T → UInt32
  last : Link T
  adjustSet : UInt16

/-- `&clock->list` -/
abbrev list : Node Unit T := .head ()

/-! ## The list -/

def isSet (c : Clock T) (t : T) : Bool :=
  if c.next list = .null then false
  else decide (c.next (.entry t) ≠ .null ∨ c.last = .ref t)

/-- The loop of `_add_entry_to_list`: where to insert, and the offset it is at. -/
def addEntryLoop (c : Clock T) (entry : T) : Nat → Node Unit T → UInt32 → Node Unit T × UInt32
  | 0, list, deltaSum => (list, deltaSum)
  | fuel + 1, list, deltaSum =>
    match c.next list with
    | .ref listEntry =>
      if c.offset (.entry entry) < c.offset (.entry listEntry) + deltaSum then (list, deltaSum)
      else addEntryLoop c entry fuel (.entry listEntry) (deltaSum + c.offset (.entry listEntry))
    | _ => (list, deltaSum)

/-- Links a timer behind `pos`, which is at the offset `deltaSum`. -/
def linkEntry (c : Clock T) (entry : T) (pos : Node Unit T) (deltaSum : UInt32) : Clock T :=
  let offset := update c.offset (.entry entry) (c.offset (.entry entry) - deltaSum)
  let next := update c.next (.entry entry) (c.next pos)
  match next (.entry entry) with
  | .ref n =>
    { c with
      next := update next pos (.ref entry)
      offset := update offset (.entry n) (offset (.entry n) - offset (.entry entry)) }
  | _ => { c with next := update next pos (.ref entry), offset := offset, last := .ref entry }

def addEntryToList (c : Clock T) (entry : T) : Clock T :=
  match addEntryLoop c entry (Fintype.card T + 1) list 0 with
  | (pos, deltaSum) => linkEntry c entry pos deltaSum

/-- Skips timers with offset 0. -/
def skipExpired (c : Clock T) : Nat → Link T → Link T
  | fuel + 1, .ref entry =>
    if c.offset (.entry entry) = 0 then skipExpired c fuel (c.next (.entry entry)) else .ref entry
  | _, l => l

/-- The loop of `_ztimer_update_head_offset`. -/
def updateLoop (c : Clock T) : Nat → Link T → UInt32 → Clock T
  | fuel + 1, .ref entry, diff =>
    if diff ≤ c.offset (.entry entry) then
      { c with offset := update c.offset (.entry entry) (c.offset (.entry entry) - diff) }
    else
      let diff := diff - c.offset (.entry entry)
      let c := { c with offset := update c.offset (.entry entry) 0 }
      if diff ≠ 0 then updateLoop c fuel (skipExpired c (Fintype.card T + 1) (c.next (.entry entry))) diff
      else c
  | _, _, _ => c

def ztimerUpdateHeadOffset (c : Clock T) (now : UInt32) : Clock T :=
  let diff := now - c.offset list
  let c := updateLoop c (Fintype.card T + 1) (c.next list) diff
  { c with offset := update c.offset list now }

/-- Unlinks the timer behind `pos`. -/
def unlinkEntry (c : Clock T) (entry : T) (pos : Node Unit T) : Clock T :=
  let last :=
    if c.last = .ref entry then
      match pos with
      | .head _ => .null
      | .entry p => .ref p
    else c.last
  let next := update c.next pos (c.next (.entry entry))
  let offset :=
    match next pos with
    | .ref n => update c.offset (.entry n) (c.offset (.entry n) + c.offset (.entry entry))
    | _ => c.offset
  { c with next := update next (.entry entry) .null, offset := offset, last := last }

/-- The loop of `_del_entry_from_list`. -/
def delEntryLoop (c : Clock T) (entry : T) : Nat → Node Unit T → Bool × Clock T
  | 0, _ => (false, c)
  | fuel + 1, pos =>
    match c.next pos with
    | .ref listEntry =>
      if listEntry = entry then (true, unlinkEntry c entry pos) else delEntryLoop c entry fuel (.entry listEntry)
    | _ => (false, c)

def delEntryFromList (c : Clock T) (entry : T) : Bool × Clock T :=
  delEntryLoop c entry (Fintype.card T + 1) list

/-- `_now_next`: takes a timer off the list whose offset is 0. -/
def nowNext (c : Clock T) : Option T × Clock T :=
  match c.next list with
  | .ref entry =>
    if c.offset (.entry entry) = 0 then
      let next := update c.next list (c.next (.entry entry))
      if c.next (.entry entry) = .null then (some entry, { c with next := next, last := .null })
      else (some entry, { c with next := update next (.entry entry) .null })
    else (none, c)
  | _ => (none, c)

/-! ## The clock and its lower layer -/

/-- `ztimer_ops_t`, as a conversion of what the lower layer counts: one of its ticks
makes `scale` ticks of the clock. -/
structure Ops where
  now : UInt32 → UInt32
  set : UInt32 → UInt32
  scale : Nat

/-- A callback that was run: the timer, the tick it was set for, and the tick it was run at. -/
structure Firing (T : Type) where
  timer : T
  target : Nat
  tick : Nat

/-- A clock and its lower layer. -/
structure Sys (T : Type) where
  clock : Clock T
  /-- what the lower layer has counted -/
  time : Nat
  /-- when the lower layer calls `ztimer_handler` at the earliest -/
  alarm : Option Nat
  /-- a callback is running -/
  handling : Bool
  /-- the tick each timer was last set for -/
  target : T → Nat
  fired : List (Firing T)
  /-- when the lower layer was last asked for the time -/
  lastRead : Nat

variable (ops : Ops)

/-- The ticks of the clock since the start of the lower layer. -/
def Sys.tick (s : Sys T) : Nat := s.time * ops.scale

/-- `clock->ops->now` -/
def Sys.now (s : Sys T) : UInt32 := ops.now (UInt32.ofNat s.time)

def ztimerUpdate (s : Sys T) : Sys T :=
  match s.clock.next list with
  | .ref entry => { s with alarm := some (s.time + (ops.set (s.clock.offset (.entry entry))).toNat) }
  | _ => { s with alarm := none }

/-- `val` less `clock->adjust_set` -/
def adjusted (adjustSet : UInt16) (val : UInt32) : UInt32 :=
  if adjustSet.toUInt32 < val then val - adjustSet.toUInt32 else 0

def ztimerSet (s : Sys T) (timer : T) (val : UInt32) : UInt32 × Sys T :=
  let now := s.now ops
  let c := ztimerUpdateHeadOffset s.clock now
  let c := if isSet c timer then (delEntryFromList c timer).2 else c
  let val := adjusted c.adjustSet val
  let c := addEntryToList { c with offset := update c.offset (.entry timer) val } timer
  (now, ztimerUpdate ops { s with
    clock := c
    target := update s.target timer (s.tick ops + val.toNat)
    lastRead := s.time })

def ztimerRemove (s : Sys T) (timer : T) : Bool × Sys T :=
  if isSet s.clock timer then
    let c := ztimerUpdateHeadOffset s.clock (s.now ops)
    let (wasRemoved, c) := delEntryFromList c timer
    (wasRemoved, ztimerUpdate ops { s with clock := c, lastRead := s.time })
  else (false, s)

/-- Runs the callback of a timer that was taken off the list. -/
def trigger (s : Sys T) (c : Clock T) (entry : T) : Sys T :=
  { s with
    clock := c
    handling := true
    fired := s.fired ++ [{ timer := entry, target := s.target entry, tick := s.tick ops }] }

/-- The base is moved to the target of the first timer. -/
def expireHead (c : Clock T) (head : T) : Clock T :=
  let base := c.offset list + c.offset (.entry head)
  { c with offset := update (update c.offset list base) (.entry head) 0 }

/-- `ztimer_handler`, up to the first callback. -/
def ztimerHandler (s : Sys T) : Sys T :=
  match s.clock.next list with
  | .ref head =>
    match nowNext (expireHead s.clock head) with
    | (some entry, c) => trigger ops s c entry
    | (none, c) => ztimerUpdate ops { s with clock := c }
  | _ => ztimerUpdate ops s

/-- `ztimer_handler`, from the return of a callback to the next one or to its end. -/
def ztimerHandlerResume (s : Sys T) : Sys T :=
  match nowNext s.clock with
  | (some entry, c) => trigger ops s c entry
  | (none, c) =>
    -- see if any more alarms expired during callback processing
    match nowNext (ztimerUpdateHeadOffset c (s.now ops)) with
    | (some entry, c) => trigger ops { s with lastRead := s.time } c entry
    | (none, c) => ztimerUpdate ops { s with clock := c, handling := false, lastRead := s.time }

/-! ## Runs -/

inductive Event (T : Type) where
  | set (timer : T) (val : UInt32)
  | remove (timer : T)
  /-- ticks of the lower layer -/
  | advance (ticks : Nat)
  /-- the lower layer calls `ztimer_handler` -/
  | handler
  /-- a callback returns -/
  | resume

def step (s : Sys T) : Event T → Option (Sys T)
  | .set timer val => some (ztimerSet ops s timer val).2
  | .remove timer => some (ztimerRemove ops s timer).2
  | .advance ticks => some { s with time := s.time + ticks }
  | .handler =>
    if s.handling then none
    else if s.alarm.any (· ≤ s.time) then some (ztimerHandler ops { s with alarm := none })
    else none
  | .resume => if s.handling then some (ztimerHandlerResume ops s) else none

/-- A clock without timers; its lower layer counts from `time`. -/
def start (adjustSet : UInt16) (time : Nat) : Sys T where
  clock := { next := fun _ => .null, offset := fun _ => 0, last := .null, adjustSet := adjustSet }
  time := time
  alarm := none
  handling := false
  target := fun _ => 0
  fired := []
  lastRead := time

end Riot.Ztimer
