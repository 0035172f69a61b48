import Riot.Lib.DeltaList
import Riot.Lib.Runs

/-!
# Event timers

`sys/evtimer/evtimer.c`: events wait in a list of offsets, each relative to the event
before it, and one ztimer is set for the first. Times are unbounded here; what the code
reads of them is `uint32_t`. `none` is the dereference of a missing event.

`World` runs an event timer against a clock. Beside it stands what its calls ask for:
`pending`, the events with their absolute targets, in the order in which they are due.
-/

namespace Riot.EvTimer

open Riot.Lib

variable {α : Type}

/-- `uint32_t` arithmetic. -/
def u32 (x : Nat) : Nat := x % 2 ^ 32

/-- `evtimer_t`. An event is listed with its `offset`; `base` is the low half of the time
kept here, and `timer` is when the ztimer expires, if it is set. -/
structure Evtimer (α : Type) where
  events : List (α × Nat)
  base : Nat
  timer : Option Nat

def addEventToList (event : α) : (offset : Nat) → List (α × Nat) → List (α × Nat)
  | offset, [] => [(event, offset)]
  | offset, e :: list =>
    if offset < e.2 then (event, offset) :: (e.1, e.2 - offset) :: list
    else e :: addEventToList event (offset - e.2) list

/-- The end of `_del_event_from_list`: the event that followed takes over the offset. -/
def takeOver (offset : Nat) : List (α × Nat) → List (α × Nat)
  | [] => []
  | next :: list => (next.1, u32 (next.2 + offset)) :: list

def delEventFromList [DecidableEq α] (event : α) : List (α × Nat) → List (α × Nat)
  | [] => []
  | e :: list => if e.1 = event then takeOver e.2 list else e :: delEventFromList event list

/-- `_set_timer`, for the first event of the list. -/
def setTimer (now : Nat) (evtimer : Evtimer α) : Option (Evtimer α) :=
  match evtimer.events with
  | [] => none
  | next :: _ => some { evtimer with base := now, timer := some (now + next.2) }

def updateTimer (now : Nat) (evtimer : Evtimer α) : Option (Evtimer α) :=
  if evtimer.events ≠ [] then setTimer now evtimer else some { evtimer with timer := none }

def updateHeadOffset (now : Nat) (evtimer : Evtimer α) : Evtimer α :=
  match evtimer.events with
  | [] => evtimer
  | e :: list =>
    let elapsed := u32 (u32 now + 2 ^ 32 - u32 evtimer.base)
    { evtimer with
      events := (e.1, if e.2 < elapsed then 0 else e.2 - elapsed) :: list
      base := now }

def evtimerAdd [DecidableEq α] (now : Nat) (evtimer : Evtimer α) (event : α) (offset : Nat) :
    Option (Evtimer α) :=
  let evtimer := updateHeadOffset now evtimer
  let evtimer := { evtimer with events := addEventToList event offset evtimer.events }
  if evtimer.events.head?.map Prod.fst = some event then setTimer now evtimer else some evtimer

def evtimerDel [DecidableEq α] (now : Nat) (evtimer : Evtimer α) (event : α) : Option (Evtimer α) :=
  let evtimer := updateHeadOffset now evtimer
  updateTimer now { evtimer with events := delEventFromList event evtimer.events }

/-- The loop of `_evtimer_handler` over `_get_next`: the events called back and the list
that is left. -/
def handlerLoop : List (α × Nat) → List α × List (α × Nat)
  | [] => ([], [])
  | e :: list =>
    if e.2 = 0 then (e.1 :: (handlerLoop list).1, (handlerLoop list).2) else ([], e :: list)

/-- `_evtimer_handler`, called by the ztimer, which is not set any more then. -/
def evtimerHandler (now : Nat) (evtimer : Evtimer α) : Option (List α × Evtimer α) :=
  match evtimer.events with
  | [] => none
  | e :: list =>
    let res := handlerLoop ((e.1, 0) :: list)
    (updateTimer now { evtimer with events := res.2, timer := none }).map fun evtimer =>
      (res.1, evtimer)

/-! ## Runs -/

/-- A call of `evtimer->callback`: the event, its target if it was pending, and when. -/
structure Callback (α : Type) where
  event : α
  target : Option Nat
  time : Nat

/-- An event timer, the clock, and what was asked for and has happened. -/
structure World (α : Type) where
  evtimer : Evtimer α
  now : Nat
  pending : List (α × Nat)
  callbacks : List (Callback α)
  added : List α
  deleted : List α

/-- What can happen: time passes, a thread adds or deletes an event, the ztimer that has
expired calls the handler. -/
inductive Event (α : Type) where
  | advance (ticks : Nat)
  | add (event : α) (offset : Nat)
  | del (event : α)
  | handler

/-- `evtimer_init` at time `now`. -/
def World.init (now : Nat) : World α := ⟨⟨[], 0, none⟩, now, [], [], [], []⟩

variable [DecidableEq α]

/-- The event called back leaves the pending ones. -/
def callBack (now : Nat) : List α → List (α × Nat) × List (Callback α) →
    List (α × Nat) × List (Callback α)
  | [], s => s
  | event :: events, s =>
    let target := (s.1.find? fun e => decide (e.1 = event)).map Prod.snd
    callBack now events (removeTarget event s.1, s.2 ++ [⟨event, target, now⟩])

/-- One step. Only events that are not queued are added, with a 32-bit offset. -/
def World.step (w : World α) : Event α → Option (World α)
  | .advance ticks => some { w with now := w.now + ticks }
  | .add event offset =>
    if event ∈ w.evtimer.events.map Prod.fst ∨ 2 ^ 32 ≤ offset then none
    else
      (evtimerAdd w.now w.evtimer event offset).map fun evtimer =>
        { w with
          evtimer
          pending := insertTarget event (w.now + offset) w.pending
          added := w.added ++ [event] }
  | .del event =>
    (evtimerDel w.now w.evtimer event).map fun evtimer =>
      { w with
        evtimer
        pending := removeTarget event w.pending
        deleted := w.deleted ++
          (w.pending.find? fun e => decide (e.1 = event)).toList.map Prod.fst }
  | .handler =>
    match w.evtimer.timer with
    | none => none
    | some expiry =>
      if w.now < expiry then none
      else
        (evtimerHandler w.now w.evtimer).map fun res =>
          { w with
            evtimer := res.2
            pending := (callBack w.now res.1 (w.pending, w.callbacks)).1
            callbacks := (callBack w.now res.1 (w.pending, w.callbacks)).2 }

end Riot.EvTimer
