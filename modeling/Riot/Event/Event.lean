import Riot.Core.ThreadFlags
import Mathlib.Data.Fintype.Card

/-!
# Event queues

`sys/event/event.c`: events are linked in the circular list of a queue, an event is queued
while its `next` pointer is set, and a thread flag wakes the thread that waits for events.
A step is a critical section of one of the contexts that post and cancel, threads and
interrupts, or a step of the waiter. What happened is kept in a log, the newest first.
-/

namespace Riot.Event

open Riot.Core Riot.Lib Function

def threadFlagEvent : BitVec 16 := 0x1

variable {Q E C : Type}

/-- What happened. `taken` is an event that `event_get` or `event_wait_multi` pops, `called`
the call of its handler. -/
inductive Record (Q E : Type) where
  | posted (event : E)
  | linked (queue : Q) (event : E)
  | taken (queue : Q) (event : E)
  | cancelled (queue : Q) (event : E)
  | called (event : E)

/-- Where the waiter is: running its own code or a handler; in `event_get`, with the event
popped and still marked as queued; in `event_wait_multi`, at the loop over the queues, in
front of `thread_flags_wait_any`, and inside; or with an event whose handler comes next. -/
inductive Pc (Q E : Type) where
  | running
  | getReset (event : E)
  | scan (queues : List Q)
  | waitAny (queues : List Q)
  | clear (queues : List Q)
  | deliver (event : E)

/-- The `next` fields of the queues and the events; which queues have their `waiter` set; the
waiter; and the contexts that are in `event_post` with the flag still to be set. -/
structure World (Q E C : Type) where
  mem : NodeMem Q E
  claimed : Q → Bool
  waiter : FlagThread
  pc : Pc Q E
  posting : C → Bool
  log : List (Record Q E)

/-- A context makes a step or the waiter does. -/
inductive Action (Q E C : Type) where
  | post (context : C) (queue : Q) (event : E)
  | postFlag (context : C)
  | cancel (queue : Q) (event : E)
  | setFlags (mask : BitVec 16)
  | claim (queue : Q)
  | get (queue : Q)
  | waitMulti (queues : List Q)
  | go

variable [DecidableEq Q] [DecidableEq E] [DecidableEq C] [Fintype E]

/-- The critical section of `event_post`. -/
def World.post (w : World Q E C) (context : C) (queue : Q) (event : E) : World Q E C :=
  if w.mem (.entry event) = .null then
    { w with
      mem := clistRpush w.mem (.head queue) event
      posting := update w.posting context (w.claimed queue)
      log := .posted event :: .linked queue event :: w.log }
  else
    { w with
      posting := update w.posting context (w.claimed queue)
      log := .posted event :: w.log }

def World.cancel (w : World Q E C) (queue : Q) (event : E) : World Q E C :=
  let mem := clistRemove w.mem (Fintype.card E) (.head queue) event
  { w with
    mem := update mem (.entry event) .null
    log := .cancelled queue event :: w.log }

/-- The critical section of `event_get`; without an event it returns. -/
def World.get (w : World Q E C) (queue : Q) : World Q E C :=
  match clistLpeek w.mem (.head queue) with
  | .ref event =>
    { w with
      mem := clistLpop w.mem (.head queue)
      pc := .getReset event
      log := .taken queue event :: w.log }
  | _ => w

/-- The loop over the queues in `event_wait_multi`, `all` of them, with those left: the
waiter takes the first event or goes on to wait. `none` is a failed assertion. -/
def World.scan (w : World Q E C) (all : List Q) : List Q → Option (World Q E C)
  | [] => some { w with pc := .waitAny all }
  | queue :: queues =>
    if w.claimed queue then
      match clistLpeek w.mem (.head queue) with
      | .ref event =>
        some { w with
          mem := update (clistLpop w.mem (.head queue)) (.entry event) .null
          pc := .deliver event
          log := .taken queue event :: w.log }
      | _ => w.scan all queues
    else none

/-- The next step of the waiter inside a call, or the call of a handler. -/
def World.go (w : World Q E C) : Option (World Q E C) :=
  match w.pc with
  | .running => none
  | .getReset event =>
    some { w with mem := update w.mem (.entry event) .null, pc := .deliver event }
  | .scan queues => w.scan queues queues
  | .waitAny queues =>
    some { w with waiter := threadFlagsWaitAny w.waiter threadFlagEvent, pc := .clear queues }
  | .clear queues =>
    if w.waiter.status = .flagBlockedAny then none
    else
      some { w with
        waiter := (threadFlagsClearAtomic w.waiter threadFlagEvent).2
        pc := .scan queues }
  | .deliver event => some { w with pc := .running, log := .called event :: w.log }

def World.step (w : World Q E C) : Action Q E C → Option (World Q E C)
  | .post context queue event =>
    if w.posting context then none else some (w.post context queue event)
  | .postFlag context =>
    if w.posting context then
      some { w with
        waiter := threadFlagsSet w.waiter threadFlagEvent
        posting := update w.posting context false }
    else none
  | .cancel queue event => some (w.cancel queue event)
  | .setFlags mask => some { w with waiter := threadFlagsSet w.waiter mask }
  | .claim queue =>
    match w.pc with
    | .running =>
      if w.claimed queue then none
      else some { w with claimed := update w.claimed queue true }
    | _ => none
  | .get queue =>
    match w.pc with
    | .running => some (w.get queue)
    | _ => none
  | .waitMulti queues =>
    match w.pc with
    | .running => if queues = [] then none else some { w with pc := .scan queues }
    | _ => none
  | .go => w.go

/-- Empty queues, claimed or not. -/
def World.init (claimed : Q → Bool) : World Q E C where
  mem _ := .null
  claimed := claimed
  waiter := ⟨0, 0, .pending⟩
  pc := .running
  posting _ := false
  log := []

end Riot.Event
