import Riot.Tcp.Eventloop
import Riot.Tcp.Machine

/-!
# Threads and locks

Every call of the state machine holds the `fsm_lock` of its TCB, and takes the lock of
the list in `_transition_to`; `_receive` holds the lock of the list, and takes one
`fsm_lock` after the other. A thread is where its next lock operation is. The other locks
of the module are taken before these, or held for a moment only, and are left out: so the
user may do anything in between, and what the functions of `gnrc_tcp.c` do is among it.
-/

namespace Riot.Tcp

open Function

/-! ## Calls that take the lock of the list -/

/-- In LAST_ACK, whether the acknowledgment of our FIN closes the connection. -/
def ackTakesListLock (e : Env) (w : Fsm) (seg : Segment) : Bool :=
  match rcvdAckData e w seg with
  | some (w', goesOn) => w.tcb.state = .lastAck && goesOn && w'.tcb.pktRetransmit.isNone
  | none => false

/-- Whether `_fsm_rcvd_pkt` makes a transition to CLOSED or to LISTEN. -/
def rcvdTakesListLock (e : Env) (w : Fsm) (seg : Segment) : Bool :=
  match w.tcb.state with
  | .listen => false
  | .synSent => seg.ctl.ack ∧ seg.ctl.rst ∧ ¬(seg.ackNum ≤ w.tcb.iss ∨ w.tcb.sndNxt < seg.ackNum)
  | _ =>
    chkSeqNum w.tcb seg.seqNum (getPayLen seg) == some true &&
      (seg.ctl.rst || seg.ctl.syn || seg.ctl.ack && ackTakesListLock e w seg)

/-- Whether a call of the state machine makes a transition to CLOSED, to LISTEN or to SYN_SENT:
these are the ones in which `_transition_to` takes the lock of the list. -/
def takesListLock (e : Env) (w : Fsm) : Event → Bool
  | .callOpen => (rcvbufGetBuffer w).isSome
  | .callClose => w.tcb.state = .listen
  | .callAbort => true
  | .rcvdPkt seg =>
    match optionParse w seg with
    | (w, valid) => valid && rcvdTakesListLock e w seg
  | .timeoutTimewait => true
  | .timeoutConnection => true
  | .callSend _ => false
  | .callRecv _ => false
  | .timeoutRetransmit => false
  | .sendProbe => false
  | .clearRetransmit => false

/-! ## Threads -/

/-- The threads of the user, and the one of `_eventloop`. -/
inductive Thread where
  | eventloop
  | user (n : Nat)
  deriving DecidableEq

/-- What a thread does with a `fsm_lock`. -/
inductive FsmOp where
  /-- `_gnrc_tcp_fsm_get_state` -/
  | getState
  /-- `_gnrc_tcp_fsm_set_mbox` -/
  | setMbox
  /-- `_gnrc_tcp_fsm` -/
  | fsm (o : Oracle) (event : Event)

/-- Where a thread is. -/
inductive Position where
  | idle
  /-- Before `mutex_lock(&(tcb->fsm_lock))`. -/
  | atFsmLock (id : TcbId) (op : FsmOp)
  /-- Holds the `fsm_lock`, and is not going to take another lock. -/
  | inFsm (id : TcbId) (op : FsmOp)
  /-- In `_transition_to`, before `mutex_lock(&list->lock)`. -/
  | atListLock (id : TcbId) (o : Oracle) (event : Event)
  /-- In `_transition_to`, with the lock of the list. -/
  | inTransition (id : TcbId) (o : Oracle) (event : Event)
  /-- The port of an open is in use: before the lock for the transition to CLOSED. -/
  | atListLockAgain (id : TcbId)
  | inTransitionAgain (id : TcbId)
  /-- Behind the transition, before `mutex_unlock(&(tcb->fsm_lock))`. -/
  | leaving (id : TcbId)
  /-- `_receive`, before `mutex_lock(&list->lock)`. -/
  | atReceive (o : Oracle) (seg : Segment)
  /-- `_receive`, with the lock of the list, at `while (tcb)`. -/
  | walking (o : Oracle) (seg : Segment) (rest : List TcbId)
  /-- `_receive`, in `_gnrc_tcp_fsm_get_state` of a TCB. -/
  | inGetState (o : Oracle) (seg : Segment) (id : TcbId) (rest : List TcbId)
  /-- `_receive`, behind the loop that has stopped at a TCB. -/
  | found (o : Oracle) (seg : Segment) (id : TcbId)

/-- The locks that the order is about. -/
inductive Lock where
  | list
  | fsm (id : TcbId)
  deriving DecidableEq

/-- The lock that a thread needs to go on. -/
def Position.wants : Position → Option Lock
  | .atFsmLock id _ => some (.fsm id)
  | .atListLock .. => some .list
  | .atListLockAgain _ => some .list
  | .atReceive .. => some .list
  | .walking _ _ (id :: _) => some (.fsm id)
  | _ => none

/-- The locks that a thread holds. -/
def Position.holds : Position → List Lock
  | .inFsm id _ => [.fsm id]
  | .atListLock id _ _ => [.fsm id]
  | .inTransition id _ _ => [.fsm id, .list]
  | .atListLockAgain id => [.fsm id]
  | .inTransitionAgain id => [.fsm id, .list]
  | .leaving id => [.fsm id]
  | .walking .. => [.list]
  | .inGetState _ _ id _ => [.fsm id, .list]
  | .found .. => [.list]
  | _ => []

/-- All threads, with the TCBs, the list and the owners of the locks. -/
structure LockSys where
  sys : Sys
  owner : Lock → Option Thread
  pos : Thread → Position

/-- What the threads do by themselves. -/
def mayStart : Thread → FsmOp → Bool
  | .user _, .getState => true
  | .user _, .setMbox => true
  | .user _, .fsm _ (.rcvdPkt _) => false
  | .user _, .fsm _ .timeoutTimewait => false
  | .user _, .fsm _ .timeoutRetransmit => false
  | .user _, .fsm _ _ => true
  | .eventloop, .fsm _ .timeoutTimewait => true
  | .eventloop, .fsm _ .timeoutRetransmit => true
  | .eventloop, .fsm _ .clearRetransmit => true
  | .eventloop, .fsm _ .callOpen => true
  | .eventloop, _ => false

inductive LockEvent where
  /-- A thread calls one of the functions that take the `fsm_lock`. -/
  | start (p : Thread) (id : TcbId) (op : FsmOp)
  /-- The event loop gets a packet. -/
  | receive (o : Oracle) (seg : Segment)
  /-- The user writes into a TCB. -/
  | api (n : Nat) (id : TcbId) (a : ApiWrite)
  /-- A thread goes on to its next lock operation. -/
  | step (p : Thread)

def LockSys.goTo (s : LockSys) (p : Thread) (pos : Position) : LockSys :=
  { s with pos := update s.pos p pos }

/-- `mutex_lock`; `none` while another thread holds the lock. -/
def LockSys.lock (s : LockSys) (p : Thread) (l : Lock) (pos : Position) : Option LockSys :=
  if s.owner l = none then
    some { s with owner := update s.owner l (some p), pos := update s.pos p pos }
  else none

def LockSys.unlock (s : LockSys) (p : Thread) (l : Lock) (pos : Position) : LockSys :=
  { s with owner := update s.owner l none, pos := update s.pos p pos }

/-- What a call on a TCB finds. -/
def LockSys.env (s : LockSys) (o : Oracle) (id : TcbId) : Env where
  me := id
  others := s.sys.tcbs
  alloc := o.alloc
  iss := o.iss
  ports := o.ports

def LockSys.fsmStart (s : LockSys) (id : TcbId) : Fsm := Tcp.fsmStart (s.sys.tcbs id) s.sys.list s.sys.bufUsed

/-- The call in front of the `fsm_lock` will take the lock of the list. -/
def LockSys.takesListLock (s : LockSys) (id : TcbId) : FsmOp → Bool
  | .fsm o event =>
    Tcp.takesListLock (s.env o id) { s.fsmStart id with tcb.status.notifyUser := false } event
  | _ => false

/-- With the `fsm_lock` of its TCB, a call runs up to the lock of the list, or to the end. -/
def afterFsmLock (s : LockSys) (id : TcbId) (op : FsmOp) : Position :=
  match op with
  | .fsm o event => if s.takesListLock id op then .atListLock id o event else .inFsm id op
  | op => .inFsm id op

/-- An open has found its port in use. -/
def openFailed (s : LockSys) (id : TcbId) (o : Oracle) (event : Event) : Bool :=
  event = .callOpen &&
    (Tcp.fsm (s.env o id) (s.fsmStart id) event).any fun w => w.ret == -98

/-- `while (tcb)` of `_receive`: whether the loop stops at the TCB. -/
def fits (t : Tcb) (seg : Segment) : Bool :=
  let syn := seg.ctl.syn && !seg.ctl.ack
  (syn && fitsSyn t seg) || (!syn && fitsPacket t seg)

/-- The next lock operation of a thread, and what the thread does up to it. -/
def LockSys.next (s : LockSys) (p : Thread) : Option LockSys :=
  match s.pos p with
  | .idle => none
  | .atFsmLock id op => s.lock p (.fsm id) (afterFsmLock s id op)
  | .inFsm id (.fsm o event) =>
    (s.sys.fsm o id event).map fun r => { s with sys := r.1 }.unlock p (.fsm id) .idle
  | .inFsm id _ => some (s.unlock p (.fsm id) .idle)
  | .atListLock id o event => s.lock p .list (.inTransition id o event)
  | .inTransition id o event =>
    (s.sys.fsm o id event).map fun r =>
      { s with sys := r.1 }.unlock p .list
        (if openFailed s id o event then .atListLockAgain id else .leaving id)
  | .atListLockAgain id => s.lock p .list (.inTransitionAgain id)
  | .inTransitionAgain id =>
    some ({ s with sys.list := s.sys.list.erase id }.unlock p .list (.leaving id))
  | .leaving id => some (s.unlock p (.fsm id) .idle)
  | .atReceive o seg => s.lock p .list (.walking o seg s.sys.list)
  | .walking _ _ [] => some (s.unlock p .list .idle)
  | .walking o seg (id :: rest) => s.lock p (.fsm id) (.inGetState o seg id rest)
  | .inGetState o seg id rest =>
    some (s.unlock p (.fsm id) (if fits (s.sys.tcbs id) seg then .found o seg id else .walking o seg rest))
  | .found o seg id => some (s.unlock p .list (.atFsmLock id (.fsm o (.rcvdPkt seg))))

def lockStep (s : LockSys) : LockEvent → Option LockSys
  | .start p id op =>
    match s.pos p with
    | .idle => if mayStart p op then some (s.goTo p (.atFsmLock id op)) else none
    | _ => none
  | .receive o seg =>
    match s.pos .eventloop with
    | .idle => some (s.goTo .eventloop (.atReceive o seg))
    | _ => none
  | .api n id a =>
    match s.pos (.user n) with
    | .idle => (apiWrite (s.sys.tcbs id) a).map fun t =>
      { s with sys.tcbs := update s.sys.tcbs id t }
    | _ => none
  | .step p => s.next p

/-- No thread runs yet. -/
def lockStart (sys : Sys) : LockSys := { sys, owner := fun _ => none, pos := fun _ => .idle }

end Riot.Tcp
