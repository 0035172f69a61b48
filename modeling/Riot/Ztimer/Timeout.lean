import Riot.Core.Mbox
import Riot.Core.MsgQueue

/-!
# Waiting with a timeout

`ztimer_mbox_get_timeout` and `ztimer_msg_receive_timeout` of `ztimer/util.c`. Both set a
timer, wait in the kernel, and remove the timer once they are back. The timer's callback
runs in an interrupt, at any moment from when the timer is due: before the thread waits,
while it waits, or after it has been woken. Meanwhile the other threads and interrupts use
mailboxes and messages as they like.
-/

namespace Riot.Ztimer

open Riot.Core Function

variable {n : Nat}

def msgZtimer : Nat := 0xc83e

/-- `-ETIME` -/
def negEtime : Int := -62

/-- `-ETIMEDOUT` -/
def negEtimedout : Int := -110

/-- The callback of a timer, with what its argument points at. -/
inductive TimeoutCallback where
  /-- `_ztimer_mbox_get_timeout` for `data->mbox` -/
  | mboxGet (b : Nat)
  /-- `_callback_msg` -/
  | msg (m : Msg)
  deriving DecidableEq

/-- The timer of a thread's call, with what came of its callback. -/
inductive TimeoutTimer where
  | unset
  | set (target : Nat) (callback : TimeoutCallback)
  /-- the callback has taken the thread off the readers -/
  | timedOut
  /-- the callback has not found the thread among the readers -/
  | ignored
  /-- the callback has sent the message -/
  | sent
  /-- the callback's message could not be delivered -/
  | discarded
  deriving DecidableEq

/-- Where a thread is in the two functions. -/
inductive TimeoutCont where
  | outside
  /-- before `mbox_get` -/
  | mboxGet (b : Nat)
  /-- in `mbox_get`, behind the point where it blocks -/
  | mboxWait (b : Nat)
  /-- before the `ztimer_remove` behind `mbox_get` -/
  | mboxRemove
  /-- before `ztimer_set_msg` -/
  | msgSet (timeout : UInt32)
  /-- before `msg_receive` -/
  | msgReceive
  /-- in `msg_receive`, behind the point where it blocks -/
  | msgWait
  /-- before the `ztimer_remove` behind `msg_receive` -/
  | msgRemove
  deriving DecidableEq

/-- The kernel, a clock, and the calls with their timers. -/
structure TimeoutSys (n : Nat) where
  kernel : Kernel n
  now : Nat
  cont : Fin n → TimeoutCont
  timer : Fin n → TimeoutTimer
  /-- `data.status` -/
  status : Fin n → Int
  /-- What the thread's last call has returned. -/
  ret : Fin n → Int

/-- What happens next. -/
inductive TimeoutEvent (n : Nat) where
  /-- a thread outside of the two functions uses a mailbox -/
  | mbox (e : MboxEvent n)
  /-- a thread outside of the two functions, or an interrupt, sends or receives -/
  | msg (e : MsgEvent n)
  /-- `ztimer_mbox_get_timeout`, up to the end of `ztimer_set` -/
  | mboxGetTimeout (me : Fin n) (b : Nat) (timeout : UInt32)
  /-- `ztimer_msg_receive_timeout`, up to the end of `msg_try_receive` -/
  | msgReceiveTimeout (me : Fin n) (timeout : UInt32)
  /-- the next section of the thread's call -/
  | proceed (me : Fin n)
  /-- the interrupt in which the thread's timer expires -/
  | fire (me : Fin n)
  | advance (ticks : Nat)
  deriving DecidableEq

/-- `_ztimer_mbox_get_timeout` -/
def ztimerMboxGetTimeoutCallback (cfg : Cfg) (s : TimeoutSys n) (me : Fin n) (b : Nat) :
    TimeoutSys n :=
  match listRemove s.kernel.sched.next me (listFuel n) (waitHead (.mboxReaders b)) with
  | (false, next) =>
    { s with
      kernel := { s.kernel with sched := { s.kernel.sched with next := next } }
      timer := update s.timer me .ignored }
  | (true, next) =>
    { s with
      kernel := { s.kernel with
        sched := schedSetStatus cfg { s.kernel.sched with next := next } me .pending }
      status := update s.status me negEtimedout
      timer := update s.timer me .timedOut }

/-- `_callback_msg`; the message holds the pid of its target. -/
def callbackMsg (cfg : Cfg) (s : TimeoutSys n) (me : Fin n) (m : Msg) : TimeoutSys n :=
  match msgSendInt cfg s.kernel m m.senderPid with
  | (kernel, .failed _) =>
    { s with kernel := kernel, timer := update s.timer me .discarded }
  | (kernel, _) => { s with kernel := kernel, timer := update s.timer me .sent }

/-- The next section of a call. `addr` is where the message `m` of the thread's call lies. -/
def timeoutProceed (cfg : Cfg) (addr : Fin n → Nat) (s : TimeoutSys n) (me : Fin n)
    (kernel : Kernel n) : Option (TimeoutSys n) :=
  match s.cont me with
  | .outside => none
  | .mboxGet b =>
    let r := Core.mboxGet cfg kernel b me true
    some { s with
      kernel := r.1
      cont := update s.cont me (if r.2 = .blocked then .mboxWait b else .mboxRemove) }
  | .mboxWait _ =>
    (mboxResume cfg kernel me).map fun r =>
      { s with kernel := r.1, cont := update s.cont me .mboxRemove }
  | .mboxRemove =>
    some { s with
      kernel := kernel
      cont := update s.cont me .outside
      timer := update s.timer me .unset
      ret := update s.ret me (s.status me) }
  | .msgSet timeout =>
    let m : Msg := { senderPid := kernel.sched.schedActivePid, type := msgZtimer, content := addr me }
    some { s with
      kernel := kernel
      cont := update s.cont me .msgReceive
      timer := update s.timer me (.set (s.now + timeout.toNat) (.msg m)) }
  | .msgReceive =>
    let r := Core.msgReceive cfg kernel me true
    some { s with
      kernel := r.1
      cont := update s.cont me (if r.2 = .receiving then .msgWait else .msgRemove) }
  | .msgWait =>
    (msgResume kernel me).map fun r =>
      { s with kernel := r.1, cont := update s.cont me .msgRemove }
  | .msgRemove =>
    let msg := kernel.waitData me
    some { s with
      kernel := kernel
      cont := update s.cont me .outside
      timer := update s.timer me .unset
      ret := update s.ret me
        (if msg.type = msgZtimer ∧ msg.content = addr me then negEtime else 1) }

/-- One event. -/
def timeoutStep (cfg : Cfg) (addr : Fin n → Nat) (s : TimeoutSys n) :
    TimeoutEvent n → Option (TimeoutSys n)
  | .mbox e =>
    if s.cont e.thread = .outside then
      (mboxStep cfg s.kernel e).map fun r => { s with kernel := r.1 }
    else
      none
  | .msg e =>
    if e.OneWay ∧ ∀ me ∈ e.thread, s.cont me = .outside then
      (msgStep cfg s.kernel e).map fun r => { s with kernel := r.1 }
    else
      none
  | .mboxGetTimeout me b timeout =>
    (dispatch s.kernel me).bind fun kernel =>
      if s.cont me = .outside ∧ kernel.cont me = .idle then
        some { s with
          kernel := kernel
          cont := update s.cont me (.mboxGet b)
          timer := update s.timer me (.set (s.now + timeout.toNat) (.mboxGet b))
          status := update s.status me 0 }
      else
        none
  | .msgReceiveTimeout me timeout =>
    (dispatch s.kernel me).bind fun kernel =>
      if s.cont me = .outside ∧ kernel.cont me = .idle then
        match msgReceive cfg kernel me false with
        | (kernel, .received _) => some { s with kernel := kernel, ret := update s.ret me 1 }
        | (kernel, _) =>
          some { s with kernel := kernel, cont := update s.cont me (.msgSet timeout) }
      else
        none
  | .proceed me => (dispatch s.kernel me).bind fun kernel => timeoutProceed cfg addr s me kernel
  | .fire me =>
    match s.timer me with
    | .set target callback =>
      if target ≤ s.now then
        match callback with
        | .mboxGet b => some (ztimerMboxGetTimeoutCallback cfg s me b)
        | .msg m => some (callbackMsg cfg s me m)
      else
        none
    | _ => none
  | .advance ticks => some { s with now := s.now + ticks }

/-- Nobody is in one of the functions. -/
structure TimeoutStart (cfg : Cfg) (s : TimeoutSys n) : Prop where
  booted : Booted cfg s.kernel.sched
  queue : ∀ t, QueueFresh s.kernel t
  outside : ∀ t, s.cont t = .outside
  unset : ∀ t, s.timer t = .unset

/-! ## The claim and the condition -/

/-- The callback of a mailbox timeout has run. -/
def TimeoutTimer.Expired (timer : TimeoutTimer) : Prop := timer = .timedOut ∨ timer = .ignored

instance (timer : TimeoutTimer) : Decidable timer.Expired := inferInstanceAs (Decidable (_ ∨ _))

/-- Nobody waits whose timeout has passed: for a message in a mailbox after the callback
has run, or for a message after that of the timer has been discarded. -/
structure NoLostTimeout (s : TimeoutSys n) : Prop where
  mboxGet : ∀ t, (s.timer t).Expired → ∀ b, t ∉ waitersOf s.kernel.sched (.mboxReaders b)
  msgReceive : ∀ t, s.timer t = .discarded → s.kernel.sched.status t ≠ .receiveBlocked

/-- A thread does not set out to wait when its timer has expired: neither for an empty
mailbox, nor, when it has no message queue, while nobody waits to send to it. -/
def BlocksInTime (s : TimeoutSys n) : TimeoutEvent n → Prop
  | .proceed me =>
    match s.cont me with
    | .mboxGet b => cibAvail (s.kernel.mbox b).cib = 0 → ¬ (s.timer me).Expired
    | .msgReceive => s.timer me = .discarded → s.kernel.msgArray me = none →
        s.kernel.sched.next (waitHead (.msgWaiters me)) ≠ .null
    | _ => True
  | _ => True

instance (s : TimeoutSys n) (e : TimeoutEvent n) : Decidable (BlocksInTime s e) := by
  unfold BlocksInTime
  split
  · split <;> infer_instance
  · infer_instance

end Riot.Ztimer
