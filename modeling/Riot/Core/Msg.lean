import Riot.Core.Kernel

/-!
# Messages

`core/msg.c`. The functions are cut where the caller has blocked. A sender that
was woken has nothing left to do, its message has been copied by the receiver;
nor has a receiver, the message has been copied into its hands.

`msg_send` and its relatives do something else when they are called from an
interrupt, or when a thread sends to itself; `msgSend` branches as they do.
-/

namespace Riot.Core

open Function Option

variable {n : Nat}

/-- How a section of a message function ends. -/
inductive MsgOut (n : Nat) where
  /-- 0 or -1 is returned -/
  | failed (ret : Int)
  /-- the message is copied to the target, which waits for one -/
  | direct (target : Fin n) (msg : Msg)
  /-- the message goes into the target's queue -/
  | queued (target : Fin n) (msg : Msg)
  /-- the sender waits for the target to take the message -/
  | sending (target : Fin n) (msg : Msg)
  /-- `msg_send` returns 1 after having waited -/
  | sent (targetPid : Nat) (msg : Msg)
  /-- the receiver waits for a message -/
  | receiving
  /-- a receiving function returns 1 -/
  | received (msg : Msg)
  /-- the reply is copied to the target, which waits for one -/
  | replied (target : Fin n) (reply : Msg)
  /-- `msg_send_receive` returns with the reply -/
  | answered (reply : Msg)
  deriving DecidableEq

/-- `queue_msg`; `none` is the return value 0. -/
def queueMsg (k : Kernel n) (target : Fin n) (m : Msg) : Option (Kernel n) :=
  match cibPut (k.msgQueue target) with
  | (some i, cib) =>
    some { k with
      msgQueue := update k.msgQueue target cib
      msgArray := update k.msgArray target
        ((k.msgArray target).map fun msgArray => update msgArray i m) }
  | (none, _) => none

/-- `_msg_send` of the message in the caller's hands. -/
def msgSendBody (cfg : Cfg) (k : Kernel n) (targetPid : Nat) (me : Fin n) (block : Bool) :
    Kernel n × MsgOut n :=
  let m := { k.waitData me with senderPid := k.sched.schedActivePid }
  let k := { k with waitData := update k.waitData me m }
  match k.sched.schedThreads targetPid with
  | none => (k, .failed (-1))
  | some target =>
    if k.sched.status target ≠ .receiveBlocked then
      match queueMsg k target m with
      | some k => (k, .queued target m)
      | none =>
        if block then
          let newstatus : ThreadStatus :=
            if k.sched.status me = .replyBlocked then .replyBlocked else .sendBlocked
          ({ k with
              sched := threadAddToList (schedSetStatus cfg k.sched me newstatus)
                (waitHead (.msgWaiters target)) me
              cont := update k.cont me (.msgSend targetPid) },
            .sending target m)
        else
          (k, .failed 0)
    else
      ({ k with
          waitData := update k.waitData target m
          sched := schedSetStatus cfg k.sched target .pending },
        .direct target m)

def msgSendToSelf (k : Kernel n) (me : Fin n) : Kernel n × MsgOut n :=
  let m := { k.waitData me with senderPid := k.sched.schedActivePid }
  let k := { k with waitData := update k.waitData me m }
  match queueMsg k me m with
  | some k => (k, .queued me m)
  | none => (k, .failed 0)

/-- `msg_send` and `msg_try_send`, called by a thread. -/
def msgSend (cfg : Cfg) (k : Kernel n) (targetPid : Nat) (me : Fin n) (block : Bool) :
    Kernel n × MsgOut n :=
  if k.sched.schedActivePid = targetPid then
    msgSendToSelf k me
  else
    msgSendBody cfg k targetPid me block

def msgSendOneway (cfg : Cfg) (k : Kernel n) (m : Msg) (targetPid : Nat) : Kernel n × MsgOut n :=
  match k.sched.schedThreads targetPid with
  | none => (k, .failed (-1))
  | some target =>
    if k.sched.status target = .receiveBlocked then
      ({ k with
          waitData := update k.waitData target m
          sched := schedSetStatus cfg k.sched target .pending },
        .direct target m)
    else
      match queueMsg k target m with
      | some k => (k, .queued target m)
      | none => (k, .failed 0)

def msgSendInt (cfg : Cfg) (k : Kernel n) (m : Msg) (targetPid : Nat) : Kernel n × MsgOut n :=
  msgSendOneway cfg k { m with senderPid := cfg.kernelPidIsr } targetPid

/-- `msg_send_receive` up to the point where the caller waits for the reply. -/
def msgSendReceive (cfg : Cfg) (k : Kernel n) (targetPid : Nat) (me : Fin n) :
    Kernel n × MsgOut n :=
  let r := msgSendBody cfg { k with sched := schedSetStatus cfg k.sched me .replyBlocked }
    targetPid me true
  match r.2 with
  | .failed ret => (r.1, .failed ret)
  | out => ({ r.1 with cont := update r.1.cont me .msgSendReceive }, out)

/-- `msg_reply` and `msg_reply_int` to the sender of a message; that it exists is
asserted. -/
def msgReply (cfg : Cfg) (k : Kernel n) (m reply : Msg) : Option (Kernel n × MsgOut n) :=
  (k.sched.schedThreads m.senderPid).map fun target =>
    if k.sched.status target ≠ .replyBlocked then
      (k, .failed (-1))
    else
      ({ k with
          waitData := update k.waitData target reply
          sched := schedSetStatus cfg k.sched target .pending },
        .replied target reply)

/-- The second half of `_msg_receive`: the first waiting sender is let through.
`queueIndex` tells whether a message has come out of the queue. -/
def msgReceiveWaiter (cfg : Cfg) (k : Kernel n) (me sender : Fin n) (queueIndex : Option Nat) :
    Kernel n :=
  let k :=
    match queueIndex with
    -- its message goes to the place just freed in the queue
    | some _ => (queueMsg k me (k.waitData sender)).getD k
    | none => { k with waitData := update k.waitData me (k.waitData sender) }
  let s := { k.sched with
    next := (listRemoveHead k.sched.next (waitHead (.msgWaiters me))).2 }
  { k with
    sched :=
      if k.sched.status sender ≠ .replyBlocked then schedSetStatus cfg s sender .pending else s }

/-- The `queue_index` of `_msg_receive`, with the queue it leaves. -/
def msgQueueGet (k : Kernel n) (me : Fin n) : Option Nat × Cib :=
  if (k.msgArray me).isSome then cibGet (k.msgQueue me) else (none, k.msgQueue me)

def msgReceive (cfg : Cfg) (k : Kernel n) (me : Fin n) (block : Bool) : Kernel n × MsgOut n :=
  let queue := msgQueueGet k me
  let k := { k with msgQueue := update k.msgQueue me queue.2 }
  if ¬ block ∧ k.sched.next (waitHead (.msgWaiters me)) = .null ∧ queue.1 = none then
    (k, .failed (-1))
  else
    let k :=
      match queue.1, k.msgArray me with
      | some i, some msgArray =>
        { k with waitData := update k.waitData me (msgArray i) }
      | _, _ => k
    match (listRemoveHead k.sched.next (waitHead (.msgWaiters me))).1 with
    | .ref sender =>
      let k := msgReceiveWaiter cfg k me sender queue.1
      (k, .received (k.waitData me))
    | _ =>
      match queue.1 with
      | some _ => (k, .received (k.waitData me))
      | none =>
        ({ k with
            sched := schedSetStatus cfg k.sched me .receiveBlocked
            cont := update k.cont me .msgReceive },
          .receiving)

/-- The calls a thread makes. -/
inductive MsgCall where
  | send (m : Msg) (targetPid : Nat)
  | trySend (m : Msg) (targetPid : Nat)
  | sendToSelf (m : Msg)
  | sendReceive (m : Msg) (targetPid : Nat)
  | reply (m reply : Msg)
  | receive
  | tryReceive
  deriving DecidableEq

/-- The first section of a call. -/
def msgCall (cfg : Cfg) (k : Kernel n) (me : Fin n) : MsgCall → Option (Kernel n × MsgOut n)
  | .send m targetPid =>
    some (msgSend cfg { k with waitData := update k.waitData me m } targetPid me true)
  | .trySend m targetPid =>
    some (msgSend cfg { k with waitData := update k.waitData me m } targetPid me false)
  | .sendToSelf m =>
    some (msgSendToSelf { k with waitData := update k.waitData me m } me)
  | .sendReceive m targetPid =>
    -- a thread that asks itself is asserted not to exist
    if k.sched.schedActivePid = targetPid then none
    else some (msgSendReceive cfg { k with waitData := update k.waitData me m }
      targetPid me)
  | .reply m reply => msgReply cfg k m reply
  | .receive => some (msgReceive cfg k me true)
  | .tryReceive => some (msgReceive cfg k me false)

/-- What a thread does that was woken in a message function. -/
def msgResume (k : Kernel n) (me : Fin n) : Option (Kernel n × MsgOut n) :=
  let k' := { k with cont := update k.cont me .idle }
  match k.cont me with
  | .msgSend targetPid => some (k', .sent targetPid (k.waitData me))
  | .msgSendReceive => some (k', .answered (k.waitData me))
  | .msgReceive => some (k', .received (k.waitData me))
  | _ => none

/-- Threads call and continue; interrupts send and reply. -/
inductive MsgEvent (n : Nat) where
  | call (me : Fin n) (c : MsgCall)
  | resume (me : Fin n)
  | sendInt (m : Msg) (targetPid : Nat)
  | replyInt (m reply : Msg)
  deriving DecidableEq

/-- One section. -/
def msgStep (cfg : Cfg) (k : Kernel n) : MsgEvent n → Option (Kernel n × MsgOut n)
  | .call me c =>
    (dispatch k me).bind fun k => if k.cont me = .idle then msgCall cfg k me c else none
  | .resume me => (dispatch k me).bind fun k => msgResume k me
  | .sendInt m targetPid => some (msgSendInt cfg k m targetPid)
  | .replyInt m reply => msgReply cfg k m reply

/-! ## What a section can do -/

variable {cfg : Cfg} {k : Kernel n} {W : WaitList n → List (Fin n)} {M : WaitList n → Prop}
  {me : Fin n}

/-- Who has a message queue has one that can be used. -/
def QueueOk (k : Kernel n) (t : Fin n) : Prop :=
  if (k.msgArray t).isSome then
    ∃ j ≤ 30, (k.msgQueue t).Sized j ∧ (cibAvail (k.msgQueue t)).toNat ≤ 2 ^ j
  else
    k.msgQueue t = cibInit 0

/-- A sender taken off the list becomes runnable, unless it waits for a reply. -/
def LetThrough (s s' : Sched n) (sender : Fin n) : Prop :=
  SchedChange s s'
    (if s.status sender ≠ .replyBlocked then update s.status sender .pending
      else s.status) s.priority

/-- The moves of the message code. `k` is the state in which the caller `me`, if
it is not an interrupt, has passed its message; `pid` is what it sends as. -/
inductive MsgMove (k : Kernel n) (W : WaitList n → List (Fin n)) (me : Option (Fin n))
    (pid : Nat) : MsgOut n → Kernel n → (WaitList n → List (Fin n)) → Prop where
  | failed {ret : Int} : MsgMove k W me pid (.failed ret) k W
  | direct {t : Fin n} {msg : Msg} {s : Sched n} (hst : k.sched.status t = .receiveBlocked)
      (hpid : msg.senderPid = pid) (hs : StatusSet k.sched s t .pending) :
      MsgMove k W me pid (.direct t msg)
        { k with sched := s, waitData := update k.waitData t msg } W
  | queued {t : Fin n} {msg : Msg} {i : Nat} {cib : Cib}
      (hst : k.sched.status t ≠ .receiveBlocked) (hpid : msg.senderPid = pid)
      (hput : cibPut (k.msgQueue t) = (some i, cib)) :
      MsgMove k W me pid (.queued t msg)
        { k with
          msgQueue := update k.msgQueue t cib
          msgArray := update k.msgArray t
            ((k.msgArray t).map fun msgArray => update msgArray i msg) } W
  | sending {t u : Fin n} {target : Nat} {st : ThreadStatus} {s : Sched n} (hme : me = some u)
      (hidle : k.cont u = .idle) (ht : k.sched.schedThreads target = some t)
      (hst : k.sched.status t ≠ .receiveBlocked) (hpid : (k.waitData u).senderPid = pid)
      (hnew : st = if k.sched.status u = .replyBlocked then .replyBlocked else .sendBlocked)
      (hs : StatusSet k.sched s u st) :
      MsgMove k W me pid (.sending t (k.waitData u))
        { k with sched := s, cont := update k.cont u (.msgSend target) }
        (update W (.msgWaiters t) (insertPrio k.sched.priority u (W (.msgWaiters t))))
  | sent {u : Fin n} {target : Nat} (hme : me = some u) (hc : k.cont u = .msgSend target) :
      MsgMove k W me pid (.sent target (k.waitData u))
        { k with cont := update k.cont u .idle } W
  | answered {u : Fin n} (hme : me = some u) (hc : k.cont u = .msgSendReceive) :
      MsgMove k W me pid (.answered (k.waitData u))
        { k with cont := update k.cont u .idle } W
  | delivered {u : Fin n} (hme : me = some u) (hc : k.cont u = .msgReceive) :
      MsgMove k W me pid (.received (k.waitData u))
        { k with cont := update k.cont u .idle } W
  | receiving {u : Fin n} {s : Sched n} (hme : me = some u) (hidle : k.cont u = .idle)
      (hq : (k.msgArray u).isSome → cibAvail (k.msgQueue u) = 0) (hw : W (.msgWaiters u) = [])
      (hs : StatusSet k.sched s u .receiveBlocked) :
      MsgMove k W me pid .receiving
        { k with sched := s, cont := update k.cont u .msgReceive } W
  | taken {u : Fin n} {msgArray : Nat → Msg} (hme : me = some u) (hidle : k.cont u = .idle)
      (harr : k.msgArray u = some msgArray) (havail : cibAvail (k.msgQueue u) ≠ 0)
      (hw : W (.msgWaiters u) = []) :
      MsgMove k W me pid (.received (msgArray (cibGetUnsafe (k.msgQueue u)).1))
        { k with
          msgQueue := update k.msgQueue u (cibGetUnsafe (k.msgQueue u)).2
          waitData := update k.waitData u (msgArray (cibGetUnsafe (k.msgQueue u)).1) } W
  | refilled {u sender : Fin n} {ts : List (Fin n)} {msgArray : Nat → Msg} {s : Sched n}
      (hme : me = some u) (hidle : k.cont u = .idle) (harr : k.msgArray u = some msgArray)
      (havail : cibAvail (k.msgQueue u) ≠ 0) (hw : W (.msgWaiters u) = sender :: ts)
      (hs : LetThrough k.sched s sender) :
      MsgMove k W me pid (.received (msgArray (cibGetUnsafe (k.msgQueue u)).1))
        { k with
          sched := s
          msgQueue := update k.msgQueue u
            (cibPutUnsafe (cibGetUnsafe (k.msgQueue u)).2).2
          msgArray := update k.msgArray u (some (update msgArray
            (cibPutUnsafe (cibGetUnsafe (k.msgQueue u)).2).1 (k.waitData sender)))
          waitData := update k.waitData u (msgArray (cibGetUnsafe (k.msgQueue u)).1) }
        (update W (.msgWaiters u) ts)
  | copied {u sender : Fin n} {ts : List (Fin n)} {s : Sched n} (hme : me = some u)
      (hidle : k.cont u = .idle) (hq : (k.msgArray u).isSome → cibAvail (k.msgQueue u) = 0)
      (hw : W (.msgWaiters u) = sender :: ts) (hs : LetThrough k.sched s sender) :
      MsgMove k W me pid (.received (k.waitData sender))
        { k with
          sched := s
          waitData := update k.waitData u (k.waitData sender) }
        (update W (.msgWaiters u) ts)

/-- The result of a section is a move after which the lists are as they should be. -/
def MsgMoves (cfg : Cfg) (k : Kernel n) (W : WaitList n → List (Fin n)) (M : WaitList n → Prop)
    (me : Option (Fin n)) (pid : Nat) (r : Kernel n × MsgOut n) : Prop :=
  ∃ W', KernelInv cfg r.1.sched W' M ∧ MsgMove k W me pid r.2 r.1 W'

theorem KernelInv.free_of_status (h : KernelInv cfg k.sched W M) {t : Fin n}
    (hst : ∀ w : WaitList n, (k.sched.status t).waitsIn w = false) : Free W t := by
  intro w hw
  have hwait := (h.waiting.status hw).2
  rw [hst w] at hwait
  exact Bool.noConfusion hwait

theorem queueMsg_cases (k : Kernel n) (t : Fin n) (m : Msg) :
    (queueMsg k t m = none ∧ (cibPut (k.msgQueue t)).1 = none) ∨
      ∃ i cib, cibPut (k.msgQueue t) = (some i, cib) ∧
        queueMsg k t m = some { k with
          msgQueue := update k.msgQueue t cib
          msgArray := update k.msgArray t
            ((k.msgArray t).map fun msgArray => update msgArray i m) } := by
  unfold queueMsg
  rcases hput : cibPut (k.msgQueue t) with ⟨_ | i, cib⟩
  · exact .inl ⟨rfl, rfl⟩
  · exact .inr ⟨i, cib, rfl, rfl⟩

theorem KernelInv.direct (h : KernelInv cfg k.sched W M) {t : Fin n} (hl : k.sched.Live t)
    (hst : k.sched.status t = .receiveBlocked) :
    KernelInv cfg (schedSetStatus cfg k.sched t .pending) W M ∧
      StatusSet k.sched (schedSetStatus cfg k.sched t .pending) t .pending :=
  h.setStatus .pending hl (h.free_of_status fun w => by rw [hst]; cases w <;> rfl)

theorem KernelInv.live_of_slot (h : KernelInv cfg k.sched W M) {pid : Nat} {t : Fin n}
    (ht : k.sched.schedThreads pid = some t) : k.sched.Live t := by
  unfold Sched.Live
  rw [(h.table pid t ht).1]
  exact ht

/-- The message `_msg_send` sends. -/
def msgStamped (k : Kernel n) (me : Fin n) : Kernel n :=
  { k with
    waitData := update k.waitData me
      { k.waitData me with senderPid := k.sched.schedActivePid } }

theorem msgSendBody_moves (h : KernelInv cfg k.sched W M) (targetPid : Nat) (block : Bool)
    (hl : k.sched.Live me) (hfree : Free W me) (hidle : k.cont me = .idle) :
    MsgMoves cfg (msgStamped k me) W M (some me) k.sched.schedActivePid
      (msgSendBody cfg k targetPid me block) := by
  unfold msgSendBody
  dsimp only
  cases ht : k.sched.schedThreads targetPid with
  | none => exact ⟨W, h, .failed⟩
  | some t =>
    dsimp only
    by_cases hst : k.sched.status t = .receiveBlocked
    · rw [if_neg (not_not.mpr hst)]
      obtain ⟨hinv, hset⟩ := h.direct (h.live_of_slot ht) hst
      exact ⟨W, hinv, .direct hst rfl hset⟩
    · rw [if_pos hst]
      rcases queueMsg_cases (msgStamped k me) t
        { k.waitData me with senderPid := k.sched.schedActivePid } with
        ⟨hq, _⟩ | ⟨i, cib, hput, hq⟩
      · unfold msgStamped at hq
        rw [hq]
        cases block with
        | false => exact ⟨W, h, .failed⟩
        | true =>
          have hnew : ThreadStatus.waitsIn (if k.sched.status me = .replyBlocked
              then .replyBlocked else .sendBlocked) (WaitList.msgWaiters t) = true := by
            split <;> rfl
          obtain ⟨hinv, hset⟩ := h.blockIn (.msgWaiters t) _ hl hfree hnew (h.not_marked (by simp))
          refine ⟨_, hinv, ?_⟩
          have hmove := @MsgMove.sending n (msgStamped k me) W (some me) k.sched.schedActivePid t me
            targetPid _ _ rfl hidle ht hst (by simp [msgStamped]) rfl hset
          simpa [msgStamped] using hmove
      · unfold msgStamped at hq
        rw [hq]
        exact ⟨W, h, .queued hst rfl hput⟩

theorem msgSendToSelf_moves (h : KernelInv cfg k.sched W M) (hst : k.sched.status me ≠ .receiveBlocked) :
    MsgMoves cfg (msgStamped k me) W M (some me) k.sched.schedActivePid (msgSendToSelf k me) := by
  unfold msgSendToSelf
  dsimp only
  rcases queueMsg_cases (msgStamped k me) me
    { k.waitData me with senderPid := k.sched.schedActivePid } with ⟨hq, _⟩ | ⟨i, cib, hput, hq⟩
  · unfold msgStamped at hq
    rw [hq]
    exact ⟨W, h, .failed⟩
  · unfold msgStamped at hq
    rw [hq]
    exact ⟨W, h, .queued hst rfl hput⟩

theorem msgSend_moves (h : KernelInv cfg k.sched W M) (targetPid : Nat) (block : Bool)
    (hl : k.sched.Live me) (hfree : Free W me) (hidle : k.cont me = .idle)
    (hst : k.sched.status me ≠ .receiveBlocked) :
    MsgMoves cfg (msgStamped k me) W M (some me) k.sched.schedActivePid
      (msgSend cfg k targetPid me block) := by
  unfold msgSend
  split
  · exact msgSendToSelf_moves h hst
  · exact msgSendBody_moves h targetPid block hl hfree hidle

theorem msgSendInt_moves (h : KernelInv cfg k.sched W M) (m : Msg) (targetPid : Nat) :
    MsgMoves cfg k W M none cfg.kernelPidIsr (msgSendInt cfg k m targetPid) := by
  unfold msgSendInt msgSendOneway
  cases ht : k.sched.schedThreads targetPid with
  | none => exact ⟨W, h, .failed⟩
  | some t =>
    dsimp only
    by_cases hst : k.sched.status t = .receiveBlocked
    · rw [if_pos hst]
      obtain ⟨hinv, hset⟩ := h.direct (h.live_of_slot ht) hst
      exact ⟨W, hinv, .direct hst rfl hset⟩
    · rw [if_neg hst]
      rcases queueMsg_cases k t { m with senderPid := cfg.kernelPidIsr } with
        ⟨hq, _⟩ | ⟨i, cib, hput, hq⟩
      · rw [hq]
        exact ⟨W, h, .failed⟩
      · rw [hq]
        exact ⟨W, h, .queued hst rfl hput⟩

/-! ### Receiving -/

theorem cibFull_init : cibFull (cibInit 0) = true := by decide

theorem QueueOk.put (hq : QueueOk k me) {msgArray : Nat → Msg} (harr : k.msgArray me = some msgArray)
    (havail : cibAvail (k.msgQueue me) ≠ 0) :
    cibPut (cibGetUnsafe (k.msgQueue me)).2 = (some (cibPutUnsafe (cibGetUnsafe (k.msgQueue me)).2).1,
        (cibPutUnsafe (cibGetUnsafe (k.msgQueue me)).2).2) := by
  unfold QueueOk at hq
  rw [harr, isSome_some, if_pos rfl] at hq
  obtain ⟨j, hj, hsized, hle⟩ := hq
  have hget := cibAvail_get havail
  have hsized' : (cibGetUnsafe (k.msgQueue me)).2.Sized j := hsized
  have hroom : cibFull (cibGetUnsafe (k.msgQueue me)).2 = false := by
    have hfull := cibFull_iff hsized' hj (by omega)
    cases hf : cibFull (cibGetUnsafe (k.msgQueue me)).2 with
    | false => rfl
    | true =>
      have := hfull.mp hf
      omega
  rw [cibPut_eq, hroom, if_neg (by simp)]

theorem KernelInv.letThrough (h : KernelInv cfg k.sched W M) {w : WaitList n} {t : Fin n}
    {ts : List (Fin n)} (hw : W w = t :: ts) :
    KernelInv cfg
        (if k.sched.status t ≠ .replyBlocked then
          schedSetStatus cfg { k.sched with next := (listRemoveHead k.sched.next (waitHead w)).2 } t .pending
        else { k.sched with next := (listRemoveHead k.sched.next (waitHead w)).2 })
        (update W w ts) M ∧
      LetThrough k.sched
        (if k.sched.status t ≠ .replyBlocked then
          schedSetStatus cfg { k.sched with next := (listRemoveHead k.sched.next (waitHead w)).2 } t .pending
        else { k.sched with next := (listRemoveHead k.sched.next (waitHead w)).2 }) t := by
  unfold LetThrough
  by_cases hst : k.sched.status t ≠ .replyBlocked
  · rw [if_pos hst, if_pos hst]
    exact h.wakeFirst hw
  · rw [if_neg hst, if_neg hst]
    obtain ⟨_, hW, _⟩ := h.waiting.removeHead hw
    exact ⟨h.of_sameTable (next_sameTable _ _) hW h.unmarked, next_sameTable _ _, rfl, rfl⟩

theorem msgQueueGet_cases (k : Kernel n) (me : Fin n) :
    (∃ msgArray, k.msgArray me = some msgArray ∧ cibAvail (k.msgQueue me) ≠ 0 ∧ msgQueueGet k me =
          (some (cibGetUnsafe (k.msgQueue me)).1, (cibGetUnsafe (k.msgQueue me)).2)) ∨
      ((k.msgArray me).isSome → cibAvail (k.msgQueue me) = 0) ∧ msgQueueGet k me = (none, k.msgQueue me) := by
  unfold msgQueueGet
  cases harr : k.msgArray me with
  | none => exact .inr ⟨by simp, rfl⟩
  | some msgArray =>
    rw [cibGet_eq, isSome_some, if_pos rfl]
    by_cases havail : cibAvail (k.msgQueue me) = 0
    · exact .inr ⟨fun _ => havail, by rw [if_pos havail]⟩
    · exact .inl ⟨msgArray, rfl, havail, by rw [if_neg havail]⟩

theorem msgReceiveWaiter_some {sender : Fin n} {i j : Nat} {cib : Cib} {msgArray : Nat → Msg}
    (harr : k.msgArray me = some msgArray) (hput : cibPut (k.msgQueue me) = (some j, cib)) :
    msgReceiveWaiter cfg k me sender (some i) =
      { k with
        sched :=
          if k.sched.status sender ≠ .replyBlocked then
            schedSetStatus cfg { k.sched with
              next := (listRemoveHead k.sched.next (waitHead (.msgWaiters me))).2 } sender .pending
          else { k.sched with
            next := (listRemoveHead k.sched.next (waitHead (.msgWaiters me))).2 }
        msgQueue := update k.msgQueue me cib
        msgArray := update k.msgArray me
          (some (update msgArray j (k.waitData sender))) } := by
  unfold msgReceiveWaiter queueMsg
  simp only [hput, harr, map_some, getD_some]

theorem msgReceive_moves (h : KernelInv cfg k.sched W M) (hq : QueueOk k me) (block : Bool)
    (hl : k.sched.Live me) (hfree : Free W me) (hidle : k.cont me = .idle) (pid : Nat) :
    MsgMoves cfg k W M (some me) pid (msgReceive cfg k me block) := by
  have hne : ∀ sender ts, W (.msgWaiters me) = sender :: ts → sender ≠ me := by
    rintro sender ts hw rfl
    exact hfree (.msgWaiters sender) (by rw [hw]; simp)
  unfold msgReceive
  rcases msgQueueGet_cases k me with ⟨msgArray, harr, havail, hget⟩ | ⟨hempty, hget⟩
  · simp only [hget, harr]
    rw [if_neg (by simp)]
    rcases h.removeHead_cases (w := .msgWaiters me) (by simp) with
      ⟨sender, ts, hw, hhead⟩ | ⟨hw, hhead⟩
    · rw [hhead]
      obtain ⟨hinv, hlet⟩ := h.letThrough hw
      dsimp only
      rw [msgReceiveWaiter_some]
      case harr => exact harr
      case hput =>
        dsimp only
        rw [update_self]
        exact hq.put harr havail
      refine ⟨_, hinv, ?_⟩
      have hmove := @MsgMove.refilled n k W (some me) pid me _ _ _ _ rfl hidle harr havail hw hlet
      simpa [update_of_ne (hne sender ts hw)] using hmove
    · rw [hhead]
      rw [update_self]
      exact ⟨W, h, .taken rfl hidle harr havail hw⟩
  · simp only [hget, update_eq_self]
    by_cases hnone : ¬ block ∧ k.sched.next (waitHead (.msgWaiters me)) = .null
    · rw [if_pos ⟨hnone.1, hnone.2, trivial⟩]
      exact ⟨W, h, .failed⟩
    · rw [if_neg fun hf => hnone ⟨hf.1, hf.2.1⟩]
      rcases h.removeHead_cases (w := .msgWaiters me) (by simp) with
        ⟨sender, ts, hw, hhead⟩ | ⟨hw, hhead⟩
      · rw [hhead]
        obtain ⟨hinv, hlet⟩ := h.letThrough hw
        refine ⟨_, hinv, ?_⟩
        have hmove := @MsgMove.copied n k W (some me) pid me _ _ _ rfl hidle hempty hw hlet
        simpa [msgReceiveWaiter] using hmove
      · rw [hhead]
        obtain ⟨hinv, hset⟩ := h.setStatus .receiveBlocked hl hfree
        exact ⟨W, hinv, .receiving rfl hidle hempty hw hset⟩

/-! ## What a step can do -/

/-- The thread that takes the step, if it is not an interrupt. -/
def MsgEvent.thread : MsgEvent n → Option (Fin n)
  | .call me _ => some me
  | .resume me => some me
  | _ => none

/-- The event is not about questions and replies. -/
def MsgEvent.OneWay : MsgEvent n → Prop
  | .call _ (.sendReceive _ _) => False
  | .call _ (.reply _ _) => False
  | .replyInt _ _ => False
  | _ => True

instance (e : MsgEvent n) : Decidable e.OneWay := by
  unfold MsgEvent.OneWay
  split <;> infer_instance

/-- The state in which a section starts: its thread has been dispatched. -/
def MsgEvent.Starts (e : MsgEvent n) (k k₀ : Kernel n) : Prop :=
  match e.thread with
  | some me => dispatch k me = some k₀
  | none => k₀ = k

/-- The thread has passed its message, and the message has been stamped. -/
def MsgEvent.enter (k : Kernel n) : MsgEvent n → Kernel n
  | .call me (.send m _) => msgStamped { k with waitData := update k.waitData me m } me
  | .call me (.trySend m _) => msgStamped { k with waitData := update k.waitData me m } me
  | .call me (.sendToSelf m) =>
    msgStamped { k with waitData := update k.waitData me m } me
  | _ => k

/-- The pid a message is sent under. -/
def MsgEvent.pid (cfg : Cfg) (k : Kernel n) (e : MsgEvent n) : Nat :=
  match e.thread with
  | some _ => k.sched.schedActivePid
  | none => cfg.kernelPidIsr

theorem msgResume_move {k' : Kernel n} {out : MsgOut n} {pid : Nat} (hs : msgResume k me = some (k', out)) :
    k'.sched = k.sched ∧ MsgMove k W (some me) pid out k' W := by
  unfold msgResume at hs
  split at hs
  all_goals simp only [reduceCtorEq, some.injEq, Prod.mk.injEq] at hs
  · rename_i hc
    obtain ⟨rfl, rfl⟩ := hs
    exact ⟨rfl, .sent rfl hc⟩
  · rename_i hc
    obtain ⟨rfl, rfl⟩ := hs
    exact ⟨rfl, .answered rfl hc⟩
  · rename_i hc
    obtain ⟨rfl, rfl⟩ := hs
    exact ⟨rfl, .delivered rfl hc⟩

theorem MsgMoves.of_some {r : Kernel n × MsgOut n} {k' : Kernel n} {out : MsgOut n}
    {u : Option (Fin n)} {pid : Nat} (hm : MsgMoves cfg k W M u pid r) (hs : some r = some (k', out)) :
    ∃ W', KernelInv cfg k'.sched W' M ∧ MsgMove k W u pid out k' W' := by
  rw [some.injEq] at hs
  rw [hs] at hm
  exact hm

/-- **Every step is a dispatch and one move.** -/
theorem msgStep_move {k' : Kernel n} {e : MsgEvent n} {out : MsgOut n}
    (h : KernelInv cfg k.sched W M) (hq : ∀ t, QueueOk k t) (hway : e.OneWay)
    (hs : msgStep cfg k e = some (k', out)) :
    ∃ k0 W', e.Starts k k0 ∧ KernelInv cfg k'.sched W' M ∧
      MsgMove (e.enter k0) W e.thread (e.pid cfg k0) out k' W' := by
  cases e with
  | call me c =>
    obtain ⟨k0, hd, hs⟩ := bind_eq_some_iff.mp hs
    obtain ⟨hinv, hdis, hk0⟩ := h.dispatch hd
    simp only [ite_none_right_eq_some] at hs
    obtain ⟨hidle, hs⟩ := hs
    have hst : k0.sched.status me ≠ .receiveBlocked := by
      intro hst
      have hon := hdis.onRunqueue
      rw [hst] at hon
      exact Bool.noConfusion hon
    cases c with
    | send m targetPid =>
      obtain ⟨W', hinv', hmove⟩ := (msgSend_moves
        (k := { k0 with waitData := update k0.waitData me m }) hinv targetPid true
        hdis.live hdis.free hidle hst).of_some hs
      exact ⟨k0, W', hd, hinv', hmove⟩
    | trySend m targetPid =>
      obtain ⟨W', hinv', hmove⟩ := (msgSend_moves
        (k := { k0 with waitData := update k0.waitData me m }) hinv targetPid false
        hdis.live hdis.free hidle hst).of_some hs
      exact ⟨k0, W', hd, hinv', hmove⟩
    | sendToSelf m =>
      obtain ⟨W', hinv', hmove⟩ := (msgSendToSelf_moves
        (k := { k0 with waitData := update k0.waitData me m }) hinv hst).of_some hs
      exact ⟨k0, W', hd, hinv', hmove⟩
    | sendReceive m targetPid => exact hway.elim
    | reply m reply => exact hway.elim
    | receive =>
      have hq0 : QueueOk k0 me := by
        rw [hk0]
        exact hq me
      obtain ⟨W', hinv', hmove⟩ := (msgReceive_moves hinv hq0 true hdis.live hdis.free hidle
        k0.sched.schedActivePid).of_some hs
      exact ⟨k0, W', hd, hinv', hmove⟩
    | tryReceive =>
      have hq0 : QueueOk k0 me := by
        rw [hk0]
        exact hq me
      obtain ⟨W', hinv', hmove⟩ := (msgReceive_moves hinv hq0 false hdis.live hdis.free hidle
        k0.sched.schedActivePid).of_some hs
      exact ⟨k0, W', hd, hinv', hmove⟩
  | resume me =>
    obtain ⟨k0, hd, hs⟩ := bind_eq_some_iff.mp hs
    obtain ⟨hinv, -, -⟩ := h.dispatch hd
    obtain ⟨hsched, hmove⟩ := msgResume_move hs
    exact ⟨k0, W, hd, hsched ▸ hinv, hmove⟩
  | sendInt m targetPid =>
    obtain ⟨W', hinv', hmove⟩ := (msgSendInt_moves h m targetPid).of_some hs
    exact ⟨k, W', rfl, hinv', hmove⟩
  | replyInt m reply => exact hway.elim

end Riot.Core
