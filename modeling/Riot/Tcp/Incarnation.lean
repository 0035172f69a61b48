import Riot.Tcp.Opening

/-!
# Connections that follow each other on one TCB

The timers of a TCB send messages to the thread of the event loop; a message that has
been sent is not called back with its timer. A transition to CLOSED clears the
retransmit queue and its timer, but not the other timer, which runs in SYN_RCVD and
TIME_WAIT; and a reset in SYN_RCVD leads straight to LISTEN.
-/

namespace Riot.Tcp

open Riot.Lib Option List

/-- The messages of the timers. -/
inductive TimerMsg where
  /-- `MSG_TYPE_RETRANSMISSION` -/
  | retransmission
  /-- `MSG_TYPE_TIMEWAIT` -/
  | timewait
  /-- `MSG_TYPE_CONNECTION_TIMEOUT` -/
  | connectionTimeout
  deriving DecidableEq

def TimeoutType.msg : TimeoutType → TimerMsg
  | .timewait => .timewait
  | .connectionTimeout => .connectionTimeout

/-- A TCB with its timers; each of them carries the number of the connection that it was set for. -/
structure TimerHist where
  tcb : Tcb
  /-- How many connections have begun. -/
  conn : Nat
  retransmitOf : Nat
  timeoutOf : Nat
  /-- The messages of expired timers, the oldest first. -/
  queue : List (TimerMsg × Nat)
  /-- The event loop has cleared the retransmit queue for a connection timeout, and is about to open. -/
  reopen : Option Nat
  /-- `event_misc`, the connection timeout of the functions of `gnrc_tcp.c` -/
  misc : Option Nat

inductive TimerEvent where
  /-- A function of the user, or a received segment -/
  | call (c : Call)
  | api (a : ApiWrite)
  | expireRetransmit
  | expireTimeout
  /-- The event loop handles a message of a timer; the event of the call is not used. -/
  | handle (c : Call)
  /-- `_sched_connection_timeout` -/
  | schedMisc
  /-- `_unsched_mbox` -/
  | unschedMisc
  /-- A function of `gnrc_tcp.c` handles its connection timeout. -/
  | expireMisc (c : Call)

def isTimeout : Event → Bool
  | .timeoutTimewait => true
  | .timeoutRetransmit => true
  | .timeoutConnection => true
  | _ => false

/-- What an event does by itself, and the call of the state machine that comes of it. -/
def timerEvent (h : TimerHist) : TimerEvent → Option (TimerHist × Option Call)
  | .call c => if isTimeout c.event then none else some (h, some c)
  | .api a => (apiWrite h.tcb a).map fun t => ({ h with tcb := t }, none)
  | .expireRetransmit =>
    if h.tcb.eventRetransmit then
      some ({ h with
        tcb.eventRetransmit := false, queue := h.queue ++ [(.retransmission, h.retransmitOf)] }, none)
    else none
  | .expireTimeout =>
    h.tcb.eventTimeout.map fun type =>
      ({ h with tcb.eventTimeout := none, queue := h.queue ++ [(type.msg, h.timeoutOf)] }, none)
  | .handle c =>
    match h.reopen with
    | some _ => some ({ h with reopen := none }, some { c with event := .callOpen })
    | none =>
      match h.queue with
      | [] => none
      | (.retransmission, _) :: queue => some ({ h with queue }, some { c with event := .timeoutRetransmit })
      | (.timewait, _) :: queue => some ({ h with queue }, some { c with event := .timeoutTimewait })
      | (.connectionTimeout, n) :: queue =>
        some ({ h with queue, reopen := some n }, some { c with event := .clearRetransmit })
  -- an open sets its timeout for the connection that it is about to begin
  | .schedMisc => some ({ h with misc := some (if h.tcb.state = .closed then h.conn + 1 else h.conn) }, none)
  | .unschedMisc => some ({ h with misc := none }, none)
  | .expireMisc c =>
    h.misc.map fun _ => ({ h with misc := none }, some { c with event := .timeoutConnection })

/-- What comes of a call: a timer that was not set before has been set for the connection of now. -/
def TimerHist.after (h : TimerHist) (event : Event) (w : Fsm) : TimerHist :=
  let conn := if beginsConnection h.tcb event w then h.conn + 1 else h.conn
  { h with
    tcb := w.tcb
    conn := conn
    retransmitOf := if h.tcb.eventRetransmit then h.retransmitOf else conn
    timeoutOf := if w.tcb.eventTimeout = h.tcb.eventTimeout then h.timeoutOf else conn }

def timerStep (h : TimerHist) (ev : TimerEvent) : Option TimerHist :=
  (timerEvent h ev).bind fun (h, call) =>
    match call with
    | none => some h
    | some c => (fsmCall h.tcb c).map (h.after c.event)

def timerStart : TimerHist where
  tcb := tcbInit
  conn := 0
  retransmitOf := 0
  timeoutOf := 0
  queue := []
  reopen := none
  misc := none

/-- In CLOSED and LISTEN, the retransmit queue is empty and no timer is set. -/
def Quiescent (h : TimerHist) : Prop :=
  inConnection h.tcb.state = false →
    h.tcb.pktRetransmit = none ∧ h.tcb.eventRetransmit = false ∧ h.tcb.eventTimeout = none

/-- A timer that is handled in a connection has been set for that connection. -/
def OwnTimer (h : TimerHist) : TimerEvent → Prop
  | .handle _ => inConnection h.tcb.state → (∀ n, h.reopen = some n → n = h.conn) ∧
      ∀ m ∈ h.queue.head?, h.reopen = none → m.2 = h.conn
  | .expireMisc _ => inConnection h.tcb.state → ∀ n, h.misc = some n → n = h.conn
  | _ => True

/-! ## The condition -/

/-- A reset, or a SYN, that closes the connection. -/
def TakesReset (t : Tcb) (seg : Segment) : Prop :=
  (t.state = .synSent ∧ seg.ctl.rst ∧ seg.ctl.ack ∧ t.iss < seg.ackNum ∧ seg.ackNum ≤ t.sndNxt) ∨
    (t.state ≠ .listen ∧ t.state ≠ .synSent ∧ chkSeqNum t seg.seqNum (getPayLen seg) = some true ∧
      (seg.ctl.rst ∨ seg.ctl.syn))

instance (t : Tcb) (seg : Segment) : Decidable (TakesReset t seg) := inferInstanceAs (Decidable (_ ∨ _))

/-- The segment leaves nothing in the retransmit queue. -/
def AcksQueue (t : Tcb) (seg : Segment) : Prop :=
  (ackIsNew t seg.ackNum = some true ∧ t.pktRetransmit.all fun pkt =>
      lss32Bit (pkt.seqNum + getSegLen pkt - 1) seg.ackNum == some true) ∨
    (ackIsNew t seg.ackNum = some false ∧ lss32Bit t.sndNxt seg.ackNum = some false ∧ t.pktRetransmit = none)

instance (t : Tcb) (seg : Segment) : Decidable (AcksQueue t seg) := inferInstanceAs (Decidable (_ ∨ _))

/-- An acknowledgment that closes the connection. -/
def AcksLast (t : Tcb) (seg : Segment) : Prop :=
  t.state = .lastAck ∧ chkSeqNum t seg.seqNum (getPayLen seg) = some true ∧ seg.ctl.rst = false ∧
    seg.ctl.syn = false ∧ seg.ctl.ack ∧ AcksQueue t seg

instance (t : Tcb) (seg : Segment) : Decidable (AcksLast t seg) := inferInstanceAs (Decidable (_ ∧ _))

/-- A send has something to send, and gets a packet for it. -/
def SendsData (e : Env) (w : Fsm) (buf : List UInt8) : Prop :=
  w.tcb.sndUna + w.tcb.sndWnd.setWidth 32 - w.tcb.sndNxt ≠ 0 ∧ w.tcb.sndWnd ≠ 0 ∧
    w.tcb.pktRetransmit = none ∧ w.tcb.mss ≠ 0 ∧ buf ≠ [] ∧ e.alloc w.builds

instance (e : Env) (w : Fsm) (buf : List UInt8) : Decidable (SendsData e w buf) :=
  inferInstanceAs (Decidable (_ ∧ _))

/-- What must hold of the TCB before a call. -/
def QuietOk (e : Env) (w : Fsm) : Event → Prop
  | .callOpen => (HasBuffer w → w.tcb.eventTimeout = none) ∧
      (HasBuffer w ∧ w.tcb.status.listening ∨ OpensActively e w → w.tcb.pktRetransmit = none)
  | .callSend buf => inConnection w.tcb.state = false → ¬SendsData e w buf
  | .callAbort => w.tcb.eventTimeout = none
  | .timeoutTimewait => w.tcb.eventTimeout = none
  | .timeoutConnection => w.tcb.eventTimeout = none
  | .rcvdPkt seg => (optionParse w seg).2 = true →
      (TakesReset w.tcb seg ∨ AcksLast w.tcb seg → w.tcb.eventTimeout = none) ∧
      (w.tcb.state = .synRcvd → w.tcb.status.listening → TakesReset w.tcb seg → seg.ctl.rst →
        w.tcb.pktRetransmit = none)
  | _ => True

/-- No message of a timer is on its way. -/
def NothingPending (h : TimerHist) : Prop := h.queue = [] ∧ h.reopen = none

instance (h : TimerHist) : Decidable (NothingPending h) := inferInstanceAs (Decidable (_ ∧ _))

/-- A connection begins when no message of a timer is on its way. -/
def FreshOk (h : TimerHist) (c : Call) : Prop :=
  match c.event with
  | .callOpen => OpensActively c.env (callStart h.tcb c) →
      NothingPending h ∧ (h.misc = none ∨ h.misc = some (h.conn + 1))
  | .rcvdPkt seg => AdmitsSyn c.env (callStart h.tcb c) seg → NothingPending h ∧ h.misc = none
  | _ => True

def TimerOk (h : TimerHist) (ev : TimerEvent) : Prop :=
  match timerEvent h ev with
  | some (h, some c) => QuietOk c.env (callStart h.tcb c) c.event ∧ FreshOk h c
  | _ => True

/-! ## The timers of one TCB -/

/-- The retransmission timer runs for a packet. -/
def Armed (t : Tcb) : Prop := t.eventRetransmit = true → t.pktRetransmit ≠ none

/-- In CLOSED and LISTEN nothing is left of the last connection. -/
structure TimerInv (t : Tcb) : Prop where
  armed : Armed t
  idle : inConnection t.state = false → t.pktRetransmit = none ∧ t.eventTimeout = none

variable {e : Env} {w w' : Fsm} {t t' : Tcb} {seg : Segment} {state : State} {ctl : Ctl}
  {seqNum ackNum : Seq} {payload : List UInt8}

theorem Armed.congr (h : Armed t) (hevent : t'.eventRetransmit = t.eventRetransmit)
    (hslot : t'.pktRetransmit = t.pktRetransmit) : Armed t' := by
  unfold Armed
  rw [hevent, hslot]
  exact h

theorem TimerInv.congr (h : TimerInv t) (hstate : t'.state = t.state)
    (hevent : t'.eventRetransmit = t.eventRetransmit) (hslot : t'.pktRetransmit = t.pktRetransmit)
    (htimeout : t'.eventTimeout = t.eventTimeout) : TimerInv t' :=
  ⟨h.armed.congr hevent hslot, by rw [hstate, hslot, htimeout]; exact h.idle⟩

theorem Armed.inv (h : Armed t) (hconn : inConnection t.state = true) : TimerInv t :=
  ⟨h, fun hc => by rw [hconn] at hc; cases hc⟩

theorem Armed.transition (h : Armed w.tcb) (hconn : inConnection state = true) :
    TimerInv (transitionTo e w state).tcb := by
  have hs : ∀ {s : State}, s ≠ .closed → inConnection s = true →
      inConnection (transitionTo e w s).tcb.state = true := by
    intro s hne hc
    rw [transitionTo_state_of_ne hne]
    exact hc
  cases state with
  | closed => cases hconn
  | listen => cases hconn
  | _ => exact Armed.inv (h.congr rfl rfl) (hs (by decide) rfl)

theorem TimerInv.toListen (h : Armed w.tcb) (hslot : w.tcb.pktRetransmit = none)
    (htimeout : w.tcb.eventTimeout = none) : TimerInv (transitionTo e w .listen).tcb :=
  ⟨h.congr rfl rfl, fun _ => ⟨hslot, htimeout⟩⟩

theorem TimerInv.toClosed (h : Armed w.tcb) (htimeout : w.tcb.eventTimeout = none) :
    TimerInv (transitionTo e w .closed).tcb := by
  have hevent : (clearRetransmit w).tcb.eventRetransmit = false := clearRetransmit_eventRetransmit h
  have htimeout' : (clearRetransmit w).tcb.eventTimeout = none := by
    rw [clearRetransmit_eventTimeout]
    exact htimeout
  have hslot : (transitionTo e w .closed).tcb.pktRetransmit = none := by rw [transitionTo_slot, if_pos rfl]
  refine ⟨fun hc => ?_, fun _ => ⟨hslot, ?_⟩⟩
  · unfold transitionTo transitionToClosed at hc
    dsimp only at hc
    split at hc
    · exact absurd (hevent.symm.trans hc) (by decide)
    · rw [rcvbufReleaseBuffer_eventRetransmit] at hc
      exact absurd (hevent.symm.trans hc) (by decide)
  · unfold transitionTo transitionToClosed
    dsimp only
    split
    · exact htimeout'
    · rw [rcvbufReleaseBuffer_eventTimeout]
      exact htimeout'

theorem setupRetransmit_armed {out : Option Segment} {again : Bool} (h : Armed w.tcb) :
    Armed (setupRetransmit w out again).tcb := by
  unfold setupRetransmit
  split
  · exact h
  · split
    · exact h
    · split
      · exact h
      · exact fun _ hc => by cases hc

theorem Armed.queueSend (h : Armed w.tcb) : Armed (buildQueueSend e w ctl seqNum ackNum payload).tcb := by
  unfold buildQueueSend pktBuild
  dsimp only
  have hsetup : ∀ out : Option Segment, Armed (setupRetransmit { w with builds := w.builds + 1 } out false).tcb :=
    fun out => setupRetransmit_armed h
  unfold pktSend
  split
  · exact hsetup _
  · exact (hsetup _).congr rfl rfl

/-! ### Calls of the user -/

theorem TimerInv.callOpen (h : TimerInv w.tcb) (hok : QuietOk e w .callOpen)
    (hcall : fsmCallOpen e w = some w') : TimerInv w'.tcb := by
  rcases fsmCallOpen_cases hcall with ⟨htcb, -⟩ | ⟨hbuf, hlisten, w1, _, _, _, htcb1, htcb⟩ |
    ⟨hbuf, w1, _, _, _, htcb1, htcb⟩ | ⟨hopens, w1, _, _, _, _, htcb, -, -, rfl⟩
  · rw [htcb]
    exact h
  · rw [htcb]
    refine TimerInv.toListen ?_ ?_ ?_
    · rw [htcb1]
      exact h.armed
    · rw [htcb1]
      exact hok.2 (.inl ⟨hbuf, hlisten⟩)
    · rw [htcb1]
      exact hok.1 hbuf
  · rw [htcb]
    refine TimerInv.toClosed ?_ ?_
    · rw [htcb1]
      exact h.armed
    · rw [htcb1]
      exact hok.1 hbuf
  · refine Armed.inv (Armed.queueSend ?_) ?_
    · rw [htcb]
      exact h.armed
    · rw [buildQueueSend_state, htcb]
      rfl

theorem TimerInv.callSend {buf : List UInt8} (h : TimerInv w.tcb) (hok : QuietOk e w (.callSend buf)) :
    TimerInv (fsmCallSend e w buf).tcb := by
  unfold fsmCallSend
  dsimp only
  split
  · rename_i hguard
    cases hconn : inConnection w.tcb.state with
    | true => exact Armed.inv (Armed.queueSend h.armed) (by rw [buildQueueSend_state]; exact hconn)
    | false =>
      generalize hn : min (min (min
        (w.tcb.sndUna + w.tcb.sndWnd.setWidth 32 - w.tcb.sndNxt).toNat configMss) w.tcb.mss.toNat) buf.length = n
      by_cases hempty : buf.take n = []
      · rw [hempty, buildQueueSend_nil]
        exact h
      · have hlen : (buf.take n).length < 2 ^ 16 := by
          rw [length_take]
          omega
        rw [buildQueueSend_tcb rfl (.inr (.inr hempty)) hlen, if_neg]
        · exact h
        · intro halloc
          refine hok hconn ⟨hguard.1, hguard.2.1, hguard.2.2, ?_, ?_, halloc⟩
          · intro hzero
            rw [hzero] at hn
            have hn : n = 0 := by simp at hn; omega
            exact hempty (by rw [hn]; rfl)
          · intro hnil
            exact hempty (by rw [hnil]; exact take_nil)
  · exact h

theorem TimerInv.callRecv {len : Nat} (h : TimerInv w.tcb) : TimerInv (fsmCallRecv e w len).tcb := by
  unfold fsmCallRecv
  dsimp only
  split
  · exact h
  · split
    · rw [sendAck_tcb]
      exact h.congr rfl rfl rfl rfl
    · exact h.congr rfl rfl rfl rfl

theorem TimerInv.callClose (h : TimerInv w.tcb) : TimerInv (fsmCallClose e w).tcb := by
  have hfin : Armed (callCloseFin e w).tcb ∧ (callCloseFin e w).tcb.state = w.tcb.state ∧
      (callCloseFin e w).tcb.eventTimeout = w.tcb.eventTimeout ∧
      (inConnection w.tcb.state = false → callCloseFin e w = w) := by
    unfold callCloseFin
    split
    · rename_i hstate
      refine ⟨Armed.queueSend h.armed, buildQueueSend_state, buildQueueSend_eventTimeout, fun hc => ?_⟩
      rcases hstate with hs | hs | hs <;> rw [hs] at hc <;> cases hc
    · exact ⟨h.armed, rfl, rfl, fun _ => rfl⟩
  unfold fsmCallClose
  obtain ⟨harmed, hstate, htimeout, hidle⟩ := hfin
  unfold callCloseTransition
  split
  · rename_i hs
    refine TimerInv.toClosed harmed ?_
    rw [htimeout]
    exact (h.idle (by rw [← hstate, hs]; rfl)).2
  · split
    · exact harmed.transition rfl
    · split
      · exact harmed.transition rfl
      · cases hconn : inConnection w.tcb.state with
        | true => exact harmed.inv (by rw [hstate]; exact hconn)
        | false =>
          rw [hidle hconn]
          exact h

theorem TimerInv.callAbort (h : TimerInv w.tcb) (hok : w.tcb.eventTimeout = none) :
    TimerInv (fsmCallAbort e w).tcb := by
  unfold fsmCallAbort
  have hsame : (if w.tcb.state = .synRcvd ∨ w.tcb.state = .established ∨ w.tcb.state = .finWait1 ∨
      w.tcb.state = .finWait2 ∨ w.tcb.state = .closeWait then
      buildSend e w { rst := true } w.tcb.sndNxt w.tcb.rcvNxt else w).tcb = w.tcb := by
    split
    · exact buildSend_rst_tcb
    · rfl
  exact TimerInv.toClosed (by rw [hsame]; exact h.armed) (by rw [hsame]; exact hok)

/-! ### Received segments -/

theorem TimerInv.rcvdListen (h : TimerInv w.tcb) (hstate : w.tcb.state = .listen)
    (hvalid : (optionParse w seg).2 = true) : TimerInv (rcvdListen e (optionParse w seg).1 seg).tcb := by
  rcases rcvdListen_cases (e := e) hstate hvalid with ⟨_, _, htcb⟩ | ⟨-, w1, htcb, -, heq⟩
  · rw [htcb]
    exact h.congr rfl rfl rfl rfl
  · rw [heq]
    refine Armed.transition (Armed.queueSend ?_) rfl
    rw [htcb]
    exact h.armed

theorem Armed.acknowledge {ack : Seq} (h : Armed w.tcb) (hack : pktAcknowledge w ack = some w') :
    Armed w'.tcb := by
  unfold pktAcknowledge at hack
  split at hack
  · cases hack
    exact h
  · obtain ⟨b, -, rfl⟩ := map_eq_some_iff.mp hack
    cases b with
    | true => exact fun hc => by cases hc
    | false => exact h

theorem TimerInv.rcvdSynSent (h : TimerInv w.tcb) (hstate : w.tcb.state = .synSent)
    (hok : TakesReset w.tcb seg → w.tcb.eventTimeout = none) (hcall : rcvdSynSent e w seg = some w') :
    TimerInv w'.tcb := by
  unfold Tcp.rcvdSynSent at hcall
  split at hcall
  · cases hcall
    split
    · exact h
    · rw [buildSend_rst_tcb]
      exact h
  · rename_i hacceptable
    split at hcall
    · rename_i hrst
      cases hcall
      split
      · rename_i hflag
        have hplain := not_or.mp (fun hc => hacceptable ⟨hflag, hc⟩)
        exact TimerInv.toClosed h.armed
          (hok (.inl ⟨hstate, hrst, hflag, BitVec.not_le.mp hplain.1, BitVec.not_lt.mp hplain.2⟩))
      · exact h
    · split at hcall
      · obtain ⟨w1, hack, rfl⟩ := map_eq_some_iff.mp hcall
        have harmed1 : Armed w1.tcb := by
          unfold rcvdSynSentAck at hack
          split at hack
          · refine Armed.acknowledge ?_ hack
            exact h.armed
          · cases hack
            exact h.armed
        have hfinal : ∀ w2 : Fsm, TimerInv w2.tcb →
            TimerInv { w2.tcb with sndWnd := seg.window, sndWl1 := seg.seqNum, sndWl2 := seg.ackNum } :=
          fun w2 h2 => h2.congr rfl rfl rfl rfl
        unfold rcvdSynSentAnswer
        refine hfinal _ ?_
        split
        · refine Armed.transition ?_ rfl
          rw [sendAck_tcb]
          exact harmed1
        · exact Armed.transition (Armed.queueSend harmed1) rfl
      · cases hcall
        exact h

theorem TimerInv.ackSynRcvd (h : TimerInv w.tcb) (hcall : rcvdAckSynRcvd e w seg = some w') :
    TimerInv w'.tcb := by
  rcases rcvdAckSynRcvd_cases hcall with ⟨-, rfl⟩ | ⟨-, -, htcb⟩ | ⟨-, -, rfl⟩
  · exact h
  · rw [htcb]
    exact h
  · refine Armed.transition ?_ rfl
    exact h.armed

/-- What the acknowledgment leaves in the queue, if the segment is processed further. -/
theorem acksQueue_of_ackData (hcall : rcvdAckData e w seg = some (w', true))
    (hslot : w'.tcb.pktRetransmit = none) : AcksQueue w.tcb seg := by
  obtain ⟨acked, hnew, hcall⟩ := bind_eq_some_iff.mp hcall
  cases acked with
  | true =>
    refine .inl ⟨hnew, ?_⟩
    obtain ⟨w1, hack, heq⟩ := map_eq_some_iff.mp hcall
    cases heq
    unfold pktAcknowledge at hack
    split at hack
    · rename_i hnone
      rw [show w.tcb.pktRetransmit = none from hnone]
      rfl
    · rename_i pkt hsome
      obtain ⟨b, hlt, rfl⟩ := map_eq_some_iff.mp hack
      cases b with
      | true =>
        rw [show w.tcb.pktRetransmit = some pkt from hsome, all_some, hlt]
        rfl
      | false => exact absurd (hsome.symm.trans hslot) (fun hc => by cases hc)
  | false =>
    obtain ⟨unsent, hunsent, heq⟩ := map_eq_some_iff.mp hcall
    cases unsent with
    | true => cases (Prod.mk.inj heq).2
    | false =>
      cases heq
      exact .inr ⟨hnew, hunsent, hslot⟩

theorem TimerInv.ack {goesOn : Bool} (h : TimerInv w.tcb)
    (hok : w.tcb.state = .lastAck → AcksQueue w.tcb seg → w.tcb.eventTimeout = none)
    (hcall : rcvdAck e w seg = some (w', goesOn)) : TimerInv w'.tcb := by
  rcases rcvdAck_cases hcall with ⟨-, rfl, -⟩ | ⟨-, htcb, -⟩ | ⟨hacks, w1, w2, hdata, hwindow, hfin⟩
  · exact h
  · rw [htcb]
    exact h
  · have h1 : Armed w1.tcb ∧ w1.tcb.eventTimeout = w.tcb.eventTimeout := by
      rcases rcvdAckData_cases hdata with ⟨-, -, hack⟩ | ⟨-, -, rfl⟩ | ⟨hc, -⟩
      · refine ⟨Armed.acknowledge (w := { w with tcb.sndUna := seg.ackNum }) h.armed hack, ?_⟩
        obtain ⟨_, _, htcb⟩ := pktAcknowledge_tcb hack
        rw [htcb]
      · exact ⟨h.armed, rfl⟩
      · cases hc
    have hstate1 : w1.tcb.state = w.tcb.state := rcvdAckData_state hdata
    have hqueue : w1.tcb.pktRetransmit = none → AcksQueue w.tcb seg := acksQueue_of_ackData hdata
    obtain ⟨_, _, _, _, hw2, -⟩ := rcvdAckWindow_tcb hwindow
    have harmed : Armed w2.tcb := by
      rw [hw2]
      exact h1.1
    have hstate2 : w2.tcb.state = w.tcb.state := by
      rw [hw2]
      exact hstate1
    have hslot2 : w2.tcb.pktRetransmit = w1.tcb.pktRetransmit := by rw [hw2]
    have htimeout2 : w2.tcb.eventTimeout = w.tcb.eventTimeout := by
      rw [hw2]
      exact h1.2
    obtain rfl : w' = (rcvdAckFin e w2).1 := by rw [hfin]
    rcases rcvdAckFin_cases (e := e) (w := w2) with ⟨heq, -⟩ | ⟨-, -, heq⟩ | ⟨-, -, heq⟩ | ⟨hslot, hs, heq⟩
    · rw [heq]
      refine harmed.inv ?_
      rw [hstate2]
      cases hs : w.tcb.state <;> rw [hs] at hacks <;> first | rfl | cases hacks
    · rw [heq]
      exact harmed.transition rfl
    · rw [heq]
      exact harmed.transition rfl
    · rw [heq]
      refine TimerInv.toClosed harmed ?_
      rw [htimeout2]
      exact hok (hstate2 ▸ hs) (hqueue (hslot2 ▸ hslot))

theorem TimerInv.afterPayload (h : TimerInv w.tcb) : TimerInv (rcvdPayload e w seg).tcb := by
  obtain ⟨_, _, _, _, htcb, -⟩ := @rcvdPayload_fields e w seg
  rw [htcb]
  exact h.congr rfl rfl rfl rfl

theorem TimerInv.afterFin (h : TimerInv w.tcb) : TimerInv (rcvdFin e w seg).tcb := by
  have htake : TimerInv (takeFin e w seg).tcb := by
    rw [takeFin_tcb]
    exact h.congr rfl rfl rfl rfl
  unfold rcvdFin
  split
  · split
    · exact h
    · generalize takeFin e w seg = w1 at htake
      rcases finTransition_cases (e := e) (w := w1) with ⟨-, heq⟩ | ⟨-, heq⟩ | ⟨-, heq⟩ | ⟨hs, heq⟩ | ⟨-, heq⟩
      · rw [heq]
        exact htake.armed.transition rfl
      · rw [heq]
        exact htake.armed.transition rfl
      · rw [heq]
        exact htake.armed.transition rfl
      · rw [heq]
        refine Armed.inv htake.armed ?_
        show inConnection w1.tcb.state = true
        rw [hs]
        rfl
      · rw [heq]
        exact htake
  · exact h

theorem TimerInv.rcvdAcked (h : TimerInv w.tcb)
    (hok : w.tcb.state = .lastAck → AcksQueue w.tcb seg → w.tcb.eventTimeout = none)
    (hcall : rcvdAcked e w seg = some w') : TimerInv w'.tcb := by
  obtain ⟨w1, w2, goesOn, hsyn, hack, rfl⟩ := rcvdAcked_cases hcall
  have hok1 : w1.tcb.state = .lastAck → AcksQueue w1.tcb seg → w1.tcb.eventTimeout = none := by
    rcases rcvdAckSynRcvd_cases hsyn with ⟨-, rfl⟩ | ⟨-, -, htcb⟩ | ⟨-, -, rfl⟩
    · exact hok
    · rw [htcb]
      exact hok
    · intro hs
      cases hs
  have h2 : TimerInv w2.tcb := (h.ackSynRcvd hsyn).ack hok1 hack
  split
  · exact h2.afterPayload.afterFin
  · exact h2

theorem TimerInv.rcvdOther (h : TimerInv w.tcb) (hlisten : w.tcb.state ≠ .listen) (hsent : w.tcb.state ≠ .synSent)
    (hclose : TakesReset w.tcb seg ∨ AcksLast w.tcb seg → w.tcb.eventTimeout = none)
    (hslot : w.tcb.state = .synRcvd → w.tcb.status.listening → TakesReset w.tcb seg → seg.ctl.rst →
      w.tcb.pktRetransmit = none)
    (hcall : rcvdOther e w seg = some w') : TimerInv w'.tcb := by
  rcases rcvdOther_cases hcall with ⟨-, htcb⟩ | ⟨hchk, ⟨hrst, hcases⟩ | ⟨-, hsyn, w1, htcb, rfl⟩ | ⟨-, -, -, rfl⟩ |
    ⟨hrst, hsyn, hack, hacked⟩⟩
  · rw [htcb]
    exact h
  · have htakes : TakesReset w.tcb seg := .inr ⟨hlisten, hsent, hchk, .inl hrst⟩
    rcases hcases with ⟨hs, hl, rfl⟩ | rfl
    · exact TimerInv.toListen h.armed (hslot hs hl htakes hrst) (hclose (.inl htakes))
    · exact TimerInv.toClosed h.armed (hclose (.inl htakes))
  · have htakes : TakesReset w.tcb seg := .inr ⟨hlisten, hsent, hchk, .inr hsyn⟩
    exact TimerInv.toClosed (by rw [htcb]; exact h.armed) (by rw [htcb]; exact hclose (.inl htakes))
  · exact h
  · exact h.rcvdAcked (fun hs hq => hclose (.inr ⟨hs, hchk, hrst, hsyn, hack, hq⟩)) hacked

theorem TimerInv.rcvdPkt (h : TimerInv w.tcb) (hok : QuietOk e w (.rcvdPkt seg))
    (hcall : fsmRcvdPkt e w seg = some w') : TimerInv w'.tcb := by
  unfold fsmRcvdPkt at hcall
  dsimp only at hcall
  have h1 : TimerInv (optionParse w seg).1.tcb := h.congr rfl rfl rfl rfl
  split at hcall
  · cases hcall
    exact h1
  · rename_i hvalid
    replace hvalid := Bool.eq_true_of_not_eq_false hvalid
    obtain ⟨hclose, hslot⟩ := hok hvalid
    split at hcall
    · rename_i hstate
      cases hcall
      exact h.rcvdListen hstate hvalid
    · rename_i hstate
      exact h1.rcvdSynSent hstate (fun ht => hclose (.inl ht)) hcall
    · rename_i hlisten hsent
      exact h1.rcvdOther hlisten hsent hclose hslot hcall

/-- **A call that meets the condition leaves nothing of a connection that it ends.** -/
theorem TimerInv.call {c : Call} (h : TimerInv t) (hok : QuietOk c.env (callStart t c) c.event)
    (hcall : fsmCall t c = some w) : TimerInv w.tcb := by
  have h0 : TimerInv (callStart t c).tcb := h.congr rfl rfl rfl rfl
  change fsmUnprotected c.env (callStart t c) c.event = some w at hcall
  generalize callStart t c = w0 at *
  obtain ⟨env, list, bufUsed, event⟩ := c
  cases event with
  | callOpen => exact h0.callOpen hok hcall
  | callSend buf =>
    cases hcall
    exact h0.callSend hok
  | callRecv len =>
    cases hcall
    exact h0.callRecv
  | callClose =>
    cases hcall
    exact h0.callClose
  | callAbort =>
    cases hcall
    exact h0.callAbort hok
  | rcvdPkt seg => exact h0.rcvdPkt hok hcall
  | timeoutTimewait =>
    cases hcall
    exact TimerInv.toClosed h0.armed hok
  | timeoutRetransmit =>
    cases hcall
    have harmed : Armed (fsmTimeoutRetransmit w0).tcb := by
      unfold fsmTimeoutRetransmit
      split
      · rename_i hsome
        rw [isSome_iff_exists] at hsome
        rw [pktSend_retransmit]
        exact setupRetransmit_armed h0.armed
      · exact h0.armed
    obtain ⟨event, heq, hnone⟩ := fsmTimeoutRetransmit_tcb (w := w0)
    refine ⟨harmed, ?_⟩
    rw [heq]
    exact h0.idle
  | timeoutConnection =>
    cases hcall
    exact TimerInv.toClosed h0.armed hok
  | sendProbe =>
    cases hcall
    rw [fsmSendProbe_tcb]
    exact h0
  | clearRetransmit =>
    cases hcall
    refine ⟨fun hc => ?_, fun hc => ⟨clearRetransmit_slot, ?_⟩⟩
    · rw [clearRetransmit_eventRetransmit h0.armed] at hc
      cases hc
    · rw [clearRetransmit_state] at hc
      rw [clearRetransmit_eventTimeout]
      exact (h0.idle hc).2

/-! ## The connections -/

/-- Every timer that is set, and every message of one, is of the connection of now. -/
structure OwnTimers (h : TimerHist) : Prop where
  retransmit : h.tcb.eventRetransmit = true → h.retransmitOf = h.conn
  timeout : h.tcb.eventTimeout ≠ none → h.timeoutOf = h.conn
  queue : ∀ m ∈ h.queue, m.2 = h.conn
  reopen : ∀ n, h.reopen = some n → n = h.conn
  misc : ∀ n, h.misc = some n → n = h.conn

structure TimerHistInv (h : TimerHist) : Prop where
  tcb : TimerInv h.tcb
  own : inConnection h.tcb.state = true → OwnTimers h

variable {h h' : TimerHist} {ev : TimerEvent} {c : Call} {next : Option Call}

theorem begins_fresh (hinv : TimerHistInv h) (hquiet : QuietOk c.env (callStart h.tcb c) c.event)
    (hfresh : FreshOk h c) (hcall : fsmCall h.tcb c = some w) (hbegin : beginsConnection h.tcb c.event w = true) :
    h.tcb.eventRetransmit = false ∧ h.tcb.eventTimeout = none ∧ NothingPending h ∧
      (h.misc = none ∨ h.misc = some (h.conn + 1)) := by
  have hoff : h.tcb.pktRetransmit = none → h.tcb.eventRetransmit = false := by
    intro hslot
    by_contra hc
    exact hinv.tcb.armed (Bool.eq_true_of_not_eq_false hc) hslot
  unfold FreshOk at hfresh
  rcases beginsConnection_cases hcall hbegin with ⟨hev, -, hopens⟩ | ⟨hlisten, -, seg, hev, hadmits⟩
  · rw [hev] at hquiet hfresh
    obtain ⟨hpending, hmisc⟩ := hfresh hopens
    exact ⟨hoff (hquiet.2 (.inr hopens)), hquiet.1 hopens.2.1, hpending, hmisc⟩
  · rw [hev] at hfresh
    obtain ⟨hpending, hmisc⟩ := hfresh hadmits
    obtain ⟨hslot, htimeout⟩ := hinv.tcb.idle (by rw [hlisten]; rfl)
    exact ⟨hoff hslot, htimeout, hpending, .inl hmisc⟩

theorem TimerHistInv.call (hinv : TimerHistInv h) (hquiet : QuietOk c.env (callStart h.tcb c) c.event)
    (hfresh : FreshOk h c) (hcall : fsmCall h.tcb c = some w) : TimerHistInv (h.after c.event w) := by
  refine ⟨hinv.tcb.call hquiet hcall, fun hconn => ?_⟩
  replace hconn : inConnection w.tcb.state = true := hconn
  unfold TimerHist.after
  cases hbegin : beginsConnection h.tcb c.event w with
  | true =>
    obtain ⟨hevent, htimeout, ⟨hqueue, hreopen⟩, hmisc⟩ := begins_fresh hinv hquiet hfresh hcall hbegin
    rw [hevent, htimeout, hqueue, hreopen]
    refine ⟨fun _ => rfl, fun hset => ?_, fun m hm => (by cases hm), fun n hn => (by cases hn), fun n hn => ?_⟩
    · exact if_neg hset
    · rcases hmisc with hmisc | hmisc
      · rw [hmisc] at hn
        cases hn
      · rw [hmisc] at hn
        exact (some.inj hn).symm
  | false =>
    have hown : OwnTimers h := hinv.own (inConnection_of_call hcall hbegin hconn)
    refine ⟨fun _ => ?_, fun hset => ?_, hown.queue, hown.reopen, hown.misc⟩
    · dsimp only
      split
      · rename_i hevent
        exact hown.retransmit hevent
      · rfl
    · dsimp only at hset ⊢
      split
      · rename_i hsame
        exact hown.timeout (hsame ▸ hset)
      · rfl

theorem TimerHistInv.event (hinv : TimerHistInv h) (hev : timerEvent h ev = some (h', next)) :
    TimerHistInv h' := by
  cases ev with
  | call c =>
    dsimp only [timerEvent] at hev
    split at hev
    · cases hev
    · cases hev
      exact hinv
  | api a =>
    obtain ⟨t, happly, heq⟩ := map_eq_some_iff.mp hev
    cases heq
    obtain ⟨_, _, _, _, _, _, rfl⟩ := apiWrite_fields happly
    refine ⟨hinv.tcb.congr rfl rfl rfl rfl, fun hconn => ?_⟩
    have hown := hinv.own hconn
    exact ⟨hown.retransmit, hown.timeout, hown.queue, hown.reopen, hown.misc⟩
  | expireRetransmit =>
    dsimp only [timerEvent] at hev
    split at hev
    · rename_i hset
      cases hev
      refine ⟨⟨fun hc => (by cases hc), hinv.tcb.idle⟩, fun hconn => ?_⟩
      have hown := hinv.own hconn
      refine ⟨fun hc => (by cases hc), hown.timeout, fun m hm => ?_, hown.reopen, hown.misc⟩
      rcases mem_append.mp hm with hm | hm
      · exact hown.queue m hm
      · rw [mem_singleton.mp hm]
        exact hown.retransmit hset
    · cases hev
  | expireTimeout =>
    obtain ⟨type, hset, heq⟩ := map_eq_some_iff.mp hev
    cases heq
    refine ⟨⟨hinv.tcb.armed, fun hc => ⟨(hinv.tcb.idle hc).1, rfl⟩⟩, fun hconn => ?_⟩
    have hown := hinv.own hconn
    refine ⟨hown.retransmit, fun hc => absurd rfl hc, fun m hm => ?_, hown.reopen, hown.misc⟩
    rcases mem_append.mp hm with hm | hm
    · exact hown.queue m hm
    · rw [mem_singleton.mp hm]
      exact hown.timeout (by rw [hset]; exact fun hc => (by cases hc))
  | handle c =>
    dsimp only [timerEvent] at hev
    split at hev
    · cases hev
      refine ⟨hinv.tcb, fun hconn => ?_⟩
      have hown := hinv.own hconn
      exact ⟨hown.retransmit, hown.timeout, hown.queue, fun n hn => (by cases hn), hown.misc⟩
    · split at hev
      · cases hev
      · rename_i hqueue
        cases hev
        refine ⟨hinv.tcb, fun hconn => ?_⟩
        have hown := hinv.own hconn
        exact ⟨hown.retransmit, hown.timeout,
          fun m hm => hown.queue m (by rw [hqueue]; exact mem_cons_of_mem _ hm), hown.reopen, hown.misc⟩
      · rename_i hqueue
        cases hev
        refine ⟨hinv.tcb, fun hconn => ?_⟩
        have hown := hinv.own hconn
        exact ⟨hown.retransmit, hown.timeout,
          fun m hm => hown.queue m (by rw [hqueue]; exact mem_cons_of_mem _ hm), hown.reopen, hown.misc⟩
      · rename_i n _ hqueue
        cases hev
        refine ⟨hinv.tcb, fun hconn => ?_⟩
        have hown := hinv.own hconn
        refine ⟨hown.retransmit, hown.timeout,
          fun m hm => hown.queue m (by rw [hqueue]; exact mem_cons_of_mem _ hm), fun m hm => ?_, hown.misc⟩
        cases hm
        exact hown.queue (.connectionTimeout, n) (by rw [hqueue]; exact mem_cons_self)
  | schedMisc =>
    cases hev
    refine ⟨hinv.tcb, fun hconn => ?_⟩
    have hown := hinv.own hconn
    refine ⟨hown.retransmit, hown.timeout, hown.queue, hown.reopen, fun n hn => ?_⟩
    cases hn
    refine if_neg fun hclosed => ?_
    rw [show h.tcb.state = .closed from hclosed] at hconn
    cases hconn
  | unschedMisc =>
    cases hev
    refine ⟨hinv.tcb, fun hconn => ?_⟩
    have hown := hinv.own hconn
    exact ⟨hown.retransmit, hown.timeout, hown.queue, hown.reopen, fun n hn => (by cases hn)⟩
  | expireMisc c =>
    obtain ⟨_, _, heq⟩ := map_eq_some_iff.mp hev
    cases heq
    refine ⟨hinv.tcb, fun hconn => ?_⟩
    have hown := hinv.own hconn
    exact ⟨hown.retransmit, hown.timeout, hown.queue, hown.reopen, fun n hn => (by cases hn)⟩

theorem TimerHistInv.step (hinv : TimerHistInv h) (hok : TimerOk h ev) (hstep : timerStep h ev = some h') :
    TimerHistInv h' := by
  unfold TimerOk at hok
  obtain ⟨⟨h1, next⟩, hev, hcall⟩ := bind_eq_some_iff.mp hstep
  have h₁inv : TimerHistInv h1 := hinv.event hev
  rw [hev] at hok
  cases next with
  | none =>
    cases hcall
    exact h₁inv
  | some c =>
    obtain ⟨w, hw, rfl⟩ := map_eq_some_iff.mp hcall
    exact h₁inv.call hok.1 hok.2 hw

theorem TimerHistInv.quiescent (hinv : TimerHistInv h) : Quiescent h := by
  intro hidle
  obtain ⟨hslot, htimeout⟩ := hinv.tcb.idle hidle
  refine ⟨hslot, ?_, htimeout⟩
  by_contra hc
  exact hinv.tcb.armed (Bool.eq_true_of_not_eq_false hc) hslot

theorem TimerHistInv.ownTimer (hinv : TimerHistInv h) (ev : TimerEvent) : OwnTimer h ev := by
  cases ev with
  | handle c =>
    intro hconn
    have hown := hinv.own hconn
    exact ⟨hown.reopen, fun m hm _ => hown.queue m (mem_of_mem_head? hm)⟩
  | expireMisc c => exact fun hconn => (hinv.own hconn).misc
  | _ => trivial

/-! ## Runs -/

instance (e : Env) (w : Fsm) : (event : Event) → Decidable (QuietOk e w event)
  | .callOpen => inferInstanceAs (Decidable (_ ∧ _))
  | .callSend _ => inferInstanceAs (Decidable (_ → _))
  | .callAbort => inferInstanceAs (Decidable (_ = _))
  | .timeoutTimewait => inferInstanceAs (Decidable (_ = _))
  | .timeoutConnection => inferInstanceAs (Decidable (_ = _))
  | .rcvdPkt _ => inferInstanceAs (Decidable (_ → _))
  | .callRecv _ | .callClose | .timeoutRetransmit | .sendProbe | .clearRetransmit =>
    inferInstanceAs (Decidable True)

instance (h : TimerHist) (c : Call) : Decidable (FreshOk h c) := by
  unfold FreshOk
  refine c.event.casesOn ?_ ?_ ?_ ?_ ?_ ?_ ?_ ?_ ?_ ?_ ?_ <;> intros <;> infer_instance

instance (h : TimerHist) (ev : TimerEvent) : Decidable (TimerOk h ev) := by
  unfold TimerOk
  split <;> infer_instance

theorem timerStart_inv : TimerHistInv timerStart :=
  ⟨⟨fun hc => (by cases hc), fun _ => ⟨rfl, rfl⟩⟩, fun hc => (by cases hc)⟩

/-- **Connections do not mix**, as long as whatever ends one finds its second timer stopped and, for a reset
in SYN_RCVD of a listening TCB, the retransmit queue empty, nothing is sent between two of them, and one
begins only when no message of a timer is on its way. -/
theorem connections_separate (es : List TimerEvent) (hok : Along timerStep TimerOk timerStart es) :
    Always timerStep Quiescent timerStart es ∧ Along timerStep OwnTimer timerStart es :=
  ⟨always_of_along (fun _ => TimerHistInv.quiescent) (fun _ _ _ hinv hok hstep => TimerHistInv.step hinv hok hstep)
      es timerStart_inv hok,
    along_of_along (I := TimerHistInv) (fun _ ev _ hinv _ _ => TimerHistInv.ownTimer hinv ev)
      (fun _ _ _ hinv hok hstep => TimerHistInv.step hinv hok hstep) es timerStart_inv hok⟩

/-- A listening TCB, in SYN_RCVD. -/
def timedSyn : List TimerEvent :=
  [.api (.gnrcTcpListen 1 80), .call (solo .callOpen),
    .call (solo (.rcvdPkt (peerSegment { syn := true } 5000 0 [])))]

/-- The SYN+ACK is sent twice, the connection is established, the peer closes, and so do we; and the
peer comes again. -/
def timedTwice : List TimerEvent :=
  timedSyn ++ [.expireRetransmit, .handle (solo .callOpen),
    .call (solo (.rcvdPkt (peerSegment { ack := true } 5001 101 []))),
    .call (solo (.rcvdPkt (peerSegment { fin := true, ack := true } 5001 101 []))),
    .schedMisc, .call (solo .callClose),
    .call (solo (.rcvdPkt (peerSegment { ack := true } 5002 102 []))), .unschedMisc,
    .call (solo (.rcvdPkt (peerSegment { syn := true } 7000 0 [])))]

theorem connections_separate_timedTwice :
    Always timerStep Quiescent timerStart timedTwice ∧ Along timerStep OwnTimer timerStart timedTwice :=
  connections_separate timedTwice (by decide +kernel)

/-- A reset in SYN_RCVD leads to LISTEN with the SYN+ACK in the queue and both timers set. -/
theorem not_quiescent : ∃ h, run timerStep timerStart (timedSyn ++
    [.call (solo (.rcvdPkt (peerSegment { rst := true } 5001 0 [])))]) = some h ∧ ¬Quiescent h := by
  have hend : (run timerStep timerStart (timedSyn ++
      [.call (solo (.rcvdPkt (peerSegment { rst := true } 5001 0 [])))])).any (fun h =>
      decide (inConnection h.tcb.state = false ∧ h.tcb.eventRetransmit = true)) = true := by
    decide +kernel
  obtain ⟨h, hrun, hend⟩ := (Option.any_eq_true _ _).mp hend
  have hend := of_decide_eq_true hend
  refine ⟨h, hrun, fun hquiet => ?_⟩
  have hoff := (hquiet hend.1).2.1
  rw [hend.2] at hoff
  cases hoff

end Riot.Tcp
