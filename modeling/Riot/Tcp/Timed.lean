import Riot.Tcp.Fsm
import Riot.Tcp.Rtt

/-!
# The state machine with its clock

The handling functions of `gnrc_tcp_fsm.c` once more, with the fields that measure
round trip times: a call finds a time on the clock, which stands still while the call
lasts. The pieces that touch none of these fields are those of the state machine
without a clock; a call is `none` also where a signed computation of times overflows.
-/

namespace Riot.Tcp

/-- What a call finds outside of its TCB, with the time. -/
structure TimedEnv extends Env where
  /-- `evtimer_now_msec` -/
  now : BitVec 32

/-- What a call works on, with the fields that are about time. -/
structure TimedFsm where
  fsm : Fsm
  rtt : Rtt
  /-- The samples of the round trip time that the call has taken. -/
  samples : List (BitVec 32)
  deriving DecidableEq

namespace Timed

/-! ## Packets -/

def pktSend (e : TimedEnv) (w : TimedFsm) (outPkt : Option Segment) (seqCon : BitVec 16)
    (retransmit : Bool) : TimedFsm :=
  { w with
    fsm := Tcp.pktSend w.fsm outPkt seqCon retransmit
    rtt := if outPkt.isSome then w.rtt.send e.now retransmit else w.rtt }

def setupRetransmit (w : TimedFsm) (pkt : Option Segment) (retransmit : Bool) : Option TimedFsm :=
  match pkt with
  | none => some w
  | some seg =>
    if w.fsm.tcb.pktRetransmit.isSome ∧ retransmit = false then some w
    else if isUnqueued seg then some w
    else (w.rtt.setup retransmit).map fun rtt =>
      { w with fsm := Tcp.setupRetransmit w.fsm pkt retransmit, rtt := rtt }

/-- `_gnrc_tcp_pkt_acknowledge`: the measurement -/
def takeSample (e : TimedEnv) (w : TimedFsm) : Option TimedFsm :=
  match w.rtt.measure e.now with
  | none => some w
  | some rtt => (w.rtt.sample rtt).map fun r => { w with rtt := r, samples := w.samples ++ [rtt] }

def pktAcknowledge (e : TimedEnv) (w : TimedFsm) (ack : Seq) : Option TimedFsm :=
  match w.fsm.tcb.pktRetransmit with
  | none => some w
  | some pkt =>
    (lss32Bit (pkt.seqNum + getSegLen pkt - 1) ack).bind fun b =>
      if b then
        takeSample e { w with fsm.tcb.pktRetransmit := none, fsm.tcb.eventRetransmit := false }
      else some w

/-- Builds a segment and sends it. -/
def buildSend (e : TimedEnv) (w : TimedFsm) (ctl : Ctl) (seqNum ackNum : Seq) : TimedFsm :=
  match pktBuild e.toEnv w.fsm ctl seqNum ackNum [] with
  | (f, outPkt) => pktSend e { w with fsm := f } outPkt (seqCon ctl 0) false

/-- Builds a segment, puts it into the retransmit queue, and sends it. -/
def buildQueueSend (e : TimedEnv) (w : TimedFsm) (ctl : Ctl) (seqNum ackNum : Seq)
    (payload : List UInt8) : Option TimedFsm :=
  match pktBuild e.toEnv w.fsm ctl seqNum ackNum payload with
  | (f, outPkt) => (setupRetransmit { w with fsm := f } outPkt false).map fun w =>
    pktSend e w outPkt (seqCon ctl payload.length) false

/-- A pure ACK. -/
def sendAck (e : TimedEnv) (w : TimedFsm) : TimedFsm :=
  buildSend e w { ack := true } w.fsm.tcb.sndNxt w.fsm.tcb.rcvNxt

/-! ## Calls of the user -/

def transitionTo (e : TimedEnv) (w : TimedFsm) (state : State) : TimedFsm :=
  { w with fsm := Tcp.transitionTo e.toEnv w.fsm state }

def fsmCallOpen (e : TimedEnv) (w : TimedFsm) : Option TimedFsm :=
  match rcvbufGetBuffer w.fsm with
  | none => some { w with fsm.ret := -12 }
  | some f =>
    let f := { f with tcb.rcvWnd := BitVec.ofNat 16 configDefaultWindow }
    if f.tcb.status.listening then some (transitionTo e { w with fsm := f } .listen)
    else
      let f := { f with tcb.iss := e.iss, tcb.sndNxt := e.iss, tcb.sndUna := e.iss }
      (transitionToSynSent e.toEnv f).bind fun (f, ret) =>
        if ret < 0 then
          some { w with fsm := { Tcp.transitionTo e.toEnv f .closed with ret := ret } }
        else buildQueueSend e { w with fsm := f } { syn := true } f.tcb.iss 0 []

def fsmCallSend (e : TimedEnv) (w : TimedFsm) (buf : List UInt8) : Option TimedFsm :=
  let t := w.fsm.tcb
  let payload := t.sndUna + t.sndWnd.setWidth 32 - t.sndNxt
  if payload ≠ 0 ∧ t.sndWnd ≠ 0 ∧ t.pktRetransmit = none then
    let payload := min (min (min payload.toNat configMss) t.mss.toNat) buf.length
    (buildQueueSend e w { ack := true, psh := true } t.sndNxt t.rcvNxt (buf.take payload)).map
      fun w => { w with fsm.ret := payload }
  else some w

def fsmCallRecv (e : TimedEnv) (w : TimedFsm) (len : Nat) : TimedFsm :=
  if w.fsm.tcb.rcvBuf = [] then w
  else
    let rcvd := w.fsm.tcb.rcvBuf.take len
    let f := { w.fsm with tcb.rcvBuf := w.fsm.tcb.rcvBuf.drop len, read := rcvd, ret := rcvd.length }
    if configMss ≤ ringbufferGetFree f.tcb.rcvBuf then
      sendAck e { w with
        fsm := { f with tcb.rcvWnd := BitVec.ofNat 16 (ringbufferGetFree f.tcb.rcvBuf) } }
    else { w with fsm := f }

/-- `_fsm_call_close`: the FIN -/
def callCloseFin (e : TimedEnv) (w : TimedFsm) : Option TimedFsm :=
  let t := w.fsm.tcb
  if t.state = .synRcvd ∨ t.state = .established ∨ t.state = .closeWait then
    buildQueueSend e w { fin := true, ack := true } t.sndNxt t.rcvNxt []
  else some w

def fsmCallClose (e : TimedEnv) (w : TimedFsm) : Option TimedFsm :=
  (callCloseFin e w).map fun w => { w with fsm := callCloseTransition e.toEnv w.fsm }

def fsmCallAbort (e : TimedEnv) (w : TimedFsm) : TimedFsm :=
  let t := w.fsm.tcb
  let w :=
    if t.state = .synRcvd ∨ t.state = .established ∨ t.state = .finWait1 ∨
        t.state = .finWait2 ∨ t.state = .closeWait then
      buildSend e w { rst := true } t.sndNxt t.rcvNxt
    else w
  transitionTo e w .closed

/-! ## Received segments -/

/-- `_fsm_rcvd_pkt`, state LISTEN -/
def rcvdListen (e : TimedEnv) (w : TimedFsm) (seg : Segment) : Option TimedFsm :=
  if seg.ctl.rst then some w
  else if seg.ctl.ack then
    match pktBuildResetFromPkt e.toEnv w.fsm seg with
    | (f, outPkt) => some (pktSend e { w with fsm := f } outPkt 0 false)
  else if seg.ctl.syn then
    if isHandled e.toEnv w.fsm seg then some w
    else if addrIsLinkLocal seg.src ∧ seg.netif = none then
      some { w with fsm.tcb.localAddr := seg.dst, fsm.tcb.peerAddr := seg.src }
    else
      let w := { w with fsm.tcb := listenTcb w.fsm.tcb e.iss seg }
      (buildQueueSend e w { syn := true, ack := true } w.fsm.tcb.iss w.fsm.tcb.rcvNxt []).map
        fun w => transitionTo e w .synRcvd
  else some w

/-- `_fsm_rcvd_pkt`, state SYN_SENT, 3): the values of the TCB and its acknowledgment -/
def rcvdSynSentAck (e : TimedEnv) (w : TimedFsm) (seg : Segment) : Option TimedFsm :=
  let w := { w with fsm.tcb.rcvNxt := seg.seqNum + 1, fsm.tcb.irs := seg.seqNum }
  if seg.ctl.ack then pktAcknowledge e { w with fsm.tcb.sndUna := seg.ackNum } seg.ackNum
  else some w

/-- `_fsm_rcvd_pkt`, state SYN_SENT, 3): the answer -/
def rcvdSynSentAnswer (e : TimedEnv) (w : TimedFsm) (seg : Segment) : Option TimedFsm :=
  let w := { w with fsm.tcb.localAddr := seg.dst }
  let t := w.fsm.tcb
  let answered :=
    if t.iss < t.sndUna then some (transitionTo e (sendAck e w) .established)
    else
      (buildQueueSend e w { syn := true, ack := true } t.iss t.rcvNxt []).map
        fun w => transitionTo e w .synRcvd
  answered.map fun w => { w with
    fsm.tcb.sndWnd := seg.window, fsm.tcb.sndWl1 := seg.seqNum, fsm.tcb.sndWl2 := seg.ackNum }

/-- `_fsm_rcvd_pkt`, state SYN_SENT -/
def rcvdSynSent (e : TimedEnv) (w : TimedFsm) (seg : Segment) : Option TimedFsm :=
  if seg.ctl.ack ∧ (seg.ackNum ≤ w.fsm.tcb.iss ∨ w.fsm.tcb.sndNxt < seg.ackNum) then
    some (if seg.ctl.rst then w else buildSend e w { rst := true } seg.ackNum 0)
  else if seg.ctl.rst then some (if seg.ctl.ack then transitionTo e w .closed else w)
  else if seg.ctl.syn then (rcvdSynSentAck e w seg).bind fun w => rcvdSynSentAnswer e w seg
  else some w

/-- `_fsm_rcvd_pkt`, 4), state SYN_RCVD -/
def rcvdAckSynRcvd (e : TimedEnv) (w : TimedFsm) (seg : Segment) : Option TimedFsm :=
  if w.fsm.tcb.state = .synRcvd then
    (ackIsNew w.fsm.tcb seg.ackNum).map fun acceptable =>
      if acceptable then
        transitionTo e
          { w with
            fsm.tcb.sndWnd := seg.window, fsm.tcb.sndWl1 := seg.seqNum, fsm.tcb.sndWl2 := seg.ackNum }
          .established
      else buildSend e w { rst := true } seg.ackNum 0
  else some w

/-- `_fsm_rcvd_pkt`, 4): takes the acknowledgment; whether the segment is processed further. -/
def rcvdAckData (e : TimedEnv) (w : TimedFsm) (seg : Segment) : Option (TimedFsm × Bool) :=
  (ackIsNew w.fsm.tcb seg.ackNum).bind fun acked =>
    if acked then
      (pktAcknowledge e { w with fsm.tcb.sndUna := seg.ackNum } seg.ackNum).map fun w => (w, true)
    else
      (lss32Bit w.fsm.tcb.sndNxt seg.ackNum).map fun unsent =>
        if unsent then (sendAck e w, false) else (w, true)

/-- `_fsm_rcvd_pkt`, 4): the update of the send window and the transitions behind our FIN -/
def rcvdAckRest (e : TimedEnv) (w : TimedFsm) (seg : Segment) : Option (TimedFsm × Bool) :=
  (rcvdAckWindow w.fsm seg).map fun f =>
    match rcvdAckFin e.toEnv f with
    | (f, goesOn) => ({ w with fsm := f }, goesOn)

/-- `_fsm_rcvd_pkt`, 4), the states in which acknowledgments are processed -/
def rcvdAck (e : TimedEnv) (w : TimedFsm) (seg : Segment) : Option (TimedFsm × Bool) :=
  if acksData w.fsm.tcb.state then
    (rcvdAckData e w seg).bind fun (w, goesOn) =>
      if goesOn then rcvdAckRest e w seg else some (w, false)
  else some (w, true)

/-- `_fsm_rcvd_pkt`, 6) -/
def rcvdPayload (e : TimedEnv) (w : TimedFsm) (seg : Segment) : TimedFsm :=
  if getPayLen seg ≠ 0 ∧ rcvsData w.fsm.tcb.state then
    let f :=
      if w.fsm.tcb.rcvNxt = seg.seqNum then
        let f := storePayload w.fsm seg.payload
        { f with
          tcb.rcvWnd := BitVec.ofNat 16 (ringbufferGetFree f.tcb.rcvBuf)
          tcb.status.notifyUser := true }
      else w.fsm
    if seg.ctl.fin then { w with fsm := f } else sendAck e { w with fsm := f }
  else w

/-- `_fsm_rcvd_pkt`, 7): advances `rcv_nxt` over the FIN -/
def takeFin (e : TimedEnv) (w : TimedFsm) (seg : Segment) : TimedFsm :=
  sendAck e { w with fsm.tcb.rcvNxt := seg.seqNum + getSegLen seg }

/-- `_fsm_rcvd_pkt`, 7) -/
def rcvdFin (e : TimedEnv) (w : TimedFsm) (seg : Segment) : TimedFsm :=
  let state := w.fsm.tcb.state
  if seg.ctl.fin then
    if state = .closed ∨ state = .listen ∨ state = .synSent then w
    else
      let w := takeFin e w seg
      { w with fsm := finTransition e.toEnv w.fsm }
  else w

/-- `_fsm_rcvd_pkt`, the other states, from 4) on -/
def rcvdAcked (e : TimedEnv) (w : TimedFsm) (seg : Segment) : Option TimedFsm :=
  (rcvdAckSynRcvd e w seg).bind fun w =>
    (rcvdAck e w seg).map fun (w, goesOn) =>
      if goesOn then rcvdFin e (rcvdPayload e w seg) seg else w

/-- `_fsm_rcvd_pkt`, the other states -/
def rcvdOther (e : TimedEnv) (w : TimedFsm) (seg : Segment) : Option TimedFsm :=
  (chkSeqNum w.fsm.tcb seg.seqNum (getPayLen seg)).bind fun acceptable =>
    if acceptable = false then some (if seg.ctl.rst then w else sendAck e w)
    else if seg.ctl.rst then
      if w.fsm.tcb.state = .synRcvd ∧ w.fsm.tcb.status.listening then some (transitionTo e w .listen)
      else some (transitionTo e w .closed)
    else if seg.ctl.syn then
      some (transitionTo e (buildSend e w { rst := true } w.fsm.tcb.sndNxt w.fsm.tcb.rcvNxt) .closed)
    else if seg.ctl.ack = false then some w
    else rcvdAcked e w seg

def fsmRcvdPkt (e : TimedEnv) (w : TimedFsm) (seg : Segment) : Option TimedFsm :=
  match optionParse w.fsm seg with
  | (f, valid) =>
    if valid = false then some { w with fsm := f }
    else
      match f.tcb.state with
      | .listen => rcvdListen e { w with fsm := f } seg
      | .synSent => rcvdSynSent e { w with fsm := f } seg
      | _ => rcvdOther e { w with fsm := f } seg

/-! ## Timers and events -/

def fsmTimeoutRetransmit (e : TimedEnv) (w : TimedFsm) : Option TimedFsm :=
  if w.fsm.tcb.pktRetransmit.isSome then
    (setupRetransmit w w.fsm.tcb.pktRetransmit true).map fun w' =>
      pktSend e w' w.fsm.tcb.pktRetransmit 0 true
  else some w

def fsmSendProbe (e : TimedEnv) (w : TimedFsm) : TimedFsm :=
  match pktBuild e.toEnv w.fsm { ack := true } (w.fsm.tcb.sndUna - 1) w.fsm.tcb.rcvNxt [1] with
  | (f, outPkt) => pktSend e { w with fsm := f } outPkt 0 false

def fsmUnprotected (e : TimedEnv) (w : TimedFsm) : Event → Option TimedFsm
  | .callOpen => fsmCallOpen e w
  | .callSend buf => fsmCallSend e w buf
  | .callRecv len => some (fsmCallRecv e w len)
  | .callClose => fsmCallClose e w
  | .callAbort => some (fsmCallAbort e w)
  | .rcvdPkt seg => fsmRcvdPkt e w seg
  | .timeoutTimewait => some (transitionTo e w .closed)
  | .timeoutRetransmit => fsmTimeoutRetransmit e w
  | .timeoutConnection => some (transitionTo e w .closed)
  | .sendProbe => some (fsmSendProbe e w)
  | .clearRetransmit => some { w with fsm := clearRetransmit w.fsm }

def fsm (e : TimedEnv) (w : TimedFsm) (event : Event) : Option TimedFsm :=
  fsmUnprotected e { w with fsm.tcb.status.notifyUser := false } event

end Timed

end Riot.Tcp
