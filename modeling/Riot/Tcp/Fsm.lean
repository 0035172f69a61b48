import Riot.Tcp.Pkt

/-!
# The state machine (`gnrc_tcp_fsm.c`)

One definition for each handling function; `_fsm_rcvd_pkt` is cut into its numbered
steps. A call is `none` where a comparison of sequence numbers overflows, and where
`_get_random_local_port` does not come to an end.
-/

namespace Riot.Tcp

/-! ## Ports and transitions -/

/-- A TCB, as the call finds it. -/
def tcbAt (e : Env) (w : Fsm) (id : TcbId) : Tcb := if id = e.me then w.tcb else e.others id

def isLocalPortInUse (e : Env) (w : Fsm) (portNumber : Port) : Bool :=
  w.list.any fun id => (tcbAt e w id).localPort == portNumber

/-- `_get_random_local_port`: the `continue` for a port below 1024 leads to the condition of
the loop, which lets the port pass if it is not in use. -/
def getRandomLocalPort (e : Env) (w : Fsm) : Option Port :=
  e.ports.find? fun port => !isLocalPortInUse e w port

def restartTimewaitTimer (w : Fsm) : Fsm := { w with tcb.eventTimeout := some .timewait }

/-- Adds the TCB to the active connections, if it is not among them. -/
def activate (e : Env) (list : List TcbId) : List TcbId := if e.me ∈ list then list else e.me :: list

/-- `_transition_to` for `FSM_STATE_LISTEN` -/
def transitionToListen (e : Env) (w : Fsm) : Fsm :=
  { w with
    tcb.status.accepted := false
    tcb.localAddr := if w.tcb.status.allowAnyAddr then addrUnspecified else w.tcb.localAddr
    tcb.peerAddr := addrUnspecified
    tcb.peerPort := portUnspec
    tcb.state := .listen
    list := activate e w.list }

/-- `_transition_to` for `FSM_STATE_CLOSED` -/
def transitionToClosed (e : Env) (w : Fsm) : Fsm :=
  let w := clearRetransmit w
  if w.tcb.status.listening then
    let w := transitionToListen e w
    { w with tcb.status.notifyUser := true }
  else
    let w := rcvbufReleaseBuffer { w with list := w.list.erase e.me }
    { w with tcb.status.notifyUser := true, tcb.state := .closed }

/-- `_transition_to` for `FSM_STATE_SYN_SENT`, which alone can fail with `-EADDRINUSE`. -/
def transitionToSynSent (e : Env) (w : Fsm) : Option (Fsm × Int) :=
  if e.me ∈ w.list then some ({ w with tcb.state := .synSent }, 0)
  else if w.tcb.localPort ≠ portUnspec then
    if isLocalPortInUse e w w.tcb.localPort then some (w, -98)
    else some ({ w with tcb.state := .synSent, list := e.me :: w.list }, 0)
  else
    (getRandomLocalPort e w).map fun port =>
      ({ w with tcb.localPort := port, tcb.state := .synSent, list := e.me :: w.list }, 0)

/-- `_transition_to` for the other states -/
def transitionTo (e : Env) (w : Fsm) (state : State) : Fsm :=
  match state with
  | .closed => transitionToClosed e w
  | .listen => transitionToListen e w
  | .synRcvd =>
    { w with
      tcb.eventTimeout :=
        if w.tcb.status.listening then some .connectionTimeout else w.tcb.eventTimeout
      tcb.state := .synRcvd }
  | .established =>
    { w with
      tcb.eventTimeout := if w.tcb.status.listening then none else w.tcb.eventTimeout
      tcb.status.notifyUser := true
      tcb.state := .established }
  | .closeWait =>
    { w with
      tcb.eventTimeout := if w.tcb.status.listening then none else w.tcb.eventTimeout
      tcb.status.notifyUser := true
      tcb.state := .closeWait }
  | .timeWait => { restartTimewaitTimer w with tcb.state := .timeWait }
  | state => { w with tcb.state := state }

/-! ## Sending from the state machine -/

/-- Builds a segment and sends it. -/
def buildSend (e : Env) (w : Fsm) (ctl : Ctl) (seqNum ackNum : Seq) : Fsm :=
  match pktBuild e w ctl seqNum ackNum [] with
  | (w, outPkt) => pktSend w outPkt (seqCon ctl 0) false

/-- Builds a segment, puts it into the retransmit queue, and sends it. -/
def buildQueueSend (e : Env) (w : Fsm) (ctl : Ctl) (seqNum ackNum : Seq) (payload : List UInt8) : Fsm :=
  match pktBuild e w ctl seqNum ackNum payload with
  | (w, outPkt) => pktSend (setupRetransmit w outPkt false) outPkt (seqCon ctl payload.length) false

/-- A pure ACK. -/
def sendAck (e : Env) (w : Fsm) : Fsm := buildSend e w { ack := true } w.tcb.sndNxt w.tcb.rcvNxt

/-! ## Calls of the user -/

def fsmCallOpen (e : Env) (w : Fsm) : Option Fsm :=
  match rcvbufGetBuffer w with
  | none => some { w with ret := -12 }
  | some w =>
    let w := { w with tcb.rcvWnd := BitVec.ofNat 16 configDefaultWindow }
    if w.tcb.status.listening then some (transitionTo e w .listen)
    else
      let w := { w with tcb.iss := e.iss, tcb.sndNxt := e.iss, tcb.sndUna := e.iss }
      (transitionToSynSent e w).map fun (w, ret) =>
        if ret < 0 then { transitionTo e w .closed with ret := ret }
        else buildQueueSend e w { syn := true } w.tcb.iss 0 []

def fsmCallSend (e : Env) (w : Fsm) (buf : List UInt8) : Fsm :=
  let payload := w.tcb.sndUna + w.tcb.sndWnd.setWidth 32 - w.tcb.sndNxt
  if payload ≠ 0 ∧ w.tcb.sndWnd ≠ 0 ∧ w.tcb.pktRetransmit = none then
    let payload := min (min (min payload.toNat configMss) w.tcb.mss.toNat) buf.length
    let w := buildQueueSend e w { ack := true, psh := true } w.tcb.sndNxt w.tcb.rcvNxt (buf.take payload)
    { w with ret := payload }
  else w

def fsmCallRecv (e : Env) (w : Fsm) (len : Nat) : Fsm :=
  if w.tcb.rcvBuf = [] then w
  else
    let rcvd := w.tcb.rcvBuf.take len
    let w := { w with tcb.rcvBuf := w.tcb.rcvBuf.drop len, read := rcvd, ret := rcvd.length }
    if configMss ≤ ringbufferGetFree w.tcb.rcvBuf then
      sendAck e { w with tcb.rcvWnd := BitVec.ofNat 16 (ringbufferGetFree w.tcb.rcvBuf) }
    else w

/-- `_fsm_call_close`: the FIN -/
def callCloseFin (e : Env) (w : Fsm) : Fsm :=
  if w.tcb.state = .synRcvd ∨ w.tcb.state = .established ∨ w.tcb.state = .closeWait then
    buildQueueSend e w { fin := true, ack := true } w.tcb.sndNxt w.tcb.rcvNxt []
  else w

/-- `_fsm_call_close`: the transition -/
def callCloseTransition (e : Env) (w : Fsm) : Fsm :=
  if w.tcb.state = .listen then transitionTo e w .closed
  else if w.tcb.state = .synRcvd ∨ w.tcb.state = .established then transitionTo e w .finWait1
  else if w.tcb.state = .closeWait then transitionTo e w .lastAck
  else w

def fsmCallClose (e : Env) (w : Fsm) : Fsm := callCloseTransition e (callCloseFin e w)

def fsmCallAbort (e : Env) (w : Fsm) : Fsm :=
  let w :=
    if w.tcb.state = .synRcvd ∨ w.tcb.state = .established ∨ w.tcb.state = .finWait1 ∨
        w.tcb.state = .finWait2 ∨ w.tcb.state = .closeWait then
      buildSend e w { rst := true } w.tcb.sndNxt w.tcb.rcvNxt
    else w
  transitionTo e w .closed

/-! ## Received segments -/

/-- Whether the SYN belongs to a connection of the list. -/
def isHandled (e : Env) (w : Fsm) (seg : Segment) : Bool :=
  w.list.any fun id =>
    let lst := tcbAt e w id
    lst.localPort == seg.dstPort && lst.peerPort == seg.srcPort &&
      (lst.localAddr == seg.dst && lst.peerAddr == seg.src)

/-- Fills a TCB with the connection information of a SYN. -/
def listenTcb (t : Tcb) (iss : Seq) (seg : Segment) : Tcb :=
  { t with
    localAddr := seg.dst
    peerAddr := seg.src
    llIface := if addrIsLinkLocal seg.src then BitVec.ofInt 8 (seg.netif.getD 0) else t.llIface
    localPort := seg.dstPort
    peerPort := seg.srcPort
    irs := seg.seqNum
    rcvNxt := seg.seqNum + 1
    iss := iss
    sndUna := iss
    sndNxt := iss
    sndWnd := seg.window }

/-- `_fsm_rcvd_pkt`, state LISTEN -/
def rcvdListen (e : Env) (w : Fsm) (seg : Segment) : Fsm :=
  if seg.ctl.rst then w
  else if seg.ctl.ack then
    match pktBuildResetFromPkt e w seg with
    | (w, outPkt) => pktSend w outPkt 0 false
  else if seg.ctl.syn then
    if isHandled e w seg then w
    -- without its interface, a link-local peer cannot be answered
    else if addrIsLinkLocal seg.src ∧ seg.netif = none then
      { w with tcb.localAddr := seg.dst, tcb.peerAddr := seg.src }
    else
      let w := { w with tcb := listenTcb w.tcb e.iss seg }
      transitionTo e (buildQueueSend e w { syn := true, ack := true } w.tcb.iss w.tcb.rcvNxt []) .synRcvd
  else w

/-- `_fsm_rcvd_pkt`, state SYN_SENT, 3): the values of the TCB and its acknowledgment -/
def rcvdSynSentAck (w : Fsm) (seg : Segment) : Option Fsm :=
  let w := { w with tcb.rcvNxt := seg.seqNum + 1, tcb.irs := seg.seqNum }
  if seg.ctl.ack then pktAcknowledge { w with tcb.sndUna := seg.ackNum } seg.ackNum else some w

/-- `_fsm_rcvd_pkt`, state SYN_SENT, 3): the answer -/
def rcvdSynSentAnswer (e : Env) (w : Fsm) (seg : Segment) : Fsm :=
  let w := { w with tcb.localAddr := seg.dst }
  let w :=
    if w.tcb.iss < w.tcb.sndUna then transitionTo e (sendAck e w) .established
    else
      transitionTo e (buildQueueSend e w { syn := true, ack := true } w.tcb.iss w.tcb.rcvNxt []) .synRcvd
  { w with tcb.sndWnd := seg.window, tcb.sndWl1 := seg.seqNum, tcb.sndWl2 := seg.ackNum }

/-- `_fsm_rcvd_pkt`, state SYN_SENT -/
def rcvdSynSent (e : Env) (w : Fsm) (seg : Segment) : Option Fsm :=
  if seg.ctl.ack ∧ (seg.ackNum ≤ w.tcb.iss ∨ w.tcb.sndNxt < seg.ackNum) then
    some (if seg.ctl.rst then w else buildSend e w { rst := true } seg.ackNum 0)
  else if seg.ctl.rst then some (if seg.ctl.ack then transitionTo e w .closed else w)
  else if seg.ctl.syn then (rcvdSynSentAck w seg).map fun w => rcvdSynSentAnswer e w seg
  else some w

/-- Whether the number acknowledges something that has been sent and not been acknowledged. -/
def ackIsNew (tcb : Tcb) (segAck : Seq) : Option Bool :=
  andAlso (lss32Bit tcb.sndUna segAck) (leq32Bit segAck tcb.sndNxt)

/-- `_fsm_rcvd_pkt`, 4), state SYN_RCVD -/
def rcvdAckSynRcvd (e : Env) (w : Fsm) (seg : Segment) : Option Fsm :=
  if w.tcb.state = .synRcvd then
    (ackIsNew w.tcb seg.ackNum).map fun acceptable =>
      if acceptable then
        transitionTo e
          { w with tcb.sndWnd := seg.window, tcb.sndWl1 := seg.seqNum, tcb.sndWl2 := seg.ackNum }
          .established
      else buildSend e w { rst := true } seg.ackNum 0
  else some w

/-- The states in which acknowledgments are processed. -/
def acksData (state : State) : Bool :=
  state = .established ∨ state = .finWait1 ∨ state = .finWait2 ∨ state = .closeWait ∨
    state = .closing ∨ state = .lastAck

/-- `_fsm_rcvd_pkt`, 4): takes the acknowledgment; whether the segment is processed further. -/
def rcvdAckData (e : Env) (w : Fsm) (seg : Segment) : Option (Fsm × Bool) :=
  (ackIsNew w.tcb seg.ackNum).bind fun acked =>
    if acked then
      (pktAcknowledge { w with tcb.sndUna := seg.ackNum } seg.ackNum).map fun w => (w, true)
    else
      (lss32Bit w.tcb.sndNxt seg.ackNum).map fun unsent =>
        if unsent then (sendAck e w, false) else (w, true)

/-- `_fsm_rcvd_pkt`, 4): the update of the send window -/
def rcvdAckWindow (w : Fsm) (seg : Segment) : Option Fsm :=
  (andAlso (leq32Bit w.tcb.sndUna seg.ackNum) (leq32Bit seg.ackNum w.tcb.sndNxt)).bind fun current =>
    if current then
      (lss32Bit w.tcb.sndWl1 seg.seqNum).bind fun later =>
        let newer :=
          if later then some true
          else if w.tcb.sndWl1 = seg.seqNum then leq32Bit w.tcb.sndWl2 seg.ackNum
          else some false
        newer.map fun newer =>
          if newer then
            { w with
              tcb.sndWnd := seg.window
              tcb.sndWl1 := seg.seqNum
              tcb.sndWl2 := seg.ackNum
              tcb.status.notifyUser := true }
          else w
    else some w

/-- `_fsm_rcvd_pkt`, 4): the transitions behind our FIN; whether the segment is processed further. -/
def rcvdAckFin (e : Env) (w : Fsm) : Fsm × Bool :=
  if w.tcb.pktRetransmit = none then
    match w.tcb.state with
    | .finWait1 => (transitionTo e w .finWait2, true)
    | .closing => (transitionTo e w .timeWait, true)
    | .lastAck => (transitionTo e w .closed, false)
    | _ => (w, true)
  else (w, true)

/-- `_fsm_rcvd_pkt`, 4), the states in which acknowledgments are processed -/
def rcvdAck (e : Env) (w : Fsm) (seg : Segment) : Option (Fsm × Bool) :=
  if acksData w.tcb.state then
    (rcvdAckData e w seg).bind fun (w, goesOn) =>
      if goesOn then (rcvdAckWindow w seg).map (rcvdAckFin e) else some (w, false)
  else some (w, true)

/-- Copies the payload into the receive buffer, snip by snip. -/
def storePayload (w : Fsm) : List (List UInt8) → Fsm
  | [] => w
  | snip :: snips =>
    match ringbufferAdd w.tcb.rcvBuf snip with
    | (rcvBuf, n) =>
      storePayload { w with tcb.rcvBuf := rcvBuf, tcb.rcvNxt := w.tcb.rcvNxt + BitVec.ofNat 32 n } snips

/-- The states in which payload is received. -/
def rcvsData (state : State) : Bool := state = .established ∨ state = .finWait1 ∨ state = .finWait2

/-- `_fsm_rcvd_pkt`, 6) -/
def rcvdPayload (e : Env) (w : Fsm) (seg : Segment) : Fsm :=
  if getPayLen seg ≠ 0 ∧ rcvsData w.tcb.state then
    let w :=
      if w.tcb.rcvNxt = seg.seqNum then
        let w := storePayload w seg.payload
        { w with
          tcb.rcvWnd := BitVec.ofNat 16 (ringbufferGetFree w.tcb.rcvBuf)
          tcb.status.notifyUser := true }
      else w
    if seg.ctl.fin then w else sendAck e w
  else w

/-- `_fsm_rcvd_pkt`, 7): advances `rcv_nxt` over the FIN -/
def takeFin (e : Env) (w : Fsm) (seg : Segment) : Fsm :=
  sendAck e { w with tcb.rcvNxt := seg.seqNum + getSegLen seg }

/-- `_fsm_rcvd_pkt`, 7): the transition -/
def finTransition (e : Env) (w : Fsm) : Fsm :=
  match w.tcb.state with
  | .synRcvd => transitionTo e w .closeWait
  | .established => transitionTo e w .closeWait
  | .finWait1 =>
    if w.tcb.pktRetransmit = none then transitionTo e w .timeWait else transitionTo e w .closing
  | .finWait2 => transitionTo e w .timeWait
  | .timeWait => restartTimewaitTimer w
  | _ => w

/-- `_fsm_rcvd_pkt`, 7) -/
def rcvdFin (e : Env) (w : Fsm) (seg : Segment) : Fsm :=
  if seg.ctl.fin then
    if w.tcb.state = .closed ∨ w.tcb.state = .listen ∨ w.tcb.state = .synSent then w
    else finTransition e (takeFin e w seg)
  else w

/-- `_fsm_rcvd_pkt`, the other states, from 4) on -/
def rcvdAcked (e : Env) (w : Fsm) (seg : Segment) : Option Fsm :=
  (rcvdAckSynRcvd e w seg).bind fun w =>
    (rcvdAck e w seg).map fun (w, goesOn) =>
      if goesOn then rcvdFin e (rcvdPayload e w seg) seg else w

/-- `_fsm_rcvd_pkt`, the other states -/
def rcvdOther (e : Env) (w : Fsm) (seg : Segment) : Option Fsm :=
  (chkSeqNum w.tcb seg.seqNum (getPayLen seg)).bind fun acceptable =>
    if acceptable = false then some (if seg.ctl.rst then w else sendAck e w)
    else if seg.ctl.rst then
      if w.tcb.state = .synRcvd ∧ w.tcb.status.listening then some (transitionTo e w .listen)
      else some (transitionTo e w .closed)
    else if seg.ctl.syn then
      some (transitionTo e (buildSend e w { rst := true } w.tcb.sndNxt w.tcb.rcvNxt) .closed)
    else if seg.ctl.ack = false then some w
    else rcvdAcked e w seg

def fsmRcvdPkt (e : Env) (w : Fsm) (seg : Segment) : Option Fsm :=
  match optionParse w seg with
  | (w, valid) =>
    if valid = false then some w
    else
      match w.tcb.state with
      | .listen => some (rcvdListen e w seg)
      | .synSent => rcvdSynSent e w seg
      | _ => rcvdOther e w seg

/-! ## Timers -/

def fsmTimeoutTimewait (e : Env) (w : Fsm) : Fsm := transitionTo e w .closed

def fsmTimeoutRetransmit (w : Fsm) : Fsm :=
  if w.tcb.pktRetransmit.isSome then
    pktSend (setupRetransmit w w.tcb.pktRetransmit true) w.tcb.pktRetransmit 0 true
  else w

def fsmTimeoutConnection (e : Env) (w : Fsm) : Fsm := transitionTo e w .closed

def fsmSendProbe (e : Env) (w : Fsm) : Fsm :=
  match pktBuild e w { ack := true } (w.tcb.sndUna - 1) w.tcb.rcvNxt [1] with
  | (w, outPkt) => pktSend w outPkt 0 false

/-! ## Events -/

/-- `_gnrc_tcp_fsm_event_t`, with what comes with the event. -/
inductive Event where
  | callOpen
  | callSend (buf : List UInt8)
  | callRecv (len : Nat)
  | callClose
  | callAbort
  | rcvdPkt (seg : Segment)
  | timeoutTimewait
  | timeoutRetransmit
  | timeoutConnection
  | sendProbe
  | clearRetransmit
  deriving DecidableEq

def fsmUnprotected (e : Env) (w : Fsm) : Event → Option Fsm
  | .callOpen => fsmCallOpen e w
  | .callSend buf => some (fsmCallSend e w buf)
  | .callRecv len => some (fsmCallRecv e w len)
  | .callClose => some (fsmCallClose e w)
  | .callAbort => some (fsmCallAbort e w)
  | .rcvdPkt seg => fsmRcvdPkt e w seg
  | .timeoutTimewait => some (fsmTimeoutTimewait e w)
  | .timeoutRetransmit => some (fsmTimeoutRetransmit w)
  | .timeoutConnection => some (fsmTimeoutConnection e w)
  | .sendProbe => some (fsmSendProbe e w)
  | .clearRetransmit => some (clearRetransmit w)

/-- `_gnrc_tcp_fsm`; the user is notified exactly if the flag is set at the end. -/
def fsm (e : Env) (w : Fsm) (event : Event) : Option Fsm :=
  fsmUnprotected e { w with tcb.status.notifyUser := false } event

end Riot.Tcp
