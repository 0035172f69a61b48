import Riot.Lib.Runs
import Riot.Tcp.Fsm

/-!
# Runs of the state machine on one TCB

`_gnrc_tcp_fsm` is called for a TCB by the thread of the event loop and by the threads
of the user, in any order; in between, the functions of `gnrc_tcp.c` write some of the
fields of the TCB themselves. The other TCBs, the list, and the receive buffers that
they use are whatever they are when a call begins.

The lemmas say what the pieces of the state machine leave alone.
-/

namespace Riot.Tcp

open Riot.Lib Option

/-- A call of `_gnrc_tcp_fsm`, with what it finds. -/
structure Call where
  env : Env
  list : List TcbId
  bufUsed : List Bool
  event : Event

/-- What the functions of `gnrc_tcp.c` write themselves. -/
inductive ApiWrite where
  /-- `gnrc_tcp_open`, up to the call of the state machine -/
  | gnrcTcpOpen (peerAddr : Addr) (llIface : BitVec 8) (peerPort localPort : Port)
  /-- `gnrc_tcp_listen`, up to the call of the state machine -/
  | gnrcTcpListen (localAddr : Addr) (localPort : Port)
  /-- `gnrc_tcp_listen`, after the call has failed -/
  | gnrcTcpListenFailed
  | gnrcTcpAccept
  | gnrcTcpStopListen

def apiWrite (t : Tcb) : ApiWrite → Option Tcb
  | .gnrcTcpOpen peerAddr llIface peerPort localPort =>
    if t.state = .closed then some { t with peerAddr, llIface, peerPort, localPort } else none
  | .gnrcTcpListen localAddr localPort =>
    if t.state = .closed then
      some { t with
        localAddr
        localPort
        status.allowAnyAddr := t.status.allowAnyAddr || localAddr == addrUnspecified
        status.listening := true }
    else none
  | .gnrcTcpListenFailed => some { t with status.listening := false }
  | .gnrcTcpAccept =>
    if t.state = .established ∨ t.state = .closeWait then some { t with status.accepted := true }
    else none
  | .gnrcTcpStopListen => some { t with status.listening := false }

/-- What happens to a TCB. -/
inductive TcbEvent where
  | call (c : Call)
  | api (a : ApiWrite)

/-- A call in a system with one TCB and room for every packet. -/
def solo (event : Event) : Call where
  env := { me := 0, others := fun _ => tcbInit, alloc := fun _ => true, iss := 100, ports := [] }
  list := [0]
  bufUsed := [false]
  event := event

def soloCall (event : Event) : TcbEvent := .call (solo event)

/-- A segment of the peer, to the port 80. -/
def peerSegment (ctl : Ctl) (seqNum ackNum : Seq) (payload : List (List UInt8)) : Segment where
  src := 9
  dst := 1
  netif := none
  srcPort := 1000
  dstPort := 80
  seqNum := seqNum
  ackNum := ackNum
  ctl := ctl
  window := 1220
  options := []
  payload := payload

/-- The TCB listens on the port 80. -/
def soloListen : List TcbEvent := [.api (.gnrcTcpListen 1 80), soloCall .callOpen]

/-- The TCB listens, and is asked for a connection. -/
def soloSyn : List TcbEvent := soloListen ++ [soloCall (.rcvdPkt (peerSegment { syn := true } 5000 0 []))]

/-- A call of `_gnrc_tcp_fsm` on a TCB. -/
def fsmCall (t : Tcb) (c : Call) : Option Fsm := fsm c.env (fsmStart t c.list c.bufUsed) c.event

/-- What the handling function of a call finds: the flag for the user is cleared. -/
def callStart (t : Tcb) (c : Call) : Fsm :=
  { fsmStart t c.list c.bufUsed with tcb.status.notifyUser := false }

/-- The call has chosen a new initial sequence number. -/
def beginsConnection (t : Tcb) (event : Event) (w : Fsm) : Bool :=
  (event = .callOpen ∧ w.ret = 0 ∧ w.tcb.state = .synSent) ∨ (t.state = .listen ∧ w.tcb.state = .synRcvd)

/-! ## What the pieces leave alone -/

variable {e : Env} {w : Fsm} {state : State} {ctl : Ctl} {seqNum ackNum : Seq} {payload : List UInt8}

/-- A call of `_transition_to` keeps the fields that count sequence numbers and bytes. -/
structure SameNumbers (t t' : Tcb) : Prop where
  sndUna : t'.sndUna = t.sndUna
  sndNxt : t'.sndNxt = t.sndNxt
  sndWnd : t'.sndWnd = t.sndWnd
  sndWl1 : t'.sndWl1 = t.sndWl1
  sndWl2 : t'.sndWl2 = t.sndWl2
  rcvNxt : t'.rcvNxt = t.rcvNxt
  rcvWnd : t'.rcvWnd = t.rcvWnd
  iss : t'.iss = t.iss
  irs : t'.irs = t.irs
  mss : t'.mss = t.mss
  rcvBuf : t'.rcvBuf = t.rcvBuf
  listening : t'.status.listening = t.status.listening

@[simp] theorem clearRetransmit_slot : (clearRetransmit w).tcb.pktRetransmit = none := by
  unfold clearRetransmit
  split
  · rfl
  · rename_i h
    exact not_isSome_iff_eq_none.mp h

theorem clearRetransmit_numbers : SameNumbers w.tcb (clearRetransmit w).tcb := by
  unfold clearRetransmit
  split <;> exact ⟨rfl, rfl, rfl, rfl, rfl, rfl, rfl, rfl, rfl, rfl, rfl, rfl⟩

@[simp] theorem clearRetransmit_state : (clearRetransmit w).tcb.state = w.tcb.state := by
  unfold clearRetransmit
  split <;> rfl

@[simp] theorem clearRetransmit_eventTimeout : (clearRetransmit w).tcb.eventTimeout = w.tcb.eventTimeout := by
  unfold clearRetransmit
  split <;> rfl

theorem clearRetransmit_eventRetransmit (h : w.tcb.eventRetransmit = true → w.tcb.pktRetransmit ≠ none) :
    (clearRetransmit w).tcb.eventRetransmit = false := by
  unfold clearRetransmit
  split
  · rfl
  · rename_i hnone
    rw [not_isSome_iff_eq_none] at hnone
    by_contra hev
    exact h (Bool.eq_true_of_not_eq_false hev) hnone

theorem rcvbufReleaseBuffer_numbers : SameNumbers w.tcb (rcvbufReleaseBuffer w).tcb := by
  unfold rcvbufReleaseBuffer
  split <;> exact ⟨rfl, rfl, rfl, rfl, rfl, rfl, rfl, rfl, rfl, rfl, rfl, rfl⟩

@[simp] theorem rcvbufReleaseBuffer_slot :
    (rcvbufReleaseBuffer w).tcb.pktRetransmit = w.tcb.pktRetransmit := by
  unfold rcvbufReleaseBuffer
  split <;> rfl

@[simp] theorem rcvbufReleaseBuffer_eventTimeout :
    (rcvbufReleaseBuffer w).tcb.eventTimeout = w.tcb.eventTimeout := by
  unfold rcvbufReleaseBuffer
  split <;> rfl

@[simp] theorem rcvbufReleaseBuffer_eventRetransmit :
    (rcvbufReleaseBuffer w).tcb.eventRetransmit = w.tcb.eventRetransmit := by
  unfold rcvbufReleaseBuffer
  split <;> rfl

/-! ### Transitions -/

/-- The state that a transition leads to: a TCB that listens is not closed but opened again. -/
def stateAfter (listening : Bool) (state : State) : State :=
  if state = .closed ∧ listening then .listen else state

theorem stateAfter_closed {listening : Bool} :
    stateAfter listening .closed = .closed ∨ stateAfter listening .closed = .listen := by
  cases listening
  · exact .inl rfl
  · exact .inr rfl

theorem transitionToClosed_numbers : SameNumbers w.tcb (transitionToClosed e w).tcb := by
  have hclear : SameNumbers w.tcb (clearRetransmit w).tcb := clearRetransmit_numbers
  unfold transitionToClosed
  dsimp only
  split
  · exact ⟨hclear.sndUna, hclear.sndNxt, hclear.sndWnd, hclear.sndWl1, hclear.sndWl2, hclear.rcvNxt,
      hclear.rcvWnd, hclear.iss, hclear.irs, hclear.mss, hclear.rcvBuf, hclear.listening⟩
  · have hrel : ∀ w : Fsm, SameNumbers w.tcb (rcvbufReleaseBuffer w).tcb :=
      fun _ => rcvbufReleaseBuffer_numbers
    replace hrel := hrel { clearRetransmit w with list := (clearRetransmit w).list.erase e.me }
    exact ⟨hrel.sndUna.trans hclear.sndUna, hrel.sndNxt.trans hclear.sndNxt,
      hrel.sndWnd.trans hclear.sndWnd, hrel.sndWl1.trans hclear.sndWl1,
      hrel.sndWl2.trans hclear.sndWl2, hrel.rcvNxt.trans hclear.rcvNxt,
      hrel.rcvWnd.trans hclear.rcvWnd, hrel.iss.trans hclear.iss, hrel.irs.trans hclear.irs,
      hrel.mss.trans hclear.mss, hrel.rcvBuf.trans hclear.rcvBuf,
      hrel.listening.trans hclear.listening⟩

theorem transitionTo_numbers : SameNumbers w.tcb (transitionTo e w state).tcb := by
  cases state with
  | closed => exact transitionToClosed_numbers
  | _ => exact ⟨rfl, rfl, rfl, rfl, rfl, rfl, rfl, rfl, rfl, rfl, rfl, rfl⟩

@[simp] theorem transitionTo_sndUna : (transitionTo e w state).tcb.sndUna = w.tcb.sndUna := by
  have hsame : SameNumbers w.tcb (transitionTo e w state).tcb := transitionTo_numbers
  exact hsame.sndUna

@[simp] theorem transitionTo_sndNxt : (transitionTo e w state).tcb.sndNxt = w.tcb.sndNxt := by
  have hsame : SameNumbers w.tcb (transitionTo e w state).tcb := transitionTo_numbers
  exact hsame.sndNxt

@[simp] theorem transitionTo_rcvNxt : (transitionTo e w state).tcb.rcvNxt = w.tcb.rcvNxt := by
  have hsame : SameNumbers w.tcb (transitionTo e w state).tcb := transitionTo_numbers
  exact hsame.rcvNxt

@[simp] theorem transitionTo_iss : (transitionTo e w state).tcb.iss = w.tcb.iss := by
  have hsame : SameNumbers w.tcb (transitionTo e w state).tcb := transitionTo_numbers
  exact hsame.iss

@[simp] theorem transitionTo_irs : (transitionTo e w state).tcb.irs = w.tcb.irs := by
  have hsame : SameNumbers w.tcb (transitionTo e w state).tcb := transitionTo_numbers
  exact hsame.irs

@[simp] theorem transitionTo_rcvBuf : (transitionTo e w state).tcb.rcvBuf = w.tcb.rcvBuf := by
  have hsame : SameNumbers w.tcb (transitionTo e w state).tcb := transitionTo_numbers
  exact hsame.rcvBuf

@[simp] theorem transitionTo_state :
    (transitionTo e w state).tcb.state = stateAfter w.tcb.status.listening state := by
  cases state with
  | closed =>
    have hlisten : (clearRetransmit w).tcb.status.listening = w.tcb.status.listening :=
      clearRetransmit_numbers.listening
    unfold transitionTo transitionToClosed stateAfter
    dsimp only
    rw [hlisten]
    cases w.tcb.status.listening <;> rfl
  | _ => rfl

theorem transitionTo_state_of_ne (h : state ≠ .closed) : (transitionTo e w state).tcb.state = state := by
  rw [transitionTo_state, stateAfter, if_neg (fun hc => h hc.1)]

theorem transitionTo_slot : (transitionTo e w state).tcb.pktRetransmit =
    if state = .closed then none else w.tcb.pktRetransmit := by
  cases state with
  | closed =>
    unfold transitionTo transitionToClosed
    dsimp only
    split
    · exact clearRetransmit_slot
    · rw [rcvbufReleaseBuffer_slot]
      exact clearRetransmit_slot
  | _ => rfl

/-! ### Sending -/

@[simp] theorem pktSend_zero {w : Fsm} {out : Option Segment} : (pktSend w out 0 false).tcb = w.tcb := by
  unfold pktSend
  split
  · rfl
  · simp

theorem buildSend_tcb (hsyn : ctl.syn = false) (hfin : ctl.fin = false) :
    (buildSend e w ctl seqNum ackNum).tcb = w.tcb := by
  have hcon : seqCon ctl 0 = 0 := by
    rw [seqCon, hsyn, hfin]
    rfl
  unfold buildSend pktBuild
  rw [hcon, pktSend_zero]

@[simp] theorem sendAck_tcb : (sendAck e w).tcb = w.tcb := buildSend_tcb rfl rfl

@[simp] theorem buildSend_rst_tcb : (buildSend e w { rst := true } seqNum ackNum).tcb = w.tcb :=
  buildSend_tcb rfl rfl

@[simp] theorem mkSegment_ctl {t : Tcb} : (mkSegment t ctl seqNum ackNum payload).ctl = ctl := rfl

@[simp] theorem mkSegment_seqNum {t : Tcb} : (mkSegment t ctl seqNum ackNum payload).seqNum = seqNum := rfl

@[simp] theorem getPayLen_mkSegment {t : Tcb} :
    getPayLen (mkSegment t ctl seqNum ackNum payload) = BitVec.ofNat 32 payload.length := by
  unfold getPayLen mkSegment
  dsimp only
  split
  · rename_i h
    rw [h]
    rfl
  · simp

theorem buildQueueSend_fields : ∃ slot event sndNxt, (buildQueueSend e w ctl seqNum ackNum payload).tcb =
      { w.tcb with pktRetransmit := slot, eventRetransmit := event, sndNxt := sndNxt } := by
  unfold buildQueueSend pktBuild
  by_cases halloc : e.alloc w.builds = true
  · rw [if_pos halloc]
    unfold pktSend setupRetransmit
    dsimp only
    split
    · exact ⟨_, _, _, rfl⟩
    · split <;> exact ⟨_, _, _, rfl⟩
  · rw [if_neg halloc]
    exact ⟨_, _, _, rfl⟩

@[simp] theorem buildQueueSend_state :
    (buildQueueSend e w ctl seqNum ackNum payload).tcb.state = w.tcb.state := by
  obtain ⟨_, _, _, h⟩ := buildQueueSend_fields
  rw [h]

@[simp] theorem buildQueueSend_eventTimeout :
    (buildQueueSend e w ctl seqNum ackNum payload).tcb.eventTimeout = w.tcb.eventTimeout := by
  obtain ⟨_, _, _, h⟩ := buildQueueSend_fields
  rw [h]

@[simp] theorem buildQueueSend_sndUna :
    (buildQueueSend e w ctl seqNum ackNum payload).tcb.sndUna = w.tcb.sndUna := by
  obtain ⟨_, _, _, h⟩ := buildQueueSend_fields
  rw [h]

@[simp] theorem buildQueueSend_iss : (buildQueueSend e w ctl seqNum ackNum payload).tcb.iss = w.tcb.iss := by
  obtain ⟨_, _, _, h⟩ := buildQueueSend_fields
  rw [h]

@[simp] theorem buildQueueSend_irs : (buildQueueSend e w ctl seqNum ackNum payload).tcb.irs = w.tcb.irs := by
  obtain ⟨_, _, _, h⟩ := buildQueueSend_fields
  rw [h]

@[simp] theorem buildQueueSend_rcvNxt :
    (buildQueueSend e w ctl seqNum ackNum payload).tcb.rcvNxt = w.tcb.rcvNxt := by
  obtain ⟨_, _, _, h⟩ := buildQueueSend_fields
  rw [h]

@[simp] theorem buildQueueSend_rcvBuf :
    (buildQueueSend e w ctl seqNum ackNum payload).tcb.rcvBuf = w.tcb.rcvBuf := by
  obtain ⟨_, _, _, h⟩ := buildQueueSend_fields
  rw [h]

theorem seqCon_toNat (hlen : payload.length < 2 ^ 15) : (seqCon ctl payload.length).toNat =
    payload.length + (if ctl.syn then 1 else 0) + (if ctl.fin then 1 else 0) := by
  unfold seqCon
  cases ctl.syn <;> cases ctl.fin <;> simp [BitVec.toNat_add] <;> omega

theorem getSegLen_mkSegment {t : Tcb} (hlen : payload.length < 2 ^ 15) :
    getSegLen (mkSegment t ctl seqNum ackNum payload) = (seqCon ctl payload.length).setWidth 32 := by
  refine BitVec.eq_of_toNat_eq ?_
  rw [BitVec.toNat_setWidth, seqCon_toNat hlen]
  unfold getSegLen
  rw [getPayLen_mkSegment, mkSegment_ctl]
  cases ctl.syn <;> cases ctl.fin <;> simp [BitVec.toNat_add]

/-- What becomes of the TCB when a segment is put into the queue and sent. -/
def queueTcb (t : Tcb) (seg : Segment) (n : BitVec 16) : Tcb :=
  { t with
    pktRetransmit := some seg
    eventRetransmit := true
    sndNxt := t.sndNxt + n.setWidth 32 }

/-- A segment with SYN, FIN or payload is sent only if it can be built, and is put into the
queue only if that is empty. -/
theorem buildQueueSend_tcb (hrst : ctl.rst = false) (hcon : ctl.syn ∨ ctl.fin ∨ payload ≠ [])
    (hlen : payload.length < 2 ^ 16) :
    (buildQueueSend e w ctl seqNum ackNum payload).tcb =
      if e.alloc w.builds then
        if w.tcb.pktRetransmit = none then
          queueTcb w.tcb (mkSegment w.tcb ctl seqNum ackNum payload) (seqCon ctl payload.length)
        else { w.tcb with sndNxt := w.tcb.sndNxt + (seqCon ctl payload.length).setWidth 32 }
      else w.tcb := by
  unfold buildQueueSend pktBuild
  dsimp only
  split
  · have hqueued : isUnqueued (mkSegment w.tcb ctl seqNum ackNum payload) = false := by
      rw [Bool.eq_false_iff]
      intro h
      rw [isUnqueued, mkSegment_ctl, hrst, Bool.false_or, getPayLen_mkSegment] at h
      simp only [Bool.and_eq_true, Bool.not_eq_true', beq_iff_eq] at h
      obtain ⟨⟨⟨_, hsyn⟩, hfin⟩, hlen0⟩ := h
      have hne : payload ≠ [] := by
        rcases hcon with h | h | h
        · rw [hsyn] at h
          cases h
        · rw [hfin] at h
          cases h
        · exact h
      have hpos : 0 < payload.length := List.length_pos_iff.mpr hne
      have hnat : payload.length % 2 ^ 32 = 0 := congrArg BitVec.toNat hlen0
      omega
    unfold setupRetransmit
    dsimp only
    rw [hqueued]
    by_cases hslot : w.tcb.pktRetransmit = none
    · rw [if_neg (by simp [hslot]), if_pos hslot]
      rfl
    · rw [if_pos ⟨isSome_iff_ne_none.mpr hslot, rfl⟩, if_neg hslot]
      rfl
  · rfl

theorem buildQueueSend_nil : (buildQueueSend e w { ack := true, psh := true } seqNum ackNum []).tcb = w.tcb := by
  unfold buildQueueSend pktBuild
  have hcon : seqCon { ack := true, psh := true } ([] : List UInt8).length = 0 := rfl
  have hpure : isUnqueued (mkSegment w.tcb { ack := true, psh := true } seqNum ackNum []) = true := by
    rfl
  rw [hcon, pktSend_zero]
  split
  · unfold setupRetransmit
    dsimp only
    split <;> rfl
  · rfl

/-! ## What the handling functions do -/

variable {w' : Fsm} {seg : Segment} {goesOn : Bool}

theorem rcvbufGetBuffer_tcb (hget : rcvbufGetBuffer w = some w') : ∃ raw buf,
    w'.tcb = { w.tcb with rcvBufRaw := raw, rcvBuf := buf } ∧ w'.ret = w.ret ∧
      (w.tcb.rcvBufRaw = none ∨ w.tcb.rcvBuf = [] → buf = []) := by
  unfold rcvbufGetBuffer at hget
  split at hget
  · rename_i hraw
    cases hget
    exact ⟨_, _, rfl, rfl, fun hc => hc.resolve_left fun hnone => by rw [hraw] at hnone; cases hnone⟩
  · obtain ⟨_, _, rfl⟩ := map_eq_some_iff.mp hget
    exact ⟨_, _, rfl, rfl, fun _ => rfl⟩

theorem transitionToSynSent_tcb {ret : Int} (hto : transitionToSynSent e w = some (w', ret)) :
    (ret < 0 ∧ w' = w) ∨
      (ret = 0 ∧ ∃ port, w'.tcb = { w.tcb with localPort := port, state := .synSent } ∧ w'.ret = w.ret) := by
  unfold transitionToSynSent at hto
  split at hto
  · cases hto
    exact .inr ⟨rfl, _, rfl, rfl⟩
  · split at hto
    · split at hto
      · cases hto
        exact .inl ⟨by decide, rfl⟩
      · cases hto
        exact .inr ⟨rfl, _, rfl, rfl⟩
    · obtain ⟨port, _, heq⟩ := map_eq_some_iff.mp hto
      cases heq
      exact .inr ⟨rfl, port, rfl, rfl⟩

theorem pktAcknowledge_tcb {ack : Seq} (hack : pktAcknowledge w ack = some w') :
    ∃ slot event, w'.tcb = { w.tcb with pktRetransmit := slot, eventRetransmit := event } := by
  unfold pktAcknowledge at hack
  split at hack
  · cases hack
    exact ⟨_, _, rfl⟩
  · obtain ⟨b, -, rfl⟩ := map_eq_some_iff.mp hack
    cases b <;> exact ⟨_, _, rfl⟩

/-- A number that passes the plain comparisons of SYN_SENT acknowledges the SYN. -/
theorem ahead_of_plain {iss ack nxt : Seq} (hlt : iss < ack) (hle : ack ≤ nxt) :
    0 < ahead iss ack ∧ ahead iss ack ≤ ahead iss nxt := by
  rw [BitVec.lt_def] at hlt
  rw [BitVec.le_def] at hle
  have hnxt := nxt.isLt
  rw [ahead, ahead, BitVec.toNat_sub, BitVec.toNat_sub]
  omega

theorem rcvdAckSynRcvd_cases (hcall : rcvdAckSynRcvd e w seg = some w') : (w.tcb.state ≠ .synRcvd ∧ w' = w) ∨
      (w.tcb.state = .synRcvd ∧ ackIsNew w.tcb seg.ackNum = some false ∧ w'.tcb = w.tcb) ∨
      (w.tcb.state = .synRcvd ∧ ackIsNew w.tcb seg.ackNum = some true ∧ w' = transitionTo e
          { w with tcb.sndWnd := seg.window, tcb.sndWl1 := seg.seqNum, tcb.sndWl2 := seg.ackNum }
          .established) := by
  unfold rcvdAckSynRcvd at hcall
  split at hcall
  · rename_i hstate
    obtain ⟨acceptable, hnew, rfl⟩ := map_eq_some_iff.mp hcall
    cases acceptable with
    | false => exact .inr (.inl ⟨hstate, hnew, buildSend_rst_tcb⟩)
    | true => exact .inr (.inr ⟨hstate, hnew, rfl⟩)
  · rename_i hstate
    cases hcall
    exact .inl ⟨hstate, rfl⟩

theorem rcvdAckData_cases (hcall : rcvdAckData e w seg = some (w', goesOn)) :
    (goesOn = true ∧ ackIsNew w.tcb seg.ackNum = some true ∧
        pktAcknowledge { w with tcb.sndUna := seg.ackNum } seg.ackNum = some w') ∨
      (goesOn = true ∧ ackIsNew w.tcb seg.ackNum = some false ∧ w' = w) ∨
      (goesOn = false ∧ w'.tcb = w.tcb) := by
  obtain ⟨acked, hnew, hcall⟩ := bind_eq_some_iff.mp hcall
  cases acked with
  | true =>
    obtain ⟨w1, hack, heq⟩ := map_eq_some_iff.mp hcall
    cases heq
    exact .inl ⟨rfl, hnew, hack⟩
  | false =>
    obtain ⟨unsent, -, heq⟩ := map_eq_some_iff.mp hcall
    cases unsent with
    | true =>
      cases heq
      exact .inr (.inr ⟨rfl, sendAck_tcb⟩)
    | false =>
      cases heq
      exact .inr (.inl ⟨rfl, hnew, rfl⟩)

theorem rcvdAckWindow_tcb (hcall : rcvdAckWindow w seg = some w') : ∃ sndWnd sndWl1 sndWl2 status,
    w'.tcb = { w.tcb with sndWnd := sndWnd, sndWl1 := sndWl1, sndWl2 := sndWl2, status := status } ∧
      status.listening = w.tcb.status.listening := by
  obtain ⟨current, -, hcall⟩ := bind_eq_some_iff.mp hcall
  cases current with
  | false =>
    cases hcall
    exact ⟨_, _, _, _, rfl, rfl⟩
  | true =>
    obtain ⟨later, -, hcall⟩ := bind_eq_some_iff.mp hcall
    obtain ⟨newer, -, rfl⟩ := map_eq_some_iff.mp hcall
    cases newer <;> exact ⟨_, _, _, _, rfl, rfl⟩

theorem rcvdAckFin_cases : (rcvdAckFin e w = (w, true) ∧
      (w.tcb.pktRetransmit = none → w.tcb.state ≠ .finWait1 ∧ w.tcb.state ≠ .closing ∧ w.tcb.state ≠ .lastAck)) ∨
    (w.tcb.pktRetransmit = none ∧ w.tcb.state = .finWait1 ∧
      rcvdAckFin e w = (transitionTo e w .finWait2, true)) ∨
    (w.tcb.pktRetransmit = none ∧ w.tcb.state = .closing ∧
      rcvdAckFin e w = (transitionTo e w .timeWait, true)) ∨
    (w.tcb.pktRetransmit = none ∧ w.tcb.state = .lastAck ∧
      rcvdAckFin e w = (transitionTo e w .closed, false)) := by
  unfold rcvdAckFin
  split
  · rename_i hslot
    split
    · rename_i hstate
      exact .inr (.inl ⟨hslot, hstate, rfl⟩)
    · rename_i hstate
      exact .inr (.inr (.inl ⟨hslot, hstate, rfl⟩))
    · rename_i hstate
      exact .inr (.inr (.inr ⟨hslot, hstate, rfl⟩))
    · rename_i h1 h2 h3
      exact .inl ⟨rfl, fun _ => ⟨h1, h2, h3⟩⟩
  · rename_i hslot
    exact .inl ⟨rfl, fun hc => absurd hc hslot⟩

/-- An acknowledgment is ignored, stops the segment, or is taken, with the window and the
transitions behind it. -/
theorem rcvdAck_cases (hcall : rcvdAck e w seg = some (w', goesOn)) :
    (acksData w.tcb.state = false ∧ w' = w ∧ goesOn = true) ∨
      (acksData w.tcb.state = true ∧ w'.tcb = w.tcb ∧ goesOn = false) ∨
      (acksData w.tcb.state = true ∧ ∃ w1 w2, rcvdAckData e w seg = some (w1, true) ∧
        rcvdAckWindow w1 seg = some w2 ∧ rcvdAckFin e w2 = (w', goesOn)) := by
  unfold rcvdAck at hcall
  split at hcall
  · rename_i hacks
    obtain ⟨⟨w1, goesOn1⟩, hdata, hcall⟩ := bind_eq_some_iff.mp hcall
    cases goesOn1 with
    | true =>
      obtain ⟨w2, hwindow, heq⟩ := map_eq_some_iff.mp hcall
      exact .inr (.inr ⟨hacks, w1, w2, hdata, hwindow, heq⟩)
    | false =>
      cases hcall
      rcases rcvdAckData_cases hdata with ⟨hc, -⟩ | ⟨hc, -⟩ | ⟨-, htcb⟩
      · cases hc
      · cases hc
      · exact .inr (.inl ⟨hacks, htcb, rfl⟩)
  · rename_i hacks
    cases hcall
    exact .inl ⟨Bool.eq_false_iff.mpr hacks, rfl, rfl⟩

theorem rcvdAckData_state (hcall : rcvdAckData e w seg = some (w', goesOn)) : w'.tcb.state = w.tcb.state := by
  rcases rcvdAckData_cases hcall with ⟨-, -, hack⟩ | ⟨-, -, rfl⟩ | ⟨-, htcb⟩
  · obtain ⟨_, _, htcb⟩ := pktAcknowledge_tcb hack
    rw [htcb]
  · rfl
  · rw [htcb]

theorem rcvdAck_state (hcall : rcvdAck e w seg = some (w', goesOn)) : w'.tcb.state = w.tcb.state ∨
    (w.tcb.state = .finWait1 ∧ w'.tcb.state = .finWait2) ∨
    (w.tcb.state = .closing ∧ w'.tcb.state = .timeWait) ∨
    (w.tcb.state = .lastAck ∧ (w'.tcb.state = .closed ∨ w'.tcb.state = .listen)) := by
  rcases rcvdAck_cases hcall with ⟨-, rfl, -⟩ | ⟨-, htcb, -⟩ | ⟨-, w1, w2, hdata, hwindow, hfin⟩
  · exact .inl rfl
  · exact .inl (by rw [htcb])
  · obtain ⟨_, _, _, _, hw2, -⟩ := rcvdAckWindow_tcb hwindow
    have hstate : w2.tcb.state = w.tcb.state := by
      rw [hw2]
      exact rcvdAckData_state hdata
    rcases rcvdAckFin_cases (e := e) (w := w2) with ⟨heq, -⟩ | ⟨-, hs, heq⟩ | ⟨-, hs, heq⟩ | ⟨-, hs, heq⟩
    · obtain ⟨rfl, -⟩ := Prod.mk.inj (heq.symm.trans hfin)
      exact .inl hstate
    · obtain ⟨rfl, -⟩ := Prod.mk.inj (heq.symm.trans hfin)
      exact .inr (.inl ⟨hstate ▸ hs, transitionTo_state_of_ne (by decide)⟩)
    · obtain ⟨rfl, -⟩ := Prod.mk.inj (heq.symm.trans hfin)
      exact .inr (.inr (.inl ⟨hstate ▸ hs, transitionTo_state_of_ne (by decide)⟩))
    · obtain ⟨rfl, -⟩ := Prod.mk.inj (heq.symm.trans hfin)
      refine .inr (.inr (.inr ⟨hstate ▸ hs, ?_⟩))
      rw [transitionTo_state]
      exact stateAfter_closed

theorem storePayload_fields (snips : List (List UInt8)) : ∃ rcvBuf rcvNxt,
    (storePayload w snips).tcb = { w.tcb with rcvBuf := rcvBuf, rcvNxt := rcvNxt } := by
  induction snips generalizing w with
  | nil => exact ⟨_, _, rfl⟩
  | cons snip snips ih =>
    obtain ⟨rcvBuf, rcvNxt, h⟩ := ih (w := { w with
      tcb.rcvBuf := (ringbufferAdd w.tcb.rcvBuf snip).1
      tcb.rcvNxt := w.tcb.rcvNxt + BitVec.ofNat 32 (ringbufferAdd w.tcb.rcvBuf snip).2 })
    exact ⟨rcvBuf, rcvNxt, h⟩

/-- The payload touches the receive buffer, what counts its bytes, and the status. -/
theorem rcvdPayload_fields : ∃ rcvBuf rcvNxt rcvWnd status, (rcvdPayload e w seg).tcb =
        { w.tcb with rcvBuf := rcvBuf, rcvNxt := rcvNxt, rcvWnd := rcvWnd, status := status } ∧
      status.listening = w.tcb.status.listening := by
  unfold rcvdPayload
  split
  · dsimp only
    obtain ⟨rcvBuf, rcvNxt, hstore⟩ := storePayload_fields (w := w) seg.payload
    split
    · split
      · rw [hstore]
        exact ⟨_, _, _, _, rfl, rfl⟩
      · exact ⟨_, _, _, _, rfl, rfl⟩
    · rw [sendAck_tcb]
      split
      · rw [hstore]
        exact ⟨_, _, _, _, rfl, rfl⟩
      · exact ⟨_, _, _, _, rfl, rfl⟩
  · exact ⟨_, _, _, _, rfl, rfl⟩

@[simp] theorem takeFin_tcb :
    (takeFin e w seg).tcb = { w.tcb with rcvNxt := seg.seqNum + getSegLen seg } := sendAck_tcb

theorem finTransition_cases : ((w.tcb.state = .synRcvd ∨ w.tcb.state = .established) ∧
        finTransition e w = transitionTo e w .closeWait) ∨
      ((w.tcb.state = .finWait1 ∧ w.tcb.pktRetransmit = none ∨ w.tcb.state = .finWait2) ∧
        finTransition e w = transitionTo e w .timeWait) ∨
      ((w.tcb.state = .finWait1 ∧ w.tcb.pktRetransmit ≠ none) ∧
        finTransition e w = transitionTo e w .closing) ∨
      (w.tcb.state = .timeWait ∧ finTransition e w = restartTimewaitTimer w) ∨
      ((w.tcb.state ≠ .synRcvd ∧ w.tcb.state ≠ .established ∧ w.tcb.state ≠ .finWait1 ∧
        w.tcb.state ≠ .finWait2 ∧ w.tcb.state ≠ .timeWait) ∧ finTransition e w = w) := by
  unfold finTransition
  cases hstate : w.tcb.state with
  | synRcvd => exact .inl ⟨.inl rfl, rfl⟩
  | established => exact .inl ⟨.inr rfl, rfl⟩
  | finWait1 =>
    dsimp only
    split
    · rename_i hslot
      exact .inr (.inl ⟨.inl ⟨rfl, hslot⟩, rfl⟩)
    · rename_i hslot
      exact .inr (.inr (.inl ⟨⟨rfl, hslot⟩, rfl⟩))
  | finWait2 => exact .inr (.inl ⟨.inr rfl, rfl⟩)
  | timeWait => exact .inr (.inr (.inr (.inl ⟨rfl, rfl⟩)))
  | _ => exact .inr (.inr (.inr (.inr ⟨by decide, rfl⟩)))

theorem rcvdOther_cases (hcall : rcvdOther e w seg = some w') :
    (chkSeqNum w.tcb seg.seqNum (getPayLen seg) = some false ∧ w'.tcb = w.tcb) ∨
      (chkSeqNum w.tcb seg.seqNum (getPayLen seg) = some true ∧
        ((seg.ctl.rst = true ∧ ((w.tcb.state = .synRcvd ∧ w.tcb.status.listening = true ∧
            w' = transitionTo e w .listen) ∨ w' = transitionTo e w .closed)) ∨
        (seg.ctl.rst = false ∧ seg.ctl.syn = true ∧ ∃ w1, w1.tcb = w.tcb ∧ w' = transitionTo e w1 .closed) ∨
        (seg.ctl.rst = false ∧ seg.ctl.syn = false ∧ seg.ctl.ack = false ∧ w' = w) ∨
        (seg.ctl.rst = false ∧ seg.ctl.syn = false ∧ seg.ctl.ack = true ∧ rcvdAcked e w seg = some w'))) := by
  obtain ⟨acceptable, hchk, hcall⟩ := bind_eq_some_iff.mp hcall
  cases acceptable with
  | false =>
    cases hcall
    refine .inl ⟨hchk, ?_⟩
    split
    · rfl
    · exact sendAck_tcb
  | true =>
    rw [if_neg (by decide)] at hcall
    refine .inr ⟨hchk, ?_⟩
    cases hrst : seg.ctl.rst with
    | true =>
      rw [if_pos hrst] at hcall
      refine .inl ⟨rfl, ?_⟩
      split at hcall
      · rename_i hstate
        cases hcall
        exact .inl ⟨hstate.1, hstate.2, rfl⟩
      · cases hcall
        exact .inr rfl
    | false =>
      rw [if_neg (by rw [hrst]; decide)] at hcall
      cases hsyn : seg.ctl.syn with
      | true =>
        rw [if_pos hsyn] at hcall
        cases hcall
        exact .inr (.inl ⟨rfl, rfl, _, buildSend_rst_tcb, rfl⟩)
      | false =>
        rw [if_neg (by rw [hsyn]; decide)] at hcall
        cases hack : seg.ctl.ack with
        | false =>
          rw [if_pos hack] at hcall
          cases hcall
          exact .inr (.inr (.inl ⟨rfl, rfl, rfl, rfl⟩))
        | true =>
          rw [if_neg (by rw [hack]; decide)] at hcall
          exact .inr (.inr (.inr ⟨rfl, rfl, rfl, hcall⟩))

theorem rcvdAcked_cases (hcall : rcvdAcked e w seg = some w') : ∃ w1 w2 goesOn,
    rcvdAckSynRcvd e w seg = some w1 ∧ rcvdAck e w1 seg = some (w2, goesOn) ∧
      w' = if goesOn then rcvdFin e (rcvdPayload e w2 seg) seg else w2 := by
  obtain ⟨w1, hsyn, hcall⟩ := bind_eq_some_iff.mp hcall
  obtain ⟨⟨w2, goesOn⟩, hack, rfl⟩ := map_eq_some_iff.mp hcall
  exact ⟨w1, w2, goesOn, hsyn, hack, rfl⟩

theorem fsmRcvdPkt_cases (hcall : fsmRcvdPkt e w seg = some w') : ∃ w1 mss,
    w1.tcb = { w.tcb with mss := mss } ∧ w1 = (optionParse w seg).1 ∧ (w' = w1 ∨
      (w.tcb.state = .listen ∧ (optionParse w seg).2 = true ∧ w' = rcvdListen e w1 seg) ∨
      (w.tcb.state = .synSent ∧ (optionParse w seg).2 = true ∧ rcvdSynSent e w1 seg = some w') ∨
      (w.tcb.state ≠ .listen ∧ w.tcb.state ≠ .synSent ∧ rcvdOther e w1 seg = some w')) := by
  unfold fsmRcvdPkt at hcall
  refine ⟨(optionParse w seg).1, _, rfl, rfl, ?_⟩
  dsimp only at hcall
  split at hcall
  · cases hcall
    exact .inl rfl
  · rename_i hvalid
    replace hvalid := Bool.eq_true_of_not_eq_false hvalid
    split at hcall
    · rename_i hstate
      cases hcall
      exact .inr (.inl ⟨hstate, hvalid, rfl⟩)
    · rename_i hstate
      exact .inr (.inr (.inl ⟨hstate, hvalid, hcall⟩))
    · rename_i hlisten hsent
      exact .inr (.inr (.inr ⟨hlisten, hsent, hcall⟩))

@[simp] theorem clearRetransmit_sent : (clearRetransmit w).sent = w.sent := by
  unfold clearRetransmit
  split <;> rfl

@[simp] theorem rcvbufReleaseBuffer_sent : (rcvbufReleaseBuffer w).sent = w.sent := by
  unfold rcvbufReleaseBuffer
  split <;> rfl

@[simp] theorem transitionTo_sent : (transitionTo e w state).sent = w.sent := by
  cases state with
  | closed =>
    unfold transitionTo transitionToClosed
    dsimp only
    split
    · exact clearRetransmit_sent
    · rw [rcvbufReleaseBuffer_sent]
      exact clearRetransmit_sent
  | _ => rfl

theorem buildQueueSend_sent : (buildQueueSend e w ctl seqNum ackNum payload).sent =
    if e.alloc w.builds then w.sent ++ [mkSegment w.tcb ctl seqNum ackNum payload] else w.sent := by
  unfold buildQueueSend pktBuild
  dsimp only
  split
  · unfold pktSend setupRetransmit
    dsimp only
    split
    · rfl
    · split <;> rfl
  · rfl

theorem pktSend_retransmit {out : Option Segment} : (pktSend w out 0 true).tcb = w.tcb := by
  cases out <;> rfl

theorem setupRetransmit_again (hslot : w.tcb.pktRetransmit = some seg) : ∃ event,
    (setupRetransmit w (some seg) true).tcb = { w.tcb with eventRetransmit := event } := by
  unfold setupRetransmit
  dsimp only
  rw [if_neg (fun hc => by cases hc.2)]
  split
  · exact ⟨_, rfl⟩
  · exact ⟨true, by rw [hslot]⟩

theorem fsmTimeoutRetransmit_tcb : ∃ event,
    (fsmTimeoutRetransmit w).tcb = { w.tcb with eventRetransmit := event } ∧
      (w.tcb.pktRetransmit = none → event = w.tcb.eventRetransmit) := by
  unfold fsmTimeoutRetransmit
  cases hslot : w.tcb.pktRetransmit with
  | none => exact ⟨_, rfl, fun _ => rfl⟩
  | some seg =>
    obtain ⟨event, hagain⟩ := setupRetransmit_again hslot
    refine ⟨event, ?_, fun hc => by cases hc⟩
    rw [if_pos (isSome_some), pktSend_retransmit]
    exact hagain

@[simp] theorem fsmSendProbe_tcb : (fsmSendProbe e w).tcb = w.tcb := by
  unfold fsmSendProbe pktBuild
  rw [pktSend_zero]

/-- Addresses, ports and flags are all that the functions of `gnrc_tcp.c` write. -/
theorem apiWrite_fields {t t' : Tcb} {a : ApiWrite} (happly : apiWrite t a = some t') :
    ∃ localAddr peerAddr llIface localPort peerPort status,
      t' = { t with
        localAddr := localAddr
        peerAddr := peerAddr
        llIface := llIface
        localPort := localPort
        peerPort := peerPort
        status := status } := by
  cases a with
  | gnrcTcpOpen | gnrcTcpListen | gnrcTcpAccept =>
    dsimp only [apiWrite] at happly
    split at happly
    · cases happly
      exact ⟨_, _, _, _, _, _, rfl⟩
    · cases happly
  | gnrcTcpListenFailed | gnrcTcpStopListen =>
    cases happly
    exact ⟨_, _, _, _, _, _, rfl⟩

theorem fsmCall_eq {t : Tcb} {c : Call} (hcall : fsmCall t c = some w') : ∃ w,
    w.tcb = { t with status := { t.status with notifyUser := false } } ∧ w.ret = 0 ∧ w.builds = 0 ∧
      fsmUnprotected c.env w c.event = some w' :=
  ⟨_, rfl, rfl, rfl, hcall⟩

end Riot.Tcp
