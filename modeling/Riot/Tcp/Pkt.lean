import Riot.Tcp.Tcb

/-!
# Packets (`gnrc_tcp_pkt.c`, `gnrc_tcp_option.c`)

Segments are built, sent, and kept for retransmission in the one slot of the
retransmit queue. A packet that could not be built is `none`, as `out_pkt` is `NULL`.
-/

namespace Riot.Tcp

open Riot.Lib

/-! ## Options -/

/-- The loop of `_gnrc_tcp_option_parse` over `opt_left` bytes: the MSS of the peer, and
whether the options are valid. -/
def optionParseLoop : Nat → BitVec 16 → List UInt8 → BitVec 16 × Bool
  | _, mss, [] => (mss, true)
  | 0, mss, _ :: _ => (mss, true)
  | fuel + 1, mss, kind :: rest =>
    -- TCP_OPTION_KIND_EOL
    if kind = 0 then (mss, true)
    -- TCP_OPTION_KIND_NOP
    else if kind = 1 then optionParseLoop fuel mss rest
    else
      match rest with
      | [] => (mss, false)
      | length :: value =>
        -- TCP_OPTION_KIND_MSS
        if kind = 2 then
          match value with
          | v₀ :: v₁ :: rest =>
            if length.toNat = 4 then optionParseLoop fuel (v₀.toBitVec ++ v₁.toBitVec) rest
            else (mss, false)
          | _ => (mss, false)
        else if value.length + 2 < length.toNat ∨ length.toNat < 2 then (mss, false)
        else optionParseLoop fuel mss (value.drop (length.toNat - 2))

def optionParse (w : Fsm) (seg : Segment) : Fsm × Bool :=
  match optionParseLoop seg.options.length w.tcb.mss seg.options with
  | (mss, valid) => ({ w with tcb.mss := mss }, valid)

/-! ## Lengths -/

def getPayLen (seg : Segment) : Seq := BitVec.ofNat 32 (seg.payload.map List.length).sum

def getSegLen (seg : Segment) : Seq :=
  getPayLen seg + (if seg.ctl.syn then 1 else 0) + (if seg.ctl.fin then 1 else 0)

/-! ## Building and sending -/

/-- The option that a segment with SYN carries. -/
def mssOption : List UInt8 := [2, 4, UInt8.ofNat (configMss / 256), UInt8.ofNat configMss]

/-- The segment that `_gnrc_tcp_pkt_build` fills in. -/
def mkSegment (tcb : Tcb) (ctl : Ctl) (seqNum ackNum : Seq) (payload : List UInt8) : Segment where
  src := tcb.localAddr
  dst := tcb.peerAddr
  netif := if 0 < tcb.llIface.toInt then some tcb.llIface.toInt else none
  srcPort := tcb.localPort
  dstPort := tcb.peerPort
  seqNum := seqNum
  ackNum := ackNum
  ctl := ctl
  window := tcb.rcvWnd
  options := if ctl.syn then mssOption else []
  payload := if payload = [] then [] else [payload]

def pktBuild (e : Env) (w : Fsm) (ctl : Ctl) (seqNum ackNum : Seq) (payload : List UInt8) :
    Fsm × Option Segment :=
  ({ w with builds := w.builds + 1 },
    if e.alloc w.builds then some (mkSegment w.tcb ctl seqNum ackNum payload) else none)

/-- `seq_con` of `_gnrc_tcp_pkt_build` -/
def seqCon (ctl : Ctl) (payloadLen : Nat) : BitVec 16 :=
  (if ctl.syn then 1 else 0) + (if ctl.fin then 1 else 0) + BitVec.ofNat 16 payloadLen

/-- The segment that `_gnrc_tcp_pkt_build_reset_from_pkt` fills in; the interface is that of
the packet if the sender is link-local. -/
def mkReset (inPkt : Segment) : Segment where
  src := inPkt.dst
  dst := inPkt.src
  netif := if addrIsLinkLocal inPkt.src then inPkt.netif else none
  srcPort := inPkt.dstPort
  dstPort := inPkt.srcPort
  seqNum := if inPkt.ctl.ack then inPkt.ackNum else 0
  ackNum := if inPkt.ctl.ack then 0 else getSegLen inPkt + inPkt.seqNum
  ctl := if inPkt.ctl.ack then { rst := true } else { rst := true, ack := true }
  window := 0
  options := []
  payload := []

def pktBuildResetFromPkt (e : Env) (w : Fsm) (inPkt : Segment) : Fsm × Option Segment :=
  ({ w with builds := w.builds + 1 }, if e.alloc w.builds then some (mkReset inPkt) else none)

def pktSend (w : Fsm) (outPkt : Option Segment) (seqCon : BitVec 16) (retransmit : Bool) : Fsm :=
  match outPkt with
  | none => w
  | some seg =>
    { w with
      tcb.sndNxt := if retransmit then w.tcb.sndNxt else w.tcb.sndNxt + seqCon.setWidth 32
      sent := w.sent ++ [seg] }

/-- `_gnrc_tcp_pkt_chk_seq_num`: whether the sequence number is acceptable. -/
def chkSeqNum (tcb : Tcb) (seqNum segLen : Seq) : Option Bool :=
  let lEdge := tcb.rcvNxt
  let rEdge := tcb.rcvNxt + tcb.rcvWnd.setWidth 32
  let lastSeq := seqNum + segLen - 1
  if segLen = 0 ∧ tcb.rcvWnd = 0 ∧ lEdge = seqNum then some true
  else if tcb.rcvWnd = 0 then some false
  else if segLen = 0 then insideWnd lEdge seqNum rEdge
  else
    (insideWnd lEdge seqNum rEdge).bind fun b =>
      if b then some true else insideWnd lEdge lastSeq rEdge

/-! ## The retransmit queue -/

/-- A packet that contains a reset or is a pure ACK. -/
def isUnqueued (seg : Segment) : Bool :=
  seg.ctl.rst || (seg.ctl.ack && !seg.ctl.syn && !seg.ctl.fin && getPayLen seg == 0)

/-- `_gnrc_tcp_pkt_setup_retransmit`; `retransmit` is set exactly for the packet that is
already in the queue. -/
def setupRetransmit (w : Fsm) (pkt : Option Segment) (retransmit : Bool) : Fsm :=
  match pkt with
  | none => w
  | some seg =>
    if w.tcb.pktRetransmit.isSome ∧ retransmit = false then w
    else if isUnqueued seg then w
    else { w with tcb.pktRetransmit := some seg, tcb.eventRetransmit := true }

def pktAcknowledge (w : Fsm) (ack : Seq) : Option Fsm :=
  match w.tcb.pktRetransmit with
  | none => some w
  | some pkt =>
    (lss32Bit (pkt.seqNum + getSegLen pkt - 1) ack).map fun b =>
      if b then { w with tcb.pktRetransmit := none, tcb.eventRetransmit := false } else w

def clearRetransmit (w : Fsm) : Fsm :=
  if w.tcb.pktRetransmit.isSome then
    { w with tcb.pktRetransmit := none, tcb.eventRetransmit := false }
  else w

/-! ## Receive buffers (`gnrc_tcp_rcvbuf.c`, `ringbuffer.c`) -/

/-- `_gnrc_tcp_rcvbuf_get_buffer`; `none` is `-ENOMEM`. -/
def rcvbufGetBuffer (w : Fsm) : Option Fsm :=
  match w.tcb.rcvBufRaw with
  | some _ => some w
  | none =>
    (w.bufUsed.findIdx? fun used => !used).map fun i =>
      { w with tcb.rcvBufRaw := some i, tcb.rcvBuf := [], bufUsed := w.bufUsed.set i true }

def rcvbufReleaseBuffer (w : Fsm) : Fsm :=
  match w.tcb.rcvBufRaw with
  | none => w
  | some i => { w with tcb.rcvBufRaw := none, bufUsed := w.bufUsed.set i false }

def ringbufferGetFree (buf : List UInt8) : Nat := rcvBufSize - buf.length

/-- `ringbuffer_add`: the buffer, and the number of bytes that it has taken. -/
def ringbufferAdd (buf bytes : List UInt8) : List UInt8 × Nat :=
  (buf ++ bytes.take (ringbufferGetFree buf), min bytes.length (ringbufferGetFree buf))

end Riot.Tcp
