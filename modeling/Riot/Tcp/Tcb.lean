import Riot.Lib.Serial

/-!
# Transmission control blocks and segments

The data of `gnrc_tcp`: the transmission control block of `net/gnrc/tcp/tcb.h`, and
the segments that the packet buffer holds, with the fields that the state machine
reads and writes. Round trip times and the lengths of the timers are left out: here
a timer that is set may expire at any moment. The address family is `AF_INET6`.
-/

namespace Riot.Tcp

open Riot.Lib

/-- Sequence and acknowledgment numbers. -/
abbrev Seq := BitVec 32

abbrev Port := BitVec 16

/-- `ipv6_addr_t` -/
abbrev Addr := BitVec 128

/-- The place of a TCB in memory. -/
abbrev TcbId := Nat

def portUnspec : Port := 0

def addrUnspecified : Addr := 0

/-- `CONFIG_GNRC_TCP_MSS` -/
def configMss : Nat := 1220

/-- `CONFIG_GNRC_TCP_DEFAULT_WINDOW` -/
def configDefaultWindow : Nat := configMss * 1

def rcvBufSize : Nat := configDefaultWindow

def lss32Bit (x y : Seq) : Option Bool := serialLt x y

def leq32Bit (x y : Seq) : Option Bool := serialLe x y

/-- `&&` of two comparisons: the second one is made only if the first one holds. -/
def andAlso (x : Option Bool) (y : Option Bool) : Option Bool :=
  x.bind fun b => if b then y else some false

def insideWnd (lEd seqNum rEd : Seq) : Option Bool := andAlso (leq32Bit lEd seqNum) (lss32Bit seqNum rEd)

def addrIsMulticast (a : Addr) : Bool := a.extractLsb' 120 8 == 0xff#8

def addrIsLinkLocal (a : Addr) : Bool :=
  a.extractLsb' 64 64 == 0xfe80000000000000#64 ||
    (addrIsMulticast a && a.extractLsb' 112 4 == 0x2#4)

/-- The control bits `MSK_CTL` of `off_ctl`. -/
structure Ctl where
  fin : Bool := false
  syn : Bool := false
  rst : Bool := false
  psh : Bool := false
  ack : Bool := false
  urg : Bool := false
  deriving DecidableEq

/-- A packet with the headers `GNRC_NETTYPE_IPV6` and `GNRC_NETTYPE_TCP`. -/
structure Segment where
  src : Addr
  dst : Addr
  /-- `if_pid` of the `GNRC_NETTYPE_NETIF` snip, if there is one -/
  netif : Option Int
  srcPort : Port
  dstPort : Port
  seqNum : Seq
  ackNum : Seq
  ctl : Ctl
  window : BitVec 16
  /-- The bytes of the header behind `tcp_hdr_t`, as many as its offset says. -/
  options : List UInt8
  /-- The `GNRC_NETTYPE_UNDEF` snips. -/
  payload : List (List UInt8)
  deriving DecidableEq

/-- `_gnrc_tcp_fsm_state_t` -/
inductive State where
  | closed
  | listen
  | synSent
  | synRcvd
  | established
  | closeWait
  | lastAck
  | finWait1
  | finWait2
  | closing
  | timeWait
  deriving DecidableEq

/-- The status flags of a TCB. -/
structure Status where
  listening : Bool
  allowAnyAddr : Bool
  notifyUser : Bool
  accepted : Bool
  deriving DecidableEq

/-- What `event_timeout` is scheduled for. -/
inductive TimeoutType where
  /-- `MSG_TYPE_TIMEWAIT` -/
  | timewait
  /-- `MSG_TYPE_CONNECTION_TIMEOUT` -/
  | connectionTimeout
  deriving DecidableEq

/-- `gnrc_tcp_tcb_t` -/
structure Tcb where
  localAddr : Addr
  peerAddr : Addr
  llIface : BitVec 8
  localPort : Port
  peerPort : Port
  state : State
  status : Status
  sndUna : Seq
  sndNxt : Seq
  sndWnd : BitVec 16
  sndWl1 : Seq
  sndWl2 : Seq
  rcvNxt : Seq
  rcvWnd : BitVec 16
  iss : Seq
  irs : Seq
  mss : BitVec 16
  /-- Whether `event_retransmit` is scheduled. -/
  eventRetransmit : Bool
  /-- What `event_timeout` is scheduled for, if it is. -/
  eventTimeout : Option TimeoutType
  pktRetransmit : Option Segment
  /-- `rcv_buf_raw`: which of the static buffers -/
  rcvBufRaw : Option Nat
  /-- The bytes in `rcv_buf`, the oldest first. -/
  rcvBuf : List UInt8
  deriving DecidableEq

def tcbInit : Tcb where
  localAddr := 0
  peerAddr := 0
  llIface := 0
  localPort := 0
  peerPort := 0
  state := .closed
  status := ⟨false, false, false, false⟩
  sndUna := 0
  sndNxt := 0
  sndWnd := 0
  sndWl1 := 0
  sndWl2 := 0
  rcvNxt := 0
  rcvWnd := 0
  iss := 0
  irs := 0
  mss := 0
  eventRetransmit := false
  eventTimeout := none
  pktRetransmit := none
  rcvBufRaw := none
  rcvBuf := []

/-- What a call of the state machine finds outside of its TCB. -/
structure Env where
  /-- The TCB of the call. -/
  me : TcbId
  /-- The other TCBs. -/
  others : TcbId → Tcb
  /-- Whether the packet buffer has room for the `i`-th packet that the call builds. -/
  alloc : Nat → Bool
  /-- `random_uint32` for an initial sequence number -/
  iss : Seq
  /-- The draws of `_get_random_local_port`. -/
  ports : List Port

/-- What a call of the state machine works on, and what comes of it. -/
structure Fsm where
  tcb : Tcb
  /-- `_tcb_list` -/
  list : List TcbId
  /-- `_static_buf.entries[i].used` -/
  bufUsed : List Bool
  /-- The packets that the call has passed to the network layer. -/
  sent : List Segment
  /-- The number of packets that the call has tried to build. -/
  builds : Nat
  /-- What the call returns. -/
  ret : Int
  /-- The bytes that the call has copied into the buffer of the user. -/
  read : List UInt8
  deriving DecidableEq

/-- A call of the state machine begins. -/
def fsmStart (tcb : Tcb) (list : List TcbId) (bufUsed : List Bool) : Fsm :=
  { tcb, list, bufUsed, sent := [], builds := 0, ret := 0, read := [] }

end Riot.Tcp
