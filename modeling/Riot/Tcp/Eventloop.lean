import Riot.Tcp.Fsm

/-!
# Segments that arrive (`gnrc_tcp_eventloop.c`)

`_receive` gets packets whose headers are complete and whose checksum is right, looks
for the TCB that a packet is for, and calls the state machine for it.
-/

namespace Riot.Tcp

/-- All TCBs, with what they share. -/
structure Sys where
  tcbs : TcbId → Tcb
  /-- `_tcb_list` -/
  list : List TcbId
  /-- `_static_buf.entries[i].used` -/
  bufUsed : List Bool

/-- What a call of the state machine gets from the rest of the system. -/
structure Oracle where
  alloc : Nat → Bool
  iss : Seq
  ports : List Port

/-- `_gnrc_tcp_fsm` for one of the TCBs; with the packets that have been sent. -/
def Sys.fsm (s : Sys) (o : Oracle) (id : TcbId) (event : Event) : Option (Sys × List Segment) :=
  let e : Env := { me := id, others := s.tcbs, alloc := o.alloc, iss := o.iss, ports := o.ports }
  (Tcp.fsm e (fsmStart (s.tcbs id) s.list s.bufUsed) event).map fun w =>
    ({ tcbs := Function.update s.tcbs id w.tcb, list := w.list, bufUsed := w.bufUsed }, w.sent)

/-- Whether a TCB fits an incoming packet that asks for a connection. -/
def fitsSyn (tcb : Tcb) (seg : Segment) : Bool :=
  tcb.localPort == seg.dstPort && tcb.state = .listen &&
    (tcb.localAddr == seg.dst || tcb.localAddr == addrUnspecified)

/-- Whether a TCB fits any other incoming packet. -/
def fitsPacket (tcb : Tcb) (seg : Segment) : Bool :=
  tcb.localPort == seg.dstPort && tcb.peerPort == seg.srcPort && tcb.peerAddr == seg.src

/-- The loop of `_receive` over the list. -/
def receiveTcb (s : Sys) (seg : Segment) : Option TcbId :=
  let syn := seg.ctl.syn && !seg.ctl.ack
  s.list.find? fun id => (syn && fitsSyn (s.tcbs id) seg) || (!syn && fitsPacket (s.tcbs id) seg)

def receive (s : Sys) (o : Oracle) (seg : Segment) : Option (Sys × List Segment) :=
  match receiveTcb s seg with
  | some id => s.fsm o id (.rcvdPkt seg)
  | none => some (s, if ¬seg.ctl.rst ∧ o.alloc 0 then [mkReset seg] else [])

end Riot.Tcp
