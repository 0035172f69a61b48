import Riot.Tcp.Eventloop

/-!
# Which TCB gets a segment

A connection is told from the others by four components: the addresses and the ports
of both ends. The listen path admits a connection if one of them differs from those of
every connection there is. `_receive` looks at three of them only.
-/

namespace Riot.Tcp

/-- All four components of the connection agree with the segment. -/
def Owns (t : Tcb) (seg : Segment) : Prop :=
  t.localAddr = seg.dst ∧ t.localPort = seg.dstPort ∧ t.peerAddr = seg.src ∧ t.peerPort = seg.srcPort

instance (t : Tcb) (seg : Segment) : Decidable (Owns t seg) := inferInstanceAs (Decidable (_ ∧ _))

/-- The segment goes to a TCB that owns it, if there is one in the list, and to no other. -/
def Demuxed (s : Sys) (seg : Segment) : Prop :=
  (∀ id, receiveTcb s seg = some id → Owns (s.tcbs id) seg) ∧
    ((∃ id ∈ s.list, Owns (s.tcbs id) seg) → (receiveTcb s seg).isSome)

/-- A TCB that differs from the segment in the local address alone stands behind one that owns
the segment. -/
def OwnerFirst (s : Sys) (seg : Segment) : Prop :=
  ∀ pre id post, s.list = pre ++ id :: post →
    (s.tcbs id).localPort = seg.dstPort → (s.tcbs id).peerAddr = seg.src →
    (s.tcbs id).peerPort = seg.srcPort → (s.tcbs id).localAddr ≠ seg.dst →
    ∃ owner ∈ pre, Owns (s.tcbs owner) seg

variable {s : Sys} {seg : Segment} {t : Tcb} {id : TcbId}

theorem fitsPacket_iff : fitsPacket t seg = true ↔
    t.localPort = seg.dstPort ∧ t.peerPort = seg.srcPort ∧ t.peerAddr = seg.src := by
  rw [fitsPacket, Bool.and_eq_true, Bool.and_eq_true, beq_iff_eq, beq_iff_eq, beq_iff_eq, and_assoc]

theorem Owns.fits (h : Owns t seg) : fitsPacket t seg = true := fitsPacket_iff.mpr ⟨h.2.1, h.2.2.2, h.2.2.1⟩

theorem receiveTcb_eq (hsyn : seg.ctl.syn = false) :
    receiveTcb s seg = s.list.find? fun id => fitsPacket (s.tcbs id) seg := by
  unfold receiveTcb
  simp only [hsyn, Bool.false_and, Bool.not_false, Bool.true_and, Bool.false_or]

/-- **Demultiplexing.** A segment without SYN gets to the TCB that owns it, and to no other,
exactly if every TCB that differs from it in the local address alone stands behind one that
owns it: what `_receive` leaves out is the comparison of the local address. -/
theorem demuxed_iff (s : Sys) (seg : Segment) (hsyn : seg.ctl.syn = false) :
    Demuxed s seg ↔ OwnerFirst s seg := by
  unfold Demuxed
  rw [receiveTcb_eq hsyn]
  constructor
  · rintro ⟨honly, -⟩ pre id post hlist hport hpeer hpeerPort haddr
    by_contra hnone
    -- the loop gets as far as `id`, unless it stops at an owner in front of it
    have hfits : fitsPacket (s.tcbs id) seg = true := fitsPacket_iff.mpr ⟨hport, hpeerPort, hpeer⟩
    cases hpre : pre.find? fun id => fitsPacket (s.tcbs id) seg with
    | some first =>
      have hfound : s.list.find? (fun id => fitsPacket (s.tcbs id) seg) = some first := by
        rw [hlist, List.find?_append, hpre]
        rfl
      exact hnone ⟨first, List.mem_of_find?_eq_some hpre, honly first hfound⟩
    | none =>
      have hfound : s.list.find? (fun id => fitsPacket (s.tcbs id) seg) = some id := by
        rw [hlist, List.find?_append, hpre, Option.none_or, List.find?_cons, hfits]
      exact haddr (honly id hfound).1
  · intro hfirst
    constructor
    · intro id hfound
      obtain ⟨hfits, pre, post, hlist, hpre⟩ := List.find?_eq_some_iff_append.mp hfound
      obtain ⟨hport, hpeerPort, hpeer⟩ := fitsPacket_iff.mp hfits
      refine ⟨?_, hport, hpeer, hpeerPort⟩
      by_contra haddr
      obtain ⟨owner, hmem, howns⟩ := hfirst pre id post hlist hport hpeer hpeerPort haddr
      have hnot := hpre owner hmem
      rw [howns.fits] at hnot
      exact absurd hnot (by decide)
    · rintro ⟨id, hmem, howns⟩
      exact List.find?_isSome.mpr ⟨id, hmem, howns.fits⟩

/-! ## Two connections of one peer -/

/-- A peer asks for a connection to the port 80 of the local address `dst`. -/
def synTo (dst : Addr) : Segment where
  src := 0x20010db8000000000000000000000009
  dst := dst
  netif := none
  srcPort := 1000
  dstPort := 80
  seqNum := 5000
  ackNum := 0
  ctl := { syn := true }
  window := 1220
  options := []
  payload := []

/-- The packet buffer has room. -/
def quietOracle : Oracle := { alloc := fun _ => true, iss := 100, ports := [] }

/-- Two TCBs listen on the port 80 of every local address. -/
def twoListeners : Sys where
  tcbs := fun _ => { tcbInit with
    localPort := 80
    state := .listen
    status := { tcbInit.status with listening := true, allowAnyAddr := true } }
  list := [1, 0]
  bufUsed := [true, true]

/-- The peer connects to the first local address, then to the second one, from the same port. -/
def twoConnections : Option Sys :=
  (receive twoListeners quietOracle (synTo 1)).bind fun r =>
    (receive r.1 quietOracle (synTo 2)).map Prod.fst

/-- The segment that acknowledges the SYN+ACK of the second connection. -/
def ackSecond : Segment := { synTo 2 with seqNum := 5001, ackNum := 101, ctl := { ack := true } }

/-- Both connections have been admitted, and the segments of the second one are given to the
TCB of the first one. -/
theorem not_demuxed : ∃ s, twoConnections = some s ∧ Owns (s.tcbs 0) ackSecond ∧
    receiveTcb s ackSecond = some 1 ∧ ¬Owns (s.tcbs 1) ackSecond ∧
    ¬∀ (s : Sys) (seg : Segment), seg.ctl.syn = false → Demuxed s seg := by
  have hsome : twoConnections.isSome = true := by decide +kernel
  obtain ⟨s, hs⟩ := Option.isSome_iff_exists.mp hsome
  have howns : twoConnections.all (fun s => decide (Owns (s.tcbs 0) ackSecond) &&
      receiveTcb s ackSecond == some 1 && !decide (Owns (s.tcbs 1) ackSecond)) = true := by
    decide +kernel
  rw [hs] at howns
  simp only [Option.all_some, Bool.and_eq_true, decide_eq_true_eq, beq_iff_eq, Bool.not_eq_true',
    decide_eq_false_iff_not] at howns
  obtain ⟨⟨howner, hgets⟩, hother⟩ := howns
  refine ⟨s, hs, howner, hgets, hother, fun hall => ?_⟩
  exact hother ((hall s ackSecond rfl).1 1 hgets)

/-- One TCB, which owns the segment. -/
def oneConnection : Sys where
  tcbs := fun _ => { tcbInit with
    localAddr := 2
    localPort := 80
    peerAddr := ackSecond.src
    peerPort := 1000
    state := .established }
  list := [0]
  bufUsed := [true]

theorem demuxed_iff_oneConnection : Demuxed oneConnection ackSecond :=
  (demuxed_iff oneConnection ackSecond rfl).mpr fun _ _ _ _ _ _ _ haddr => absurd rfl haddr

end Riot.Tcp
