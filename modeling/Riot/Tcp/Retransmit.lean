import Riot.Tcp.Opening

/-!
# Reliable sending

The retransmit queue holds one packet. The state machine takes an empty queue for the
evidence that everything has been acknowledged. A close sends a FIN that is not queued
when the queue is full, and goes on when the FIN could not be built; a timeout of the user
empties the queue; a SYN in SYN_SENT takes a second number for the SYN that is in the
queue already; and what is in the queue in LISTEN or CLOSED keeps the next SYN out of it.
-/

namespace Riot.Tcp

open Riot.Lib Option

/-- The states in which our FIN is under way. -/
def finSent (state : State) : Bool := state = .finWait1 ∨ state = .closing ∨ state = .lastAck

/-- The states that claim that our FIN has been acknowledged. -/
def finDone (state : State) : Bool := state = .finWait2 ∨ state = .timeWait

/-- The segment ends at `snd_nxt`, and begins at or before `snd_una`, which it does not reach. -/
structure Covers (pkt : Segment) (sndUna sndNxt : Seq) : Prop where
  stop : pkt.seqNum + getSegLen pkt = sndNxt
  start : ahead pkt.seqNum sndUna < (getSegLen pkt).toNat
  short : (getSegLen pkt).toNat < 2 ^ 16

/-- The queue holds exactly what has been sent and not been acknowledged. -/
structure Outstanding (t : Tcb) : Prop where
  empty : t.pktRetransmit = none → t.sndUna = t.sndNxt
  full : ∀ pkt, t.pktRetransmit = some pkt → Covers pkt t.sndUna t.sndNxt

/-- A TCB, with the number behind our FIN, once it has been sent, and whether that number has been
acknowledged. -/
structure SendHist where
  tcb : Tcb
  fin : Option Seq
  finAcked : Bool

/-- The number behind the FIN that a close sends. -/
def finBehind (w : Fsm) (old : Option Seq) : Option Seq :=
  match w.sent.find? fun seg => seg.ctl.fin with
  | some seg => some (seg.seqNum + getSegLen seg)
  | none => old

/-- The number behind our FIN after a call. -/
def finAfter (h : SendHist) (event : Event) (w : Fsm) : Option Seq :=
  if beginsConnection h.tcb event w then none
  else if event = .callClose then finBehind w h.fin
  else h.fin

def sendStep (h : SendHist) : TcbEvent → Option SendHist
  | .call c => (fsmCall h.tcb c).map fun w =>
    { tcb := w.tcb
      fin := finAfter h c.event w
      finAcked := !beginsConnection h.tcb c.event w &&
        (h.finAcked || finAfter h c.event w = some w.tcb.sndUna) }
  | .api a => (apiWrite h.tcb a).map fun t => { h with tcb := t }

def sendStart : SendHist := { tcb := tcbInit, fin := none, finAcked := false }

/-- The queue is empty exactly if everything has been acknowledged, and otherwise holds the segment
that has not been; FIN_WAIT_2 and TIME_WAIT are entered only after our FIN was acknowledged. -/
structure Reliable (h : SendHist) : Prop where
  queue : inConnection h.tcb.state → (h.tcb.pktRetransmit = none ↔ h.tcb.sndUna = h.tcb.sndNxt) ∧
    ∀ pkt, h.tcb.pktRetransmit = some pkt → Covers pkt h.tcb.sndUna h.tcb.sndNxt
  fin : finDone h.tcb.state → h.finAcked

/-- A segment that is no reset leads out of LAST_ACK only by acknowledging our FIN. -/
def LeavesLastAck (h : SendHist) : TcbEvent → Prop
  | .call c =>
    match c.event with
    | .rcvdPkt seg => ∀ h', sendStep h (.call c) = some h' → h.tcb.state = .lastAck →
        seg.ctl.rst = false → seg.ctl.syn = false → h'.tcb.state ≠ .lastAck → h'.finAcked
    | _ => True
  | .api _ => True

/-! ## The condition -/

/-- What must hold of the queue before a call. -/
def SendOk (h : SendHist) : TcbEvent → Prop
  | .call c =>
    let w := callStart h.tcb c
    match c.event with
    | .callOpen => OpensActively c.env w → h.tcb.pktRetransmit = none
    | .callClose => h.tcb.state = .synRcvd ∨ h.tcb.state = .established ∨ h.tcb.state = .closeWait →
        h.tcb.pktRetransmit = none ∧ c.env.alloc 0
    | .clearRetransmit => inConnection h.tcb.state → h.tcb.pktRetransmit = none
    | .rcvdPkt seg =>
      (AdmitsSyn c.env w seg → h.tcb.pktRetransmit = none) ∧
        (h.tcb.state = .synSent → seg.ctl.syn → seg.ctl.ack = false → seg.ctl.rst = false →
          (optionParse w seg).2 = true → h.tcb.pktRetransmit = none ∨ c.env.alloc 0 = false)
    | _ => True
  | .api _ => True

/-! ## The invariant -/

/-- The queue is right in every connection; while our FIN is under way, it is what ends at `snd_nxt`. -/
structure SendInv (t : Tcb) (fin : Option Seq) (acked : Bool) : Prop where
  una : t.state = .synSent → t.sndUna = t.iss
  queue : inConnection t.state → Outstanding t
  sent : finSent t.state → fin = some t.sndNxt ∧ t.pktRetransmit ≠ none
  done : finDone t.state → acked = true

variable {e : Env} {w w' : Fsm} {t t' : Tcb} {seg pkt : Segment} {fin : Option Seq} {acked : Bool}
  {state : State} {ctl : Ctl} {seqNum ackNum una nxt : Seq} {payload : List UInt8}

theorem Covers.ne (h : Covers pkt una nxt) : una ≠ nxt := by
  rintro rfl
  have hstart := h.start
  rw [← h.stop, ahead_add_right] at hstart
  exact absurd hstart (lt_irrefl _)

theorem Outstanding.iff (h : Outstanding t) : t.pktRetransmit = none ↔ t.sndUna = t.sndNxt := by
  refine ⟨h.empty, fun heq => ?_⟩
  cases hslot : t.pktRetransmit with
  | none => rfl
  | some pkt => exact absurd heq (h.full pkt hslot).ne

theorem Outstanding.congr (h : Outstanding t) (hslot : t'.pktRetransmit = t.pktRetransmit)
    (huna : t'.sndUna = t.sndUna) (hnxt : t'.sndNxt = t.sndNxt) : Outstanding t' :=
  ⟨by rw [hslot, huna, hnxt]; exact h.empty, by rw [hslot, huna, hnxt]; exact h.full⟩

theorem SendInv.congr (h : SendInv t fin acked) (hstate : t'.state = t.state) (huna : t'.sndUna = t.sndUna)
    (hnxt : t'.sndNxt = t.sndNxt) (hiss : t'.iss = t.iss) (hslot : t'.pktRetransmit = t.pktRetransmit) :
    SendInv t' fin acked where
  una := by rw [hstate, huna, hiss]; exact h.una
  queue := by rw [hstate]; exact fun hc => (h.queue hc).congr hslot huna hnxt
  sent := by rw [hstate, hnxt, hslot]; exact h.sent
  done := by rw [hstate]; exact h.done

theorem SendInv.ended (h : t.state = .closed ∨ t.state = .listen) : SendInv t fin acked := by
  constructor <;> intro hstate <;> rcases h with h | h <;> rw [h] at hstate <;>
    exact absurd hstate (by decide)

theorem SendInv.toClosed : SendInv (transitionTo e w .closed).tcb fin acked :=
  SendInv.ended (by rw [transitionTo_state]; exact stateAfter_closed)

theorem SendInv.open (hqueue : Outstanding t) (hsent : t.state ≠ .synSent) (hfin : finSent t.state = false)
    (hdone : finDone t.state = false) : SendInv t fin acked where
  una := fun hc => absurd hc hsent
  queue := fun _ => hqueue
  sent := fun hc => by rw [hfin] at hc; cases hc
  done := fun hc => by rw [hdone] at hc; cases hc

theorem Outstanding.transition (h : Outstanding w.tcb) (hstate : state ≠ .closed) :
    Outstanding (transitionTo e w state).tcb :=
  h.congr (by rw [transitionTo_slot, if_neg hstate]) transitionTo_sndUna transitionTo_sndNxt

theorem covers_queued (hcon : ctl.syn ∨ ctl.fin ∨ payload ≠ []) (hlen : payload.length < 2 ^ 15) :
    Covers (mkSegment t ctl nxt ackNum payload) nxt (nxt + (seqCon ctl payload.length).setWidth 32) := by
  have hseg : getSegLen (mkSegment t ctl nxt ackNum payload) = (seqCon ctl payload.length).setWidth 32 :=
    getSegLen_mkSegment hlen
  have hcount : (getSegLen (mkSegment t ctl nxt ackNum payload)).toNat =
      payload.length + (if ctl.syn then 1 else 0) + (if ctl.fin then 1 else 0) := by
    rw [hseg, BitVec.toNat_setWidth, seqCon_toNat hlen, Nat.mod_eq_of_lt]
    split <;> split <;> omega
  constructor
  · rw [mkSegment_seqNum, hseg]
  · rw [mkSegment_seqNum, ahead_self, hcount]
    rcases hcon with h | h | h
    · rw [if_pos h]
      omega
    · rw [if_pos h]
      omega
    · have hpos := List.length_pos_iff.mpr h
      omega
  · rw [hcount]
    split <;> split <;> omega

theorem Outstanding.queueSend (hslot : w.tcb.pktRetransmit = none) (huna : w.tcb.sndUna = w.tcb.sndNxt)
    (hrst : ctl.rst = false) (hcon : ctl.syn ∨ ctl.fin ∨ payload ≠ []) (hlen : payload.length < 2 ^ 15) :
    Outstanding (buildQueueSend e w ctl w.tcb.sndNxt ackNum payload).tcb := by
  rw [buildQueueSend_tcb hrst hcon (by omega), if_pos hslot]
  split
  · refine ⟨fun hc => (by cases hc), fun pkt hpkt => ?_⟩
    cases hpkt
    change Covers _ w.tcb.sndUna _
    rw [huna]
    exact covers_queued hcon hlen
  · exact ⟨fun _ => huna, fun pkt hpkt => by rw [hslot] at hpkt; cases hpkt⟩

/-! ## Acknowledgments -/

/-- An acknowledgment empties the queue exactly if it acknowledges everything. -/
theorem Outstanding.acknowledge {ack : Seq} (h : Outstanding w.tcb) (hpos : 0 < ahead w.tcb.sndUna ack)
    (hle : ahead w.tcb.sndUna ack ≤ ahead w.tcb.sndUna w.tcb.sndNxt)
    (hack : pktAcknowledge { w with tcb.sndUna := ack } ack = some w') : Outstanding w'.tcb := by
  unfold pktAcknowledge at hack
  split at hack
  · rename_i hslot
    -- nothing is outstanding, so nothing can be acknowledged
    rw [h.empty hslot, ahead_self] at hle
    rw [h.empty hslot] at hpos
    omega
  · rename_i pkt hslot
    obtain ⟨b, hlt, rfl⟩ := map_eq_some_iff.mp hack
    have hcovers := h.full pkt hslot
    have hshort := hcovers.short
    rw [← hcovers.stop] at hle
    rcases serialLt_last (by omega) hcovers.start hpos hle hlt with ⟨rfl, hstop⟩ | ⟨rfl, hstart⟩
    · exact ⟨fun _ => hstop.trans hcovers.stop, fun pkt hc => by cases hc⟩
    · refine ⟨fun hc => ?_, fun pkt' hpkt' => ?_⟩
      · exact absurd hc (by rw [if_neg (by decide)]; exact fun hc => by rw [hslot] at hc; cases hc)
      · obtain rfl := some.inj (hslot.symm.trans hpkt')
        exact ⟨hcovers.stop, hstart, hshort⟩

/-! ## Calls of the user -/

theorem SendInv.reset {fin' : Option Seq} {acked' : Bool} (h : SendInv t fin acked)
    (hstate : t.state = .synSent ∨ t.state = .synRcvd) : SendInv t fin' acked' where
  una := h.una
  queue := h.queue
  sent := by rcases hstate with hs | hs <;> rw [hs] <;> exact fun hc => absurd hc (by decide)
  done := by rcases hstate with hs | hs <;> rw [hs] <;> exact fun hc => absurd hc (by decide)

theorem SendInv.callOpen (h : SendInv w.tcb fin acked) (hok : OpensActively e w → w.tcb.pktRetransmit = none)
    (hcall : fsmCallOpen e w = some w') : SendInv w'.tcb fin acked := by
  rcases fsmCallOpen_cases hcall with ⟨htcb, -⟩ | ⟨-, -, w1, _, _, _, -, htcb⟩ | ⟨-, w1, _, _, _, -, htcb⟩ |
    ⟨hopens, w1, _, _, _, _, htcb, -, -, rfl⟩
  · rw [htcb]
    exact h
  · rw [htcb]
    exact SendInv.ended (.inr (transitionTo_state_of_ne (by decide)))
  · rw [htcb]
    exact SendInv.toClosed
  · have hstate1 : w1.tcb.state = .synSent := by rw [htcb]
    have hqueue : Outstanding (buildQueueSend e w1 { syn := true } w1.tcb.sndNxt 0 []).tcb :=
      Outstanding.queueSend (by rw [htcb]; exact hok hopens) (by rw [htcb]) rfl (.inl rfl) (by decide)
    have hiss : w1.tcb.sndNxt = w1.tcb.iss := by rw [htcb]
    rw [hiss] at hqueue
    refine ⟨fun _ => ?_, fun _ => hqueue, ?_, ?_⟩
    · rw [buildQueueSend_sndUna, buildQueueSend_iss, htcb]
    · rw [buildQueueSend_state, hstate1]
      exact fun hc => absurd hc (by decide)
    · rw [buildQueueSend_state, hstate1]
      exact fun hc => absurd hc (by decide)

theorem SendInv.mono {acked' : Bool} (h : SendInv t fin acked) (himp : acked → acked') :
    SendInv t fin acked' :=
  ⟨h.una, h.queue, h.sent, fun hdone => himp (h.done hdone)⟩

theorem SendInv.queueSend (h : SendInv w.tcb fin acked) (hslot : w.tcb.pktRetransmit = none)
    (hrst : ctl.rst = false) (hcon : ctl.syn ∨ ctl.fin ∨ payload ≠ []) (hlen : payload.length < 2 ^ 15) :
    SendInv (buildQueueSend e w ctl w.tcb.sndNxt ackNum payload).tcb fin acked := by
  constructor
  · rw [buildQueueSend_state, buildQueueSend_sndUna, buildQueueSend_iss]
    exact h.una
  · rw [buildQueueSend_state]
    exact fun hc => Outstanding.queueSend hslot ((h.queue hc).empty hslot) hrst hcon hlen
  · rw [buildQueueSend_state]
    exact fun hc => absurd hslot (h.sent hc).2
  · rw [buildQueueSend_state]
    exact h.done

theorem SendInv.callSend {buf : List UInt8} (h : SendInv w.tcb fin acked) :
    SendInv (fsmCallSend e w buf).tcb fin acked := by
  unfold fsmCallSend
  dsimp only
  split
  · rename_i hguard
    by_cases hempty : buf.take (min (min (min
        (w.tcb.sndUna + w.tcb.sndWnd.setWidth 32 - w.tcb.sndNxt).toNat configMss) w.tcb.mss.toNat) buf.length) = []
    · rw [hempty, buildQueueSend_nil]
      exact h
    · refine h.queueSend hguard.2.2 rfl (.inr (.inr hempty)) ?_
      rw [List.length_take]
      have hmss : configMss = 1220 := rfl
      omega
  · exact h

theorem SendInv.callRecv {len : Nat} (h : SendInv w.tcb fin acked) :
    SendInv (fsmCallRecv e w len).tcb fin acked := by
  unfold fsmCallRecv
  dsimp only
  split
  · exact h
  · split
    · rw [sendAck_tcb]
      exact h.congr rfl rfl rfl rfl rfl
    · exact h.congr rfl rfl rfl rfl rfl

theorem SendInv.underWay (hqueue : Outstanding t) (hslot : t.pktRetransmit ≠ none)
    (hstate : t.state = .finWait1 ∨ t.state = .lastAck) : SendInv t (some t.sndNxt) acked where
  una := fun hc => by rcases hstate with hs | hs <;> rw [hs] at hc <;> cases hc
  queue := fun _ => hqueue
  sent := fun _ => ⟨rfl, hslot⟩
  done := fun hc => by rcases hstate with hs | hs <;> rw [hs] at hc <;> exact absurd hc (by decide)

theorem SendInv.callClose (h : SendInv w.tcb fin acked) (hsent : w.sent = [])
    (hok : w.tcb.state = .synRcvd ∨ w.tcb.state = .established ∨ w.tcb.state = .closeWait →
      w.tcb.pktRetransmit = none ∧ e.alloc w.builds) :
    SendInv (fsmCallClose e w).tcb (finBehind (fsmCallClose e w) fin) acked := by
  unfold fsmCallClose callCloseFin
  split
  · rename_i hstate
    obtain ⟨hslot, halloc⟩ := hok hstate
    -- the FIN is built and put into the queue
    have hqueue : Outstanding (buildQueueSend e w { fin := true, ack := true } w.tcb.sndNxt w.tcb.rcvNxt []).tcb := by
      refine Outstanding.queueSend hslot ((h.queue ?_).empty hslot) rfl (.inr (.inl rfl)) (by decide)
      rcases hstate with hs | hs | hs <;> rw [hs] <;> decide
    have htcb : (buildQueueSend e w { fin := true, ack := true } w.tcb.sndNxt w.tcb.rcvNxt []).tcb =
        queueTcb w.tcb (mkSegment w.tcb { fin := true, ack := true } w.tcb.sndNxt w.tcb.rcvNxt []) 1 := by
      rw [buildQueueSend_tcb rfl (.inr (.inl rfl)) (by decide), if_pos halloc, if_pos hslot]
      rfl
    have hsent' : (buildQueueSend e w { fin := true, ack := true } w.tcb.sndNxt w.tcb.rcvNxt []).sent =
        [mkSegment w.tcb { fin := true, ack := true } w.tcb.sndNxt w.tcb.rcvNxt []] := by
      rw [buildQueueSend_sent, if_pos halloc, hsent]
      rfl
    generalize buildQueueSend e w { fin := true, ack := true } w.tcb.sndNxt w.tcb.rcvNxt [] = w1
      at hqueue htcb hsent'
    have hstate1 : w1.tcb.state = w.tcb.state := by rw [htcb]; rfl
    have hnxt1 : w1.tcb.sndNxt = w.tcb.sndNxt + 1 := by rw [htcb]; rfl
    have hslot1 : w1.tcb.pktRetransmit ≠ none := by rw [htcb]; exact fun hc => by cases hc
    have hto : ∀ s : State, s = .finWait1 ∨ s = .lastAck →
        SendInv (transitionTo e w1 s).tcb (finBehind (transitionTo e w1 s) fin) acked := by
      intro s hs
      have hne : s ≠ .closed := by rcases hs with rfl | rfl <;> decide
      have hfin : finBehind (transitionTo e w1 s) fin = some (transitionTo e w1 s).tcb.sndNxt := by
        rw [transitionTo_sndNxt, hnxt1, finBehind, transitionTo_sent, hsent']
        rfl
      rw [hfin]
      refine SendInv.underWay (hqueue.transition hne) ?_ ?_
      · rw [transitionTo_slot, if_neg hne]
        exact hslot1
      · rw [transitionTo_state_of_ne hne]
        exact hs
    unfold callCloseTransition
    rw [hstate1]
    rcases hstate with hs | hs | hs <;> rw [hs]
    · exact hto _ (.inl rfl)
    · exact hto _ (.inl rfl)
    · exact hto _ (.inr rfl)
  · rename_i hstate
    unfold callCloseTransition
    split
    · exact SendInv.toClosed
    · rw [if_neg (fun hc => hstate (hc.imp_right .inl)), if_neg (fun hc => hstate (.inr (.inr hc)))]
      rw [finBehind, hsent]
      exact h

theorem SendInv.callAbort : SendInv (fsmCallAbort e w).tcb fin acked := SendInv.toClosed

/-! ## Received segments -/

theorem SendInv.rcvdListen (h : SendInv w.tcb fin acked) (hstate : w.tcb.state = .listen)
    (hvalid : (optionParse w seg).2 = true) (hok : AdmitsSyn e w seg → w.tcb.pktRetransmit = none) :
    SendInv (rcvdListen e (optionParse w seg).1 seg).tcb fin acked := by
  rcases rcvdListen_cases (e := e) hstate hvalid with ⟨_, _, htcb⟩ | ⟨hadmits, w1, htcb, -, heq⟩
  · rw [htcb]
    exact h.congr rfl rfl rfl rfl rfl
  · have hiss : w1.tcb.sndNxt = w1.tcb.iss := by rw [htcb]; rfl
    have hqueue : Outstanding (buildQueueSend e w1 { syn := true, ack := true } w1.tcb.sndNxt
        w1.tcb.rcvNxt []).tcb :=
      Outstanding.queueSend (by rw [htcb]; exact hok hadmits) (by rw [htcb]; rfl) rfl (.inl rfl) (by decide)
    have hs : ∀ w : Fsm, (transitionTo e w .synRcvd).tcb.state = .synRcvd :=
      fun _ => transitionTo_state_of_ne (by decide)
    rw [heq, ← hiss]
    exact SendInv.open (hqueue.transition (by decide)) (by rw [hs]; decide) (by rw [hs]; rfl) (by rw [hs]; rfl)

/-- A SYN without ACK is answered by a SYN+ACK, which must find the queue empty, or not be built. -/
theorem SendInv.synSentAnswer (h : SendInv w.tcb fin acked) (hstate : w.tcb.state = .synSent)
    (hok : w.tcb.pktRetransmit = none ∨ e.alloc w.builds = false) :
    Outstanding (buildQueueSend e w { syn := true, ack := true } w.tcb.iss ackNum []).tcb := by
  have hqueue : Outstanding w.tcb := h.queue (by rw [hstate]; rfl)
  rcases hok with hslot | halloc
  · rw [← h.una hstate, hqueue.empty hslot]
    exact Outstanding.queueSend hslot (hqueue.empty hslot) rfl (.inl rfl) (by decide)
  · rw [buildQueueSend_tcb rfl (.inl rfl) (by decide), if_neg (by rw [halloc]; decide)]
    exact hqueue

theorem SendInv.rcvdSynSent (h : SendInv w.tcb fin acked) (hstate : w.tcb.state = .synSent)
    (hok : seg.ctl.syn → seg.ctl.ack = false → seg.ctl.rst = false →
      w.tcb.pktRetransmit = none ∨ e.alloc w.builds = false)
    (hcall : rcvdSynSent e w seg = some w') : SendInv w'.tcb fin acked := by
  unfold Tcp.rcvdSynSent at hcall
  split at hcall
  · cases hcall
    split
    · exact h
    · rw [buildSend_rst_tcb]
      exact h
  · rename_i hacceptable
    split at hcall
    · cases hcall
      split
      · exact SendInv.toClosed
      · exact h
    · rename_i hrst
      split at hcall
      · rename_i hsyn
        obtain ⟨w1, hack, rfl⟩ := map_eq_some_iff.mp hcall
        have hfinal : ∀ w2 : Fsm, SendInv w2.tcb fin acked →
            SendInv { w2.tcb with sndWnd := seg.window, sndWl1 := seg.seqNum, sndWl2 := seg.ackNum }
              fin acked := fun w2 h2 => h2.congr rfl rfl rfl rfl rfl
        have hto : ∀ (w2 : Fsm) (s : State), Outstanding w2.tcb → s = .established ∨ s = .synRcvd →
            SendInv (transitionTo e w2 s).tcb fin acked := by
          intro w2 s hqueue hs
          have hne : s ≠ .closed := by rcases hs with rfl | rfl <;> decide
          have hs2 : (transitionTo e w2 s).tcb.state = s := transitionTo_state_of_ne hne
          refine SendInv.open (hqueue.transition hne) ?_ ?_ ?_ <;> rw [hs2] <;>
            rcases hs with rfl | rfl <;> decide
        unfold rcvdSynSentAck at hack
        unfold rcvdSynSentAnswer
        refine hfinal _ ?_
        split at hack
        · -- the SYN is acknowledged
          rename_i hflag
          have hplain := not_or.mp (fun hc => hacceptable ⟨hflag, hc⟩)
          have hlt : w.tcb.iss < seg.ackNum := BitVec.not_le.mp hplain.1
          obtain ⟨hpos, hle⟩ := ahead_of_plain hlt (BitVec.not_lt.mp hplain.2)
          rw [← h.una hstate] at hpos hle
          have hqueue : Outstanding w1.tcb := by
            have hw : Outstanding w.tcb := h.queue (by rw [hstate]; rfl)
            exact Outstanding.acknowledge (w := { w with tcb.rcvNxt := seg.seqNum + 1, tcb.irs := seg.seqNum })
              (hw.congr rfl rfl rfl) hpos hle hack
          obtain ⟨_, _, htcb⟩ := pktAcknowledge_tcb hack
          have huna : w1.tcb.iss < w1.tcb.sndUna := by
            rw [htcb]
            exact hlt
          rw [if_pos huna]
          refine hto _ _ ?_ (.inl rfl)
          rw [sendAck_tcb]
          exact hqueue.congr rfl rfl rfl
        · rename_i hflag
          cases hack
          have hnot : ¬w.tcb.iss < w.tcb.sndUna := by
            rw [h.una hstate]
            exact BitVec.lt_irrefl _
          rw [if_neg hnot]
          refine hto _ _ ?_ (.inr rfl)
          refine @SendInv.synSentAnswer _ _ fin _ _ (h.congr rfl rfl rfl rfl rfl) hstate ?_
          exact hok hsyn (Bool.eq_false_iff.mpr hflag) (Bool.eq_false_iff.mpr hrst)
      · cases hcall
        exact h

/-- An acknowledgment that the comparisons take lies behind `snd_una` and not behind `snd_nxt`. -/
theorem between_of_isNew {ack : Seq} (hnew : ackIsNew t ack = some true) :
    0 < ahead t.sndUna ack ∧ ahead t.sndUna ack ≤ ahead t.sndUna t.sndNxt := by
  obtain ⟨b, hlt, hle⟩ := bind_eq_some_iff.mp hnew
  cases b with
  | false => cases hle
  | true => exact between_of_serial hlt hle

theorem SendInv.ackSynRcvd (h : SendInv w.tcb fin acked) (hcall : rcvdAckSynRcvd e w seg = some w') :
    SendInv w'.tcb fin acked := by
  rcases rcvdAckSynRcvd_cases hcall with ⟨-, rfl⟩ | ⟨-, -, htcb⟩ | ⟨hstate, -, rfl⟩
  · exact h
  · rw [htcb]
    exact h
  · have hqueue : Outstanding w.tcb := h.queue (by rw [hstate]; rfl)
    have hs : ∀ w : Fsm, (transitionTo e w .established).tcb.state = .established :=
      fun _ => transitionTo_state_of_ne (by decide)
    refine SendInv.open (Outstanding.transition ?_ (by decide)) ?_ ?_ ?_
    · exact hqueue.congr rfl rfl rfl
    · rw [hs]
      decide
    · rw [hs]
      decide
    · rw [hs]
      decide

/-- While an acknowledgment is processed, the queue may be empty with our FIN acknowledged. -/
structure AckedInv (t : Tcb) (fin : Option Seq) (acked : Bool) : Prop where
  queue : Outstanding t
  sent : finSent t.state → fin = some t.sndNxt
  done : finDone t.state → acked = true

theorem SendInv.ackData {goesOn : Bool} (h : SendInv w.tcb fin acked) (hacks : acksData w.tcb.state = true)
    (hcall : rcvdAckData e w seg = some (w', goesOn)) :
    AckedInv w'.tcb fin acked ∧ w'.tcb.state = w.tcb.state := by
  have hqueue : Outstanding w.tcb := by
    refine h.queue ?_
    cases hs : w.tcb.state <;> rw [hs] at hacks <;> first | rfl | cases hacks
  have hsame : AckedInv w.tcb fin acked := ⟨hqueue, fun hc => (h.sent hc).1, h.done⟩
  rcases rcvdAckData_cases hcall with ⟨-, hnew, hack⟩ | ⟨-, -, rfl⟩ | ⟨-, htcb⟩
  · obtain ⟨hpos, hle⟩ := between_of_isNew hnew
    have hqueue' : Outstanding w'.tcb := hqueue.acknowledge hpos hle hack
    obtain ⟨_, _, htcb⟩ := pktAcknowledge_tcb hack
    have hstate : w'.tcb.state = w.tcb.state := by rw [htcb]
    have hnxt : w'.tcb.sndNxt = w.tcb.sndNxt := by rw [htcb]
    refine ⟨⟨hqueue', ?_, ?_⟩, hstate⟩
    · rw [hstate, hnxt]
      exact hsame.sent
    · rw [hstate]
      exact hsame.done
  · exact ⟨hsame, rfl⟩
  · rw [htcb]
    exact ⟨hsame, rfl⟩

/-- An empty queue leads on from a state in which our FIN is under way, and then the FIN has been
acknowledged. -/
theorem AckedInv.ackFin (h : AckedInv w.tcb fin acked) (hacks : acksData w.tcb.state = true) :
    SendInv (rcvdAckFin e w).1.tcb fin (acked || decide (fin = some (rcvdAckFin e w).1.tcb.sndUna)) ∧
      ((rcvdAckFin e w).1.tcb.state ≠ w.tcb.state → fin = some (rcvdAckFin e w).1.tcb.sndUna) := by
  have hto : ∀ s : State, w.tcb.pktRetransmit = none → finSent w.tcb.state →
      (s = .finWait2 ∨ s = .timeWait ∨ s = .closed) → SendInv (transitionTo e w s).tcb fin
        (acked || decide (fin = some (transitionTo e w s).tcb.sndUna)) ∧
      fin = some (transitionTo e w s).tcb.sndUna := by
    intro s hslot hfin hs
    have huna : fin = some (transitionTo e w s).tcb.sndUna := by
      rw [transitionTo_sndUna, h.queue.empty hslot]
      exact h.sent hfin
    refine ⟨?_, huna⟩
    rw [decide_eq_true huna, Bool.or_true]
    by_cases hclosed : s = .closed
    · rw [hclosed]
      exact SendInv.toClosed
    · have hs' := transitionTo_state_of_ne (e := e) (w := w) hclosed
      refine ⟨?_, fun _ => h.queue.transition hclosed, ?_, fun _ => rfl⟩ <;> rw [hs'] <;>
        rcases hs with rfl | rfl | rfl <;> exact fun hc => absurd hc (by decide)
  rcases rcvdAckFin_cases (e := e) (w := w) with ⟨heq, hne⟩ | ⟨hslot, hs, heq⟩ | ⟨hslot, hs, heq⟩ |
    ⟨hslot, hs, heq⟩
  · rw [heq]
    refine ⟨⟨?_, fun _ => h.queue, fun hc => ⟨h.sent hc, fun hslot => ?_⟩, fun hc => ?_⟩, fun hc => absurd rfl hc⟩
    · intro hc
      rw [hc] at hacks
      cases hacks
    · obtain ⟨h1, h2, h3⟩ := hne hslot
      unfold finSent at hc
      rw [decide_eq_true_eq] at hc
      rcases hc with hc | hc | hc
      · exact h1 hc
      · exact h2 hc
      · exact h3 hc
    · rw [h.done hc]
      rfl
  · rw [heq]
    exact (hto _ hslot (by rw [hs]; rfl) (.inl rfl)).imp_right fun huna _ => huna
  · rw [heq]
    exact (hto _ hslot (by rw [hs]; rfl) (.inr (.inl rfl))).imp_right fun huna _ => huna
  · rw [heq]
    exact (hto _ hslot (by rw [hs]; rfl) (.inr (.inr rfl))).imp_right fun huna _ => huna

theorem SendInv.ack {goesOn : Bool} (h : SendInv w.tcb fin acked)
    (hcall : rcvdAck e w seg = some (w', goesOn)) :
    SendInv w'.tcb fin (acked || decide (fin = some w'.tcb.sndUna)) ∧
      (w'.tcb.state ≠ w.tcb.state → fin = some w'.tcb.sndUna) := by
  have hmono : ∀ {b : Bool}, SendInv w.tcb fin (acked || b) := fun {b} => h.mono fun ha => by rw [ha]; rfl
  rcases rcvdAck_cases hcall with ⟨-, rfl, -⟩ | ⟨-, htcb, -⟩ | ⟨hacks, w1, w2, hdata, hwindow, hfin⟩
  · exact ⟨hmono, fun hc => absurd rfl hc⟩
  · rw [htcb]
    exact ⟨hmono, fun hc => absurd rfl hc⟩
  · obtain ⟨h1, hstate1⟩ := h.ackData hacks hdata
    obtain ⟨_, _, _, _, hw2, -⟩ := rcvdAckWindow_tcb hwindow
    have hstate2 : w2.tcb.state = w.tcb.state := by
      rw [hw2]
      exact hstate1
    have h2 : AckedInv w2.tcb fin acked := by
      rw [hw2]
      exact ⟨h1.queue.congr rfl rfl rfl, h1.sent, h1.done⟩
    have hw' : w' = (rcvdAckFin e w2).1 := by rw [hfin]
    rw [hw', ← hstate2]
    exact h2.ackFin (by rw [hstate2]; exact hacks)

theorem SendInv.afterPayload (h : SendInv w.tcb fin acked) : SendInv (rcvdPayload e w seg).tcb fin acked := by
  obtain ⟨_, _, _, _, htcb, -⟩ := @rcvdPayload_fields e w seg
  rw [htcb]
  exact h.congr rfl rfl rfl rfl rfl

theorem rcvdFin_sndUna : (rcvdFin e w seg).tcb.sndUna = w.tcb.sndUna := by
  have htake : (takeFin e w seg).tcb.sndUna = w.tcb.sndUna := by rw [takeFin_tcb]
  unfold rcvdFin
  split
  · split
    · rfl
    · rcases finTransition_cases (e := e) (w := takeFin e w seg) with
        ⟨-, heq⟩ | ⟨-, heq⟩ | ⟨-, heq⟩ | ⟨-, heq⟩ | ⟨-, heq⟩ <;> rw [heq]
      · exact transitionTo_sndUna.trans htake
      · exact transitionTo_sndUna.trans htake
      · exact transitionTo_sndUna.trans htake
      · exact htake
      · exact htake
  · rfl

theorem SendInv.afterFin (h : SendInv w.tcb fin acked) : SendInv (rcvdFin e w seg).tcb fin acked := by
  have htake : SendInv (takeFin e w seg).tcb fin acked := by
    rw [takeFin_tcb]
    exact h.congr rfl rfl rfl rfl rfl
  unfold rcvdFin
  split
  · split
    · exact h
    · generalize takeFin e w seg = w1 at htake
      rcases finTransition_cases (e := e) (w := w1) with
        ⟨hs, heq⟩ | ⟨hs, heq⟩ | ⟨⟨hs, hslot⟩, heq⟩ | ⟨-, heq⟩ | ⟨-, heq⟩
      · rw [heq]
        have hs' : (transitionTo e w1 .closeWait).tcb.state = .closeWait :=
          transitionTo_state_of_ne (by decide)
        have hqueue : Outstanding w1.tcb := htake.queue (by rcases hs with hs | hs <;> rw [hs] <;> rfl)
        exact SendInv.open (hqueue.transition (by decide)) (by rw [hs']; decide) (by rw [hs']; rfl)
          (by rw [hs']; rfl)
      · rw [heq]
        have hs' : (transitionTo e w1 .timeWait).tcb.state = .timeWait := transitionTo_state_of_ne (by decide)
        have hwait : w1.tcb.state = .finWait2 := by
          rcases hs with ⟨hs, hslot⟩ | hs
          · exact absurd hslot (htake.sent (by rw [hs]; rfl)).2
          · exact hs
        refine ⟨?_, fun _ => (htake.queue (by rw [hwait]; rfl)).transition (by decide), ?_, ?_⟩
        · exact fun hc => by cases hc
        · rw [hs']
          exact fun hc => absurd hc (by decide)
        · exact fun _ => htake.done (by rw [hwait]; rfl)
      · rw [heq]
        have hs' : (transitionTo e w1 .closing).tcb.state = .closing := transitionTo_state_of_ne (by decide)
        refine ⟨?_, fun _ => (htake.queue (by rw [hs]; rfl)).transition (by decide), ?_, ?_⟩
        · exact fun hc => by cases hc
        · exact fun _ => htake.sent (by rw [hs]; rfl)
        · rw [hs']
          exact fun hc => absurd hc (by decide)
      · rw [heq]
        exact htake.congr rfl rfl rfl rfl rfl
      · rw [heq]
        exact htake
  · exact h

theorem lastAck_rcvdFin (hstate : w.tcb.state = .lastAck) :
    (rcvdFin e (rcvdPayload e w seg) seg).tcb.state = .lastAck := by
  obtain ⟨_, _, _, _, htcb, -⟩ := @rcvdPayload_fields e w seg
  generalize rcvdPayload e w seg = w1 at htcb
  have hstate1 : w1.tcb.state = .lastAck := by
    rw [htcb]
    exact hstate
  unfold rcvdFin finTransition
  split
  · split
    · exact hstate1
    · have htake : (takeFin e w1 seg).tcb.state = .lastAck := by
        rw [takeFin_tcb]
        exact hstate1
      rw [htake]
      exact htake
  · exact hstate1

theorem SendInv.rcvdAcked (h : SendInv w.tcb fin acked) (hcall : rcvdAcked e w seg = some w') :
    SendInv w'.tcb fin (acked || decide (fin = some w'.tcb.sndUna)) ∧
      (w.tcb.state = .lastAck → w'.tcb.state ≠ .lastAck → fin = some w'.tcb.sndUna) := by
  obtain ⟨w1, w2, goesOn, hsyn, hack, rfl⟩ := rcvdAcked_cases hcall
  obtain ⟨h2, hleft⟩ := (h.ackSynRcvd hsyn).ack hack
  have hsame : w.tcb.state = .lastAck → w1.tcb.state = .lastAck := by
    intro hstate
    rcases rcvdAckSynRcvd_cases hsyn with ⟨-, rfl⟩ | ⟨-, -, htcb⟩ | ⟨hc, -⟩
    · exact hstate
    · rw [htcb]
      exact hstate
    · rw [hstate] at hc
      cases hc
  split
  · obtain ⟨_, _, _, _, htcb, -⟩ := @rcvdPayload_fields e w2 seg
    have huna : (rcvdFin e (rcvdPayload e w2 seg) seg).tcb.sndUna = w2.tcb.sndUna := by
      rw [rcvdFin_sndUna, htcb]
    rw [huna]
    refine ⟨h2.afterPayload.afterFin, fun hstate hne => hleft fun heq => hne ?_⟩
    exact lastAck_rcvdFin (heq.trans (hsame hstate))
  · exact ⟨h2, fun hstate hne => hleft fun heq => hne (heq.trans (hsame hstate))⟩

theorem SendInv.rcvdOther (h : SendInv w.tcb fin acked) (hcall : rcvdOther e w seg = some w') :
    SendInv w'.tcb fin (acked || decide (fin = some w'.tcb.sndUna)) ∧
      (seg.ctl.rst = false → seg.ctl.syn = false → w.tcb.state = .lastAck → w'.tcb.state ≠ .lastAck →
        fin = some w'.tcb.sndUna) := by
  have hsame : ∀ {w1 : Fsm}, w1.tcb = w.tcb →
      SendInv w1.tcb fin (acked || decide (fin = some w1.tcb.sndUna)) ∧
        (seg.ctl.rst = false → seg.ctl.syn = false → w.tcb.state = .lastAck → w1.tcb.state ≠ .lastAck →
          fin = some w1.tcb.sndUna) := by
    intro w1 htcb
    rw [htcb]
    exact ⟨h.mono fun ha => (by rw [ha]; rfl), fun _ _ hc hne => absurd hc hne⟩
  rcases rcvdOther_cases hcall with ⟨-, htcb⟩ | ⟨-, ⟨hrst, ⟨-, -, rfl⟩ | rfl⟩ | ⟨-, hsyn, w1, -, rfl⟩ |
    ⟨-, -, -, rfl⟩ | ⟨-, -, -, hacked⟩⟩
  · exact hsame htcb
  · exact ⟨SendInv.ended (.inr (transitionTo_state_of_ne (by decide))),
      fun hc => absurd hrst (by rw [hc]; decide)⟩
  · exact ⟨SendInv.toClosed, fun hc => absurd hrst (by rw [hc]; decide)⟩
  · exact ⟨SendInv.toClosed, fun _ hc => absurd hsyn (by rw [hc]; decide)⟩
  · exact hsame rfl
  · obtain ⟨hinv, hleft⟩ := h.rcvdAcked hacked
    exact ⟨hinv, fun _ _ => hleft⟩

theorem SendInv.rcvdPkt (h : SendInv w.tcb fin acked)
    (hlisten : AdmitsSyn e w seg → w.tcb.pktRetransmit = none)
    (hsent : w.tcb.state = .synSent → seg.ctl.syn → seg.ctl.ack = false → seg.ctl.rst = false →
      (optionParse w seg).2 = true → w.tcb.pktRetransmit = none ∨ e.alloc w.builds = false)
    (hcall : fsmRcvdPkt e w seg = some w') :
    SendInv w'.tcb fin (acked || decide (fin = some w'.tcb.sndUna)) ∧
      (seg.ctl.rst = false → seg.ctl.syn = false → w.tcb.state = .lastAck → w'.tcb.state ≠ .lastAck →
        fin = some w'.tcb.sndUna) := by
  obtain ⟨w1, mss, htcb, hw1, hcases⟩ := fsmRcvdPkt_cases hcall
  have h1 : SendInv w1.tcb fin acked := by
    rw [htcb]
    exact h.congr rfl rfl rfl rfl rfl
  have hmono : ∀ {t : Tcb} {b : Bool}, SendInv t fin acked → SendInv t fin (acked || b) :=
    fun ht => ht.mono fun ha => by rw [ha]; rfl
  rcases hcases with rfl | ⟨hstate, hvalid, rfl⟩ | ⟨hstate, hvalid, hsyn⟩ | ⟨-, -, hother⟩
  · refine ⟨hmono h1, fun _ _ hc hne => absurd ?_ hne⟩
    rw [htcb]
    exact hc
  · rw [hw1]
    exact ⟨hmono (h.rcvdListen hstate hvalid hlisten), fun _ _ hc => by rw [hstate] at hc; cases hc⟩
  · refine ⟨hmono (h1.rcvdSynSent (by rw [htcb]; exact hstate) (fun hs ha hr => ?_) hsyn),
      fun _ _ hc => by rw [hstate] at hc; cases hc⟩
    rw [hw1]
    exact hsent hstate hs ha hr hvalid
  · have hstate : w1.tcb.state = w.tcb.state := by rw [htcb]
    rw [← hstate]
    exact h1.rcvdOther hother

/-! ## Calls -/

theorem SendInv.call {c : Call} (h : SendInv t fin acked)
    (hok : SendOk { tcb := t, fin := fin, finAcked := acked } (.call c)) (hcall : fsmCall t c = some w) :
    SendInv w.tcb (if c.event = .callClose then finBehind w fin else fin)
      (acked || decide ((if c.event = .callClose then finBehind w fin else fin) = some w.tcb.sndUna)) := by
  have h0 : SendInv (callStart t c).tcb fin acked := h.congr rfl rfl rfl rfl rfl
  have hmono : ∀ {t : Tcb} {fin : Option Seq} {b : Bool}, SendInv t fin acked → SendInv t fin (acked || b) :=
    fun ht => ht.mono fun ha => by rw [ha]; rfl
  change fsmUnprotected c.env (callStart t c) c.event = some w at hcall
  dsimp only [SendOk] at hok
  generalize hw0 : callStart t c = w0 at *
  have hslot0 : w0.tcb.pktRetransmit = t.pktRetransmit := by rw [← hw0]; rfl
  have hstate0 : w0.tcb.state = t.state := by rw [← hw0]; rfl
  have hbuilds0 : w0.builds = 0 := by rw [← hw0]; rfl
  have hsent0 : w0.sent = [] := by rw [← hw0]; rfl
  rw [← hslot0, ← hstate0, ← hbuilds0] at hok
  obtain ⟨env, list, bufUsed, event⟩ := c
  cases event with
  | callOpen => exact hmono (h0.callOpen hok hcall)
  | callSend buf =>
    cases hcall
    exact hmono h0.callSend
  | callRecv len =>
    cases hcall
    exact hmono h0.callRecv
  | callClose =>
    cases hcall
    exact hmono (h0.callClose hsent0 hok)
  | callAbort =>
    cases hcall
    exact hmono SendInv.callAbort
  | rcvdPkt seg => exact (h0.rcvdPkt hok.1 hok.2 hcall).1
  | timeoutTimewait =>
    cases hcall
    exact hmono SendInv.toClosed
  | timeoutRetransmit =>
    cases hcall
    obtain ⟨_, heq, -⟩ := fsmTimeoutRetransmit_tcb (w := w0)
    refine hmono ?_
    rw [heq]
    exact h0.congr rfl rfl rfl rfl rfl
  | timeoutConnection =>
    cases hcall
    exact hmono SendInv.toClosed
  | sendProbe =>
    cases hcall
    refine hmono ?_
    rw [fsmSendProbe_tcb]
    exact h0
  | clearRetransmit =>
    cases hcall
    refine hmono ?_
    cases hconn : inConnection w0.tcb.state with
    | true =>
      refine h0.congr clearRetransmit_state clearRetransmit_numbers.sndUna clearRetransmit_numbers.sndNxt
        clearRetransmit_numbers.iss ?_
      rw [clearRetransmit_slot]
      exact (hok hconn).symm
    | false =>
      refine SendInv.ended ?_
      rw [clearRetransmit_state]
      cases hs : w0.tcb.state <;> rw [hs] at hconn <;> first | exact .inl rfl | exact .inr rfl | cases hconn

theorem finAfter_eq {h : SendHist} {event : Event} (hbegin : beginsConnection h.tcb event w = false) :
    finAfter h event w = if event = .callClose then finBehind w h.fin else h.fin := by
  rw [finAfter, hbegin, if_neg (by decide)]

theorem SendInv.step {h h' : SendHist} {ev : TcbEvent} (hinv : SendInv h.tcb h.fin h.finAcked)
    (hok : SendOk h ev) (hstep : sendStep h ev = some h') : SendInv h'.tcb h'.fin h'.finAcked := by
  cases ev with
  | call c =>
    obtain ⟨w, hcall, rfl⟩ := map_eq_some_iff.mp hstep
    have hw := hinv.call hok hcall
    cases hbegin : beginsConnection h.tcb c.event w with
    | false =>
      rw [finAfter_eq hbegin]
      exact hw
    | true =>
      -- a new connection has sent no FIN, and is in a state that asks for none
      refine hw.reset ?_
      unfold beginsConnection at hbegin
      rw [decide_eq_true_eq] at hbegin
      rcases hbegin with ⟨-, -, hs⟩ | ⟨-, hs⟩
      · exact .inl hs
      · exact .inr hs
  | api a =>
    obtain ⟨t, happly, rfl⟩ := map_eq_some_iff.mp hstep
    obtain ⟨_, _, _, _, _, _, rfl⟩ := apiWrite_fields happly
    exact hinv.congr rfl rfl rfl rfl rfl

theorem SendInv.reliable {h : SendHist} (hinv : SendInv h.tcb h.fin h.finAcked) : Reliable h :=
  ⟨fun hconn => ⟨(hinv.queue hconn).iff, (hinv.queue hconn).full⟩, hinv.done⟩

theorem SendInv.leavesLastAck {h h' : SendHist} {ev : TcbEvent} (hinv : SendInv h.tcb h.fin h.finAcked)
    (hok : SendOk h ev) (hstep : sendStep h ev = some h') : LeavesLastAck h ev := by
  cases ev with
  | api a => trivial
  | call c =>
    obtain ⟨env, list, bufUsed, event⟩ := c
    cases event with
    | rcvdPkt seg =>
      intro h' hstep' hstate hrst hsyn hleft
      obtain ⟨w, hcall, rfl⟩ := map_eq_some_iff.mp hstep'
      have hinv0 : SendInv (callStart h.tcb ⟨env, list, bufUsed, .rcvdPkt seg⟩).tcb h.fin h.finAcked :=
        hinv.congr rfl rfl rfl rfl rfl
      have hfin : h.fin = some w.tcb.sndUna := (hinv0.rcvdPkt hok.1 hok.2 hcall).2 hrst hsyn hstate hleft
      have hbegin : beginsConnection h.tcb (.rcvdPkt seg) w = false := by
        unfold beginsConnection
        rw [hstate]
        exact decide_eq_false (by rintro (⟨hc, -⟩ | ⟨hc, -⟩) <;> cases hc)
      rw [finAfter_eq hbegin, hbegin, if_neg (fun hc => by cases hc), decide_eq_true hfin]
      exact Bool.or_true _
    | _ => trivial

/-! ## Runs -/

instance (h : SendHist) : (ev : TcbEvent) → Decidable (SendOk h ev)
  | .call c => by
    unfold SendOk
    dsimp only
    refine c.event.casesOn ?_ ?_ ?_ ?_ ?_ ?_ ?_ ?_ ?_ ?_ ?_ <;> intros <;> infer_instance
  | .api _ => inferInstanceAs (Decidable True)

theorem sendStart_inv : SendInv sendStart.tcb sendStart.fin sendStart.finAcked := SendInv.ended (.inl rfl)

/-- **Reliable sending.** As long as a close finds the queue empty and gets its FIN built, the queue is
not cleared with a segment in it, a new connection finds it empty, and a SYN without ACK in SYN_SENT is
not answered over the SYN in it, the queue of every connection holds exactly what has been sent and not
been acknowledged, and FIN_WAIT_2, TIME_WAIT and, from LAST_ACK, CLOSED are entered only after our FIN has
been acknowledged. -/
theorem reliable_sending (es : List TcbEvent) (hok : Along sendStep SendOk sendStart es) :
    Always sendStep Reliable sendStart es ∧ Along sendStep LeavesLastAck sendStart es :=
  ⟨always_of_along (fun _ => SendInv.reliable) (fun _ _ _ hinv hok hstep => SendInv.step hinv hok hstep) es
      sendStart_inv hok,
    along_of_along (I := fun h => SendInv h.tcb h.fin h.finAcked)
      (fun _ _ _ hinv hok hstep => SendInv.leavesLastAck hinv hok hstep)
      (fun _ _ _ hinv hok hstep => SendInv.step hinv hok hstep) es sendStart_inv hok⟩

/-- The connection of the listening TCB, with three bytes on the way. -/
def soloSend : List TcbEvent :=
  soloListen ++ [soloCall (.rcvdPkt { peerSegment { syn := true } 5000 0 [] with options := mssOption }),
    soloCall (.rcvdPkt (peerSegment { ack := true } 5001 101 [])), soloCall (.callSend [1, 2, 3])]

/-- The bytes are acknowledged, and the connection is closed from here. -/
def soloFin : List TcbEvent :=
  soloSend ++ [soloCall (.rcvdPkt (peerSegment { ack := true } 5001 104 [])), soloCall .callClose,
    soloCall (.rcvdPkt (peerSegment { ack := true } 5001 105 [])),
    soloCall (.rcvdPkt (peerSegment { fin := true, ack := true } 5001 105 []))]

theorem reliable_sending_soloFin :
    Always sendStep Reliable sendStart soloFin ∧ Along sendStep LeavesLastAck sendStart soloFin :=
  reliable_sending soloFin (by decide +kernel)

/-- A close while bytes are under way sends a FIN that is not kept; the acknowledgment of the bytes
leads to FIN_WAIT_2. -/
theorem not_reliable : ∃ h, run sendStep sendStart (soloSend ++ [soloCall .callClose,
    soloCall (.rcvdPkt (peerSegment { ack := true } 5001 104 []))]) = some h ∧ ¬Reliable h := by
  have hend : (run sendStep sendStart (soloSend ++ [soloCall .callClose,
      soloCall (.rcvdPkt (peerSegment { ack := true } 5001 104 []))])).any (fun h =>
      decide (finDone h.tcb.state = true ∧ h.finAcked = false)) = true := by
    decide +kernel
  obtain ⟨h, hrun, hend⟩ := (Option.any_eq_true _ _).mp hend
  have hend := of_decide_eq_true hend
  refine ⟨h, hrun, fun hreliable => ?_⟩
  have hacked := hreliable.fin hend.1
  rw [hend.2] at hacked
  cases hacked

end Riot.Tcp
