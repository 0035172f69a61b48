import Riot.Tcp.Opening

/-!
# The handshake

A connection is opened for data only after the peer has acknowledged the SYN. The
state machine rejects an unacceptable acknowledgment in SYN_RCVD with a reset, and
goes on with the segment: a FIN in it is taken. RST and SYN are checked before the
acknowledgment, and a user that closes in SYN_RCVD goes on to FIN_WAIT_1 at once.
-/

namespace Riot.Tcp

open Riot.Lib

/-- The states that claim that the SYN has been acknowledged. -/
def isOpened (state : State) : Bool :=
  state = .established ∨ state = .finWait2 ∨ state = .closeWait ∨ state = .closing ∨
    state = .lastAck ∨ state = .timeWait

/-- The segment acknowledges the SYN. -/
def acksSyn (t : Tcb) (seg : Segment) : Bool :=
  seg.ctl.ack ∧ 0 < ahead t.iss seg.ackNum ∧ ahead t.iss seg.ackNum ≤ ahead t.iss t.sndNxt

/-- A TCB, and whether a segment has acknowledged the SYN of its connection. -/
structure HandshakeHist where
  tcb : Tcb
  synAcked : Bool

/-- The event brings a segment that acknowledges the SYN. -/
def bringsSynAck (t : Tcb) : Event → Bool
  | .rcvdPkt seg => acksSyn t seg
  | _ => false

def handshakeStep (h : HandshakeHist) : TcbEvent → Option HandshakeHist
  | .call c => (fsmCall h.tcb c).map fun w =>
    { tcb := w.tcb
      synAcked := !beginsConnection h.tcb c.event w && (h.synAcked || bringsSynAck h.tcb c.event) }
  | .api a => (apiWrite h.tcb a).map fun t => { h with tcb := t }

def handshakeStart : HandshakeHist := { tcb := tcbInit, synAcked := false }

/-- The connection is open only after the acknowledgment. -/
def OpenedByAck (h : HandshakeHist) : Prop := isOpened h.tcb.state → h.synAcked

/-- In SYN_RCVD, a segment whose ACK is unacceptable changes neither the state nor `rcv_nxt`. -/
def RejectsAck (t : Tcb) : Prop :=
  t.state = .synRcvd → ∀ (c : Call) (seg : Segment) (w : Fsm), c.event = .rcvdPkt seg →
    fsmCall t c = some w → seg.ctl.ack → acksSyn t seg = false →
    w.tcb.state = .synRcvd ∧ w.tcb.rcvNxt = t.rcvNxt

/-- The same, for a segment without FIN and, as far as the state goes, without RST and SYN. -/
def RejectsPlainAck (t : Tcb) : Prop :=
  t.state = .synRcvd → ∀ (c : Call) (seg : Segment) (w : Fsm), c.event = .rcvdPkt seg →
    fsmCall t c = some w → seg.ctl.ack → acksSyn t seg = false → seg.ctl.fin = false →
    (seg.ctl.rst = false → seg.ctl.syn = false → w.tcb.state = .synRcvd) ∧ w.tcb.rcvNxt = t.rcvNxt

/-- The user does not close in SYN_RCVD, and no FIN is taken there from a segment whose ACK is
unacceptable. -/
def HandshakeOk (h : HandshakeHist) : TcbEvent → Prop
  | .call c =>
    match c.event with
    | .callClose => h.tcb.state ≠ .synRcvd
    | .rcvdPkt seg =>
      h.tcb.state = .synRcvd → chkSeqNum h.tcb seg.seqNum (getPayLen seg) = some true →
        seg.ctl.fin → seg.ctl.ack → seg.ctl.rst = false → seg.ctl.syn = false → acksSyn h.tcb seg
    | _ => True
  | .api _ => True

instance (h : HandshakeHist) : (ev : TcbEvent) → Decidable (HandshakeOk h ev)
  | .call c => by
    unfold HandshakeOk
    dsimp only
    split <;> infer_instance
  | .api _ => inferInstanceAs (Decidable True)

/-! ## The invariant -/

/-- Nothing of the connection is acknowledged before the SYN; in all states behind the
handshake it is. -/
structure HandshakeInv (t : Tcb) (acked : Bool) : Prop where
  una : t.state = .synSent ∨ t.state = .synRcvd → t.sndUna = t.iss
  opened : isOpened t.state ∨ t.state = .finWait1 → acked

variable {e : Env} {w w' : Fsm} {t t' : Tcb} {seg : Segment} {acked : Bool} {state : State}

/-- The state of a TCB with the invariant, and the two numbers, are all it depends on. -/
theorem HandshakeInv.congr (h : HandshakeInv t acked) (hstate : t'.state = t.state)
    (huna : t'.sndUna = t.sndUna) (hiss : t'.iss = t.iss) : HandshakeInv t' acked :=
  ⟨by rw [hstate, huna, hiss]; exact h.una, by rw [hstate]; exact h.opened⟩

theorem HandshakeInv.ended (h : t.state = .closed ∨ t.state = .listen) : HandshakeInv t acked := by
  constructor
  · intro hstate
    rcases h with h | h <;> rw [h] at hstate <;> exact absurd hstate (by decide)
  · intro hstate
    rcases h with h | h <;> rw [h] at hstate <;> exact absurd hstate (by decide)

theorem HandshakeInv.toClosed : HandshakeInv (transitionTo e w .closed).tcb acked :=
  HandshakeInv.ended (by rw [transitionTo_state]; exact stateAfter_closed)

theorem HandshakeInv.of_acked (hstate : t.state ≠ .synSent) (hstate' : t.state ≠ .synRcvd) :
    HandshakeInv t true :=
  ⟨fun h => absurd h (not_or.mpr ⟨hstate, hstate'⟩), fun _ => rfl⟩

theorem HandshakeInv.mono (h : HandshakeInv t acked) {acked' : Bool} (himp : acked → acked') :
    HandshakeInv t acked' :=
  ⟨h.una, fun hopen => himp (h.opened hopen)⟩

/-! ## Calls of the user -/

theorem HandshakeInv.callOpen (h : HandshakeInv w.tcb acked) (hcall : fsmCallOpen e w = some w') :
    HandshakeInv w'.tcb acked := by
  rcases fsmCallOpen_cases hcall with ⟨htcb, -⟩ | ⟨-, -, w1, _, _, _, -, htcb⟩ | ⟨-, w1, _, _, _, -, htcb⟩ |
    ⟨-, w1, _, _, _, _, htcb, -, -, rfl⟩
  · rw [htcb]
    exact h
  · rw [htcb]
    exact HandshakeInv.ended (.inr (transitionTo_state_of_ne (by decide)))
  · rw [htcb]
    exact HandshakeInv.toClosed
  · have hstate : w1.tcb.state = .synSent := by rw [htcb]
    constructor
    · intro _
      rw [buildQueueSend_sndUna, buildQueueSend_iss, htcb]
    · rw [buildQueueSend_state, hstate]
      exact fun hopen => absurd hopen (by decide)

theorem HandshakeInv.queueSend {ctl : Ctl} {seqNum ackNum : Seq} {payload : List UInt8}
    (h : HandshakeInv w.tcb acked) :
    HandshakeInv (buildQueueSend e w ctl seqNum ackNum payload).tcb acked :=
  h.congr buildQueueSend_state buildQueueSend_sndUna buildQueueSend_iss

theorem HandshakeInv.callSend {buf : List UInt8} (h : HandshakeInv w.tcb acked) :
    HandshakeInv (fsmCallSend e w buf).tcb acked := by
  unfold fsmCallSend
  dsimp only
  split
  · exact h.queueSend
  · exact h

theorem HandshakeInv.callRecv {len : Nat} (h : HandshakeInv w.tcb acked) :
    HandshakeInv (fsmCallRecv e w len).tcb acked := by
  unfold fsmCallRecv
  dsimp only
  split
  · exact h
  · split
    · rw [sendAck_tcb]
      exact h.congr rfl rfl rfl
    · exact h.congr rfl rfl rfl

/-- Behind an established connection, a close leads to a state behind the handshake. -/
theorem HandshakeInv.closeTransition (h : HandshakeInv w.tcb acked) (hstate : w.tcb.state = .synRcvd → acked) :
    HandshakeInv (callCloseTransition e w).tcb acked := by
  have hopened : ∀ s : State, s ≠ .synSent → s ≠ .synRcvd → s ≠ .closed → acked →
      HandshakeInv (transitionTo e w s).tcb acked := by
    intro s hsent hrcvd hclosed hacked
    have hs := transitionTo_state_of_ne (e := e) (w := w) hclosed
    rw [hacked]
    exact HandshakeInv.of_acked (by rw [hs]; exact hsent) (by rw [hs]; exact hrcvd)
  unfold callCloseTransition
  split
  · exact HandshakeInv.toClosed
  · split
    · rename_i hest
      refine hopened _ (by decide) (by decide) (by decide) ?_
      rcases hest with hs | hs
      · exact hstate hs
      · exact h.opened (by rw [hs]; decide)
    · split
      · rename_i hwait
        exact hopened _ (by decide) (by decide) (by decide) (h.opened (by rw [hwait]; decide))
      · exact h

theorem HandshakeInv.callClose (h : HandshakeInv w.tcb acked) (hstate : w.tcb.state = .synRcvd → acked) :
    HandshakeInv (fsmCallClose e w).tcb acked := by
  unfold fsmCallClose callCloseFin
  split
  · exact HandshakeInv.closeTransition h.queueSend (by rw [buildQueueSend_state]; exact hstate)
  · exact h.closeTransition hstate

theorem HandshakeInv.callAbort : HandshakeInv (fsmCallAbort e w).tcb acked := HandshakeInv.toClosed

/-! ## Received segments -/

theorem HandshakeInv.rcvdListen (h : HandshakeInv w.tcb acked) (hstate : w.tcb.state = .listen)
    (hvalid : (optionParse w seg).2 = true) :
    HandshakeInv (rcvdListen e (optionParse w seg).1 seg).tcb acked := by
  rcases rcvdListen_cases (e := e) hstate hvalid with ⟨_, _, htcb⟩ | ⟨-, w1, htcb, -, heq⟩
  · rw [htcb]
    exact h.congr rfl rfl rfl
  · have hs : ∀ w : Fsm, (transitionTo e w .synRcvd).tcb.state = .synRcvd :=
      fun _ => transitionTo_state_of_ne (by decide)
    rw [heq]
    refine ⟨fun _ => ?_, ?_⟩
    · rw [transitionTo_sndUna, transitionTo_iss, buildQueueSend_sndUna, buildQueueSend_iss, htcb]
      rfl
    · rw [hs]
      exact fun hopen => absurd hopen (by decide)

theorem HandshakeInv.rcvdSynSent (h : HandshakeInv w.tcb acked) (hstate : w.tcb.state = .synSent)
    (hcall : rcvdSynSent e w seg = some w') : HandshakeInv w'.tcb (acked || acksSyn w.tcb seg) := by
  have hmono : HandshakeInv w.tcb (acked || acksSyn w.tcb seg) := h.mono fun ha => by rw [ha]; rfl
  have huna : w.tcb.sndUna = w.tcb.iss := h.una (.inl hstate)
  unfold Tcp.rcvdSynSent at hcall
  split at hcall
  · cases hcall
    split
    · exact hmono
    · rw [buildSend_rst_tcb]
      exact hmono
  · rename_i hacceptable
    split at hcall
    · cases hcall
      split
      · exact HandshakeInv.toClosed
      · exact hmono
    · split at hcall
      · obtain ⟨w1, hack, rfl⟩ := Option.map_eq_some_iff.mp hcall
        -- `snd_una` is beyond `iss` only if the acknowledgment is acceptable
        have hw1 : w1.tcb.iss = w.tcb.iss ∧
            (w1.tcb.sndUna = w.tcb.iss ∨ (w.tcb.iss < w1.tcb.sndUna ∧ acksSyn w.tcb seg = true)) := by
          unfold rcvdSynSentAck at hack
          split at hack
          · rename_i hflag
            obtain ⟨_, _, htcb⟩ := pktAcknowledge_tcb hack
            rw [htcb]
            refine ⟨rfl, .inr ?_⟩
            have hplain := not_or.mp (fun hc => hacceptable ⟨hflag, hc⟩)
            have hlt : w.tcb.iss < seg.ackNum := BitVec.not_le.mp hplain.1
            refine ⟨hlt, ?_⟩
            unfold acksSyn
            rw [decide_eq_true_eq]
            exact ⟨hflag, ahead_of_plain hlt (BitVec.not_lt.mp hplain.2)⟩
          · cases hack
            exact ⟨rfl, .inl huna⟩
        have hfinal : ∀ w2 : Fsm, HandshakeInv w2.tcb (acked || acksSyn w.tcb seg) →
            HandshakeInv { w2.tcb with sndWnd := seg.window, sndWl1 := seg.seqNum, sndWl2 := seg.ackNum }
              (acked || acksSyn w.tcb seg) := fun w2 h2 => h2.congr rfl rfl rfl
        unfold rcvdSynSentAnswer
        refine hfinal _ ?_
        split
        · rename_i hlt
          rcases hw1.2 with heq | ⟨-, hacks⟩
          · rw [hw1.1, heq] at hlt
            exact absurd hlt (BitVec.lt_irrefl _)
          · have hs : ∀ w : Fsm, (transitionTo e w .established).tcb.state = .established :=
              fun _ => transitionTo_state_of_ne (by decide)
            rw [hacks, Bool.or_true]
            exact HandshakeInv.of_acked (by rw [hs]; decide) (by rw [hs]; decide)
        · rename_i hle
          have hs : ∀ w : Fsm, (transitionTo e w .synRcvd).tcb.state = .synRcvd :=
            fun _ => transitionTo_state_of_ne (by decide)
          refine ⟨fun _ => ?_, ?_⟩
          · rw [transitionTo_sndUna, transitionTo_iss, buildQueueSend_sndUna, buildQueueSend_iss]
            rcases hw1.2 with heq | ⟨hlt, -⟩
            · rw [heq, hw1.1]
            · exact absurd (hw1.1.symm ▸ hlt) hle
          · rw [hs]
            exact fun hopen => absurd hopen (by decide)
      · cases hcall
        exact hmono

/-- An acknowledgment in SYN_RCVD that the comparisons accept is one of the SYN. -/
theorem acksSyn_of_isNew (huna : t.sndUna = t.iss) (hack : seg.ctl.ack = true)
    (hnew : ackIsNew t seg.ackNum = some true) : acksSyn t seg = true := by
  obtain ⟨b, hlt, hle⟩ := Option.bind_eq_some_iff.mp hnew
  cases b with
  | false => cases hle
  | true =>
    unfold acksSyn
    rw [decide_eq_true_eq]
    exact ⟨hack, between_of_serial (huna ▸ hlt) hle⟩

theorem opened_of_acksData (h : acksData state = true) : isOpened state = true ∨ state = .finWait1 := by
  cases state <;> first | exact .inr rfl | exact .inl rfl | cases h

theorem HandshakeInv.ackFin (hstate : w.tcb.state ≠ .synSent) (hstate' : w.tcb.state ≠ .synRcvd) :
    HandshakeInv (rcvdAckFin e w).1.tcb true := by
  have hto : ∀ s : State, s ≠ .synSent → s ≠ .synRcvd → s ≠ .closed →
      HandshakeInv (transitionTo e w s).tcb true := by
    intro s hsent hrcvd hclosed
    have hs := transitionTo_state_of_ne (e := e) (w := w) hclosed
    exact HandshakeInv.of_acked (by rw [hs]; exact hsent) (by rw [hs]; exact hrcvd)
  rcases rcvdAckFin_cases (e := e) (w := w) with ⟨heq, -⟩ | ⟨-, -, heq⟩ | ⟨-, -, heq⟩ | ⟨-, -, heq⟩
  · rw [heq]
    exact HandshakeInv.of_acked hstate hstate'
  · rw [heq]
    exact hto _ (by decide) (by decide) (by decide)
  · rw [heq]
    exact hto _ (by decide) (by decide) (by decide)
  · rw [heq]
    exact HandshakeInv.toClosed

theorem HandshakeInv.ack {goesOn : Bool} (h : HandshakeInv w.tcb acked)
    (hcall : rcvdAck e w seg = some (w', goesOn)) : HandshakeInv w'.tcb acked := by
  rcases rcvdAck_cases hcall with ⟨-, rfl, -⟩ | ⟨-, htcb, -⟩ | ⟨hacks, w1, w2, hdata, hwindow, hfin⟩
  · exact h
  · rw [htcb]
    exact h
  · obtain ⟨_, _, _, _, hw2, -⟩ := rcvdAckWindow_tcb hwindow
    have hstate : w2.tcb.state = w.tcb.state := by
      rw [hw2]
      exact rcvdAckData_state hdata
    have hne : w.tcb.state ≠ .synSent ∧ w.tcb.state ≠ .synRcvd := by
      constructor <;> intro hc <;> rw [hc] at hacks <;> cases hacks
    have hw' : w' = (rcvdAckFin e w2).1 := by rw [hfin]
    rw [h.opened (opened_of_acksData hacks), hw']
    exact HandshakeInv.ackFin (by rw [hstate]; exact hne.1) (by rw [hstate]; exact hne.2)

theorem HandshakeInv.payload (h : HandshakeInv w.tcb acked) :
    HandshakeInv (rcvdPayload e w seg).tcb acked := by
  obtain ⟨_, _, _, _, htcb, -⟩ := @rcvdPayload_fields e w seg
  rw [htcb]
  exact h.congr rfl rfl rfl

theorem HandshakeInv.fin (h : HandshakeInv w.tcb acked)
    (hfin : seg.ctl.fin → w.tcb.state = .synRcvd → acked) : HandshakeInv (rcvdFin e w seg).tcb acked := by
  have htake : HandshakeInv (takeFin e w seg).tcb acked := by
    rw [takeFin_tcb]
    exact h.congr rfl rfl rfl
  have hstate : (takeFin e w seg).tcb.state = w.tcb.state := by rw [takeFin_tcb]
  have hto : ∀ s : State, s ≠ .synSent → s ≠ .synRcvd → s ≠ .closed → acked = true →
      HandshakeInv (transitionTo e (takeFin e w seg) s).tcb acked := by
    intro s hsent hrcvd hclosed hacked
    have hs := transitionTo_state_of_ne (e := e) (w := takeFin e w seg) hclosed
    rw [hacked]
    exact HandshakeInv.of_acked (by rw [hs]; exact hsent) (by rw [hs]; exact hrcvd)
  unfold rcvdFin
  split
  · rename_i hflag
    split
    · exact h
    · rcases finTransition_cases (e := e) (w := takeFin e w seg) with
        ⟨hs, heq⟩ | ⟨hs, heq⟩ | ⟨hs, heq⟩ | ⟨-, heq⟩ | ⟨-, heq⟩
      · rw [heq]
        refine hto _ (by decide) (by decide) (by decide) ?_
        rcases hs with hs | hs
        · exact hfin hflag (hstate ▸ hs)
        · exact htake.opened (by rw [hs]; decide)
      · rw [heq]
        refine hto _ (by decide) (by decide) (by decide) (htake.opened ?_)
        rcases hs with ⟨hs, -⟩ | hs <;> rw [hs] <;> decide
      · rw [heq]
        refine hto _ (by decide) (by decide) (by decide) (htake.opened ?_)
        rw [hs.1]
        decide
      · rw [heq]
        exact htake.congr rfl rfl rfl
      · rw [heq]
        exact htake
  · exact h

theorem HandshakeInv.rcvdAcked (h : HandshakeInv w.tcb acked) (hack : seg.ctl.ack = true)
    (hfin : w.tcb.state = .synRcvd → seg.ctl.fin → acked || acksSyn w.tcb seg)
    (hcall : rcvdAcked e w seg = some w') : HandshakeInv w'.tcb (acked || acksSyn w.tcb seg) := by
  have hmono : HandshakeInv w.tcb (acked || acksSyn w.tcb seg) := h.mono fun ha => by rw [ha]; rfl
  obtain ⟨w1, w2, goesOn, hsyn, hack2, rfl⟩ := rcvdAcked_cases hcall
  have h1 : HandshakeInv w1.tcb (acked || acksSyn w.tcb seg) ∧
      (w1.tcb.state = .synRcvd → w.tcb.state = .synRcvd) := by
    rcases rcvdAckSynRcvd_cases hsyn with ⟨-, rfl⟩ | ⟨hstate, -, htcb⟩ | ⟨hstate, hnew, rfl⟩
    · exact ⟨hmono, id⟩
    · rw [htcb]
      exact ⟨hmono, id⟩
    · have hs : ∀ w : Fsm, (transitionTo e w .established).tcb.state = .established :=
        fun _ => transitionTo_state_of_ne (by decide)
      rw [acksSyn_of_isNew (h.una (.inr hstate)) hack hnew, Bool.or_true]
      exact ⟨HandshakeInv.of_acked (by rw [hs]; decide) (by rw [hs]; decide), fun _ => hstate⟩
  have h2 : HandshakeInv w2.tcb (acked || acksSyn w.tcb seg) := h1.1.ack hack2
  have hback : w2.tcb.state = .synRcvd → w1.tcb.state = .synRcvd := by
    intro hstate
    rcases rcvdAck_state hack2 with heq | ⟨-, hs⟩ | ⟨-, hs⟩ | ⟨-, hs⟩
    · rw [← heq]
      exact hstate
    · rw [hs] at hstate
      cases hstate
    · rw [hs] at hstate
      cases hstate
    · rcases hs with hs | hs <;> rw [hs] at hstate <;> cases hstate
  split
  · refine h2.payload.fin fun hflag hstate => ?_
    obtain ⟨_, _, _, _, htcb, -⟩ := @rcvdPayload_fields e w2 seg
    rw [htcb] at hstate
    exact hfin (h1.2 (hback hstate)) hflag
  · exact h2

theorem HandshakeInv.rcvdOther (h : HandshakeInv w.tcb acked)
    (hfin : w.tcb.state = .synRcvd → chkSeqNum w.tcb seg.seqNum (getPayLen seg) = some true →
      seg.ctl.fin → seg.ctl.ack → seg.ctl.rst = false → seg.ctl.syn = false → acked || acksSyn w.tcb seg)
    (hcall : rcvdOther e w seg = some w') : HandshakeInv w'.tcb (acked || acksSyn w.tcb seg) := by
  have hmono : HandshakeInv w.tcb (acked || acksSyn w.tcb seg) := h.mono fun ha => by rw [ha]; rfl
  rcases rcvdOther_cases hcall with ⟨-, htcb⟩ | ⟨hchk, ⟨-, ⟨-, -, rfl⟩ | rfl⟩ | ⟨-, -, w1, -, rfl⟩ |
    ⟨-, -, -, rfl⟩ | ⟨hrst, hsyn, hack, hacked⟩⟩
  · rw [htcb]
    exact hmono
  · exact HandshakeInv.ended (.inr (transitionTo_state_of_ne (by decide)))
  · exact HandshakeInv.toClosed
  · exact HandshakeInv.toClosed
  · exact hmono
  · exact h.rcvdAcked hack (fun hstate hflag => hfin hstate hchk hflag hack hrst hsyn) hacked

/-! ## Calls -/

theorem HandshakeInv.rcvdPkt (h : HandshakeInv w.tcb acked)
    (hfin : w.tcb.state = .synRcvd → chkSeqNum w.tcb seg.seqNum (getPayLen seg) = some true →
      seg.ctl.fin → seg.ctl.ack → seg.ctl.rst = false → seg.ctl.syn = false → acked || acksSyn w.tcb seg)
    (hcall : fsmRcvdPkt e w seg = some w') : HandshakeInv w'.tcb (acked || acksSyn w.tcb seg) := by
  obtain ⟨w1, mss, htcb, hw1, hcases⟩ := fsmRcvdPkt_cases hcall
  have h1 : HandshakeInv w1.tcb acked := by
    rw [htcb]
    exact h.congr rfl rfl rfl
  have hacks : acksSyn w1.tcb seg = acksSyn w.tcb seg := by
    rw [htcb]
    rfl
  have hmono : ∀ {t : Tcb}, HandshakeInv t acked → HandshakeInv t (acked || acksSyn w.tcb seg) :=
    fun ht => ht.mono fun ha => by rw [ha]; rfl
  rcases hcases with rfl | ⟨hstate, hvalid, rfl⟩ | ⟨hstate, -, hsent⟩ | ⟨-, -, hother⟩
  · exact hmono h1
  · rw [hw1]
    exact hmono (h.rcvdListen hstate hvalid)
  · rw [← hacks]
    exact h1.rcvdSynSent (by rw [htcb]; exact hstate) hsent
  · rw [← hacks]
    refine h1.rcvdOther ?_ hother
    rw [hacks, htcb]
    exact hfin

theorem HandshakeInv.call {c : Call} (h : HandshakeInv t acked)
    (hok : acked = false → HandshakeOk { tcb := t, synAcked := acked } (.call c)) (hcall : fsmCall t c = some w) :
    HandshakeInv w.tcb (acked || bringsSynAck t c.event) := by
  obtain ⟨w0, htcb, -, -, hcall⟩ := fsmCall_eq hcall
  have h0 : HandshakeInv w0.tcb acked := by
    rw [htcb]
    exact h.congr rfl rfl rfl
  have hmono : ∀ {b : Bool}, HandshakeInv w.tcb acked → HandshakeInv w.tcb (acked || b) :=
    fun hw => hw.mono fun ha => by rw [ha]; rfl
  obtain ⟨env, list, bufUsed, event⟩ := c
  cases event with
  | callOpen => exact hmono (h0.callOpen hcall)
  | callSend buf =>
    cases hcall
    exact hmono h0.callSend
  | callRecv len =>
    cases hcall
    exact hmono h0.callRecv
  | callClose =>
    cases hcall
    refine hmono (h0.callClose fun hstate => ?_)
    by_contra hacked
    rw [htcb] at hstate
    exact hok (Bool.eq_false_iff.mpr hacked) hstate
  | callAbort =>
    cases hcall
    exact hmono HandshakeInv.callAbort
  | rcvdPkt seg =>
    have hacks : acksSyn w0.tcb seg = acksSyn t seg := by
      rw [htcb]
      rfl
    change HandshakeInv w.tcb (acked || acksSyn t seg)
    rw [← hacks]
    refine h0.rcvdPkt ?_ hcall
    rw [hacks, htcb]
    intro hstate hchk hflag hack hrst hsyn
    cases acked with
    | true => rfl
    | false => exact hok rfl hstate hchk hflag hack hrst hsyn
  | timeoutTimewait =>
    cases hcall
    exact hmono HandshakeInv.toClosed
  | timeoutRetransmit =>
    cases hcall
    obtain ⟨_, heq, -⟩ := fsmTimeoutRetransmit_tcb (w := w0)
    refine hmono ?_
    rw [heq]
    exact h0.congr rfl rfl rfl
  | timeoutConnection =>
    cases hcall
    exact hmono HandshakeInv.toClosed
  | sendProbe =>
    cases hcall
    refine hmono ?_
    rw [fsmSendProbe_tcb]
    exact h0
  | clearRetransmit =>
    cases hcall
    exact hmono (h0.congr clearRetransmit_state clearRetransmit_numbers.sndUna clearRetransmit_numbers.iss)

theorem HandshakeInv.step {h h' : HandshakeHist} {ev : TcbEvent} (hinv : HandshakeInv h.tcb h.synAcked)
    (hok : HandshakeOk h ev) (hstep : handshakeStep h ev = some h') : HandshakeInv h'.tcb h'.synAcked := by
  cases ev with
  | call c =>
    obtain ⟨w, hcall, rfl⟩ := Option.map_eq_some_iff.mp hstep
    have hw := hinv.call (fun _ => hok) hcall
    cases hbegin : beginsConnection h.tcb c.event w with
    | false => exact hw
    | true =>
      -- a new connection has nothing acknowledged, and is in none of the opened states
      refine ⟨hw.una, fun hopen => ?_⟩
      unfold beginsConnection at hbegin
      rw [decide_eq_true_eq] at hbegin
      rcases hbegin with ⟨-, -, hs⟩ | ⟨-, hs⟩ <;> rw [hs] at hopen <;> exact absurd hopen (by decide)
  | api a =>
    obtain ⟨t, happly, rfl⟩ := Option.map_eq_some_iff.mp hstep
    obtain ⟨_, _, _, _, _, _, rfl⟩ := apiWrite_fields happly
    exact hinv.congr rfl rfl rfl

/-- A segment with an unacceptable acknowledgment and without FIN leaves SYN_RCVD as it is. -/
theorem HandshakeInv.rejects (h : HandshakeInv t acked) : RejectsPlainAck t := by
  intro hstate c seg w hev hcall hack hacks hfin
  obtain ⟨w0, htcb0, -, -, hcall⟩ := fsmCall_eq hcall
  rw [hev] at hcall
  obtain ⟨w1, mss, htcb1, -, hcases⟩ := fsmRcvdPkt_cases hcall
  have hstate1 : w1.tcb.state = .synRcvd := by rw [htcb1, htcb0]; exact hstate
  have hrcv1 : w1.tcb.rcvNxt = t.rcvNxt := by rw [htcb1, htcb0]
  have hnew : ackIsNew w1.tcb seg.ackNum ≠ some true := by
    intro hnew
    have hnew' : ackIsNew t seg.ackNum = some true := by
      rw [htcb1, htcb0] at hnew
      exact hnew
    rw [acksSyn_of_isNew (h.una (.inr hstate)) hack hnew'] at hacks
    cases hacks
  have hsame : ∀ {w : Fsm}, w.tcb = w1.tcb →
      (seg.ctl.rst = false → seg.ctl.syn = false → w.tcb.state = .synRcvd) ∧ w.tcb.rcvNxt = t.rcvNxt := by
    intro w hw
    rw [hw]
    exact ⟨fun _ _ => hstate1, hrcv1⟩
  have hstate0 : w0.tcb.state = .synRcvd := by rw [htcb0]; exact hstate
  rcases hcases with rfl | ⟨hs, -⟩ | ⟨hs, -⟩ | ⟨-, -, hother⟩
  · exact hsame rfl
  · rw [hstate0] at hs
    cases hs
  · rw [hstate0] at hs
    cases hs
  · rcases rcvdOther_cases hother with ⟨-, htcb⟩ | ⟨-, ⟨hrst, ⟨-, -, rfl⟩ | rfl⟩ | ⟨-, hsyn, w2, htcb, rfl⟩ |
      ⟨-, -, hnot, -⟩ | ⟨-, -, -, hacked⟩⟩
    · exact hsame htcb
    · exact ⟨fun hc => absurd hrst (by rw [hc]; decide), transitionTo_rcvNxt.trans hrcv1⟩
    · exact ⟨fun hc => absurd hrst (by rw [hc]; decide), transitionTo_rcvNxt.trans hrcv1⟩
    · refine ⟨fun _ hc => absurd hsyn (by rw [hc]; decide), ?_⟩
      rw [transitionTo_rcvNxt, htcb]
      exact hrcv1
    · rw [hack] at hnot
      cases hnot
    · obtain ⟨w2, w3, goesOn, hsyn, hrest, rfl⟩ := rcvdAcked_cases hacked
      have htcb2 : w2.tcb = w1.tcb := by
        rcases rcvdAckSynRcvd_cases hsyn with ⟨hne, -⟩ | ⟨-, -, htcb⟩ | ⟨-, hc, -⟩
        · exact absurd hstate1 hne
        · exact htcb
        · exact absurd hc hnew
      -- SYN_RCVD processes neither the acknowledgment nor the payload
      have hacksData : acksData w2.tcb.state = false := by rw [htcb2, hstate1]; decide
      rcases rcvdAck_cases hrest with ⟨-, rfl, rfl⟩ | ⟨hc, -⟩ | ⟨hc, -⟩
      · rw [if_pos rfl, rcvdFin, if_neg (by rw [hfin]; decide)]
        have hrcvs : rcvsData w3.tcb.state = false := by rw [htcb2, hstate1]; decide
        rw [rcvdPayload, if_neg (by rw [hrcvs]; exact fun hc => absurd hc.2 (by decide))]
        exact hsame htcb2
      · rw [hacksData] at hc
        cases hc
      · rw [hacksData] at hc
        cases hc

/-! ## Runs -/

theorem handshakeStart_inv : HandshakeInv handshakeStart.tcb handshakeStart.synAcked :=
  HandshakeInv.ended (.inl rfl)

/-- **Handshake safety.** As long as the user does not close in SYN_RCVD, and no FIN is taken there
from a segment whose ACK is unacceptable, a connection is open only after a segment has acknowledged
its SYN; and in SYN_RCVD a segment whose ACK is unacceptable, and that carries no FIN, never changes
`rcv_nxt`, and changes the state only by RST or SYN. -/
theorem handshake_safe (es : List TcbEvent) (hok : Along handshakeStep HandshakeOk handshakeStart es) :
    Always handshakeStep (fun h => OpenedByAck h ∧ RejectsPlainAck h.tcb) handshakeStart es :=
  always_of_along (fun _ hinv => ⟨fun hopen => hinv.opened (Or.inl hopen), hinv.rejects⟩)
    (fun _ _ _ hinv hok hstep => HandshakeInv.step hinv hok hstep) es handshakeStart_inv hok

/-- The peer completes the handshake, and closes. -/
def handshakeDone : List TcbEvent :=
  soloSyn ++ [soloCall (.rcvdPkt (peerSegment { ack := true } 5001 101 [])),
    soloCall (.rcvdPkt (peerSegment { fin := true, ack := true } 5001 101 [])), soloCall .callClose]

theorem handshake_safe_done :
    Always handshakeStep (fun h => OpenedByAck h ∧ RejectsPlainAck h.tcb) handshakeStart handshakeDone :=
  handshake_safe handshakeDone (by decide +kernel)

/-- A reset that acknowledges nothing. -/
def bareReset : Segment := peerSegment { rst := true, ack := true } 5001 100 []

/-- A listening TCB in SYN_RCVD goes back to LISTEN when it gets a RST, whatever the segment
acknowledges; and a user that closes in SYN_RCVD gets to CLOSING with a SYN that nobody has
acknowledged. -/
theorem not_handshake :
    (∃ h, run handshakeStep handshakeStart soloSyn = some h ∧ ¬RejectsAck h.tcb) ∧
      ∃ h, run handshakeStep handshakeStart (soloSyn ++ [soloCall .callClose,
        soloCall (.rcvdPkt (peerSegment { fin := true, ack := true } 5001 100 []))]) = some h ∧
        ¬OpenedByAck h := by
  constructor
  · have hend : (run handshakeStep handshakeStart soloSyn).any (fun h =>
        decide (h.tcb.state = .synRcvd ∧ acksSyn h.tcb bareReset = false) &&
          (fsmCall h.tcb (solo (.rcvdPkt bareReset))).any (fun w => decide (w.tcb.state = .listen))) = true := by
      decide +kernel
    obtain ⟨h, hrun, hend⟩ := (Option.any_eq_true _ _).mp hend
    rw [Bool.and_eq_true, decide_eq_true_eq] at hend
    obtain ⟨w, hcall, hlisten⟩ := (Option.any_eq_true _ _).mp hend.2
    refine ⟨h, hrun, fun hrejects => ?_⟩
    have hstate := (hrejects hend.1.1 _ bareReset w rfl hcall rfl hend.1.2).1
    rw [of_decide_eq_true hlisten] at hstate
    cases hstate
  · have hend : (run handshakeStep handshakeStart (soloSyn ++ [soloCall .callClose,
        soloCall (.rcvdPkt (peerSegment { fin := true, ack := true } 5001 100 []))])).any (fun h =>
        decide (isOpened h.tcb.state = true ∧ h.synAcked = false)) = true := by
      decide +kernel
    obtain ⟨h, hrun, hend⟩ := (Option.any_eq_true _ _).mp hend
    have hend := of_decide_eq_true hend
    refine ⟨h, hrun, fun hopened => ?_⟩
    have hacked := hopened hend.1
    rw [hend.2] at hacked
    cases hacked

end Riot.Tcp
