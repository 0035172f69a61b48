import Riot.Tcp.Shift

/-!
# Received segments with shifted numbers

A segment of the peer is shifted in both of its numbers, by `kr` and by `ks`. Each step of
`_fsm_rcvd_pkt` does the same on the shifted numbers, where both come to an end; in SYN_SENT
the plain comparisons ask in addition for numbers that do not go around.
-/

namespace Riot.Tcp

open Riot.Lib

variable {ks kr : Seq} {e : Env} {w w' w1 w1' : Fsm} {seg : Segment} {t : Tcb} {state : State} {ctl : Ctl}
  {seqNum ackNum ackNum' : Seq} {payload : List UInt8}

/-! ## LISTEN -/

theorem isHandled_image {sent : List Segment} :
    isHandled (e.shift ks) (w.image ks kr sent) (shiftIn ks kr seg) = isHandled e w seg := by
  refine List.any_congr rfl fun id => ?_
  unfold tcbAt
  by_cases hid : id = e.me
  · rw [if_pos hid, if_pos (show id = (e.shift ks).me from hid)]
    rfl
  · rw [if_neg hid, if_neg (show ¬id = (e.shift ks).me from hid)]
    rfl

theorem listenTcb_shift {iss : Seq} :
    listenTcb (t.shift ks kr) (iss + ks) (shiftIn ks kr seg) = (listenTcb t iss seg).shift ks kr := by
  have hrcv : seg.seqNum + kr + 1 = seg.seqNum + 1 + kr := add_right_comm _ _ _
  unfold listenTcb Tcb.shift shiftIn
  rw [hrcv]

theorem visible_mkReset (hack : seg.ctl.ack = true) :
    visible (mkReset (shiftIn ks kr seg)) = visible (shiftOut ks kr (mkReset seg)) := by
  unfold mkReset shiftIn shiftOut visible
  simp [hack]

theorem Shifted.rcvdListen (h : Shifted ks kr w w') :
    Shifted ks kr (rcvdListen e w seg) (rcvdListen (e.shift ks) w' (shiftIn ks kr seg)) := by
  have hctl : (shiftIn ks kr seg).ctl = seg.ctl := rfl
  have hhandled : isHandled (e.shift ks) w' (shiftIn ks kr seg) = isHandled e w seg := by
    obtain ⟨sent, rfl, -⟩ := h
    exact isHandled_image
  have halloc : (e.shift ks).alloc w'.builds = e.alloc w.builds := by
    obtain ⟨sent, rfl, -⟩ := h
    rfl
  unfold Tcp.rcvdListen pktBuildResetFromPkt
  rw [hctl, hhandled, halloc]
  split
  · exact h
  · split
    · rename_i hack
      refine h.builds.pktSend ?_
      split
      · exact congrArg some (visible_mkReset hack)
      · rfl
    · split
      · split
        · exact h
        · split
          · rename_i hlink
            rw [if_pos (show addrIsLinkLocal (shiftIn ks kr seg).src ∧ (shiftIn ks kr seg).netif = none from hlink)]
            refine h.of_image (fun _ heq => ?_) rfl
            rw [heq]
            rfl
          · rename_i hlink
            rw [if_neg (show ¬(addrIsLinkLocal (shiftIn ks kr seg).src ∧ (shiftIn ks kr seg).netif = none) from hlink)]
            have hfill : listenTcb w'.tcb (e.shift ks).iss (shiftIn ks kr seg) =
                (listenTcb w.tcb e.iss seg).shift ks kr := by
              rw [h.tcb]
              exact listenTcb_shift
            rw [hfill]
            exact (h.setTcb rfl).sendSynAck.transitionTo
      · exact h

/-! ## SYN_SENT -/

theorem Shifted.pktAcknowledge (h : Shifted ks kr w w') :
    Agree (Shifted ks kr) (pktAcknowledge w ackNum) (pktAcknowledge w' (ackNum + ks)) := by
  have hslot : w'.tcb.pktRetransmit = w.tcb.pktRetransmit.map (shiftOut ks kr) := by rw [h.tcb]; rfl
  unfold Tcp.pktAcknowledge
  rw [hslot]
  cases w.tcb.pktRetransmit with
  | none => exact Agree.pure h
  | some pkt =>
    have hlast : (shiftOut ks kr pkt).seqNum + getSegLen (shiftOut ks kr pkt) - 1 =
        pkt.seqNum + getSegLen pkt - 1 + ks := by
      show pkt.seqNum + ks + getSegLen pkt - 1 = _
      rw [add_right_comm, sub_add_eq_add_sub]
    dsimp only [Option.map_some]
    rw [hlast]
    refine lss_agree.map fun b b' hb => ?_
    rw [hb]
    split
    · refine h.of_image (fun _ heq => ?_) rfl
      rw [heq]
      rfl
    · exact h

/-- The plain comparisons of SYN_SENT find the acknowledgment between the initial sequence number
and the next one exactly if it is there, as long as the numbers in between do not go around. -/
theorem plain_iff_ahead {iss ack nxt : Seq}
    (hplain : 0 < ahead iss ack → ahead iss ack ≤ ahead iss nxt → iss ≤ nxt) :
    ack ≤ iss ∨ nxt < ack ↔ ¬(0 < ahead iss ack ∧ ahead iss ack ≤ ahead iss nxt) := by
  constructor
  · intro hout hin
    have hle : iss.toNat ≤ nxt.toNat := hplain hin.1 hin.2
    have hnxt : ahead iss nxt = nxt.toNat - iss.toNat := BitVec.toNat_sub_of_le (BitVec.le_def.mpr hle)
    have hlt : ahead iss ack < 2 ^ 32 := ahead_lt
    have hack : ack.toNat = iss.toNat + ahead iss ack := by
      have hsum : (iss + BitVec.ofNat 32 (ahead iss ack)).toNat = ack.toNat := by rw [add_ahead]
      rw [BitVec.toNat_add, BitVec.toNat_ofNat, Nat.mod_eq_of_lt hlt] at hsum
      rw [← hsum]
      refine Nat.mod_eq_of_lt ?_
      omega
    rw [BitVec.le_def, BitVec.lt_def] at hout
    omega
  · intro hin
    by_contra hout
    rw [not_or, BitVec.not_le, BitVec.not_lt] at hout
    exact hin (ahead_of_plain hout.1 hout.2)

theorem Shifted.rcvdSynSentAck (h : Shifted ks kr w w') :
    Agree (Shifted ks kr) (rcvdSynSentAck w seg) (rcvdSynSentAck w' (shiftIn ks kr seg)) := by
  have hctl : (shiftIn ks kr seg).ctl = seg.ctl := rfl
  have hrcv : (shiftIn ks kr seg).seqNum + 1 = seg.seqNum + 1 + kr := add_right_comm _ _ _
  unfold Tcp.rcvdSynSentAck
  rw [hctl, hrcv]
  split
  · refine Shifted.pktAcknowledge (h.of_image (fun _ heq => ?_) rfl)
    rw [heq]
    rfl
  · refine Agree.pure (h.of_image (fun _ heq => ?_) rfl)
    rw [heq]
    rfl

theorem Shifted.rcvdSynSentAnswer (h : Shifted ks kr w w')
    (hanswer : w'.tcb.iss < w'.tcb.sndUna ↔ w.tcb.iss < w.tcb.sndUna) :
    Shifted ks kr (rcvdSynSentAnswer e w seg) (rcvdSynSentAnswer (e.shift ks) w' (shiftIn ks kr seg)) := by
  have hdst : (shiftIn ks kr seg).dst = seg.dst := rfl
  have haddr : Shifted ks kr { w with tcb.localAddr := seg.dst } { w' with tcb.localAddr := seg.dst } :=
    h.of_image (fun _ heq => by rw [heq]; rfl) rfl
  have hwnd : ∀ {v v' : Fsm}, Shifted ks kr v v' →
      Shifted ks kr { v with tcb.sndWnd := seg.window, tcb.sndWl1 := seg.seqNum, tcb.sndWl2 := seg.ackNum }
        { v' with
          tcb.sndWnd := (shiftIn ks kr seg).window
          tcb.sndWl1 := (shiftIn ks kr seg).seqNum
          tcb.sndWl2 := (shiftIn ks kr seg).ackNum } := by
    intro v v' hv
    refine hv.of_image (fun _ heq => ?_) rfl
    rw [heq]
    rfl
  unfold Tcp.rcvdSynSentAnswer
  simp only [hanswer]
  refine hwnd ?_
  split
  · exact haddr.sendAck.transitionTo
  · exact haddr.sendSynAck.transitionTo

theorem rcvdSynSentAck_tcb (hcall : rcvdSynSentAck w seg = some w1) : w1.tcb.iss = w.tcb.iss ∧
    w1.tcb.sndUna = if seg.ctl.ack then seg.ackNum else w.tcb.sndUna := by
  unfold Tcp.rcvdSynSentAck at hcall
  split at hcall
  · rename_i hack
    rw [if_pos hack]
    obtain ⟨_, _, htcb⟩ := pktAcknowledge_tcb hcall
    rw [htcb]
    exact ⟨rfl, rfl⟩
  · rename_i hack
    rw [if_neg hack]
    cases hcall
    exact ⟨rfl, rfl⟩

/-- If SYN_SENT takes the acknowledgment for one of the SYN, the numbers from `iss` to `snd_nxt` do
not go around. -/
def SynUnwrapped (t : Tcb) (seg : Segment) : Prop :=
  seg.ctl.ack → 0 < ahead t.iss seg.ackNum → ahead t.iss seg.ackNum ≤ ahead t.iss t.sndNxt → t.iss ≤ t.sndNxt

instance (t : Tcb) (seg : Segment) : Decidable (SynUnwrapped t seg) := inferInstanceAs (Decidable (_ → _))

theorem Shifted.rcvdSynSent (h : Shifted ks kr w w') (huna : w.tcb.sndUna = w.tcb.iss)
    (hplain : SynUnwrapped w.tcb seg) (hplain' : SynUnwrapped w'.tcb (shiftIn ks kr seg)) :
    Agree (Shifted ks kr) (rcvdSynSent e w seg) (rcvdSynSent (e.shift ks) w' (shiftIn ks kr seg)) := by
  have hctl : (shiftIn ks kr seg).ctl = seg.ctl := rfl
  have hack : (shiftIn ks kr seg).ackNum = seg.ackNum + ks := rfl
  have hiss : w'.tcb.iss = w.tcb.iss + ks := by rw [h.tcb]; rfl
  have hnxt : w'.tcb.sndNxt = w.tcb.sndNxt + ks := by rw [h.tcb]; rfl
  have huna' : w'.tcb.sndUna = w'.tcb.iss := by rw [h.tcb]; exact congrArg (· + ks) huna
  have hrefused : (seg.ctl.ack ∧ ((shiftIn ks kr seg).ackNum ≤ w'.tcb.iss ∨ w'.tcb.sndNxt < (shiftIn ks kr seg).ackNum)) ↔
      (seg.ctl.ack ∧ (seg.ackNum ≤ w.tcb.iss ∨ w.tcb.sndNxt < seg.ackNum)) := by
    refine and_congr_right fun hflag => ?_
    rw [plain_iff_ahead (hplain hflag), plain_iff_ahead (hplain' hflag), hiss, hnxt, hack, ahead_add_add,
      ahead_add_add]
  unfold Tcp.rcvdSynSent
  simp only [hctl, hrefused]
  split
  · refine Agree.pure ?_
    split
    · exact h
    · exact h.buildSend fun hc => (by cases hc)
  · rename_i htaken
    have htaken' := fun hc => htaken (hrefused.mp hc)
    split
    · refine Agree.pure ?_
      split
      · exact h.transitionTo
      · exact h
    · split
      · intro w2 w2' h2 h2'
        obtain ⟨w1, h1, rfl⟩ := Option.map_eq_some_iff.mp h2
        obtain ⟨w1', h1', rfl⟩ := Option.map_eq_some_iff.mp h2'
        obtain ⟨hiss1, huna1⟩ := rcvdSynSentAck_tcb h1
        obtain ⟨hiss1', huna1'⟩ := rcvdSynSentAck_tcb h1'
        refine (h.rcvdSynSentAck w1 w1' h1 h1').rcvdSynSentAnswer ?_
        rw [hiss1, hiss1', huna1, huna1', hctl]
        split
        · -- Both acknowledge the SYN.
          rename_i hflag
          have hlater : ∀ {iss ack nxt : Seq}, ¬(seg.ctl.ack ∧ (ack ≤ iss ∨ nxt < ack)) → iss < ack :=
            fun hnot => BitVec.not_le.mp fun hle => hnot ⟨hflag, .inl hle⟩
          exact iff_of_true (hlater htaken') (hlater htaken)
        · rw [huna, huna']
          exact iff_of_false (BitVec.lt_irrefl _) (BitVec.lt_irrefl _)
      · exact Agree.pure h

/-! ## The other states -/

/-- The states are shifted, and both segments are processed further, or none of them is. -/
def ShiftedGoesOn (ks kr : Seq) (r r' : Fsm × Bool) : Prop := Shifted ks kr r.1 r'.1 ∧ r.2 = r'.2

theorem Shifted.rcvdAckSynRcvd (h : Shifted ks kr w w') :
    Agree (Shifted ks kr) (rcvdAckSynRcvd e w seg) (rcvdAckSynRcvd (e.shift ks) w' (shiftIn ks kr seg)) := by
  have hstate : w'.tcb.state = w.tcb.state := by rw [h.tcb]; rfl
  have htcb : w'.tcb = w.tcb.shift ks kr := h.tcb
  unfold Tcp.rcvdAckSynRcvd
  rw [hstate]
  split
  · have hnew : Agree Eq (ackIsNew w.tcb seg.ackNum) (ackIsNew w'.tcb (shiftIn ks kr seg).ackNum) := by
      rw [htcb]
      exact ackIsNew_agree
    refine hnew.map fun b b' hb => ?_
    rw [hb]
    split
    · refine Shifted.transitionTo (h.of_image (fun _ heq => ?_) rfl)
      rw [heq]
      rfl
    · exact h.buildSend fun hc => (by cases hc)
  · exact Agree.pure h

theorem Shifted.rcvdAckData (h : Shifted ks kr w w') :
    Agree (ShiftedGoesOn ks kr) (rcvdAckData e w seg) (rcvdAckData (e.shift ks) w' (shiftIn ks kr seg)) := by
  have hnew : Agree Eq (ackIsNew w.tcb seg.ackNum) (ackIsNew w'.tcb (shiftIn ks kr seg).ackNum) := by
    rw [h.tcb]
    exact ackIsNew_agree
  have hunsent : Agree Eq (lss32Bit w.tcb.sndNxt seg.ackNum)
      (lss32Bit w'.tcb.sndNxt (shiftIn ks kr seg).ackNum) := by
    rw [h.tcb]
    exact lss_agree
  have hack : (shiftIn ks kr seg).ackNum = seg.ackNum + ks := rfl
  refine hnew.bind fun b b' hb => ?_
  rw [hb]
  split
  · have htaken : Shifted ks kr { w with tcb.sndUna := seg.ackNum }
        { w' with tcb.sndUna := seg.ackNum + ks } := by
      refine h.of_image (fun _ heq => ?_) rfl
      rw [heq]
      rfl
    exact htaken.pktAcknowledge.map fun _ _ hw => ⟨hw, rfl⟩
  · refine hunsent.map fun c c' hc => ?_
    rw [hc]
    split
    · exact ⟨h.sendAck, rfl⟩
    · exact ⟨h, rfl⟩

theorem Shifted.rcvdAckWindow (h : Shifted ks kr w w') :
    Agree (Shifted ks kr) (rcvdAckWindow w seg) (rcvdAckWindow w' (shiftIn ks kr seg)) := by
  have hcurrent : Agree Eq (Tcp.andAlso (leq32Bit w.tcb.sndUna seg.ackNum) (leq32Bit seg.ackNum w.tcb.sndNxt))
      (Tcp.andAlso (leq32Bit w'.tcb.sndUna (shiftIn ks kr seg).ackNum)
        (leq32Bit (shiftIn ks kr seg).ackNum w'.tcb.sndNxt)) := by
    rw [h.tcb]
    exact andAlso_agree leq_agree leq_agree
  have hlater : Agree Eq (lss32Bit w.tcb.sndWl1 seg.seqNum)
      (lss32Bit w'.tcb.sndWl1 (shiftIn ks kr seg).seqNum) := by
    rw [h.tcb]
    exact lss_agree
  have hsame : w'.tcb.sndWl1 = (shiftIn ks kr seg).seqNum ↔ w.tcb.sndWl1 = seg.seqNum := by
    rw [h.tcb]
    exact add_left_inj kr
  have hack : Agree Eq (leq32Bit w.tcb.sndWl2 seg.ackNum)
      (leq32Bit w'.tcb.sndWl2 (shiftIn ks kr seg).ackNum) := by
    rw [h.tcb]
    exact leq_agree
  unfold Tcp.rcvdAckWindow
  simp only [hsame]
  refine hcurrent.bind fun b b' hb => ?_
  rw [hb]
  split
  · refine hlater.bind fun c c' hc => ?_
    rw [hc]
    have hnewer : Agree Eq (if c' then some true
          else if w.tcb.sndWl1 = seg.seqNum then leq32Bit w.tcb.sndWl2 seg.ackNum else some false)
        (if c' then some true
          else if w.tcb.sndWl1 = seg.seqNum then leq32Bit w'.tcb.sndWl2 (shiftIn ks kr seg).ackNum
          else some false) := by
      split
      · exact Agree.pure rfl
      · split
        · exact hack
        · exact Agree.pure rfl
    refine hnewer.map fun d d' hd => ?_
    rw [hd]
    split
    · refine h.of_image (fun _ heq => ?_) rfl
      rw [heq]
      rfl
    · exact h
  · exact Agree.pure h

theorem Shifted.rcvdAckFin (h : Shifted ks kr w w') :
    ShiftedGoesOn ks kr (rcvdAckFin e w) (rcvdAckFin (e.shift ks) w') := by
  have hstate : w'.tcb.state = w.tcb.state := by rw [h.tcb]; rfl
  have hslot : w'.tcb.pktRetransmit = none ↔ w.tcb.pktRetransmit = none := by
    rw [h.tcb]
    exact Option.map_eq_none_iff
  unfold Tcp.rcvdAckFin
  simp only [hslot]
  rw [hstate]
  split
  · have hto : ∀ state goesOn, ShiftedGoesOn ks kr (Tcp.transitionTo e w state, goesOn)
        (Tcp.transitionTo (e.shift ks) w' state, goesOn) := fun _ _ => ⟨h.transitionTo, rfl⟩
    cases w.tcb.state with
    | finWait1 => exact hto .finWait2 true
    | closing => exact hto .timeWait true
    | lastAck => exact hto .closed false
    | _ => exact ⟨h, rfl⟩
  · exact ⟨h, rfl⟩

theorem Shifted.rcvdAck (h : Shifted ks kr w w') :
    Agree (ShiftedGoesOn ks kr) (rcvdAck e w seg) (rcvdAck (e.shift ks) w' (shiftIn ks kr seg)) := by
  have hstate : w'.tcb.state = w.tcb.state := by rw [h.tcb]; rfl
  unfold Tcp.rcvdAck
  rw [hstate]
  split
  · refine h.rcvdAckData.bind ?_
    intro ⟨w1, b⟩ ⟨w1', b'⟩ ⟨h1, hb⟩
    obtain rfl : b = b' := hb
    dsimp only
    split
    · exact Shifted.rcvdAckWindow h1 |>.map fun _ _ hw => hw.rcvdAckFin
    · exact Agree.pure ⟨h1, rfl⟩
  · exact Agree.pure ⟨h, rfl⟩

theorem Shifted.storePayload (snips : List (List UInt8)) :
    ∀ {w w'}, Shifted ks kr w w' → Shifted ks kr (storePayload w snips) (storePayload w' snips) := by
  induction snips with
  | nil => exact id
  | cons snip snips ih =>
    intro w w' h
    have hbuf : w'.tcb.rcvBuf = w.tcb.rcvBuf := by rw [h.tcb]; rfl
    have hrcv : ∀ n : Seq, w'.tcb.rcvNxt + n = w.tcb.rcvNxt + n + kr := by
      intro n
      rw [h.tcb]
      exact add_right_comm _ _ _
    unfold Tcp.storePayload
    dsimp only
    rw [hrcv]
    refine ih (h.of_image (fun _ heq => ?_) rfl)
    rw [heq]
    rfl

theorem Shifted.rcvdPayload (h : Shifted ks kr w w') :
    Shifted ks kr (rcvdPayload e w seg) (rcvdPayload (e.shift ks) w' (shiftIn ks kr seg)) := by
  have hlen : getPayLen (shiftIn ks kr seg) = getPayLen seg := rfl
  have hfin : (shiftIn ks kr seg).ctl = seg.ctl := rfl
  have hdata : (shiftIn ks kr seg).payload = seg.payload := rfl
  have hstate : w'.tcb.state = w.tcb.state := by rw [h.tcb]; rfl
  have hnext : w'.tcb.rcvNxt = (shiftIn ks kr seg).seqNum ↔ w.tcb.rcvNxt = seg.seqNum := by
    rw [h.tcb]
    exact add_left_inj kr
  have hstored : Shifted ks kr
      (if w.tcb.rcvNxt = seg.seqNum then
        { Tcp.storePayload w seg.payload with
          tcb.rcvWnd := BitVec.ofNat 16 (ringbufferGetFree (Tcp.storePayload w seg.payload).tcb.rcvBuf)
          tcb.status.notifyUser := true }
      else w)
      (if w.tcb.rcvNxt = seg.seqNum then
        { Tcp.storePayload w' seg.payload with
          tcb.rcvWnd := BitVec.ofNat 16 (ringbufferGetFree (Tcp.storePayload w' seg.payload).tcb.rcvBuf)
          tcb.status.notifyUser := true }
      else w') := by
    split
    · refine Shifted.of_image (h.storePayload seg.payload) (fun _ heq => ?_) rfl
      rw [heq]
      rfl
    · exact h
  unfold Tcp.rcvdPayload
  rw [hlen, hstate, hfin, hdata]
  simp only [hnext]
  split
  · split
    · exact hstored
    · exact hstored.sendAck
  · exact h

theorem Shifted.rcvdFin (h : Shifted ks kr w w') :
    Shifted ks kr (rcvdFin e w seg) (rcvdFin (e.shift ks) w' (shiftIn ks kr seg)) := by
  have hctl : (shiftIn ks kr seg).ctl = seg.ctl := rfl
  have hstate : w'.tcb.state = w.tcb.state := by rw [h.tcb]; rfl
  have hrcv : (shiftIn ks kr seg).seqNum + getSegLen (shiftIn ks kr seg) = seg.seqNum + getSegLen seg + kr :=
    add_right_comm _ _ _
  have htaken : Shifted ks kr (takeFin e w seg) (takeFin (e.shift ks) w' (shiftIn ks kr seg)) := by
    unfold takeFin
    rw [hrcv]
    refine Shifted.sendAck (h.of_image (fun _ heq => ?_) rfl)
    rw [heq]
    rfl
  unfold Tcp.rcvdFin
  rw [hctl, hstate]
  split
  · split
    · exact h
    · have hstate1 : (takeFin (e.shift ks) w' (shiftIn ks kr seg)).tcb.state = (takeFin e w seg).tcb.state := by
        rw [htaken.tcb]
        rfl
      have hslot : (takeFin (e.shift ks) w' (shiftIn ks kr seg)).tcb.pktRetransmit = none ↔
          (takeFin e w seg).tcb.pktRetransmit = none := by
        rw [htaken.tcb]
        exact Option.map_eq_none_iff
      unfold finTransition
      simp only [hslot]
      rw [hstate1]
      cases (takeFin e w seg).tcb.state with
      | synRcvd => exact htaken.transitionTo
      | established => exact htaken.transitionTo
      | finWait1 =>
        dsimp only
        split
        · exact htaken.transitionTo
        · exact htaken.transitionTo
      | finWait2 => exact htaken.transitionTo
      | timeWait =>
        refine htaken.of_image (fun _ heq => ?_) rfl
        rw [heq]
        rfl
      | _ => exact htaken
  · exact h

theorem Shifted.rcvdAcked (h : Shifted ks kr w w') :
    Agree (Shifted ks kr) (rcvdAcked e w seg) (rcvdAcked (e.shift ks) w' (shiftIn ks kr seg)) := by
  refine h.rcvdAckSynRcvd.bind fun w1 w1' h1 => ?_
  refine h1.rcvdAck.map ?_
  intro ⟨w2, b⟩ ⟨w2', b'⟩ ⟨h2, hb⟩
  obtain rfl : b = b' := hb
  dsimp only
  split
  · exact (Shifted.rcvdPayload h2).rcvdFin
  · exact h2

theorem Shifted.rcvdOther (h : Shifted ks kr w w') :
    Agree (Shifted ks kr) (rcvdOther e w seg) (rcvdOther (e.shift ks) w' (shiftIn ks kr seg)) := by
  have hctl : (shiftIn ks kr seg).ctl = seg.ctl := rfl
  have hlen : getPayLen (shiftIn ks kr seg) = getPayLen seg := rfl
  have hstate : w'.tcb.state = w.tcb.state := by rw [h.tcb]; rfl
  have hlisten : w'.tcb.status = w.tcb.status := by rw [h.tcb]; rfl
  have hnxt : w'.tcb.sndNxt = w.tcb.sndNxt + ks := by rw [h.tcb]; rfl
  have hchk : Agree Eq (chkSeqNum w.tcb seg.seqNum (getPayLen seg))
      (chkSeqNum w'.tcb (shiftIn ks kr seg).seqNum (getPayLen seg)) := by
    rw [h.tcb]
    exact chkSeqNum_agree
  unfold Tcp.rcvdOther
  rw [hctl, hlen, hstate, hlisten, hnxt]
  refine hchk.bind fun b b' hb => ?_
  rw [hb]
  split
  · refine Agree.pure ?_
    split
    · exact h
    · exact h.sendAck
  · split
    · split
      · exact Agree.pure h.transitionTo
      · exact Agree.pure h.transitionTo
    · split
      · have hreset : Shifted ks kr (Tcp.buildSend e w { rst := true } w.tcb.sndNxt w.tcb.rcvNxt)
            (Tcp.buildSend (e.shift ks) w' { rst := true } (w.tcb.sndNxt + ks) w'.tcb.rcvNxt) :=
          h.buildSend fun hc => (by cases hc)
        exact Agree.pure hreset.transitionTo
      · split
        · exact Agree.pure h
        · exact h.rcvdAcked

theorem Shifted.optionParse (h : Shifted ks kr w w') (seg : Segment) :
    Shifted ks kr (optionParse w seg).1 (optionParse w' (shiftIn ks kr seg)).1 ∧
      (optionParse w' (shiftIn ks kr seg)).2 = (optionParse w seg).2 := by
  have hoptions : (shiftIn ks kr seg).options = seg.options := rfl
  have hmss : w'.tcb.mss = w.tcb.mss := by rw [h.tcb]; rfl
  unfold Tcp.optionParse
  rw [hoptions, hmss]
  refine ⟨h.of_image (fun _ heq => ?_) rfl, rfl⟩
  rw [heq]
  rfl

theorem Shifted.fsmRcvdPkt (h : Shifted ks kr w w') (huna : w.tcb.state = .synSent → w.tcb.sndUna = w.tcb.iss)
    (hplain : w.tcb.state = .synSent → (Tcp.optionParse w seg).2 = true →
      SynUnwrapped w.tcb seg ∧ SynUnwrapped w'.tcb (shiftIn ks kr seg)) :
    Agree (Shifted ks kr) (fsmRcvdPkt e w seg) (fsmRcvdPkt (e.shift ks) w' (shiftIn ks kr seg)) := by
  obtain ⟨h1, hvalid⟩ := h.optionParse seg
  have hstate : (Tcp.optionParse w' (shiftIn ks kr seg)).1.tcb.state = (Tcp.optionParse w seg).1.tcb.state := by
    rw [h1.tcb]
    rfl
  have hsame : (Tcp.optionParse w seg).1.tcb.state = w.tcb.state := rfl
  unfold Tcp.fsmRcvdPkt
  dsimp only
  rw [hvalid, hstate, hsame]
  split
  · exact Agree.pure h1
  · rename_i hfine
    rw [Bool.not_eq_false] at hfine
    cases hs : w.tcb.state with
    | listen => exact Agree.pure h1.rcvdListen
    | synSent => exact h1.rcvdSynSent (huna hs) (hplain hs hfine).1 (hplain hs hfine).2
    | _ => exact h1.rcvdOther

/-! ## Calls -/

def Event.shift (ks kr : Seq) : Event → Event
  | .rcvdPkt seg => .rcvdPkt (shiftIn ks kr seg)
  | event => event

def Call.shift (ks kr : Seq) (c : Call) : Call :=
  { c with env := c.env.shift ks, event := c.event.shift ks kr }

/-- **A call on shifted numbers**: it does the same on them, if both come to an end. -/
theorem fsmCall_shift {c : Call} (huna : t.state = .synSent → t.sndUna = t.iss)
    (hplain : ∀ seg, c.event = .rcvdPkt seg → t.state = .synSent → (optionParse (callStart t c) seg).2 = true →
      SynUnwrapped t seg ∧ SynUnwrapped (t.shift ks kr) (shiftIn ks kr seg)) :
    Agree (Shifted ks kr) (fsmCall t c) (fsmCall (t.shift ks kr) (c.shift ks kr)) := by
  have h : Shifted ks kr (callStart t c) (callStart (t.shift ks kr) (c.shift ks kr)) := ⟨[], rfl, rfl⟩
  show Agree (Shifted ks kr) (fsmUnprotected c.env (callStart t c) c.event)
    (fsmUnprotected (c.env.shift ks) (callStart (t.shift ks kr) (c.shift ks kr)) (c.event.shift ks kr))
  cases hev : c.event with
  | callOpen => exact h.fsmCallOpen
  | callSend buf => exact Agree.pure h.fsmCallSend
  | callRecv len => exact Agree.pure h.fsmCallRecv
  | callClose => exact Agree.pure h.fsmCallClose
  | callAbort => exact Agree.pure h.fsmCallAbort
  | rcvdPkt seg => exact h.fsmRcvdPkt huna (hplain seg hev)
  | timeoutTimewait => exact Agree.pure h.transitionTo
  | timeoutRetransmit => exact Agree.pure h.fsmTimeoutRetransmit
  | timeoutConnection => exact Agree.pure h.transitionTo
  | sendProbe => exact Agree.pure h.fsmSendProbe
  | clearRetransmit => exact Agree.pure h.clearRetransmit

end Riot.Tcp
