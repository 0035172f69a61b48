import Riot.Tcp.Handshake
import Riot.Tcp.ShiftRcvd

/-!
# Where the sequence numbers start

A run on shifted numbers does the same as the run on the numbers themselves, as long as
the comparisons of either of them have an answer, and the numbers of the SYN do not go
around. The conditions follow the comparisons of the state machine: one that is not made
may be as far off as it likes.
-/

namespace Riot.Tcp

open Riot.Lib Option Bool

variable {e : Env} {w w' : Fsm} {t : Tcb} {seg : Segment} {seqNum ackNum : Seq}

/-! ## Which comparisons are made -/

/-- The comparisons of `INSIDE_WND` have an answer. -/
def InsideComparable (lEd seqNum rEd : Seq) : Prop :=
  Comparable lEd seqNum ∧ (lEd.sle seqNum → Comparable seqNum rEd)

instance (l s r : Seq) : Decidable (InsideComparable l s r) := inferInstanceAs (Decidable (_ ∧ _))

/-- So do those of `_gnrc_tcp_pkt_chk_seq_num`. -/
def ChkComparable (t : Tcb) (seqNum segLen : Seq) : Prop :=
  t.rcvWnd ≠ 0 →
    InsideComparable t.rcvNxt seqNum (t.rcvNxt + t.rcvWnd.setWidth 32) ∧
      (segLen ≠ 0 → ¬(t.rcvNxt.sle seqNum && seqNum.slt (t.rcvNxt + t.rcvWnd.setWidth 32)) →
        InsideComparable t.rcvNxt (seqNum + segLen - 1) (t.rcvNxt + t.rcvWnd.setWidth 32))

instance (t : Tcb) (s n : Seq) : Decidable (ChkComparable t s n) := inferInstanceAs (Decidable (_ → _))

/-- `snd_una` is before the acknowledgment, and `snd_nxt` is not. -/
def signedNew (t : Tcb) (ackNum : Seq) : Bool := t.sndUna.slt ackNum && ackNum.sle t.sndNxt

def NewComparable (t : Tcb) (ackNum : Seq) : Prop :=
  Comparable t.sndUna ackNum ∧ (t.sndUna.slt ackNum → Comparable ackNum t.sndNxt)

instance (t : Tcb) (a : Seq) : Decidable (NewComparable t a) := inferInstanceAs (Decidable (_ ∧ _))

/-- The comparison with the packet in the retransmit queue. -/
def SlotComparable (t : Tcb) (ackNum : Seq) : Prop :=
  match t.pktRetransmit with
  | none => True
  | some pkt => Comparable (pkt.seqNum + getSegLen pkt - 1) ackNum

instance (t : Tcb) (a : Seq) : Decidable (SlotComparable t a) := by
  unfold SlotComparable
  split <;> infer_instance

/-- The comparisons before the send window is updated; `sndUna` is what it is by then. -/
def WindowComparable (t : Tcb) (sndUna : Seq) (seg : Segment) : Prop :=
  Comparable sndUna seg.ackNum ∧
    (sndUna.sle seg.ackNum →
      Comparable seg.ackNum t.sndNxt ∧
        (seg.ackNum.sle t.sndNxt →
          Comparable t.sndWl1 seg.seqNum ∧ (t.sndWl1 = seg.seqNum → Comparable t.sndWl2 seg.ackNum)))

instance (t : Tcb) (u : Seq) (seg : Segment) : Decidable (WindowComparable t u seg) :=
  inferInstanceAs (Decidable (_ ∧ _))

/-- The comparisons in the states in which acknowledgments are processed. -/
def AckComparable (t : Tcb) (seg : Segment) : Prop :=
  NewComparable t seg.ackNum ∧
    if signedNew t seg.ackNum then SlotComparable t seg.ackNum ∧ WindowComparable t seg.ackNum seg
    else Comparable t.sndNxt seg.ackNum ∧ (¬t.sndNxt.slt seg.ackNum → WindowComparable t t.sndUna seg)

instance (t : Tcb) (seg : Segment) : Decidable (AckComparable t seg) := by
  unfold AckComparable
  infer_instance

/-- The comparisons with the acknowledgment of a segment that is processed so far. -/
def AckedComparable (t : Tcb) (seg : Segment) : Prop :=
  if t.state = .synRcvd then
    NewComparable t seg.ackNum ∧ (signedNew t seg.ackNum → SlotComparable t seg.ackNum)
  else acksData t.state → AckComparable t seg

instance (t : Tcb) (seg : Segment) : Decidable (AckedComparable t seg) := by
  unfold AckedComparable
  infer_instance

/-- The comparisons of a segment with valid options. -/
def SegmentComparable (t : Tcb) (seg : Segment) : Prop :=
  match t.state with
  | .listen => True
  | .synSent =>
    SynUnwrapped t seg ∧ (acksSyn t seg → seg.ctl.rst = false → seg.ctl.syn → SlotComparable t seg.ackNum)
  | _ =>
    ChkComparable t seg.seqNum (getPayLen seg) ∧
      (chkSeqNum t seg.seqNum (getPayLen seg) = some true → seg.ctl.rst = false → seg.ctl.syn = false →
        seg.ctl.ack → AckedComparable t seg)

instance (t : Tcb) (seg : Segment) : Decidable (SegmentComparable t seg) := by
  unfold SegmentComparable
  split <;> infer_instance

/-- No comparison of the call overflows, and the plain ones of SYN_SENT see the numbers in order. -/
def CallComparable (t : Tcb) (c : Call) : Prop :=
  match c.event with
  | .rcvdPkt seg => (optionParse (callStart t c) seg).2 = true → SegmentComparable t seg
  | _ => True

instance (t : Tcb) (c : Call) : Decidable (CallComparable t c) := by
  unfold CallComparable
  refine c.event.casesOn ?_ ?_ ?_ ?_ ?_ ?_ ?_ ?_ ?_ ?_ ?_ <;> intros <;> infer_instance

theorem CallComparable.synUnwrapped {c : Call} (h : CallComparable t c) (hev : c.event = .rcvdPkt seg)
    (hstate : t.state = .synSent) (hvalid : (optionParse (callStart t c) seg).2 = true) : SynUnwrapped t seg := by
  unfold CallComparable SegmentComparable at h
  rw [hev] at h
  rw [hstate] at h
  exact (h hvalid).1

/-! ## The comparisons have an answer -/

theorem andAlso_of {x y : Option Bool} {b b' : Bool} (hx : x = some b) (hy : b → y = some b') :
    andAlso x y = some (b && b') := by
  subst hx
  cases b with
  | true => exact hy rfl
  | false => rfl

theorem insideWnd_of_comparable {l s r : Seq} (h : InsideComparable l s r) :
    insideWnd l s r = some (l.sle s && s.slt r) :=
  andAlso_of (serialLe_of_comparable h.1) fun hle => serialLt_of_comparable (h.2 hle)

theorem chkSeqNum_isSome {segLen : Seq} (h : ChkComparable t seqNum segLen) :
    (chkSeqNum t seqNum segLen).isSome := by
  unfold chkSeqNum
  dsimp only
  split
  · rfl
  · split
    · rfl
    · rename_i hwnd
      obtain ⟨hfirst, hlast⟩ := h hwnd
      split
      · rw [insideWnd_of_comparable hfirst]
        rfl
      · rename_i hlen
        rw [insideWnd_of_comparable hfirst, bind_some]
        split
        · rfl
        · rename_i hout
          rw [insideWnd_of_comparable (hlast hlen hout)]
          rfl

theorem ackIsNew_of_comparable (h : NewComparable t ackNum) : ackIsNew t ackNum = some (signedNew t ackNum) :=
  andAlso_of (serialLt_of_comparable h.1) fun hlt => serialLe_of_comparable (h.2 hlt)

theorem pktAcknowledge_isSome (h : SlotComparable w.tcb ackNum) : (pktAcknowledge w ackNum).isSome := by
  unfold SlotComparable at h
  unfold pktAcknowledge
  cases hslot : w.tcb.pktRetransmit with
  | none => rfl
  | some pkt =>
    rw [hslot] at h
    rw [isSome_map, lss32Bit, serialLt_of_comparable h]
    rfl

theorem rcvdAckWindow_isSome (h : WindowComparable w.tcb w.tcb.sndUna seg) : (rcvdAckWindow w seg).isSome := by
  have hcurrent : andAlso (leq32Bit w.tcb.sndUna seg.ackNum) (leq32Bit seg.ackNum w.tcb.sndNxt) =
      some (w.tcb.sndUna.sle seg.ackNum && seg.ackNum.sle w.tcb.sndNxt) :=
    andAlso_of (serialLe_of_comparable h.1) fun hle => serialLe_of_comparable (h.2 hle).1
  unfold rcvdAckWindow
  rw [hcurrent, bind_some]
  split
  · rename_i hcur
    rw [and_eq_true] at hcur
    obtain ⟨hwl1, hwl2⟩ := (h.2 hcur.1).2 hcur.2
    rw [lss32Bit, serialLt_of_comparable hwl1, bind_some, isSome_map]
    split
    · rfl
    · split
      · rename_i hsame
        rw [leq32Bit, serialLe_of_comparable (hwl2 hsame)]
        rfl
      · rfl
  · rfl

theorem rcvdAck_isSome (h : acksData w.tcb.state → AckComparable w.tcb seg) : (rcvdAck e w seg).isSome := by
  unfold rcvdAck rcvdAckData
  split
  · rename_i hacks
    obtain ⟨hnew, h⟩ := h hacks
    rw [ackIsNew_of_comparable hnew, bind_some]
    split at h
    · rename_i hlater
      rw [if_pos hlater]
      have hslot : (pktAcknowledge { w with tcb.sndUna := seg.ackNum } seg.ackNum).isSome :=
        pktAcknowledge_isSome h.1
      obtain ⟨w1, hack⟩ := isSome_iff_exists.mp hslot
      obtain ⟨_, _, htcb⟩ := pktAcknowledge_tcb hack
      rw [hack, map_some, bind_some]
      dsimp only
      rw [if_pos rfl, isSome_map]
      refine rcvdAckWindow_isSome ?_
      rw [htcb]
      exact h.2
    · rename_i hlater
      rw [if_neg hlater, lss32Bit, serialLt_of_comparable h.1, map_some, bind_some]
      by_cases hunsent : w.tcb.sndNxt.slt seg.ackNum = true
      · rw [if_pos hunsent]
        rfl
      · rw [if_neg hunsent]
        dsimp only
        rw [if_pos rfl, isSome_map]
        exact rcvdAckWindow_isSome (h.2 hunsent)
  · rfl

/-- The window is updated after SYN_RCVD with `snd_wl1` and `snd_wl2` from the segment itself. -/
theorem AckComparable.of_new (h : NewComparable t seg.ackNum) (hnew : signedNew t seg.ackNum = true)
    (hslot : SlotComparable t seg.ackNum) (hwl1 : t.sndWl1 = seg.seqNum) (hwl2 : t.sndWl2 = seg.ackNum) :
    AckComparable t seg := by
  have hlater : t.sndUna.slt seg.ackNum = true := (and_eq_true_iff.mp hnew).1
  refine ⟨h, ?_⟩
  rw [if_pos hnew]
  refine ⟨hslot, comparable_self, fun _ => ⟨h.2 hlater, fun _ => ⟨?_, fun _ => ?_⟩⟩⟩
  · rw [hwl1]
    exact comparable_self
  · rw [hwl2]
    exact comparable_self

theorem rcvdAcked_isSome (h : AckedComparable w.tcb seg) : (rcvdAcked e w seg).isSome := by
  unfold rcvdAcked rcvdAckSynRcvd
  unfold AckedComparable at h
  split at h
  · rename_i hstate
    rw [if_pos hstate, ackIsNew_of_comparable h.1, map_some, bind_some, isSome_map]
    split
    · rename_i hnew
      exact rcvdAck_isSome fun _ => AckComparable.of_new h.1 hnew (h.2 hnew) rfl rfl
    · refine rcvdAck_isSome fun hacks => ?_
      rw [buildSend_rst_tcb, hstate] at hacks
      cases hacks
  · rename_i hstate
    rw [if_neg hstate, bind_some, isSome_map]
    exact rcvdAck_isSome h

theorem rcvdOther_isSome (h : ChkComparable w.tcb seg.seqNum (getPayLen seg))
    (hacked : chkSeqNum w.tcb seg.seqNum (getPayLen seg) = some true → seg.ctl.rst = false →
      seg.ctl.syn = false → seg.ctl.ack → AckedComparable w.tcb seg) : (rcvdOther e w seg).isSome := by
  obtain ⟨b, hchk⟩ := isSome_iff_exists.mp (chkSeqNum_isSome h)
  unfold rcvdOther
  rw [hchk, bind_some]
  split
  · rfl
  · rename_i hacceptable
    split
    · split <;> rfl
    · rename_i hrst
      split
      · rfl
      · rename_i hsyn
        split
        · rfl
        · rename_i hack
          rw [not_eq_false] at hacceptable hack
          exact rcvdAcked_isSome (hacked (by rw [hchk, hacceptable]) (eq_false_iff.mpr hrst)
            (eq_false_iff.mpr hsyn) hack)

theorem rcvdSynSent_isSome (h : acksSyn w.tcb seg → seg.ctl.rst = false → seg.ctl.syn →
    SlotComparable w.tcb seg.ackNum) : (rcvdSynSent e w seg).isSome := by
  unfold rcvdSynSent
  split
  · rfl
  · rename_i hplain
    split
    · rfl
    · rename_i hrst
      split
      · rename_i hsyn
        rw [isSome_map]
        unfold rcvdSynSentAck
        split
        · rename_i hack
          have hin := not_or.mp fun hc => hplain ⟨hack, hc⟩
          have hacks : acksSyn w.tcb seg = true := by
            unfold acksSyn
            rw [decide_eq_true_eq]
            exact ⟨hack, ahead_of_plain (BitVec.not_le.mp hin.1) (BitVec.not_lt.mp hin.2)⟩
          exact pktAcknowledge_isSome (h hacks (eq_false_iff.mpr hrst) hsyn)
        · rfl
      · rfl

/-- **A call that meets the condition comes to an end**, except for an open that draws no free port. -/
theorem fsmCall_isSome {c : Call} (h : CallComparable t c) (hopen : c.event ≠ .callOpen) :
    (fsmCall t c).isSome := by
  unfold CallComparable at h
  show (fsmUnprotected c.env (callStart t c) c.event).isSome
  cases hev : c.event with
  | callOpen => exact absurd hev hopen
  | rcvdPkt seg =>
    rw [hev] at h
    unfold fsmUnprotected fsmRcvdPkt
    dsimp only
    split
    · rfl
    · rename_i hvalid
      rw [not_eq_false] at hvalid
      have hseg : SegmentComparable (optionParse (callStart t c) seg).1.tcb seg := h hvalid
      generalize (optionParse (callStart t c) seg).1 = w at hseg ⊢
      unfold SegmentComparable at hseg
      cases hs : w.tcb.state with
      | listen => rfl
      | synSent =>
        rw [hs] at hseg
        exact rcvdSynSent_isSome hseg.2
      | _ =>
        rw [hs] at hseg
        exact rcvdOther_isSome hseg.1 hseg.2
  | _ => rfl

/-! ## What the comparisons are for -/

/-- The call makes no comparison that overflows. -/
def NoOverflow (t : Tcb) (c : Call) : Prop := c.event ≠ .callOpen → (fsmCall t c).isSome

/-- A SYN+ACK that acknowledges the SYN, once it has been sent, completes an active open. -/
def CompletesOpen (t : Tcb) (c : Call) : Prop :=
  ∀ seg, c.event = .rcvdPkt seg → t.state = .synSent → t.sndNxt = t.iss + 1 →
    (optionParse (callStart t c) seg).2 = true → seg.ctl.syn → seg.ctl.ack → seg.ctl.rst = false →
    seg.ackNum = t.iss + 1 → ∃ w, fsmCall t c = some w ∧ w.tcb.state = .established

theorem rcvdSynSent_established (hplain : SynUnwrapped w.tcb seg) (hsyn : seg.ctl.syn = true)
    (hack : seg.ctl.ack = true) (hrst : seg.ctl.rst = false) (hacks : acksSyn w.tcb seg = true)
    (hcall : rcvdSynSent e w seg = some w') : w'.tcb.state = .established := by
  unfold acksSyn at hacks
  rw [decide_eq_true_eq] at hacks
  have hin : ¬(seg.ackNum ≤ w.tcb.iss ∨ w.tcb.sndNxt < seg.ackNum) := by
    rw [plain_iff_ahead (hplain hack)]
    exact not_not.mpr hacks.2
  unfold rcvdSynSent at hcall
  rw [if_neg fun hc => hin hc.2, hrst, if_neg Bool.false_ne_true, if_pos hsyn] at hcall
  obtain ⟨w1, hack1, rfl⟩ := map_eq_some_iff.mp hcall
  obtain ⟨hiss, huna⟩ := rcvdSynSentAck_tcb hack1
  have hlater : w1.tcb.iss < w1.tcb.sndUna := by
    rw [hiss, huna, if_pos hack]
    exact BitVec.not_le.mp (not_or.mp hin).1
  unfold rcvdSynSentAnswer
  dsimp only
  rw [if_pos hlater]
  exact transitionTo_state_of_ne (by decide)

theorem completesOpen {c : Call} (h : CallComparable t c) : CompletesOpen t c := by
  intro seg hev hstate hnxt hvalid hsyn hack hrst hnum
  obtain ⟨w, hcall⟩ := isSome_iff_exists.mp (fsmCall_isSome h (by rw [hev]; simp))
  refine ⟨w, hcall, ?_⟩
  have hplain : SynUnwrapped t seg := h.synUnwrapped hev hstate hvalid
  have hacks : acksSyn t seg = true := by
    have hone : ahead t.iss (t.iss + 1) = 1 := ahead_add_right
    unfold acksSyn
    rw [decide_eq_true_eq, hnum, hnxt, hone]
    exact ⟨hack, by decide, le_refl 1⟩
  change fsmUnprotected c.env (callStart t c) c.event = some w at hcall
  rw [hev] at hcall
  unfold fsmUnprotected fsmRcvdPkt at hcall
  dsimp only at hcall
  rw [hvalid, if_neg (by decide)] at hcall
  have hsame : (optionParse (callStart t c) seg).1.tcb.state = .synSent := hstate
  have hplain1 : SynUnwrapped (optionParse (callStart t c) seg).1.tcb seg := hplain
  have hacks1 : acksSyn (optionParse (callStart t c) seg).1.tcb seg = true := hacks
  rw [hsame] at hcall
  exact rcvdSynSent_established hplain1 hsyn hack hrst hacks1 hcall

/-! ## Runs -/

/-- A TCB, and what it has sent, as the peer sees it. -/
structure SeqHist where
  tcb : Tcb
  emitted : List Segment
  deriving DecidableEq

def seqStep (h : SeqHist) : TcbEvent → Option SeqHist
  | .call c => (fsmCall h.tcb c).map fun w => { tcb := w.tcb, emitted := h.emitted ++ w.sent.map visible }
  | .api a => (apiWrite h.tcb a).map fun t => { h with tcb := t }

/-- A TCB that has been used before starts with the numbers of its last connection. -/
def seqStart (t : Tcb) : SeqHist := { tcb := t, emitted := [] }

def SeqHist.shift (ks kr : Seq) (h : SeqHist) : SeqHist where
  tcb := h.tcb.shift ks kr
  emitted := h.emitted.map (shiftOut ks kr)

def TcbEvent.shift (ks kr : Seq) : TcbEvent → TcbEvent
  | .call c => .call (c.shift ks kr)
  | .api a => .api a

/-- The comparisons of the step have an answer, on the numbers and on the shifted ones. -/
def SeqOk (ks kr : Seq) (h : SeqHist) : TcbEvent → Prop
  | .call c => CallComparable h.tcb c ∧ CallComparable (h.tcb.shift ks kr) (c.shift ks kr)
  | .api _ => True

instance (ks kr : Seq) (h : SeqHist) : (ev : TcbEvent) → Decidable (SeqOk ks kr h ev)
  | .call _ => inferInstanceAs (Decidable (_ ∧ _))
  | .api _ => inferInstanceAs (Decidable True)

/-- Neither run overflows, and a SYN+ACK completes an open. -/
def SeqGood (ks kr : Seq) (h : SeqHist) : TcbEvent → Prop
  | .call c => NoOverflow h.tcb c ∧ NoOverflow (h.tcb.shift ks kr) (c.shift ks kr) ∧ CompletesOpen h.tcb c
  | .api _ => True

variable {ks kr : Seq}

theorem visible_shiftOut : visible (shiftOut ks kr seg) = shiftOut ks kr (visible seg) := by
  unfold visible
  split
  · rename_i hack
    rw [if_pos (show seg.ctl.ack = true from hack)]
  · rename_i hack
    rw [if_neg (show ¬seg.ctl.ack = true from hack)]
    have hflag : ¬seg.ctl.ack = true := hack
    unfold shiftOut
    dsimp only
    rw [if_neg hflag]

theorem Shifted.emitted (h : Shifted ks kr w w') (before : List Segment) :
    before.map (shiftOut ks kr) ++ w'.sent.map visible =
      (before ++ w.sent.map visible).map (shiftOut ks kr) := by
  obtain ⟨sent, rfl, hsent⟩ := h
  show before.map (shiftOut ks kr) ++ sent.map visible = _
  rw [hsent, List.map_append, List.map_map]
  refine congrArg (before.map (shiftOut ks kr) ++ ·) (List.map_congr_left fun seg _ => ?_)
  exact visible_shiftOut

theorem apiWrite_shift {a : ApiWrite} : apiWrite (t.shift ks kr) a = (apiWrite t a).map (Tcb.shift ks kr) := by
  have hstate : (t.shift ks kr).state = t.state := rfl
  unfold apiWrite
  cases a with
  | gnrcTcpListenFailed => rfl
  | gnrcTcpStopListen => rfl
  | _ =>
    dsimp only
    rw [hstate]
    split <;> rfl

theorem fsmCall_image {c : Call} (huna : t.state = .synSent → t.sndUna = t.iss)
    (h : CallComparable t c) (h' : CallComparable (t.shift ks kr) (c.shift ks kr)) :
    (fsmCall t c = none ∧ fsmCall (t.shift ks kr) (c.shift ks kr) = none) ∨
      ∃ w w', fsmCall t c = some w ∧ fsmCall (t.shift ks kr) (c.shift ks kr) = some w' ∧ Shifted ks kr w w' := by
  have hagree : Agree (Shifted ks kr) (fsmCall t c) (fsmCall (t.shift ks kr) (c.shift ks kr)) := by
    refine fsmCall_shift huna fun seg hev hstate hvalid => ?_
    have hev' : (c.shift ks kr).event = .rcvdPkt (shiftIn ks kr seg) := by
      unfold Call.shift
      rw [hev]
      rfl
    exact ⟨h.synUnwrapped hev hstate hvalid, h'.synUnwrapped hev' hstate hvalid⟩
  have hsome : (fsmCall (t.shift ks kr) (c.shift ks kr)).isSome = (fsmCall t c).isSome := by
    by_cases hopen : c.event = .callOpen
    · have hstart : Shifted ks kr (callStart t c) (callStart (t.shift ks kr) (c.shift ks kr)) := ⟨[], rfl, rfl⟩
      show (fsmUnprotected (c.env.shift ks) _ (c.event.shift ks kr)).isSome =
        (fsmUnprotected c.env (callStart t c) c.event).isSome
      rw [hopen]
      exact fsmCallOpen_isSome hstart
    · have hopen' : (c.shift ks kr).event ≠ .callOpen := by
        unfold Call.shift Event.shift
        split
        · simp
        · exact hopen
      rw [fsmCall_isSome h hopen, fsmCall_isSome h' hopen']
  cases hcall : fsmCall t c with
  | none =>
    rw [hcall] at hsome
    exact .inl ⟨rfl, not_isSome_iff_eq_none.mp (by rw [hsome]; decide)⟩
  | some w =>
    rw [hcall] at hsome
    obtain ⟨w', hcall'⟩ := isSome_iff_exists.mp hsome
    exact .inr ⟨w, w', rfl, hcall', hagree w w' hcall hcall'⟩

theorem seqStep_inv {h h' : SeqHist} {ev : TcbEvent} (hinv : HandshakeInv h.tcb true)
    (hstep : seqStep h ev = some h') : HandshakeInv h'.tcb true := by
  cases ev with
  | call c =>
    obtain ⟨w, hcall, rfl⟩ := map_eq_some_iff.mp hstep
    exact hinv.call (fun hc => (by cases hc)) hcall
  | api a =>
    obtain ⟨t, happly, rfl⟩ := map_eq_some_iff.mp hstep
    obtain ⟨_, _, _, _, _, _, rfl⟩ := apiWrite_fields happly
    exact hinv.congr rfl rfl rfl

theorem seqStep_image {h : SeqHist} {ev : TcbEvent} (hinv : HandshakeInv h.tcb true) (hok : SeqOk ks kr h ev) :
    seqStep (h.shift ks kr) (ev.shift ks kr) = (seqStep h ev).map (SeqHist.shift ks kr) := by
  cases ev with
  | call c =>
    unfold seqStep TcbEvent.shift
    dsimp only
    rcases fsmCall_image (fun hs => hinv.una (.inl hs)) hok.1 hok.2 with ⟨hcall, hcall'⟩ |
      ⟨w, w', hcall, hcall', hw⟩
    · have hnone : fsmCall (h.shift ks kr).tcb (c.shift ks kr) = none := hcall'
      rw [hnone, hcall]
      rfl
    · have hsome : fsmCall (h.shift ks kr).tcb (c.shift ks kr) = some w' := hcall'
      rw [hsome, hcall, map_some, map_some, map_some]
      unfold SeqHist.shift
      rw [hw.tcb, hw.emitted]
  | api a =>
    unfold seqStep TcbEvent.shift
    dsimp only
    rw [show (h.shift ks kr).tcb = h.tcb.shift ks kr from rfl, apiWrite_shift, map_map, map_map]
    rfl

/-- **Sequence-space invariance.** From any TCB that is not connected, a run on shifted numbers goes
through the shifted states and sends the shifted segments, no comparison overflows, and a SYN+ACK
completes an open, as long as for both numbers the signed values that are compared lie less than half of the way
around apart, and those from `iss` to `snd_nxt` do not go around in SYN_SENT. -/
theorem numbers_shift (ks kr : Seq) (t : Tcb) (hidle : t.state = .closed) (es : List TcbEvent)
    (hok : Meets seqStep (SeqOk ks kr) (seqStart t) es) :
    run seqStep ((seqStart t).shift ks kr) (es.map (TcbEvent.shift ks kr)) =
        (run seqStep (seqStart t) es).map (SeqHist.shift ks kr) ∧
      Meets seqStep (SeqGood ks kr) (seqStart t) es := by
  have hinv : HandshakeInv (seqStart t).tcb true := HandshakeInv.ended (Or.inl hidle)
  constructor
  · exact run_image (I := fun h : SeqHist => HandshakeInv h.tcb true) (fun _ _ hinv hok => seqStep_image hinv hok)
      (fun _ _ _ hinv hstep => seqStep_inv hinv hstep) es hinv hok
  · refine meets_of_meets (I := fun h : SeqHist => HandshakeInv h.tcb true) (fun h ev _ hok => ?_)
      (fun _ _ _ hinv hstep => seqStep_inv hinv hstep) es hinv hok
    cases ev with
    | call c =>
      refine ⟨fsmCall_isSome hok.1, fun hopen => fsmCall_isSome hok.2 hopen, completesOpen hok.1⟩
    | api a => trivial

/-- An active open; the SYN is sent with the number 100, and acknowledged. -/
def soloOpen : List TcbEvent :=
  [.api (.gnrcTcpOpen 9 0 1000 80), soloCall .callOpen,
    soloCall (.rcvdPkt (peerSegment { syn := true, ack := true } 5000 101 []))]

/-- After the open the peer sends two bytes, and the user one. -/
def soloTalk : List TcbEvent :=
  soloOpen ++ [soloCall (.rcvdPkt (peerSegment { psh := true, ack := true } 5001 101 [[1, 2]])),
    soloCall (.callSend [3]), soloCall (.rcvdPkt (peerSegment { ack := true } 5003 102 [])), soloCall .callClose]

theorem numbers_shift_talk :
    run seqStep ((seqStart tcbInit).shift 1000 0xfffffff0) (soloTalk.map (TcbEvent.shift 1000 0xfffffff0)) =
        (run seqStep (seqStart tcbInit) soloTalk).map (SeqHist.shift 1000 0xfffffff0) ∧
      Meets seqStep (SeqGood 1000 0xfffffff0) (seqStart tcbInit) soloTalk :=
  numbers_shift 1000 0xfffffff0 tcbInit rfl soloTalk (by decide +kernel)

/-- If the SYN has the last of all numbers, its acknowledgment is answered with a reset; if it has
the last of the signed ones, the comparison with the SYN in the retransmit queue overflows. -/
theorem not_numbers_shift :
    (run seqStep ((seqStart tcbInit).shift 0xffffff9b 0) (soloOpen.map (TcbEvent.shift 0xffffff9b 0)) ≠
        (run seqStep (seqStart tcbInit) soloOpen).map (SeqHist.shift 0xffffff9b 0) ∧
      (run seqStep (seqStart tcbInit) soloOpen).any (fun h => h.tcb.state = .established) = true ∧
      (run seqStep ((seqStart tcbInit).shift 0xffffff9b 0) (soloOpen.map (TcbEvent.shift 0xffffff9b 0))).any
        (fun h => decide (h.tcb.iss = 0xffffffff ∧ h.tcb.state = .synSent)) = true) ∧
      run seqStep ((seqStart tcbInit).shift 0x7fffff9b 0) (soloOpen.map (TcbEvent.shift 0x7fffff9b 0)) = none := by
  decide +kernel

end Riot.Tcp
