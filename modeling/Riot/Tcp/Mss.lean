import Riot.Tcp.Opening

/-!
# The MSS of the peer

`_gnrc_tcp_option_parse` writes an MSS into the TCB whenever it meets the option, in
whatever segment and before the segment is checked. Nothing else writes it: a TCB
holds the MSS of the option that it has met last.
-/

namespace Riot.Tcp

/-- The last MSS option among those that the parser reads before it comes to an end. -/
def readMss : Nat → List UInt8 → Option (BitVec 16)
  | _, [] => none
  | 0, _ :: _ => none
  | fuel + 1, kind :: rest =>
    if kind = 0 then none
    else if kind = 1 then readMss fuel rest
    else
      match rest with
      | [] => none
      | length :: value =>
        if kind = 2 then
          match value with
          | v₀ :: v₁ :: rest =>
            if length.toNat = 4 then some ((readMss fuel rest).getD (v₀.toBitVec ++ v₁.toBitVec))
            else none
          | _ => none
        else if value.length + 2 < length.toNat ∨ length.toNat < 2 then none
        else readMss fuel (value.drop (length.toNat - 2))

/-- The MSS that the options of a segment announce. -/
def announcedMss (seg : Segment) : Option (BitVec 16) := readMss seg.options.length seg.options

/-- The MSS that comes with an event. -/
def eventMss : Event → Option (BitVec 16)
  | .rcvdPkt seg => announcedMss seg
  | _ => none

variable {e : Env} {w w' : Fsm} {seg : Segment} {state : State} {ctl : Ctl} {seqNum ackNum : Seq}
  {payload : List UInt8} {goesOn : Bool} {t t' : Tcb}

theorem optionParseLoop_mss (fuel : Nat) (mss : BitVec 16) (options : List UInt8) :
    (optionParseLoop fuel mss options).1 = (readMss fuel options).getD mss := by
  induction fuel generalizing mss options with
  | zero => cases options <;> rfl
  | succ fuel ih =>
    cases options with
    | nil => rfl
    | cons kind rest =>
      unfold optionParseLoop readMss
      by_cases hend : kind = 0
      · rw [if_pos hend, if_pos hend]
        rfl
      · rw [if_neg hend, if_neg hend]
        by_cases hnop : kind = 1
        · rw [if_pos hnop, if_pos hnop]
          exact ih mss rest
        · rw [if_neg hnop, if_neg hnop]
          cases rest with
          | nil => rfl
          | cons length value =>
            dsimp only
            by_cases hmss : kind = 2
            · rw [if_pos hmss, if_pos hmss]
              rcases value with _ | ⟨v0, _ | ⟨v1, rest⟩⟩
              · rfl
              · rfl
              · dsimp only
                by_cases hlen : length.toNat = 4
                · rw [if_pos hlen, if_pos hlen, ih]
                  rfl
                · rw [if_neg hlen, if_neg hlen]
                  rfl
            · rw [if_neg hmss, if_neg hmss]
              by_cases hbad : value.length + 2 < length.toNat ∨ length.toNat < 2
              · rw [if_pos hbad, if_pos hbad]
                rfl
              · rw [if_neg hbad, if_neg hbad]
                exact ih mss _

theorem optionParse_tcb :
    (optionParse w seg).1 = { w with tcb.mss := (announcedMss seg).getD w.tcb.mss } := by
  have hmss := optionParseLoop_mss seg.options.length w.tcb.mss seg.options
  unfold optionParse announcedMss
  rw [← hmss]

/-! ## What leaves the MSS alone -/

@[simp] theorem transitionTo_mss : (transitionTo e w state).tcb.mss = w.tcb.mss := by
  have hsame : SameNumbers w.tcb (transitionTo e w state).tcb := transitionTo_numbers
  exact hsame.mss

@[simp] theorem buildQueueSend_mss :
    (buildQueueSend e w ctl seqNum ackNum payload).tcb.mss = w.tcb.mss := by
  obtain ⟨_, _, _, h⟩ := buildQueueSend_fields
  rw [h]

theorem pktAcknowledge_mss {ack : Seq} (hack : pktAcknowledge w ack = some w') :
    w'.tcb.mss = w.tcb.mss := by
  obtain ⟨_, _, h⟩ := pktAcknowledge_tcb hack
  rw [h]

theorem fsmCallOpen_mss (hcall : fsmCallOpen e w = some w') : w'.tcb.mss = w.tcb.mss := by
  rcases fsmCallOpen_cases hcall with ⟨htcb, -⟩ | ⟨-, -, w1, _, _, _, htcb1, htcb⟩ |
    ⟨-, w1, _, _, _, htcb1, htcb⟩ | ⟨-, w1, _, _, _, _, htcb1, -, -, rfl⟩
  · rw [htcb]
  · rw [htcb, transitionTo_mss, htcb1]
  · rw [htcb, transitionTo_mss, htcb1]
  · rw [buildQueueSend_mss, htcb1]

theorem fsmCallSend_mss {buf : List UInt8} : (fsmCallSend e w buf).tcb.mss = w.tcb.mss := by
  unfold fsmCallSend
  dsimp only
  split
  · exact buildQueueSend_mss
  · rfl

theorem fsmCallRecv_mss {len : Nat} : (fsmCallRecv e w len).tcb.mss = w.tcb.mss := by
  unfold fsmCallRecv
  split
  · rfl
  · dsimp only
    split
    · rw [sendAck_tcb]
    · rfl

theorem fsmCallClose_mss : (fsmCallClose e w).tcb.mss = w.tcb.mss := by
  have hfin : (callCloseFin e w).tcb.mss = w.tcb.mss := by
    unfold callCloseFin
    split
    · exact buildQueueSend_mss
    · rfl
  unfold fsmCallClose callCloseTransition
  rw [← hfin]
  split
  · exact transitionTo_mss
  · split
    · exact transitionTo_mss
    · split
      · exact transitionTo_mss
      · rfl

theorem fsmCallAbort_mss : (fsmCallAbort e w).tcb.mss = w.tcb.mss := by
  unfold fsmCallAbort
  rw [transitionTo_mss]
  split
  · rw [buildSend_rst_tcb]
  · rfl

theorem rcvdListen_mss : (rcvdListen e w seg).tcb.mss = w.tcb.mss := by
  unfold rcvdListen
  split
  · rfl
  · split
    · rw [pktSend_zero]
      rfl
    · split
      · split
        · rfl
        · split
          · rfl
          · rw [transitionTo_mss, buildQueueSend_mss]
            rfl
      · rfl

theorem rcvdSynSent_mss (hcall : rcvdSynSent e w seg = some w') : w'.tcb.mss = w.tcb.mss := by
  unfold rcvdSynSent at hcall
  split at hcall
  · cases hcall
    split
    · rfl
    · rw [buildSend_rst_tcb]
  · split at hcall
    · cases hcall
      split
      · exact transitionTo_mss
      · rfl
    · split at hcall
      · obtain ⟨w1, hack, rfl⟩ := Option.map_eq_some_iff.mp hcall
        have hmss : w1.tcb.mss = w.tcb.mss := by
          unfold rcvdSynSentAck at hack
          split at hack
          · have hmss := pktAcknowledge_mss hack
            exact hmss
          · cases hack
            rfl
        rw [← hmss]
        unfold rcvdSynSentAnswer
        dsimp only
        split
        · rw [transitionTo_mss, sendAck_tcb]
        · rw [transitionTo_mss, buildQueueSend_mss]
      · cases hcall
        rfl

theorem rcvdAck_mss (hcall : rcvdAck e w seg = some (w', goesOn)) : w'.tcb.mss = w.tcb.mss := by
  rcases rcvdAck_cases hcall with ⟨-, rfl, -⟩ | ⟨-, htcb, -⟩ | ⟨-, w1, w2, hdata, hwindow, hfin⟩
  · rfl
  · rw [htcb]
  · have hmss1 : w1.tcb.mss = w.tcb.mss := by
      rcases rcvdAckData_cases hdata with ⟨-, -, hack⟩ | ⟨-, -, rfl⟩ | ⟨-, htcb⟩
      · have hmss := pktAcknowledge_mss hack
        exact hmss
      · rfl
      · rw [htcb]
    obtain ⟨_, _, _, _, htcb2, -⟩ := rcvdAckWindow_tcb hwindow
    have hmss2 : w2.tcb.mss = w1.tcb.mss := by rw [htcb2]
    rw [← hmss1, ← hmss2]
    rcases rcvdAckFin_cases (e := e) (w := w2) with ⟨heq, -⟩ | ⟨-, -, heq⟩ | ⟨-, -, heq⟩ | ⟨-, -, heq⟩
    · rw [← (Prod.mk.inj (heq.symm.trans hfin)).1]
    all_goals
      rw [← (Prod.mk.inj (heq.symm.trans hfin)).1]
      exact transitionTo_mss

theorem rcvdFin_mss : (rcvdFin e w seg).tcb.mss = w.tcb.mss := by
  have htake : (takeFin e w seg).tcb.mss = w.tcb.mss := by rw [takeFin_tcb]
  unfold rcvdFin
  split
  · split
    · rfl
    · rw [← htake]
      rcases finTransition_cases (e := e) (w := takeFin e w seg) with
        ⟨-, heq⟩ | ⟨-, heq⟩ | ⟨-, heq⟩ | ⟨-, heq⟩ | ⟨-, heq⟩
      · rw [heq, transitionTo_mss]
      · rw [heq, transitionTo_mss]
      · rw [heq, transitionTo_mss]
      · rw [heq]
        rfl
      · rw [heq]
  · rfl

theorem rcvdAcked_mss (hcall : rcvdAcked e w seg = some w') : w'.tcb.mss = w.tcb.mss := by
  obtain ⟨w1, w2, goesOn, hsyn, hack, rfl⟩ := rcvdAcked_cases hcall
  have hmss1 : w1.tcb.mss = w.tcb.mss := by
    rcases rcvdAckSynRcvd_cases hsyn with ⟨-, rfl⟩ | ⟨-, -, htcb⟩ | ⟨-, -, rfl⟩
    · rfl
    · rw [htcb]
    · exact transitionTo_mss
  have hmss2 : w2.tcb.mss = w.tcb.mss := (rcvdAck_mss hack).trans hmss1
  rw [← hmss2]
  split
  · obtain ⟨_, _, _, _, hpay, -⟩ := @rcvdPayload_fields e w2 seg
    rw [rcvdFin_mss, hpay]
  · rfl

theorem rcvdOther_mss (hcall : rcvdOther e w seg = some w') : w'.tcb.mss = w.tcb.mss := by
  rcases rcvdOther_cases hcall with ⟨-, htcb⟩ | ⟨-, ⟨-, ⟨-, -, rfl⟩ | rfl⟩ | ⟨-, -, w1, htcb1, rfl⟩ |
    ⟨-, -, -, rfl⟩ | ⟨-, -, -, hacked⟩⟩
  · rw [htcb]
  · exact transitionTo_mss
  · exact transitionTo_mss
  · rw [transitionTo_mss, htcb1]
  · rfl
  · exact rcvdAcked_mss hacked

theorem fsmRcvdPkt_mss (hcall : fsmRcvdPkt e w seg = some w') :
    w'.tcb.mss = (announcedMss seg).getD w.tcb.mss := by
  obtain ⟨w1, _, -, hw1, hcases⟩ := fsmRcvdPkt_cases hcall
  have hmss1 : w1.tcb.mss = (announcedMss seg).getD w.tcb.mss := by rw [hw1, optionParse_tcb]
  rw [← hmss1]
  rcases hcases with rfl | ⟨-, -, rfl⟩ | ⟨-, -, hsent⟩ | ⟨-, -, hother⟩
  · rfl
  · exact rcvdListen_mss
  · exact rcvdSynSent_mss hsent
  · exact rcvdOther_mss hother

theorem fsmCall_mss {c : Call} (hcall : fsmCall t c = some w) :
    w.tcb.mss = (eventMss c.event).getD t.mss := by
  obtain ⟨w0, htcb, -, -, hcall⟩ := fsmCall_eq hcall
  have hmss : w0.tcb.mss = t.mss := by rw [htcb]
  rw [← hmss]
  generalize c.event = event at hcall
  cases event with
  | callOpen => exact fsmCallOpen_mss hcall
  | callSend buf =>
    cases hcall
    exact fsmCallSend_mss
  | callRecv len =>
    cases hcall
    exact fsmCallRecv_mss
  | callClose =>
    cases hcall
    exact fsmCallClose_mss
  | callAbort =>
    cases hcall
    exact fsmCallAbort_mss
  | rcvdPkt seg => exact fsmRcvdPkt_mss hcall
  | timeoutTimewait =>
    cases hcall
    exact transitionTo_mss
  | timeoutRetransmit =>
    cases hcall
    obtain ⟨_, h, -⟩ := fsmTimeoutRetransmit_tcb (w := w0)
    rw [h]
    rfl
  | timeoutConnection =>
    cases hcall
    exact transitionTo_mss
  | sendProbe =>
    cases hcall
    rw [fsmSendProbe_tcb]
    rfl
  | clearRetransmit =>
    cases hcall
    exact clearRetransmit_numbers.mss

theorem apiWrite_mss {a : ApiWrite} (happly : apiWrite t a = some t') : t'.mss = t.mss := by
  obtain ⟨_, _, _, _, _, _, rfl⟩ := apiWrite_fields happly
  rfl

end Riot.Tcp
