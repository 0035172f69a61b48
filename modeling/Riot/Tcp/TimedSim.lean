import Riot.Lib.Erasure
import Riot.Tcp.Machine
import Riot.Tcp.Timed

/-!
# What a call does to the clock of a connection

Without its clock, the timed state machine is the one without: the signed computations
never overflow. What a call does to the retransmit queue and to the fields about time
is said once: it sends segments past the queue, or takes an acknowledgment and then
sends, or puts a segment into the empty queue; only the retransmission timer sends the
queued segment again.
-/

namespace Riot.Tcp

open Riot.Lib Option

/-- The estimates are right, and the RTO is between its bounds while it may be in use. -/
structure RttOk (t : Tcb) (r : Rtt) : Prop where
  estimated : Estimated r
  kept : ∀ seg, t.pktRetransmit = some seg → isUnqueued seg = false
  bounded : t.pktRetransmit ≠ none ∨ t.eventRetransmit = true → RtoBounded r

/-- A measurement, which ends with a sample or without. -/
def Measured (e : TimedEnv) (r : Rtt) (samples : List (BitVec 32)) (r' : Rtt)
    (samples' : List (BitVec 32)) : Prop :=
  (r.measure e.now = none ∧ r' = r ∧ samples' = samples) ∨
    ∃ rtt, r.measure e.now = some rtt ∧ r.sample rtt = some r' ∧ samples' = samples ++ [rtt]

/-- The fields after some segments have been sent past the queue. -/
def sentPast (e : TimedEnv) (r : Rtt) (segs : List Segment) : Rtt :=
  if segs = [] then r else r.send e.now false

/-- Two states that differ in nothing that the outcome of a call is about. -/
structure SameClock (w w' : TimedFsm) : Prop where
  slot : w'.fsm.tcb.pktRetransmit = w.fsm.tcb.pktRetransmit
  event : w'.fsm.tcb.eventRetransmit = w.fsm.tcb.eventRetransmit
  sent : w'.fsm.sent = w.fsm.sent
  samples : w'.samples = w.samples
  rtt : w'.rtt = w.rtt

/-- Segments are sent past the queue, which may be cleared. -/
structure Past (e : TimedEnv) (w w' : TimedFsm) (segs : List Segment) : Prop where
  slot : w'.fsm.tcb.pktRetransmit = w.fsm.tcb.pktRetransmit ∨ w'.fsm.tcb.pktRetransmit = none
  event : w'.fsm.tcb.eventRetransmit = true → w.fsm.tcb.eventRetransmit = true
  sent : w'.fsm.sent = w.fsm.sent ++ segs
  samples : w'.samples = w.samples
  rtt : w'.rtt = sentPast e w.rtt segs

/-- The segment in the queue is acknowledged. -/
structure Acked (e : TimedEnv) (w w' : TimedFsm) : Prop where
  slot : w.fsm.tcb.pktRetransmit ≠ none
  slot' : w'.fsm.tcb.pktRetransmit = none
  event : w'.fsm.tcb.eventRetransmit = false
  sent : w'.fsm.sent = w.fsm.sent
  measured : Measured e w.rtt w.samples w'.rtt w'.samples

/-- A segment is put into the empty queue, and sent. -/
structure Queued (e : TimedEnv) (w w' : TimedFsm) (seg : Segment) : Prop where
  slot : w.fsm.tcb.pktRetransmit = none
  slot' : w'.fsm.tcb.pktRetransmit = some seg
  kept : isUnqueued seg = false
  sent : w'.fsm.sent = w.fsm.sent ++ [seg]
  samples : w'.samples = w.samples
  rtt : ∃ r, w.rtt.setup false = some r ∧ w'.rtt = r.send e.now false

/-- The segment in the queue is sent again. -/
structure SentAgain (e : TimedEnv) (w w' : TimedFsm) (seg : Segment) : Prop where
  slot : w.fsm.tcb.pktRetransmit = some seg
  slot' : w'.fsm.tcb.pktRetransmit = some seg
  sent : w'.fsm.sent = w.fsm.sent ++ [seg]
  samples : w'.samples = w.samples
  rtt : ∃ r, w.rtt.setup true = some r ∧ w'.rtt = r.send e.now true

/-- What a call can do to the retransmit queue and to the fields about time, unless the retransmission
timer makes it. -/
inductive Outcome (e : TimedEnv) (w w' : TimedFsm) : Prop where
  | sends (segs : List Segment) (past : Past e w w' segs)
  | acks (w₁ : TimedFsm) (segs : List Segment) (acked : Acked e w w₁) (past : Past e w₁ w' segs)
  | queues (seg : Segment) (queued : Queued e w w' seg)

variable {e : TimedEnv} {w w₁ w2 w' : TimedFsm} {seg : Segment} {state : State} {ctl : Ctl}
  {seqNum ackNum : Seq} {payload : List UInt8} {segs segs' : List Segment} {goesOn : Bool}

/-! ## Outcomes in a row -/

theorem sentPast_append {r : Rtt} : sentPast e (sentPast e r segs) segs' = sentPast e r (segs ++ segs') := by
  cases segs <;> cases segs' <;> rfl

theorem SameClock.refl : SameClock w w := ⟨rfl, rfl, rfl, rfl, rfl⟩

theorem SameClock.trans (h : SameClock w w₁) (h' : SameClock w₁ w') : SameClock w w' :=
  ⟨h'.slot.trans h.slot, h'.event.trans h.event, h'.sent.trans h.sent, h'.samples.trans h.samples,
    h'.rtt.trans h.rtt⟩

theorem SameClock.past (h : SameClock w w') : Past e w w' [] :=
  ⟨.inl h.slot, fun hev => h.event ▸ hev, by rw [h.sent, List.append_nil], h.samples, h.rtt⟩

theorem SameClock.outcome (h : SameClock w w') : Outcome e w w' := Outcome.sends [] h.past

theorem Past.trans (h : Past e w w₁ segs) (h' : Past e w₁ w' segs') : Past e w w' (segs ++ segs') where
  slot := by
    rcases h'.slot with hslot | hslot
    · rw [hslot]
      exact h.slot
    · exact .inr hslot
  event := fun hev => h.event (h'.event hev)
  sent := by rw [h'.sent, h.sent, List.append_assoc]
  samples := h'.samples.trans h.samples
  rtt := by rw [h'.rtt, h.rtt, sentPast_append]

theorem Acked.congr_left (hsame : SameClock w w₁) (h : Acked e w₁ w') : Acked e w w' :=
  ⟨hsame.slot ▸ h.slot, h.slot', h.event, hsame.sent ▸ h.sent, by
    rw [← hsame.rtt, ← hsame.samples]
    exact h.measured⟩

theorem Queued.congr_left (hsame : SameClock w w₁) (h : Queued e w₁ w' seg) : Queued e w w' seg :=
  ⟨hsame.slot ▸ h.slot, h.slot', h.kept, hsame.sent ▸ h.sent, h.samples.trans hsame.samples,
    hsame.rtt ▸ h.rtt⟩

theorem SentAgain.congr_left (hsame : SameClock w w₁) (h : SentAgain e w₁ w' seg) : SentAgain e w w' seg :=
  ⟨hsame.slot ▸ h.slot, h.slot', hsame.sent ▸ h.sent, h.samples.trans hsame.samples, hsame.rtt ▸ h.rtt⟩

theorem Outcome.congr_left (hsame : SameClock w w₁) (h : Outcome e w₁ w') : Outcome e w w' := by
  cases h with
  | sends segs past => exact Outcome.sends _ (hsame.past.trans past)
  | acks w2 segs acked past => exact Outcome.acks w2 segs (acked.congr_left hsame) past
  | queues seg queued => exact Outcome.queues seg (queued.congr_left hsame)

theorem Outcome.congr (h : Outcome e w w₁) (hsame : SameClock w₁ w') : Outcome e w w' := by
  cases h with
  | sends segs past => exact Outcome.sends _ (past.trans hsame.past)
  | acks w2 segs acked past => exact Outcome.acks w2 _ acked (past.trans hsame.past)
  | queues seg queued =>
    exact Outcome.queues seg ⟨queued.slot, hsame.slot.trans queued.slot', queued.kept,
      hsame.sent.trans queued.sent, hsame.samples.trans queued.samples, by rw [hsame.rtt]; exact queued.rtt⟩

/-- What an acknowledgment may leave behind: the segment in the queue is acknowledged, or nothing
happens. -/
def AckedOrSame (e : TimedEnv) (w w' : TimedFsm) : Prop := SameClock w w' ∨ Acked e w w'

theorem AckedOrSame.outcome (h : AckedOrSame e w w₁) (h' : Past e w₁ w' segs) : Outcome e w w' := by
  rcases h with hsame | hacked
  · exact Outcome.sends _ (hsame.past.trans h')
  · exact Outcome.acks w₁ segs hacked h'

/-! ## Sending -/

theorem pktSend_past {out : Option Segment} {n : BitVec 16} :
    Past e w (Timed.pktSend e w out n false) out.toList := by
  cases out with
  | none => exact SameClock.refl.past
  | some seg => exact ⟨.inl rfl, id, rfl, rfl, rfl⟩

@[simp] theorem transitionTo_fsm : (Timed.transitionTo e w state).fsm = transitionTo e.toEnv w.fsm state := rfl

theorem buildSend_past : ∃ segs, Past e w (Timed.buildSend e w ctl seqNum ackNum) segs := by
  have hsame : SameClock w { w with fsm := (pktBuild e.toEnv w.fsm ctl seqNum ackNum []).1 } :=
    ⟨rfl, rfl, rfl, rfl, rfl⟩
  exact ⟨_, hsame.past.trans pktSend_past⟩

theorem sendAck_past : ∃ segs, Past e w (Timed.sendAck e w) segs := buildSend_past

theorem transitionTo_eventRetransmit {e : Env} {w : Fsm}
    (h : (transitionTo e w state).tcb.eventRetransmit = true) : w.tcb.eventRetransmit = true := by
  cases state with
  | closed =>
    have hclear : (clearRetransmit w).tcb.eventRetransmit = true := by
      unfold transitionTo transitionToClosed at h
      dsimp only at h
      split at h
      · exact h
      · rw [rcvbufReleaseBuffer_eventRetransmit] at h
        exact h
    unfold clearRetransmit at hclear
    split at hclear
    · cases hclear
    · exact hclear
  | _ => exact h

theorem transitionTo_past : Past e w (Timed.transitionTo e w state) [] where
  slot := by
    rw [transitionTo_fsm, transitionTo_slot]
    split
    · exact .inr rfl
    · exact .inl rfl
  event := transitionTo_eventRetransmit
  sent := by rw [transitionTo_fsm, transitionTo_sent, List.append_nil]
  samples := rfl
  rtt := rfl

theorem transitionTo_same (hstate : state = .synRcvd) : SameClock w (Timed.transitionTo e w state) := by
  rw [hstate]
  exact ⟨rfl, rfl, rfl, rfl, rfl⟩

/-- A segment is put into the queue only if that is empty; it is sent in any case. -/
theorem buildQueueSend_follows : Follows TimedFsm.fsm (Outcome e w)
    (Timed.buildQueueSend e w ctl seqNum ackNum payload)
    (some (buildQueueSend e.toEnv w.fsm ctl seqNum ackNum payload)) := by
  have hsame : SameClock w { w with fsm := (pktBuild e.toEnv w.fsm ctl seqNum ackNum payload).1 } :=
    ⟨rfl, rfl, rfl, rfl, rfl⟩
  unfold Timed.buildQueueSend buildQueueSend Timed.setupRetransmit
  dsimp only
  cases hout : (pktBuild e.toEnv w.fsm ctl seqNum ackNum payload).2 with
  | none => exact Follows.pure rfl (Outcome.sends _ (hsame.past.trans pktSend_past))
  | some seg =>
    dsimp only
    by_cases hslot : w.fsm.tcb.pktRetransmit = none
    · have hfree : ¬((pktBuild e.toEnv w.fsm ctl seqNum ackNum payload).1.tcb.pktRetransmit.isSome = true ∧
          false = false) := by
        intro hc
        rw [pktBuild, hslot] at hc
        cases hc.1
      rw [if_neg hfree]
      by_cases hpure : isUnqueued seg = true
      · rw [if_pos hpure, map_some]
        refine Follows.pure ?_ (Outcome.sends _ (hsame.past.trans pktSend_past))
        unfold setupRetransmit
        dsimp only
        rw [if_neg hfree, if_pos hpure]
        rfl
      · rw [if_neg hpure]
        refine Follows.pure rfl (Outcome.queues seg
          ⟨hslot, ?_, Bool.eq_false_iff.mpr hpure, ?_, rfl, _, rfl, rfl⟩)
        · unfold setupRetransmit
          dsimp only
          rw [if_neg hfree, if_neg hpure]
          rfl
        · unfold setupRetransmit
          dsimp only
          rw [if_neg hfree, if_neg hpure]
          rfl
    · have hfull : (pktBuild e.toEnv w.fsm ctl seqNum ackNum payload).1.tcb.pktRetransmit.isSome = true ∧
          false = false := ⟨isSome_iff_ne_none.mpr hslot, rfl⟩
      rw [if_pos hfull, map_some]
      refine Follows.pure ?_ (Outcome.sends _ (hsame.past.trans pktSend_past))
      unfold setupRetransmit
      dsimp only
      rw [if_pos hfull]
      rfl

/-! ## Acknowledgments -/

theorem takeSample_follows (hest : Estimated w.rtt) : ∃ w', Timed.takeSample e w = some w' ∧
    w'.fsm = w.fsm ∧ Measured e w.rtt w.samples w'.rtt w'.samples := by
  unfold Timed.takeSample
  cases hmeasure : w.rtt.measure e.now with
  | none => exact ⟨w, rfl, rfl, .inl ⟨hmeasure, rfl, rfl⟩⟩
  | some rtt =>
    obtain ⟨r, hr, -, -⟩ := sample_estimated hest (measure_pos hmeasure).2.2
    dsimp only
    rw [hr]
    exact ⟨_, rfl, rfl, .inr ⟨rtt, hmeasure, hr, rfl⟩⟩

theorem pktAcknowledge_follows {ack : Seq} (hest : Estimated w.rtt) : Follows TimedFsm.fsm (AckedOrSame e w)
    (Timed.pktAcknowledge e w ack) (pktAcknowledge w.fsm ack) := by
  unfold Timed.pktAcknowledge pktAcknowledge
  cases hslot : w.fsm.tcb.pktRetransmit with
  | none => exact Follows.pure rfl (.inl SameClock.refl)
  | some pkt =>
    dsimp only
    rw [map_eq_bind]
    refine Follows.bind_same fun b _ => ?_
    cases b with
    | false => exact Follows.pure rfl (.inl SameClock.refl)
    | true =>
      obtain ⟨w', hw', hfsm, hmeasured⟩ := takeSample_follows (e := e)
        (w := { w with fsm.tcb.pktRetransmit := none, fsm.tcb.eventRetransmit := false }) hest
      rw [if_pos rfl, hw']
      refine Follows.pure hfsm (.inr ⟨?_, ?_, ?_, ?_, hmeasured⟩)
      · rw [hslot]
        exact some_ne_none pkt
      all_goals rw [hfsm]

/-- What a segment leaves behind up to the answer: nothing, or the acknowledgment. -/
theorem rcvdSynSentAck_follows (hest : Estimated w.rtt) : Follows TimedFsm.fsm (AckedOrSame e w)
    (Timed.rcvdSynSentAck e w seg) (rcvdSynSentAck w.fsm seg) := by
  unfold Timed.rcvdSynSentAck rcvdSynSentAck
  split
  · refine (pktAcknowledge_follows (e := e) (w := { w with
      fsm.tcb.rcvNxt := seg.seqNum + 1, fsm.tcb.irs := seg.seqNum, fsm.tcb.sndUna := seg.ackNum })
      hest).mono fun w' hw' => ?_
    rcases hw' with hsame | hacked
    · exact .inl ⟨hsame.slot, hsame.event, hsame.sent, hsame.samples, hsame.rtt⟩
    · exact .inr (hacked.congr_left (by exact ⟨rfl, rfl, rfl, rfl, rfl⟩))
  · exact Follows.pure rfl (.inl ⟨rfl, rfl, rfl, rfl, rfl⟩)

/-- The number that an acceptable acknowledgment leaves behind is greater than the first one. -/
theorem rcvdSynSentAck_sndUna {f f' : Fsm} (hack : rcvdSynSentAck f seg = some f') (hctl : seg.ctl.ack = true) :
    f'.tcb.sndUna = seg.ackNum ∧ f'.tcb.iss = f.tcb.iss := by
  unfold rcvdSynSentAck at hack
  rw [if_pos hctl] at hack
  obtain ⟨_, _, htcb⟩ := pktAcknowledge_tcb hack
  rw [htcb]
  exact ⟨rfl, rfl⟩

theorem rcvdSynSentAnswer_acked (hlt : w.fsm.tcb.iss < w.fsm.tcb.sndUna) : Follows TimedFsm.fsm
    (fun w' => ∃ segs, Past e w w' segs) (Timed.rcvdSynSentAnswer e w seg)
    (some (rcvdSynSentAnswer e.toEnv w.fsm seg)) := by
  have hsame : SameClock w { w with fsm.tcb.localAddr := seg.dst } := ⟨rfl, rfl, rfl, rfl, rfl⟩
  obtain ⟨segs, hsend⟩ := sendAck_past (e := e) (w := { w with fsm.tcb.localAddr := seg.dst })
  unfold Timed.rcvdSynSentAnswer rcvdSynSentAnswer
  dsimp only
  rw [if_pos hlt, if_pos hlt, map_some]
  have hopen : Past e w (Timed.transitionTo e (Timed.sendAck e { w with fsm.tcb.localAddr := seg.dst })
      .established) ([] ++ segs ++ []) := (hsame.past.trans hsend).trans transitionTo_past
  refine Follows.pure rfl ⟨[] ++ segs ++ [] ++ [], hopen.trans (SameClock.past ?_)⟩
  exact ⟨rfl, rfl, rfl, rfl, rfl⟩

theorem rcvdSynSentAnswer_queued (hle : ¬w.fsm.tcb.iss < w.fsm.tcb.sndUna) : Follows TimedFsm.fsm
    (Outcome e w) (Timed.rcvdSynSentAnswer e w seg) (some (rcvdSynSentAnswer e.toEnv w.fsm seg)) := by
  have hsame : SameClock w { w with fsm.tcb.localAddr := seg.dst } := ⟨rfl, rfl, rfl, rfl, rfl⟩
  unfold Timed.rcvdSynSentAnswer rcvdSynSentAnswer
  dsimp only
  rw [if_neg hle, if_neg hle, map_map]
  refine Follows.map_some buildQueueSend_follows fun w' hfsm hw' => Follows.pure ?_ ?_
  · rw [← hfsm]
    rfl
  · exact (hw'.congr_left hsame).congr (by exact ⟨rfl, rfl, rfl, rfl, rfl⟩)

theorem rcvdSynSent_follows (hest : Estimated w.rtt) : Follows TimedFsm.fsm (Outcome e w)
    (Timed.rcvdSynSent e w seg) (rcvdSynSent e.toEnv w.fsm seg) := by
  unfold Timed.rcvdSynSent rcvdSynSent
  by_cases hbad : seg.ctl.ack = true ∧ (seg.ackNum ≤ w.fsm.tcb.iss ∨ w.fsm.tcb.sndNxt < seg.ackNum)
  · rw [if_pos hbad, if_pos hbad]
    split
    · exact Follows.pure rfl SameClock.refl.outcome
    · obtain ⟨segs, hsend⟩ : ∃ segs, Past e w (Timed.buildSend e w { rst := true } seg.ackNum 0) segs :=
        buildSend_past
      exact Follows.pure rfl (Outcome.sends segs hsend)
  · rw [if_neg hbad, if_neg hbad]
    split
    · split
      · exact Follows.pure rfl (Outcome.sends [] transitionTo_past)
      · exact Follows.pure rfl SameClock.refl.outcome
    · split
      · rw [map_eq_bind]
        have hacks := @rcvdSynSentAck_follows e w seg hest
        refine Follows.bind (R := fun w₁ => AckedOrSame e w w₁ ∧ rcvdSynSentAck w.fsm seg = some w₁.fsm)
          ⟨hacks.erase, fun w₁ hw1 => ⟨hacks.result w₁ hw1, ?_⟩⟩ fun w₁ hw1 => ?_
        · rw [← hacks.erase, hw1]
          rfl
        · obtain ⟨hacked, hcall⟩ := hw1
          by_cases hlt : w₁.fsm.tcb.iss < w₁.fsm.tcb.sndUna
          · refine (rcvdSynSentAnswer_acked hlt).mono fun w' hw' => ?_
            obtain ⟨segs, hpast⟩ := hw'
            exact hacked.outcome hpast
          · -- an ACK that is no further than the first number does not get here
            have hnoack : seg.ctl.ack ≠ true := by
              intro hctl
              obtain ⟨huna, hiss⟩ := rcvdSynSentAck_sndUna hcall hctl
              rw [huna, hiss] at hlt
              exact hbad ⟨hctl, .inl (BitVec.not_lt.mp hlt)⟩
            have hsame : SameClock w w₁ := by
              have hstart : w₁.fsm = { w.fsm with tcb.rcvNxt := seg.seqNum + 1, tcb.irs := seg.seqNum } := by
                unfold rcvdSynSentAck at hcall
                rw [if_neg hnoack] at hcall
                exact (some.inj hcall).symm
              rcases hacked with hsame | hacked
              · exact hsame
              · have hslot := hacked.slot'
                rw [hstart] at hslot
                exact absurd hslot hacked.slot
            exact (rcvdSynSentAnswer_queued hlt).mono fun w' hw' => hw'.congr_left hsame
      · exact Follows.pure rfl SameClock.refl.outcome

/-- An acknowledgment, if there is one, and behind it segments that are sent past the queue. -/
def AckedPast (e : TimedEnv) (w w' : TimedFsm) : Prop :=
  ∃ w₁ segs, AckedOrSame e w w₁ ∧ Past e w₁ w' segs

theorem AckedPast.outcome (h : AckedPast e w w') : Outcome e w w' := by
  obtain ⟨_, _, hacked, hpast⟩ := h
  exact AckedOrSame.outcome hacked hpast

theorem AckedPast.trans (h : AckedPast e w w₁) (h' : Past e w₁ w' segs) : AckedPast e w w' := by
  obtain ⟨w2, segs2, hacked, hpast⟩ := h
  exact ⟨w2, _, hacked, hpast.trans h'⟩

theorem AckedPast.congr_left (hsame : SameClock w w₁) (h : AckedPast e w₁ w') : AckedPast e w w' := by
  obtain ⟨w2, segs, hacked | hacked, hpast⟩ := h
  · exact ⟨w, [] ++ ([] ++ segs), .inl SameClock.refl, hsame.past.trans (hacked.past.trans hpast)⟩
  · exact ⟨w2, segs, .inr (hacked.congr_left hsame), hpast⟩

theorem Past.ackedPast (h : Past e w w' segs) : AckedPast e w w' := ⟨w, segs, .inl SameClock.refl, h⟩

theorem AckedOrSame.ackedPast (h : AckedOrSame e w w') : AckedPast e w w' := ⟨w', [], h, SameClock.refl.past⟩

theorem Past.estimated (h : Past e w w' segs) (hest : Estimated w.rtt) : Estimated w'.rtt := by
  rw [h.rtt, sentPast]
  split
  · exact hest
  · exact hest

theorem rcvdAckData_follows (hest : Estimated w.rtt) : Follows (Prod.map TimedFsm.fsm id)
    (fun r => AckedPast e w r.1) (Timed.rcvdAckData e w seg) (rcvdAckData e.toEnv w.fsm seg) := by
  refine Follows.bind_same fun acked _ => ?_
  cases acked with
  | true =>
    refine Follows.map (pktAcknowledge_follows (e := e) (w := { w with fsm.tcb.sndUna := seg.ackNum }) hest)
      (fun _ => rfl) fun w' hw' => ?_
    exact hw'.ackedPast.congr_left (by exact ⟨rfl, rfl, rfl, rfl, rfl⟩)
  | false =>
    refine Follows.map_same (fun unsent => ?_) fun unsent _ => ?_
    · cases unsent <;> rfl
    · cases unsent with
      | true =>
        obtain ⟨segs, hsend⟩ : ∃ segs, Past e w (Timed.sendAck e w) segs := sendAck_past
        exact hsend.ackedPast
      | false => exact SameClock.refl.past.ackedPast

theorem rcvdAckWindow_queue {f f' : Fsm} (hcall : rcvdAckWindow f seg = some f') :
    f'.tcb.pktRetransmit = f.tcb.pktRetransmit ∧ f'.tcb.eventRetransmit = f.tcb.eventRetransmit ∧
      f'.sent = f.sent := by
  obtain ⟨current, -, hcall⟩ := bind_eq_some_iff.mp hcall
  cases current with
  | false =>
    cases hcall
    exact ⟨rfl, rfl, rfl⟩
  | true =>
    obtain ⟨later, -, hcall⟩ := bind_eq_some_iff.mp hcall
    obtain ⟨newer, -, rfl⟩ := map_eq_some_iff.mp hcall
    cases newer <;> exact ⟨rfl, rfl, rfl⟩

theorem rcvdAckFin_past {f : Fsm} : Past e { w with fsm := f } { w with fsm := (rcvdAckFin e.toEnv f).1 } [] := by
  have hto : ∀ state, Past e { w with fsm := f } (Timed.transitionTo e { w with fsm := f } state) [] :=
    fun _ => transitionTo_past
  rcases rcvdAckFin_cases (e := e.toEnv) (w := f) with ⟨heq, -⟩ | ⟨-, -, heq⟩ | ⟨-, -, heq⟩ | ⟨-, -, heq⟩
  · rw [heq]
    exact SameClock.refl.past
  · rw [heq]
    exact hto .finWait2
  · rw [heq]
    exact hto .timeWait
  · rw [heq]
    exact hto .closed

theorem rcvdAckRest_follows : Follows (Prod.map TimedFsm.fsm id) (fun r => Past e w r.1 [])
    (Timed.rcvdAckRest e w seg) ((rcvdAckWindow w.fsm seg).map (rcvdAckFin e.toEnv)) := by
  refine Follows.map_same (fun f => rfl) fun f hf => ?_
  obtain ⟨hslot, hevent, hsent⟩ := rcvdAckWindow_queue hf
  have hsame : SameClock w { w with fsm := f } := ⟨hslot, hevent, hsent, rfl, rfl⟩
  exact hsame.past.trans rcvdAckFin_past

theorem rcvdAck_follows (hest : Estimated w.rtt) : Follows (Prod.map TimedFsm.fsm id)
    (fun r => AckedPast e w r.1 ∧ (acksData w.fsm.tcb.state = false → r.1 = w))
    (Timed.rcvdAck e w seg) (rcvdAck e.toEnv w.fsm seg) := by
  unfold Timed.rcvdAck rcvdAck
  by_cases hacks : acksData w.fsm.tcb.state = true
  · rw [if_pos hacks, if_pos hacks]
    refine Follows.bind (rcvdAckData_follows hest) fun r hr => ?_
    obtain ⟨w₁, goesOn⟩ := r
    cases goesOn with
    | true =>
      exact rcvdAckRest_follows.mono fun r' hr' =>
        ⟨AckedPast.trans hr hr', fun hc => absurd hacks (by rw [hc]; decide)⟩
    | false => exact Follows.pure rfl ⟨hr, fun hc => absurd hacks (by rw [hc]; decide)⟩
  · rw [if_neg hacks, if_neg hacks]
    exact Follows.pure rfl ⟨SameClock.refl.past.ackedPast, fun _ => rfl⟩

/-! ## Received segments -/

theorem rcvdListen_follows : Follows TimedFsm.fsm (Outcome e w) (Timed.rcvdListen e w seg)
    (some (rcvdListen e.toEnv w.fsm seg)) := by
  unfold Timed.rcvdListen rcvdListen
  split
  · exact Follows.pure rfl SameClock.refl.outcome
  · split
    · refine Follows.pure rfl (Outcome.congr_left ?_ (Outcome.sends _ pktSend_past))
      exact ⟨rfl, rfl, rfl, rfl, rfl⟩
    · split
      · split
        · exact Follows.pure rfl SameClock.refl.outcome
        · split
          · exact Follows.pure rfl (SameClock.outcome ⟨rfl, rfl, rfl, rfl, rfl⟩)
          · have hsame : SameClock w { w with fsm.tcb := listenTcb w.fsm.tcb e.iss seg } :=
              ⟨rfl, rfl, rfl, rfl, rfl⟩
            refine Follows.map_some buildQueueSend_follows fun w' hfsm hw' => Follows.pure ?_ ?_
            · exact congrArg (fun f => transitionTo e.toEnv f .synRcvd) hfsm
            · exact (hw'.congr_left hsame).congr (transitionTo_same rfl)
      · exact Follows.pure rfl SameClock.refl.outcome

/-- In SYN_RCVD, an acknowledgment opens the connection, or is answered with a reset. -/
theorem rcvdAckSynRcvd_follows : Follows TimedFsm.fsm
    (fun w' => SameClock w w' ∨ (acksData w'.fsm.tcb.state = false ∧ ∃ segs, Past e w w' segs))
    (Timed.rcvdAckSynRcvd e w seg) (rcvdAckSynRcvd e.toEnv w.fsm seg) := by
  unfold Timed.rcvdAckSynRcvd rcvdAckSynRcvd
  split
  · rename_i hstate
    refine Follows.map_same (fun acceptable => ?_) fun acceptable _ => ?_
    · cases acceptable <;> rfl
    · cases acceptable with
      | true => exact .inl ⟨rfl, rfl, rfl, rfl, rfl⟩
      | false =>
        refine .inr ⟨?_, buildSend_past⟩
        show acksData (buildSend e.toEnv w.fsm { rst := true } seg.ackNum 0).tcb.state = false
        rw [buildSend_rst_tcb, hstate]
        rfl
  · exact Follows.pure rfl (.inl SameClock.refl)

theorem storePayload_keeps_sent {f : Fsm} (snips : List (List UInt8)) :
    (storePayload f snips).sent = f.sent := by
  induction snips generalizing f with
  | nil => rfl
  | cons snip snips ih =>
    exact ih

theorem rcvdPayload_past : (Timed.rcvdPayload e w seg).fsm = rcvdPayload e.toEnv w.fsm seg ∧
    ∃ segs, Past e w (Timed.rcvdPayload e w seg) segs := by
  unfold Timed.rcvdPayload rcvdPayload
  split
  · generalize hf : (if w.fsm.tcb.rcvNxt = seg.seqNum then
      ({ storePayload w.fsm seg.payload with
        tcb.rcvWnd := BitVec.ofNat 16 (ringbufferGetFree (storePayload w.fsm seg.payload).tcb.rcvBuf)
        tcb.status.notifyUser := true } : Fsm) else w.fsm) = f
    have hsame : SameClock w { w with fsm := f } := by
      obtain ⟨_, _, hstore⟩ := storePayload_fields (w := w.fsm) seg.payload
      rw [← hf]
      split
      · refine ⟨?_, ?_, storePayload_keeps_sent _, rfl, rfl⟩
        · dsimp only
          rw [hstore]
        · dsimp only
          rw [hstore]
      · exact SameClock.refl
    split
    · exact ⟨rfl, _, hsame.past⟩
    · obtain ⟨segs, hsend⟩ : ∃ segs, Past e { w with fsm := f } (Timed.sendAck e { w with fsm := f }) segs :=
        sendAck_past
      exact ⟨rfl, _, hsame.past.trans hsend⟩
  · exact ⟨rfl, _, SameClock.refl.past⟩

theorem finTransition_past : Past e w { w with fsm := finTransition e.toEnv w.fsm } [] := by
  have hto : ∀ state, Past e w (Timed.transitionTo e w state) [] := fun _ => transitionTo_past
  rcases finTransition_cases (e := e.toEnv) (w := w.fsm) with ⟨-, heq⟩ | ⟨-, heq⟩ | ⟨-, heq⟩ | ⟨-, heq⟩ | ⟨-, heq⟩
  · rw [heq]
    exact hto .closeWait
  · rw [heq]
    exact hto .timeWait
  · rw [heq]
    exact hto .closing
  · rw [heq]
    exact SameClock.past ⟨rfl, rfl, rfl, rfl, rfl⟩
  · rw [heq]
    exact SameClock.refl.past

theorem rcvdFin_past : (Timed.rcvdFin e w seg).fsm = rcvdFin e.toEnv w.fsm seg ∧
    ∃ segs, Past e w (Timed.rcvdFin e w seg) segs := by
  unfold Timed.rcvdFin rcvdFin
  dsimp only
  split
  · split
    · exact ⟨rfl, _, SameClock.refl.past⟩
    · have hsame : SameClock w { w with fsm.tcb.rcvNxt := seg.seqNum + getSegLen seg } :=
        ⟨rfl, rfl, rfl, rfl, rfl⟩
      obtain ⟨segs, hsend⟩ := sendAck_past (e := e)
        (w := { w with fsm.tcb.rcvNxt := seg.seqNum + getSegLen seg })
      exact ⟨rfl, _, (hsame.past.trans hsend).trans finTransition_past⟩
  · exact ⟨rfl, _, SameClock.refl.past⟩

theorem rcvdAcked_follows (hest : Estimated w.rtt) : Follows TimedFsm.fsm (Outcome e w)
    (Timed.rcvdAcked e w seg) (rcvdAcked e.toEnv w.fsm seg) := by
  refine Follows.bind rcvdAckSynRcvd_follows fun w₁ hw1 => ?_
  have hest1 : Estimated w₁.rtt := by
    rcases hw1 with hsame | ⟨-, _, hpast⟩
    · exact hsame.rtt ▸ hest
    · exact hpast.estimated hest
  have hacked : ∀ w2, AckedPast e w₁ w2 ∧ (acksData w₁.fsm.tcb.state = false → w2 = w₁) →
      AckedPast e w w2 := by
    intro w2 ⟨hw2, hnone⟩
    rcases hw1 with hsame | ⟨hstate, _, hpast⟩
    · exact hw2.congr_left hsame
    · -- the reset leaves the state as it is, and nothing is acknowledged there
      rw [hnone hstate]
      exact hpast.ackedPast
  refine Follows.map (rcvdAck_follows hest1) (fun r => ?_) fun r hr => ?_
  · obtain ⟨w2, goesOn⟩ := r
    cases goesOn with
    | true =>
      show (Timed.rcvdFin e (Timed.rcvdPayload e w2 seg) seg).fsm =
        rcvdFin e.toEnv (rcvdPayload e.toEnv w2.fsm seg) seg
      rw [rcvdFin_past.1, rcvdPayload_past.1]
    | false => rfl
  · obtain ⟨w2, goesOn⟩ := r
    cases goesOn with
    | true =>
      obtain ⟨segs, hpay⟩ := (@rcvdPayload_past e w2 seg).2
      obtain ⟨segs', hfin⟩ := (@rcvdFin_past e (Timed.rcvdPayload e w2 seg) seg).2
      exact (((hacked w2 hr).trans hpay).trans hfin).outcome
    | false => exact (hacked w2 hr).outcome

theorem rcvdOther_follows (hest : Estimated w.rtt) : Follows TimedFsm.fsm (Outcome e w)
    (Timed.rcvdOther e w seg) (rcvdOther e.toEnv w.fsm seg) := by
  refine Follows.bind_same fun acceptable _ => ?_
  split
  · split
    · exact Follows.pure rfl SameClock.refl.outcome
    · obtain ⟨segs, hsend⟩ : ∃ segs, Past e w (Timed.sendAck e w) segs := sendAck_past
      exact Follows.pure rfl (Outcome.sends segs hsend)
  · split
    · split
      · exact Follows.pure rfl (Outcome.sends [] transitionTo_past)
      · exact Follows.pure rfl (Outcome.sends [] transitionTo_past)
    · split
      · obtain ⟨segs, hsend⟩ : ∃ segs, Past e w
            (Timed.buildSend e w { rst := true } w.fsm.tcb.sndNxt w.fsm.tcb.rcvNxt) segs := buildSend_past
        exact Follows.pure rfl (Outcome.sends _ (hsend.trans transitionTo_past))
      · split
        · exact Follows.pure rfl SameClock.refl.outcome
        · exact rcvdAcked_follows hest

theorem fsmRcvdPkt_follows (hest : Estimated w.rtt) : Follows TimedFsm.fsm (Outcome e w)
    (Timed.fsmRcvdPkt e w seg) (fsmRcvdPkt e.toEnv w.fsm seg) := by
  have hsame : SameClock w { w with fsm := (optionParse w.fsm seg).1 } := ⟨rfl, rfl, rfl, rfl, rfl⟩
  unfold Timed.fsmRcvdPkt fsmRcvdPkt
  dsimp only
  split
  · exact Follows.pure rfl hsame.outcome
  · cases (optionParse w.fsm seg).1.tcb.state with
    | listen => exact rcvdListen_follows.mono fun _ h => h.congr_left hsame
    | synSent =>
      exact (rcvdSynSent_follows (w := { w with fsm := (optionParse w.fsm seg).1 }) hest).mono
        fun _ h => h.congr_left hsame
    | _ =>
      exact (rcvdOther_follows (w := { w with fsm := (optionParse w.fsm seg).1 }) hest).mono
        fun _ h => h.congr_left hsame

/-! ## Calls of the user, and timers -/

theorem rcvbufGetBuffer_queue {f f' : Fsm} (hget : rcvbufGetBuffer f = some f') :
    f'.tcb.pktRetransmit = f.tcb.pktRetransmit ∧ f'.tcb.eventRetransmit = f.tcb.eventRetransmit ∧
      f'.sent = f.sent := by
  unfold rcvbufGetBuffer at hget
  split at hget
  · cases hget
    exact ⟨rfl, rfl, rfl⟩
  · obtain ⟨_, _, rfl⟩ := map_eq_some_iff.mp hget
    exact ⟨rfl, rfl, rfl⟩

theorem transitionToSynSent_queue {e : Env} {f f' : Fsm} {ret : Int}
    (hto : transitionToSynSent e f = some (f', ret)) :
    f'.tcb.pktRetransmit = f.tcb.pktRetransmit ∧ f'.tcb.eventRetransmit = f.tcb.eventRetransmit ∧
      f'.sent = f.sent := by
  unfold transitionToSynSent at hto
  split at hto
  · cases hto
    exact ⟨rfl, rfl, rfl⟩
  · split at hto
    · split at hto
      · cases hto
        exact ⟨rfl, rfl, rfl⟩
      · cases hto
        exact ⟨rfl, rfl, rfl⟩
    · obtain ⟨_, _, heq⟩ := map_eq_some_iff.mp hto
      cases heq
      exact ⟨rfl, rfl, rfl⟩

theorem fsmCallOpen_follows : Follows TimedFsm.fsm (Outcome e w) (Timed.fsmCallOpen e w)
    (fsmCallOpen e.toEnv w.fsm) := by
  unfold Timed.fsmCallOpen fsmCallOpen
  cases hget : rcvbufGetBuffer w.fsm with
  | none => exact Follows.pure rfl (SameClock.outcome ⟨rfl, rfl, rfl, rfl, rfl⟩)
  | some f =>
    obtain ⟨hslot, hevent, hsent⟩ := rcvbufGetBuffer_queue hget
    dsimp only
    split
    · have hsame : SameClock w { w with fsm := { f with tcb.rcvWnd := BitVec.ofNat 16 configDefaultWindow } } :=
        ⟨hslot, hevent, hsent, rfl, rfl⟩
      exact Follows.pure rfl (Outcome.sends _ (hsame.past.trans transitionTo_past))
    · rw [map_eq_bind]
      refine Follows.bind_same fun r hto => ?_
      obtain ⟨f1, ret⟩ := r
      obtain ⟨hslot1, hevent1, hsent1⟩ := transitionToSynSent_queue hto
      have hsame : SameClock w { w with fsm := f1 } :=
        ⟨hslot1.trans hslot, hevent1.trans hevent, hsent1.trans hsent, rfl, rfl⟩
      dsimp only [Function.comp]
      split
      · have hclosed : Past e w (Timed.transitionTo e { w with fsm := f1 } .closed) ([] ++ []) :=
          hsame.past.trans transitionTo_past
        exact Follows.pure rfl (Outcome.sends _ ⟨hclosed.slot, hclosed.event, hclosed.sent, rfl, rfl⟩)
      · exact buildQueueSend_follows.mono fun _ h => h.congr_left hsame

theorem fsmCallSend_follows {buf : List UInt8} : Follows TimedFsm.fsm (Outcome e w)
    (Timed.fsmCallSend e w buf) (some (fsmCallSend e.toEnv w.fsm buf)) := by
  unfold Timed.fsmCallSend fsmCallSend
  dsimp only
  split
  · refine Follows.map_some buildQueueSend_follows fun w' hfsm hw' => Follows.pure ?_ ?_
    · rw [← hfsm]
    · exact hw'.congr (by exact ⟨rfl, rfl, rfl, rfl, rfl⟩)
  · exact Follows.pure rfl SameClock.refl.outcome

theorem fsmCallRecv_past {len : Nat} : (Timed.fsmCallRecv e w len).fsm = fsmCallRecv e.toEnv w.fsm len ∧
    ∃ segs, Past e w (Timed.fsmCallRecv e w len) segs := by
  unfold Timed.fsmCallRecv fsmCallRecv
  split
  · exact ⟨rfl, _, SameClock.refl.past⟩
  · dsimp only
    split
    · refine ⟨rfl, _, Past.trans (SameClock.past ?_) sendAck_past.choose_spec⟩
      exact ⟨rfl, rfl, rfl, rfl, rfl⟩
    · exact ⟨rfl, _, SameClock.past ⟨rfl, rfl, rfl, rfl, rfl⟩⟩

/-- Behind the FIN, the connection is not closed; where there is no FIN, nothing is in the queue that
was not there before. -/
theorem fsmCallClose_follows : Follows TimedFsm.fsm (Outcome e w) (Timed.fsmCallClose e w)
    (some (fsmCallClose e.toEnv w.fsm)) := by
  unfold Timed.fsmCallClose Timed.callCloseFin fsmCallClose callCloseFin
  dsimp only
  split
  · rename_i hstate
    refine Follows.map_some buildQueueSend_follows fun w' hfsm hw' => Follows.pure ?_ ?_
    · rw [hfsm]
    · have hstate' : w'.fsm.tcb.state = w.fsm.tcb.state := by rw [hfsm, buildQueueSend_state]
      refine hw'.congr ?_
      unfold callCloseTransition
      rw [hstate']
      rcases hstate with hs | hs | hs <;> rw [hs] <;> exact ⟨rfl, rfl, rfl, rfl, rfl⟩
  · have hto : ∀ state, Outcome e w (Timed.transitionTo e w state) :=
      fun _ => Outcome.sends [] transitionTo_past
    refine Follows.pure rfl ?_
    unfold callCloseTransition
    dsimp only
    split
    · exact hto .closed
    · split
      · exact hto .finWait1
      · split
        · exact hto .lastAck
        · exact SameClock.refl.outcome

theorem fsmCallAbort_past : (Timed.fsmCallAbort e w).fsm = fsmCallAbort e.toEnv w.fsm ∧
    ∃ segs, Past e w (Timed.fsmCallAbort e w) segs := by
  unfold Timed.fsmCallAbort fsmCallAbort
  dsimp only
  split
  · obtain ⟨segs, hsend⟩ : ∃ segs, Past e w
        (Timed.buildSend e w { rst := true } w.fsm.tcb.sndNxt w.fsm.tcb.rcvNxt) segs := buildSend_past
    exact ⟨rfl, _, hsend.trans transitionTo_past⟩
  · exact ⟨rfl, _, transitionTo_past⟩

/-- The RTO of a queued segment is between its bounds, so that it can be doubled. -/
theorem fsmTimeoutRetransmit_follows (hok : RttOk w.fsm.tcb w.rtt) : Follows TimedFsm.fsm
    (fun w' => SameClock w w' ∧ w.fsm.tcb.pktRetransmit = none ∨ ∃ seg, SentAgain e w w' seg)
    (Timed.fsmTimeoutRetransmit e w) (some (fsmTimeoutRetransmit w.fsm)) := by
  unfold Timed.fsmTimeoutRetransmit fsmTimeoutRetransmit
  cases hslot : w.fsm.tcb.pktRetransmit with
  | none => exact Follows.pure rfl (.inl ⟨SameClock.refl, rfl⟩)
  | some seg =>
    have hbounded : RtoBounded w.rtt := hok.bounded (.inl (by rw [hslot]; exact some_ne_none seg))
    have hkept : ¬isUnqueued seg = true := by
      rw [hok.kept seg hslot]
      decide
    obtain ⟨rto, hrto⟩ := isSome_iff_exists.mp (signedDouble_isSome hbounded)
    have hsetup : w.rtt.setup true = some { w.rtt.dropBogus with rto := boundRto rto } := by
      unfold Rtt.setup
      rw [if_pos rfl, hrto]
      rfl
    have hfull : ¬(w.fsm.tcb.pktRetransmit.isSome = true ∧ true = false) := by
      intro hc
      cases hc.2
    have hqueue : setupRetransmit w.fsm (some seg) true =
        { w.fsm with tcb.pktRetransmit := some seg, tcb.eventRetransmit := true } := by
      unfold setupRetransmit
      dsimp only
      rw [if_neg hfull, if_neg hkept]
    unfold Timed.setupRetransmit
    dsimp only
    rw [if_pos isSome_some, if_pos isSome_some, if_neg hfull, if_neg hkept, hsetup, hqueue]
    exact Follows.pure rfl (.inr ⟨seg, hslot, rfl, rfl, rfl, _, hsetup, rfl⟩)

theorem fsmSendProbe_past : ∃ segs, Past e w (Timed.fsmSendProbe e w) segs := by
  have hsame : SameClock w { w with
      fsm := (pktBuild e.toEnv w.fsm { ack := true } (w.fsm.tcb.sndUna - 1) w.fsm.tcb.rcvNxt [1]).1 } :=
    ⟨rfl, rfl, rfl, rfl, rfl⟩
  exact ⟨_, hsame.past.trans pktSend_past⟩

theorem clearRetransmit_past : Past e w { w with fsm := clearRetransmit w.fsm } [] where
  slot := .inr clearRetransmit_slot
  event := by
    intro hevent
    unfold clearRetransmit at hevent
    split at hevent
    · cases hevent
    · exact hevent
  sent := by rw [clearRetransmit_sent, List.append_nil]
  samples := rfl
  rtt := rfl

/-- What a call does to the retransmit queue and to the fields about time. -/
def CallOutcome (e : TimedEnv) (w w' : TimedFsm) (event : Event) : Prop :=
  (event ≠ .timeoutRetransmit ∧ Outcome e w w') ∨
    (event = .timeoutRetransmit ∧
      (SameClock w w' ∧ w.fsm.tcb.pktRetransmit = none ∨ ∃ seg, SentAgain e w w' seg))

/-- **The clock of a call.** Without it, the call is the one of the state machine without clock: no
computation with times overflows. -/
theorem fsm_follows (hok : RttOk w.fsm.tcb w.rtt) (event : Event) : Follows TimedFsm.fsm
    (fun w' => CallOutcome e w w' event) (Timed.fsm e w event) (fsm e.toEnv w.fsm event) := by
  have hsame : SameClock w { w with fsm.tcb.status.notifyUser := false } := ⟨rfl, rfl, rfl, rfl, rfl⟩
  have hok' : RttOk { w.fsm.tcb with status.notifyUser := false } w.rtt :=
    ⟨hok.estimated, hok.kept, hok.bounded⟩
  unfold Timed.fsm fsm
  generalize hw0 : ({ w with fsm.tcb.status.notifyUser := false } : TimedFsm) = w0 at hsame
  have hfsm : ({ w.fsm with tcb.status.notifyUser := false } : Fsm) = w0.fsm := by rw [← hw0]
  replace hok' : RttOk w0.fsm.tcb w0.rtt := by
    rw [← hw0]
    exact hok'
  rw [hfsm]
  cases event with
  | callOpen => exact fsmCallOpen_follows.mono fun _ h => .inl ⟨by decide, h.congr_left hsame⟩
  | callSend buf => exact fsmCallSend_follows.mono fun _ h => .inl ⟨by simp, h.congr_left hsame⟩
  | callRecv len =>
    obtain ⟨segs, hpast⟩ := (@fsmCallRecv_past e w0 len).2
    exact Follows.pure fsmCallRecv_past.1 (.inl ⟨by simp, (Outcome.sends segs hpast).congr_left hsame⟩)
  | callClose => exact fsmCallClose_follows.mono fun _ h => .inl ⟨by decide, h.congr_left hsame⟩
  | callAbort =>
    obtain ⟨segs, hpast⟩ := (fsmCallAbort_past (e := e) (w := w0)).2
    exact Follows.pure fsmCallAbort_past.1 (.inl ⟨by decide, (Outcome.sends segs hpast).congr_left hsame⟩)
  | rcvdPkt seg =>
    exact (fsmRcvdPkt_follows hok'.estimated).mono fun _ h => .inl ⟨by simp, h.congr_left hsame⟩
  | timeoutTimewait =>
    exact Follows.pure rfl (.inl ⟨by decide, (Outcome.sends [] transitionTo_past).congr_left hsame⟩)
  | timeoutRetransmit =>
    refine (fsmTimeoutRetransmit_follows hok').mono fun w' hw' => .inr ⟨rfl, ?_⟩
    rcases hw' with ⟨hsame', hnone⟩ | ⟨seg, hagain⟩
    · exact .inl ⟨hsame.trans hsame', hsame.slot ▸ hnone⟩
    · exact .inr ⟨seg, hagain.congr_left hsame⟩
  | timeoutConnection =>
    exact Follows.pure rfl (.inl ⟨by decide, (Outcome.sends [] transitionTo_past).congr_left hsame⟩)
  | sendProbe =>
    obtain ⟨segs, hpast⟩ := fsmSendProbe_past (e := e) (w := w0)
    exact Follows.pure rfl (.inl ⟨by decide, (Outcome.sends segs hpast).congr_left hsame⟩)
  | clearRetransmit =>
    exact Follows.pure rfl (.inl ⟨by decide, (Outcome.sends [] clearRetransmit_past).congr_left hsame⟩)

/-! ## What outcomes keep -/

theorem Past.rttOk (h : Past e w w' segs) (hok : RttOk w.fsm.tcb w.rtt) : RttOk w'.fsm.tcb w'.rtt where
  estimated := h.estimated hok.estimated
  kept := by
    intro seg hslot'
    rcases h.slot with hslot | hslot
    · exact hok.kept seg (hslot ▸ hslot')
    · rw [hslot] at hslot'
      cases hslot'
  bounded := by
    intro huse
    have hrto : w'.rtt.rto = w.rtt.rto := by
      rw [h.rtt, sentPast]
      split <;> rfl
    unfold RtoBounded
    rw [hrto]
    refine hok.bounded ?_
    rcases huse with hslot' | hevent
    · rcases h.slot with hslot | hslot
      · exact .inl (hslot ▸ hslot')
      · exact absurd hslot hslot'
    · exact .inr (h.event hevent)

theorem Acked.rttOk (h : Acked e w w') (hok : RttOk w.fsm.tcb w.rtt) : RttOk w'.fsm.tcb w'.rtt where
  estimated := by
    rcases h.measured with ⟨-, hrtt, -⟩ | ⟨rtt, hmeasure, hsample, -⟩
    · rw [hrtt]
      exact hok.estimated
    · obtain ⟨r, hr, hest, -⟩ := sample_estimated hok.estimated (measure_pos hmeasure).2.2
      obtain rfl := some.inj (hr.symm.trans hsample)
      exact hest
  kept := by
    intro seg hslot
    rw [h.slot'] at hslot
    cases hslot
  bounded := by
    intro huse
    rcases huse with hslot | hevent
    · exact absurd h.slot' hslot
    · rw [h.event] at hevent
      cases hevent

theorem setup_rttOk {t : Tcb} {r r' : Rtt} {again : Bool} {now : BitVec 32} (hest : Estimated r)
    (hsetup : r.setup again = some r') (hslot : t.pktRetransmit = some seg) (hkept : isUnqueued seg = false) :
    RttOk t (r'.send now again) := by
  have hest' : Estimated r' := setup_estimated hest hsetup
  have hbounded : RtoBounded r' := setup_bounded hsetup
  refine ⟨?_, fun seg' hslot' => ?_, fun _ => ?_⟩
  · cases again <;> exact hest'
  · rw [← some.inj (hslot.symm.trans hslot')]
    exact hkept
  · cases again <;> exact hbounded

theorem SameClock.rttOk (h : SameClock w w') (hok : RttOk w.fsm.tcb w.rtt) : RttOk w'.fsm.tcb w'.rtt where
  estimated := h.rtt ▸ hok.estimated
  kept := h.slot ▸ hok.kept
  bounded := by
    rw [h.slot, h.event, h.rtt]
    exact hok.bounded

/-- Whatever a call does, the estimates stay right, and the RTO of a queued segment between its
bounds. -/
theorem CallOutcome.rttOk {event : Event} (h : CallOutcome e w w' event) (hok : RttOk w.fsm.tcb w.rtt) :
    RttOk w'.fsm.tcb w'.rtt := by
  rcases h with ⟨-, hout⟩ | ⟨-, ⟨hsame, -⟩ | ⟨seg, hagain⟩⟩
  · cases hout with
    | sends segs past => exact past.rttOk hok
    | acks w₁ segs acked past => exact past.rttOk (acked.rttOk hok)
    | queues seg queued =>
      obtain ⟨r, hsetup, hrtt⟩ := queued.rtt
      rw [hrtt]
      exact setup_rttOk hok.estimated hsetup queued.slot' queued.kept
  · exact hsame.rttOk hok
  · obtain ⟨r, hsetup, hrtt⟩ := hagain.rtt
    rw [hrtt]
    exact setup_rttOk hok.estimated hsetup hagain.slot' (hok.kept seg hagain.slot)

end Riot.Tcp
