import Riot.Tcp.Machine

/-!
# How a connection begins

A new initial sequence number is chosen in two places: by an open that is not for
listening, once it has a receive buffer and a port, and by a SYN that LISTEN takes.
-/

namespace Riot.Tcp

/-- The states of a connection, from the SYN on. -/
def inConnection (state : State) : Bool := state ≠ .closed ∧ state ≠ .listen

/-- LISTEN takes the SYN of a segment. -/
def AdmitsSyn (e : Env) (w : Fsm) (seg : Segment) : Prop :=
  w.tcb.state = .listen ∧ seg.ctl.syn ∧ seg.ctl.rst = false ∧ seg.ctl.ack = false ∧
    (optionParse w seg).2 = true ∧ isHandled e w seg = false ∧ ¬(addrIsLinkLocal seg.src ∧ seg.netif = none)

instance (e : Env) (w : Fsm) (seg : Segment) : Decidable (AdmitsSyn e w seg) :=
  inferInstanceAs (Decidable (_ ∧ _))

/-- There is a receive buffer for the TCB. -/
def HasBuffer (w : Fsm) : Prop := w.tcb.rcvBufRaw.isSome ∨ w.bufUsed.any (fun used => !used)

instance (w : Fsm) : Decidable (HasBuffer w) := inferInstanceAs (Decidable (_ ∨ _))

/-- A connection is opened actively: there are a receive buffer and a port. -/
def OpensActively (e : Env) (w : Fsm) : Prop :=
  w.tcb.status.listening = false ∧ HasBuffer w ∧
    (e.me ∈ w.list ∨ w.tcb.localPort = portUnspec ∨ isLocalPortInUse e w w.tcb.localPort = false)

instance (e : Env) (w : Fsm) : Decidable (OpensActively e w) := inferInstanceAs (Decidable (_ ∧ _))

variable {e : Env} {w w' : Fsm} {seg : Segment}

theorem isLocalPortInUse_congr {port : Port} (hlist : w'.list = w.list)
    (hport : w'.tcb.localPort = w.tcb.localPort) :
    isLocalPortInUse e w' port = isLocalPortInUse e w port := by
  unfold isLocalPortInUse
  rw [hlist]
  refine List.any_congr rfl fun id => ?_
  unfold tcbAt
  split
  · rw [hport]
  · rfl

theorem rcvbufGetBuffer_isSome (hget : rcvbufGetBuffer w = some w') :
    (w.tcb.rcvBufRaw.isSome ∨ w.bufUsed.any (fun used => !used)) ∧ w'.list = w.list := by
  unfold rcvbufGetBuffer at hget
  split at hget
  · rename_i i hraw
    cases hget
    exact ⟨Or.inl (by rw [hraw]; rfl), rfl⟩
  · obtain ⟨i, hfind, rfl⟩ := Option.map_eq_some_iff.mp hget
    refine ⟨Or.inr ?_, rfl⟩
    rw [← List.findIdx?_isSome, hfind]
    rfl

theorem transitionToSynSent_port {w1 : Fsm} {ret : Int} (hto : transitionToSynSent e w1 = some (w', ret))
    (hret : ¬ret < 0) (hlist : w1.list = w.list) (hlocal : w1.tcb.localPort = w.tcb.localPort) :
    e.me ∈ w.list ∨ w.tcb.localPort = portUnspec ∨ isLocalPortInUse e w w.tcb.localPort = false := by
  unfold transitionToSynSent at hto
  rw [isLocalPortInUse_congr hlist hlocal, hlist, hlocal] at hto
  split at hto
  · rename_i hmem
    exact Or.inl hmem
  · split at hto
    · split at hto
      · cases hto
        exact absurd (by decide) hret
      · rename_i hfree
        exact Or.inr (Or.inr (Bool.eq_false_iff.mpr hfree))
    · rename_i hport
      exact Or.inr (Or.inl (not_not.mp hport))

theorem isHandled_optionParse : isHandled e (optionParse w seg).1 seg = isHandled e w seg := by
  refine List.any_congr rfl fun id => ?_
  unfold tcbAt
  split <;> rfl

@[simp] theorem pktSend_ret {out : Option Segment} {n : BitVec 16} {again : Bool} :
    (pktSend w out n again).ret = w.ret := by
  cases out <;> rfl

@[simp] theorem setupRetransmit_ret {out : Option Segment} {again : Bool} :
    (setupRetransmit w out again).ret = w.ret := by
  unfold setupRetransmit
  split
  · rfl
  · split
    · rfl
    · split <;> rfl

@[simp] theorem buildQueueSend_ret {ctl : Ctl} {seqNum ackNum : Seq} {payload : List UInt8} :
    (buildQueueSend e w ctl seqNum ackNum payload).ret = w.ret := by
  unfold buildQueueSend pktBuild
  rw [pktSend_ret, setupRetransmit_ret]

/-- The four ways of an open: there is no buffer, the TCB listens, its port is in use, or the SYN is
sent. -/
theorem fsmCallOpen_cases (hcall : fsmCallOpen e w = some w') : (w'.tcb = w.tcb ∧ w'.ret < 0) ∨
      (HasBuffer w ∧ w.tcb.status.listening = true ∧
        ∃ (w1 : Fsm) (raw : Option Nat) (buf : List UInt8) (wnd : BitVec 16),
        w1.tcb = { w.tcb with rcvBufRaw := raw, rcvBuf := buf, rcvWnd := wnd } ∧
          w'.tcb = (transitionTo e w1 .listen).tcb) ∨
      (HasBuffer w ∧ ∃ (w1 : Fsm) (raw : Option Nat) (buf : List UInt8) (wnd : BitVec 16),
        w1.tcb = { w.tcb with
          rcvBufRaw := raw, rcvBuf := buf, rcvWnd := wnd, iss := e.iss, sndNxt := e.iss, sndUna := e.iss } ∧
        w'.tcb = (transitionTo e w1 .closed).tcb) ∨
      (OpensActively e w ∧ ∃ (w1 : Fsm) (raw : Option Nat) (buf : List UInt8) (wnd : BitVec 16) (port : Port),
        w1.tcb = { w.tcb with
          rcvBufRaw := raw, rcvBuf := buf, rcvWnd := wnd, iss := e.iss, sndNxt := e.iss, sndUna := e.iss
          localPort := port, state := .synSent } ∧
        w1.ret = w.ret ∧ (w.tcb.rcvBufRaw = none ∨ w.tcb.rcvBuf = [] → buf = []) ∧
        w' = buildQueueSend e w1 { syn := true } w1.tcb.iss 0 []) := by
  unfold fsmCallOpen at hcall
  split at hcall
  · cases hcall
    refine Or.inl ⟨rfl, ?_⟩
    show (-12 : Int) < 0
    decide
  · rename_i w1 hget
    obtain ⟨raw, buf, htcb1, hret1, hempty⟩ := rcvbufGetBuffer_tcb hget
    obtain ⟨hbuf, hlist⟩ := rcvbufGetBuffer_isSome hget
    dsimp only at hcall
    split at hcall
    · rename_i hlisten
      rw [htcb1] at hlisten
      cases hcall
      exact Or.inr (Or.inl ⟨hbuf, hlisten, _, raw, buf, _, by rw [htcb1], rfl⟩)
    · rename_i hlisten
      obtain ⟨⟨w2, ret⟩, hto, rfl⟩ := Option.map_eq_some_iff.mp hcall
      obtain ⟨hneg, rfl⟩ | ⟨hzero, port, htcb, hret2⟩ := transitionToSynSent_tcb hto
      · rw [if_pos hneg]
        exact Or.inr (Or.inr (Or.inl ⟨hbuf, _, raw, buf, _, by rw [htcb1], rfl⟩))
      · have hret : ¬ret < 0 := by omega
        rw [if_neg hret]
        refine Or.inr (Or.inr (Or.inr ⟨⟨?_, hbuf, transitionToSynSent_port hto hret hlist (by rw [htcb1])⟩,
          w2, raw, buf, BitVec.ofNat 16 configDefaultWindow, port, ?_, hret2.trans hret1, hempty, rfl⟩))
        · rw [htcb1] at hlisten
          exact Bool.eq_false_iff.mpr hlisten
        · rw [htcb, htcb1]

theorem rcvdListen_cases (hstate : w.tcb.state = .listen) (hvalid : (optionParse w seg).2 = true) :
    (∃ localAddr peerAddr, (rcvdListen e (optionParse w seg).1 seg).tcb =
        { (optionParse w seg).1.tcb with localAddr := localAddr, peerAddr := peerAddr }) ∨
      (AdmitsSyn e w seg ∧ ∃ w1, w1.tcb = listenTcb (optionParse w seg).1.tcb e.iss seg ∧ w1.ret = w.ret ∧
        rcvdListen e (optionParse w seg).1 seg = transitionTo e
          (buildQueueSend e w1 { syn := true, ack := true } w1.tcb.iss w1.tcb.rcvNxt []) .synRcvd) := by
  unfold rcvdListen
  split
  · exact Or.inl ⟨_, _, rfl⟩
  · rename_i hrst
    split
    · unfold pktBuildResetFromPkt
      rw [pktSend_zero]
      exact Or.inl ⟨_, _, rfl⟩
    · rename_i hack
      split
      · rename_i hsyn
        split
        · exact Or.inl ⟨_, _, rfl⟩
        · rename_i hhandled
          rw [isHandled_optionParse] at hhandled
          split
          · exact Or.inl ⟨_, _, rfl⟩
          · rename_i hlocal
            exact Or.inr ⟨⟨hstate, hsyn, Bool.eq_false_iff.mpr hrst, Bool.eq_false_iff.mpr hack,
              hvalid, Bool.eq_false_iff.mpr hhandled, hlocal⟩,
              { (optionParse w seg).1 with tcb := listenTcb (optionParse w seg).1.tcb e.iss seg }, rfl, rfl, rfl⟩
      · exact Or.inl ⟨_, _, rfl⟩

/-! ## Between connections -/

theorem idle_iff {state : State} : inConnection state = false ↔ state = .closed ∨ state = .listen := by
  cases state <;> decide

theorem idle_toClosed : inConnection (transitionTo e w .closed).tcb.state = false := by
  rw [transitionTo_state]
  exact idle_iff.mpr stateAfter_closed

theorem rcvdOther_closed (hstate : w.tcb.state = .closed) (hcall : rcvdOther e w seg = some w') :
    inConnection w'.tcb.state = false := by
  have hclosed : inConnection w.tcb.state = false := idle_iff.mpr (Or.inl hstate)
  rcases rcvdOther_cases hcall with ⟨-, htcb⟩ | ⟨-, ⟨-, ⟨hs, -⟩ | rfl⟩ | ⟨-, -, w1, -, rfl⟩ | ⟨-, -, -, rfl⟩ |
    ⟨-, -, -, hacked⟩⟩
  · rw [htcb]
    exact hclosed
  · rw [hstate] at hs
    cases hs
  · exact idle_toClosed
  · exact idle_toClosed
  · exact hclosed
  · obtain ⟨w1, w2, goesOn, hsyn, hack, rfl⟩ := rcvdAcked_cases hacked
    obtain rfl : w1 = w := by
      rcases rcvdAckSynRcvd_cases hsyn with ⟨-, rfl⟩ | ⟨hs, -⟩ | ⟨hs, -⟩
      · rfl
      · rw [hstate] at hs
        cases hs
      · rw [hstate] at hs
        cases hs
    obtain rfl : w2 = w1 := by
      rcases rcvdAck_cases hack with ⟨-, rfl, -⟩ | ⟨hs, -⟩ | ⟨hs, -⟩
      · rfl
      · rw [hstate] at hs
        cases hs
      · rw [hstate] at hs
        cases hs
    obtain ⟨_, _, _, _, htcb, -⟩ := @rcvdPayload_fields e w2 seg
    have hpayload : (rcvdPayload e w2 seg).tcb.state = .closed := by rw [htcb]; exact hstate
    split
    · unfold rcvdFin
      rw [if_pos (Or.inl hpayload), ite_self]
      exact idle_iff.mpr (Or.inl hpayload)
    · exact hclosed

theorem stays_idle {event : Event} (hidle : inConnection w.tcb.state = false) (hopen : event ≠ .callOpen)
    (hpkt : ∀ seg, event ≠ .rcvdPkt seg) (hcall : fsmUnprotected e w event = some w') :
    inConnection w'.tcb.state = false := by
  cases event with
  | callOpen => exact absurd rfl hopen
  | rcvdPkt seg => exact absurd rfl (hpkt seg)
  | callSend buf =>
    cases hcall
    unfold fsmCallSend
    dsimp only
    split
    · rw [buildQueueSend_state]
      exact hidle
    · exact hidle
  | callRecv len =>
    cases hcall
    unfold fsmCallRecv
    dsimp only
    split
    · exact hidle
    · split
      · rw [sendAck_tcb]
        exact hidle
      · exact hidle
  | callClose =>
    cases hcall
    have hfin : callCloseFin e w = w := by
      unfold callCloseFin
      rw [if_neg]
      rintro (hs | hs | hs) <;> rw [hs] at hidle <;> cases hidle
    unfold fsmCallClose callCloseTransition
    rw [hfin]
    rcases idle_iff.mp hidle with hs | hs
    · rw [hs]
      exact hidle
    · rw [hs]
      exact idle_toClosed
  | callAbort =>
    cases hcall
    exact idle_toClosed
  | timeoutTimewait =>
    cases hcall
    exact idle_toClosed
  | timeoutConnection =>
    cases hcall
    exact idle_toClosed
  | timeoutRetransmit =>
    cases hcall
    obtain ⟨_, heq, -⟩ := fsmTimeoutRetransmit_tcb (w := w)
    rw [heq]
    exact hidle
  | sendProbe =>
    cases hcall
    rw [fsmSendProbe_tcb]
    exact hidle
  | clearRetransmit =>
    cases hcall
    rw [clearRetransmit_state]
    exact hidle

theorem begins_of_idle {t : Tcb} {c : Call} (hidle : inConnection t.state = false)
    (hcall : fsmCall t c = some w) (hconn : inConnection w.tcb.state = true) :
    (c.event = .callOpen ∧ OpensActively c.env (callStart t c) ∧ w.tcb.state = .synSent ∧ w.ret = 0) ∨
      (t.state = .listen ∧ w.tcb.state = .synRcvd ∧
        ∃ seg, c.event = .rcvdPkt seg ∧ AdmitsSyn c.env (callStart t c) seg) := by
  have hnot : ∀ {w1 : Fsm} {P : Prop}, inConnection w1.tcb.state = false → inConnection w1.tcb.state = true → P := by
    intro w1 P hc hc'
    rw [hc] at hc'
    cases hc'
  change fsmUnprotected c.env (callStart t c) c.event = some w at hcall
  by_cases hopen : c.event = .callOpen
  · rw [hopen] at hcall
    rcases fsmCallOpen_cases hcall with ⟨htcb, -⟩ | ⟨-, -, w1, _, _, _, -, htcb⟩ | ⟨-, w1, _, _, _, -, htcb⟩ |
      ⟨hopens, w1, _, _, _, _, htcb, hret, -, rfl⟩
    · exact hnot (by rw [htcb]; exact hidle) hconn
    · exact hnot (by rw [htcb, transitionTo_state_of_ne (by decide)]; rfl) hconn
    · exact hnot (by rw [htcb]; exact idle_toClosed) hconn
    · refine Or.inl ⟨hopen, hopens, ?_, ?_⟩
      · rw [buildQueueSend_state, htcb]
      · rw [buildQueueSend_ret, hret]
        rfl
  · by_cases hpkt : ∃ seg, c.event = .rcvdPkt seg
    · obtain ⟨seg, hpkt⟩ := hpkt
      rw [hpkt] at hcall
      obtain ⟨w1, mss, htcb, hw1, hcases⟩ := fsmRcvdPkt_cases hcall
      have hstate1 : w1.tcb.state = t.state := by rw [htcb]; rfl
      rcases hcases with rfl | ⟨hstate, hvalid, rfl⟩ | ⟨hstate, -⟩ | ⟨hlisten, -, hother⟩
      · exact hnot (by rw [hstate1]; exact hidle) hconn
      · rw [hw1] at hconn ⊢
        rcases rcvdListen_cases (e := c.env) hstate hvalid with ⟨_, _, heq⟩ | ⟨hadmits, w2, -, -, heq⟩
        · exact hnot (by rw [heq]; exact hidle) hconn
        · refine Or.inr ⟨hstate, ?_, seg, hpkt, hadmits⟩
          rw [heq]
          exact transitionTo_state_of_ne (by decide)
      · rw [show (callStart t c).tcb.state = t.state from rfl] at hstate
        rw [hstate] at hidle
        cases hidle
      · have hclosed : t.state = .closed := (idle_iff.mp hidle).resolve_right hlisten
        exact hnot (rcvdOther_closed (hstate1.trans hclosed) hother) hconn
    · exact hnot (stays_idle (w := callStart t c) hidle hopen (not_exists.mp hpkt) hcall) hconn

theorem beginsConnection_cases {t : Tcb} {c : Call} (hcall : fsmCall t c = some w)
    (hbegin : beginsConnection t c.event w = true) :
    (c.event = .callOpen ∧ w.tcb.state = .synSent ∧ OpensActively c.env (callStart t c)) ∨
      (t.state = .listen ∧ w.tcb.state = .synRcvd ∧ ∃ seg, c.event = .rcvdPkt seg ∧ AdmitsSyn c.env (callStart t c) seg) := by
  unfold beginsConnection at hbegin
  rw [decide_eq_true_eq] at hbegin
  rcases hbegin with ⟨hopen, hret, hstate⟩ | ⟨hlisten, hstate⟩
  · refine Or.inl ⟨hopen, hstate, ?_⟩
    change fsmUnprotected c.env (callStart t c) c.event = some w at hcall
    rw [hopen] at hcall
    rcases fsmCallOpen_cases hcall with ⟨-, hneg⟩ | ⟨-, -, w1, _, _, _, -, htcb⟩ | ⟨-, w1, _, _, _, -, htcb⟩ |
      ⟨hopens, -⟩
    · omega
    · rw [htcb, transitionTo_state_of_ne (by decide)] at hstate
      cases hstate
    · rw [htcb, transitionTo_state] at hstate
      rcases @stateAfter_closed w1.tcb.status.listening with hs | hs <;> rw [hs] at hstate <;> cases hstate
    · exact hopens
  · rcases begins_of_idle (idle_iff.mpr (Or.inr hlisten)) hcall (by rw [hstate]; rfl) with
      ⟨-, -, hs, -⟩ | ⟨-, -, hadmits⟩
    · rw [hstate] at hs
      cases hs
    · exact Or.inr ⟨hlisten, hstate, hadmits⟩

theorem inConnection_of_call {t : Tcb} {c : Call} (hcall : fsmCall t c = some w)
    (hbegin : beginsConnection t c.event w = false) (hconn : inConnection w.tcb.state = true) :
    inConnection t.state = true := by
  by_contra hidle
  unfold beginsConnection at hbegin
  rw [decide_eq_false_iff_not] at hbegin
  rcases begins_of_idle (Bool.eq_false_iff.mpr hidle) hcall hconn with ⟨hev, -, hs, hret⟩ | ⟨hs, hs', -⟩
  · exact hbegin (Or.inl ⟨hev, hret, hs⟩)
  · exact hbegin (Or.inr ⟨hs, hs'⟩)

end Riot.Tcp
