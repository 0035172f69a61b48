import Riot.Tcp.Opening

/-!
# The numbers of a connection, shifted

The numbers that we send count from `iss`, those that we receive from `irs`. The state
machine compares them by signed differences, so that it does not matter where they start,
as long as the differences do not overflow; in SYN_SENT it compares them as they are.
Here the pieces of the state machine are run on numbers that are shifted by `ks` in the
one direction and by `kr` in the other: if both runs of a piece come to an end, they
come to the same end.
-/

namespace Riot.Tcp

open Riot.Lib Option

/-- A segment of ours. Without ACK, its acknowledgment number means nothing. -/
def shiftOut (ks kr : Seq) (seg : Segment) : Segment :=
  { seg with seqNum := seg.seqNum + ks, ackNum := if seg.ctl.ack then seg.ackNum + kr else seg.ackNum }

/-- A segment of the peer. -/
def shiftIn (ks kr : Seq) (seg : Segment) : Segment :=
  { seg with seqNum := seg.seqNum + kr, ackNum := seg.ackNum + ks }

def Tcb.shift (ks kr : Seq) (t : Tcb) : Tcb :=
  { t with
    sndUna := t.sndUna + ks
    sndNxt := t.sndNxt + ks
    sndWl1 := t.sndWl1 + kr
    sndWl2 := t.sndWl2 + ks
    rcvNxt := t.rcvNxt + kr
    iss := t.iss + ks
    irs := t.irs + kr
    pktRetransmit := t.pktRetransmit.map (shiftOut ks kr) }

def Env.shift (ks : Seq) (e : Env) : Env := { e with iss := e.iss + ks }

/-- What the peer sees of a segment: the acknowledgment number is read only with ACK. -/
def visible (seg : Segment) : Segment := if seg.ctl.ack then seg else { seg with ackNum := 0 }

/-- The working state with shifted numbers; what has been sent is given. -/
def Fsm.image (ks kr : Seq) (w : Fsm) (sent : List Segment) : Fsm :=
  { w with tcb := w.tcb.shift ks kr, sent := sent }

/-- The second state is the first one with shifted numbers, as far as the peer sees. -/
def Shifted (ks kr : Seq) (w w' : Fsm) : Prop :=
  ∃ sent, w' = w.image ks kr sent ∧ sent.map visible = w.sent.map fun seg => visible (shiftOut ks kr seg)

variable {ks kr : Seq} {e : Env} {w w' w1 w1' : Fsm} {seg : Segment} {t : Tcb} {state : State} {ctl : Ctl}
  {seqNum ackNum ackNum' : Seq} {payload : List UInt8}

/-! ## Comparisons -/

variable {ret : Int} {sent : List Segment} {k : Seq}

theorem lss_agree {x y : Seq} : Agree Eq (lss32Bit x y) (lss32Bit (x + k) (y + k)) :=
  fun _ _ h h' => (serialLt_add h h').symm

theorem leq_agree {x y : Seq} : Agree Eq (leq32Bit x y) (leq32Bit (x + k) (y + k)) :=
  fun _ _ h h' => (serialLe_add h h').symm

theorem andAlso_agree {x x' y y' : Option Bool} (hx : Agree Eq x x') (hy : Agree Eq y y') :
    Agree Eq (andAlso x y) (andAlso x' y') := by
  refine hx.bind fun b b' hb => ?_
  rw [hb]
  split
  · exact hy
  · exact Agree.pure rfl

theorem ackIsNew_agree : Agree Eq (ackIsNew t ackNum) (ackIsNew (t.shift ks kr) (ackNum + ks)) :=
  andAlso_agree lss_agree leq_agree

theorem insideWnd_agree {l s r : Seq} : Agree Eq (insideWnd l s r) (insideWnd (l + k) (s + k) (r + k)) :=
  andAlso_agree leq_agree lss_agree

theorem chkSeqNum_agree {segLen : Seq} :
    Agree Eq (chkSeqNum t seqNum segLen) (chkSeqNum (t.shift ks kr) (seqNum + kr) segLen) := by
  have hedge : (t.shift ks kr).rcvNxt + (t.shift ks kr).rcvWnd.setWidth 32 =
      t.rcvNxt + t.rcvWnd.setWidth 32 + kr := add_right_comm _ _ _
  have hlast : seqNum + kr + segLen - 1 = seqNum + segLen - 1 + kr := by
    rw [add_right_comm, sub_add_eq_add_sub]
  have hwnd : (t.shift ks kr).rcvWnd = t.rcvWnd := rfl
  have hleft : (t.shift ks kr).rcvNxt = seqNum + kr ↔ t.rcvNxt = seqNum := add_left_inj kr
  unfold Tcp.chkSeqNum
  rw [hedge, hlast, hwnd]
  simp only [hleft]
  split
  · exact Agree.pure rfl
  · split
    · exact Agree.pure rfl
    · split
      · exact insideWnd_agree
      · refine insideWnd_agree.bind fun b b' hb => ?_
        rw [hb]
        split
        · exact Agree.pure rfl
        · exact insideWnd_agree

/-! ## Transitions -/

theorem clearRetransmit_image :
    clearRetransmit (w.image ks kr sent) = (clearRetransmit w).image ks kr sent := by
  unfold clearRetransmit
  have hslot : (w.image ks kr sent).tcb.pktRetransmit.isSome = w.tcb.pktRetransmit.isSome := isSome_map
  rw [hslot]
  split <;> rfl

theorem rcvbufReleaseBuffer_image :
    rcvbufReleaseBuffer (w.image ks kr sent) = (rcvbufReleaseBuffer w).image ks kr sent := by
  unfold rcvbufReleaseBuffer
  have hraw : (w.image ks kr sent).tcb.rcvBufRaw = w.tcb.rcvBufRaw := rfl
  rw [hraw]
  split <;> rfl

theorem transitionTo_image : transitionTo (e.shift ks) (w.image ks kr sent) state =
    (transitionTo e w state).image ks kr sent := by
  cases state with
  | closed =>
    unfold transitionTo transitionToClosed
    dsimp only
    rw [clearRetransmit_image]
    have hlisten : ((clearRetransmit w).image ks kr sent).tcb.status.listening =
        (clearRetransmit w).tcb.status.listening := rfl
    rw [hlisten]
    split
    · rfl
    · have hrel : rcvbufReleaseBuffer { (clearRetransmit w).image ks kr sent with
            list := (clearRetransmit w).list.erase e.me } =
          (rcvbufReleaseBuffer { clearRetransmit w with
            list := (clearRetransmit w).list.erase e.me }).image ks kr sent :=
        rcvbufReleaseBuffer_image (w := { clearRetransmit w with list := (clearRetransmit w).list.erase e.me })
      exact congrArg (fun w : Fsm => { w with tcb.status.notifyUser := true, tcb.state := .closed }) hrel
  | _ => rfl

theorem Shifted.of_image (h : Shifted ks kr w w')
    (himage : ∀ sent, w' = w.image ks kr sent → w1' = w1.image ks kr sent) (hsent : w1.sent = w.sent) :
    Shifted ks kr w1 w1' := by
  obtain ⟨sent, heq, hvisible⟩ := h
  exact ⟨sent, himage sent heq, by rw [hsent]; exact hvisible⟩

theorem Shifted.tcb (h : Shifted ks kr w w') : w'.tcb = w.tcb.shift ks kr := by
  obtain ⟨sent, rfl, -⟩ := h
  rfl

theorem Shifted.transitionTo (h : Shifted ks kr w w') :
    Shifted ks kr (transitionTo e w state) (transitionTo (e.shift ks) w' state) := by
  obtain ⟨sent, rfl, hsent⟩ := h
  exact ⟨sent, transitionTo_image, by rw [transitionTo_sent]; exact hsent⟩

theorem Shifted.clearRetransmit (h : Shifted ks kr w w') :
    Shifted ks kr (clearRetransmit w) (clearRetransmit w') := by
  obtain ⟨sent, rfl, hsent⟩ := h
  exact ⟨sent, clearRetransmit_image, by rw [clearRetransmit_sent]; exact hsent⟩

/-! ## Sending -/

theorem visible_mkSegment (hack : ctl.ack → ackNum' = ackNum + kr) :
    visible (mkSegment (t.shift ks kr) ctl (seqNum + ks) ackNum' payload) =
      visible (shiftOut ks kr (mkSegment t ctl seqNum ackNum payload)) := by
  unfold visible shiftOut mkSegment
  dsimp only
  split
  · rename_i hflag
    rw [hack hflag]
    rfl
  · rfl

theorem Shifted.builds (h : Shifted ks kr w w') :
    Shifted ks kr { w with builds := w.builds + 1 } { w' with builds := w'.builds + 1 } := by
  obtain ⟨sent, rfl, hsent⟩ := h
  exact ⟨sent, rfl, hsent⟩

theorem Shifted.pktSend {out out' : Option Segment} {n : BitVec 16} {again : Bool} (h : Shifted ks kr w w')
    (hout : out'.map visible = out.map fun seg => visible (shiftOut ks kr seg)) :
    Shifted ks kr (pktSend w out n again) (pktSend w' out' n again) := by
  obtain ⟨sent, rfl, hsent⟩ := h
  cases out with
  | none =>
    obtain rfl := map_eq_none_iff.mp hout
    exact ⟨sent, rfl, hsent⟩
  | some seg =>
    obtain ⟨seg', rfl, hseg⟩ := map_eq_some_iff.mp hout
    refine ⟨sent ++ [seg'], ?_, ?_⟩
    · cases again with
      | true => rfl
      | false =>
        have hnxt : w.tcb.sndNxt + ks + n.setWidth 32 = w.tcb.sndNxt + n.setWidth 32 + ks := add_right_comm _ _ _
        unfold Tcp.pktSend Fsm.image Tcb.shift
        rw [if_neg (by decide), if_neg (by decide), hnxt]
    · unfold Tcp.pktSend
      rw [List.map_append, List.map_append, hsent, List.map_singleton, List.map_singleton, hseg]

theorem Shifted.setupRetransmit {out : Option Segment} {again : Bool} (h : Shifted ks kr w w') :
    Shifted ks kr (setupRetransmit w out again) (setupRetransmit w' (out.map (shiftOut ks kr)) again) := by
  obtain ⟨sent, rfl, hsent⟩ := h
  cases out with
  | none => exact ⟨sent, rfl, hsent⟩
  | some seg =>
    have hslot : (w.image ks kr sent).tcb.pktRetransmit.isSome = w.tcb.pktRetransmit.isSome := isSome_map
    have hunqueued : isUnqueued (shiftOut ks kr seg) = isUnqueued seg := rfl
    unfold Tcp.setupRetransmit
    dsimp only [map_some]
    rw [hslot, hunqueued]
    split
    · exact ⟨sent, rfl, hsent⟩
    · split
      · exact ⟨sent, rfl, hsent⟩
      · exact ⟨sent, rfl, hsent⟩

theorem Shifted.buildSend (h : Shifted ks kr w w') (hack : ctl.ack → ackNum' = ackNum + kr) :
    Shifted ks kr (buildSend e w ctl seqNum ackNum)
      (buildSend (e.shift ks) w' ctl (seqNum + ks) ackNum') := by
  refine h.builds.pktSend ?_
  obtain ⟨sent, rfl, hsent⟩ := h
  have halloc : (e.shift ks).alloc (w.image ks kr sent).builds = e.alloc w.builds := rfl
  rw [halloc]
  split
  · exact congrArg some (visible_mkSegment hack)
  · rfl

theorem Shifted.buildQueueSend (h : Shifted ks kr w w')
    (hack : ackNum' = if ctl.ack then ackNum + kr else ackNum) :
    Shifted ks kr (buildQueueSend e w ctl seqNum ackNum payload)
      (buildQueueSend (e.shift ks) w' ctl (seqNum + ks) ackNum' payload) := by
  obtain ⟨sent, hw', hsent⟩ := id h
  have hout : (pktBuild (e.shift ks) w' ctl (seqNum + ks) ackNum' payload).2 =
      (pktBuild e w ctl seqNum ackNum payload).2.map (shiftOut ks kr) := by
    have halloc : (e.shift ks).alloc (w.image ks kr sent).builds = e.alloc w.builds := rfl
    unfold pktBuild
    rw [hw', halloc, hack]
    split <;> rfl
  unfold Tcp.buildQueueSend
  dsimp only
  rw [hout]
  refine Shifted.pktSend h.builds.setupRetransmit ?_
  rw [map_map]
  rfl

theorem Shifted.sendAck (h : Shifted ks kr w w') : Shifted ks kr (sendAck e w) (sendAck (e.shift ks) w') := by
  have hnxt : w'.tcb.sndNxt = w.tcb.sndNxt + ks := by rw [h.tcb]; rfl
  have hrcv : w'.tcb.rcvNxt = w.tcb.rcvNxt + kr := by rw [h.tcb]; rfl
  unfold Tcp.sendAck
  rw [hnxt, hrcv]
  exact h.buildSend fun _ => rfl

theorem Shifted.sendSynAck (h : Shifted ks kr w w') :
    Shifted ks kr (Tcp.buildQueueSend e w { syn := true, ack := true } w.tcb.iss w.tcb.rcvNxt [])
      (Tcp.buildQueueSend (e.shift ks) w' { syn := true, ack := true } w'.tcb.iss w'.tcb.rcvNxt []) := by
  have hiss : w'.tcb.iss = w.tcb.iss + ks := by rw [h.tcb]; rfl
  have hrcv : w'.tcb.rcvNxt = w.tcb.rcvNxt + kr := by rw [h.tcb]; rfl
  rw [hiss, hrcv]
  exact h.buildQueueSend rfl

theorem Shifted.setTcb {t' : Tcb} (h : Shifted ks kr w w') (ht : t' = t.shift ks kr) :
    Shifted ks kr { w with tcb := t } { w' with tcb := t' } :=
  h.of_image (fun _ heq => by rw [heq, ht]; rfl) rfl

theorem Shifted.setRet (h : Shifted ks kr w w') :
    Shifted ks kr { w with ret := ret } { w' with ret := ret } :=
  h.of_image (fun _ heq => by rw [heq]; rfl) rfl

/-! ## Calls of the user -/

theorem isLocalPortInUse_image {port : Port} :
    isLocalPortInUse (e.shift ks) (w.image ks kr sent) port = isLocalPortInUse e w port := by
  refine List.any_congr rfl fun id => ?_
  unfold tcbAt
  by_cases hid : id = e.me
  · rw [if_pos hid, if_pos (show id = (e.shift ks).me from hid)]
    rfl
  · rw [if_neg hid, if_neg (show ¬id = (e.shift ks).me from hid)]
    rfl

theorem getRandomLocalPort_image :
    getRandomLocalPort (e.shift ks) (w.image ks kr sent) = getRandomLocalPort e w := by
  unfold getRandomLocalPort
  have hfree : (fun port => !isLocalPortInUse (e.shift ks) (w.image ks kr sent) port) =
      fun port => !isLocalPortInUse e w port := funext fun port => by rw [isLocalPortInUse_image]
  rw [hfree]
  rfl

theorem transitionToSynSent_image {sent : List Segment} :
    transitionToSynSent (e.shift ks) (w.image ks kr sent) =
      (transitionToSynSent e w).map fun (w, ret) => (w.image ks kr sent, ret) := by
  unfold transitionToSynSent
  have hport : (w.image ks kr sent).tcb.localPort = w.tcb.localPort := rfl
  have hlist : (w.image ks kr sent).list = w.list := rfl
  have hme : (e.shift ks).me = e.me := rfl
  rw [hport, hlist, hme, isLocalPortInUse_image, getRandomLocalPort_image]
  split
  · rfl
  · split
    · split
      · rfl
      · rfl
    · cases getRandomLocalPort e w <;> rfl

theorem rcvbufGetBuffer_image :
    rcvbufGetBuffer (w.image ks kr sent) = (rcvbufGetBuffer w).map fun w => w.image ks kr sent := by
  unfold rcvbufGetBuffer
  have hraw : (w.image ks kr sent).tcb.rcvBufRaw = w.tcb.rcvBufRaw := rfl
  have hused : (w.image ks kr sent).bufUsed = w.bufUsed := rfl
  rw [hraw, hused]
  split
  · rfl
  · cases w.bufUsed.findIdx? fun used => !used <;> rfl

theorem rcvbufGetBuffer_sent (hget : rcvbufGetBuffer w = some w1) : w1.sent = w.sent := by
  unfold rcvbufGetBuffer at hget
  split at hget
  · rw [some.inj hget]
  · obtain ⟨_, -, rfl⟩ := map_eq_some_iff.mp hget
    rfl

theorem transitionToSynSent_sent (hto : transitionToSynSent e w = some (w1, ret)) : w1.sent = w.sent := by
  unfold transitionToSynSent at hto
  split at hto
  · rw [← (Prod.mk.inj (some.inj hto)).1]
  · split at hto
    · split at hto
      · rw [← (Prod.mk.inj (some.inj hto)).1]
      · rw [← (Prod.mk.inj (some.inj hto)).1]
    · obtain ⟨_, -, heq⟩ := map_eq_some_iff.mp hto
      rw [← (Prod.mk.inj heq).1]

theorem Shifted.toSynSent {ret' : Int} (h : Shifted ks kr w w') (hto : transitionToSynSent e w = some (w1, ret))
    (hto' : transitionToSynSent (e.shift ks) w' = some (w1', ret')) : Shifted ks kr w1 w1' ∧ ret' = ret := by
  obtain ⟨sent, rfl, hsent⟩ := h
  rw [transitionToSynSent_image, hto] at hto'
  cases hto'
  exact ⟨⟨sent, rfl, by rw [transitionToSynSent_sent hto]; exact hsent⟩, rfl⟩

theorem Shifted.fsmCallOpen (h : Shifted ks kr w w') :
    Agree (Shifted ks kr) (fsmCallOpen e w) (fsmCallOpen (e.shift ks) w') := by
  intro w1 w1' h1 h1'
  obtain ⟨sent, rfl, hsent⟩ := h
  unfold Tcp.fsmCallOpen at h1 h1'
  rw [rcvbufGetBuffer_image] at h1'
  cases hget : rcvbufGetBuffer w with
  | none =>
    rw [hget] at h1 h1'
    cases h1
    cases h1'
    exact ⟨sent, rfl, hsent⟩
  | some w2 =>
    rw [hget] at h1 h1'
    dsimp only [map_some] at h1 h1'
    have hlisten : (w2.image ks kr sent).tcb.status.listening = w2.tcb.status.listening := rfl
    rw [hlisten] at h1'
    split at h1
    · rename_i hl
      rw [if_pos hl] at h1'
      cases h1
      cases h1'
      refine Shifted.transitionTo ?_
      exact ⟨sent, rfl, by rw [rcvbufGetBuffer_sent hget]; exact hsent⟩
    · rename_i hl
      rw [if_neg hl] at h1'
      obtain ⟨⟨w3, ret⟩, hto, rfl⟩ := map_eq_some_iff.mp h1
      obtain ⟨⟨w3', ret'⟩, hto', rfl⟩ := map_eq_some_iff.mp h1'
      have hsynSent := fun h : Shifted ks kr _ _ => h.toSynSent hto hto'
      obtain ⟨h3, rfl⟩ := hsynSent ⟨sent, rfl, by dsimp only; rw [rcvbufGetBuffer_sent hget]; exact hsent⟩
      split
      · exact h3.transitionTo.setRet
      · obtain ⟨sent3, heq3, hsent3⟩ := id h3
        have hiss : w3'.tcb.iss = w3.tcb.iss + ks := by rw [heq3]; rfl
        rw [hiss]
        exact h3.buildQueueSend rfl

theorem fsmCallOpen_isSome (h : Shifted ks kr w w') :
    (fsmCallOpen (e.shift ks) w').isSome = (fsmCallOpen e w).isSome := by
  obtain ⟨sent, rfl, -⟩ := h
  unfold Tcp.fsmCallOpen
  rw [rcvbufGetBuffer_image]
  cases rcvbufGetBuffer w with
  | none => rfl
  | some w2 =>
    have hlisten : (w2.image ks kr sent).tcb.status.listening = w2.tcb.status.listening := rfl
    dsimp only [map_some]
    rw [hlisten]
    split
    · rfl
    · rw [isSome_map, isSome_map]
      have hto := congrArg isSome (@transitionToSynSent_image ks kr e { w2 with
        tcb.rcvWnd := BitVec.ofNat 16 configDefaultWindow, tcb.iss := e.iss, tcb.sndNxt := e.iss
        tcb.sndUna := e.iss } sent)
      rw [isSome_map] at hto
      exact hto

theorem Shifted.fsmCallSend {buf : List UInt8} (h : Shifted ks kr w w') :
    Shifted ks kr (fsmCallSend e w buf) (fsmCallSend (e.shift ks) w' buf) := by
  have hpayload : w'.tcb.sndUna + w'.tcb.sndWnd.setWidth 32 - w'.tcb.sndNxt =
      w.tcb.sndUna + w.tcb.sndWnd.setWidth 32 - w.tcb.sndNxt := by
    rw [h.tcb]
    show w.tcb.sndUna + ks + w.tcb.sndWnd.setWidth 32 - (w.tcb.sndNxt + ks) = _
    rw [add_right_comm, add_sub_add_right_eq_sub]
  have hwnd : w'.tcb.sndWnd = w.tcb.sndWnd := by rw [h.tcb]; rfl
  have hmss : w'.tcb.mss = w.tcb.mss := by rw [h.tcb]; rfl
  have hslot : w'.tcb.pktRetransmit = none ↔ w.tcb.pktRetransmit = none := by
    rw [h.tcb]
    exact map_eq_none_iff
  have hnxt : w'.tcb.sndNxt = w.tcb.sndNxt + ks := by rw [h.tcb]; rfl
  have hrcv : w'.tcb.rcvNxt = w.tcb.rcvNxt + kr := by rw [h.tcb]; rfl
  unfold Tcp.fsmCallSend
  dsimp only
  rw [hpayload, hwnd, hmss, hnxt, hrcv]
  simp only [hslot]
  split
  · have hqueue : ∀ bytes, Shifted ks kr
        (Tcp.buildQueueSend e w { ack := true, psh := true } w.tcb.sndNxt w.tcb.rcvNxt bytes)
        (Tcp.buildQueueSend (e.shift ks) w' { ack := true, psh := true } (w.tcb.sndNxt + ks)
          (w.tcb.rcvNxt + kr) bytes) := fun _ => h.buildQueueSend rfl
    exact (hqueue _).setRet
  · exact h

theorem Shifted.fsmCallRecv {len : Nat} (h : Shifted ks kr w w') :
    Shifted ks kr (fsmCallRecv e w len) (fsmCallRecv (e.shift ks) w' len) := by
  have hbuf : w'.tcb.rcvBuf = w.tcb.rcvBuf := by rw [h.tcb]; rfl
  unfold Tcp.fsmCallRecv
  dsimp only
  rw [hbuf]
  split
  · exact h
  · split
    · refine Shifted.sendAck (h.of_image (fun _ heq => ?_) rfl)
      rw [heq]
      rfl
    · refine h.of_image (fun _ heq => ?_) rfl
      rw [heq]
      rfl

theorem Shifted.fsmCallClose (h : Shifted ks kr w w') :
    Shifted ks kr (fsmCallClose e w) (fsmCallClose (e.shift ks) w') := by
  have hfin : Shifted ks kr (callCloseFin e w) (callCloseFin (e.shift ks) w') := by
    have hstate : w'.tcb.state = w.tcb.state := by rw [h.tcb]; rfl
    have hnxt : w'.tcb.sndNxt = w.tcb.sndNxt + ks := by rw [h.tcb]; rfl
    have hrcv : w'.tcb.rcvNxt = w.tcb.rcvNxt + kr := by rw [h.tcb]; rfl
    unfold callCloseFin
    rw [hstate, hnxt, hrcv]
    split
    · exact h.buildQueueSend rfl
    · exact h
  have hstate : (callCloseFin (e.shift ks) w').tcb.state = (callCloseFin e w).tcb.state := by
    rw [hfin.tcb]
    rfl
  unfold Tcp.fsmCallClose callCloseTransition
  rw [hstate]
  split
  · exact hfin.transitionTo
  · split
    · exact hfin.transitionTo
    · split
      · exact hfin.transitionTo
      · exact hfin

theorem Shifted.fsmCallAbort (h : Shifted ks kr w w') :
    Shifted ks kr (fsmCallAbort e w) (fsmCallAbort (e.shift ks) w') := by
  have hstate : w'.tcb.state = w.tcb.state := by rw [h.tcb]; rfl
  have hnxt : w'.tcb.sndNxt = w.tcb.sndNxt + ks := by rw [h.tcb]; rfl
  unfold Tcp.fsmCallAbort
  rw [hstate, hnxt]
  refine Shifted.transitionTo ?_
  split
  · exact h.buildSend (fun hack => by cases hack)
  · exact h

/-! ## Timers -/

theorem Shifted.fsmTimeoutRetransmit (h : Shifted ks kr w w') :
    Shifted ks kr (fsmTimeoutRetransmit w) (fsmTimeoutRetransmit w') := by
  have hslot : w'.tcb.pktRetransmit = w.tcb.pktRetransmit.map (shiftOut ks kr) := by rw [h.tcb]; rfl
  unfold Tcp.fsmTimeoutRetransmit
  rw [hslot, isSome_map]
  split
  · refine h.setupRetransmit.pktSend ?_
    rw [map_map]
    rfl
  · exact h

theorem Shifted.fsmSendProbe (h : Shifted ks kr w w') :
    Shifted ks kr (fsmSendProbe e w) (fsmSendProbe (e.shift ks) w') := by
  have halloc : (e.shift ks).alloc w'.builds = e.alloc w.builds := by
    obtain ⟨sent, rfl, -⟩ := h
    rfl
  have hbuild : mkSegment w'.tcb = mkSegment (w.tcb.shift ks kr) := by rw [h.tcb]
  have hseq : w'.tcb.sndUna - 1 = w.tcb.sndUna - 1 + ks := by
    rw [h.tcb]
    exact sub_add_eq_add_sub _ _ _ |>.symm
  have hrcv : w'.tcb.rcvNxt = w.tcb.rcvNxt + kr := by rw [h.tcb]; rfl
  unfold Tcp.fsmSendProbe pktBuild
  rw [halloc, hseq, hrcv, hbuild]
  refine h.builds.pktSend ?_
  split
  · exact congrArg some (visible_mkSegment fun _ => rfl)
  · rfl

end Riot.Tcp
