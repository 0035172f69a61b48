import Riot.Tcp.Mss

/-!
# What a send returns

`_fsm_call_send` computes the size of the segment from the window, the MSS and the
length of the data, and returns it, whatever comes of building the segment. The TCB
of a peer that has announced no MSS holds the zero that `gnrc_tcp_tcb_init` put there,
and the window that is left is a difference of unsigned numbers.
-/

namespace Riot.Tcp

open Riot.Lib Nat BitVec

/-- A TCB, and the MSS that the peer of its connection has announced last. -/
structure MssHist where
  tcb : Tcb
  peerMss : Option (BitVec 16)

def mssStep (h : MssHist) : TcbEvent → Option MssHist
  | .call c => (fsmCall h.tcb c).map fun w =>
    { tcb := w.tcb
      peerMss :=
        match eventMss c.event with
        | some mss => some mss
        | none => if beginsConnection h.tcb c.event w then none else h.peerMss }
  | .api a => (apiWrite h.tcb a).map fun t => { h with tcb := t }

def mssStart : MssHist := { tcb := tcbInit, peerMss := none }

/-- The states in which the user may send, with the queue empty and the window open. -/
def CanSend (t : Tcb) : Prop :=
  (t.state = .established ∨ t.state = .closeWait) ∧ t.pktRetransmit = none ∧
    t.sndUna + t.sndWnd.setWidth 32 - t.sndNxt ≠ 0 ∧ t.sndWnd ≠ 0

instance (t : Tcb) : Decidable (CanSend t) := inferInstanceAs (Decidable (_ ∧ _))

/-- What has been sent lies inside the window of the peer. -/
def InsideWindow (t : Tcb) : Prop := ahead t.sndUna t.sndNxt ≤ t.sndWnd.toNat

instance (t : Tcb) : Decidable (InsideWindow t) := inferInstanceAs (Decidable (_ ≤ _))

/-- The bytes that the window of the peer still admits. -/
def windowLeft (t : Tcb) : Nat := t.sndWnd.toNat - ahead t.sndUna t.sndNxt

/-- The bytes that the MSS of the peer admits: a peer without the option has the default of IPv6. -/
def mssLimit (h : MssHist) : Nat := (h.peerMss.map BitVec.toNat).getD configMss

/-- The bytes of payload in the retransmit queue. -/
def queuedBytes (t : Tcb) : Nat :=
  match t.pktRetransmit with
  | none => 0
  | some seg => (seg.payload.map List.length).sum

/-- The send has returned the number of bytes that it has queued: none if the packet buffer had no
room, else one at least, and no more than window and MSS admit. -/
structure SendsExactly (h : MssHist) (room : Bool) (w : Fsm) : Prop where
  counted : w.ret = queuedBytes w.tcb
  progress : room = true → 1 ≤ w.ret
  failure : room = false → w.ret = 0
  window : w.ret ≤ windowLeft h.tcb
  mss : w.ret ≤ mssLimit h

/-- The MSS that a TCB holds is the one that the peer has announced, if it has announced one. -/
def HoldsMss (h : MssHist) : Prop := ∀ mss, h.peerMss = some mss → h.tcb.mss = mss

/-- The size of the segment that `_fsm_call_send` computes. -/
def sendSize (t : Tcb) (len : Nat) : Nat :=
  min (min (min (t.sndUna + t.sndWnd.setWidth 32 - t.sndNxt).toNat configMss) t.mss.toNat) len

variable {e : Env} {w : Fsm} {t : Tcb} {h h' : MssHist} {buf : List UInt8}

theorem HoldsMss.step {ev : TcbEvent} (hinv : HoldsMss h) (hstep : mssStep h ev = some h') : HoldsMss h' := by
  cases ev with
  | call c =>
    obtain ⟨w, hcall, rfl⟩ := Option.map_eq_some_iff.mp hstep
    have hmss := fsmCall_mss hcall
    intro mss hpeer
    rw [hmss]
    split at hpeer
    · rename_i m hevent
      rw [hevent]
      exact Option.some.inj hpeer
    · rename_i hevent
      rw [hevent]
      split at hpeer
      · cases hpeer
      · exact hinv mss hpeer
  | api a =>
    obtain ⟨t, happly, rfl⟩ := Option.map_eq_some_iff.mp hstep
    intro mss hpeer
    have hmss : t.mss = h.tcb.mss := apiWrite_mss happly
    exact hmss.trans (hinv mss hpeer)

theorem holdsMss_run (es : List TcbEvent) (hrun : run mssStep mssStart es = some h) : HoldsMss h :=
  run_invariant_all (fun _ _ _ hinv hstep => HoldsMss.step hinv hstep) es
    (fun _ hnone => by cases hnone) hrun

/-! ## The window that is left -/

theorem window_eq_of_inside (hin : InsideWindow t) :
    (t.sndUna + t.sndWnd.setWidth 32 - t.sndNxt).toNat = windowLeft t := by
  unfold InsideWindow ahead at hin
  unfold windowLeft ahead
  rw [toNat_sub] at hin ⊢
  rw [toNat_sub, toNat_add, toNat_setWidth]
  omega

theorem windowLeft_of_outside (hout : ¬InsideWindow t) : windowLeft t = 0 := by
  unfold InsideWindow at hout
  unfold windowLeft
  omega

/-! ## What is queued -/

theorem sendSize_le_len (len : Nat) : sendSize t len ≤ len := min_le_right _ _

theorem sendSize_le_mss (len : Nat) : sendSize t len ≤ t.mss.toNat :=
  (min_le_left _ _).trans (min_le_right _ _)

theorem sendSize_le_window (len : Nat) :
    sendSize t len ≤ (t.sndUna + t.sndWnd.setWidth 32 - t.sndNxt).toNat :=
  (min_le_left _ _).trans ((min_le_left _ _).trans (min_le_left _ _))

theorem sendSize_le_config (len : Nat) : sendSize t len ≤ configMss :=
  (min_le_left _ _).trans ((min_le_left _ _).trans (min_le_right _ _))

theorem sendSize_eq_zero (hcan : CanSend t) (hbuf : buf ≠ []) : sendSize t buf.length = 0 ↔ t.mss = 0 := by
  have hwindow : (t.sndUna + t.sndWnd.setWidth 32 - t.sndNxt).toNat ≠ 0 :=
    fun hzero => hcan.2.2.1 (eq_of_toNat_eq hzero)
  have hlen : 0 < buf.length := List.length_pos_iff.mpr hbuf
  have hconfig : configMss = 1220 := rfl
  have hmss : t.mss = 0 ↔ t.mss.toNat = 0 :=
    ⟨fun hzero => by rw [hzero]; rfl, fun hzero => eq_of_toNat_eq hzero⟩
  rw [hmss]
  unfold sendSize
  omega

theorem fsmCallSend_ret (hcan : CanSend w.tcb) : (fsmCallSend e w buf).ret = sendSize w.tcb buf.length := by
  unfold fsmCallSend
  rw [if_pos ⟨hcan.2.2.1, hcan.2.2.2, hcan.2.1⟩]
  rfl

theorem fsmCallSend_queued (hcan : CanSend w.tcb) : queuedBytes (fsmCallSend e w buf).tcb =
    if e.alloc w.builds then sendSize w.tcb buf.length else 0 := by
  have hslot := hcan.2.1
  have hqueued : queuedBytes w.tcb = 0 := by rw [queuedBytes, hslot]
  have hlen : (buf.take (sendSize w.tcb buf.length)).length = sendSize w.tcb buf.length :=
    List.length_take_of_le (sendSize_le_len _)
  unfold fsmCallSend
  rw [if_pos ⟨hcan.2.2.1, hcan.2.2.2, hslot⟩]
  show queuedBytes (buildQueueSend e w { ack := true, psh := true } w.tcb.sndNxt w.tcb.rcvNxt
    (buf.take (sendSize w.tcb buf.length))).tcb = _
  by_cases hempty : buf.take (sendSize w.tcb buf.length) = []
  · rw [hempty, buildQueueSend_nil, hqueued, ← hlen, hempty]
    simp
  · have hconfig : configMss = 1220 := rfl
    have hle : sendSize w.tcb buf.length ≤ configMss := sendSize_le_config buf.length
    have hsmall : (buf.take (sendSize w.tcb buf.length)).length < 2 ^ 16 := by omega
    rw [buildQueueSend_tcb rfl (.inr (.inr hempty)) hsmall, if_pos hslot]
    split
    · rw [queuedBytes, queueTcb]
      dsimp only [mkSegment]
      rw [if_neg hempty, List.map_singleton, List.sum_singleton, hlen]
    · exact hqueued

/-- A send with the queue empty and the window open returns what it has queued, within the bounds,
exactly if the segment can be built, the TCB holds an MSS, and no more has been sent than the window
of the peer admits; and, where the packet buffer fails, if the TCB holds none. -/
theorem callSend_exact_iff (es : List TcbEvent) (hrun : run mssStep mssStart es = some h)
    (hcan : CanSend h.tcb) (c : Call) (hevent : c.event = .callSend buf) (hbuf : buf ≠ []) :
    ∃ w, fsmCall h.tcb c = some w ∧ (SendsExactly h (c.env.alloc 0) w ↔
      (c.env.alloc 0 = true ∧ h.tcb.mss ≠ 0 ∧ InsideWindow h.tcb) ∨
        (c.env.alloc 0 = false ∧ h.tcb.mss = 0)) := by
  have hholds : HoldsMss h := holdsMss_run es hrun
  have hcall : fsmCall h.tcb c = some (fsmCallSend c.env (callStart h.tcb c) buf) := by
    unfold fsmCall fsm
    rw [hevent]
    rfl
  refine ⟨_, hcall, ?_⟩
  have hret := @fsmCallSend_ret c.env (callStart h.tcb c) buf hcan
  have hqueued := @fsmCallSend_queued c.env (callStart h.tcb c) buf hcan
  have hzero : sendSize h.tcb buf.length = 0 ↔ h.tcb.mss = 0 := sendSize_eq_zero hcan hbuf
  have hmss : sendSize h.tcb buf.length ≤ mssLimit h := by
    cases hpeer : h.peerMss with
    | none =>
      rw [mssLimit, hpeer]
      exact sendSize_le_config _
    | some mss =>
      rw [mssLimit, hpeer]
      exact (hholds mss hpeer) ▸ sendSize_le_mss _
  have hsize : sendSize (callStart h.tcb c).tcb buf.length = sendSize h.tcb buf.length := rfl
  have hbuilds : (callStart h.tcb c).builds = 0 := rfl
  rw [hsize] at hret hqueued
  rw [hbuilds] at hqueued
  cases hroom : c.env.alloc 0 with
  | false =>
    rw [hroom, if_neg (by decide)] at hqueued
    constructor
    · intro hexact
      have hnone := hexact.failure rfl
      exact Or.inr ⟨rfl, hzero.mp (by omega)⟩
    · rintro (⟨hroom', -⟩ | ⟨-, hnomss⟩)
      · cases hroom'
      · have hsize0 := hzero.mpr hnomss
        rw [hsize0] at hret
        exact ⟨by rw [hret, hqueued], fun hc => (by cases hc), fun _ => hret,
          by rw [hret]; exact Int.natCast_nonneg _, by rw [hret]; exact Int.natCast_nonneg _⟩
  | true =>
    rw [hroom, if_pos rfl] at hqueued
    constructor
    · intro hexact
      have hpos := hexact.progress rfl
      have hwindow := hexact.window
      refine Or.inl ⟨rfl, fun hnomss => ?_, ?_⟩
      · have hsize0 := hzero.mpr hnomss
        omega
      · by_contra hout
        have hleft := windowLeft_of_outside hout
        omega
    · rintro (⟨-, hsome, hin⟩ | ⟨hroom', -⟩)
      · have hpos : sendSize h.tcb buf.length ≠ 0 := fun hsize0 => hsome (hzero.mp hsize0)
        have hwindow : sendSize h.tcb buf.length ≤ windowLeft h.tcb :=
          window_eq_of_inside hin ▸ sendSize_le_window _
        exact ⟨by rw [hret, hqueued], fun _ => by rw [hret]; omega, fun hc => (by cases hc),
          by rw [hret]; omega, by rw [hret]; omega⟩
      · cases hroom'

/-- The listening TCB has a connection to a peer that has put these options into its SYN. -/
def soloConnected (options : List UInt8) : List TcbEvent :=
  soloListen ++ [soloCall (.rcvdPkt { peerSegment { syn := true } 5000 0 [] with options := options }),
    soloCall (.rcvdPkt (peerSegment { ack := true } 5001 101 []))]

/-- The state in which a run ends, if it does. -/
def mssEnd (es : List TcbEvent) : MssHist := (run mssStep mssStart es).getD mssStart

theorem callSend_exact_iff_soloConnected :
    ∃ w, fsmCall (mssEnd (soloConnected mssOption)).tcb (solo (.callSend [1, 2, 3])) = some w ∧
      SendsExactly (mssEnd (soloConnected mssOption)) true w := by
  have hsome : (run mssStep mssStart (soloConnected mssOption)).isSome = true := by decide +kernel
  have hrun : run mssStep mssStart (soloConnected mssOption) = some (mssEnd (soloConnected mssOption)) := by
    obtain ⟨h, hh⟩ := Option.isSome_iff_exists.mp hsome
    rfl
  obtain ⟨w, hcall, hiff⟩ := callSend_exact_iff (soloConnected mssOption) hrun (by decide +kernel)
    (solo (.callSend [1, 2, 3])) rfl (by decide)
  exact ⟨w, hcall, hiff.mpr (Or.inl ⟨rfl, by decide +kernel, by decide +kernel⟩)⟩

/-- A peer without the option is sent nothing but empty segments, however long the data; and a send
that gets no room returns the length of data that it has dropped. -/
theorem not_callSend_exact :
    (∃ h w, run mssStep mssStart (soloConnected []) = some h ∧ CanSend h.tcb ∧
      fsmCall h.tcb (solo (.callSend [1, 2, 3])) = some w ∧ ¬SendsExactly h true w) ∧
    ∃ h w, run mssStep mssStart (soloConnected mssOption) = some h ∧ CanSend h.tcb ∧
      fsmCall h.tcb { solo (.callSend [1, 2, 3]) with
        env := { (solo (.callSend [1, 2, 3])).env with alloc := fun _ => false } } = some w ∧
      ¬SendsExactly h false w := by
  constructor
  · have hend : (run mssStep mssStart (soloConnected [])).any (fun h => decide (CanSend h.tcb) &&
        (fsmCall h.tcb (solo (.callSend [1, 2, 3]))).any (fun w => decide (w.ret = 0))) = true := by
      decide +kernel
    obtain ⟨h, hrun, hend⟩ := (Option.any_eq_true _ _).mp hend
    rw [Bool.and_eq_true, decide_eq_true_eq] at hend
    obtain ⟨w, hcall, hret⟩ := (Option.any_eq_true _ _).mp hend.2
    refine ⟨h, w, hrun, hend.1, hcall, fun hexact => ?_⟩
    have hpos := hexact.progress rfl
    rw [of_decide_eq_true hret] at hpos
    omega
  · have hend : (run mssStep mssStart (soloConnected mssOption)).any (fun h => decide (CanSend h.tcb) &&
        (fsmCall h.tcb { solo (.callSend [1, 2, 3]) with
          env := { (solo (.callSend [1, 2, 3])).env with alloc := fun _ => false } }).any
            (fun w => decide (w.ret = 3))) = true := by
      decide +kernel
    obtain ⟨h, hrun, hend⟩ := (Option.any_eq_true _ _).mp hend
    rw [Bool.and_eq_true, decide_eq_true_eq] at hend
    obtain ⟨w, hcall, hret⟩ := (Option.any_eq_true _ _).mp hend.2
    refine ⟨h, w, hrun, hend.1, hcall, fun hexact => ?_⟩
    have hzero := hexact.failure rfl
    rw [of_decide_eq_true hret] at hzero
    omega

end Riot.Tcp
