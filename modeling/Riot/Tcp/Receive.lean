import Riot.Tcp.Opening

/-!
# The stream that is received

Payload goes into the receive buffer only if its sequence number is `rcv_nxt`, and
`rcv_nxt` goes on by as much as fits in. A FIN is taken wherever it stands in the window:
`rcv_nxt` is set behind it, and the connection moves on, although bytes before the FIN
may be missing. A listening TCB keeps its receive buffer, with what is in it, from one
connection to the next.
-/

namespace Riot.Tcp

open Riot.Lib List

/-- The states in which the initial sequence number of the peer is known. -/
def knowsPeer (state : State) : Bool := inConnection state ∧ state ≠ .synSent

def isSynchronized (state : State) : Bool := knowsPeer state ∧ state ≠ .synRcvd

/-- The states behind the peer's FIN. -/
def finTaken (state : State) : Bool :=
  state = .closeWait ∨ state = .lastAck ∨ state = .closing ∨ state = .timeWait

/-- A TCB, the bytes of its connection that have been stored in `rcv_buf`, and those that have been
handed to the user. -/
structure RecvHist where
  tcb : Tcb
  /-- How many connections have begun. -/
  conn : Nat
  stored : List UInt8
  user : List UInt8

inductive RecvEvent where
  /-- A call, and the place in the stream of the peer of the segment that comes with it -/
  | call (c : Call) (place : Nat)
  | api (a : ApiWrite)

/-- The bytes that a call has stored. -/
def newlyStored (t : Tcb) (event : Event) (w : Fsm) : List UInt8 :=
  match event with
  | .rcvdPkt _ => w.tcb.rcvBuf.drop t.rcvBuf.length
  | _ => []

/-- The bytes that a call has handed out. -/
def newlyRead (event : Event) (w : Fsm) : List UInt8 :=
  match event with
  | .callRecv _ => w.read
  | _ => []

def recvStep (h : RecvHist) : RecvEvent → Option RecvHist
  | .call c _ => (fsmCall h.tcb c).map fun w =>
    if beginsConnection h.tcb c.event w then
      { tcb := w.tcb, conn := h.conn + 1, stored := [], user := [] }
    else
      { h with
        tcb := w.tcb
        stored := h.stored ++ newlyStored h.tcb c.event w
        user := h.user ++ newlyRead c.event w }
  | .api a => (apiWrite h.tcb a).map fun t => { h with tcb := t }

def recvStart : RecvHist := { tcb := tcbInit, conn := 0, stored := [], user := [] }

/-- What is received of the stream of the peer. -/
structure Received (data : List UInt8) (h : RecvHist) : Prop where
  rcvNxt : h.tcb.rcvNxt =
    h.tcb.irs + 1 + BitVec.ofNat 32 h.stored.length + if finTaken h.tcb.state then 1 else 0
  kept : h.stored = h.user ++ h.tcb.rcvBuf
  stored : h.stored <+: data
  fin : finTaken h.tcb.state → h.stored = data

/-- In every synchronized state, what is received is right. -/
def StreamIntegrity (streams : Nat → List UInt8) (h : RecvHist) : Prop :=
  isSynchronized h.tcb.state → Received (streams h.conn) h

/-- The segment is from a place in the stream, less than half of the way around from what has been
stored: what it carries beyond that is of the stream, and its FIN stands at the end. -/
def Carries (data : List UInt8) (irs : Seq) (stored place : Nat) (seg : Segment) : Prop :=
  place < stored + 2 ^ 31 ∧ stored < place + 2 ^ 31 ∧ seg.seqNum = irs + 1 + BitVec.ofNat 32 place ∧
    seg.payload.flatten.length < 2 ^ 16 ∧
    (place + seg.payload.flatten.length ≤ stored ∨ seg.payload.flatten <+: data.drop place) ∧
    (seg.ctl.fin → place + seg.payload.flatten.length = data.length)

/-- Payload and FIN come from the peer, in any order and as often as it likes. -/
def FromPeer (streams : Nat → List UInt8) (h : RecvHist) : RecvEvent → Prop
  | .call c place =>
    match c.event with
    | .rcvdPkt seg => knowsPeer h.tcb.state → seg.payload.flatten ≠ [] ∨ seg.ctl.fin →
        Carries (streams h.conn) h.tcb.irs h.stored.length place seg
    | _ => True
  | .api _ => True

/-! ## The condition -/

/-- The segment gets as far as the check of its FIN. -/
def ReachesFin (t : Tcb) (seg : Segment) : Prop :=
  knowsPeer t.state ∧ chkSeqNum t seg.seqNum (getPayLen seg) = some true ∧ seg.ctl.rst = false ∧
    seg.ctl.syn = false ∧ seg.ctl.ack ∧ seg.ctl.fin ∧
    ¬(acksData t.state ∧ ackIsNew t seg.ackNum = some false ∧ lss32Bit t.sndNxt seg.ackNum = some true)

instance (t : Tcb) (seg : Segment) : Decidable (ReachesFin t seg) := inferInstanceAs (Decidable (_ ∧ _))

/-- Everything before the FIN has been stored, or comes with it, in order, and fits in. -/
def FinInOrder (t : Tcb) (seg : Segment) : Prop :=
  seg.seqNum + getPayLen seg = t.rcvNxt ∨
    (seg.seqNum = t.rcvNxt ∧ (rcvsData t.state ∨ t.state = .synRcvd ∧ ackIsNew t seg.ackNum = some true) ∧
      seg.payload.flatten.length ≤ ringbufferGetFree t.rcvBuf)

instance (t : Tcb) (seg : Segment) : Decidable (FinInOrder t seg) := inferInstanceAs (Decidable (_ ∨ _))

/-- The first FIN is taken in order, and a connection begins with an empty receive buffer. -/
def RecvOk (h : RecvHist) : RecvEvent → Prop
  | .call c _ =>
    match c.event with
    | .callOpen => OpensActively c.env (callStart h.tcb c) → h.tcb.rcvBufRaw = none ∨ h.tcb.rcvBuf = []
    | .rcvdPkt seg =>
      (AdmitsSyn c.env (callStart h.tcb c) seg → h.tcb.rcvBuf = []) ∧
        (finTaken h.tcb.state = false → (optionParse (callStart h.tcb c) seg).2 = true →
          ReachesFin h.tcb seg → FinInOrder h.tcb seg)
    | _ => True
  | .api _ => True

theorem inConnection_of_knowsPeer {state : State} (h : knowsPeer state = true) : inConnection state = true := by
  unfold knowsPeer at h
  rw [decide_eq_true_eq] at h
  exact h.1

/-! ## Storing payload -/

variable {e : Env} {w w' : Fsm} {t t' : Tcb} {seg : Segment} {state : State} {data user : List UInt8}

theorem getPayLen_flatten : getPayLen seg = BitVec.ofNat 32 seg.payload.flatten.length := by
  rw [getPayLen, length_flatten]

theorem storePayload_spec (snips : List (List UInt8)) : (storePayload w snips).tcb =
    { w.tcb with
      rcvBuf := w.tcb.rcvBuf ++ snips.flatten.take (ringbufferGetFree w.tcb.rcvBuf)
      rcvNxt := w.tcb.rcvNxt +
        BitVec.ofNat 32 (min snips.flatten.length (ringbufferGetFree w.tcb.rcvBuf)) } := by
  induction snips generalizing w with
  | nil => simp [storePayload]
  | cons snip snips ih =>
    unfold storePayload ringbufferAdd
    rw [ih]
    dsimp only
    have hfree : ringbufferGetFree (w.tcb.rcvBuf ++ snip.take (ringbufferGetFree w.tcb.rcvBuf)) =
        ringbufferGetFree w.tcb.rcvBuf - snip.length := by
      unfold ringbufferGetFree
      rw [length_append, length_take]
      omega
    have hlen : min snip.length (ringbufferGetFree w.tcb.rcvBuf) +
        min snips.flatten.length (ringbufferGetFree w.tcb.rcvBuf - snip.length) =
        min (snip ++ snips.flatten).length (ringbufferGetFree w.tcb.rcvBuf) := by
      rw [length_append]
      omega
    rw [hfree, flatten_cons, ← hlen, take_append, BitVec.ofNat_add, append_assoc, add_assoc]

/-- The payload is stored, if it is the next of the stream and there is a state for it; else nothing is. -/
theorem rcvdPayload_cases :
    ((getPayLen seg ≠ 0 ∧ rcvsData w.tcb.state = true ∧ w.tcb.rcvNxt = seg.seqNum) ∧ ∃ rcvWnd status,
        (rcvdPayload e w seg).tcb = { w.tcb with
          rcvBuf := w.tcb.rcvBuf ++ seg.payload.flatten.take (ringbufferGetFree w.tcb.rcvBuf)
          rcvNxt := w.tcb.rcvNxt +
            BitVec.ofNat 32 (min seg.payload.flatten.length (ringbufferGetFree w.tcb.rcvBuf))
          rcvWnd := rcvWnd, status := status }) ∨
      (¬(getPayLen seg ≠ 0 ∧ rcvsData w.tcb.state = true ∧ w.tcb.rcvNxt = seg.seqNum) ∧
        (rcvdPayload e w seg).tcb = w.tcb) := by
  have hack : ∀ w1 : Fsm, (if seg.ctl.fin = true then w1 else sendAck e w1).tcb = w1.tcb := by
    intro w1
    split
    · rfl
    · exact sendAck_tcb
  unfold rcvdPayload
  split
  · rename_i hguard
    rw [hack]
    split
    · rename_i hnext
      refine .inl ⟨⟨hguard.1, hguard.2, hnext⟩,
        BitVec.ofNat 16 (ringbufferGetFree (storePayload w seg.payload).tcb.rcvBuf),
        { (storePayload w seg.payload).tcb.status with notifyUser := true }, ?_⟩
      dsimp only
      rw [storePayload_spec]
    · rename_i hnext
      exact .inr ⟨fun hc => hnext hc.2.2, rfl⟩
  · rename_i hguard
    exact .inr ⟨fun hc => hguard ⟨hc.1, hc.2.1⟩, rfl⟩

/-! ## The invariant -/

/-- What has been handed out and what is in the buffer is a beginning of the stream, and `rcv_nxt`
counts it. -/
structure RecvInv (data user : List UInt8) (t : Tcb) : Prop where
  opening : t.state = .synSent → user = [] ∧ t.rcvBuf = []
  rcvNxt : knowsPeer t.state → t.rcvNxt =
    t.irs + 1 + BitVec.ofNat 32 (user ++ t.rcvBuf).length + if finTaken t.state then 1 else 0
  stored : knowsPeer t.state → user ++ t.rcvBuf <+: data
  fin : finTaken t.state → user ++ t.rcvBuf = data

theorem RecvInv.congr (h : RecvInv data user t) (hstate : t'.state = t.state) (hrcv : t'.rcvNxt = t.rcvNxt)
    (hirs : t'.irs = t.irs) (hbuf : t'.rcvBuf = t.rcvBuf) : RecvInv data user t' where
  opening := by rw [hstate, hbuf]; exact h.opening
  rcvNxt := by rw [hstate, hbuf, hrcv, hirs]; exact h.rcvNxt
  stored := by rw [hstate, hbuf]; exact h.stored
  fin := by rw [hstate, hbuf]; exact h.fin

theorem RecvInv.ended (h : inConnection t.state = false) : RecvInv data user t := by
  constructor <;> intro hstate <;> rcases idle_iff.mp h with hs | hs <;> rw [hs] at hstate <;>
    exact absurd hstate (by decide)

theorem RecvInv.relabel (h : RecvInv data user t) (hknows : knowsPeer t.state = true) (hsent : t'.state ≠ .synSent)
    (hfin : finTaken t'.state = finTaken t.state) (hrcv : t'.rcvNxt = t.rcvNxt) (hirs : t'.irs = t.irs)
    (hbuf : t'.rcvBuf = t.rcvBuf) : RecvInv data user t' where
  opening := fun hc => absurd hc hsent
  rcvNxt := fun _ => by rw [hrcv, hirs, hbuf, hfin]; exact h.rcvNxt hknows
  stored := fun _ => by rw [hbuf]; exact h.stored hknows
  fin := by rw [hbuf, hfin]; exact h.fin

theorem RecvInv.taken (hfin : finTaken t.state = true) (hall : user ++ t.rcvBuf = data)
    (hrcv : t.rcvNxt = t.irs + 1 + BitVec.ofNat 32 data.length + 1) : RecvInv data user t where
  opening := fun hc => by rw [hc] at hfin; cases hfin
  rcvNxt := fun _ => by rw [hall, if_pos hfin, hrcv]
  stored := fun _ => by rw [hall]
  fin := fun _ => hall

/-! ## Segments of the stream -/

theorem place_eq {n place : Nat} (h : BitVec.ofNat 32 n = BitVec.ofNat 32 place) (hlt : place < n + 2 ^ 32)
    (hgt : n < place + 2 ^ 32) : place = n := by
  have hmod : n % 2 ^ 32 = place % 2 ^ 32 := congrArg BitVec.toNat h
  omega

theorem RecvInv.afterPayload {place : Nat} (h : RecvInv data user w.tcb) (hknows : knowsPeer w.tcb.state = true)
    (hpeer : seg.payload.flatten ≠ [] ∨ seg.ctl.fin →
      Carries data w.tcb.irs (user ++ w.tcb.rcvBuf).length place seg) :
    RecvInv data user (rcvdPayload e w seg).tcb := by
  rcases @rcvdPayload_cases e w seg with ⟨⟨hlen, hdata, hnext⟩, _, _, htcb⟩ | ⟨-, htcb⟩
  · have hopen : finTaken w.tcb.state = false := by
      cases hs : w.tcb.state <;> rw [hs] at hdata <;> first | rfl | cases hdata
    have hsent : w.tcb.state ≠ .synSent := by
      intro hs
      rw [hs] at hdata
      cases hdata
    have hne : seg.payload.flatten ≠ [] := by
      intro hnil
      rw [getPayLen_flatten, hnil] at hlen
      exact hlen rfl
    obtain ⟨hlt, hgt, hseq, -, hstream, -⟩ := hpeer (.inl hne)
    have hrcv := h.rcvNxt hknows
    rw [hopen, if_neg (by decide), add_zero] at hrcv
    -- the segment is from the place where the next byte is stored
    have hplace : place = (user ++ w.tcb.rcvBuf).length :=
      place_eq (add_left_cancel ((hrcv.symm.trans hnext).trans hseq)) (by omega) (by omega)
    rw [hplace] at hstream
    have hpos : 0 < seg.payload.flatten.length := length_pos_iff.mpr hne
    have hprefix : seg.payload.flatten <+: data.drop (user ++ w.tcb.rcvBuf).length :=
      hstream.resolve_left (by omega)
    rw [htcb]
    refine ⟨fun hc => absurd hc hsent, fun _ => ?_, fun _ => ?_, fun hc => ?_⟩
    · dsimp only
      have hcount : (user ++ (w.tcb.rcvBuf ++
          seg.payload.flatten.take (ringbufferGetFree w.tcb.rcvBuf))).length =
          (user ++ w.tcb.rcvBuf).length + min seg.payload.flatten.length (ringbufferGetFree w.tcb.rcvBuf) := by
        simp only [length_append, length_take]
        omega
      rw [hopen, if_neg (by decide), add_zero, hrcv, hcount, BitVec.ofNat_add, ← add_assoc]
    · obtain ⟨rest, hrest⟩ := h.stored hknows
      rw [← hrest, drop_left] at hprefix
      rw [← append_assoc, ← hrest]
      exact prefix_append_right_inj _ |>.mpr ((List.take_prefix _ _).trans hprefix)
    · rw [hopen] at hc
      cases hc
  · rw [htcb]
    exact h

theorem finTaken_of_late (hknows : knowsPeer state = true) (hs : state ≠ .synRcvd ∧ state ≠ .established ∧
    state ≠ .finWait1 ∧ state ≠ .finWait2 ∧ state ≠ .timeWait) : finTaken state = true := by
  revert hknows hs
  cases state <;> decide

theorem RecvInv.afterFin (place : Nat) (h : RecvInv data user w.tcb) (hknows : knowsPeer w.tcb.state = true)
    (hsyn : seg.ctl.syn = false)
    (hpeer : seg.payload.flatten ≠ [] ∨ seg.ctl.fin →
      Carries data w.tcb.irs (user ++ w.tcb.rcvBuf).length place seg)
    (hfin : seg.ctl.fin → finTaken w.tcb.state = false → seg.seqNum + getPayLen seg = w.tcb.rcvNxt ∨
      (seg.seqNum = w.tcb.rcvNxt ∧ rcvsData w.tcb.state ∧
        seg.payload.flatten.length ≤ ringbufferGetFree w.tcb.rcvBuf)) :
    RecvInv data user (rcvdFin e (rcvdPayload e w seg) seg).tcb := by
  have h1 : RecvInv data user (rcvdPayload e w seg).tcb := h.afterPayload hknows hpeer
  unfold rcvdFin
  split
  · rename_i hflag
    obtain ⟨hlt, hgt, hseq, hshort, -, hend⟩ := hpeer (.inr hflag)
    replace hend := hend hflag
    have hpay := @rcvdPayload_cases e w seg
    have hstate1 : (rcvdPayload e w seg).tcb.state = w.tcb.state := by
      obtain ⟨_, _, _, _, htcb, -⟩ := @rcvdPayload_fields e w seg
      rw [htcb]
    have hirs1 : (rcvdPayload e w seg).tcb.irs = w.tcb.irs := by
      obtain ⟨_, _, _, _, htcb, -⟩ := @rcvdPayload_fields e w seg
      rw [htcb]
    -- with the payload of the segment, everything before the FIN has been stored
    have hall : user ++ (rcvdPayload e w seg).tcb.rcvBuf = data := by
      cases hopen : finTaken w.tcb.state with
      | true => exact h1.fin (by rw [hstate1]; exact hopen)
      | false =>
        have hrcv := h.rcvNxt hknows
        rw [hopen, if_neg (by decide), add_zero] at hrcv
        refine (h1.stored (by rw [hstate1]; exact hknows)).eq_of_length_le ?_
        rcases hfin hflag hopen with heq | ⟨heq, hdata, hfits⟩
        · have hplace : place + seg.payload.flatten.length = (user ++ w.tcb.rcvBuf).length := by
            refine place_eq (add_left_cancel (a := w.tcb.irs + 1) ?_) (by omega) (by omega)
            rw [← hrcv, ← heq, hseq, getPayLen_flatten, BitVec.ofNat_add, add_assoc]
          rw [← hend, hplace, length_append, length_append]
          rcases hpay with ⟨-, _, _, htcb⟩ | ⟨-, htcb⟩
          · rw [htcb, length_append]
            omega
          · rw [htcb]
        · have hplace : place = (user ++ w.tcb.rcvBuf).length :=
            place_eq (add_left_cancel ((hrcv.symm.trans heq.symm).trans hseq)) (by omega) (by omega)
          rw [← hend, hplace, length_append, length_append]
          rcases hpay with ⟨-, _, _, htcb⟩ | ⟨hnot, htcb⟩
          · rw [htcb, length_append, length_take]
            omega
          · have hnone : getPayLen seg = 0 := by
              by_contra hlen
              exact hnot ⟨hlen, hdata, heq.symm⟩
            rw [getPayLen_flatten] at hnone
            have hmod : seg.payload.flatten.length % 2 ^ 32 = 0 := congrArg BitVec.toNat hnone
            rw [htcb]
            omega
    have hcount : seg.seqNum + getSegLen seg = (rcvdPayload e w seg).tcb.irs + 1 + BitVec.ofNat 32 data.length + 1 := by
      rw [getSegLen, hsyn, hflag, if_neg (by decide), if_pos rfl, add_zero, ← add_assoc, hseq, hirs1,
        getPayLen_flatten, ← hend, BitVec.ofNat_add, add_assoc (w.tcb.irs + 1)]
    rw [← hstate1] at hknows
    generalize rcvdPayload e w seg = w1 at *
    split
    · exact h1
    · have htcb2 : (takeFin e w1 seg).tcb = { w1.tcb with rcvNxt := seg.seqNum + getSegLen seg } := takeFin_tcb
      generalize takeFin e w1 seg = w2 at htcb2
      have hto : ∀ s : State, s ≠ .closed → finTaken s = true → RecvInv data user (transitionTo e w2 s).tcb := by
        intro s hne hs
        refine RecvInv.taken ?_ ?_ ?_
        · rw [transitionTo_state_of_ne hne]
          exact hs
        · rw [transitionTo_rcvBuf, htcb2]
          exact hall
        · rw [transitionTo_rcvNxt, transitionTo_irs, htcb2]
          exact hcount
      have hsame : finTaken w2.tcb.state = true → RecvInv data user w2.tcb := by
        intro hs
        refine RecvInv.taken hs ?_ ?_
        · rw [htcb2]
          exact hall
        · rw [htcb2]
          exact hcount
      rcases finTransition_cases (e := e) (w := w2) with ⟨-, heq⟩ | ⟨-, heq⟩ | ⟨-, heq⟩ | ⟨hs, heq⟩ | ⟨hs, heq⟩
      · rw [heq]
        exact hto _ (by decide) rfl
      · rw [heq]
        exact hto _ (by decide) rfl
      · rw [heq]
        exact hto _ (by decide) rfl
      · rw [heq]
        exact (hsame (by rw [hs]; rfl)).congr rfl rfl rfl rfl
      · rw [heq]
        refine hsame ?_
        have hstate2 : w2.tcb.state = w1.tcb.state := by rw [htcb2]
        rw [hstate2] at hs ⊢
        exact finTaken_of_late hknows hs
  · exact h1

/-! ## Received segments -/

theorem RecvInv.rcvdSynSent (h : RecvInv data user w.tcb) (hstate : w.tcb.state = .synSent)
    (hcall : rcvdSynSent e w seg = some w') : RecvInv data user w'.tcb ∧ w'.tcb.rcvBuf = w.tcb.rcvBuf := by
  obtain ⟨huser, hbuf⟩ := h.opening hstate
  unfold Tcp.rcvdSynSent at hcall
  split at hcall
  · cases hcall
    split
    · exact ⟨h, rfl⟩
    · rw [buildSend_rst_tcb]
      exact ⟨h, rfl⟩
  · split at hcall
    · cases hcall
      split
      · exact ⟨RecvInv.ended idle_toClosed, transitionTo_rcvBuf⟩
      · exact ⟨h, rfl⟩
    · split at hcall
      · obtain ⟨w1, hack, rfl⟩ := Option.map_eq_some_iff.mp hcall
        have hw1 : w1.tcb.rcvNxt = seg.seqNum + 1 ∧ w1.tcb.irs = seg.seqNum ∧ w1.tcb.rcvBuf = w.tcb.rcvBuf := by
          unfold rcvdSynSentAck at hack
          split at hack
          · obtain ⟨_, _, htcb⟩ := pktAcknowledge_tcb hack
            rw [htcb]
            exact ⟨rfl, rfl, rfl⟩
          · cases hack
            exact ⟨rfl, rfl, rfl⟩
        -- nothing of the stream has come yet
        have hto : ∀ (w2 : Fsm) (s : State), w2.tcb.rcvNxt = seg.seqNum + 1 → w2.tcb.irs = seg.seqNum →
            w2.tcb.rcvBuf = w.tcb.rcvBuf → s = .established ∨ s = .synRcvd →
            RecvInv data user { (transitionTo e w2 s).tcb with
              sndWnd := seg.window, sndWl1 := seg.seqNum, sndWl2 := seg.ackNum } ∧
            (transitionTo e w2 s).tcb.rcvBuf = w.tcb.rcvBuf := by
          intro w2 s hrcv hirs hbuf2 hs
          have hstate2 : (transitionTo e w2 s).tcb.state = s :=
            transitionTo_state_of_ne (by rcases hs with rfl | rfl <;> decide)
          have hopen : finTaken s = false := by rcases hs with rfl | rfl <;> rfl
          refine ⟨⟨fun _ => ⟨huser, ?_⟩, fun _ => ?_, fun _ => ?_, fun hc => ?_⟩, ?_⟩
          · rw [transitionTo_rcvBuf, hbuf2, hbuf]
          · rw [hstate2, transitionTo_rcvNxt, transitionTo_irs, transitionTo_rcvBuf, hrcv, hirs, hbuf2, hbuf, huser,
              hopen]
            simp
          · rw [transitionTo_rcvBuf, hbuf2, hbuf, huser]
            exact nil_prefix
          · rw [hstate2, hopen] at hc
            cases hc
          · rw [transitionTo_rcvBuf, hbuf2]
        unfold rcvdSynSentAnswer
        dsimp only
        split
        · exact hto _ _ (by rw [sendAck_tcb]; exact hw1.1) (by rw [sendAck_tcb]; exact hw1.2.1)
            (by rw [sendAck_tcb]; exact hw1.2.2) (.inl rfl)
        · exact hto _ _ (by rw [buildQueueSend_rcvNxt]; exact hw1.1) (by rw [buildQueueSend_irs]; exact hw1.2.1)
            (by rw [buildQueueSend_rcvBuf]; exact hw1.2.2) (.inr rfl)
      · cases hcall
        exact ⟨h, rfl⟩

theorem rcvdAckSynRcvd_recv (hcall : rcvdAckSynRcvd e w seg = some w') :
    w'.tcb.rcvNxt = w.tcb.rcvNxt ∧ w'.tcb.irs = w.tcb.irs ∧ w'.tcb.rcvBuf = w.tcb.rcvBuf := by
  rcases rcvdAckSynRcvd_cases hcall with ⟨-, rfl⟩ | ⟨-, -, htcb⟩ | ⟨-, -, rfl⟩
  · exact ⟨rfl, rfl, rfl⟩
  · rw [htcb]
    exact ⟨rfl, rfl, rfl⟩
  · exact ⟨transitionTo_rcvNxt, transitionTo_irs, transitionTo_rcvBuf⟩

theorem rcvdAckFin_recv : (rcvdAckFin e w).1.tcb.rcvNxt = w.tcb.rcvNxt ∧
    (rcvdAckFin e w).1.tcb.irs = w.tcb.irs ∧ (rcvdAckFin e w).1.tcb.rcvBuf = w.tcb.rcvBuf := by
  rcases rcvdAckFin_cases (e := e) (w := w) with ⟨heq, -⟩ | ⟨-, -, heq⟩ | ⟨-, -, heq⟩ | ⟨-, -, heq⟩ <;> rw [heq]
  · exact ⟨rfl, rfl, rfl⟩
  · exact ⟨transitionTo_rcvNxt, transitionTo_irs, transitionTo_rcvBuf⟩
  · exact ⟨transitionTo_rcvNxt, transitionTo_irs, transitionTo_rcvBuf⟩
  · exact ⟨transitionTo_rcvNxt, transitionTo_irs, transitionTo_rcvBuf⟩

theorem rcvdAck_recv {goesOn : Bool} (hcall : rcvdAck e w seg = some (w', goesOn)) :
    w'.tcb.rcvNxt = w.tcb.rcvNxt ∧ w'.tcb.irs = w.tcb.irs ∧ w'.tcb.rcvBuf = w.tcb.rcvBuf := by
  rcases rcvdAck_cases hcall with ⟨-, rfl, -⟩ | ⟨-, htcb, -⟩ | ⟨-, w1, w2, hdata, hwindow, hfin⟩
  · exact ⟨rfl, rfl, rfl⟩
  · rw [htcb]
    exact ⟨rfl, rfl, rfl⟩
  · have h1 : w1.tcb.rcvNxt = w.tcb.rcvNxt ∧ w1.tcb.irs = w.tcb.irs ∧ w1.tcb.rcvBuf = w.tcb.rcvBuf := by
      rcases rcvdAckData_cases hdata with ⟨-, -, hack⟩ | ⟨-, -, rfl⟩ | ⟨hc, -⟩
      · obtain ⟨_, _, htcb⟩ := pktAcknowledge_tcb hack
        rw [htcb]
        exact ⟨rfl, rfl, rfl⟩
      · exact ⟨rfl, rfl, rfl⟩
      · cases hc
    obtain ⟨_, _, _, _, hw2, -⟩ := rcvdAckWindow_tcb hwindow
    obtain rfl : w' = (rcvdAckFin e w2).1 := by rw [hfin]
    obtain ⟨hrcv, hirs, hbuf⟩ := rcvdAckFin_recv (e := e) (w := w2)
    rw [hrcv, hirs, hbuf, hw2]
    exact h1

/-- A segment that is processed further acknowledges nothing that has not been sent. -/
theorem rcvdAck_goesOn (hcall : rcvdAck e w seg = some (w', true)) :
    ¬(acksData w.tcb.state ∧ ackIsNew w.tcb seg.ackNum = some false ∧
      lss32Bit w.tcb.sndNxt seg.ackNum = some true) := by
  rintro ⟨hacks, hnew, hunsent⟩
  rcases rcvdAck_cases hcall with ⟨hc, -⟩ | ⟨-, -, hc⟩ | ⟨-, w1, w2, hdata, -⟩
  · rw [hacks] at hc
    cases hc
  · cases hc
  · unfold rcvdAckData at hdata
    rw [hnew, Option.bind_some, if_neg (by decide), hunsent] at hdata
    cases (Prod.mk.inj (Option.some.inj hdata)).2

theorem rcvdAck_goesOn_state (hcall : rcvdAck e w seg = some (w', true)) : w'.tcb.state = w.tcb.state ∨
    (w.tcb.state = .finWait1 ∧ w'.tcb.state = .finWait2) ∨
    (w.tcb.state = .closing ∧ w'.tcb.state = .timeWait) := by
  rcases rcvdAck_cases hcall with ⟨-, rfl, -⟩ | ⟨-, -, hc⟩ | ⟨-, w1, w2, hdata, hwindow, hfin⟩
  · exact .inl rfl
  · cases hc
  · obtain ⟨_, _, _, _, hw2, -⟩ := rcvdAckWindow_tcb hwindow
    have hstate : w2.tcb.state = w.tcb.state := by
      rw [hw2]
      exact rcvdAckData_state hdata
    rcases rcvdAckFin_cases (e := e) (w := w2) with ⟨heq, -⟩ | ⟨-, hs, heq⟩ | ⟨-, hs, heq⟩ | ⟨-, -, heq⟩
    · obtain ⟨rfl, -⟩ := Prod.mk.inj (heq.symm.trans hfin)
      exact .inl hstate
    · obtain ⟨rfl, -⟩ := Prod.mk.inj (heq.symm.trans hfin)
      exact .inr (.inl ⟨hstate ▸ hs, transitionTo_state_of_ne (by decide)⟩)
    · obtain ⟨rfl, -⟩ := Prod.mk.inj (heq.symm.trans hfin)
      exact .inr (.inr ⟨hstate ▸ hs, transitionTo_state_of_ne (by decide)⟩)
    · cases (Prod.mk.inj (heq.symm.trans hfin)).2

theorem rcvdFin_rcvBuf : (rcvdFin e w seg).tcb.rcvBuf = w.tcb.rcvBuf := by
  have htake : (takeFin e w seg).tcb.rcvBuf = w.tcb.rcvBuf := by rw [takeFin_tcb]
  unfold rcvdFin
  split
  · split
    · rfl
    · rcases finTransition_cases (e := e) (w := takeFin e w seg) with
        ⟨-, heq⟩ | ⟨-, heq⟩ | ⟨-, heq⟩ | ⟨-, heq⟩ | ⟨-, heq⟩ <;> rw [heq]
      · exact transitionTo_rcvBuf.trans htake
      · exact transitionTo_rcvBuf.trans htake
      · exact transitionTo_rcvBuf.trans htake
      · exact htake
      · exact htake
  · rfl

theorem RecvInv.ackSynRcvd (h : RecvInv data user w.tcb) (hknows : knowsPeer w.tcb.state = true)
    (hcall : rcvdAckSynRcvd e w seg = some w') :
    RecvInv data user w'.tcb ∧ knowsPeer w'.tcb.state = true ∧ finTaken w'.tcb.state = finTaken w.tcb.state ∧
      (rcvsData w.tcb.state ∨ w.tcb.state = .synRcvd ∧ ackIsNew w.tcb seg.ackNum = some true →
        rcvsData w'.tcb.state) := by
  have hsame : ∀ {w1 : Fsm}, w1.tcb = w.tcb → (w.tcb.state = .synRcvd → ackIsNew w.tcb seg.ackNum = some false) →
      RecvInv data user w1.tcb ∧ knowsPeer w1.tcb.state = true ∧ finTaken w1.tcb.state = finTaken w.tcb.state ∧
      (rcvsData w.tcb.state ∨ w.tcb.state = .synRcvd ∧ ackIsNew w.tcb seg.ackNum = some true →
        rcvsData w1.tcb.state) := by
    intro w1 htcb hnot
    rw [htcb]
    refine ⟨h, hknows, rfl, fun hdata => hdata.resolve_right fun hc => ?_⟩
    rw [hnot hc.1] at hc
    cases hc.2
  rcases rcvdAckSynRcvd_cases hcall with ⟨hne, rfl⟩ | ⟨-, hnew, htcb⟩ | ⟨hs, -, rfl⟩
  · exact hsame rfl fun hc => absurd hc hne
  · exact hsame htcb fun _ => hnew
  · have hs' : ∀ w : Fsm, (transitionTo e w .established).tcb.state = .established :=
      fun _ => transitionTo_state_of_ne (by decide)
    refine ⟨h.relabel hknows ?_ ?_ transitionTo_rcvNxt transitionTo_irs transitionTo_rcvBuf, ?_, ?_, fun _ => ?_⟩
    · rw [hs']
      decide
    · rw [hs', hs]
      rfl
    · rfl
    · rw [hs', hs]
      rfl
    · rfl

theorem RecvInv.rcvdAcked {place : Nat} (h : RecvInv data user w.tcb) (hknows : knowsPeer w.tcb.state = true)
    (hsyn : seg.ctl.syn = false)
    (hpeer : seg.payload.flatten ≠ [] ∨ seg.ctl.fin →
      Carries data w.tcb.irs (user ++ w.tcb.rcvBuf).length place seg)
    (hfin : finTaken w.tcb.state = false → seg.ctl.fin → ¬(acksData w.tcb.state ∧
      ackIsNew w.tcb seg.ackNum = some false ∧ lss32Bit w.tcb.sndNxt seg.ackNum = some true) →
      FinInOrder w.tcb seg)
    (hcall : rcvdAcked e w seg = some w') :
    RecvInv data user w'.tcb ∧ w.tcb.rcvBuf <+: w'.tcb.rcvBuf := by
  obtain ⟨w1, w2, goesOn, hsynRcvd, hack, rfl⟩ := rcvdAcked_cases hcall
  obtain ⟨h1, hknows1, htaken1, hdata1⟩ := h.ackSynRcvd hknows hsynRcvd
  obtain ⟨hrcv1, hirs1, hbuf1⟩ := rcvdAckSynRcvd_recv hsynRcvd
  obtain ⟨hrcv2, hirs2, hbuf2⟩ := rcvdAck_recv hack
  cases goesOn with
  | false =>
    rw [if_neg (by decide), hbuf2, hbuf1]
    refine ⟨?_, prefix_rfl⟩
    rcases rcvdAck_state hack with hs | ⟨hs, hs'⟩ | ⟨hs, hs'⟩ | ⟨-, hs⟩
    · exact h1.congr hs hrcv2 hirs2 hbuf2
    · exact h1.relabel hknows1 (by rw [hs']; decide) (by rw [hs, hs']; rfl) hrcv2 hirs2 hbuf2
    · exact h1.relabel hknows1 (by rw [hs']; decide) (by rw [hs, hs']; rfl) hrcv2 hirs2 hbuf2
    · exact RecvInv.ended (idle_iff.mpr hs)
  | true =>
    have h2 : RecvInv data user w2.tcb ∧ knowsPeer w2.tcb.state = true ∧
        finTaken w2.tcb.state = finTaken w1.tcb.state ∧ (rcvsData w1.tcb.state → rcvsData w2.tcb.state) := by
      rcases rcvdAck_goesOn_state hack with hs | ⟨hs, hs'⟩ | ⟨hs, hs'⟩
      · rw [hs]
        exact ⟨h1.congr hs hrcv2 hirs2 hbuf2, hknows1, rfl, id⟩
      · refine ⟨h1.relabel hknows1 (by rw [hs']; decide) (by rw [hs, hs']; rfl) hrcv2 hirs2 hbuf2, ?_⟩
        rw [hs, hs']
        exact ⟨rfl, rfl, fun _ => rfl⟩
      · refine ⟨h1.relabel hknows1 (by rw [hs']; decide) (by rw [hs, hs']; rfl) hrcv2 hirs2 hbuf2, ?_⟩
        rw [hs, hs']
        exact ⟨rfl, rfl, fun hc => by cases hc⟩
    obtain ⟨h2, hknows2, htaken2, hdata2⟩ := h2
    rw [if_pos rfl]
    constructor
    · refine h2.afterFin place hknows2 hsyn ?_ fun hflag hopen => ?_
      · rw [hirs2, hbuf2, hirs1, hbuf1]
        exact hpeer
      · rw [htaken2, htaken1] at hopen
        have hnot : ¬(acksData w.tcb.state ∧ ackIsNew w.tcb seg.ackNum = some false ∧
            lss32Bit w.tcb.sndNxt seg.ackNum = some true) := by
          rcases rcvdAckSynRcvd_cases hsynRcvd with ⟨-, rfl⟩ | ⟨hs, -⟩ | ⟨hs, -⟩
          · exact rcvdAck_goesOn hack
          · rw [hs]
            exact fun hc => absurd hc.1 (by decide)
          · rw [hs]
            exact fun hc => absurd hc.1 (by decide)
        rw [hrcv2, hrcv1, hbuf2, hbuf1]
        rcases hfin hopen hflag hnot with heq | ⟨heq, hdata, hfits⟩
        · exact .inl heq
        · exact .inr ⟨heq, hdata2 (hdata1 hdata), hfits⟩
    · rw [rcvdFin_rcvBuf, ← hbuf1, ← hbuf2]
      rcases @rcvdPayload_cases e w2 seg with ⟨-, _, _, htcb⟩ | ⟨-, htcb⟩
      · rw [htcb]
        exact prefix_append _ _
      · rw [htcb]

theorem RecvInv.rcvdOther {place : Nat} (h : RecvInv data user w.tcb) (hlisten : w.tcb.state ≠ .listen)
    (hsent : w.tcb.state ≠ .synSent)
    (hpeer : knowsPeer w.tcb.state → seg.payload.flatten ≠ [] ∨ seg.ctl.fin →
      Carries data w.tcb.irs (user ++ w.tcb.rcvBuf).length place seg)
    (hfin : finTaken w.tcb.state = false → ReachesFin w.tcb seg → FinInOrder w.tcb seg)
    (hcall : rcvdOther e w seg = some w') :
    RecvInv data user w'.tcb ∧ (inConnection w'.tcb.state → w.tcb.rcvBuf <+: w'.tcb.rcvBuf) := by
  by_cases hclosed : w.tcb.state = .closed
  · have hidle := rcvdOther_closed hclosed hcall
    exact ⟨RecvInv.ended hidle, fun hc => by rw [hidle] at hc; cases hc⟩
  · have hknows : knowsPeer w.tcb.state = true := by
      cases hs : w.tcb.state <;> rw [hs] at hlisten hsent hclosed <;>
        first | rfl | exact absurd rfl hclosed | exact absurd rfl hlisten | exact absurd rfl hsent
    rcases rcvdOther_cases hcall with ⟨-, htcb⟩ | ⟨hchk, ⟨-, ⟨-, -, rfl⟩ | rfl⟩ | ⟨-, -, w1, htcb, rfl⟩ |
      ⟨-, -, -, rfl⟩ | ⟨hrst, hsyn, hack, hacked⟩⟩
    · rw [htcb]
      exact ⟨h, fun _ => prefix_rfl⟩
    · exact ⟨RecvInv.ended (idle_iff.mpr (.inr (transitionTo_state_of_ne (by decide)))),
        fun _ => by rw [transitionTo_rcvBuf]⟩
    · exact ⟨RecvInv.ended idle_toClosed, fun _ => by rw [transitionTo_rcvBuf]⟩
    · exact ⟨RecvInv.ended idle_toClosed, fun _ => by rw [transitionTo_rcvBuf, htcb]⟩
    · exact ⟨h, fun _ => prefix_rfl⟩
    · obtain ⟨hinv, hbuf⟩ := h.rcvdAcked hknows hsyn (hpeer hknows)
        (fun hopen hflag hnot => hfin hopen ⟨hknows, hchk, hrst, hsyn, hack, hflag, hnot⟩) hacked
      exact ⟨hinv, fun _ => hbuf⟩

/-! ## Calls -/

theorem sendAck_read : (sendAck e w).read = w.read := by
  unfold sendAck buildSend pktBuild pktSend
  dsimp only
  split <;> rfl

theorem fsmCallRecv_spec {len : Nat} (hread : w.read = []) : ∃ rcvWnd rcvBuf,
    (fsmCallRecv e w len).tcb = { w.tcb with rcvWnd := rcvWnd, rcvBuf := rcvBuf } ∧
      (fsmCallRecv e w len).read ++ rcvBuf = w.tcb.rcvBuf := by
  unfold fsmCallRecv
  dsimp only
  split
  · exact ⟨_, _, rfl, by rw [hread]; rfl⟩
  · split
    · rw [sendAck_tcb, sendAck_read]
      exact ⟨_, _, rfl, take_append_drop _ _⟩
    · exact ⟨_, _, rfl, take_append_drop _ _⟩

/-- A close moves on from the states before the peer's FIN to such a state, and from those behind it to such
a state. -/
theorem RecvInv.callClose (h : RecvInv data user w.tcb) :
    RecvInv data user (fsmCallClose e w).tcb ∧ (fsmCallClose e w).tcb.rcvBuf = w.tcb.rcvBuf := by
  have hfin : (callCloseFin e w).tcb.state = w.tcb.state ∧ (callCloseFin e w).tcb.rcvNxt = w.tcb.rcvNxt ∧
      (callCloseFin e w).tcb.irs = w.tcb.irs ∧ (callCloseFin e w).tcb.rcvBuf = w.tcb.rcvBuf := by
    unfold callCloseFin
    split
    · exact ⟨buildQueueSend_state, buildQueueSend_rcvNxt, buildQueueSend_irs, buildQueueSend_rcvBuf⟩
    · exact ⟨rfl, rfl, rfl, rfl⟩
  unfold fsmCallClose
  obtain ⟨hstate, hrcv, hirs, hbuf⟩ := hfin
  have h1 : RecvInv data user (callCloseFin e w).tcb := h.congr hstate hrcv hirs hbuf
  rw [← hbuf]
  generalize callCloseFin e w = w1 at *
  have hto : ∀ s : State, s ≠ .closed → s ≠ .synSent → knowsPeer w1.tcb.state = true →
      finTaken s = finTaken w1.tcb.state →
      RecvInv data user (transitionTo e w1 s).tcb ∧ (transitionTo e w1 s).tcb.rcvBuf = w1.tcb.rcvBuf := by
    intro s hne hsent hknows htaken
    have hs := transitionTo_state_of_ne (e := e) (w := w1) hne
    exact ⟨h1.relabel hknows (by rw [hs]; exact hsent) (by rw [hs]; exact htaken) transitionTo_rcvNxt
      transitionTo_irs transitionTo_rcvBuf, transitionTo_rcvBuf⟩
  unfold callCloseTransition
  split
  · exact ⟨RecvInv.ended idle_toClosed, transitionTo_rcvBuf⟩
  · split
    · rename_i hs
      rcases hs with hs | hs
      · exact hto _ (by decide) (by decide) (by rw [hs]; rfl) (by rw [hs]; rfl)
      · exact hto _ (by decide) (by decide) (by rw [hs]; rfl) (by rw [hs]; rfl)
    · split
      · rename_i hs
        exact hto _ (by decide) (by decide) (by rw [hs]; rfl) (by rw [hs]; rfl)
      · exact ⟨h1, rfl⟩

theorem RecvInv.rcvdPkt (place : Nat) (h : RecvInv data user w.tcb)
    (hlisten : w.tcb.state = .listen → w'.tcb.state ≠ .synRcvd)
    (hpeer : knowsPeer w.tcb.state → seg.payload.flatten ≠ [] ∨ seg.ctl.fin →
      Carries data w.tcb.irs (user ++ w.tcb.rcvBuf).length place seg)
    (hfin : finTaken w.tcb.state = false → (optionParse w seg).2 = true → ReachesFin w.tcb seg →
      FinInOrder w.tcb seg)
    (hcall : fsmRcvdPkt e w seg = some w') :
    RecvInv data user w'.tcb ∧ (inConnection w'.tcb.state → w.tcb.rcvBuf <+: w'.tcb.rcvBuf) := by
  have h1 : RecvInv data user (optionParse w seg).1.tcb := h.congr rfl rfl rfl rfl
  unfold fsmRcvdPkt at hcall
  dsimp only at hcall
  split at hcall
  · cases hcall
    exact ⟨h1, fun _ => prefix_rfl⟩
  · rename_i hvalid
    replace hvalid := Bool.eq_true_of_not_eq_false hvalid
    split at hcall
    · rename_i hstate
      cases hcall
      rcases rcvdListen_cases (w := w) (e := e) hstate hvalid with ⟨_, _, htcb⟩ | ⟨-, w1, -, -, heq⟩
      · rw [htcb]
        exact ⟨RecvInv.ended (idle_iff.mpr (.inr hstate)), fun _ => prefix_rfl⟩
      · refine absurd ?_ (hlisten hstate)
        rw [heq]
        exact transitionTo_state_of_ne (by decide)
    · rename_i hstate
      obtain ⟨hinv, hbuf⟩ := h1.rcvdSynSent hstate hcall
      exact ⟨hinv, fun _ => by rw [hbuf]; exact prefix_rfl⟩
    · rename_i hlisten' hsent
      exact h1.rcvdOther hlisten' hsent hpeer (fun hopen hreach => hfin hopen hvalid hreach) hcall

/-- All calls but those that receive leave the buffer alone; one that begins a connection is not among
them. -/
theorem RecvInv.quiet {event : Event} (h : RecvInv data user w.tcb) (hret : w.ret = 0)
    (hpkt : ∀ seg, event ≠ .rcvdPkt seg) (hrecv : ∀ len, event ≠ .callRecv len)
    (hopen : event = .callOpen → w'.ret = 0 → w'.tcb.state ≠ .synSent)
    (hcall : fsmUnprotected e w event = some w') :
    RecvInv data user w'.tcb ∧ (inConnection w'.tcb.state → w'.tcb.rcvBuf = w.tcb.rcvBuf) := by
  have hclosed : ∀ {w1 : Fsm}, inConnection w1.tcb.state = false →
      RecvInv data user w1.tcb ∧ (inConnection w1.tcb.state → w1.tcb.rcvBuf = w.tcb.rcvBuf) :=
    fun hidle => ⟨RecvInv.ended hidle, fun hc => by rw [hidle] at hc; cases hc⟩
  cases event with
  | rcvdPkt seg => exact absurd rfl (hpkt seg)
  | callRecv len => exact absurd rfl (hrecv len)
  | callOpen =>
    rcases fsmCallOpen_cases hcall with ⟨htcb, -⟩ | ⟨-, -, w1, _, _, _, -, htcb⟩ | ⟨-, w1, _, _, _, -, htcb⟩ |
      ⟨-, w1, _, _, _, _, htcb, hret1, -, rfl⟩
    · rw [htcb]
      exact ⟨h, fun _ => rfl⟩
    · exact hclosed (by rw [htcb]; exact idle_iff.mpr (.inr (transitionTo_state_of_ne (by decide))))
    · exact hclosed (by rw [htcb]; exact idle_toClosed)
    · refine absurd ?_ (hopen rfl ?_)
      · rw [buildQueueSend_state, htcb]
      · rw [buildQueueSend_ret, hret1, hret]
  | callSend buf =>
    cases hcall
    unfold fsmCallSend
    dsimp only
    split
    · exact ⟨h.congr buildQueueSend_state buildQueueSend_rcvNxt buildQueueSend_irs buildQueueSend_rcvBuf,
        fun _ => buildQueueSend_rcvBuf⟩
    · exact ⟨h, fun _ => rfl⟩
  | callClose =>
    cases hcall
    obtain ⟨hinv, hbuf⟩ := h.callClose (e := e)
    exact ⟨hinv, fun _ => hbuf⟩
  | callAbort =>
    cases hcall
    exact hclosed idle_toClosed
  | timeoutTimewait =>
    cases hcall
    exact hclosed idle_toClosed
  | timeoutRetransmit =>
    cases hcall
    obtain ⟨_, heq, -⟩ := fsmTimeoutRetransmit_tcb (w := w)
    rw [heq]
    exact ⟨h.congr rfl rfl rfl rfl, fun _ => rfl⟩
  | timeoutConnection =>
    cases hcall
    exact hclosed idle_toClosed
  | sendProbe =>
    cases hcall
    rw [fsmSendProbe_tcb]
    exact ⟨h, fun _ => rfl⟩
  | clearRetransmit =>
    cases hcall
    have hnumbers : SameNumbers w.tcb (clearRetransmit w).tcb := clearRetransmit_numbers
    exact ⟨h.congr clearRetransmit_state hnumbers.rcvNxt hnumbers.irs hnumbers.rcvBuf, fun _ => hnumbers.rcvBuf⟩

/-- Within a connection, a call hands out and stores bytes of the stream, in order. -/
theorem RecvInv.call {c : Call} {place : Nat} (h : RecvInv data user t)
    (hbegin : beginsConnection t c.event w = false)
    (hpeer : ∀ seg, c.event = .rcvdPkt seg → knowsPeer t.state → seg.payload.flatten ≠ [] ∨ seg.ctl.fin →
      Carries data t.irs (user ++ t.rcvBuf).length place seg)
    (hfin : ∀ seg, c.event = .rcvdPkt seg → finTaken t.state = false →
      (optionParse (callStart t c) seg).2 = true → ReachesFin t seg → FinInOrder t seg)
    (hcall : fsmCall t c = some w) :
    RecvInv data (user ++ newlyRead c.event w) w.tcb ∧
      (inConnection w.tcb.state → user ++ t.rcvBuf ++ newlyStored t c.event w =
        user ++ newlyRead c.event w ++ w.tcb.rcvBuf) := by
  have h0 : RecvInv data user (callStart t c).tcb := h.congr rfl rfl rfl rfl
  unfold beginsConnection at hbegin
  rw [decide_eq_false_iff_not] at hbegin
  change fsmUnprotected c.env (callStart t c) c.event = some w at hcall
  by_cases hpkt : ∃ seg, c.event = .rcvdPkt seg
  · obtain ⟨seg, hev⟩ := hpkt
    rw [hev] at hcall hbegin ⊢
    obtain ⟨hinv, hbuf⟩ := h0.rcvdPkt place
      (fun hs hs' => hbegin (.inr ⟨hs, hs'⟩)) (hpeer seg hev) (hfin seg hev) hcall
    have hread : newlyRead (.rcvdPkt seg) w = [] := rfl
    have hstored : newlyStored t (.rcvdPkt seg) w = w.tcb.rcvBuf.drop t.rcvBuf.length := rfl
    rw [hread, hstored, append_nil]
    refine ⟨hinv, fun hc => ?_⟩
    obtain ⟨new, hnew⟩ := hbuf hc
    have hbuf' : w.tcb.rcvBuf = t.rcvBuf ++ new := hnew.symm
    rw [hbuf', drop_left, append_assoc]
  · by_cases hrecv : ∃ len, c.event = .callRecv len
    · obtain ⟨len, hev⟩ := hrecv
      rw [hev] at hcall ⊢
      cases hcall
      obtain ⟨_, buf, htcb, hread⟩ := @fsmCallRecv_spec c.env (callStart t c) len rfl
      have hmove : user ++ (fsmCallRecv c.env (callStart t c) len).read ++ buf = user ++ t.rcvBuf := by
        rw [append_assoc, hread]
        rfl
      have hread' : ∀ w : Fsm, newlyRead (.callRecv len) w = w.read := fun _ => rfl
      have hstored : ∀ w : Fsm, newlyStored t (.callRecv len) w = [] := fun _ => rfl
      rw [hread', hstored, htcb, append_nil]
      refine ⟨⟨fun hs => ?_, fun hk => ?_, fun hk => ?_, fun hf => ?_⟩, fun _ => hmove.symm⟩
      · obtain ⟨huser, hempty⟩ := h.opening hs
        have hnil := hmove
        rw [huser, hempty, append_nil, append_assoc] at hnil
        obtain ⟨-, hnil⟩ := append_eq_nil_iff.mp hnil
        obtain ⟨hr, hb⟩ := append_eq_nil_iff.mp hnil
        rw [huser, hr]
        exact ⟨rfl, hb⟩
      · rw [hmove]
        exact h.rcvNxt hk
      · dsimp only
        rw [hmove]
        exact h.stored hk
      · rw [hmove]
        exact h.fin hf
    · have hnone : newlyRead c.event w = [] ∧ newlyStored t c.event w = [] := by
        unfold newlyRead newlyStored
        constructor
        · split
          · rename_i len hev
            exact absurd ⟨len, hev⟩ hrecv
          · rfl
        · split
          · rename_i seg hev
            exact absurd ⟨seg, hev⟩ hpkt
          · rfl
      obtain ⟨hinv, hbuf⟩ := h0.quiet rfl (not_exists.mp hpkt) (not_exists.mp hrecv)
        (fun hev hret hs => hbegin (.inl ⟨hev, hret, hs⟩)) hcall
      rw [hnone.1, hnone.2, append_nil, append_nil]
      exact ⟨hinv, fun hc => by rw [hbuf hc]; rfl⟩

theorem recv_begins {h : RecvHist} {c : Call} {place : Nat} (hok : RecvOk h (.call c place))
    (hcall : fsmCall h.tcb c = some w) (hbegin : beginsConnection h.tcb c.event w = true) :
    RecvInv data [] w.tcb ∧ w.tcb.rcvBuf = [] := by
  dsimp only [RecvOk] at hok
  have hcases := beginsConnection_cases hcall hbegin
  change fsmUnprotected c.env (callStart h.tcb c) c.event = some w at hcall
  rcases hcases with ⟨hev, hstate, hopens⟩ | ⟨hlisten, hstate, seg, hev, hadmits⟩
  · rw [hev] at hcall hok
    have hbuf : w.tcb.rcvBuf = [] := by
      rcases fsmCallOpen_cases hcall with ⟨-, hneg⟩ | ⟨-, -, w1, _, _, _, -, htcb⟩ | ⟨-, w1, _, _, _, -, htcb⟩ |
        ⟨-, w1, _, _, _, _, htcb, -, hempty, rfl⟩
      · unfold beginsConnection at hbegin
        rw [decide_eq_true_eq] at hbegin
        rcases hbegin with ⟨-, hret, -⟩ | ⟨-, hs⟩
        · omega
        · rw [hstate] at hs
          cases hs
      · rw [htcb, transitionTo_state_of_ne (by decide)] at hstate
        cases hstate
      · have hidle : inConnection w.tcb.state = false := by rw [htcb]; exact idle_toClosed
        rw [hstate] at hidle
        cases hidle
      · rw [buildQueueSend_rcvBuf, htcb]
        exact hempty (hok hopens)
    refine ⟨⟨fun _ => ⟨rfl, hbuf⟩, fun hk => ?_, fun hk => ?_, fun hk => ?_⟩, hbuf⟩ <;> rw [hstate] at hk <;>
      exact absurd hk (by decide)
  · rw [hev] at hcall hok
    have hempty : h.tcb.rcvBuf = [] := hok.1 hadmits
    obtain ⟨w1, mss, htcb, hw1, hcases⟩ := fsmRcvdPkt_cases hcall
    have hlisten0 : (callStart h.tcb c).tcb.state = .listen := hlisten
    rcases hcases with rfl | ⟨-, hvalid, rfl⟩ | ⟨hs, -⟩ | ⟨hs, -⟩
    · rw [htcb] at hstate
      exact absurd (hstate.symm.trans hlisten0) (by decide)
    · rw [hw1] at hstate ⊢
      rcases rcvdListen_cases (e := c.env) hlisten0 hvalid with ⟨_, _, heq⟩ | ⟨-, w2, htcb2, -, heq⟩
      · rw [heq] at hstate
        exact absurd (hstate.symm.trans hlisten0) (by decide)
      · rw [heq] at hstate ⊢
        have hbuf : w2.tcb.rcvBuf = [] := by
          rw [htcb2]
          exact hempty
        refine ⟨⟨fun hs => ?_, fun _ => ?_, fun _ => ?_, fun hs => ?_⟩, ?_⟩
        · cases hs
        · rw [hstate, transitionTo_rcvNxt, transitionTo_irs, transitionTo_rcvBuf, buildQueueSend_rcvNxt,
            buildQueueSend_irs, buildQueueSend_rcvBuf, hbuf, htcb2]
          exact (add_zero _).symm.trans (add_zero _).symm
        · rw [transitionTo_rcvBuf, buildQueueSend_rcvBuf, hbuf]
          exact nil_prefix
        · rw [hstate] at hs
          cases hs
        · rw [transitionTo_rcvBuf, buildQueueSend_rcvBuf, hbuf]
    · exact absurd (hs.symm.trans hlisten0) (by decide)
    · exact absurd hlisten0 hs

/-! ## Runs -/

/-- What has been stored is what has been handed out and what is in the buffer, within a connection. -/
structure RecvHistInv (streams : Nat → List UInt8) (h : RecvHist) : Prop where
  stream : RecvInv (streams h.conn) h.user h.tcb
  kept : inConnection h.tcb.state → h.stored = h.user ++ h.tcb.rcvBuf

theorem RecvHistInv.step {streams : Nat → List UInt8} {h h' : RecvHist} {ev : RecvEvent}
    (hinv : RecvHistInv streams h) (hok : FromPeer streams h ev ∧ RecvOk h ev)
    (hstep : recvStep h ev = some h') : RecvHistInv streams h' := by
  cases ev with
  | api a =>
    obtain ⟨t, happly, rfl⟩ := Option.map_eq_some_iff.mp hstep
    obtain ⟨_, _, _, _, _, _, rfl⟩ := apiWrite_fields happly
    exact ⟨hinv.stream.congr rfl rfl rfl rfl, hinv.kept⟩
  | call c place =>
    obtain ⟨w, hcall, rfl⟩ := Option.map_eq_some_iff.mp hstep
    obtain ⟨hpeer, hok⟩ := hok
    split
    · rename_i hbegin
      have hbegun : RecvInv (streams (h.conn + 1)) [] w.tcb ∧ w.tcb.rcvBuf = [] := recv_begins hok hcall hbegin
      obtain ⟨hstream, hbuf⟩ := hbegun
      exact ⟨hstream, fun _ => by dsimp only; rw [hbuf]; rfl⟩
    · rename_i hbegin
      replace hbegin := Bool.eq_false_iff.mpr hbegin
      have hpeer' : ∀ seg, c.event = .rcvdPkt seg → knowsPeer h.tcb.state →
          seg.payload.flatten ≠ [] ∨ seg.ctl.fin →
          Carries (streams h.conn) h.tcb.irs (h.user ++ h.tcb.rcvBuf).length place seg := by
        intro seg hev hknows
        dsimp only [FromPeer] at hpeer
        rw [hev] at hpeer
        rw [← hinv.kept (inConnection_of_knowsPeer hknows)]
        exact hpeer hknows
      have hfin : ∀ seg, c.event = .rcvdPkt seg → finTaken h.tcb.state = false →
          (optionParse (callStart h.tcb c) seg).2 = true → ReachesFin h.tcb seg → FinInOrder h.tcb seg := by
        intro seg hev
        dsimp only [RecvOk] at hok
        rw [hev] at hok
        exact hok.2
      obtain ⟨hstream, hkept⟩ := hinv.stream.call hbegin hpeer' hfin hcall
      refine ⟨hstream, fun hconn => ?_⟩
      rw [hinv.kept (inConnection_of_call hcall hbegin hconn)]
      exact hkept hconn

theorem RecvHistInv.integrity {streams : Nat → List UInt8} {h : RecvHist} (hinv : RecvHistInv streams h) :
    StreamIntegrity streams h := by
  intro hsync
  have hknows : knowsPeer h.tcb.state = true := by
    unfold isSynchronized at hsync
    rw [decide_eq_true_eq] at hsync
    exact hsync.1
  have hkept : h.stored = h.user ++ h.tcb.rcvBuf := hinv.kept (inConnection_of_knowsPeer hknows)
  refine ⟨?_, hkept, ?_, ?_⟩
  · rw [hkept]
    exact hinv.stream.rcvNxt hknows
  · rw [hkept]
    exact hinv.stream.stored hknows
  · rw [hkept]
    exact hinv.stream.fin

instance (data : List UInt8) (irs : Seq) (stored place : Nat) (seg : Segment) :
    Decidable (Carries data irs stored place seg) := inferInstanceAs (Decidable (_ ∧ _))

instance (streams : Nat → List UInt8) (h : RecvHist) : (ev : RecvEvent) → Decidable (FromPeer streams h ev)
  | .call c place => by
    unfold FromPeer
    dsimp only
    refine c.event.casesOn ?_ ?_ ?_ ?_ ?_ ?_ ?_ ?_ ?_ ?_ ?_ <;> intros <;> infer_instance
  | .api _ => inferInstanceAs (Decidable True)

instance (h : RecvHist) : (ev : RecvEvent) → Decidable (RecvOk h ev)
  | .call c place => by
    unfold RecvOk
    dsimp only
    refine c.event.casesOn ?_ ?_ ?_ ?_ ?_ ?_ ?_ ?_ ?_ ?_ ?_ <;> intros <;> infer_instance
  | .api _ => inferInstanceAs (Decidable True)

theorem recvStart_inv (streams : Nat → List UInt8) : RecvHistInv streams recvStart :=
  ⟨RecvInv.ended rfl, fun hc => by cases hc⟩

/-- **The stream is received as it was sent**, whatever segments of it come, as long as the first FIN that
gets through stands behind bytes that have been stored, or comes with the missing ones in order and with room
for them, and a connection begins with an empty buffer. -/
theorem stream_received (streams : Nat → List UInt8) (es : List RecvEvent)
    (hok : Along recvStep (fun h ev => FromPeer streams h ev ∧ RecvOk h ev) recvStart es) :
    Always recvStep (StreamIntegrity streams) recvStart es :=
  always_of_along (fun _ => RecvHistInv.integrity) (fun _ _ _ hinv hok hstep => RecvHistInv.step hinv hok hstep) es
    (recvStart_inv streams) hok

/-- A call of a system with one TCB. -/
def soloRecv (event : Event) : RecvEvent := .call (solo event) 0

/-- A segment from a place in the stream that begins with the number 5001. -/
def fromPlace (place : Nat) (ctl : Ctl) (payload : List (List UInt8)) : RecvEvent :=
  .call (solo (.rcvdPkt (peerSegment ctl (5001 + BitVec.ofNat 32 place) 101 payload))) place

/-- The connection is established. -/
def recvEstablished : List RecvEvent :=
  [.api (.gnrcTcpListen 1 80), soloRecv .callOpen, soloRecv (.rcvdPkt (peerSegment { syn := true } 5000 0 [])),
    fromPlace 0 { ack := true } []]

/-- The second segment comes first, and is sent again with the FIN. -/
def recvReordered : List RecvEvent :=
  recvEstablished ++ [fromPlace 2 { ack := true } [[3]], fromPlace 0 { ack := true } [[1], [2]],
    soloRecv (.callRecv 1), fromPlace 2 { fin := true, ack := true } [[3]], soloRecv (.callRecv 10),
    fromPlace 2 { fin := true, ack := true } [[3]]]

theorem stream_received_recvReordered :
    Always recvStep (StreamIntegrity fun _ => [1, 2, 3]) recvStart recvReordered :=
  stream_received _ recvReordered (by decide +kernel)

/-- A FIN that overtakes the last bytes is taken, and the bytes are lost. -/
theorem not_streamIntegrity : ∃ es h,
    Along recvStep (FromPeer fun _ => [1, 2, 3]) recvStart es ∧ run recvStep recvStart es = some h ∧
      ¬StreamIntegrity (fun _ => [1, 2, 3]) h := by
  have hend : (run recvStep recvStart (recvEstablished ++ [fromPlace 3 { fin := true, ack := true } []])).any
      (fun h => decide (h.tcb.state = .closeWait ∧ h.stored = [])) = true := by
    decide +kernel
  obtain ⟨h, hrun, hend⟩ := (Option.any_eq_true _ _).mp hend
  obtain ⟨hstate, hstored⟩ := of_decide_eq_true hend
  refine ⟨_, h, by decide +kernel, hrun, fun hintegrity => ?_⟩
  have hall := (hintegrity (by rw [hstate]; rfl)).fin (by rw [hstate]; rfl)
  rw [hstored] at hall
  cases hall

end Riot.Tcp
