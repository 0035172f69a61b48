import Riot.Tcp.Karn
import Riot.Tcp.Mss

/-!
# Segments that are rejected

A segment with malformed options is dropped, and one whose sequence number is not
acceptable is answered with a pure ACK. The options are parsed before both, up to the
malformed one, and the ACK is a segment like all others for `_gnrc_tcp_pkt_send`.
-/

namespace Riot.Tcp

open Riot.Lib

/-- The options of a segment are well formed. -/
def optionsValid (seg : Segment) : Bool := (optionParseLoop seg.options.length 0 seg.options).2

/-- The segment has malformed options, or a sequence number that is not acceptable. -/
def Rejected (t : Tcb) (seg : Segment) : Prop :=
  optionsValid seg = false ∨ chkSeqNum t seg.seqNum (getPayLen seg) = some false

instance (t : Tcb) (seg : Segment) : Decidable (Rejected t seg) := inferInstanceAs (Decidable (_ ∨ _))

/-- All variables of the connection are what they were. -/
def Untouched (w w' : TimedFsm) : Prop := w'.fsm.tcb = w.fsm.tcb ∧ w'.rtt = w.rtt

instance (w w' : TimedFsm) : Decidable (Untouched w w') := inferInstanceAs (Decidable (_ ∧ _))

/-- The segment announces no other MSS than the one that the TCB holds. -/
def KeepsMss (t : Tcb) (seg : Segment) : Prop := ∀ mss, announcedMss seg = some mss → mss = t.mss

/-- Nothing is sent in answer to the segment, or a measurement has just begun. -/
def KeepsMeasure (e : TimedEnv) (w : TimedFsm) (seg : Segment) : Prop :=
  optionsValid seg = true → seg.ctl.rst = false → e.alloc w.fsm.builds = true →
    w.rtt.retries = 0 ∧ w.rtt.rttStart = e.now

variable {e : TimedEnv} {w w' : TimedFsm} {seg : Segment} {t : Tcb}

theorem optionParseLoop_valid (fuel : Nat) (mss mss' : BitVec 16) (options : List UInt8) :
    (optionParseLoop fuel mss options).2 = (optionParseLoop fuel mss' options).2 := by
  induction fuel generalizing mss mss' options with
  | zero => cases options <;> rfl
  | succ fuel ih =>
    cases options with
    | nil => rfl
    | cons kind rest =>
      unfold optionParseLoop
      by_cases hend : kind = 0
      · rw [if_pos hend, if_pos hend]
      · rw [if_neg hend, if_neg hend]
        by_cases hnop : kind = 1
        · rw [if_pos hnop, if_pos hnop]
          exact ih mss mss' rest
        · rw [if_neg hnop, if_neg hnop]
          cases rest with
          | nil => rfl
          | cons length value =>
            dsimp only
            by_cases hmss : kind = 2
            · rw [if_pos hmss, if_pos hmss]
              rcases value with _ | ⟨v0, _ | ⟨v1, rest⟩⟩
              · rfl
              · rfl
              · dsimp only
                split
                · exact ih _ _ rest
                · rfl
            · rw [if_neg hmss, if_neg hmss]
              split
              · rfl
              · exact ih mss mss' _

theorem optionParse_valid : (optionParse w.fsm seg).2 = optionsValid seg := by
  unfold optionParse optionsValid
  exact optionParseLoop_valid _ _ _ _

theorem parsed_tcb_eq : (optionParse w.fsm seg).1.tcb = w.fsm.tcb ↔ KeepsMss w.fsm.tcb seg := by
  rw [optionParse_tcb]
  constructor
  · intro htcb mss hmss
    have hfield := congrArg Tcb.mss htcb
    rw [hmss] at hfield
    exact hfield
  · intro hkeeps
    have hmss : (announcedMss seg).getD w.fsm.tcb.mss = w.fsm.tcb.mss := by
      cases hread : announcedMss seg with
      | none => rfl
      | some mss => exact hkeeps mss hread
    rw [hmss]

theorem sendAck_untouched : Untouched w (Timed.sendAck e w) ↔
    (e.alloc w.fsm.builds = true → w.rtt.retries = 0 ∧ w.rtt.rttStart = e.now) := by
  have htcb : (Timed.sendAck e w).fsm.tcb = w.fsm.tcb := sendAck_tcb
  unfold Untouched
  rw [htcb, eq_self_iff_true, true_and]
  unfold Timed.sendAck Timed.buildSend pktBuild Timed.pktSend
  cases hroom : e.alloc w.fsm.builds with
  | false =>
    constructor
    · intro _ hc
      cases hc
    · intro _
      rfl
  | true =>
    show w.rtt.send e.now false = w.rtt ↔ _
    constructor
    · intro hrtt _
      exact ⟨(congrArg Rtt.retries hrtt).symm, (congrArg Rtt.rttStart hrtt).symm⟩
    · intro hmeasure
      obtain ⟨hretries, hstart⟩ := hmeasure rfl
      unfold Rtt.send
      rw [if_neg (by decide), ← hretries, ← hstart]

/-- What the options leave behind. -/
def parsed (w : TimedFsm) (seg : Segment) : TimedFsm := { w with fsm := (optionParse w.fsm seg).1 }

theorem parsed_fields : (parsed w seg).fsm.tcb =
    { w.fsm.tcb with mss := (announcedMss seg).getD w.fsm.tcb.mss } := by
  unfold parsed
  rw [optionParse_tcb]

theorem parsed_untouched : Untouched w (parsed w seg) ↔ KeepsMss w.fsm.tcb seg :=
  ⟨fun h => parsed_tcb_eq.mp h.1, fun h => ⟨parsed_tcb_eq.mpr h, rfl⟩⟩

/-- A segment with malformed options is dropped behind the last option that has been read. -/
theorem fsmRcvdPkt_malformed (hvalid : optionsValid seg = false) :
    Timed.fsmRcvdPkt e w seg = some (parsed w seg) := by
  unfold Timed.fsmRcvdPkt
  dsimp only
  rw [optionParse_valid, hvalid, if_pos rfl]
  rfl

/-- A segment whose sequence number is not acceptable is answered with an ACK, or not at all. -/
theorem fsmRcvdPkt_unacceptable (hvalid : optionsValid seg = true) (hlisten : w.fsm.tcb.state ≠ .listen)
    (hsent : w.fsm.tcb.state ≠ .synSent) (hchk : chkSeqNum w.fsm.tcb seg.seqNum (getPayLen seg) = some false) :
    Timed.fsmRcvdPkt e w seg =
      some (if seg.ctl.rst then parsed w seg else Timed.sendAck e (parsed w seg)) := by
  have hstate : (parsed w seg).fsm.tcb.state = w.fsm.tcb.state := by rw [parsed_fields]
  have hchk' : chkSeqNum (parsed w seg).fsm.tcb seg.seqNum (getPayLen seg) = some false := by
    exact hchk
  have hother : Timed.fsmRcvdPkt e w seg = Timed.rcvdOther e (parsed w seg) seg := by
    unfold Timed.fsmRcvdPkt
    dsimp only
    rw [optionParse_valid, hvalid, if_neg (by decide)]
    split
    · rename_i hs
      exact absurd (hstate.symm.trans hs) hlisten
    · rename_i hs
      exact absurd (hstate.symm.trans hs) hsent
    · rfl
  rw [hother]
  unfold Timed.rcvdOther
  rw [hchk']
  rfl

/-- A rejected segment leaves the connection as it is exactly if it announces no MSS but the one that
the TCB holds, and, where it is answered with an ACK, a measurement with no retries has just begun. -/
theorem rejected_untouched_iff (hlisten : w.fsm.tcb.state ≠ .listen) (hsent : w.fsm.tcb.state ≠ .synSent)
    (hrejected : Rejected w.fsm.tcb seg) : ∃ w', Timed.fsmRcvdPkt e w seg = some w' ∧
      (Untouched w w' ↔ KeepsMss w.fsm.tcb seg ∧ KeepsMeasure e w seg) := by
  have hsilent : (optionsValid seg = true → seg.ctl.rst = false → False) → KeepsMeasure e w seg :=
    fun hno hvalid hrst => absurd (hno hvalid hrst) id
  cases hvalid : optionsValid seg with
  | false =>
    refine ⟨_, fsmRcvdPkt_malformed hvalid, parsed_untouched.trans ⟨fun h => ⟨h, hsilent ?_⟩, And.left⟩⟩
    rw [hvalid]
    exact fun hc => by cases hc
  | true =>
    have hchk : chkSeqNum w.fsm.tcb seg.seqNum (getPayLen seg) = some false := by
      rcases hrejected with hc | hchk
      · rw [hvalid] at hc
        cases hc
      · exact hchk
    refine ⟨_, fsmRcvdPkt_unacceptable hvalid hlisten hsent hchk, ?_⟩
    cases hrst : seg.ctl.rst with
    | true =>
      refine parsed_untouched.trans ⟨fun h => ⟨h, hsilent ?_⟩, And.left⟩
      rw [hrst]
      exact fun _ hc => by cases hc
    | false =>
      rw [if_neg (by decide)]
      have hack : Untouched (parsed w seg) (Timed.sendAck e (parsed w seg)) ↔ _ := sendAck_untouched
      have htcb : (Timed.sendAck e (parsed w seg)).fsm.tcb = (parsed w seg).fsm.tcb := sendAck_tcb
      constructor
      · rintro ⟨hsame, hrtt⟩
        refine ⟨parsed_tcb_eq.mp (htcb.symm.trans hsame), fun _ _ hroom => ?_⟩
        exact hack.mp ⟨htcb, hrtt⟩ hroom
      · rintro ⟨hmss, hmeasure⟩
        refine ⟨htcb.trans (parsed_tcb_eq.mpr hmss), ?_⟩
        exact (hack.mpr fun hroom => hmeasure hvalid hrst hroom).2

/-- The connected TCB with three bytes in its queue, which have been sent twice. -/
def soloWaiting : KarnHist :=
  (run karnStep karnStart (soloData ++ [soloAt 1000 .timeoutRetransmit])).getD karnStart

/-- The call for a segment there, 20 milliseconds later. -/
def waitingEnv : TimedEnv := { toEnv := (solo .callOpen).env, now := BitVec.ofNat 32 (soloWaiting.now + 20) }

def waitingFsm : TimedFsm := { fsm := fsmStart soloWaiting.tcb [0] [true], rtt := soloWaiting.rtt, samples := [] }

/-- A segment from before the window. -/
def staleSegment : Segment := peerSegment { ack := true } 4000 101 [[7]]

def staleReset : Segment := peerSegment { rst := true } 4000 0 []

/-- A reset from before the window is not answered. -/
theorem rejected_untouched_staleReset : ∃ w',
    Timed.fsmRcvdPkt waitingEnv waitingFsm staleReset = some w' ∧ Untouched waitingFsm w' := by
  have hkeeps : KeepsMss waitingFsm.fsm.tcb staleReset := by
    intro mss hmss
    cases hmss
  have hmeasure : KeepsMeasure waitingEnv waitingFsm staleReset := by
    intro _ hrst
    cases hrst
  obtain ⟨w', hcall, hiff⟩ := @rejected_untouched_iff waitingEnv waitingFsm staleReset
    (by decide +kernel) (by decide +kernel) (by decide +kernel)
  exact ⟨w', hcall, hiff.mpr ⟨hkeeps, hmeasure⟩⟩

/-- An MSS in front of a malformed option is kept, so is one in a segment from before the window, and the
answer to such a segment resets the retries of the bytes in the queue. -/
theorem not_rejected_untouched :
    (∃ w', Rejected waitingFsm.fsm.tcb { staleSegment with options := [2, 4, 0, 100, 7, 0, 0, 0] } ∧
      Timed.fsmRcvdPkt waitingEnv waitingFsm { staleSegment with options := [2, 4, 0, 100, 7, 0, 0, 0] } = some w' ∧
      waitingFsm.fsm.tcb.mss = 1220 ∧ w'.fsm.tcb.mss = 100) ∧
    (∃ w', Rejected waitingFsm.fsm.tcb { staleSegment with options := [2, 4, 0, 100] } ∧
      Timed.fsmRcvdPkt waitingEnv waitingFsm { staleSegment with options := [2, 4, 0, 100] } = some w' ∧
      w'.fsm.tcb.mss = 100) ∧
    ∃ w', Rejected waitingFsm.fsm.tcb staleSegment ∧
      Timed.fsmRcvdPkt waitingEnv waitingFsm staleSegment = some w' ∧
      waitingFsm.fsm.tcb.state = .established ∧ waitingFsm.fsm.tcb.pktRetransmit ≠ none ∧
      waitingFsm.rtt.retries = 1 ∧ w'.rtt.retries = 0 ∧ ¬Untouched waitingFsm w' := by
  refine ⟨?_, ?_, ?_⟩
  · have hend : (Timed.fsmRcvdPkt waitingEnv waitingFsm
        { staleSegment with options := [2, 4, 0, 100, 7, 0, 0, 0] }).any
        (fun w' => decide (waitingFsm.fsm.tcb.mss = 1220 ∧ w'.fsm.tcb.mss = 100)) = true := by
      decide +kernel
    obtain ⟨w', hcall, hend⟩ := (Option.any_eq_true _ _).mp hend
    exact ⟨w', by decide +kernel, hcall, of_decide_eq_true hend⟩
  · have hend : (Timed.fsmRcvdPkt waitingEnv waitingFsm { staleSegment with options := [2, 4, 0, 100] }).any
        (fun w' => decide (w'.fsm.tcb.mss = 100)) = true := by
      decide +kernel
    obtain ⟨w', hcall, hend⟩ := (Option.any_eq_true _ _).mp hend
    exact ⟨w', by decide +kernel, hcall, of_decide_eq_true hend⟩
  · have hend : (Timed.fsmRcvdPkt waitingEnv waitingFsm staleSegment).any
        (fun w' => decide (waitingFsm.fsm.tcb.state = .established ∧
          waitingFsm.fsm.tcb.pktRetransmit ≠ none ∧ waitingFsm.rtt.retries = 1 ∧ w'.rtt.retries = 0 ∧
          ¬Untouched waitingFsm w')) = true := by
      decide +kernel
    obtain ⟨w', hcall, hend⟩ := (Option.any_eq_true _ _).mp hend
    exact ⟨w', by decide +kernel, hcall, of_decide_eq_true hend⟩

end Riot.Tcp
