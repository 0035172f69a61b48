import Riot.Lib.Runs
import Riot.Submac.Events

/-!
# What the SubMAC reports

Each event that is waited for leads nearer to the end, so that what is under way is reported.
-/

namespace Riot.Submac

open Riot.Lib

variable {cfg : Config} {s s' t : State} {oc : Outcomes} {f : Frame} {new : FsmState} {status : TxStatus}

/-! ## Going on -/

/-- A radio that does all it is asked for, but for the transmission. -/
def working : Outcomes := ⟨true, true, true, true, true, true, some ⟨.mediumBusy, 0⟩, 0, 0, (0, 0, 0)⟩

theorem processEv_isSome {ev : FsmEv} (h : (fsmStateOf cfg s ev oc).isSome = true) : (processEv cfg s ev oc).isSome = true := by
  unfold processEv
  rw [Option.isSome_map]
  exact h

theorem awaited_exists (h : Inv cfg s) (hbusy : s.fsmState.busy = true) : ∃ e, Awaited s e ∧ (step cfg s e).isSome = true := by
  cases hstate : s.fsmState with
  | prepare =>
    refine ⟨.bh working, ⟨hstate, h.2.prepare hstate⟩, ?_⟩
    refine processEv_isSome (s := { s with bhRequested := false }) ?_
    rw [fsmStateOf_prepare (s := { s with bhRequested := false }) hstate]
    rfl
  | tx =>
    refine ⟨.txDone working, ⟨hstate, h.2.tx hstate, rfl⟩, ?_⟩
    refine processEv_isSome (s := s) ?_
    rw [fsmStateOf_tx hstate]
    show (fsmStateTxProcessTxDone cfg (confirmed s ⟨.mediumBusy, 0⟩) working .mediumBusy).isSome = true
    unfold fsmStateTxProcessTxDone
    dsimp only
    split
    · rfl
    · split <;> rfl
  | waitForAck =>
    refine ⟨.ackTimeout working, ⟨hstate, h.2.waitForAck hstate⟩, ?_⟩
    refine processEv_isSome (s := { s with ackTimer := false }) ?_
    rw [fsmStateOf_waitForAck (s := { s with ackTimer := false }) hstate]
    show (handleTxNoAck cfg { s with ackTimer := false } working).isSome = true
    unfold handleTxNoAck
    split <;> rfl
  | _ =>
    rw [hstate] at hbusy
    cases hbusy

theorem handleTxNoAck_work (heq : handleTxNoAck cfg t oc = some (new, s')) (hbusy : new.busy = true) :
    work cfg { s' with fsmState := new } < (cfg.maxFrameRetrans - t.retrans) * (2 * cfg.csmaRetries + 3) := by
  unfold handleTxNoAck hasRetransLeft at heq
  split at heq
  · rename_i hleft
    have hlt : t.retrans < cfg.maxFrameRetrans := of_decide_eq_true hleft
    split at heq
    · cases heq
      unfold work
      dsimp only
      have hmod : (t.retrans + 1) % 256 = t.retrans + 1 := Nat.mod_eq_of_lt (by have := cfg.maxFrameRetrans_lt; omega)
      obtain ⟨left, hleft⟩ : ∃ left, cfg.maxFrameRetrans - t.retrans = left + 1 := ⟨cfg.maxFrameRetrans - t.retrans - 1, by omega⟩
      have hless : cfg.maxFrameRetrans - (t.retrans + 1) = left := by omega
      rw [hmod, hless, hleft, Nat.add_mul, Nat.one_mul]
      omega
    · cases heq
  · obtain ⟨filter, hset⟩ := setFilter_eq t oc .accept
    unfold txEnd at heq
    split at heq
    · cases heq
      cases hbusy
    · cases heq

theorem txEnd_busy (h : txEnd t oc status = some (new, s')) : new.busy = false := by
  unfold txEnd at h
  split at h
  · cases h
    rfl
  · cases h

theorem handleTxNoAck_valid (h : handleTxNoAck cfg t oc = some (new, s')) : new ≠ .invalid := by
  unfold handleTxNoAck txEnd at h
  split at h <;> split at h
  · cases h
    exact nofun
  · cases h
  · cases h
    exact nofun
  · cases h

theorem processTxDone_valid (h : fsmStateTxProcessTxDone cfg t oc status = some (new, s')) : new ≠ .invalid := by
  have hended : ∀ {t' status}, txEnd t' oc status = some (new, s') → new ≠ .invalid := by
    rintro t' status hend rfl
    unfold txEnd at hend
    split at hend <;> cases hend
  unfold fsmStateTxProcessTxDone at h
  split at h <;> split at h
  · exact hended h
  · cases h
  · exact hended h
  · split at h
    · cases h
      exact nofun
    · cases h
  · exact handleTxNoAck_valid h
  · cases h
  · exact hended h
  · split at h
    · exact hended h
    · cases h
      exact nofun

theorem processTxDone_work (hstate : t.fsmState = .tx) (heq : fsmStateTxProcessTxDone cfg t oc status = some (new, s'))
    (hbusy : new.busy = true) : work cfg { s' with fsmState := new } < work cfg t := by
  have hwork : work cfg t = (cfg.maxFrameRetrans - t.retrans) * (2 * cfg.csmaRetries + 3) +
      (2 * (cfg.csmaRetries - t.csmaRetriesNb) + 1) := by
    unfold work
    rw [hstate]
  have hended : ∀ {t'}, txEnd t' oc status = some (new, s') → work cfg { s' with fsmState := new } < work cfg t := by
    intro t' hend
    rw [txEnd_busy hend] at hbusy
    cases hbusy
  unfold fsmStateTxProcessTxDone at heq
  obtain ⟨filter, hset⟩ := setFilter_eq { t with csmaRetriesNb := 0 } oc .ackOnly
  rw [hset] at heq
  cases status with
  | framePending =>
    dsimp only at heq
    split at heq
    · exact hended heq
    · cases heq
  | success =>
    dsimp only at heq
    split at heq
    · exact hended heq
    · split at heq
      · cases heq
        rw [hwork]
        exact Nat.lt_add_of_pos_right (Nat.succ_pos _)
      · cases heq
  | noAck =>
    dsimp only at heq
    split at heq
    · have hless := handleTxNoAck_work heq hbusy
      exact lt_of_lt_of_le hless (Nat.le_add_right _ _)
    · cases heq
  | mediumBusy =>
    dsimp only at heq
    split at heq
    · exact hended heq
    split at heq
    · exact hended heq
    · cases heq
      rw [hwork]
      unfold work
      dsimp only
      have hlt := cfg.csmaRetries_lt
      rw [Nat.mod_eq_of_lt (by omega)]
      omega

/-- **Each event that is waited for leads nearer to the end.** -/
theorem awaited_work {e : Event} (he : Awaited s e) (hstep : step cfg s e = some s') (hbusy : s'.fsmState.busy = true) :
    work cfg s' < work cfg s := by
  cases e with
  | bh oc =>
    obtain ⟨hstate, -⟩ := he
    obtain ⟨new, t, hof, rfl⟩ := processEv_eq (s := { s with bhRequested := false }) hstep
    rw [fsmStateOf_prepare (s := { s with bhRequested := false }) hstate] at hof
    cases hof
    have hprep : ∃ transmitting seen mask, prepareData cfg { s with bhRequested := false } oc =
        { s with bhRequested := false, transmitting := transmitting, seen := seen, backoffMask := mask } := by
      unfold prepareData requestTransmit
      split <;> exact ⟨_, _, _, rfl⟩
    obtain ⟨transmitting, seen, mask, hprep⟩ := hprep
    rw [if_neg nofun, hprep]
    unfold work
    rw [hstate]
    exact Nat.lt_succ_self _
  | txDone oc =>
    obtain ⟨hstate, -, hconf⟩ := he
    obtain ⟨info, hconf⟩ := Option.isSome_iff_exists.mp hconf
    obtain ⟨new, t, hof, rfl⟩ := processEv_eq (s := s) hstep
    rw [fsmStateOf_tx hstate] at hof
    unfold fsmStateTx at hof
    rw [hconf] at hof
    rw [if_neg (processTxDone_valid hof)] at hbusy ⊢
    exact processTxDone_work (t := confirmed s info) hstate hof hbusy
  | ackTimeout oc =>
    obtain ⟨hstate, -⟩ := he
    obtain ⟨new, t, hof, rfl⟩ := processEv_eq (s := { s with ackTimer := false }) hstep
    rw [fsmStateOf_waitForAck (s := { s with ackTimer := false }) hstate] at hof
    rw [if_neg (handleTxNoAck_valid hof)] at hbusy ⊢
    have hwork : work cfg s = (cfg.maxFrameRetrans - s.retrans) * (2 * cfg.csmaRetries + 3) := by
      unfold work
      rw [hstate]
      rfl
    rw [hwork]
    exact handleTxNoAck_work (t := { s with ackTimer := false }) hof hbusy
  | _ => exact he.elim

/-! ## Every run -/

theorem Inv.right (h : Inv cfg s) : SubmacRight cfg s where
  matched := h.1.matched
  reports := h.1.reports
  current := h.1.current
  filter := h.1.filter
  goesOn := fun hbusy => ⟨awaited_exists h hbusy, fun _ _ he hstep hbusy' => awaited_work he hstep hbusy'⟩

/-- **The SubMAC is right** in every run whose events are. -/
theorem submac_right (cfg : Config) (es : List Event) (h : Along (step cfg) (Allowed cfg) init es) :
    Always (step cfg) (SubmacRight cfg) init es :=
  always_of_along (fun _ => Inv.right) (fun _ _ _ hinv hok hstep => step_inv hinv hok hstep) es init_inv h

/-- A radio that does nothing by itself, and the default parameters. -/
def plainRadio : Config := ⟨false, false, false, 4, 4, 3, 5, by decide, by decide, by decide⟩

def dataFrame : Frame := ⟨[0x61, 0x88, 0x07], some [0x23, 0x00], by decide⟩

def ackFrame : Frame := ⟨[0x02, 0x00, 0x07], none, by decide⟩

/-- A frame is sent and acknowledged. -/
theorem submac_right_acked : Always (step plainRadio) (SubmacRight plainRadio) init
    [.send (some dataFrame) working, .bh working,
      .txDone { working with confirmTransmit := some ⟨.success, 1⟩ },
      .rxDone { working with read := 3, ack := (0x02, 0x00, 0x07) }] := by
  refine submac_right plainRadio _ ?_
  refine And.intro (.inl (by decide)) (And.intro (fun _ => ⟨rfl, .inr (.inl rfl)⟩) (And.intro ?_ (And.intro ?_ trivial)))
  · intro _ info hinfo
    cases hinfo
    exact ⟨rfl, nofun, nofun⟩
  · intro _ _ _
    refine ⟨.inl rfl, fun f hf => ?_⟩
    cases hf
    exact ⟨rfl, by decide, by decide⟩

/-- What the radio tells is possible. -/
def Plausible (cfg : Config) (_ : State) : Event → Prop
  | .send _ oc => ∀ info, oc.confirmTransmit = some info → Possible cfg info
  | .txDone oc => ∀ info, oc.confirmTransmit = some info → Possible cfg info
  | _ => True

/-- An ACK is sent from RX, and the send fails. -/
theorem not_submac_right : ¬ ∀ (cfg : Config) (es : List Event), Along (step cfg) (Plausible cfg) init es →
    Always (step cfg) (SubmacRight cfg) init es := by
  intro hall
  have hplausible : Along (step plainRadio) (Plausible plainRadio) init [.send (some ackFrame) working] := by
    refine And.intro (fun info hinfo => ?_) trivial
    cases hinfo
    rfl
  have hright := (hall plainRadio [.send (some ackFrame) working] hplausible).last rfl
  have hmatched := hright.matched
  cases hmatched

end Riot.Submac
