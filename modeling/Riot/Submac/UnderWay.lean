import Riot.Submac.Right

/-!
# A frame under way

What is kept while a frame is under way: what it waited for before each request is what was due, the
radio has sent it as often as it was tried, and the filter was only changed to wait for an ACK, for a
radio that does not handle them.
-/

namespace Riot.Submac

open List

variable {cfg : Config} {s s' t : State} {oc : Outcomes} {f : Frame} {new : FsmState} {status : TxStatus}

/-! ## The invariant -/

/-- A frame that is under way: `wait_for_ack` is what it asks for, the next mask is the one that comes,
and each transmission but the one that is awaited was counted. -/
structure Going (cfg : Config) (s : State) : Prop where
  frame : ∃ f, s.psdu = some f ∧ s.waitForAck = f.ackReq
  waits : s.seen.waits = dueWaits cfg s.seen.waits.length
  mask : doesHandleCsma cfg = false → s.backoffMask = 2 ^ exponent cfg s.seen.waits.length - 1
  retrans : s.retrans ≤ cfg.maxFrameRetrans
  once : cfg.frameRetrans = false → s.seen.transmissions ≤ s.retrans + if s.fsmState = .waitForAck then 1 else 0
  radio : cfg.frameRetrans = true → s.retrans = 0 → s.seen.transmissions = 0

structure Base (cfg : Config) (s : State) : Prop where
  matched : s.accepted = s.reports.length + if s.fsmState.busy then 1 else 0
  reports : ∀ r ∈ s.reports, GoodReport cfg r
  current : GoodSeen cfg s.psdu s.seen
  filter : s.fsmState = .rx ∨ s.fsmState = .idle → s.filter = .accept
  going : s.fsmState.busy = true → Going cfg s
  accepts : (doesHandleAck cfg || !s.waitForAck) = true → s.filter = .accept
  valid : s.fsmState ≠ .invalid
  waits : s.fsmState = .waitForAck → doesHandleAck cfg = false ∧ s.waitForAck = true

/-- What is waited for will come. -/
structure Live (s : State) : Prop where
  prepare : s.fsmState = .prepare → s.bhRequested = true
  tx : s.fsmState = .tx → s.transmitting = true
  waitForAck : s.fsmState = .waitForAck → s.ackTimer = true

def Inv (cfg : Config) (s : State) : Prop := Base cfg s ∧ Live s

theorem goodSeen_none (frame : Option Frame) : GoodSeen cfg frame noneSeen := ⟨Nat.zero_le _, .inl rfl⟩

theorem init_inv : Inv cfg init where
  left :=
    { matched := rfl
      reports := nofun
      current := goodSeen_none none
      filter := fun _ => rfl
      going := nofun
      accepts := fun _ => rfl
      valid := nofun
      waits := nofun }
  right := ⟨nofun, nofun, nofun⟩

theorem resting_inv (hstate : s.fsmState = .rx ∨ s.fsmState = .idle) (hmatched : s.accepted = s.reports.length)
    (hreports : ∀ r ∈ s.reports, GoodReport cfg r) (hcurrent : GoodSeen cfg s.psdu s.seen) (hfilter : s.filter = .accept) :
    Inv cfg s := by
  have hbusy : s.fsmState.busy = false := by rcases hstate with h | h <;> rw [h] <;> rfl
  have hne : s.fsmState ≠ .invalid ∧ s.fsmState ≠ .prepare ∧ s.fsmState ≠ .tx ∧ s.fsmState ≠ .waitForAck := by
    rcases hstate with h | h <;> rw [h] <;> exact ⟨nofun, nofun, nofun, nofun⟩
  refine ⟨⟨?_, hreports, hcurrent, fun _ => hfilter, ?_, fun _ => hfilter, hne.1, fun h => absurd h hne.2.2.2⟩,
    fun h => absurd h hne.2.1, fun h => absurd h hne.2.2.1, fun h => absurd h hne.2.2.2⟩
  · rw [hbusy]
    exact hmatched
  · intro h
    rw [hbusy] at h
    cases h

theorem Inv.rest (h : Inv cfg s) (hstate : s.fsmState = .rx ∨ s.fsmState = .idle) (hnew : new = .rx ∨ new = .idle) :
    Inv cfg { s with fsmState := new } := by
  have hbusy : s.fsmState.busy = false := by rcases hstate with h | h <;> rw [h] <;> rfl
  have hmatched := h.1.matched
  rw [hbusy] at hmatched
  exact resting_inv hnew hmatched h.1.reports h.1.current (h.1.filter hstate)

theorem txEnd_inv {count : Nat} (h : txEnd t oc status = some (new, s')) (hmatched : count = t.reports.length + 1)
    (hreports : ∀ r ∈ t.reports, GoodReport cfg r) (hreport : GoodReport cfg ⟨t.psdu, status, t.seen⟩)
    (hfilter : t.filter = .accept) : new = .idle ∧ Inv cfg { s' with fsmState := .idle, accepted := count } := by
  unfold txEnd at h
  split at h
  · cases h
    refine ⟨rfl, resting_inv (.inr rfl) ?_ ?_ hreport.seen hfilter⟩
    · rw [length_append, length_singleton]
      exact hmatched
    · intro r hr
      rcases mem_append.mp hr with hr | hr
      · exact hreports r hr
      · obtain rfl := mem_singleton.mp hr
        exact hreport
  · cases h

theorem txEnd_accepted (h : txEnd t oc status = some (new, s')) : s'.accepted = t.accepted := by
  unfold txEnd at h
  split at h
  · cases h
    rfl
  · cases h

theorem setFilter_accept (h : FilterBack s oc) : (setFilter s oc .accept).filter = .accept := by
  unfold setFilter
  rcases h with h | h
  · rw [if_pos h]
  · split
    · rfl
    · exact h

theorem setFilter_eq (s : State) (oc : Outcomes) (mode : FilterMode) : ∃ filter, setFilter s oc mode = { s with filter := filter } := by
  unfold setFilter
  split
  · exact ⟨mode, rfl⟩
  · exact ⟨s.filter, rfl⟩

theorem handleTxNoAck_accepted (h : handleTxNoAck cfg t oc = some (new, s')) : s'.accepted = t.accepted := by
  unfold handleTxNoAck at h
  obtain ⟨filter, hset⟩ := setFilter_eq t oc .accept
  rw [hset] at h
  split at h
  · split at h
    · cases h
      rfl
    · cases h
  · exact (txEnd_accepted h).trans rfl

theorem fsmStateTxProcessTxDone_accepted (h : fsmStateTxProcessTxDone cfg t oc status = some (new, s')) :
    s'.accepted = t.accepted := by
  unfold fsmStateTxProcessTxDone at h
  obtain ⟨filter, hset⟩ := setFilter_eq { t with csmaRetriesNb := 0 } oc .ackOnly
  rw [hset] at h
  split at h <;> split at h
  · exact (txEnd_accepted h).trans rfl
  · cases h
  · exact (txEnd_accepted h).trans rfl
  · split at h
    · cases h
      rfl
    · cases h
  · exact (handleTxNoAck_accepted h).trans rfl
  · cases h
  · exact (txEnd_accepted h).trans rfl
  · split at h
    · exact (txEnd_accepted h).trans rfl
    · cases h
      rfl

theorem Base.accepts_ack (h : Base cfg s) (hack : doesHandleAck cfg = true) : s.filter = .accept :=
  h.accepts (by rw [hack]; rfl)

/-! ## While a frame is under way -/

/-- What is kept of a frame under way in all three states. -/
structure UnderWay (cfg : Config) (t : State) : Prop where
  matched : t.accepted = t.reports.length + 1
  reports : ∀ r ∈ t.reports, GoodReport cfg r
  current : GoodSeen cfg t.psdu t.seen
  frame : ∃ f, t.psdu = some f ∧ t.waitForAck = f.ackReq
  waits : t.seen.waits = dueWaits cfg t.seen.waits.length
  mask : doesHandleCsma cfg = false → t.backoffMask = 2 ^ exponent cfg t.seen.waits.length - 1
  retrans : t.retrans ≤ cfg.maxFrameRetrans
  accepts : (doesHandleAck cfg || !t.waitForAck) = true → t.filter = .accept

theorem Base.underWay (h : Base cfg s) (hbusy : s.fsmState.busy = true) : UnderWay cfg s := by
  have hgoing := h.going hbusy
  have hmatched := h.matched
  rw [if_pos hbusy] at hmatched
  exact ⟨hmatched, h.reports, h.current, hgoing.frame, hgoing.waits, hgoing.mask, hgoing.retrans, h.accepts⟩

theorem UnderWay.base (h : UnderWay cfg t) (hbusy : new.busy = true)
    (honce : cfg.frameRetrans = false → t.seen.transmissions ≤ t.retrans + if new = .waitForAck then 1 else 0)
    (hradio : cfg.frameRetrans = true → t.retrans = 0 → t.seen.transmissions = 0)
    (hwait : new = .waitForAck → doesHandleAck cfg = false ∧ t.waitForAck = true) :
    Base cfg { t with fsmState := new } where
  matched := by
    rw [hbusy]
    exact h.matched
  reports := h.reports
  current := h.current
  filter := by
    intro hstate
    rcases hstate with rfl | rfl <;> cases hbusy
  going := fun _ => ⟨h.frame, h.waits, h.mask, h.retrans, honce, hradio⟩
  accepts := h.accepts
  valid := by
    rintro rfl
    cases hbusy
  waits := hwait

theorem UnderWay.ended (h : UnderWay cfg t) (hend : txEnd t oc status = some (new, s'))
    (hacked : ∀ f, t.psdu = some f → f.ackReq = true → doesHandleAck cfg = false →
      status = .success ∨ status = .framePending → ∃ read ∈ t.seen.acks, IsAckOf f read)
    (hfilter : t.filter = .accept) : new ≠ .invalid ∧ Inv cfg { s' with fsmState := new } := by
  obtain ⟨rfl, hinv⟩ := txEnd_inv hend h.matched h.reports ⟨h.current, hacked⟩ hfilter
  refine ⟨nofun, ?_⟩
  unfold txEnd at hend
  split at hend
  · cases hend
    exact hinv
  · cases hend

theorem handleTxNoAck_inv (h : UnderWay cfg t) (heq : handleTxNoAck cfg t oc = some (new, s'))
    (honce : cfg.frameRetrans = false → t.seen.transmissions ≤ t.retrans + 1)
    (hback : cfg.maxFrameRetrans ≤ t.retrans → FilterBack t oc) :
    new ≠ .invalid ∧ Inv cfg { s' with fsmState := new } := by
  unfold handleTxNoAck hasRetransLeft at heq
  split at heq
  · rename_i hleft
    have hlt : t.retrans < cfg.maxFrameRetrans := of_decide_eq_true hleft
    have hmod : (t.retrans + 1) % 256 = t.retrans + 1 := Nat.mod_eq_of_lt (by have := cfg.maxFrameRetrans_lt; omega)
    split at heq
    · cases heq
      refine ⟨nofun, ?_, fun _ => rfl, nofun, nofun⟩
      have hway : UnderWay cfg { t with retrans := (t.retrans + 1) % 256, bhRequested := true } :=
        ⟨h.matched, h.reports, h.current, h.frame, h.waits, h.mask, by dsimp only; omega, h.accepts⟩
      refine hway.base rfl ?_ ?_ nofun
      · intro hno
        have := honce hno
        dsimp only
        omega
      · intro _ hzero
        dsimp only at hzero
        omega
    · cases heq
  · rename_i hleft
    have hle : cfg.maxFrameRetrans ≤ t.retrans := Nat.le_of_not_lt fun hlt => hleft (decide_eq_true hlt)
    obtain ⟨filter, hset⟩ := setFilter_eq t oc .accept
    have haccept := setFilter_accept (hback hle)
    rw [hset] at heq haccept
    have hway : UnderWay cfg { t with filter := filter } :=
      ⟨h.matched, h.reports, h.current, h.frame, h.waits, h.mask, h.retrans, fun _ => haccept⟩
    exact hway.ended heq (fun _ _ _ _ hstatus => hstatus.elim nofun nofun) haccept

theorem Going.sent_le {info : TxInfo} (h : Going cfg s) (hstate : s.fsmState = .tx)
    (hcurrent : s.seen.transmissions ≤ 1 + cfg.maxFrameRetrans) (hpossible : Possible cfg info)
    (hradio : cfg.frameRetrans = true → s.retrans = 0 ∨ info.sent = 0) :
    s.seen.transmissions + info.sent ≤ 1 + cfg.maxFrameRetrans := by
  unfold Possible at hpossible
  have hretrans := h.retrans
  cases hframe : cfg.frameRetrans with
  | true =>
    rw [if_pos hframe] at hpossible
    rcases hradio hframe with hzero | hzero
    · have := h.radio hframe hzero
      omega
    · omega
  | false =>
    have honce := h.once hframe
    rw [hstate, if_neg (by decide)] at honce
    rw [hframe, if_neg (by decide)] at hpossible
    have : info.sent ≤ 1 := by
      rw [hpossible]
      split <;> decide
    omega

theorem fsmStateTxProcessTxDone_inv {info : TxInfo} (h : Base cfg s) (hstate : s.fsmState = .tx)
    (hpossible : Possible cfg info) (hradio : cfg.frameRetrans = true → s.retrans = 0 ∨ info.sent = 0)
    (hbusy : info.status = .mediumBusy → doesHandleCsma cfg = true ∨ cfg.csmaRetries ≤ s.csmaRetriesNb → s.filter = .accept)
    (heq : fsmStateTxProcessTxDone cfg (confirmed s info) oc info.status = some (new, s')) :
    new ≠ .invalid ∧ Inv cfg { s' with fsmState := new } := by
  have hgoing := h.going (by rw [hstate]; rfl)
  have hway := h.underWay (by rw [hstate]; rfl)
  have hsent := hgoing.sent_le hstate h.current.sent hpossible hradio
  -- what is known of the frame, whatever else is changed
  have hconf : ∀ {nb bh timer filter}, ((doesHandleAck cfg || !s.waitForAck) = true → filter = .accept) →
      UnderWay cfg { confirmed s info with csmaRetriesNb := nb, bhRequested := bh, ackTimer := timer, filter := filter } :=
    fun haccepts => ⟨hway.matched, hway.reports, ⟨hsent, hway.current.waits⟩, hway.frame, hway.waits, hway.mask,
      hway.retrans, haccepts⟩
  have honce : cfg.frameRetrans = false → s.seen.transmissions + info.sent ≤ s.retrans + 1 := by
    intro hframe
    have := hgoing.once hframe
    unfold Possible at hpossible
    rw [hstate, if_neg (by decide)] at this
    rw [hframe, if_neg (by decide)] at hpossible
    split at hpossible <;> omega
  cases hst : info.status with
  | framePending =>
    rw [hst] at heq
    unfold fsmStateTxProcessTxDone at heq
    dsimp only at heq
    split at heq
    · rename_i hack
      have hno : doesHandleAck cfg ≠ false := by
        rw [hack]
        exact nofun
      exact (hconf h.accepts).ended heq (fun _ _ _ hack _ => absurd hack hno) (h.accepts_ack hack)
    · cases heq
  | success =>
    rw [hst] at heq
    unfold fsmStateTxProcessTxDone at heq
    dsimp only at heq
    split at heq
    · rename_i hend
      refine (hconf h.accepts).ended heq ?_ (h.accepts hend)
      intro f hf hreq hack
      obtain ⟨f', hf', hwait⟩ := hgoing.frame
      obtain rfl := Option.some.inj (hf.symm.trans hf')
      have hasks : s.waitForAck = true := hwait.trans hreq
      have hends : (doesHandleAck cfg || !s.waitForAck) = true := hend
      rw [hack, hasks] at hends
      cases hends
    · rename_i hwait
      have hasks : doesHandleAck cfg = false ∧ s.waitForAck = true := by
        have hwait : ¬ (doesHandleAck cfg || !s.waitForAck) = true := hwait
        cases hack : doesHandleAck cfg <;> cases hasks : s.waitForAck <;> rw [hack, hasks] at hwait <;>
          first | exact ⟨rfl, rfl⟩ | exact absurd rfl hwait
      split at heq
      · cases heq
        obtain ⟨filter, hset⟩ := setFilter_eq { confirmed s info with csmaRetriesNb := 0 } oc .ackOnly
        rw [hset]
        refine ⟨nofun, ?_, nofun, nofun, fun _ => rfl⟩
        refine (hconf fun hends => ?_).base rfl honce ?_ (fun _ => hasks)
        · rw [hasks.1, hasks.2] at hends
          cases hends
        · intro hframe
          have hack := hasks.1
          unfold doesHandleAck at hack
          rw [hframe] at hack
          cases hack
      · cases heq
  | noAck =>
    rw [hst] at heq
    unfold fsmStateTxProcessTxDone at heq
    dsimp only at heq
    split at heq
    · rename_i hack
      exact handleTxNoAck_inv (hconf h.accepts) heq honce (fun _ => .inr (h.accepts_ack hack))
    · cases heq
  | mediumBusy =>
    rw [hst] at heq
    unfold fsmStateTxProcessTxDone at heq
    dsimp only at heq
    split at heq
    · rename_i hcsma
      have haccept := hbusy hst (.inl hcsma)
      exact (hconf fun _ => haccept).ended heq (fun _ _ _ _ hstatus => hstatus.elim nofun nofun) haccept
    rename_i hcsma
    split at heq
    · rename_i hretries
      have haccept := hbusy hst (.inr hretries)
      exact (hconf fun _ => haccept).ended heq (fun _ _ _ _ hstatus => hstatus.elim nofun nofun) haccept
    · cases heq
      have hframe : cfg.frameRetrans ≠ true := by
        intro hframe
        unfold doesHandleCsma at hcsma
        rw [hframe] at hcsma
        exact hcsma rfl
      refine ⟨nofun, ?_, fun _ => rfl, nofun, nofun⟩
      refine (hconf h.accepts).base rfl ?_ (fun hradio => absurd hradio hframe) nofun
      intro hframe
      have honce := hgoing.once hframe
      unfold Possible at hpossible
      rw [hstate, if_neg (by decide)] at honce
      rw [hframe, if_neg (by decide), if_pos hst] at hpossible
      show s.seen.transmissions + info.sent ≤ s.retrans + 0
      omega

theorem prepareData_inv (h : Base cfg s) (hstate : s.fsmState = .prepare) (hreq : oc.requestTransmit = true)
    (hdue : doesHandleCsma cfg = true ∨ DueReached cfg s.seen.waits.length) :
    Inv cfg { prepareData cfg s oc with fsmState := .tx } := by
  have hgoing := h.going (by rw [hstate]; rfl)
  have hway := h.underWay (by rw [hstate]; rfl)
  have honce : cfg.frameRetrans = false → s.seen.transmissions ≤ s.retrans + 0 := by
    intro hframe
    have := hgoing.once hframe
    rw [hstate, if_neg (by decide)] at this
    exact this
  have hwaits : s.seen.waits ++ [dueWait cfg s.seen.waits.length] =
      dueWaits cfg (s.seen.waits ++ [dueWait cfg s.seen.waits.length]).length := by
    rw [length_append, length_singleton, dueWaits_succ, ← hgoing.waits]
  unfold prepareData requestTransmit
  split
  · rename_i hcsma
    have hwait : dueWait cfg s.seen.waits.length = .radio := if_pos hcsma
    rw [hwait] at hwaits
    refine ⟨?_, nofun, fun _ => hreq, nofun⟩
    refine UnderWay.base (t := { s with
      transmitting := oc.requestTransmit, seen := { s.seen with waits := s.seen.waits ++ [.radio] } }) ?_ rfl honce
      hgoing.radio nofun
    exact ⟨hway.matched, hway.reports, ⟨hway.current.sent, .inl hwaits⟩, hway.frame, hwaits,
      fun hno => absurd (hcsma.symm.trans hno) nofun, hway.retrans, hway.accepts⟩
  · rename_i hcsma
    have hno : doesHandleCsma cfg = false := Bool.eq_false_iff.mpr hcsma
    have hexp := exponent_eq (hdue.resolve_left hcsma)
    have hmask : s.backoffMask = 2 ^ due cfg s.seen.waits.length - 1 := by
      rw [hgoing.mask hno, hexp]
    have hwait : dueWait cfg s.seen.waits.length = .backoff s.backoffMask := by
      unfold dueWait
      rw [if_neg hcsma, hmask]
    rw [hwait] at hwaits
    refine ⟨?_, nofun, fun _ => hreq, nofun⟩
    refine UnderWay.base (t := { s with
      transmitting := oc.requestTransmit, seen := { s.seen with waits := s.seen.waits ++ [.backoff s.backoffMask] }
      backoffMask := nextMask cfg s.backoffMask }) ?_ rfl honce hgoing.radio nofun
    refine ⟨hway.matched, hway.reports, ⟨hway.current.sent, .inl hwaits⟩, hway.frame, hwaits, fun _ => ?_,
      hway.retrans, hway.accepts⟩
    rw [hgoing.mask hno, nextMask_eq, length_append, length_singleton, exponent]

theorem waitForAck_rxDone_inv (h : Inv cfg s) (hstate : s.fsmState = .waitForAck)
    (hack : oc.read ≠ 0 → oc.ack.1 &&& fcfTypeAck ≠ 0 →
      FilterBack s oc ∧ ∀ f, s.psdu = some f → IsAckOf f (oc.read, oc.ack))
    (heq : fsmStateWaitForAck cfg s .rxDone oc = some (new, s')) :
    new ≠ .invalid ∧ Inv cfg { s' with fsmState := new } := by
  have hway := h.1.underWay (by rw [hstate]; rfl)
  have hgoing := h.1.going (by rw [hstate]; rfl)
  unfold fsmStateWaitForAck at heq
  dsimp only at heq
  split at heq
  · cases heq
  split at heq
  · rename_i _ hread
    obtain ⟨hback, hseq⟩ := hack hread.1 hread.2
    have haccept := setFilter_accept (s := { readAck s oc with ackTimer := false }) hback
    obtain ⟨filter, hset⟩ := setFilter_eq { readAck s oc with ackTimer := false } oc .accept
    rw [hset] at heq haccept
    have hway' : UnderWay cfg { readAck s oc with ackTimer := false, filter := filter } :=
      ⟨hway.matched, hway.reports, ⟨hway.current.sent, hway.current.waits⟩, hway.frame, hway.waits, hway.mask,
        hway.retrans, fun _ => haccept⟩
    refine hway'.ended heq (fun f hf _ _ _ => ?_) haccept
    exact ⟨(oc.read, oc.ack), mem_append_right _ mem_cons_self, hseq f hf⟩
  · cases heq
    have hway' : UnderWay cfg (readAck s oc) :=
      ⟨hway.matched, hway.reports, ⟨hway.current.sent, hway.current.waits⟩, hway.frame, hway.waits, hway.mask,
        hway.retrans, hway.accepts⟩
    have honce := hgoing.once
    rw [hstate] at honce
    exact ⟨nofun, hway'.base rfl honce hgoing.radio (fun _ => h.1.waits hstate), nofun, nofun,
      fun _ => h.2.waitForAck hstate⟩

end Riot.Submac
