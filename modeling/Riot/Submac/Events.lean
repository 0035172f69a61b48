import Riot.Submac.UnderWay

/-!
# Every event keeps the invariant

An event for which a state has nothing changes nothing. A send either puts a frame under way, is refused,
or is done with an ACK before it returns.
-/

namespace Riot.Submac

open Option

variable {cfg : Config} {s s' t : State} {oc : Outcomes} {f : Frame} {new : FsmState} {status : TxStatus}

/-! ## Every event -/

variable {ev : FsmEv}

theorem fsmStateOf_prepare (h : s.fsmState = .prepare) :
    fsmStateOf cfg s ev oc = some (fsmStatePrepare cfg s ev oc) := by
  unfold fsmStateOf
  rw [h]

theorem fsmStateOf_tx (h : s.fsmState = .tx) : fsmStateOf cfg s ev oc = fsmStateTx cfg s ev oc := by
  unfold fsmStateOf
  rw [h]

theorem fsmStateOf_waitForAck (h : s.fsmState = .waitForAck) :
    fsmStateOf cfg s ev oc = fsmStateWaitForAck cfg s ev oc := by
  unfold fsmStateOf
  rw [h]

theorem fsmStateOf_rx (h : s.fsmState = .rx) : fsmStateOf cfg s ev oc = fsmStateRx s ev oc := by
  unfold fsmStateOf
  rw [h]

theorem fsmStateOf_idle (h : s.fsmState = .idle) : fsmStateOf cfg s ev oc = fsmStateIdle cfg s ev oc := by
  unfold fsmStateOf
  rw [h]

theorem processEv_invalid (h : fsmStateOf cfg s ev oc = some (.invalid, s)) : processEv cfg s ev oc = some s := by
  unfold processEv
  rw [h]
  rfl

theorem processEv_eq (h : processEv cfg s ev oc = some s') : ∃ new t, fsmStateOf cfg s ev oc = some (new, t) ∧
      s' = { t with fsmState := if new = .invalid then s.fsmState else new } := by
  obtain ⟨⟨new, t⟩, heq, rfl⟩ := map_eq_some_iff.mp h
  exact ⟨new, t, heq, rfl⟩

theorem processEv_inv (h : processEv cfg s ev oc = some s')
    (hall : ∀ new t, fsmStateOf cfg s ev oc = some (new, t) → new ≠ .invalid ∧ Inv cfg { t with fsmState := new }) :
    Inv cfg s' := by
  obtain ⟨new, t, heq, rfl⟩ := processEv_eq h
  obtain ⟨hne, hinv⟩ := hall new t heq
  rw [if_neg hne]
  exact hinv

theorem bh_inv (h : Inv cfg s) (hok : Allowed cfg s (.bh oc)) (hstep : step cfg s (.bh oc) = some s') : Inv cfg s' := by
  have hbase : Base cfg { s with bhRequested := false } :=
    ⟨h.1.matched, h.1.reports, h.1.current, h.1.filter, fun hbusy => h.1.going hbusy |> fun hg =>
      ⟨hg.frame, hg.waits, hg.mask, hg.retrans, hg.once, hg.radio⟩, h.1.accepts, h.1.valid, h.1.waits⟩
  by_cases hstate : s.fsmState = .prepare
  · obtain ⟨hreq, hdue⟩ := hok hstate
    refine processEv_inv hstep fun new t heq => ?_
    rw [fsmStateOf_prepare (s := { s with bhRequested := false }) hstate] at heq
    cases heq
    exact ⟨nofun, prepareData_inv hbase hstate hreq hdue⟩
  · have hsame : processEv cfg { s with bhRequested := false } .bh oc = some { s with bhRequested := false } := by
      apply processEv_invalid
      unfold fsmStateOf
      cases hs : s.fsmState <;> first | rfl | exact absurd hs hstate
    obtain rfl := some.inj (hsame.symm.trans hstep)
    exact ⟨hbase, fun hs => absurd hs hstate, h.2.tx, h.2.waitForAck⟩

theorem ackTimeout_inv (h : Inv cfg s) (hok : Allowed cfg s (.ackTimeout oc)) (hstep : step cfg s (.ackTimeout oc) = some s') :
    Inv cfg s' := by
  have hbase : Base cfg { s with ackTimer := false } :=
    ⟨h.1.matched, h.1.reports, h.1.current, h.1.filter, fun hbusy => h.1.going hbusy |> fun hg =>
      ⟨hg.frame, hg.waits, hg.mask, hg.retrans, hg.once, hg.radio⟩, h.1.accepts, h.1.valid, h.1.waits⟩
  by_cases hstate : s.fsmState = .waitForAck
  · have hbusy : s.fsmState.busy = true := by
      rw [hstate]
      rfl
    refine processEv_inv hstep fun new t heq => ?_
    rw [fsmStateOf_waitForAck (s := { s with ackTimer := false }) hstate] at heq
    refine handleTxNoAck_inv (hbase.underWay hbusy) heq ?_ (hok hstate)
    intro hframe
    have := (h.1.going hbusy).once hframe
    rw [hstate, if_pos rfl] at this
    exact this
  · have hsame : processEv cfg { s with ackTimer := false } .ackTimeout oc = some { s with ackTimer := false } := by
      apply processEv_invalid
      unfold fsmStateOf
      cases hs : s.fsmState <;> first | rfl | exact absurd hs hstate
    obtain rfl := some.inj (hsame.symm.trans hstep)
    exact ⟨hbase, h.2.prepare, h.2.tx, fun hs => absurd hs hstate⟩

theorem txDone_inv (h : Inv cfg s) (hok : Allowed cfg s (.txDone oc)) (hstep : step cfg s (.txDone oc) = some s') :
    Inv cfg s' := by
  by_cases hstate : s.fsmState = .tx
  · cases hconf : oc.confirmTransmit with
    | none =>
      have hsame : processEv cfg s .txDone oc = some s := by
        apply processEv_invalid
        rw [fsmStateOf_tx hstate]
        unfold fsmStateTx
        rw [hconf]
      obtain rfl := some.inj (hsame.symm.trans hstep)
      exact h
    | some info =>
      obtain ⟨hpossible, hradio, hbusy⟩ := hok hstate info hconf
      refine processEv_inv hstep fun new t heq => ?_
      rw [fsmStateOf_tx hstate] at heq
      unfold fsmStateTx at heq
      rw [hconf] at heq
      exact fsmStateTxProcessTxDone_inv h.1 hstate hpossible hradio hbusy heq
  · have hsame : processEv cfg s .txDone oc = some s := by
      apply processEv_invalid
      unfold fsmStateOf
      cases hs : s.fsmState <;> first | rfl | exact absurd hs hstate
    obtain rfl := some.inj (hsame.symm.trans hstep)
    exact h

theorem rxDone_inv (h : Inv cfg s) (hok : Allowed cfg s (.rxDone oc)) (hstep : step cfg s (.rxDone oc) = some s') :
    Inv cfg s' := by
  refine processEv_inv hstep fun new t heq => ?_
  cases hstate : s.fsmState with
  | invalid => exact absurd hstate h.1.valid
  | rx =>
    rw [fsmStateOf_rx hstate] at heq
    unfold fsmStateRx at heq
    dsimp only at heq
    split at heq
    · cases heq
      exact ⟨nofun, h.rest (.inl hstate) (.inr rfl)⟩
    split at heq
    · cases heq
      exact ⟨nofun, h.rest (.inl hstate) (.inl rfl)⟩
    · cases heq
  | idle =>
    rw [fsmStateOf_idle hstate] at heq
    cases heq
    exact ⟨nofun, h.rest (.inr hstate) (.inr rfl)⟩
  | prepare =>
    rw [fsmStateOf_prepare hstate] at heq
    cases heq
    rw [← hstate]
    exact ⟨h.1.valid, h⟩
  | tx =>
    rw [fsmStateOf_tx hstate] at heq
    cases heq
    rw [← hstate]
    exact ⟨h.1.valid, h⟩
  | waitForAck =>
    rw [fsmStateOf_waitForAck hstate] at heq
    exact waitForAck_rxDone_inv h hstate (hok hstate) heq

theorem crcError_inv (h : Inv cfg s) (hstep : step cfg s (.crcError oc) = some s') : Inv cfg s' := by
  refine processEv_inv hstep fun new t heq => ?_
  have hsame : new = s.fsmState ∧ t = s := by
    cases hstate : s.fsmState with
    | invalid => exact absurd hstate h.1.valid
    | rx =>
      rw [fsmStateOf_rx hstate] at heq
      unfold fsmStateRx at heq
      dsimp only at heq
      split at heq
      · cases heq
        exact ⟨rfl, rfl⟩
      · cases heq
    | idle =>
      rw [fsmStateOf_idle hstate] at heq
      cases heq
      exact ⟨rfl, rfl⟩
    | prepare =>
      rw [fsmStateOf_prepare hstate] at heq
      cases heq
      exact ⟨rfl, rfl⟩
    | tx =>
      rw [fsmStateOf_tx hstate] at heq
      cases heq
      exact ⟨rfl, rfl⟩
    | waitForAck =>
      rw [fsmStateOf_waitForAck hstate] at heq
      cases heq
      exact ⟨rfl, rfl⟩
  obtain ⟨rfl, rfl⟩ := hsame
  exact ⟨h.1.valid, h⟩

theorem setRx_inv (h : Inv cfg s) (hstep : step cfg s (.setRx oc) = some s') : Inv cfg s' := by
  obtain ⟨⟨status, t⟩, heq, rfl⟩ := map_eq_some_iff.mp hstep
  unfold setRx at heq
  cases hstate : s.fsmState with
  | idle =>
    rw [hstate] at heq
    obtain ⟨t', hproc, ht⟩ := map_eq_some_iff.mp heq
    cases ht
    refine processEv_inv hproc fun new t heq => ?_
    rw [fsmStateOf_idle hstate] at heq
    unfold fsmStateIdle at heq
    dsimp only at heq
    split at heq <;> cases heq
    · exact ⟨nofun, h.rest (.inr hstate) (.inl rfl)⟩
    · exact ⟨nofun, h.rest (.inr hstate) (.inr rfl)⟩
  | _ =>
    rw [hstate] at heq
    cases heq
    exact h

theorem setIdle_inv (h : Inv cfg s) (hstep : step cfg s (.setIdle oc) = some s') : Inv cfg s' := by
  obtain ⟨⟨status, t⟩, heq, rfl⟩ := map_eq_some_iff.mp hstep
  unfold setIdle at heq
  cases hstate : s.fsmState with
  | rx =>
    rw [hstate] at heq
    obtain ⟨t', hproc, ht⟩ := map_eq_some_iff.mp heq
    cases ht
    refine processEv_inv hproc fun new t heq => ?_
    rw [fsmStateOf_rx hstate] at heq
    unfold fsmStateRx at heq
    dsimp only at heq
    split at heq <;> cases heq
    · exact ⟨nofun, h.rest (.inl hstate) (.inr rfl)⟩
    · exact ⟨nofun, h.rest (.inl hstate) (.inl rfl)⟩
  | _ =>
    rw [hstate] at heq
    cases heq
    exact h

/-! ## Sending -/

theorem Base.matched_resting (h : Base cfg s) (hstate : s.fsmState = .rx ∨ s.fsmState = .idle) :
    s.accepted = s.reports.length := by
  have hmatched := h.matched
  have hbusy : s.fsmState.busy = false := by rcases hstate with h | h <;> rw [h] <;> rfl
  rw [hbusy] at hmatched
  exact hmatched

theorem started_prepare_inv (h : Inv cfg s) (hstate : s.fsmState = .rx ∨ s.fsmState = .idle) :
    Inv cfg { started cfg s f with bhRequested := true, fsmState := .prepare, accepted := s.accepted + 1 } := by
  have hway : UnderWay cfg { started cfg s f with bhRequested := true, accepted := s.accepted + 1 } := by
    refine ⟨?_, h.1.reports, goodSeen_none _, ⟨f, rfl, rfl⟩, rfl, fun _ => ?_, Nat.zero_le _, fun _ => h.1.filter hstate⟩
    · exact congrArg (· + 1) (h.1.matched_resting hstate)
    · have hle := cfg.be_le
      have hpow := Nat.pow_le_pow_right (n := 2) (by decide) (show cfg.beMin ≤ 8 by omega)
      exact Nat.mod_eq_of_lt (by have := Nat.two_pow_pos cfg.beMin; omega)
  exact ⟨hway.base rfl (fun _ => Nat.zero_le _) (fun _ _ => rfl) nofun, fun _ => rfl, nofun, nofun⟩

theorem started_resting_inv (h : Inv cfg s) (hstate : s.fsmState = .rx ∨ s.fsmState = .idle)
    (hnew : new = .rx ∨ new = .idle) : Inv cfg { started cfg s f with fsmState := new } :=
  resting_inv hnew (h.1.matched_resting hstate) h.1.reports (goodSeen_none _) (h.1.filter hstate)

theorem ackSent_inv {info : TxInfo} (h : Inv cfg s) (hstate : s.fsmState = .idle) (hack : isAck f = true)
    (hpossible : Possible cfg info) (hends : EndsAtOnce cfg f info.status)
    (heq : fsmStateTxProcessTxDone cfg (confirmed (requestTransmit (started cfg s f) oc .sifs) info) oc info.status =
      some (new, s')) : Inv cfg { s' with fsmState := .idle, accepted := s.accepted + 1 } := by
  have hfilter := h.1.filter (.inr hstate)
  have hmatched : s.accepted + 1 = s.reports.length + 1 := congrArg (· + 1) (h.1.matched_resting (.inr hstate))
  have hsent : 0 + info.sent ≤ 1 + cfg.maxFrameRetrans := by
    unfold Possible at hpossible
    split at hpossible
    · omega
    · split at hpossible <;> omega
  have hseen : GoodSeen cfg (some f) ⟨[.sifs], 0 + info.sent, []⟩ := ⟨hsent, .inr ⟨rfl, hack⟩⟩
  have hreport : ∀ status, (f.ackReq = true → doesHandleAck cfg = false → status = .success ∨ status = .framePending → False) →
      GoodReport cfg ⟨some f, status, ⟨[.sifs], 0 + info.sent, []⟩⟩ := by
    intro status hno
    refine ⟨hseen, fun f' hf' hreq hack hstatus => ?_⟩
    cases hf'
    exact (hno hreq hack hstatus).elim
  have hfail : ∀ {status : TxStatus}, status ≠ .success → status ≠ .framePending →
      f.ackReq = true → doesHandleAck cfg = false → status = .success ∨ status = .framePending → False :=
    fun h1 h2 _ _ h => h.elim h1 h2
  cases hst : info.status with
  | framePending =>
    rw [hst] at heq
    unfold fsmStateTxProcessTxDone at heq
    dsimp only at heq
    split at heq
    · rename_i hhandles
      exact (txEnd_inv heq hmatched h.1.reports (hreport _ fun _ hno _ => by rw [hhandles] at hno; cases hno) hfilter).2
    · cases heq
  | success =>
    rw [hst] at heq hends
    unfold fsmStateTxProcessTxDone at heq
    dsimp only at heq
    have hdone : (doesHandleAck cfg || !f.ackReq) = true := by
      rcases hends with hends | hends <;> rw [hends]
      · rfl
      · exact Bool.or_true _
    split at heq
    · refine (txEnd_inv heq hmatched h.1.reports (hreport _ fun hreq hno _ => ?_) hfilter).2
      rw [hreq, hno] at hdone
      cases hdone
    · rename_i hwait
      exact absurd hdone hwait
  | noAck =>
    rw [hst] at heq hends
    unfold fsmStateTxProcessTxDone at heq
    dsimp only at heq
    split at heq
    · unfold handleTxNoAck hasRetransLeft at heq
      have hmax : cfg.maxFrameRetrans = 0 := hends
      rw [hmax, if_neg (by simp)] at heq
      obtain ⟨filter, hset⟩ := setFilter_eq
        { confirmed (requestTransmit (started cfg s f) oc .sifs) info with csmaRetriesNb := 0 } oc .accept
      have hback : FilterBack { confirmed (requestTransmit (started cfg s f) oc .sifs) info with csmaRetriesNb := 0 } oc :=
        .inr hfilter
      have haccept := setFilter_accept hback
      rw [hset] at heq haccept
      exact (txEnd_inv heq hmatched h.1.reports (hreport _ (hfail nofun nofun)) haccept).2
    · cases heq
  | mediumBusy =>
    rw [hst] at heq hends
    unfold fsmStateTxProcessTxDone at heq
    dsimp only at heq
    split at heq
    · exact (txEnd_inv heq hmatched h.1.reports (hreport _ (hfail nofun nofun)) hfilter).2
    · rename_i hcsma
      have hretries : cfg.csmaRetries = 0 := hends.resolve_left hcsma
      rw [if_pos (by rw [hretries]; exact Nat.zero_le _)] at heq
      exact (txEnd_inv heq hmatched h.1.reports (hreport _ (hfail nofun nofun)) hfilter).2

/-- `ieee802154_send` returns 0 for a frame that is not an ACK just when it is prepared. -/
theorem sendStatus_prepare (h : isAck f = false) : sendStatus f .prepare = .ok := by
  unfold sendStatus
  rw [h]
  rfl

theorem sendStatus_resting (h : isAck f = false ∨ new = .rx) (hnew : new = .rx ∨ new = .idle) : sendStatus f new = .busy := by
  unfold sendStatus
  rcases h with h | rfl
  · rw [h]
    rcases hnew with rfl | rfl <;> rfl
  · split <;> rfl

theorem returned_ok (h : sendStatus f t.fsmState = .ok) : (returned f t).2 = { t with accepted := t.accepted + 1 } := by
  unfold returned
  rw [h]

theorem returned_busy (h : sendStatus f t.fsmState = .busy) : (returned f t).2 = t := by
  unfold returned
  rw [h]

/-- The request is refused, for what is not an ACK or where no ACK can be sent. -/
theorem refused_inv (h : Inv cfg s) (hstate : s.fsmState = .rx ∨ s.fsmState = .idle) (hnew : new = .rx ∨ new = .idle)
    (hack : isAck f = false ∨ new = .rx) : Inv cfg (returned f { started cfg s f with fsmState := new }).2 := by
  rw [returned_busy (sendStatus_resting hack hnew)]
  exact started_resting_inv h hstate hnew

theorem prepared_inv (h : Inv cfg s) (hstate : s.fsmState = .rx ∨ s.fsmState = .idle) (hack : isAck f = false) :
    Inv cfg (returned f { started cfg s f with bhRequested := true, fsmState := .prepare }).2 := by
  have hret := returned_ok (t := { started cfg s f with bhRequested := true, fsmState := .prepare }) (sendStatus_prepare hack)
  rw [hret]
  exact @started_prepare_inv cfg s f h hstate

theorem send_rx_inv (h : Inv cfg s) (hstate : s.fsmState = .rx) (hok : isAck f = false ∨ oc.setIdle = false)
    (hproc : processEv cfg (started cfg s f) .requestTx oc = some s') : Inv cfg (returned f s').2 := by
  obtain ⟨new, t, heq, rfl⟩ := processEv_eq hproc
  rw [fsmStateOf_rx (s := started cfg s f) hstate] at heq
  unfold fsmStateRx handleFsmEvRequestTx at heq
  cases hidle : oc.setIdle with
  | true =>
    rw [hidle] at heq
    cases heq
    exact @prepared_inv cfg s f h (.inl hstate) (hok.resolve_right (by rw [hidle]; exact nofun))
  | false =>
    rw [hidle] at heq
    cases heq
    exact @refused_inv cfg s f _ h (.inl hstate) (.inl rfl) (.inr rfl)

theorem send_idle_inv (h : Inv cfg s) (hstate : s.fsmState = .idle) (hok : SendAllowed cfg s f oc)
    (hproc : processEv cfg (started cfg s f) .requestTx oc = some s') : Inv cfg (returned f s').2 := by
  obtain ⟨new, t, heq, rfl⟩ := processEv_eq hproc
  rw [fsmStateOf_idle (s := started cfg s f) hstate] at heq
  unfold SendAllowed at hok
  rw [hstate] at hok
  dsimp only at hok
  unfold fsmStateIdle at heq
  dsimp only at heq
  have hany : (started cfg s f).psdu.any sentAsAck = sentAsAck f := rfl
  rw [hany] at heq
  split at heq
  · rename_i hsent
    rw [if_pos hsent] at hok
    obtain ⟨t', htx, ht⟩ := map_eq_some_iff.mp heq
    cases ht
    unfold handleFsmEvTxAck at htx
    split at hok
    · rename_i hack
      obtain ⟨hidle, hwrite, hinfo⟩ := hok
      rw [hidle, hwrite, Bool.and_true, if_pos rfl] at htx
      obtain ⟨info, hconf, hmap⟩ := bind_eq_some_iff.mp htx
      obtain ⟨⟨new, t⟩, hdone, rfl⟩ := map_eq_some_iff.mp hmap
      unfold fsmStateTx at hdone
      dsimp only at hdone
      rw [hconf] at hdone
      obtain ⟨hpossible, hends⟩ := hinfo info hconf
      have hinv := ackSent_inv h hstate hack hpossible hends hdone
      have hok : sendStatus f .idle = .ok := by
        unfold sendStatus
        rw [hack]
        rfl
      have haccepted : t.accepted = s.accepted := (fsmStateTxProcessTxDone_accepted hdone).trans rfl
      rw [returned_ok hok]
      rw [haccepted]
      exact hinv
    · rename_i hack
      have hno : (oc.setIdle && oc.write) = false := by
        rcases hok with hok | hok <;> rw [hok]
        · rfl
        · exact Bool.and_false _
      rw [hno, if_neg nofun] at htx
      cases htx
      exact @refused_inv cfg s f _ h (.inr hstate) (.inr rfl) (.inl (Bool.eq_false_iff.mpr hack))
  · rename_i hsent
    rw [if_neg hsent] at hok
    unfold handleFsmEvRequestTx at heq
    cases hidle : oc.setIdle with
    | true =>
      rw [hidle] at heq
      cases heq
      exact @prepared_inv cfg s f h (.inr hstate) hok
    | false =>
      rw [hidle] at heq
      cases heq
      exact @refused_inv cfg s f _ h (.inr hstate) (.inr rfl) (.inl hok)

theorem send_inv (h : Inv cfg s) {iolist : Option Frame} (hok : Allowed cfg s (.send iolist oc))
    (hstep : step cfg s (.send iolist oc) = some s') : Inv cfg s' := by
  obtain ⟨⟨status, t⟩, heq, rfl⟩ := map_eq_some_iff.mp hstep
  unfold send at heq
  split at heq
  · cases heq
    exact h
  rename_i hresting
  cases iolist with
  | none =>
    cases heq
    exact h
  | some f =>
    obtain ⟨s1, hproc, ht⟩ := map_eq_some_iff.mp heq
    rw [← ht]
    have hok : SendAllowed cfg s f oc := hok
    by_cases hrx : s.fsmState = .rx
    · have hallowed := hok
      unfold SendAllowed at hallowed
      rw [hrx] at hallowed
      exact send_rx_inv h hrx hallowed hproc
    · have hidle : s.fsmState = .idle := Classical.byContradiction fun hidle => hresting ⟨hrx, hidle⟩
      exact send_idle_inv h hidle hok hproc

theorem step_inv {e : Event} (h : Inv cfg s) (hok : Allowed cfg s e) (hstep : step cfg s e = some s') : Inv cfg s' := by
  cases e with
  | send iolist oc => exact send_inv h hok hstep
  | setRx oc => exact setRx_inv h hstep
  | setIdle oc => exact setIdle_inv h hstep
  | txDone oc => exact txDone_inv h hok hstep
  | rxDone oc => exact rxDone_inv h hok hstep
  | crcError oc => exact crcError_inv h hstep
  | ackTimeout oc => exact ackTimeout_inv h hok hstep
  | bh oc => exact bh_inv h hok hstep

end Riot.Submac
