import Riot.Lorawan.TransactionRequests

/-!
# One transaction at a time: every run

Each event that is right keeps the invariant, and one that is waited for leads on, to the next phase or to
the confirmation.
-/

namespace Riot.Lorawan.Transactions

open Riot.Lib List

variable {cfg : Config} {cb : Callbacks} {s t : State} {psdu p : List UInt8}

/-! ## Every event -/

/-- What an event leads to: the invariant, and one that is waited for leads on. -/
def LeadsOn (s : State) (e : Event) (result : Option State) : Prop :=
  ∃ s', result = some s' ∧ Inv s' ∧ (Awaited s e → s.confirmed.length < s'.confirmed.length ∨ work s' < work s)

theorem Joining.phase (h : Joining s) (hclean : s.clean = true) (hphase : Phase .join s) : Inv s :=
  ⟨hclean, .inr (.inl ⟨h, hphase⟩)⟩

theorem Sending.phase (h : Sending s p) (hclean : s.clean = true) (hphase : Phase .idle s) : Inv s :=
  ⟨hclean, .inr (.inr ⟨⟨p, h⟩, hphase⟩)⟩

/-- What is going on, whatever the phase. -/
def Carries (s t : State) : Prop := (Joining s → Joining t) ∧ ∀ p, Sending s p → Sending t p

theorem Inv.advance (h : Inv s) (hcarries : Carries s t) (hclean : t.clean = s.clean)
    (hphase : ∀ wait, Phase wait s → Phase wait t) (hbusy : s.busy = true) : Inv t := by
  rcases h.2 with hrest | ⟨hjoin, hp⟩ | ⟨⟨p, hsend⟩, hp⟩
  · rw [hrest.busy] at hbusy
    cases hbusy
  · exact (hcarries.1 hjoin).phase (hclean.trans h.1) (hphase _ hp)
  · exact (hcarries.2 p hsend).phase (hclean.trans h.1) (hphase _ hp)

theorem carries_phase (s : State) (state : MacState) (timer : Bool) (radio : Radio) (toa : Nat) :
    Carries s { s with state := state, timer := timer, radio := radio, toa := toa } :=
  ⟨fun h => ⟨h.busy, h.activation, h.msdu, h.waiting, h.matched⟩,
    fun _ h => ⟨h.busy, h.activation, h.msdu, h.trials, h.matched⟩⟩

theorem Inv.phase_of (h : Inv s) (hactive : s.timer = true ∨ s.radio ≠ .sleep) :
    s.busy = true ∧ ∃ wait, Phase wait s ∧ (wait = .join ∧ Joining s ∨ wait = .idle ∧ ∃ p, Sending s p) := by
  rcases h.2 with hrest | ⟨hjoin, hphase⟩ | ⟨⟨p, hsend⟩, hphase⟩
  · rcases hactive with hactive | hactive
    · rw [hrest.timer] at hactive
      cases hactive
    · exact absurd hrest.radio hactive
  · exact ⟨hjoin.busy, .join, hphase, .inl ⟨rfl, hjoin⟩⟩
  · exact ⟨hsend.busy, .idle, hphase, .inr ⟨rfl, p, hsend⟩⟩

theorem timeout_leadsOn {toa : Nat} (h : Inv s) (henabled : s.timer = true) :
    LeadsOn s (.timeout toa) (handle cfg s (.timeout toa)) := by
  obtain ⟨hbusy, wait, hphase, hkind⟩ := h.phase_of (.inl henabled)
  have hsent : s.state = wait → LeadsOn s (.timeout toa) (handle cfg s (.timeout toa)) := by
    intro hstate
    have hcb : timeoutCb { s with timer := false } toa = some (sendPkt { s with timer := false } toa) := by
      rcases hkind with ⟨rfl, -⟩ | ⟨rfl, p, hsend⟩ <;> unfold timeoutCb <;> dsimp only <;> rw [hstate]
      unfold transmitPkt
      rw [hsend.msdu, Option.map_some]
    have hwait : wait = .join ∨ wait = .idle := hkind.imp (fun h => h.1) (fun h => h.1)
    refine ⟨_, hcb, h.advance (carries_phase s .tx false .tx toa) rfl (fun _ _ => .inr (.inl ⟨rfl, rfl, rfl⟩)) hbusy,
      fun _ => .inr ?_⟩
    unfold work phaseWork sendPkt
    rw [hstate]
    rcases hwait with rfl | rfl <;> exact Nat.lt_succ_self _
  rcases hphase with ⟨hstate, -, -⟩ | ⟨-, htimer, -⟩ | ⟨hstate, htimer, hradio⟩ | ⟨hstate, -, hradio⟩ | ⟨-, htimer, -⟩
  · exact hsent hstate
  · rw [htimer] at henabled
    cases henabled
  · have hcb : timeoutCb { s with timer := false } toa = some { s with timer := true, radio := .rx } := by
      unfold timeoutCb openRxWindow
      rw [hstate]
      rfl
    refine ⟨_, hcb, h.advance (carries_phase s s.state true .rx s.toa) rfl (fun _ _ => ?_) hbusy, fun he => .inr ?_⟩
    · exact .inr (.inr (.inl ⟨hstate, rfl, nofun⟩))
    · have hsleep : s.radio ≠ .rx := fun hrx => he.2 ⟨hstate, hrx⟩
      unfold work phaseWork
      rw [hstate]
      rw [if_neg hsleep, if_pos rfl]
      exact Nat.lt_succ_self _
  · have hcb : timeoutCb { s with timer := false } toa = some { s with timer := false, radio := .rx } := by
      unfold timeoutCb openRxWindow
      rw [hstate]
      rfl
    refine ⟨_, hcb, h.advance (carries_phase s s.state false .rx s.toa) rfl (fun _ _ => ?_) hbusy, fun he => .inr ?_⟩
    · exact .inr (.inr (.inr (.inr ⟨hstate, rfl, rfl⟩)))
    · unfold work phaseWork
      rw [hstate, hradio]
      exact Nat.lt_succ_self _
  · rw [htimer] at henabled
    cases henabled

theorem txDone_leadsOn (h : Inv s) (henabled : s.radio = .tx) : LeadsOn s .txDone (handle cfg s .txDone) := by
  obtain ⟨hbusy, wait, hphase, -⟩ := h.phase_of (.inr (by rw [henabled]; exact nofun))
  have hstate : s.state = .tx := by
    rcases hphase with ⟨-, -, hradio⟩ | ⟨hstate, -, -⟩ | ⟨-, -, hradio⟩ | ⟨-, -, hradio⟩ | ⟨-, -, hradio⟩
    · rw [henabled] at hradio
      cases hradio
    · exact hstate
    · exact absurd henabled hradio
    · rw [henabled] at hradio
      cases hradio
    · rw [henabled] at hradio
      cases hradio
  refine ⟨_, rfl, h.advance (carries_phase s .rx1 true .sleep s.toa) rfl (fun _ _ => ?_) hbusy, fun _ => .inr ?_⟩
  · exact .inr (.inr (.inl ⟨rfl, rfl, nofun⟩))
  · unfold work phaseWork radioTxDoneCb
    rw [hstate]
    exact Nat.lt_succ_self _

theorem rxTimeout_leadsOn (h : Inv s) (henabled : s.radio = .rx) (hok : Allowed cfg s (.rxTimeout cb)) :
    LeadsOn s (.rxTimeout cb) (handle cfg s (.rxTimeout cb)) := by
  obtain ⟨hbusy, wait, hphase, hkind⟩ := h.phase_of (.inr (by rw [henabled]; exact nofun))
  have hwindow : (s.state = .rx1 ∧ s.timer = true) ∨ (s.state = .rx2 ∧ s.timer = false) := by
    rcases hphase with ⟨-, -, hradio⟩ | ⟨-, -, hradio⟩ | ⟨hstate, htimer, -⟩ | ⟨-, -, hradio⟩ | ⟨hstate, htimer, -⟩
    · rw [henabled] at hradio
      cases hradio
    · rw [henabled] at hradio
      cases hradio
    · exact .inl ⟨hstate, htimer⟩
    · rw [henabled] at hradio
      cases hradio
    · exact .inr ⟨hstate, htimer⟩
  rcases hwindow with ⟨hstate, htimer⟩ | ⟨hstate, htimer⟩
  · have hcb : radioRxTimeoutCb cfg cb s = some { s with state := .rx2, radio := .sleep } := by
      unfold radioRxTimeoutCb
      rw [hstate]
    refine ⟨_, hcb, h.advance (carries_phase s .rx2 s.timer .sleep s.toa) rfl (fun _ _ => ?_) hbusy, fun _ => .inr ?_⟩
    · exact .inr (.inr (.inr (.inl ⟨rfl, htimer, rfl⟩)))
    · unfold work phaseWork
      rw [hstate, henabled]
      exact Nat.lt_succ_self _
  · have hcb : radioRxTimeoutCb cfg cb s = (eventNoRx cfg cb s).map fun s => { s with state := .idle, radio := .sleep } := by
      unfold radioRxTimeoutCb
      rw [hstate]
    have hkinds : ∃ p, Joining s ∨ Sending s p := by
      rcases hkind with ⟨-, hjoin⟩ | ⟨-, p, hsend⟩
      · exact ⟨[], .inl hjoin⟩
      · exact ⟨p, .inr hsend⟩
    obtain ⟨p, hkinds⟩ := hkinds
    rcases @eventNoRx_cases cfg cb s p (fun hnb => (hok hstate (.inr hnb)).1) hkinds with
      ⟨hdone, t, heq, htbusy, hmsdu, hwaiting, -, htimer', -, hclean, -, hmatched, hlength⟩ | ⟨hnb, -, hsend, heq⟩
    · obtain ⟨link, addr, hquiet⟩ := @quiet_requests cfg cb.confirm t (hok hstate hdone).2
      rw [hquiet] at heq
      refine ⟨{ t with linkCheckReq := link, mac := { t.mac with devAddr := addr }, state := .idle, radio := .sleep },
        ?_, ⟨hclean.trans h.1, .inl ⟨htbusy, rfl, htimer'.trans htimer, rfl, hmsdu, hwaiting, hmatched⟩⟩, fun _ => .inl ?_⟩
      · exact hcb.trans (congrArg _ heq)
      · show s.confirmed.length < t.confirmed.length
        omega
    · refine ⟨_, hcb.trans (congrArg _ heq), ?_, fun _ => .inr ?_⟩
      · have hphase : Phase .idle { s with nbTrials := s.nbTrials - 1, timer := true, state := .idle, radio := .sleep } :=
          .inl ⟨rfl, rfl, rfl⟩
        exact Sending.phase (p := p) ⟨hsend.busy, hsend.activation, hsend.msdu, hsend.trials, hsend.matched⟩ h.1 hphase
      · have htrials := hsend.trials
        have hwork : work s = s.nbTrials.toNat * 6 + 1 := by
          unfold work phaseWork
          rw [hstate, henabled]
          rfl
        rw [hwork]
        show (s.nbTrials - 1).toNat * 6 + 6 < s.nbTrials.toNat * 6 + 1
        dsimp only at htrials
        omega

theorem Inv.received (h : Inv s) (henabled : s.radio = .rx) :
    (∃ p, Joining { s with state := .idle, timer := false, radio := .sleep } ∨
      Sending { s with state := .idle, timer := false, radio := .sleep } p) := by
  obtain ⟨-, wait, -, hkind⟩ := h.phase_of (.inr (by rw [henabled]; exact nofun))
  rcases hkind with ⟨-, hjoin⟩ | ⟨-, p, hsend⟩
  · exact ⟨[], .inl ((carries_phase s .idle false .sleep s.toa).1 hjoin)⟩
  · exact ⟨p, .inr ((carries_phase s .idle false .sleep s.toa).2 p hsend)⟩

theorem processFoptsLoop_eq {fopts : List UInt8} : ∀ {fuel pos ret : Nat} {cbs : List (List Request)} {s : State},
    (∀ rs ∈ cbs, rs.all Request.quiet = true) → ∃ link rekey addr, processFoptsLoop cfg fopts fuel pos ret cbs s =
      some { s with linkCheckReq := link, rekeyIndReq := rekey, mac := { s.mac with devAddr := addr } } := by
  intro fuel
  induction fuel with
  | zero => exact fun _ => ⟨_, _, _, rfl⟩
  | succ fuel ih =>
    intro pos ret cbs s hquiet
    rw [processFoptsLoop]
    split
    · exact ⟨_, _, _, rfl⟩
    split
    · dsimp only
      split
      · exact ⟨_, _, _, rfl⟩
      · have hhead : (cbs.headD []).all Request.quiet = true := by
          cases cbs with
          | nil => rfl
          | cons rs _ => exact hquiet rs mem_cons_self
        obtain ⟨link, addr, heq⟩ := @quiet_requests cfg (cbs.headD []) s hhead
        obtain ⟨link', rekey', addr', heq'⟩ := @ih ((pos + (ret + 3) % 256) % 256) ((ret + 3) % 256) cbs.tail
          { s with linkCheckReq := false, mac := { s.mac with devAddr := addr } }
          fun rs hrs => hquiet rs (mem_of_mem_tail hrs)
        refine ⟨link', rekey', addr', ?_⟩
        unfold mlmeLinkCheckAns
        rw [heq, Option.map_some, Option.bind_some]
        exact heq'
    split
    · dsimp only
      split
      · exact ⟨_, _, _, rfl⟩
      · obtain ⟨link', rekey', addr', heq'⟩ := @ih ((pos + (ret + 2) % 256) % 256) ((ret + 2) % 256) cbs
          (if byte fopts (pos + 1) ≤ 1 then { s with rekeyIndReq := false } else s) hquiet
        refine ⟨link', rekey', addr', ?_⟩
        rw [heq']
        split <;> rfl
    · exact ⟨_, _, _, rfl⟩

theorem storeCounter_waitingForAck (c : Cfg) (mac : Mac) (pkt : Parsed) :
    (storeCounter c mac pkt).waitingForAck = mac.waitingForAck := by
  unfold storeCounter
  split <;> split <;> rfl

/-- A packet that passes the checks leads to the end of the transmission, or to nothing received. -/
theorem handlePacket_outputs (c : Cfg) (mac : Mac) (psdu : List UInt8) (pkt : Parsed) :
    (handlePacket c mac psdu pkt).1.waitingForAck = mac.waitingForAck ∧
    ((handlePacket c mac psdu pkt).2 = [.noRx] ∨ ∃ (fopts : Option (List UInt8)) (rest : List Output),
      (handlePacket c mac psdu pkt).2 = fopts.toList.map .fopts ++ [.endOfTx] ++ rest ∧
      ∀ o ∈ rest, o = .scheduleUplink ∨ ∃ ackReq port payload, o = .indication ackReq port payload) := by
  unfold handlePacket
  dsimp only
  split
  · exact ⟨storeCounter_waitingForAck c mac pkt, .inl rfl⟩
  · refine ⟨?_, .inr ⟨_, _, append_assoc _ _ _, ?_⟩⟩
    · split <;> exact storeCounter_waitingForAck c mac pkt
    · intro o ho
      rcases mem_append.mp ho with ho | ho
      · split at ho
        · exact .inl (mem_singleton.mp ho)
        · cases ho
      · split at ho
        · exact .inr ⟨_, _, _, mem_singleton.mp ho⟩
        · cases ho

/-- What comes after the end of a transmission does not matter for transactions. -/
theorem foldlM_rest : ∀ {rest : List Output} {s : State},
    (∀ o ∈ rest, o = .scheduleUplink ∨ ∃ ackReq port payload, o = .indication ackReq port payload) →
    rest.foldlM (handleOutput cfg cb) s = some s := by
  intro rest
  induction rest with
  | nil => exact fun _ => rfl
  | cons o rest ih =>
    intro s h
    have ho : handleOutput cfg cb s o = some s := by
      rcases h o mem_cons_self with rfl | ⟨ackReq, port, payload, rfl⟩ <;> rfl
    rw [foldlM_cons, ho]
    exact ih fun o ho => h o (mem_cons_of_mem _ ho)

theorem carries_mac (s : State) {mac : Mac} (h : mac.waitingForAck = s.mac.waitingForAck) (link rekey : Bool) :
    Carries s { s with mac := mac, linkCheckReq := link, rekeyIndReq := rekey } :=
  ⟨fun hjoin => ⟨hjoin.busy, hjoin.activation, hjoin.msdu, h.trans hjoin.waiting, hjoin.matched⟩,
    fun _ hsend => ⟨hsend.busy, hsend.activation, hsend.msdu, hsend.trials, hsend.matched⟩⟩

/-- Where a frame was received, what is going on is confirmed or waits for the next try. -/
structure Received (s : State) (p : List UInt8) : Prop where
  kinds : Joining s ∨ Sending s p
  clean : s.clean = true
  state : s.state = .idle
  timer : s.timer = false
  radio : s.radio = .sleep

theorem eventNoRx_received (h : Received s p) (hquiet : cb.linkCheckTimeout.all Request.quiet = true)
    (hconfirm : ∀ t, Resting t → t.backoffBudget = s.backoffBudget → RequestsAllowed cfg t cb.confirm) :
    ∃ s', eventNoRx cfg cb s = some s' ∧ Inv s' := by
  rcases @eventNoRx_cases cfg cb s p (fun _ => hquiet) h.kinds with
    ⟨-, t, heq, hbusy, hmsdu, hwaiting, hstate, htimer, hradio, hclean, hbudget, hmatched, -⟩ | ⟨-, -, hsend, heq⟩
  · have hrest : Resting t :=
      ⟨hbusy, hstate.trans h.state, htimer.trans h.timer, hradio.trans h.radio, hmsdu, hwaiting, hmatched⟩
    rw [heq]
    exact requests_inv ⟨hclean.trans h.clean, .inl hrest⟩ (hconfirm t hrest hbudget)
  · exact ⟨_, heq, hsend.phase h.clean (.inl ⟨h.state, rfl, h.radio⟩)⟩

theorem endOfTx_received (h : Received s p) (hsend : Sending s p) (hquiet : cb.linkCheckTimeout.all Request.quiet = true)
    (hconfirm : ∀ t, Resting t → t.backoffBudget = s.backoffBudget → RequestsAllowed cfg t cb.confirm) :
    ∃ s', endOfTx cfg cb s = some s' ∧ Inv s' := by
  obtain ⟨link, addr, heq⟩ := @endOfTx_eq cfg cb hquiet s
  have hrest : Resting { s with
      mac := { s.mac with waitingForAck := false, fcnt := s.mac.fcnt + 1, devAddr := addr }
      busy := false, linkCheckReq := link, msdu := none, confirmed := s.confirmed ++ [.mcps s.msdu] } := by
    refine ⟨rfl, h.state, h.timer, h.radio, rfl, rfl, ?_⟩
    rw [hsend.matched, hsend.msdu]
  rw [heq]
  exact requests_inv ⟨h.clean, .inl hrest⟩ (hconfirm _ hrest rfl)

theorem processDownlink_received (h : Received s p) (hlen : hdrSize + micSize ≤ psdu.length)
    (hjoin : s.activation = .none → accepts cfg.cfg s.mac psdu = none)
    (hans : ∀ rs ∈ cb.linkCheckAns, rs.all Request.quiet = true) (hquiet : cb.linkCheckTimeout.all Request.quiet = true)
    (hconfirm : ∀ t, Resting t → t.backoffBudget = s.backoffBudget → RequestsAllowed cfg t cb.confirm) :
    ∃ s', processDownlink cfg cb s psdu = some s' ∧ Inv s' := by
  -- the session after a packet, with what is going on
  have hmac : ∀ mac : Mac, mac.waitingForAck = s.mac.waitingForAck → ∀ link rekey,
      Received { s with mac := mac, linkCheckReq := link, rekeyIndReq := rekey } p := fun _ hmac link rekey =>
    ⟨h.kinds.imp (carries_mac s hmac link rekey).1 ((carries_mac s hmac link rekey).2 p), h.clean, h.state, h.timer, h.radio⟩
  have hnoRx : ∀ {mac : Mac}, mac.waitingForAck = s.mac.waitingForAck →
      ∃ s', [Output.noRx].foldlM (handleOutput cfg cb) { s with mac := mac } = some s' ∧ Inv s' := by
    intro mac hwaiting
    obtain ⟨s', heq, hinv⟩ := eventNoRx_received (hmac mac hwaiting s.linkCheckReq s.rekeyIndReq) hquiet hconfirm
    refine ⟨s', ?_, hinv⟩
    exact (congrArg (· >>= _) heq).trans rfl
  unfold processDownlink mcpsProcessDownlink
  rw [if_neg (not_lt.mpr hlen)]
  cases haccepts : accepts cfg.cfg s.mac psdu with
  | none => exact hnoRx rfl
  | some pkt =>
    have hsend : Sending s p := by
      rcases h.kinds with hjoining | hsend
      · have := hjoin hjoining.activation
        rw [haccepts] at this
        cases this
      · exact hsend
    obtain ⟨hwaiting, hout | ⟨fopts, rest, hout, hrest⟩⟩ := handlePacket_outputs cfg.cfg s.mac psdu pkt
    · rw [hout]
      exact hnoRx hwaiting
    · rw [hout, foldlM_append, foldlM_append]
      have hfopts : ∃ link rekey addr, (fopts.toList.map Output.fopts).foldlM (handleOutput cfg cb)
          { s with mac := (handlePacket cfg.cfg s.mac psdu pkt).1 } = some { s with
            mac := { (handlePacket cfg.cfg s.mac psdu pkt).1 with devAddr := addr }
            linkCheckReq := link, rekeyIndReq := rekey } := by
        cases fopts with
        | none => exact ⟨s.linkCheckReq, s.rekeyIndReq, (handlePacket cfg.cfg s.mac psdu pkt).1.devAddr, rfl⟩
        | some bytes =>
          obtain ⟨link, rekey, addr, heq⟩ := @processFoptsLoop_eq cfg bytes bytes.length 0 0 cb.linkCheckAns
            { s with mac := (handlePacket cfg.cfg s.mac psdu pkt).1 } hans
          refine ⟨link, rekey, addr, ?_⟩
          show ([Output.fopts bytes].foldlM (handleOutput cfg cb) _) = _
          exact (congrArg (· >>= _) heq).trans rfl
      obtain ⟨link, rekey, addr, hfopts⟩ := hfopts
      have hrec := hmac { (handlePacket cfg.cfg s.mac psdu pkt).1 with devAddr := addr } hwaiting link rekey
      have hsend' := (@carries_mac s { (handlePacket cfg.cfg s.mac psdu pkt).1 with devAddr := addr } hwaiting link rekey).2 p hsend
      obtain ⟨s', hend, hinv⟩ := endOfTx_received hrec hsend' hquiet hconfirm
      refine ⟨s', ?_, hinv⟩
      rw [hfopts]
      show ((handleOutput cfg cb _ .endOfTx >>= fun s => some s) >>= _) = _
      have hout : handleOutput cfg cb { s with
          mac := { (handlePacket cfg.cfg s.mac psdu pkt).1 with devAddr := addr }
          linkCheckReq := link, rekeyIndReq := rekey } .endOfTx = some s' := hend
      rw [hout]
      exact foldlM_rest hrest

theorem mlmeProcessJoin_received (h : Received s p) (hact : s.activation = .none)
    (hconfirm : ∀ t, Resting t → t.backoffBudget = s.backoffBudget → RequestsAllowed cfg t cb.confirm) :
    ∃ s', mlmeProcessJoin cfg cb s psdu = some s' ∧ Inv s' := by
  have hjoin : Joining s := h.kinds.resolve_right fun hsend => hsend.activation hact
  have hall : ∀ {mac : Mac} activation rekey, mac.waitingForAck = s.mac.waitingForAck →
      ∃ s', joinConfirm cfg cb { s with mac := mac, activation := activation, rekeyIndReq := rekey } = some s' ∧ Inv s' := by
    intro mac activation rekey hwaiting
    have hrest : Resting { macRelease { s with mac := mac, activation := activation, rekeyIndReq := rekey } with
        confirmed := s.confirmed ++ [.join] } :=
      ⟨rfl, h.state, h.timer, h.radio, hjoin.msdu, hwaiting.trans hjoin.waiting, hjoin.matched⟩
    exact requests_inv ⟨h.clean, .inl hrest⟩ (hconfirm _ hrest rfl)
  unfold mlmeProcessJoin
  split
  · exact hall s.activation s.rekeyIndReq rfl
  · dsimp only
    split
    · exact hall .otaa _ rfl
    · exact hall s.activation s.rekeyIndReq rfl

theorem rxDone_leadsOn (h : Inv s) (henabled : s.radio = .rx) (hok : Allowed cfg s (.rxDone cb psdu)) :
    LeadsOn s (.rxDone cb psdu) (handle cfg s (.rxDone cb psdu)) := by
  obtain ⟨hframe, hans, hquiet, hconfirm⟩ := hok
  obtain ⟨p, hkinds⟩ := h.received henabled
  have hrec : Received { s with state := .idle, timer := false, radio := .sleep } p := ⟨hkinds, h.1, rfl, rfl, rfl⟩
  suffices hall : ∃ s', radioRxDoneCb cfg cb s psdu = some s' ∧ Inv s' by
    obtain ⟨s', heq, hinv⟩ := hall
    exact ⟨s', heq, hinv, fun he => he.elim⟩
  unfold radioRxDoneCb
  unfold FrameAllowed at hframe
  cases htype : frameType psdu with
  | other =>
    rw [htype] at hframe
    exact hframe.elim
  | joinAccept =>
    rw [htype] at hframe
    exact mlmeProcessJoin_received hrec hframe hconfirm
  | downlink =>
    rw [htype] at hframe
    exact processDownlink_received hrec hframe.1 hframe.2 hans hquiet hconfirm

theorem backoffExpire_leadsOn (h : Inv s) : LeadsOn s .backoffExpire (handle cfg s .backoffExpire) := by
  obtain ⟨budget, state, heq⟩ := mlmeBackoffExpire_eq s
  refine ⟨_, congrArg some heq, ⟨h.1, ?_⟩, fun he => he.elim⟩
  rcases h.2 with hrest | ⟨hjoin, hphase⟩ | ⟨⟨p, hsend⟩, hphase⟩
  · exact .inl ⟨hrest.busy, hrest.state, hrest.timer, hrest.radio, hrest.msdu, hrest.waiting, hrest.matched⟩
  · exact .inr (.inl ⟨⟨hjoin.busy, hjoin.activation, hjoin.msdu, hjoin.waiting, hjoin.matched⟩, hphase⟩)
  · exact .inr (.inr ⟨⟨p, hsend.busy, hsend.activation, hsend.msdu, hsend.trials, hsend.matched⟩, hphase⟩)

/-- **An event that is right leads on.** -/
theorem handle_leadsOn {e : Event} (h : Inv s) (henabled : Enabled s e) (hok : Allowed cfg s e) :
    LeadsOn s e (handle cfg s e) := by
  cases e with
  | request r =>
    obtain ⟨s', heq, hinv⟩ := @request_inv cfg s r h hok
    exact ⟨s', heq, hinv, fun he => he.elim⟩
  | timeout toa => exact timeout_leadsOn h henabled
  | txDone => exact txDone_leadsOn h henabled
  | rxTimeout cb => exact rxTimeout_leadsOn h henabled hok
  | rxDone cb psdu => exact rxDone_leadsOn h henabled hok
  | backoffExpire => exact backoffExpire_leadsOn h

theorem awaited_exists (h : Inv s) (hbusy : s.busy = true) : ∃ e, Awaited s e ∧ Enabled s e ∧ Allowed cfg s e := by
  have hphase : ∃ wait, (wait = .join ∨ wait = .idle) ∧ Phase wait s := by
    rcases h.2 with hrest | ⟨-, hphase⟩ | ⟨-, hphase⟩
    · rw [hrest.busy] at hbusy
      cases hbusy
    · exact ⟨.join, .inl rfl, hphase⟩
    · exact ⟨.idle, .inr rfl, hphase⟩
  have hreceive : s.radio = .rx → ∃ e, Awaited s e ∧ Enabled s e ∧ Allowed cfg s e :=
    fun hrx => ⟨.rxTimeout ⟨[], [], []⟩, hrx, hrx, fun _ _ => ⟨rfl, rfl⟩⟩
  obtain ⟨wait, hwait, hphase⟩ := hphase
  rcases hphase with ⟨hstate, htimer, -⟩ | ⟨-, -, hradio⟩ | ⟨-, htimer, -⟩ | ⟨hstate, htimer, -⟩ | ⟨-, -, hradio⟩
  · refine ⟨.timeout 0, ⟨htimer, fun h => ?_⟩, htimer, trivial⟩
    rw [hstate] at h
    rcases hwait with rfl | rfl <;> cases h.1
  · exact ⟨.txDone, hradio, hradio, trivial⟩
  · by_cases hrx : s.radio = .rx
    · exact hreceive hrx
    · exact ⟨.timeout 0, ⟨htimer, fun h => hrx h.2⟩, htimer, trivial⟩
  · refine ⟨.timeout 0, ⟨htimer, fun h => ?_⟩, htimer, trivial⟩
    rw [hstate] at h
    cases h.1
  · exact hreceive hradio

/-! ## Every run -/

theorem Inv.right (h : Inv s) : TransactionsRight cfg s where
  matched := by
    rcases h.2 with hrest | ⟨hjoin, -⟩ | ⟨⟨p, hsend⟩, -⟩
    · exact .inl ⟨hrest.matched, hrest.busy⟩
    · exact .inr ⟨.join, hjoin.matched, hjoin.busy⟩
    · exact .inr ⟨.mcps (some p), hsend.matched, hsend.busy⟩
  clean := h.1
  handled := by
    intro e henabled hok
    obtain ⟨s', heq, -⟩ := handle_leadsOn h henabled hok
    rw [heq]
    rfl
  goesOn := by
    refine fun hbusy => ⟨awaited_exists h hbusy, fun e s' he hok hstep => ?_⟩
    unfold step at hstep
    split at hstep
    · rename_i henabled
      obtain ⟨s1, heq, -, hwork⟩ := handle_leadsOn h henabled hok
      obtain rfl := Option.some.inj (heq.symm.trans hstep)
      exact hwork he
    · cases hstep

/-- **One transaction at a time**, in every run whose events are right. -/
theorem transactions_right (cfg : Config) (mac : Mac) (es : List Event)
    (h : Along (step cfg) (Allowed cfg) (init mac) es) : Always (step cfg) (TransactionsRight cfg) (init mac) es := by
  refine always_of_along (fun _ => Inv.right) ?_ es (init_inv mac) h
  intro s e s' hinv hok hstep
  unfold step at hstep
  split at hstep
  · rename_i henabled
    obtain ⟨s₁, heq, hinv', -⟩ := handle_leadsOn hinv henabled hok
    obtain rfl := Option.some.inj (heq.symm.trans hstep)
    exact hinv'
  · cases hstep

/-- A join is never accepted. -/
def plainConfig : Config := ⟨plainCfg, fun mac _ _ => (mac, false), 3, 0⟩

/-- Nothing is requested by callbacks. -/
def silent : Callbacks := ⟨[], [], []⟩

/-- A byte is sent, and nothing is received in both windows. -/
theorem transactions_right_sent : Always (step plainConfig) (TransactionsRight plainConfig) (init plainMac)
    [.request (.setActivation .abp), .request (.mcps false 1 0 (some [1]) 0), .txDone, .timeout 0, .rxTimeout silent,
      .timeout 0, .rxTimeout silent] := by
  refine transactions_right plainConfig plainMac _ ?_
  refine And.intro nofun (And.intro ⟨fun _ => nofun, nofun⟩ (And.intro trivial (And.intro trivial ?_)))
  refine And.intro nofun (And.intro trivial (And.intro ?_ trivial))
  exact fun _ _ => ⟨rfl, rfl⟩

/-- Data is requested while a join is going on: it is refused, and the MAC is released. -/
theorem not_transactions_right : ¬ ∀ (cfg : Config) (mac : Mac) (es : List Event),
    Always (step cfg) (TransactionsRight cfg) (init mac) es := by
  intro hall
  have hright := (hall plainConfig plainMac [.request (.join [] []), .request (.mcps false 1 0 (some [1]) 0)]).last rfl
  have hclean := hright.clean
  cases hclean

end Riot.Lorawan.Transactions
