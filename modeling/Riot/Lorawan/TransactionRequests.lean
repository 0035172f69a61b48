import Riot.Lorawan.Transactions

/-!
# One transaction at a time: requests

A transaction goes through the same phases, whether it is a join or data: it waits for the timer, is sent,
and waits for two receive windows. Until it is confirmed the MAC is busy, and an event is waited for that
leads on; the activation tells which of both it is. Requests find the MAC either with a transaction in it,
or at rest.
-/

namespace Riot.Lorawan.Transactions

open Option

variable {cfg : Config} {cb : Callbacks} {s s' : State} {r : Request} {rs : List Request}
  {p : List UInt8}

/-! ## What has to hold -/

/-- The events that a transaction waits for. In the first window the timer is for the second. -/
def Awaited (s : State) : Event → Prop
  | .timeout _ => s.timer = true ∧ ¬ (s.state = .rx1 ∧ s.radio = .rx)
  | .txDone => s.radio = .tx
  | .rxTimeout _ => s.radio = .rx
  | _ => False

/-- What is left to do of a try. -/
def phaseWork (s : State) : Nat :=
  match s.state with
  | .idle => 6
  | .join => 6
  | .tx => 5
  | .rx1 => if s.radio = .rx then 3 else 4
  | .rx2 => if s.radio = .rx then 1 else 2

/-- What is left to do at most, in events that are waited for. -/
def work (s : State) : Nat := s.nbTrials.toNat * 6 + phaseWork s

/-- A request that has nothing to do with transactions. -/
def Request.quiet : Request → Bool
  | .linkCheck => true
  | .setDevAddr _ => true
  | .mib _ => true
  | _ => false

/-- The port, the data rate or the size is refused. -/
def Unfit (s : State) (port dr : UInt8) (pkt : Option (List UInt8)) : Prop :=
  (port < portMin ∨ portMax < port) ∨ validateDr dr = false ∨ macPayloadMax dr < hdrSize + buildOptions s + pktSize pkt

/-- **When a request is right**: data is not requested while a join is going on, and is not `NULL`; a
join not without a budget; and the activation stays while something is going on. -/
def RequestAllowed (s : State) : Request → Prop
  | .mcps _ port dr pkt _ => (s.busy = true → s.activation ≠ .none) ∧
      (pkt = none → s.busy = true ∨ s.activation = .none ∨ Unfit s port dr pkt)
  | .join _ _ => s.activation ≠ .none ∨ s.busy = true ∨ 0 ≤ s.backoffBudget
  | .setActivation activation => s.busy = true → activation = .otaa ∨ (activation = .none ↔ s.activation = .none)
  | .reset => s.busy = true → s.activation = .none
  | _ => True

/-- All requests of a callback are right, each where the ones before it have led. -/
def RequestsAllowed (cfg : Config) : State → List Request → Prop
  | _, [] => True
  | s, r :: rs => RequestAllowed s r ∧ ∀ s', request cfg s r = some s' → RequestsAllowed cfg s' rs

/-- **When a frame is right**: it is an answer to what is going on, and not cut off. -/
def FrameAllowed (cfg : Config) (s : State) (psdu : List UInt8) : Prop :=
  match frameType psdu with
  | .joinAccept => s.activation = .none
  | .downlink => hdrSize + micSize ≤ psdu.length ∧ (s.activation = .none → accepts cfg.cfg s.mac psdu = none)
  | .other => False

/-- The MAC is at rest. -/
structure Resting (s : State) : Prop where
  busy : s.busy = false
  state : s.state = .idle
  timer : s.timer = false
  radio : s.radio = .sleep
  msdu : s.msdu = none
  waiting : s.mac.waitingForAck = false
  matched : s.deferred = s.confirmed

/-- **When an event is right.** Callbacks of link checks, and those of a receive timeout, request nothing
that has to do with transactions; one of a received frame may start the next. -/
def Allowed (cfg : Config) (s : State) : Event → Prop
  | .request r => RequestAllowed s r
  | .rxTimeout cb => s.state = .rx2 → s.activation = .none ∨ s.nbTrials = 0 →
      cb.linkCheckTimeout.all Request.quiet = true ∧ cb.confirm.all Request.quiet = true
  | .rxDone cb psdu => FrameAllowed cfg s psdu ∧ (∀ rs ∈ cb.linkCheckAns, rs.all Request.quiet = true) ∧
      cb.linkCheckTimeout.all Request.quiet = true ∧
      ∀ t, Resting t → t.backoffBudget = s.backoffBudget → RequestsAllowed cfg t cb.confirm
  | _ => True

/-- **The transactions as they should be.** -/
structure TransactionsRight (cfg : Config) (s : State) : Prop where
  /-- The MAC is busy exactly while one is not confirmed, and each is confirmed once, in order. -/
  matched : s.deferred = s.confirmed ∧ s.busy = false ∨ ∃ t, s.deferred = s.confirmed ++ [t] ∧ s.busy = true
  /-- What was refused has changed nothing. -/
  clean : s.clean = true
  /-- No assertion fails, and no `NULL` msdu is transmitted. -/
  handled : ∀ e, Enabled s e → Allowed cfg s e → (handle cfg s e).isSome = true
  /-- One that is going on waits for an event, and each such event leads on or to the confirmation. -/
  goesOn : s.busy = true → (∃ e, Awaited s e ∧ Enabled s e ∧ Allowed cfg s e) ∧
    ∀ e s', Awaited s e → Allowed cfg s e → step cfg s e = some s' →
      s.confirmed.length < s'.confirmed.length ∨ work s' < work s

/-! ## The invariant -/

/-- Where a transaction is: `wait` is the state in which it waits to be sent. -/
def Phase (wait : MacState) (s : State) : Prop :=
  (s.state = wait ∧ s.timer = true ∧ s.radio = .sleep) ∨ (s.state = .tx ∧ s.timer = false ∧ s.radio = .tx) ∨
    (s.state = .rx1 ∧ s.timer = true ∧ s.radio ≠ .tx) ∨ (s.state = .rx2 ∧ s.timer = true ∧ s.radio = .sleep) ∨
    (s.state = .rx2 ∧ s.timer = false ∧ s.radio = .rx)

structure Joining (s : State) : Prop where
  busy : s.busy = true
  activation : s.activation = .none
  msdu : s.msdu = none
  waiting : s.mac.waitingForAck = false
  matched : s.deferred = s.confirmed ++ [.join]

structure Sending (s : State) (p : List UInt8) : Prop where
  busy : s.busy = true
  activation : s.activation ≠ .none
  msdu : s.msdu = some p
  trials : 0 ≤ s.nbTrials
  matched : s.deferred = s.confirmed ++ [.mcps (some p)]

def Inv (s : State) : Prop :=
  s.clean = true ∧ (Resting s ∨ Joining s ∧ Phase .join s ∨ (∃ p, Sending s p) ∧ Phase .idle s)

theorem mlmeBackoffExpire_eq (s : State) :
    ∃ budget state, mlmeBackoffExpire s = { s with backoffBudget := budget, backoffState := state } := by
  unfold mlmeBackoffExpire
  dsimp only
  split
  · split
    · exact ⟨_, _, rfl⟩
    · split <;> exact ⟨_, _, rfl⟩
  · exact ⟨s.backoffBudget, _, rfl⟩

theorem init_inv (mac : Mac) : Inv (init mac) := by
  unfold init
  obtain ⟨budget, state, h⟩ := mlmeBackoffExpire_eq _
  rw [h]
  exact ⟨rfl, .inl ⟨rfl, rfl, rfl, rfl, rfl, rfl, rfl⟩⟩

/-! ## Requests -/

theorem unchanged_self : unchanged s s = true := by simp [unchanged]

/-- A request that is refused and changes nothing, or succeeds with nothing to do. -/
theorem noted_self {status : Status} (h : status ≠ .deferred) : noted s r (status, s) = s := by
  have hclean : (s.clean && unchanged s s) = s.clean := by rw [unchanged_self, Bool.and_true]
  cases status <;> first | exact absurd rfl h | rfl | exact congrArg (fun clean => { s with clean := clean }) hclean

theorem macRelease_eq (h : s.busy = false) : macRelease s = s := by
  unfold macRelease
  rw [← h]

theorem quiet_request (h : r.quiet = true) : ∃ link addr, request cfg s r =
    some { s with linkCheckReq := link, mac := { s.mac with devAddr := addr } } := by
  unfold request requestStatus
  cases r with
  | linkCheck =>
    refine ⟨true, s.mac.devAddr, ?_⟩
    dsimp only [map_some, noted, Request.transaction, toList]
    rw [List.append_nil]
  | setDevAddr addr => exact ⟨s.linkCheckReq, addr, rfl⟩
  | mib known =>
    refine ⟨s.linkCheckReq, s.mac.devAddr, congrArg some ?_⟩
    cases known
    · exact noted_self nofun
    · rfl
  | _ => cases h

theorem quiet_requests : ∀ {rs : List Request} {s : State}, rs.all Request.quiet = true → ∃ link addr, requests cfg s rs =
    some { s with linkCheckReq := link, mac := { s.mac with devAddr := addr } } := by
  intro rs
  induction rs with
  | nil => exact fun _ => ⟨_, _, rfl⟩
  | cons r rs ih =>
    intro s h
    rw [List.all_cons, Bool.and_eq_true] at h
    obtain ⟨link, addr, heq⟩ := @quiet_request cfg s r h.1
    obtain ⟨link', addr', heq'⟩ := ih (s := { s with linkCheckReq := link, mac := { s.mac with devAddr := addr } }) h.2
    refine ⟨link', addr', ?_⟩
    rw [requests, heq, bind_some, heq']

theorem request_same (status : Status) (hinv : Inv s) (hne : status ≠ .deferred)
    (heq : requestStatus cfg s r = some (status, s)) : ∃ s', request cfg s r = some s' ∧ Inv s' := by
  refine ⟨s, ?_, hinv⟩
  unfold request
  rw [heq, map_some, noted_self hne]

theorem Inv.resting_of (h : Inv s) (hbusy : s.busy = false) : Resting s := by
  rcases h.2 with hrest | ⟨hjoin, -⟩ | ⟨⟨p, hsend⟩, -⟩
  · exact hrest
  · rw [hjoin.busy] at hbusy
    cases hbusy
  · rw [hsend.busy] at hbusy
    cases hbusy

theorem mcps_inv {confirmed : Bool} {port dr : UInt8} {pkt : Option (List UInt8)} {toa : Nat} (h : Inv s)
    (hok : RequestAllowed s (.mcps confirmed port dr pkt toa)) :
    ∃ s', request cfg s (.mcps confirmed port dr pkt toa) = some s' ∧ Inv s' := by
  obtain ⟨hact, hnull⟩ := hok
  by_cases hnone : s.activation = .none
  · have hbusy : s.busy = false := Bool.eq_false_iff.mpr fun hbusy => hact hbusy hnone
    refine request_same .enotconn h nofun ?_
    unfold requestStatus mcpsRequest
    dsimp only
    rw [if_pos hnone, macRelease_eq hbusy]
  by_cases hbusy : s.busy = true
  · refine request_same .ebusy h nofun ?_
    unfold requestStatus mcpsRequest
    dsimp only
    rw [if_neg hnone, if_pos hbusy]
  have hidle : s.busy = false := Bool.eq_false_iff.mpr hbusy
  by_cases hunfit : Unfit s port dr pkt
  · have hstatus : ∃ status, status ≠ Status.deferred ∧
        requestStatus cfg s (.mcps confirmed port dr pkt toa) = some (status, s) := by
      unfold requestStatus mcpsRequest
      dsimp only
      rw [if_neg hnone, if_neg hbusy, macRelease_eq hidle]
      by_cases hport : port < portMin ∨ portMax < port
      · exact ⟨.ebadmsg, nofun, if_pos hport⟩
      rw [if_neg hport]
      cases hdr : validateDr dr with
      | false => exact ⟨.einval, nofun, if_pos rfl⟩
      | true =>
        have hsize : macPayloadMax dr < hdrSize + buildOptions s + pktSize pkt := by
          rcases hunfit with hunfit | hunfit | hunfit
          · exact absurd hunfit hport
          · rw [hdr] at hunfit
            cases hunfit
          · exact hunfit
        refine ⟨.emsgsize, nofun, ?_⟩
        rw [if_neg (by decide), if_pos hsize]
    obtain ⟨status, hne, heq⟩ := hstatus
    exact request_same status h hne heq
  · obtain ⟨p, rfl⟩ : ∃ p, pkt = some p := by
      cases pkt with
      | none => exact absurd (hnull rfl) (by rintro (h | h | h); exacts [hbusy h, hnone h, hunfit h])
      | some p => exact ⟨p, rfl⟩
    have hrest := h.resting_of hidle
    have hport : ¬ (port < portMin ∨ portMax < port) := fun hport => hunfit (.inl hport)
    have hdr : ¬ (!validateDr dr) = true := by
      intro hdr
      exact hunfit (.inr (.inl (by simpa using hdr)))
    have hsize : ¬ macPayloadMax dr < hdrSize + buildOptions s + pktSize (some p) := fun hsize => hunfit (.inr (.inr hsize))
    have heq : requestStatus cfg s (.mcps confirmed port dr (some p) toa) =
        some (.deferred, sendPkt (buildUplink cfg { s with busy := true } confirmed port (some p)) toa) := by
      unfold requestStatus mcpsRequest
      dsimp only
      rw [if_neg hnone, if_neg hbusy, if_neg hport, if_neg hdr, if_neg hsize]
      rfl
    refine ⟨noted s (.mcps confirmed port dr (some p) toa)
      (.deferred, sendPkt (buildUplink cfg { s with busy := true } confirmed port (some p)) toa), ?_, h.1, ?_⟩
    · unfold request
      rw [heq, map_some]
    · refine .inr (.inr ⟨⟨p, rfl, hnone, rfl, ?_, congrArg (· ++ _) hrest.matched⟩, .inr (.inl ⟨rfl, hrest.timer, rfl⟩)⟩)
      show (0 : Int) ≤ if confirmed then (cfg.retx : Int) else (cfg.redundancy : Int)
      split <;> exact Int.natCast_nonneg _

theorem join_inv {nwkkey devNonce : List UInt8} (h : Inv s) (hok : RequestAllowed s (.join nwkkey devNonce)) :
    ∃ s', request cfg s (.join nwkkey devNonce) = some s' ∧ Inv s' := by
  by_cases hact : s.activation = .none
  · by_cases hbusy : s.busy = true
    · refine request_same .ebusy h nofun ?_
      unfold requestStatus mlmeJoin
      dsimp only
      rw [if_neg (fun hne => hne hact), if_pos hbusy]
    · have hbudget : ¬ s.backoffBudget < 0 := by
        rcases hok with hok | hok | hok
        · exact absurd hact hok
        · exact absurd hok hbusy
        · omega
      have hrest := h.resting_of (Bool.eq_false_iff.mpr hbusy)
      have heq : requestStatus cfg s (.join nwkkey devNonce) =
          some (.deferred, sendJoinRequest cfg { s with busy := true } nwkkey devNonce) := by
        unfold requestStatus mlmeJoin
        dsimp only
        rw [if_neg (fun hne => hne hact), if_neg hbusy, if_neg hbudget]
      refine ⟨noted s (.join nwkkey devNonce) (.deferred, sendJoinRequest cfg { s with busy := true } nwkkey devNonce),
        ?_, h.1, ?_⟩
      · unfold request
        rw [heq, map_some]
      · refine .inr (.inl ⟨⟨rfl, hact, hrest.msdu, ?_, congrArg (· ++ _) hrest.matched⟩, .inl ⟨rfl, rfl, hrest.radio⟩⟩)
        show (if cfg.cfg.lorawan11 then _ else _ : Mac).waitingForAck = false
        split <;> exact hrest.waiting
  · refine request_same .einval h nofun ?_
    unfold requestStatus mlmeJoin
    dsimp only
    rw [if_pos hact]

theorem Inv.quiet (h : Inv s) (link : Bool) (addr : List UInt8) :
    Inv { s with linkCheckReq := link, mac := { s.mac with devAddr := addr } } := by
  refine ⟨h.1, ?_⟩
  rcases h.2 with hrest | ⟨hjoin, hphase⟩ | ⟨⟨p, hsend⟩, hphase⟩
  · exact .inl ⟨hrest.busy, hrest.state, hrest.timer, hrest.radio, hrest.msdu, hrest.waiting, hrest.matched⟩
  · exact .inr (.inl ⟨⟨hjoin.busy, hjoin.activation, hjoin.msdu, hjoin.waiting, hjoin.matched⟩, hphase⟩)
  · exact .inr (.inr ⟨⟨p, hsend.busy, hsend.activation, hsend.msdu, hsend.trials, hsend.matched⟩, hphase⟩)

theorem Inv.setActivation {activation : Activation} (h : Inv s) (hok : RequestAllowed s (.setActivation activation))
    (hne : activation ≠ .otaa) : Inv { s with activation := activation } := by
  refine ⟨h.1, ?_⟩
  rcases h.2 with hrest | ⟨hjoin, hphase⟩ | ⟨⟨p, hsend⟩, hphase⟩
  · exact .inl ⟨hrest.busy, hrest.state, hrest.timer, hrest.radio, hrest.msdu, hrest.waiting, hrest.matched⟩
  · have hact := (hok hjoin.busy).resolve_left hne
    exact .inr (.inl ⟨⟨hjoin.busy, hact.mpr hjoin.activation, hjoin.msdu, hjoin.waiting, hjoin.matched⟩, hphase⟩)
  · have hact := (hok hsend.busy).resolve_left hne
    exact .inr (.inr ⟨⟨p, hsend.busy, mt hact.mp hsend.activation, hsend.msdu, hsend.trials, hsend.matched⟩, hphase⟩)

theorem Inv.reset (h : Inv s) (hok : RequestAllowed s .reset) : Inv (reset s) := by
  refine ⟨h.1, ?_⟩
  rcases h.2 with hrest | ⟨hjoin, hphase⟩ | ⟨⟨p, hsend⟩, -⟩
  · exact .inl ⟨hrest.busy, hrest.state, hrest.timer, hrest.radio, hrest.msdu, rfl, hrest.matched⟩
  · exact .inr (.inl ⟨⟨hjoin.busy, rfl, hjoin.msdu, rfl, hjoin.matched⟩, hphase⟩)
  · exact absurd (hok hsend.busy) hsend.activation

/-- **A request that is right keeps the invariant.** -/
theorem request_inv (h : Inv s) (hok : RequestAllowed s r) : ∃ s', request cfg s r = some s' ∧ Inv s' := by
  cases r with
  | mcps confirmed port dr pkt toa => exact mcps_inv h hok
  | join nwkkey devNonce => exact join_inv h hok
  | setActivation activation =>
    by_cases hotaa : activation = .otaa
    · refine request_same .einval h nofun ?_
      unfold requestStatus
      dsimp only
      rw [if_pos hotaa]
    · refine ⟨{ s with activation := activation }, ?_, h.setActivation hok hotaa⟩
      unfold request requestStatus
      dsimp only
      rw [if_neg hotaa]
      rfl
  | reset => exact ⟨Transactions.reset s, rfl, h.reset hok⟩
  | linkCheck =>
    obtain ⟨link, addr, heq⟩ := @quiet_request cfg s .linkCheck rfl
    exact ⟨_, heq, h.quiet link addr⟩
  | setDevAddr addr =>
    obtain ⟨link, addr, heq⟩ := @quiet_request cfg s (.setDevAddr addr) rfl
    exact ⟨_, heq, h.quiet link addr⟩
  | mib known =>
    obtain ⟨link, addr, heq⟩ := @quiet_request cfg s (.mib known) rfl
    exact ⟨_, heq, h.quiet link addr⟩

theorem requests_inv : ∀ {rs : List Request} {s : State}, Inv s → RequestsAllowed cfg s rs →
    ∃ s', requests cfg s rs = some s' ∧ Inv s' := by
  intro rs
  induction rs with
  | nil => exact fun h _ => ⟨_, rfl, h⟩
  | cons r rs ih =>
    intro s h hok
    obtain ⟨s1, heq, hinv⟩ := @request_inv cfg s r h hok.1
    obtain ⟨s', heq', hinv'⟩ := ih hinv (hok.2 s1 heq)
    refine ⟨s', ?_, hinv'⟩
    rw [requests, heq, bind_some, heq']

/-! ## Confirmations -/

theorem endOfTx_eq (hquiet : cb.linkCheckTimeout.all Request.quiet = true) (s : State) : ∃ link addr,
    endOfTx cfg cb s = requests cfg { s with
      mac := { s.mac with waitingForAck := false, fcnt := s.mac.fcnt + 1, devAddr := addr }
      busy := false, linkCheckReq := link, msdu := none, confirmed := s.confirmed ++ [.mcps s.msdu] } cb.confirm := by
  unfold endOfTx macRelease
  dsimp only
  split
  · obtain ⟨link, addr, heq⟩ := @quiet_requests cfg cb.linkCheckTimeout
      { s with mac := { s.mac with waitingForAck := false, fcnt := s.mac.fcnt + 1 }, busy := false, linkCheckReq := false }
      hquiet
    refine ⟨link, addr, ?_⟩
    rw [heq, bind_some]
  · exact ⟨s.linkCheckReq, s.mac.devAddr, rfl⟩

theorem eventNoRx_cases (hquiet : s.nbTrials = 0 → cb.linkCheckTimeout.all Request.quiet = true) (h : Joining s ∨ Sending s p) :
    ((s.activation = .none ∨ s.nbTrials = 0) ∧
      ∃ t, eventNoRx cfg cb s = requests cfg t cb.confirm ∧ t.busy = false ∧ t.msdu = none ∧ t.mac.waitingForAck = false ∧
      t.state = s.state ∧ t.timer = s.timer ∧ t.radio = s.radio ∧ t.clean = s.clean ∧ t.backoffBudget = s.backoffBudget ∧
      t.deferred = t.confirmed ∧ t.confirmed.length = s.confirmed.length + 1) ∨
    (s.nbTrials ≠ 0 ∧ Sending s p ∧ Sending { s with nbTrials := s.nbTrials - 1, timer := true } p ∧
      eventNoRx cfg cb s = some { s with nbTrials := s.nbTrials - 1, timer := true }) := by
  unfold eventNoRx
  rcases h with h | h
  · rw [if_pos h.activation]
    refine .inl ⟨.inl h.activation, _, rfl, rfl, h.msdu, h.waiting, rfl, rfl, rfl, rfl, rfl, h.matched, ?_⟩
    exact List.length_append
  · rw [if_neg h.activation]
    unfold handleRetransmissions
    by_cases hnb : s.nbTrials = 0
    · rw [if_pos hnb]
      obtain ⟨link, addr, heq⟩ := @endOfTx_eq cfg cb (hquiet hnb) { s with nbTrials := s.nbTrials - 1 }
      rw [heq]
      refine .inl ⟨.inr hnb, _, rfl, rfl, rfl, rfl, rfl, rfl, rfl, rfl, rfl, ?_, List.length_append⟩
      rw [h.matched, h.msdu]
    · rw [if_neg hnb]
      refine .inr ⟨hnb, h, ⟨h.busy, h.activation, h.msdu, ?_, h.matched⟩, rfl⟩
      have := h.trials
      dsimp only
      omega

end Riot.Lorawan.Transactions
