import Riot.Submac.Fsm

/-!
# What the SubMAC has to do

A send that was accepted is under way until `tx_done` is called, and nothing else is. It is sent so often,
after what is due, and reported after its ACK; and the condition under which all of this is so. What is
drawn with is what is due as long as the exponent grows: the code compares half of the mask, where the
exponent is meant.
-/

namespace Riot.Submac

variable {cfg : Config} {s : State} {f : Frame}

/-! ## What has to hold -/

/-- A frame is under way. -/
def FsmState.busy : FsmState → Bool
  | .prepare => true
  | .tx => true
  | .waitForAck => true
  | _ => false

def Frame.ackReq (f : Frame) : Bool := f.fcf &&& fcfAckReq ≠ 0

/-- The sequence number. -/
def Frame.seq (f : Frame) : Option UInt8 := (f.base ++ f.next.getD [])[2]?

/-- What was read is an ACK for the frame. -/
def IsAckOf (f : Frame) (read : Int × UInt8 × UInt8 × UInt8) : Prop :=
  read.1 = ackLen ∧ read.2.1 &&& fcfTypeMask = fcfTypeAck ∧ f.seq = some read.2.2.2

/-- The exponent that is due: it starts at the least and grows to the greatest. -/
def due (cfg : Config) (k : Nat) : Nat := min (cfg.beMin + k) cfg.beMax

/-- What is due before a transmit request, the `k`-th of a frame. -/
def dueWait (cfg : Config) (k : Nat) : Wait := if doesHandleCsma cfg then .radio else .backoff (2 ^ due cfg k - 1)

def dueWaits (cfg : Config) (n : Nat) : List Wait := (List.range n).map (dueWait cfg)

/-- A frame is sent so often, and after what is due; an ACK may be sent at once. -/
structure GoodSeen (cfg : Config) (frame : Option Frame) (seen : Seen) : Prop where
  sent : seen.transmissions ≤ 1 + cfg.maxFrameRetrans
  waits : seen.waits = dueWaits cfg seen.waits.length ∨ seen.waits = [.sifs] ∧ frame.any isAck = true

/-- A report of success is after an ACK of the frame, where the radio does not care for it. -/
structure GoodReport (cfg : Config) (r : Report) : Prop where
  seen : GoodSeen cfg r.frame r.seen
  acked : ∀ f, r.frame = some f → f.ackReq = true → doesHandleAck cfg = false →
    r.status = .success ∨ r.status = .framePending → ∃ read ∈ r.seen.acks, IsAckOf f read

/-- The event that the state waits for. -/
def Awaited (s : State) : Event → Prop
  | .bh _ => s.fsmState = .prepare ∧ s.bhRequested = true
  | .txDone oc => s.fsmState = .tx ∧ s.transmitting = true ∧ oc.confirmTransmit.isSome = true
  | .ackTimeout _ => s.fsmState = .waitForAck ∧ s.ackTimer = true
  | _ => False

/-- What is left to do at most, counted in events that are waited for. -/
def work (cfg : Config) (s : State) : Nat :=
  (cfg.maxFrameRetrans - s.retrans) * (2 * cfg.csmaRetries + 3) +
    match s.fsmState with
    | .prepare => 2 * (cfg.csmaRetries - s.csmaRetriesNb) + 2
    | .tx => 2 * (cfg.csmaRetries - s.csmaRetriesNb) + 1
    | _ => 0

/-- **The SubMAC as it should be.** -/
structure SubmacRight (cfg : Config) (s : State) : Prop where
  /-- Every accepted send was reported once, except for one that is under way. -/
  matched : s.accepted = s.reports.length + if s.fsmState.busy then 1 else 0
  reports : ∀ r ∈ s.reports, GoodReport cfg r
  current : GoodSeen cfg s.psdu s.seen
  filter : s.fsmState = .rx ∨ s.fsmState = .idle → s.filter = .accept
  /-- One that is under way is waiting for an event, and each such event leads nearer to its report. -/
  goesOn : s.fsmState.busy = true → (∃ e, Awaited s e ∧ (step cfg s e).isSome = true) ∧
    ∀ e s', Awaited s e → step cfg s e = some s' → s'.fsmState.busy = true → work cfg s' < work cfg s

/-! ## The condition -/

/-- What the radio may tell: one that does not retransmit sends once, unless the medium is busy. -/
def Possible (cfg : Config) (info : TxInfo) : Prop :=
  if cfg.frameRetrans then info.sent ≤ 1 + cfg.maxFrameRetrans
  else info.sent = if info.status = .mediumBusy then 0 else 1

/-- The first transmission of a frame is the last. -/
def EndsAtOnce (cfg : Config) (f : Frame) : TxStatus → Prop
  | .success => doesHandleAck cfg = true ∨ f.ackReq = false
  | .framePending => True
  | .noAck => cfg.maxFrameRetrans = 0
  | .mediumBusy => doesHandleCsma cfg = true ∨ cfg.csmaRetries = 0

/-- The exponent grows until it is the one that is due. -/
def DueReached (cfg : Config) (k : Nat) : Prop := due cfg k = cfg.beMin ∨ 2 ^ (due cfg k - 1) / 2 < cfg.beMax

/-- The filter is changed back, or was not changed. -/
def FilterBack (s : State) (oc : Outcomes) : Prop := oc.setFrameFilterMode = true ∨ s.filter = .accept

/-- What is sent: from RX no ACK, unless the radio refuses; from IDLE one that is an ACK both for `send`
and for the state machine, and done with at once, or one that is an ACK for neither. -/
def SendAllowed (cfg : Config) (s : State) (f : Frame) (oc : Outcomes) : Prop :=
  match s.fsmState with
  | .rx => isAck f = false ∨ oc.setIdle = false
  | .idle =>
    if sentAsAck f then
      if isAck f then oc.setIdle = true ∧ oc.write = true ∧
        ∀ info, oc.confirmTransmit = some info → Possible cfg info ∧ EndsAtOnce cfg f info.status
      else oc.setIdle = false ∨ oc.write = false
    else isAck f = false
  | _ => True

/-- **When an event is right.** -/
def Allowed (cfg : Config) (s : State) : Event → Prop
  | .send (some f) oc => SendAllowed cfg s f oc
  | .bh oc => s.fsmState = .prepare → oc.requestTransmit = true ∧
      (doesHandleCsma cfg = true ∨ DueReached cfg s.seen.waits.length)
  | .txDone oc => s.fsmState = .tx → ∀ info, oc.confirmTransmit = some info →
      Possible cfg info ∧ (cfg.frameRetrans = true → s.retrans = 0 ∨ info.sent = 0) ∧
      (info.status = .mediumBusy → doesHandleCsma cfg = true ∨ cfg.csmaRetries ≤ s.csmaRetriesNb → s.filter = .accept)
  | .rxDone oc => s.fsmState = .waitForAck → oc.read ≠ 0 → oc.ack.1 &&& fcfTypeAck ≠ 0 →
      FilterBack s oc ∧ ∀ f, s.psdu = some f → IsAckOf f (oc.read, oc.ack)
  | .ackTimeout oc => s.fsmState = .waitForAck → cfg.maxFrameRetrans ≤ s.retrans → FilterBack s oc
  | _ => True

/-! ## Backoff exponents -/

/-- The exponents that are drawn with. -/
def exponent (cfg : Config) : Nat → Nat
  | 0 => cfg.beMin
  | k + 1 => if 2 ^ exponent cfg k / 2 < cfg.beMax then exponent cfg k + 1 else exponent cfg k

theorem nextMask_eq (e : Nat) :
    nextMask cfg (2 ^ e - 1) = 2 ^ (if 2 ^ e / 2 < cfg.beMax then e + 1 else e) - 1 := by
  unfold nextMask
  have hpos := Nat.two_pow_pos e
  have hhalf : (2 ^ e - 1 + 1) >>> 1 = 2 ^ e / 2 := by
    rw [Nat.sub_add_cancel hpos, Nat.shiftRight_eq_div_pow, Nat.pow_one]
  rw [hhalf]
  by_cases hlt : 2 ^ e / 2 < cfg.beMax
  · rw [if_pos hlt, if_pos hlt]
    have hmax := cfg.be_le.2
    have he : e < 4 := by
      refine Classical.byContradiction fun hge => ?_
      have := Nat.pow_le_pow_right (n := 2) (by decide) (Nat.le_of_not_lt hge)
      omega
    have hall : ∀ e < 4, ((2 ^ e - 1) <<< 1 ||| 1) % 256 = 2 ^ (e + 1) - 1 := by decide
    exact hall e he
  · rw [if_neg hlt, if_neg hlt]

theorem exponent_eq : ∀ {k : Nat}, DueReached cfg k → exponent cfg k = due cfg k := by
  intro k
  induction k with
  | zero =>
    intro _
    exact (min_eq_left cfg.be_le.1).symm
  | succ k ih =>
    intro h
    unfold DueReached due at *
    rw [exponent]
    by_cases hlt : cfg.beMin + k < cfg.beMax
    · -- it was growing, so that it grows
      rw [min_eq_left (by omega)] at h ⊢
      have hgrow := h.resolve_left (by omega)
      rw [min_eq_left (by omega)] at ih
      rw [Nat.add_succ_sub_one] at hgrow
      have hpow := Nat.pow_le_pow_right (n := 2) (by decide) (Nat.sub_le (cfg.beMin + k) 1)
      rw [ih (.inr (by omega)), if_pos hgrow, add_assoc]
    · rw [min_eq_right (by omega)] at h ⊢
      rw [min_eq_right (by omega)] at ih
      rw [ih h, if_neg]
      have hmax := cfg.be_le.2
      have hall : ∀ n < 9, ¬ 2 ^ n / 2 < n := by decide
      exact hall cfg.beMax (by omega)

theorem dueWaits_succ (n : Nat) : dueWaits cfg (n + 1) = dueWaits cfg n ++ [dueWait cfg n] := by
  unfold dueWaits
  rw [List.range_succ, List.map_append, List.map_singleton]

end Riot.Submac
