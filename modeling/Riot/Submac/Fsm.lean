import Mathlib.Tactic.Ring

/-!
# The SubMAC state machine (`sys/net/link_layer/ieee802154/submac.c`)

What the operations of the radio return is an input of every event. An assertion that fails, and a
transmission that is polled for and never ends, have no result. Beside the descriptor a state has what
was done with it: the transmit requests, with what was waited for before each, the frames that were
read while an ACK was awaited, and the calls of `tx_done`. Those callbacks of the netdev only note that
they were called.
-/

namespace Riot.Submac

/-- `ieee802154_fsm_state_t` -/
inductive FsmState where
  | invalid
  | rx
  | idle
  | prepare
  | tx
  | waitForAck
deriving DecidableEq

/-- `ieee802154_fsm_ev_t` -/
inductive FsmEv where
  | txDone
  | rxDone
  | crcError
  | ackTimeout
  | bh
  | requestTx
  | requestSetRxOn
  | requestSetIdle
deriving DecidableEq

/-- `ieee802154_tx_status_t` -/
inductive TxStatus where
  | success
  | framePending
  | noAck
  | mediumBusy
deriving DecidableEq

/-- `ieee802154_filter_mode_t`, as far as it is set here -/
inductive FilterMode where
  | accept
  | ackOnly
deriving DecidableEq

/-- What functions return: 0, `-EBUSY`, `-EALREADY`. -/
inductive Status where
  | ok
  | busy
  | already
deriving DecidableEq

def fcfTypeMask : UInt8 := 0x07
def fcfTypeAck : UInt8 := 0x02
def fcfFramePend : UInt8 := 0x10
def fcfAckReq : UInt8 := 0x20

/-- `IEEE802154_ACK_FRAME_LEN - IEEE802154_FCS_LEN` -/
def ackLen : Nat := 3

def minFrameLen : Int := 3

/-- The capabilities of the radio, and the parameters. -/
structure Config where
  /-- `ieee802154_radio_has_frame_retrans` -/
  frameRetrans : Bool
  /-- `ieee802154_radio_has_irq_ack_timeout` -/
  irqAckTimeout : Bool
  /-- `ieee802154_radio_has_auto_csma` -/
  autoCsma : Bool
  /-- `CONFIG_IEEE802154_DEFAULT_MAX_FRAME_RETRANS` -/
  maxFrameRetrans : Nat
  csmaRetries : Nat
  beMin : Nat
  beMax : Nat
  maxFrameRetrans_lt : maxFrameRetrans < 256
  csmaRetries_lt : csmaRetries < 256
  be_le : beMin ≤ beMax ∧ beMax ≤ 8

/-- A PSDU: what is in the first node of the list, and in those after it if there are any. -/
structure Frame where
  base : List UInt8
  next : Option (List UInt8)
  base_ne : base ≠ []
deriving DecidableEq

/-- What `ieee802154_radio_confirm_transmit` tells: the status, and how often the frame was sent. -/
structure TxInfo where
  status : TxStatus
  sent : Nat
deriving DecidableEq

/-- What the operations of the radio return, each time they are called: `true` if it is not negative. -/
structure Outcomes where
  /-- `ieee802154_radio_set_idle` or `_request_set_idle`, not forced -/
  setIdle : Bool
  /-- `ieee802154_radio_set_idle`, forced -/
  forceIdle : Bool
  setRx : Bool
  write : Bool
  requestTransmit : Bool
  setFrameFilterMode : Bool
  /-- `ieee802154_radio_confirm_transmit`: `none` if the transmission did not finish -/
  confirmTransmit : Option TxInfo
  /-- `ieee802154_radio_len` -/
  len : Int
  /-- `ieee802154_radio_read`, and what is in the buffer for an ACK after it -/
  read : Int
  ack : UInt8 × UInt8 × UInt8
deriving DecidableEq

/-- What comes before a transmit request. -/
inductive Wait where
  /-- a random number of periods up to the mask -/
  | backoff (mask : Nat)
  /-- `SIFS_PERIOD_US` -/
  | sifs
  /-- nothing: the radio does CSMA-CA -/
  | radio
deriving DecidableEq

/-- What was done with a frame. -/
structure Seen where
  /-- one for each transmit request -/
  waits : List Wait
  transmissions : Nat
  /-- what was read while an ACK was awaited, with the length -/
  acks : List (Int × UInt8 × UInt8 × UInt8)
deriving DecidableEq

/-- A call of `tx_done`. -/
structure Report where
  frame : Option Frame
  status : TxStatus
  seen : Seen
deriving DecidableEq

/-- `ieee802154_submac_t`, and what was seen of it. -/
structure State where
  fsmState : FsmState
  waitForAck : Bool
  retrans : Nat
  csmaRetriesNb : Nat
  backoffMask : Nat
  psdu : Option Frame
  /-- the radio: its filter, and whether a transmission was started and not confirmed -/
  filter : FilterMode
  transmitting : Bool
  /-- `ieee802154_submac_bh_request` and `ieee802154_submac_ack_timer_set` -/
  bhRequested : Bool
  ackTimer : Bool
  /-- the sends of a frame that returned 0, and the calls of `tx_done` -/
  accepted : Nat
  reports : List Report
  seen : Seen

def noneSeen : Seen := ⟨[], 0, []⟩

/-- After `ieee802154_submac_init`, for a radio whose filter accepts frames. -/
def init : State where
  fsmState := .rx
  waitForAck := false
  retrans := 0
  csmaRetriesNb := 0
  backoffMask := 0
  psdu := none
  filter := .accept
  transmitting := false
  bhRequested := false
  ackTimer := false
  accepted := 0
  reports := []
  seen := noneSeen

variable (cfg : Config)

def doesHandleAck : Bool := cfg.frameRetrans || cfg.irqAckTimeout

def doesHandleCsma : Bool := cfg.frameRetrans || cfg.autoCsma

def hasRetransLeft (s : State) : Bool := s.retrans < cfg.maxFrameRetrans

/-- `ieee802154_radio_set_frame_filter_mode` -/
def setFilter (s : State) (oc : Outcomes) (mode : FilterMode) : State :=
  if oc.setFrameFilterMode then { s with filter := mode } else s

def txEnd (s : State) (oc : Outcomes) (status : TxStatus) : Option (FsmState × State) :=
  if oc.forceIdle then
    some (.idle, { s with waitForAck := false, reports := s.reports ++ [⟨s.psdu, status, s.seen⟩] })
  else none

def handleTxNoAck (s : State) (oc : Outcomes) : Option (FsmState × State) :=
  if hasRetransLeft cfg s then
    if oc.forceIdle then some (.prepare, { s with retrans := (s.retrans + 1) % 256, bhRequested := true }) else none
  else txEnd (setFilter s oc .accept) oc .noAck

/-- `_handle_fsm_ev_request_tx`: whether it does not fail. -/
def handleFsmEvRequestTx (s : State) (oc : Outcomes) : Bool × State :=
  if oc.setIdle then (true, { s with bhRequested := true }) else (false, s)

/-- `ieee802154_radio_request_transmit`, until it is not busy. -/
def requestTransmit (s : State) (oc : Outcomes) (wait : Wait) : State :=
  { s with transmitting := oc.requestTransmit, seen := { s.seen with waits := s.seen.waits ++ [wait] } }

/-- The backoff in `_fsm_state_prepare`, and the mask of the next one. -/
def nextMask (mask : Nat) : Nat := if (mask + 1) >>> 1 < cfg.beMax then (mask <<< 1 ||| 1) % 256 else mask

/-- `IEEE802154_FSM_EV_BH` in `_fsm_state_prepare`, for a data frame. -/
def prepareData (s : State) (oc : Outcomes) : State :=
  if doesHandleCsma cfg then requestTransmit s oc .radio
  else { requestTransmit s oc (.backoff s.backoffMask) with backoffMask := nextMask cfg s.backoffMask }

def fsmStatePrepare (s : State) (ev : FsmEv) (oc : Outcomes) : FsmState × State :=
  match ev with
  | .bh => (.tx, prepareData cfg s oc)
  | .rxDone => (.prepare, s)
  | .crcError => (.prepare, s)
  | _ => (.invalid, s)

def fsmStateTxProcessTxDone (s : State) (oc : Outcomes) (status : TxStatus) : Option (FsmState × State) :=
  match status with
  | .framePending => if doesHandleAck cfg then txEnd { s with csmaRetriesNb := 0 } oc .framePending else none
  | .success =>
    if doesHandleAck cfg || !s.waitForAck then txEnd { s with csmaRetriesNb := 0 } oc .success
    else if oc.setRx then
      some (.waitForAck, { setFilter { s with csmaRetriesNb := 0 } oc .ackOnly with ackTimer := true })
    else none
  | .noAck => if doesHandleAck cfg then handleTxNoAck cfg { s with csmaRetriesNb := 0 } oc else none
  | .mediumBusy =>
    if doesHandleCsma cfg then txEnd s oc .mediumBusy
    else if s.csmaRetriesNb ≥ cfg.csmaRetries then
      txEnd { s with csmaRetriesNb := (s.csmaRetriesNb + 1) % 256 } oc .mediumBusy
    else some (.prepare, { s with csmaRetriesNb := (s.csmaRetriesNb + 1) % 256, bhRequested := true })

/-- The radio confirms a transmission. -/
def confirmed (s : State) (info : TxInfo) : State :=
  { s with
    transmitting := false
    seen := { s.seen with transmissions := s.seen.transmissions + info.sent } }

def fsmStateTx (s : State) (ev : FsmEv) (oc : Outcomes) : Option (FsmState × State) :=
  match ev with
  | .txDone =>
    match oc.confirmTransmit with
    | some info => fsmStateTxProcessTxDone cfg (confirmed s info) oc info.status
    | none => some (.invalid, s)
  | .rxDone => some (.tx, s)
  | .crcError => some (.tx, s)
  | _ => some (.invalid, s)

/-- `_handle_fsm_ev_tx_ack`: the ACK is sent when this returns, unless it fails. -/
def handleFsmEvTxAck (s : State) (oc : Outcomes) : Option State :=
  if oc.setIdle && oc.write then
    oc.confirmTransmit.bind fun _ => (fsmStateTx cfg (requestTransmit s oc .sifs) .txDone oc).map Prod.snd
  else some s

def fsmStateRx (s : State) (ev : FsmEv) (oc : Outcomes) : Option (FsmState × State) :=
  match ev with
  | .requestTx =>
    match handleFsmEvRequestTx s oc with
    | (true, s) => some (.prepare, s)
    | (false, s) => some (.rx, s)
  | .rxDone => if oc.len > minFrameLen then some (.idle, s) else if oc.setRx then some (.rx, s) else none
  | .crcError => if oc.setRx then some (.rx, s) else none
  | .requestSetIdle => if oc.setIdle then some (.idle, s) else some (.rx, s)
  | _ => some (.invalid, s)

/-- The first byte of a frame. -/
def Frame.fcf (f : Frame) : UInt8 := f.base.head f.base_ne

/-- What `_fsm_state_idle` takes for an ACK. -/
def sentAsAck (f : Frame) : Bool := f.base.length = ackLen && f.fcf &&& fcfTypeAck ≠ 0 && f.next.isNone

/-- What `ieee802154_send` takes for an ACK. -/
def isAck (f : Frame) : Bool := f.base.length = ackLen && f.fcf &&& fcfTypeMask = fcfTypeAck

def fsmStateIdle (s : State) (ev : FsmEv) (oc : Outcomes) : Option (FsmState × State) :=
  match ev with
  | .requestTx =>
    if s.psdu.any sentAsAck then (handleFsmEvTxAck cfg s oc).map fun s => (.idle, s)
    else
      match handleFsmEvRequestTx s oc with
      | (true, s) => some (.prepare, s)
      | (false, s) => some (.idle, s)
  | .requestSetRxOn => if oc.setRx then some (.rx, s) else some (.idle, s)
  | .rxDone => some (.idle, s)
  | .crcError => some (.idle, s)
  | _ => some (.invalid, s)

/-- A frame that is read while an ACK is awaited. -/
def readAck (s : State) (oc : Outcomes) : State :=
  { s with seen := { s.seen with acks := s.seen.acks ++ [(oc.read, oc.ack)] } }

def fsmStateWaitForAck (s : State) (ev : FsmEv) (oc : Outcomes) : Option (FsmState × State) :=
  match ev with
  | .rxDone =>
    if cfg.irqAckTimeout then none
    else if oc.read ≠ 0 ∧ oc.ack.1 &&& fcfTypeAck ≠ 0 then
      txEnd (setFilter { readAck s oc with ackTimer := false } oc .accept) oc
        (if oc.ack.1 &&& fcfFramePend ≠ 0 then .framePending else .success)
    else some (.waitForAck, readAck s oc)
  | .crcError => some (.waitForAck, s)
  | .ackTimeout => handleTxNoAck cfg s oc
  | _ => some (.invalid, s)

/-- The state function of the state, in `ieee802154_submac_process_ev`. -/
def fsmStateOf (s : State) (ev : FsmEv) (oc : Outcomes) : Option (FsmState × State) :=
  match s.fsmState with
  | .rx => fsmStateRx s ev oc
  | .idle => fsmStateIdle cfg s ev oc
  | .prepare => some (fsmStatePrepare cfg s ev oc)
  | .tx => fsmStateTx cfg s ev oc
  | .waitForAck => fsmStateWaitForAck cfg s ev oc
  | .invalid => some (.invalid, s)

def processEv (s : State) (ev : FsmEv) (oc : Outcomes) : Option State :=
  (fsmStateOf cfg s ev oc).map fun (new, s') =>
    { s' with fsmState := if new = .invalid then s.fsmState else new }

/-- What `ieee802154_send` sets before it requests the transmission. -/
def started (s : State) (f : Frame) : State :=
  { s with
    waitForAck := f.fcf &&& fcfAckReq ≠ 0
    psdu := some f
    retrans := 0
    csmaRetriesNb := 0
    backoffMask := (2 ^ cfg.beMin - 1) % 256
    seen := noneSeen }

/-- What `ieee802154_send` returns for where the request has led. -/
def sendStatus (f : Frame) (new : FsmState) : Status :=
  if isAck f then if new = .idle then .ok else .busy
  else if new = .prepare then .ok else .busy

/-- What `ieee802154_send` returns; the sends of a frame that return 0 are counted. -/
def returned (f : Frame) (s : State) : Status × State :=
  match sendStatus f s.fsmState with
  | .ok => (.ok, { s with accepted := s.accepted + 1 })
  | status => (status, s)

def send (s : State) (iolist : Option Frame) (oc : Outcomes) : Option (Status × State) :=
  if s.fsmState ≠ .rx ∧ s.fsmState ≠ .idle then some (.busy, s)
  else
    match iolist with
    | none => some (.ok, s)
    | some f => (processEv cfg (started cfg s f) .requestTx oc).map (returned f)

def setRx (s : State) (oc : Outcomes) : Option (Status × State) :=
  match s.fsmState with
  | .rx => some (.already, s)
  | .idle => (processEv cfg s .requestSetRxOn oc).map fun s' => (if s'.fsmState = .rx then .ok else .busy, s')
  | _ => some (.busy, s)

def setIdle (s : State) (oc : Outcomes) : Option (Status × State) :=
  match s.fsmState with
  | .idle => some (.already, s)
  | .rx => (processEv cfg s .requestSetIdle oc).map fun s' => (if s'.fsmState = .idle then .ok else .busy, s')
  | _ => some (.busy, s)

/-- The calls of the upper layer, and the events of the radio, the timer and the bottom half. -/
inductive Event where
  | send (iolist : Option Frame) (oc : Outcomes)
  | setRx (oc : Outcomes)
  | setIdle (oc : Outcomes)
  | txDone (oc : Outcomes)
  | rxDone (oc : Outcomes)
  | crcError (oc : Outcomes)
  | ackTimeout (oc : Outcomes)
  | bh (oc : Outcomes)
deriving DecidableEq

def step (s : State) : Event → Option State
  | .send iolist oc => (send cfg s iolist oc).map Prod.snd
  | .setRx oc => (setRx cfg s oc).map Prod.snd
  | .setIdle oc => (setIdle cfg s oc).map Prod.snd
  | .txDone oc => processEv cfg s .txDone oc
  | .rxDone oc => processEv cfg s .rxDone oc
  | .crcError oc => processEv cfg s .crcError oc
  | .ackTimeout oc => processEv cfg { s with ackTimer := false } .ackTimeout oc
  | .bh oc => processEv cfg { s with bhRequested := false } .bh oc

end Riot.Submac
