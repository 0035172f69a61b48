import Riot.Lorawan.Downlink

/-!
# LoRaWAN MAC transactions (`gnrc_lorawan.c`, `gnrc_lorawan_mcps.c`, `gnrc_lorawan_mlme.c`)

The MAC is acquired by a request and released before it is confirmed. The timer and the radio are part of
the state, so that only events come that they can produce. What the callbacks of the confirmations
request is an input of the event that confirms. An assertion that fails and a `NULL` msdu that is
transmitted have no result. Beside the MAC a state has the transactions that were accepted and those
that were confirmed, in order.
-/

namespace Riot.Lorawan.Transactions

/-- `mlme_activation_t` -/
inductive Activation where
  | none
  | abp
  | otaa
deriving DecidableEq

/-- `LORAWAN_STATE_*` -/
inductive MacState where
  | idle
  | rx1
  | rx2
  | tx
  | join
deriving DecidableEq

inductive Radio where
  | sleep
  | tx
  | rx
deriving DecidableEq

/-- What requests return: success, deferred, or an error number. -/
inductive Status where
  | success
  | deferred
  | enotconn
  | ebusy
  | ebadmsg
  | einval
  | emsgsize
  | edquot
deriving DecidableEq

/-- What is in `mhdr_mic`: a Join Request, or the header of an uplink. -/
inductive Pending where
  | nothing
  | joinRequest (devNonce : List UInt8)
  | uplink (confirmed ack : Bool) (fcnt : UInt32) (port : UInt8) (foptsLength : Nat)
deriving DecidableEq

/-- A request that takes the MAC. -/
inductive Transaction where
  | join
  | mcps (msdu : Option (List UInt8))
deriving DecidableEq

/-- The requests; `toa` is the time on air of what is sent. -/
inductive Request where
  | mcps (confirmed : Bool) (port dr : UInt8) (pkt : Option (List UInt8)) (toa : Nat)
  | join (nwkkey devNonce : List UInt8)
  | linkCheck
  | setActivation (activation : Activation)
  | setDevAddr (devAddr : List UInt8)
  /-- the other attributes: whether there is such -/
  | mib (known : Bool)
  | reset
deriving DecidableEq

/-- What is requested by the callbacks of the confirmations of an event: of link checks that are
answered, of one that is not, and of the transaction. -/
structure Callbacks where
  linkCheckAns : List (List Request)
  linkCheckTimeout : List Request
  confirm : List Request

structure Config where
  cfg : Cfg
  /-- What a Join Accept does to the session, of the nonce and the frame, and whether its MIC is right. -/
  joinAccept : Mac → List UInt8 → List UInt8 → Mac × Bool
  /-- `CONFIG_LORAMAC_DEFAULT_RETX`, `CONFIG_LORAMAC_DEFAULT_REDUNDANCY` -/
  retx : Nat
  redundancy : Nat

structure State where
  mac : Mac
  activation : Activation
  busy : Bool
  state : MacState
  nbTrials : Int
  msdu : Option (List UInt8)
  mhdrMic : Pending
  devNonce : List UInt8
  /-- `GNRC_LORAWAN_MLME_OPTS_LINK_CHECK_REQ`, `_REKEY_IND_REQ` -/
  linkCheckReq : Bool
  rekeyIndReq : Bool
  backoffBudget : Int
  backoffState : UInt8
  toa : Nat
  timer : Bool
  radio : Radio
  deferred : List Transaction
  confirmed : List Transaction
  /-- no request that was refused has changed something -/
  clean : Bool

def backoffTime1 : UInt8 := 1
def backoffTime2 : UInt8 := 10
def backoffTime3 : UInt8 := 24
def backoffBudget1 : Int := 36000000
def backoffBudget2 : Int := 36000000
def backoffBudget3 : Int := 8700000

/-- `gnrc_lorawan_mlme_backoff_expire_cb` -/
def mlmeBackoffExpire (s : State) : State :=
  let counter := s.backoffState &&& 0x1F
  let state := s.backoffState >>> 5
  if counter = 0 then
    if state = 0 then { s with backoffState := (1 : UInt8) <<< 5 ||| ((backoffTime1 - 1) &&& 0x1F), backoffBudget := backoffBudget1 }
    else if state = 1 then
      { s with backoffState := (2 : UInt8) <<< 5 ||| ((backoffTime2 - 1) &&& 0x1F), backoffBudget := backoffBudget2 }
    else { s with backoffState := state <<< 5 ||| ((backoffTime3 - 1) &&& 0x1F), backoffBudget := backoffBudget3 }
  else { s with backoffState := state <<< 5 ||| ((counter - 1) &&& 0x1F) }

/-- `gnrc_lorawan_init`, with the session that is configured -/
def init (mac : Mac) : State :=
  mlmeBackoffExpire {
    mac := { mac with ackRequested := false, waitingForAck := false, fcnt := 0, fcntDown := 0 }
    activation := .none
    busy := false
    state := .idle
    nbTrials := 0
    msdu := none
    mhdrMic := .nothing
    devNonce := [0, 0]
    linkCheckReq := false
    rekeyIndReq := false
    backoffBudget := 0
    backoffState := 0
    toa := 0
    timer := false
    radio := .sleep
    deferred := []
    confirmed := []
    clean := true }

variable (cfg : Config)

def sendPkt (s : State) (toa : Nat) : State := { s with state := .tx, radio := .tx, toa := toa }

/-- `_transmit_pkt`, which goes through the snips of the msdu. -/
def transmitPkt (s : State) (toa : Nat) : Option State := s.msdu.map fun _ => sendPkt s toa

def macRelease (s : State) : State := { s with busy := false }

/-- `gnrc_lorawan_build_options`: the length. -/
def buildOptions (s : State) : Nat := (if s.linkCheckReq then 1 else 0) + (if s.rekeyIndReq then 2 else 0)

def portMin : UInt8 := 1

def validateDr (dr : UInt8) : Bool := dr < 6

def macPayloadMax (dr : UInt8) : Nat := if dr < 3 then 59 else if dr = 3 then 123 else 250

/-- `iolist_size` -/
def pktSize (pkt : Option (List UInt8)) : Nat := (pkt.getD []).length

/-- `gnrc_lorawan_build_uplink`, and what is set for it. -/
def buildUplink (s : State) (confirmed : Bool) (port : UInt8) (pkt : Option (List UInt8)) : State :=
  { s with
    mhdrMic := .uplink confirmed s.mac.ackRequested s.mac.fcnt port (buildOptions s)
    mac := { s.mac with waitingForAck := confirmed, ackRequested := false }
    nbTrials := if confirmed then cfg.retx else cfg.redundancy
    msdu := pkt }

def mcpsRequest (s : State) (confirmed : Bool) (port dr : UInt8) (pkt : Option (List UInt8)) (toa : Nat) :
    Option (Status × State) :=
  if s.activation = .none then some (.enotconn, macRelease s)
  else if s.busy then some (.ebusy, s)
  else if port < portMin ∨ portMax < port then some (.ebadmsg, macRelease s)
  else if !validateDr dr then some (.einval, macRelease s)
  else if hdrSize + buildOptions s + pktSize pkt > macPayloadMax dr then some (.emsgsize, macRelease s)
  else (transmitPkt (buildUplink cfg { s with busy := true } confirmed port pkt) toa).map fun s => (.deferred, s)

/-- `gnrc_lorawan_send_join_request`, after the keys were set. -/
def sendJoinRequest (s : State) (nwkkey devNonce : List UInt8) : State :=
  { s with
    mac :=
      if cfg.cfg.lorawan11 then { s.mac with nwksenckey := nwkkey }
      -- both keys are the same buffer
      else { s.mac with nwksenckey := nwkkey, snwksintkey := nwkkey }
    devNonce := devNonce
    mhdrMic := .joinRequest devNonce
    state := .join
    timer := true
    backoffBudget := s.backoffBudget - s.toa }

def reset (s : State) : State :=
  { s with
    mac := { s.mac with ackRequested := false, waitingForAck := false, fcnt := 0, fcntDown := 0 }
    activation := .none
    devNonce := [0, 0]
    linkCheckReq := false
    rekeyIndReq := false
    toa := 0 }

/-- `MLME_JOIN` in `gnrc_lorawan_mlme_request` -/
def mlmeJoin (s : State) (nwkkey devNonce : List UInt8) : Status × State :=
  if s.activation ≠ .none then (.einval, s)
  else if s.busy then (.ebusy, s)
  else if s.backoffBudget < 0 then (.edquot, { s with busy := true })
  else (.deferred, sendJoinRequest cfg { s with busy := true } nwkkey devNonce)

/-- `gnrc_lorawan_mcps_request` and `gnrc_lorawan_mlme_request` -/
def requestStatus (s : State) : Request → Option (Status × State)
  | .mcps confirmed port dr pkt toa => mcpsRequest cfg s confirmed port dr pkt toa
  | .join nwkkey devNonce => some (mlmeJoin cfg s nwkkey devNonce)
  | .linkCheck => some (.deferred, { s with linkCheckReq := true })
  | .setActivation activation =>
    some (if activation = .otaa then (.einval, s) else (.success, { s with activation := activation }))
  | .setDevAddr devAddr => some (.success, { s with mac := { s.mac with devAddr := devAddr } })
  | .mib known => some (if known then .success else .einval, s)
  | .reset => some (.success, reset s)

/-- The transaction of a request. -/
def Request.transaction : Request → Option Transaction
  | .mcps _ _ _ pkt _ => some (.mcps pkt)
  | .join _ _ => some .join
  | _ => none

/-- The busy flag, the state and the pending frame are the same. -/
def unchanged (s s' : State) : Bool :=
  s'.busy = s.busy && s'.state = s.state && s'.msdu = s.msdu && s'.mhdrMic = s.mhdrMic

/-- What is noted of a request. -/
def noted (s : State) (r : Request) : Status × State → State
  | (.deferred, s') => { s' with deferred := s'.deferred ++ r.transaction.toList }
  | (.success, s') => s'
  | (_, s') => { s' with clean := s'.clean && unchanged s s' }

def request (s : State) (r : Request) : Option State := (requestStatus cfg s r).map (noted s r)

/-- What a callback requests. -/
def requests : State → List Request → Option State
  | s, [] => some s
  | s, r :: rs => (request cfg s r).bind fun s => requests s rs

def endOfTx (cb : Callbacks) (s : State) : Option State :=
  let s := macRelease { s with mac := { s.mac with waitingForAck := false, fcnt := s.mac.fcnt + 1 } }
  (if s.linkCheckReq then requests cfg { s with linkCheckReq := false } cb.linkCheckTimeout else some s).bind fun s =>
  requests cfg { s with msdu := none, confirmed := s.confirmed ++ [.mcps s.msdu] } cb.confirm

def handleRetransmissions (cb : Callbacks) (s : State) : Option State :=
  if s.nbTrials = 0 then endOfTx cfg cb { s with nbTrials := s.nbTrials - 1 }
  else some { s with nbTrials := s.nbTrials - 1, timer := true }

/-- The confirmation of a Join Request. -/
def joinConfirm (cb : Callbacks) (s : State) : Option State :=
  requests cfg { macRelease s with confirmed := s.confirmed ++ [.join] } cb.confirm

def eventNoRx (cb : Callbacks) (s : State) : Option State :=
  if s.activation = .none then joinConfirm cfg cb s else handleRetransmissions cfg cb s

def mlmeLinkCheckAns (s : State) (rs : List Request) : Option State :=
  (requests cfg s rs).map fun s => { s with linkCheckReq := false }

/-- The loop of `gnrc_lorawan_process_fopts`: `ret` grows. `fuel` is enough for frames of less than 256
bytes. -/
def processFoptsLoop (fopts : List UInt8) : Nat → Nat → Nat → List (List Request) → State → Option State
  | 0, _, _, _, s => some s
  | fuel + 1, pos, ret, cbs, s =>
    if fopts.length ≤ pos then some s
    else if byte fopts pos = 0x02 then
      let ret := (ret + 3) % 256
      if fopts.length < pos + ret then some s
      else (mlmeLinkCheckAns cfg s (cbs.headD [])).bind fun s =>
        processFoptsLoop fopts fuel ((pos + ret) % 256) ret cbs.tail s
    else if byte fopts pos = 0x0B then
      let ret := (ret + 2) % 256
      if fopts.length < pos + ret then some s
      else
        processFoptsLoop fopts fuel ((pos + ret) % 256) ret cbs
          (if byte fopts (pos + 1) ≤ 1 then { s with rekeyIndReq := false } else s)
    else some s

def processFopts (cb : Callbacks) (fopts : List UInt8) (s : State) : Option State :=
  processFoptsLoop cfg fopts fopts.length 0 0 cb.linkCheckAns s

/-- What `gnrc_lorawan_mcps_process_downlink` calls. -/
def handleOutput (cb : Callbacks) (s : State) : Output → Option State
  | .noRx => eventNoRx cfg cb s
  | .fopts bytes => processFopts cfg cb bytes s
  | .endOfTx => endOfTx cfg cb s
  | .scheduleUplink => some s
  | .indication _ _ _ => some s

def processDownlink (cb : Callbacks) (s : State) (psdu : List UInt8) : Option State :=
  (mcpsProcessDownlink cfg.cfg s.mac psdu).2.foldlM (handleOutput cfg cb)
    { s with mac := (mcpsProcessDownlink cfg.cfg s.mac psdu).1 }

def joinAcceptMaxSize : Nat := 33

def cflistSize : Nat := 16

def mlmeProcessJoin (cb : Callbacks) (s : State) (psdu : List UInt8) : Option State :=
  if s.activation ≠ .none ∨ psdu.length ≠ joinAcceptMaxSize - cflistSize ∧ psdu.length ≠ joinAcceptMaxSize then
    joinConfirm cfg cb s
  else
    let accept := cfg.joinAccept s.mac s.devNonce psdu
    let s := { s with mac := { accept.1 with waitingForAck := s.mac.waitingForAck } }
    if accept.2 then
      joinConfirm cfg cb { s with
        activation := .otaa
        rekeyIndReq := s.rekeyIndReq || cfg.cfg.lorawan11 && s.mac.optneg }
    else joinConfirm cfg cb s

def openRxWindow (s : State) : State := { s with timer := s.timer || s.state = .rx1, radio := .rx }

def timeoutCb (s : State) (toa : Nat) : Option State :=
  match s.state with
  | .rx1 => some (openRxWindow s)
  | .rx2 => some (openRxWindow s)
  | .join => some (sendPkt s toa)
  | .idle => transmitPkt s toa
  | .tx => none

def radioTxDoneCb (s : State) : State := { s with state := .rx1, timer := true, radio := .sleep }

def radioRxTimeoutCb (cb : Callbacks) (s : State) : Option State :=
  match s.state with
  | .rx1 => some { s with state := .rx2, radio := .sleep }
  | .rx2 => (eventNoRx cfg cb s).map fun s => { s with state := .idle, radio := .sleep }
  | _ => none

/-- The type of a frame: a Join Accept, a downlink, or none of both. -/
inductive FrameType where
  | joinAccept
  | downlink
  | other
deriving DecidableEq

def frameType (psdu : List UInt8) : FrameType :=
  if hdrMtype psdu = 1 then .joinAccept
  else if hdrMtype psdu = 3 ∨ hdrMtype psdu = mtypeCnfDownlink then .downlink
  else .other

def radioRxDoneCb (cb : Callbacks) (s : State) (psdu : List UInt8) : Option State :=
  let s := { s with state := .idle, timer := false, radio := .sleep }
  match frameType psdu with
  | .joinAccept => mlmeProcessJoin cfg cb s psdu
  | .downlink => processDownlink cfg cb s psdu
  | .other => some s

inductive Event where
  | request (r : Request)
  | timeout (toa : Nat)
  | txDone
  | rxTimeout (cb : Callbacks)
  | rxDone (cb : Callbacks) (psdu : List UInt8)
  | backoffExpire

/-- What the timer and the radio can produce. -/
def Enabled (s : State) : Event → Prop
  | .request _ => True
  | .timeout _ => s.timer = true
  | .txDone => s.radio = .tx
  | .rxTimeout _ => s.radio = .rx
  | .rxDone _ _ => s.radio = .rx
  | .backoffExpire => True

instance (s : State) (e : Event) : Decidable (Enabled s e) := by
  cases e <;> unfold Enabled <;> infer_instance

/-- What is called for an event. -/
def handle (s : State) : Event → Option State
  | .request r => request cfg s r
  | .timeout toa => timeoutCb { s with timer := false } toa
  | .txDone => some (radioTxDoneCb s)
  | .rxTimeout cb => radioRxTimeoutCb cfg cb s
  | .rxDone cb psdu => radioRxDoneCb cfg cb s psdu
  | .backoffExpire => some (mlmeBackoffExpire s)

def step (s : State) (e : Event) : Option State := if Enabled s e then handle cfg s e else none

end Riot.Lorawan.Transactions
