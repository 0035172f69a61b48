import Mathlib.Data.Fintype.Basic

/-!
# Observe registrations

The tables of `gcoap.c` that keep who observes which resource, and what requests, resets and
notifications do with them. A pointer into a table is an index, `NULL` is `none`, and an
endpoint whose family is `AF_UNSPEC` is a free entry. `none` as the result of a function is
an access through `NULL`.
-/

namespace Riot.Gcoap

open Function

/-- The address of an endpoint, with its family. -/
inductive Addr where
  | ipv4 (addr : BitVec 32)
  | ipv6 (addr : BitVec 128)
  deriving DecidableEq

/-- `sock_udp_ep_t`, of a family other than `AF_UNSPEC`. -/
structure Endpoint where
  addr : Addr
  netif : BitVec 16
  port : BitVec 16
  deriving DecidableEq

/-- `sock_udp_ep_equal`: the interface is not compared. -/
def Endpoint.equal (a b : Endpoint) : Bool :=
  decide (a.port = b.port) && decide (a.addr = b.addr)

/-- `gcoap_socket_type_t` of a socket. -/
inductive SocketType where
  | udp
  | dtls
  deriving DecidableEq

variable {C N K : Nat} {R : Type}

/-- `gcoap_observe_memo_t`; the token has `token_len` bytes. -/
structure ObserveMemo (C N : Nat) (R : Type) where
  observer : Option (Fin C)
  notifier : Option (Fin N)
  resource : Option R
  token : List UInt8
  lastMsgid : BitVec 16
  socket : SocketType

/-- `observers`, `notifiers` and `observe_memos` of `gcoap_state_t`. -/
structure ObserveState (C N K : Nat) (R : Type) where
  observers : Fin C → Option Endpoint
  notifiers : Fin N → Option Endpoint
  memos : Fin K → ObserveMemo C N R

/-- What `_handle_req` reads of a request for an existing resource: the value of its Observe
option (`UINT32_MAX` without one), and the local endpoint of `aux`. -/
structure ObserveRequest (R : Type) where
  socket : SocketType
  remote : Endpoint
  aux : Option Endpoint
  token : List UInt8
  observe : BitVec 32
  resource : R

def obsRegister : BitVec 32 := 0

def obsDeregister : BitVec 32 := 1

/-- The value of `observe_value` without the option. -/
def observeCleared : BitVec 32 := 0xFFFFFFFF

def ObserveState.setMemo (st : ObserveState C N K R) (m : Fin K) (memo : ObserveMemo C N R) :
    ObserveState C N K R :=
  { st with memos := update st.memos m memo }

/-- The loop of `_find_endpoint`: the entry found and the free entry seen last. -/
def findEndpointLoop {c : Nat} (table : Fin c → Option Endpoint) (ep : Option Endpoint) :
    List (Fin c) → Option (Fin c) → Option (Option (Fin c) × Option (Fin c))
  | [], emptySlot => some (none, emptySlot)
  | i :: is, emptySlot =>
    match table i, ep with
    | none, _ => findEndpointLoop table ep is (some i)
    | some _, none => none
    | some entry, some ep' =>
      if entry.equal ep' then some (some i, emptySlot) else findEndpointLoop table ep is emptySlot

def findEndpoint {c : Nat} (table : Fin c → Option Endpoint) (ep : Option Endpoint) :
    Option (Option (Fin c) × Option (Fin c)) :=
  findEndpointLoop table ep (List.finRange c) none

/-- The entry `_find_endpoint` finds for an endpoint. -/
def lookupEndpoint {c : Nat} (table : Fin c → Option Endpoint) (ep : Endpoint) : Option (Fin c) :=
  (findEndpoint table (some ep)).bind Prod.fst

/-- The loop of `_find_obs_memo`: the memo found and the free memo seen last. -/
def findObsMemoLoop (st : ObserveState C N K R) (remoteObserver : Option (Fin C))
    (localNotifier : Option (Fin N)) (token : Option (List UInt8)) :
    List (Fin K) → Option (Fin K) → Option (Fin K) × Option (Fin K)
  | [], emptySlot => (none, emptySlot)
  | i :: is, emptySlot =>
    let memo := st.memos i
    if memo.observer = none then findObsMemoLoop st remoteObserver localNotifier token is (some i)
    else if (memo.observer = remoteObserver ∨ remoteObserver = none) ∧
        (memo.notifier = localNotifier ∨ localNotifier = none) then
      match token with
      | none => (some i, emptySlot)
      | some token' =>
        if memo.token.length = token'.length ∧ memo.token ≠ [] ∧ memo.token = token' then
          (some i, emptySlot)
        else findObsMemoLoop st remoteObserver localNotifier token is emptySlot
    else findObsMemoLoop st remoteObserver localNotifier token is emptySlot

/-- `_find_obs_memo`: an endpoint that is not in its table matches like `NULL`, any. -/
def findObsMemo (st : ObserveState C N K R) (remote localEp : Option Endpoint)
    (token : Option (List UInt8)) : Option (Fin K) × Option (Fin K) :=
  let remoteObserver := remote.bind (lookupEndpoint st.observers)
  let localNotifier := localEp.bind (lookupEndpoint st.notifiers)
  findObsMemoLoop st remoteObserver localNotifier token (List.finRange K) none

def findObsMemoResource [DecidableEq R] (st : ObserveState C N K R) (resource : R) :
    Option (Fin K) :=
  (List.finRange K).find? fun i =>
    (st.memos i).observer.isSome && decide ((st.memos i).resource = some resource)

/-- `memo->notifier->family = AF_UNSPEC` unless another memo has the notifier. -/
def ObserveState.freeNotifier (st : ObserveState C N K R) (notifier : Option (Fin N)) :
    Option (ObserveState C N K R) :=
  match (findObsMemo st none (notifier.bind st.notifiers) none).1, notifier with
  | some _, _ => some st
  | none, none => none
  | none, some notifier => some { st with notifiers := update st.notifiers notifier none }

variable [DecidableEq R]

/-- The memo to be used for a registration, and whether the Observe option is kept: of
`_handle_req` the part that validates a re-registration. -/
def ObserveState.validate (st : ObserveState C N K R) (req : ObserveRequest R)
    (memo resourceMemo : Option (Fin K)) : Option (Fin K) × Bool :=
  match resourceMemo with
  | none => (memo, true)
  | some rm =>
    match memo with
    | some m => if m ≠ rm then (none, false) else (some m, true)
    | none =>
      -- accept new token for resource
      if req.socket = (st.memos rm).socket ∧ ∃ e ∈ (st.memos rm).observer.bind st.observers,
          req.remote.equal e then (some rm, true)
      else (none, true)

/-- A new registration: the part of `_handle_req` that takes entries of the three tables. -/
def ObserveState.allocate (st : ObserveState C N K R) (req : ObserveRequest R) (slot : Fin K) :
    Option (ObserveState C N K R × Option (Fin K)) :=
  (findEndpoint st.observers (some req.remote)).bind fun (observer, observerSlot) =>
  (findEndpoint st.notifiers req.aux).bind fun (notifier, notifierSlot) =>
    match observer <|> observerSlot, notifier <|> notifierSlot, req.aux with
    | some observer, some notifier, some aux =>
      let st := { st with
        observers := update st.observers observer (some req.remote)
        notifiers := update st.notifiers notifier (some aux) }
      some (st.setMemo slot { st.memos slot with
        observer := some observer, notifier := some notifier }, some slot)
    | some _, some _, none => none
    | _, _, _ => some (st, none)

/-- The branch of `_handle_req` for `COAP_OBS_REGISTER`: the tables, and the Observe value that
is left for the response. -/
def ObserveState.register (st : ObserveState C N K R) (req : ObserveRequest R) :
    Option (ObserveState C N K R × BitVec 32) :=
  let resourceMemo := findObsMemoResource st req.resource
  let (memo, emptySlot) := findObsMemo st (some req.remote) none (some req.token)
  let (memo, keep) := st.validate req memo resourceMemo
  let allocated : Option (ObserveState C N K R × Option (Fin K)) :=
    match memo, emptySlot, resourceMemo with
    | none, some slot, none => if keep then st.allocate req slot else some (st, none)
    | memo, _, _ => some (st, memo)
  allocated.map fun (st, memo) =>
    match memo with
    | none => (st, observeCleared)
    | some m =>
      (st.setMemo m { st.memos m with
        resource := some req.resource, token := req.token, socket := req.socket }, req.observe)

/-- The branch of `_handle_req` for `COAP_OBS_DEREGISTER`. -/
def ObserveState.deregister (st : ObserveState C N K R) (req : ObserveRequest R) :
    Option (ObserveState C N K R) :=
  match (findObsMemo st (some req.remote) none (some req.token)).1 with
  | none => some st
  | some m =>
    let notifier := (st.memos m).notifier
    let st := st.setMemo m { st.memos m with observer := none }
    let st :=
      match (findObsMemo st (some req.remote) none none).1, lookupEndpoint st.observers req.remote with
      | none, some observer => { st with observers := update st.observers observer none }
      | _, _ => st
    (st.freeNotifier notifier).map fun st => st.setMemo m { st.memos m with notifier := none }

/-- What `_handle_req` does about Observe before it calls the handler of the resource: the
tables, and the Observe value then, or nothing for a bogus request, which returns -1. -/
def ObserveState.handleReq (st : ObserveState C N K R) (req : ObserveRequest R) :
    Option (ObserveState C N K R × Option (BitVec 32)) :=
  if req.observe = obsRegister then (st.register req).map fun (st, observe) => (st, some observe)
  else if req.observe = obsDeregister then
    (st.deregister req).map fun st => (st, some observeCleared)
  else if req.observe ≠ observeCleared then some (st, none)
  else some (st, some req.observe)

/-- `_check_and_expire_obs_memo_last_mid`, for a reset message. -/
def ObserveState.expireLastMid (st : ObserveState C N K R) (remote : Endpoint)
    (lastNotifyMid : BitVec 16) : Option (ObserveState C N K R) :=
  match lookupEndpoint st.observers remote with
  | none => some st
  | some observer =>
    let stale := (List.finRange K).find? fun i =>
      decide ((st.memos i).observer = some observer) && decide (lastNotifyMid = (st.memos i).lastMsgid)
    match stale with
    | none => some st
    | some m =>
      let notifier := (st.memos m).notifier
      let st := st.setMemo m { st.memos m with observer := none }
      (st.freeNotifier notifier).map fun st =>
        let st := st.setMemo m { st.memos m with notifier := none }
        -- observer is the entry that was found above
        match (findObsMemo st (st.observers observer) none none).1 with
        | none => { st with observers := update st.observers observer none }
        | some _ => st

/-- `gcoap_obs_init`: the message ID of the next notification for a resource. -/
def ObserveState.obsInit (st : ObserveState C N K R) (resource : R) (msgid : BitVec 16) :
    ObserveState C N K R :=
  match findObsMemoResource st resource with
  | none => st
  | some m => st.setMemo m { st.memos m with lastMsgid := msgid }

/-- What happens to the tables. -/
inductive ObserveEvent (R : Type) where
  | request (req : ObserveRequest R)
  | reset (remote : Endpoint) (mid : BitVec 16)
  | notify (resource : R) (msgid : BitVec 16)

def ObserveState.step (st : ObserveState C N K R) : ObserveEvent R → Option (ObserveState C N K R)
  | .request req => (st.handleReq req).map Prod.fst
  | .reset remote mid => st.expireLastMid remote mid
  | .notify resource msgid => some (st.obsInit resource msgid)

/-- The tables are empty. -/
def ObserveState.init : ObserveState C N K R where
  observers _ := none
  notifiers _ := none
  memos _ := ⟨none, none, none, [], 0, .udp⟩

end Riot.Gcoap
