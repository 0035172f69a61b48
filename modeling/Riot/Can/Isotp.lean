import Riot.Lib.Runs
import Mathlib.Data.List.Basic

/-!
# ISO-TP channels

A channel (`struct isotp`) cuts messages of up to 4095 bytes into CAN frames and
puts received frames together again. Its thread takes one message at a time from
its queue: a frame to start sending, a received frame, the confirmation of a
frame handed to the driver, a timeout. The receiving half (`rx`) and the sending
half (`tx`) share the options only; each keeps its buffers in the packet buffer.

What lies outside the channel answers through `Env`: the packet buffer, the CAN
driver, the thread of the upper layer. Frames, indications and notifications are
recorded in the order they leave.
-/

namespace Riot.Can

open Function

abbrev Byte := BitVec 8

/-! ## Frames -/

/-- `CAN_MAX_DLEN`. -/
abbrev canMaxDlen : Nat := 8

/-- `can_frame_t`; the bytes from `len` on are whatever the memory held. -/
structure CanFrame where
  canId : BitVec 32
  len : Nat
  data : Vector Byte canMaxDlen
deriving DecidableEq

/-- `frame->data[i]`. -/
def CanFrame.byte (frame : CanFrame) (i : Nat) : Byte := (frame.data[i]?).getD 0

/-- `frame->data[i] = b`. -/
def CanFrame.setByte (frame : CanFrame) (i : Nat) (b : Byte) : CanFrame :=
  { frame with data := frame.data.setIfInBounds i b }

/-! ## The packet buffer -/

inductive Fault where
  /-- A snip is dereferenced that is `NULL` or was released. -/
  | badAccess
  /-- A byte outside `snip->data[0..snip->size)` is written or read. -/
  | outside (i size : Nat)
  /-- A snip is released that was released before. -/
  | badRelease (snip : Nat)
deriving DecidableEq

/-- The snips one half of a channel has in the packet buffer, numbered as they are allocated. -/
structure PktBuf where
  content : Nat → Option (List Byte)
  next : Nat
  faults : List Fault

namespace PktBuf

def empty : PktBuf := ⟨fun _ => none, 0, []⟩

/-- The snip can be dereferenced. -/
def Live (p : PktBuf) (snip : Nat) : Prop := (p.content snip).isSome

instance (p : PktBuf) (snip : Nat) : Decidable (p.Live snip) :=
  inferInstanceAs (Decidable ((p.content snip).isSome = true))

def fault (p : PktBuf) (f : Fault) : PktBuf := { p with faults := p.faults ++ [f] }

/-- `snip->data`, empty where there is none. -/
def data (p : PktBuf) (snip : Option Nat) : List Byte := (snip.bind p.content).getD []

/-- `snip->size`. -/
def size (p : PktBuf) (snip : Option Nat) : Nat := (p.data snip).length

/-- `snip` is dereferenced. -/
def deref (p : PktBuf) (snip : Option Nat) : PktBuf :=
  if (snip.bind p.content).isSome then p else p.fault .badAccess

/-- `gnrc_pktbuf_add(NULL, NULL, size, GNRC_NETTYPE_UNDEF)`, where there is room. -/
def add (p : PktBuf) (data : List Byte) : PktBuf :=
  { p with content := update p.content p.next (some data), next := p.next + 1 }

/-- `gnrc_pktbuf_release(snip)`; nothing happens for `NULL`. -/
def release (p : PktBuf) : Option Nat → PktBuf
  | none => p
  | some snip =>
    if p.Live snip then { p with content := update p.content snip none }
    else p.fault (.badRelease snip)

/-- `snip->data[i] = b`. -/
def write (p : PktBuf) (snip : Option Nat) (i : Nat) (b : Byte) : PktBuf :=
  match snip with
  | none => p.fault .badAccess
  | some n =>
    match p.content n with
    | none => p.fault .badAccess
    | some data =>
      if i < data.length then { p with content := update p.content n (some (data.set i b)) }
      else p.fault (.outside i data.length)

/-- `snip->data[i]`. -/
def read (p : PktBuf) (snip : Option Nat) (i : Nat) : Byte × PktBuf :=
  if i < p.size snip then ((p.data snip).getD i 0, p) else (0, p.fault (.outside i (p.size snip)))

end PktBuf

/-- What freshly allocated memory of the given size holds. -/
def freshData (memory : Nat → Byte) (size : Nat) : List Byte := (List.range size).map memory

/-! ## The channel -/

/-- `ISOTP_IDLE`, … -/
inductive TpState where
  | idle
  | waitFc
  | waitCf
  | sendingSf
  | sendingFf
  | sendingCf
  | sendingFc
  | sendingNextCf
deriving DecidableEq

/-- `struct tpcon`. -/
structure TpCon where
  idx : Nat
  state : TpState
  bs : Byte
  sn : Byte
  txHandle : Int
  snip : Option Nat

/-- `struct isotp_fc_options`. -/
structure FcOptions where
  bs : Byte
  stmin : Byte
  wftmax : Byte

/-- `struct isotp_options`. -/
structure Options where
  txId : BitVec 32
  flags : BitVec 16
  extAddress : Byte
  txpadContent : Byte
  rxExtAddress : Byte

/-- Messages `_isotp_dispatch_tx` sends to the upper layer. -/
inductive NoteType where
  | txConfirmation
  | txError
deriving DecidableEq

/-- The receiving half: `rx`, `rxfc` and `rx_timer`, with the snips handed to the upper layer and
not freed by it yet, the frames handed to the driver, and the indices of a frame that were read
at or after its end. -/
structure RxSide where
  con : TpCon
  fc : FcOptions
  timer : Option Nat
  mem : PktBuf
  indications : List Nat
  out : List CanFrame
  reads : List Nat

/-- The sending half: `tx`, `txfc`, `tx_gap`, `tx_wft` and `tx_timer`, with the number of
`CAN_MSG_SEND_FRAME` and `CAN_MSG_ISOTP_TX_TIMEOUT` messages in the queue of the thread. Of each
`isotp_send` that returned a length, `sends` has the snip and whether it asked for no
confirmation; of each notification, `notes` has the snip of the transfer and the type. -/
structure TxSide where
  con : TpCon
  fc : FcOptions
  gap : Nat
  wft : Byte
  timer : Option Nat
  mem : PktBuf
  posted : Nat
  fired : Nat
  sends : List (Nat × Bool)
  notes : List (Option Nat × NoteType)
  out : List CanFrame
  reads : List Nat

/-- `struct isotp`. -/
structure Isotp where
  opt : Options
  rx : RxSide
  tx : TxSide

/-- What the world answers while one message is handled: what `gnrc_pktbuf_add` finds in the
memory it allocates (`none`: there is no room), whether `can_pkt_alloc_rx_data` has room, whether
the upper layer takes an indication and a notification, what `raw_can_send` returns, and what the
memory of a `can_frame_t` on the stack holds. -/
structure Env where
  alloc : Option (Nat → Byte)
  rxData : Bool
  indTaken : Bool
  noteTaken : Bool
  send : Int
  uninit : Vector Byte canMaxDlen

def enomem : Int := 12
def ebusy : Int := 16
def eoverflow : Int := 75
def etimedout : Int := 110

/-- `CAN_ISOTP_TIMEOUT_N_As`, `_N_Bs`, `_N_Ar` and `_N_Cr`, in microseconds. -/
def timeoutNAs : Nat := 1000000
def timeoutNBs : Nat := 1000000
def timeoutNAr : Nat := 1000000
def timeoutNCr : Nat := 1000000

def maxMsgLength : Nat := 4095

def nPciSf : Byte := 0x00
def nPciFf : Byte := 0x10
def nPciCf : Byte := 0x20
def nPciFc : Byte := 0x30

abbrev nPciSz : Nat := 1
abbrev sfPciSz : Nat := 1
abbrev ffPciSz : Nat := 2
abbrev fcContentSz : Nat := 3

def fcCts : Byte := 0
def fcWt : Byte := 1
def fcOvflw : Byte := 2

/-- `isotp->opt.flags & CAN_ISOTP_LISTEN_MODE`. -/
def Options.listen (opt : Options) : Prop := opt.flags &&& 0x0001 ≠ 0

/-- `isotp->opt.flags & CAN_ISOTP_EXTEND_ADDR`. -/
def Options.extendAddr (opt : Options) : Prop := opt.flags &&& 0x0002 ≠ 0

/-- `isotp->opt.flags & CAN_ISOTP_TX_PADDING`. -/
def Options.txPadding (opt : Options) : Prop := opt.flags &&& 0x0004 ≠ 0

instance (opt : Options) : Decidable opt.listen := inferInstanceAs (Decidable (_ ≠ _))
instance (opt : Options) : Decidable opt.extendAddr := inferInstanceAs (Decidable (_ ≠ _))
instance (opt : Options) : Decidable opt.txPadding := inferInstanceAs (Decidable (_ ≠ _))

/-- The masks are wider than `opt.flags`. -/
def rxFlagsMask : BitVec 32 := 0x0000ffff
def txFlagsMask : BitVec 32 := 0xffff0000
def txDontWait : BitVec 32 := 0x00010000

/-- `ae`: the bytes the extended address takes in a frame. -/
def Options.ae (opt : Options) : Nat := if opt.extendAddr then 1 else 0

/-! ## Receiving -/

/-- `frame->data[i]` is read. -/
def RxSide.reading (r : RxSide) (frame : CanFrame) (i : Nat) : RxSide :=
  if i < frame.len then r else { r with reads := r.reads ++ [i] }

def TxSide.reading (t : TxSide) (frame : CanFrame) (i : Nat) : TxSide :=
  if i < frame.len then t else { t with reads := t.reads ++ [i] }

/-- `rx.snip->data[rx.idx++] = frame->data[i]`. -/
def RxSide.storeByte (r : RxSide) (frame : CanFrame) (i : Nat) : RxSide :=
  let r := r.reading frame i
  { r with mem := r.mem.write r.con.snip r.con.idx (frame.byte i), con.idx := r.con.idx + 1 }

/-- The copy loop of `_isotp_rcv_sf` and `_isotp_rcv_ff`, for `n` bytes from `i` on. -/
def RxSide.store (frame : CanFrame) : Nat → Nat → RxSide → RxSide
  | 0, _, r => r
  | n + 1, i, r => store frame n (i + 1) (r.storeByte frame i)

/-- The copy loop of `_isotp_rcv_cf`, which ends when the snip is full. -/
def RxSide.storeUntilFull (frame : CanFrame) : Nat → Nat → RxSide → RxSide
  | 0, _, r => r
  | n + 1, i, r =>
    let r := r.storeByte frame i
    if r.mem.size r.con.snip ≤ r.con.idx then r else storeUntilFull frame n (i + 1) r

def isotpDispatchRx (env : Env) (r : RxSide) : RxSide × Int :=
  let r := { r with mem := r.mem.deref r.con.snip }
  if env.rxData then
    if env.indTaken then
      ({ r with indications := r.indications ++ r.con.snip.toList, con.snip := none }, 0)
    else
      ({ r with mem := r.mem.release r.con.snip, con.snip := none }, -eoverflow)
  else
    (r, -enomem)

/-- The frame `_isotp_send_fc` builds. -/
def fcFrame (env : Env) (opt : Options) (fc : FcOptions) (ae : Nat) (status : Byte) : CanFrame :=
  let frame : CanFrame :=
    if opt.txPadding then ⟨opt.txId, canMaxDlen, Vector.replicate canMaxDlen opt.txpadContent⟩
    else ⟨opt.txId, ae + fcContentSz, env.uninit⟩
  let frame := frame.setByte ae (nPciFc ||| status)
  let frame := frame.setByte (ae + 1) fc.bs
  let frame := frame.setByte (ae + 2) fc.stmin
  if ae ≠ 0 then frame.setByte 0 opt.extAddress else frame

def isotpSendFc (env : Env) (opt : Options) (ae : Nat) (status : Byte) (r : RxSide) : RxSide × Int :=
  let r := { r with con.bs := 0, timer := some timeoutNAr, con.txHandle := env.send }
  if 0 ≤ env.send then
    ({ r with out := r.out ++ [fcFrame env opt r.fc ae status] }, 0)
  else
    ({ r with con.state := .idle, timer := none }, env.send)

def isotpRcvSf (env : Env) (frame : CanFrame) (ae : Nat) (r : RxSide) : RxSide × Int :=
  let r := { r with timer := none, con.state := .idle }
  let r := r.reading frame ae
  let len := (frame.byte ae &&& 0x0f).toNat
  if (frame.len : Int) - (sfPciSz + ae : Nat) < len then (r, 1) else
  match env.alloc with
  | none => (r, 1)
  | some memory =>
    let snip := r.mem.next
    let r := { r with mem := r.mem.add (freshData memory len) }
    let r := { r with con.snip := some snip, con.idx := 0 }
    isotpDispatchRx env (r.store frame (r.mem.size r.con.snip) (sfPciSz + ae))

def isotpRcvFf (env : Env) (opt : Options) (frame : CanFrame) (ae : Nat) (r : RxSide) :
    RxSide × Int :=
  let r := { r with con.state := .idle }
  let r := (r.reading frame ae).reading frame (ae + 1)
  let len := ((frame.byte ae &&& 0x0f).toNat <<< 8) + (frame.byte (ae + 1)).toNat
  let r := { r with mem := r.mem.release r.con.snip }
  if maxMsgLength < len then
    (if opt.listen then r else (isotpSendFc env opt ae fcOvflw r).1, 1)
  else
    match env.alloc with
    | none => (if opt.listen then r else (isotpSendFc env opt ae fcOvflw r).1, 1)
    | some memory =>
      let snip := r.mem.next
      let r := { r with mem := r.mem.add (freshData memory len) }
      let r := { r with con.snip := some snip, con.idx := 0 }
      let r := r.store frame (frame.len - (ae + ffPciSz)) (ae + ffPciSz)
      let r := { r with con.sn := 1 }
      if opt.listen then ({ r with con.state := .waitCf }, 0)
      else ((isotpSendFc env opt ae fcCts { r with con.state := .sendingFc }).1, 0)

def isotpRcvCf (env : Env) (opt : Options) (frame : CanFrame) (ae : Nat) (r : RxSide) :
    RxSide × Int :=
  if r.con.state ≠ .waitCf then (r, 1) else
  let r := { r with timer := none }
  let r := r.reading frame ae
  if frame.byte ae &&& 0x0f ≠ r.con.sn then
    ({ r with con.state := .idle, mem := r.mem.release r.con.snip, con.snip := none }, 1)
  else
  let r := { r with con.sn := (r.con.sn + 1) % 16 }
  let r := r.storeUntilFull frame (frame.len - (ae + nPciSz)) (ae + nPciSz)
  let r := { r with mem := r.mem.deref r.con.snip }
  if r.mem.size r.con.snip ≤ r.con.idx then
    isotpDispatchRx env { r with con.state := .idle }
  else if opt.listen then (r, 0)
  else if r.fc.bs = 0 then ({ r with timer := some timeoutNCr }, 0)
  else
    let r := { r with con.bs := r.con.bs + 1 }
    if r.con.bs < r.fc.bs then ({ r with timer := some timeoutNCr }, 0)
    else isotpSendFc env opt ae fcCts r

def isotpRxTimeoutTask (r : RxSide) : RxSide :=
  match r.con.state with
  | .sendingFc | .waitCf =>
    { r with mem := r.mem.release r.con.snip, con.snip := none, con.state := .idle }
  | _ => r

def isotpRxTxConf (r : RxSide) : RxSide :=
  let r := { r with timer := none, con.txHandle := 0 }
  match r.con.state with
  | .sendingFc => { r with con.state := .waitCf, timer := some timeoutNCr }
  | _ => r

/-! ## Sending -/

/-- `frame->data[i] = tx.snip->data[tx.idx++]` for `n` bytes from `i` on. -/
def TxSide.load : Nat → Nat → TxSide → CanFrame → TxSide × CanFrame
  | 0, _, t, frame => (t, frame)
  | n + 1, i, t, frame =>
    let byte := t.mem.read t.con.snip t.con.idx
    load n (i + 1) { t with mem := byte.2, con.idx := t.con.idx + 1 } (frame.setByte i byte.1)

def isotpDispatchTx (env : Env) (opt : Options) (err : Int) (t : TxSide) : TxSide × Int :=
  let snip := t.con.snip
  let t := { t with mem := t.mem.release t.con.snip, con.snip := none }
  if opt.flags.setWidth 32 &&& txDontWait ≠ 0 then (t, 0) else
  let type := if err = 0 then NoteType.txConfirmation else NoteType.txError
  if env.noteTaken then ({ t with notes := t.notes ++ [(snip, type)] }, 0) else (t, -eoverflow)

def isotpTxSend (env : Env) (opt : Options) (frame : CanFrame) (t : TxSide) : TxSide × Int :=
  let t := { t with timer := some timeoutNAs, con.txHandle := env.send }
  if env.send < 0 then
    isotpDispatchTx env opt env.send { t with timer := none, con.state := .idle }
  else ({ t with out := t.out ++ [frame] }, 0)

def isotpCreateFf (opt : Options) (frame : CanFrame) (ae : Nat) (t : TxSide) : TxSide × CanFrame :=
  let frame := { frame with canId := opt.txId, len := canMaxDlen }
  let frame := if ae ≠ 0 then frame.setByte 0 opt.extAddress else frame
  let t := { t with mem := t.mem.deref t.con.snip }
  let size := t.mem.size t.con.snip
  let frame := frame.setByte ae (BitVec.ofNat 8 (size / 256) ||| nPciFf)
  let frame := frame.setByte (ae + 1) (BitVec.ofNat 8 size &&& 0xff)
  let loaded := t.load (canMaxDlen - (ae + ffPciSz)) (ae + ffPciSz) frame
  ({ loaded.1 with con.sn := 1 }, loaded.2)

def isotpFillDataframe (opt : Options) (frame : CanFrame) (ae : Nat) (t : TxSide) :
    TxSide × CanFrame :=
  let pciLen := nPciSz + ae
  let space := canMaxDlen - pciLen
  let t := { t with mem := t.mem.deref t.con.snip }
  -- `size_t` has 32 bits, and the difference wraps where `tx.idx` has passed the size
  let numBytes := min space ((t.mem.size t.con.snip + 2 ^ 32 - t.con.idx) % 2 ^ 32)
  let frame := { frame with canId := opt.txId, len := numBytes + pciLen }
  let frame : CanFrame :=
    if numBytes < space ∧ opt.txPadding then
      { frame with len := canMaxDlen, data := Vector.replicate canMaxDlen opt.txpadContent }
    else frame
  let loaded := t.load numBytes pciLen frame
  (loaded.1, if ae ≠ 0 then loaded.2.setByte 0 opt.extAddress else loaded.2)

def isotpSendSfFf (env : Env) (opt : Options) (t : TxSide) : TxSide × Int :=
  let ae := opt.ae
  let frame : CanFrame := ⟨0, 0, env.uninit⟩
  let t := { t with mem := t.mem.deref t.con.snip }
  let size := t.mem.size t.con.snip
  if size ≤ canMaxDlen - sfPciSz - ae then
    let filled := isotpFillDataframe opt frame ae t
    let frame := filled.2.setByte ae nPciSf
    let frame := frame.setByte ae (frame.byte ae ||| BitVec.ofNat 8 size)
    isotpTxSend env opt frame { filled.1 with con.state := .sendingSf }
  else
    let created := isotpCreateFf opt frame ae { t with con.state := .sendingFf }
    isotpTxSend env opt created.2 created.1

def isotpRcvFc (env : Env) (opt : Options) (frame : CanFrame) (ae : Nat) (t : TxSide) :
    TxSide × Int :=
  if t.con.state ≠ .waitFc then (t, 0) else
  let t := { t with timer := none }
  if frame.len < ae + fcContentSz then ({ t with con.state := .idle }, 1) else
  let t := ((t.reading frame (ae + 1)).reading frame (ae + 2)).reading frame ae
  let stmin := frame.byte (ae + 2)
  let stmin := if 0x7f < stmin ∧ (stmin < 0xf1 ∨ 0xf9 < stmin) then 0x7f else stmin
  let t := { t with fc.bs := frame.byte (ae + 1), fc.stmin := stmin }
  let t := { t with gap := if stmin < 0x80 then stmin.toNat * 1000 else (stmin.toNat - 0xf0) * 100 }
  if frame.byte ae &&& 0xf = fcCts then
    ({ t with wft := 0, con.bs := 0, con.state := .sendingNextCf, timer := some t.gap }, 0)
  else if frame.byte ae &&& 0xf = fcWt then
    let wft := t.wft
    let t := { t with wft := wft + 1 }
    if t.fc.wftmax ≤ wft then
      ((isotpDispatchTx env opt etimedout { t with con.state := .idle }).1, 1)
    else ({ t with timer := some timeoutNBs }, 0)
  else
    ((isotpDispatchTx env opt eoverflow { t with con.state := .idle }).1, 0)

def isotpTxTimeoutTask (env : Env) (opt : Options) (t : TxSide) : TxSide :=
  let ae := opt.ae
  match t.con.state with
  | .waitFc => (isotpDispatchTx env opt etimedout { t with con.state := .idle }).1
  | .sendingNextCf =>
    let filled := isotpFillDataframe opt ⟨0, 0, env.uninit⟩ ae t
    let frame := filled.2.setByte ae (nPciCf ||| filled.1.con.sn)
    let t := { filled.1 with con.sn := (filled.1.con.sn + 1) % 16, con.bs := filled.1.con.bs + 1 }
    (isotpTxSend env opt frame { t with con.state := .sendingCf }).1
  | .sendingCf | .sendingFf | .sendingSf =>
    (isotpDispatchTx env opt etimedout { t with con.state := .idle }).1
  | _ => t

def isotpTxTxConf (env : Env) (opt : Options) (t : TxSide) : TxSide :=
  let t := { t with timer := none, con.txHandle := 0 }
  match t.con.state with
  | .sendingSf => (isotpDispatchTx env opt 0 { t with con.state := .idle }).1
  | .sendingFf => { t with con.state := .waitFc, timer := some timeoutNBs }
  | .sendingCf =>
    let t := { t with mem := t.mem.deref t.con.snip }
    if t.mem.size t.con.snip ≤ t.con.idx then
      (isotpDispatchTx env opt 0 { t with con.state := .idle }).1
    else if t.fc.bs ≠ 0 ∧ t.fc.bs ≤ t.con.bs then
      { t with con.state := .waitFc, timer := some timeoutNBs }
    else { t with con.state := .sendingNextCf, timer := some t.gap }
  | _ => t

/-- `isotp_send`, for a length from 1 to `MAX_MSG_LENGTH`, as its assertions demand. -/
def isotpSend (env : Env) (buf : List Byte) (flags : BitVec 32) (c : Isotp) : Isotp × Int :=
  if c.tx.con.state ≠ .idle then (c, -ebusy) else
  let opt :=
    if flags ≠ 0 then
      let kept : BitVec 16 := (c.opt.flags.setWidth 32 &&& rxFlagsMask).setWidth 16
      { c.opt with flags := (kept.setWidth 32 ||| (flags &&& txFlagsMask)).setWidth 16 }
    else c.opt
  match env.alloc with
  | none => ({ c with opt := opt }, -enomem)
  | some _ =>
    let snip := c.tx.mem.next
    let t := { c.tx with mem := c.tx.mem.add buf }
    let t := { t with con.snip := some snip, con.idx := 0, wft := 0, posted := t.posted + 1 }
    let t := { t with sends := t.sends ++ [(snip, decide (flags &&& txDontWait ≠ 0))] }
    ({ c with opt := opt, tx := t }, buf.length)

/-! ## The thread -/

def isotpRcv (env : Env) (frame : CanFrame) (c : Isotp) : Isotp × Int :=
  let ae := c.opt.ae
  let c := if ae ≠ 0 then { c with rx := c.rx.reading frame 0 } else c
  if ae ≠ 0 ∧ frame.byte 0 ≠ c.opt.rxExtAddress then (c, 1) else
  let c := { c with rx := c.rx.reading frame ae }
  let nPciType := frame.byte ae &&& 0xf0
  if nPciType = nPciFc then
    let done := isotpRcvFc env c.opt frame ae c.tx
    ({ c with tx := done.1 }, done.2)
  else if nPciType = nPciSf then
    let done := isotpRcvSf env frame ae c.rx
    ({ c with rx := done.1 }, done.2)
  else if nPciType = nPciFf then
    let done := isotpRcvFf env c.opt frame ae c.rx
    ({ c with rx := done.1 }, done.2)
  else if nPciType = nPciCf then
    let done := isotpRcvCf env c.opt frame ae c.rx
    ({ c with rx := done.1 }, done.2)
  else (c, 1)

/-- What happens to a channel: the upper layer calls `isotp_send` or `isotp_free_rx`, the timer of
the sending half expires, or the thread takes a message from its queue. -/
inductive Event where
  | send (buf : List Byte) (flags : BitVec 32)
  | freeRx (snip : Nat)
  | txTimer
  | sendFrame
  | rxIndication (frame : CanFrame)
  | txConfirmation (handle : Int)
  | rxTimeout
  | txTimeout

/-- One event. A frame has at most `CAN_MAX_DLEN` bytes and handles are positive; a receive timeout
may come at any time, a send timeout when the timer has expired. -/
def isotpStep (c : Isotp) : Env × Event → Option Isotp
  | (env, .send buf flags) =>
    if 0 < buf.length ∧ buf.length ≤ maxMsgLength then some (isotpSend env buf flags c).1 else none
  | (_, .freeRx snip) =>
    if snip ∈ c.rx.indications then
      let rx := { c.rx with indications := c.rx.indications.erase snip }
      some { c with rx := { rx with mem := rx.mem.release (some snip) } }
    else none
  | (_, .txTimer) =>
    if c.tx.timer.isSome then
      some { c with tx := { c.tx with timer := none, fired := c.tx.fired + 1 } }
    else none
  | (env, .sendFrame) =>
    if 0 < c.tx.posted then
      let t := { c.tx with posted := c.tx.posted - 1 }
      some { c with tx := (isotpSendSfFf env c.opt t).1 }
    else none
  | (env, .rxIndication frame) =>
    if frame.len ≤ canMaxDlen then some (isotpRcv env frame c).1 else none
  | (env, .txConfirmation handle) =>
    if handle < 1 then none
    else if c.tx.con.txHandle = handle then some { c with tx := isotpTxTxConf env c.opt c.tx }
    else if c.rx.con.txHandle = handle then some { c with rx := isotpRxTxConf c.rx }
    else some c
  | (_, .rxTimeout) => some { c with rx := isotpRxTimeoutTask c.rx }
  | (env, .txTimeout) =>
    if 0 < c.tx.fired then
      let t := { c.tx with fired := c.tx.fired - 1 }
      some { c with tx := isotpTxTimeoutTask env c.opt t }
    else none

/-- `memset(&isotp->rx, 0, sizeof(struct tpcon))`. -/
def TpCon.zero : TpCon := ⟨0, .idle, 0, 0, 0, none⟩

/-- `isotp_bind`, with the flow control options or, for `NULL`, the default ones. -/
def isotpBind (opt : Options) (fcOptions : Option FcOptions) : Isotp :=
  let fc := fcOptions.getD ⟨10, 5, 1⟩
  { opt := opt
    rx := ⟨.zero, ⟨fc.bs, fc.stmin, 0⟩, none, .empty, [], [], []⟩
    tx := ⟨.zero, ⟨0, 0, fc.wftmax⟩, 0, 0, none, .empty, 0, 0, [], [], [], []⟩ }

/-- Everything that is asked for is there. -/
def granted : Env := ⟨some fun _ => 0, true, true, true, 1, Vector.replicate canMaxDlen 0⟩

/-- Neither extended addressing nor padding. -/
def plainOptions : Options := ⟨0x700, 0, 0, 0xcc, 0⟩

end Riot.Can
