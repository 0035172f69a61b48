import Riot.Crypto.Cipher

/-!
# IEEE 802.15.4 security (`sys/net/link_layer/ieee802154/security.c`)

Frames are encrypted and authenticated by CCM*: cipher block chaining over a first block `B_0`, the
headers and the payload, and a key stream from the encrypted counter blocks `A_i`. The block cipher,
with the key in it, is a parameter. A frame that was received is the list of its bytes, and an access
outside of it a failure.
-/

namespace Riot.Ieee802154

open Riot.Lib Riot.Crypto

/-- `ieee802154_sec_scf_seclevel_t` -/
inductive SecLevel where
  | none
  | mic32
  | mic64
  | mic128
  | enc
  | encMic32
  | encMic64
  | encMic128
deriving DecidableEq

/-- `ieee802154_sec_scf_keymode_t` -/
inductive KeyMode where
  | implicit
  | index
  | shortIndex
  | hwIndex
deriving DecidableEq

/-- The values of the levels. -/
def SecLevel.code : SecLevel → UInt8
  | none => 0
  | mic32 => 1
  | mic64 => 2
  | mic128 => 3
  | enc => 4
  | encMic32 => 5
  | encMic64 => 6
  | encMic128 => 7

def KeyMode.code : KeyMode → UInt8
  | implicit => 0
  | index => 1
  | shortIndex => 2
  | hwIndex => 3

/-- `ieee802154_sec_context_t`, but the cipher -/
structure SecContext where
  securityLevel : SecLevel
  keyIdMode : KeyMode
  keyIndex : UInt8
  keySource : Vector UInt8 8
  frameCounter : UInt32

def getSecLevel (scf : UInt8) : SecLevel :=
  match (scf &&& 0x07).toNat with
  | 0 => .none
  | 1 => .mic32
  | 2 => .mic64
  | 3 => .mic128
  | 4 => .enc
  | 5 => .encMic32
  | 6 => .encMic64
  | _ => .encMic128

def getKeyIdMode (scf : UInt8) : KeyMode :=
  match ((scf &&& 0x18) >>> 3).toNat with
  | 0 => .implicit
  | 1 => .index
  | 2 => .shortIndex
  | _ => .hwIndex

def macSize : SecLevel → Nat
  | .mic32 | .encMic32 => 4
  | .mic64 | .encMic64 => 8
  | .mic128 | .encMic128 => 16
  | _ => 0

def reqMac : SecLevel → Bool
  | .none | .enc => false
  | _ => true

def reqEncryption : SecLevel → Bool
  | .enc | .encMic32 | .encMic64 | .encMic128 => true
  | _ => false

def scf (secLevel : SecLevel) (keyMode : KeyMode) : UInt8 := secLevel.code <<< 0 ||| keyMode.code <<< 3

def getAuxHdrSize (securityLevel : SecLevel) (keyMode : KeyMode) : Nat :=
  if securityLevel = .none then 0
  else
    match keyMode with
    | .implicit => 5
    | .index => 6
    | .shortIndex => 10
    | .hwIndex => 14

/-- A number of 32 bits, least significant byte first. -/
def littleEndian (v : UInt32) : List UInt8 := (toBytes 4 v.toNat).reverse

/-- `_set_aux_hdr`: the bytes of the auxiliary header. -/
def setAuxHdr (ctx : SecContext) : List UInt8 :=
  scf ctx.securityLevel ctx.keyIdMode :: (littleEndian ctx.frameCounter ++
    match ctx.keyIdMode with
    | .implicit => []
    | .index => [ctx.keyIndex]
    | .shortIndex => ctx.keySource.toList.take 4 ++ [ctx.keyIndex]
    | .hwIndex => ctx.keySource.toList ++ [ctx.keyIndex])

/-! ## The blocks -/

/-- `_ccm_flag`; its comment lays the flags out with `(M - 2) / 2` in the bits 3 to 5. -/
def ccmFlag (M L : UInt8) : UInt8 := (if 4 ≤ M then (1 : UInt8) <<< 6 ||| (M - 2) / 2 else 0) ||| (L - 1)

/-- `ieee802154_sec_ccm_block_t` -/
structure CcmBlock where
  flags : UInt8
  srcAddr : Vector UInt8 8
  frameCounter : UInt32
  securityLevel : UInt8
  counter : UInt16

/-- The bytes of the block. -/
def CcmBlock.bytes (b : CcmBlock) : Block16 :=
  Block.ofList 16 (b.flags :: (b.srcAddr.toList ++ toBytes 4 b.frameCounter.toNat ++ [b.securityLevel] ++
    toBytes 2 b.counter.toNat))

def initCtrA0 (frameCounter : UInt32) (securityLevel : SecLevel) (srcAddress : Vector UInt8 8) : CcmBlock :=
  ⟨ccmFlag 0 2, srcAddress, frameCounter, securityLevel.code, 0⟩

def advanceCtrAi (Ai : CcmBlock) : CcmBlock := { Ai with counter := Ai.counter + 1 }

def initCbcB0 (frameCounter : UInt32) (securityLevel : SecLevel) (mLen : UInt16) (micSize : UInt8)
    (srcAddress : Vector UInt8 8) : CcmBlock :=
  ⟨ccmFlag micSize 2, srcAddress, frameCounter, securityLevel.code, mLen⟩

/-! ## The modes -/

variable (encrypt : Block16 → Block16)

/-- `_ecb`: of the first block of `data`, or of what there is. -/
def ecb (data : List UInt8) (Ai : CcmBlock) : List UInt8 :=
  ((Block.ofList 16 (data.take 16)).xor (encrypt Ai.bytes)).toList.take (min 16 data.length)

/-- `_cbc_next`: what `last` becomes, of the first block of `next`. -/
def cbcNext (last : Block16) (next : List UInt8) : Block16 := encrypt (last.xor (Block.ofList 16 (next.take 16)))

/-- A loop of `_comp_mic`, over the bytes that are left. -/
def compMicLoop : Nat → Block16 → List UInt8 → Block16
  | 0, mic, _ => mic
  | fuel + 1, mic, rest => if rest = [] then mic else compMicLoop fuel (cbcNext encrypt mic rest) (rest.drop 16)

def compMic (B0 : CcmBlock) (a m : List UInt8) : Block16 :=
  let mic := cbcNext encrypt (Block.zero 16) B0.bytes.toList
  let mic := cbcNext encrypt mic (toBytes 2 a.length ++ a.take 14)
  let mic := compMicLoop encrypt a.length mic (a.drop 14)
  compMicLoop encrypt m.length mic m

/-- The loop of `_ctr`, over the bytes that are left: what they become. -/
def ctrFrom : Nat → CcmBlock → List UInt8 → List UInt8
  | 0, _, _ => []
  | fuel + 1, A, rest =>
    if rest = [] then []
    else ecb encrypt rest (advanceCtrAi A) ++ ctrFrom fuel (advanceCtrAi A) (rest.drop 16)

def ctr (A0 : CcmBlock) (m : List UInt8) : List UInt8 := ctrFrom encrypt m.length A0 m

def ctrMic (A0 : CcmBlock) (mic : List UInt8) : List UInt8 := ecb encrypt mic A0

/-! ## Frames -/

inductive SecError where
  | frameCounterOverflow
  | macCheckFailure
deriving DecidableEq

/-- What `ieee802154_sec_encrypt_frame` leaves: the header with the auxiliary header behind it, its
size as an eight-bit number, the payload, the MIC and the context. -/
structure Encrypted where
  header : List UInt8
  headerSize : UInt8
  payload : List UInt8
  mic : List UInt8
  ctx : SecContext

def secEncryptFrame (ctx : SecContext) (header payload : List UInt8) (srcAddress : Vector UInt8 8) :
    Except Fault (Except SecError Encrypted) :=
  match header with
  | [] => .error .outOfBounds
  | fcf :: _ =>
    if fcf &&& 0x01 = 0 then .error .assertion
    else if ctx.securityLevel = .none then
      .ok (.ok ⟨header, UInt8.ofNat header.length, payload, [], ctx⟩)
    else if ctx.frameCounter = 0xFFFFFFFF then .ok (.error .frameCounterOverflow)
    else
      let auxSize := getAuxHdrSize ctx.securityLevel ctx.keyIdMode
      let a := header ++ setAuxHdr ctx
      let A0 := initCtrA0 ctx.frameCounter ctx.securityLevel srcAddress
      let mic :=
        if reqMac ctx.securityLevel then
          let B0 := initCbcB0 ctx.frameCounter ctx.securityLevel (UInt16.ofNat payload.length)
            (UInt8.ofNat (macSize ctx.securityLevel)) srcAddress
          ctrMic encrypt A0 ((compMic encrypt B0 a payload).toList.take (macSize ctx.securityLevel))
        else []
      let payload := if reqEncryption ctx.securityLevel then ctr encrypt A0 payload else payload
      .ok (.ok {
        header := a
        headerSize := UInt8.ofNat (header.length + auxSize)
        payload := payload
        mic := mic
        ctx := { ctx with frameCounter := ctx.frameCounter + 1 } })

/-- What `ieee802154_sec_decrypt_frame` leaves: the frame, and where in it the payload is. -/
structure Decrypted where
  frame : List UInt8
  payload : Nat
  payloadSize : Nat
  micSize : Nat
  headerSize : UInt8

/-- `ieee802154_sec_decrypt_frame`, from the check of the level on. Where the MIC would begin in front
of the frame, the first access to it fails. -/
def decryptSecured (frame : List UInt8) (headerSize : Nat) (srcAddress : Vector UInt8 8) (securityLevel : SecLevel)
    (auxSize : Nat) (frameCounter : UInt32) : Except Fault (Except SecError Decrypted) :=
  if securityLevel = .none then
    .ok (.ok ⟨frame, headerSize, frame.length - headerSize, 0, UInt8.ofNat headerSize⟩)
  else
  let micSize := macSize securityLevel
  let payloadSize := (frame.length + 2 ^ 16 - (headerSize + auxSize + micSize)) % 2 ^ 16
  let payload := headerSize + auxSize
  let A0 := initCtrA0 frameCounter securityLevel srcAddress
  if frame.length < micSize then .error .outOfBounds
  else
  (read frame (frame.length - micSize) micSize).bind fun mac =>
  (write frame (frame.length - micSize) (ctrMic encrypt A0 mac)).bind fun frame =>
  (read frame payload payloadSize).bind fun c =>
  (write frame payload (if reqEncryption securityLevel then ctr encrypt A0 c else c)).bind fun frame =>
  if reqMac securityLevel then
    (read frame 0 payload).bind fun a =>
    (read frame payload payloadSize).bind fun c =>
    (read frame (frame.length - micSize) micSize).bind fun mac =>
    let B0 := initCbcB0 frameCounter securityLevel (UInt16.ofNat payloadSize) (UInt8.ofNat micSize) srcAddress
    if mac ≠ (compMic encrypt B0 a c).toList.take micSize then .ok (.error .macCheckFailure)
    else .ok (.ok ⟨frame, payload, payloadSize, micSize, UInt8.ofNat (headerSize + auxSize)⟩)
  else .ok (.ok ⟨frame, payload, payloadSize, micSize, UInt8.ofNat (headerSize + auxSize)⟩)

def secDecryptFrame (frame : List UInt8) (headerSize : Nat) (srcAddress : Vector UInt8 8) :
    Except Fault (Except SecError Decrypted) :=
  (read frame 0 1).bind fun fcf =>
  if fcf.headD 0 &&& 0x01 = 0 then .error .assertion
  else
  (read frame headerSize 5).bind fun aux =>
  let securityLevel := getSecLevel (aux.headD 0)
  decryptSecured encrypt frame headerSize srcAddress securityLevel
    (getAuxHdrSize securityLevel (getKeyIdMode (aux.headD 0))) (UInt32.ofNat (ofBytes aux.tail.reverse))

/-! ## What the standard wants

CCM* of the data that is authenticated alone and the message that is encrypted too: the payload is
the message of the levels with encryption, and otherwise comes behind the headers. -/

/-- The length of the data, in front of it. -/
def stdLength (n : Nat) : List UInt8 := if n < 0xff00 then toBytes 2 n else 0xff :: 0xfe :: toBytes 4 n

/-- The flags of `B_0`: there is data, `M` is in the bits 3 to 5 and `L`, which is 2, in the bits 0 to 2. -/
def stdFlags (M : Nat) : UInt8 := UInt8.ofNat (64 + 8 * ((M - 2) / 2) + (2 - 1))

def stdNonce (ctx : SecContext) (src : Vector UInt8 8) : List UInt8 :=
  src.toList ++ toBytes 4 ctx.frameCounter.toNat ++ [ctx.securityLevel.code]

def stdB0 (ctx : SecContext) (src : Vector UInt8 8) (len : Nat) : Block16 :=
  Block.ofList 16 (stdFlags (macSize ctx.securityLevel) :: (stdNonce ctx src ++ toBytes 2 len))

/-- `S_i`, the encryption of `A_i` -/
def stdStream (ctx : SecContext) (src : Vector UInt8 8) (i : Nat) : Block16 :=
  encrypt (Block.ofList 16 (UInt8.ofNat (2 - 1) :: (stdNonce ctx src ++ toBytes 2 i)))

/-- The tag of the data `a` and the message `m`. -/
def stdTag (ctx : SecContext) (src : Vector UInt8 8) (a m : List UInt8) : List UInt8 :=
  (chain encrypt (encrypt (stdB0 ctx src m.length)) (blocks 16 (stdLength a.length ++ a) ++ blocks 16 m)).toList.take
    (macSize ctx.securityLevel)

/-- The MIC of a frame, of which `a` are the headers. -/
def stdMic (ctx : SecContext) (src : Vector UInt8 8) (a payload : List UInt8) : List UInt8 :=
  xorBytes
    (if reqEncryption ctx.securityLevel then stdTag encrypt ctx src a payload else stdTag encrypt ctx src (a ++ payload) [])
    (stdStream encrypt ctx src 0).toList

/-- The payload as it is sent. -/
def stdPayload (ctx : SecContext) (src : Vector UInt8 8) (payload : List UInt8) : List UInt8 :=
  if reqEncryption ctx.securityLevel then
    xorBytes payload (keyStream (stdStream encrypt ctx src) 1 (blockCount 16 payload.length))
  else payload

/-- The MIC that `_comp_mic` and `_ctr_mic` make for the payload behind the headers `a`. -/
def micOf (level : SecLevel) (frameCounter : UInt32) (src : Vector UInt8 8) (a payload : List UInt8) : List UInt8 :=
  ctrMic encrypt (initCtrA0 frameCounter level src)
    ((compMic encrypt (initCbcB0 frameCounter level (UInt16.ofNat payload.length) (UInt8.ofNat (macSize level)) src) a
      payload).toList.take (macSize level))

/-- The security control field of a frame. -/
def scfOf (frame : List UInt8) (headerSize : Nat) : UInt8 := (frame.drop headerSize).headD 0

def frameCounterOf (frame : List UInt8) (headerSize : Nat) : UInt32 :=
  UInt32.ofNat (ofBytes ((frame.drop (headerSize + 1)).take 4).reverse)

/-- The size of the auxiliary header of a frame. -/
def auxSizeOf (frame : List UInt8) (headerSize : Nat) : Nat :=
  getAuxHdrSize (getSecLevel (scfOf frame headerSize)) (getKeyIdMode (scfOf frame headerSize))

/-- **What securing frames is for**, with every block cipher: the frame of a header and a payload is
secured as the standard says and takes one value of the frame counter, and what was put together is
taken apart again; of a frame that comes in, nothing outside is accessed, and with a MIC it is
accepted only if that is the one of the decrypted payload. -/
structure SecRight (ctx : SecContext) (header payload : List UInt8) (src : Vector UInt8 8) (frame : List UInt8)
    (headerSize : Nat) : Prop where
  encrypts : ∀ cipher : Equiv.Perm Block16,
    secEncryptFrame cipher ctx header payload src = .ok (.ok {
      header := header ++ setAuxHdr ctx
      headerSize := UInt8.ofNat (header ++ setAuxHdr ctx).length
      payload := stdPayload cipher ctx src payload
      mic := stdMic cipher ctx src (header ++ setAuxHdr ctx) payload
      ctx := { ctx with frameCounter := ctx.frameCounter + 1 } })
  restores : ∀ (cipher : Equiv.Perm Block16) (e : Encrypted), secEncryptFrame cipher ctx header payload src = .ok (.ok e) →
    (e.header ++ e.payload ++ e.mic).length < 2 ^ 16 →
    ∃ d, secDecryptFrame cipher (e.header ++ e.payload ++ e.mic) header.length src = .ok (.ok d) ∧
      (d.frame.drop d.payload).take d.payloadSize = payload
  inside : ∀ cipher : Equiv.Perm Block16, secDecryptFrame cipher frame headerSize src ≠ .error .outOfBounds
  authentic : ∀ (cipher : Equiv.Perm Block16) (d : Decrypted), secDecryptFrame cipher frame headerSize src = .ok (.ok d) →
    reqMac (getSecLevel (scfOf frame headerSize)) = true →
    frame.drop (frame.length - macSize (getSecLevel (scfOf frame headerSize))) =
      micOf cipher (getSecLevel (scfOf frame headerSize)) (frameCounterOf frame headerSize) src
        (frame.take (headerSize + auxSizeOf frame headerSize)) ((d.frame.drop d.payload).take d.payloadSize)

/-- The frame has in it what its security control field announces, if it gets so far. -/
def Complete (frame : List UInt8) (headerSize : Nat) : Prop :=
  frame ≠ [] ∧ (frame.headD 0 &&& 0x01 ≠ 0 → headerSize + 5 ≤ frame.length ∧
    (getSecLevel (scfOf frame headerSize) ≠ .none →
      headerSize + auxSizeOf frame headerSize + macSize (getSecLevel (scfOf frame headerSize)) ≤ frame.length))

end Riot.Ieee802154
