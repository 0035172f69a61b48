import Riot.Crypto.Cipher
import Riot.Lib.BitString
import Mathlib

/-!
# Offset codebook mode

`sys/crypto/modes/ocb.c`, and what RFC 7253 wants of it. Buffers are handed over with their
lengths; `sz` is the size of a `size_t` in bytes.
-/

namespace Riot.Crypto

open Riot.Lib

def ocbErrInvalidNonceLength : Int := -2

def ocbErrInvalidBlockLength : Int := -3

def ocbErrInvalidDataLength : Int := -3

def ocbErrInvalidTagLength : Int := -4

def ocbErrInvalidTag : Int := -5

inductive OcbMode where
  /-- `OCB_MODE_ENCRYPT` -/
  | encrypt
  /-- `OCB_MODE_DECRYPT` -/
  | decrypt

/-- `ocb_state_t`, without the cipher. -/
structure OcbState where
  lStar : Block16
  lZero : Block16
  lDollar : Block16
  checksum : Block16
  offset : Block16

def doubleBlock (source : Block16) : Block16 :=
  let msb := source[0] >>> 7
  .ofFn fun i =>
    if h : i.val < 15 then source[i] <<< 1 ||| source[i.val + 1] >>> 7 else (source[15] <<< 1) ^^^ (0x87 * msb)

/-- The loop of `ntz`, which has fewer turns than `n`. -/
def ntzLoop : Nat → Nat → Nat
  | 0, _ => 0
  | fuel + 1, n => if n % 2 = 0 then ntzLoop fuel (n / 2) + 1 else 0

def ntz (sz n : Nat) : Nat := if n = 0 then 2 ^ (8 * sz) - 1 else ntzLoop n n

def calculateLI (lZero : Block16) : Nat → Block16
  | 0 => lZero
  | i + 1 => doubleBlock (calculateLI lZero i)

/-- `processBlock`: the state, and the block that is written. -/
def processBlock (sz : Nat) (c : Cipher) (state : OcbState) (blockNumber : Nat) (input : Block16) (mode : OcbMode) :
    OcbState × Block16 :=
  let offset := state.offset.xor (calculateLI state.lZero (ntz sz (blockNumber + 1)))
  let cipherInput := input.xor offset
  match mode with
  | .encrypt =>
    let output := offset.xor (c.encrypt cipherInput)
    ({ state with offset := offset, checksum := state.checksum.xor input }, output)
  | .decrypt =>
    let output := offset.xor (c.decrypt cipherInput)
    ({ state with offset := offset, checksum := state.checksum.xor output }, output)

/-- The loop of `hash`, with `n` blocks to go. -/
def hashLoop (sz : Nat) (c : Cipher) (lZero : Block16) (data : List UInt8) :
    Nat → Nat → Block16 → Block16 → Except Fault (Block16 × Block16)
  | 0, _, offset, output => .ok (offset, output)
  | n + 1, i, offset, output =>
    (read data (16 * i) 16).bind fun bs =>
      let offset := offset.xor (calculateLI lZero (ntz sz (i + 1)))
      let encipheredBlock := c.encrypt ((Block.ofList 16 bs).xor offset)
      hashLoop sz c lZero data n (i + 1) offset (output.xor encipheredBlock)

def hash (sz : Nat) (c : Cipher) (state : OcbState) (data : List UInt8) (dataLen : Nat) : Except Fault Block16 :=
  let m := (dataLen - dataLen % 16) / 16
  let remainingDataLen := dataLen - m * 16
  (hashLoop sz c state.lZero data m 0 (Block.zero 16) (Block.zero 16)).bind fun (offset, output) =>
    if remainingDataLen > 0 then
      (read data (16 * m) remainingDataLen).bind fun bs =>
        let offset := offset.xor state.lStar
        let cipherInput := ((Block.zero 16).copy 0 bs).copy remainingDataLen [0x80]
        .ok (output.xor (c.encrypt (cipherInput.xor offset)))
    else .ok output

/-- Byte `i` of the start of the offsets; an int that is shifted by 8 is 0. -/
def offsetByte (stretch : List UInt8) (startByte startBit i : Nat) : UInt8 :=
  ⟨((stretch[startByte + i]?.getD 0).toBitVec <<< startBit) |||
    ((stretch[startByte + i + 1]?.getD 0).toBitVec >>> (8 - startBit))⟩

/-- `init_ocb`, for a nonce of at most 15 bytes. -/
def initOcb (c : Cipher) (tagLen : Nat) (nonce : List UInt8) : OcbState :=
  let lStar := c.encrypt (Block.zero 16)
  let lDollar := doubleBlock lStar
  let lZero := doubleBlock lDollar
  let noncePadded := (Block.zero 16).copy 0 [UInt8.ofNat ((tagLen * 8) <<< 1)]
  let noncePadded := noncePadded.copy (15 - nonce.length) [0x01]
  let noncePadded := noncePadded.copy (16 - nonce.length) nonce
  let bottom := noncePadded[15] &&& 0x3F
  let noncePadded := noncePadded.copy 15 [noncePadded[15] &&& 0xC0]
  let ktop := c.encrypt noncePadded
  let stretch := ktop.toList ++ xorBytes (ktop.toList.take 8) ((ktop.toList.drop 1).take 8)
  let startByte := bottom.toNat / 8
  let startBit := bottom.toNat - startByte * 8
  { lStar := lStar, lZero := lZero, lDollar := lDollar, checksum := Block.zero 16
    offset := .ofFn fun i => offsetByte stretch startByte startBit i }

/-- The loop of `run_ocb`, with `n` blocks to go. -/
def blocksLoop (sz : Nat) (c : Cipher) (mode : OcbMode) (input : List UInt8) :
    Nat → Nat → OcbState → List UInt8 → Except Fault (OcbState × List UInt8)
  | 0, _, state, output => .ok (state, output)
  | n + 1, i, state, output =>
    (read input (16 * i) 16).bind fun bs =>
      let (state, block) := processBlock sz c state i (Block.ofList 16 bs) mode
      (write output (16 * i) block.toList).bind fun output => blocksLoop sz c mode input n (i + 1) state output

/-- The final partial block of `run_ocb`. -/
def finalBlock (c : Cipher) (mode : OcbMode) (input : List UInt8) (pos n : Nat) (state : OcbState)
    (output : List UInt8) : Except Fault (OcbState × List UInt8) :=
  if n > 0 then
    let offset := state.offset.xor state.lStar
    let pad := c.encrypt offset
    (read input pos n).bind fun bs =>
      let finalBlock := xorBytes bs (pad.toList.take n)
      (write output pos finalBlock).bind fun output =>
        let plain := match mode with
          | .encrypt => bs
          | .decrypt => finalBlock
        let paddedBlock := ((Block.zero 16).copy 0 plain).copy n [0x80]
        .ok ({ state with offset := offset, checksum := state.checksum.xor paddedBlock }, output)
  else .ok (state, output)

/-- `run_ocb`: what is returned, the tag and the output. -/
def runOcb (sz : Nat) (c : Cipher) (authData : List UInt8) (authDataLen tagLen : Nat) (nonce input : List UInt8)
    (inputLen : Nat) (output : List UInt8) (mode : OcbMode) : Except Fault (Int × Block16 × List UInt8) :=
  if c.blockSize ≠ 16 then .ok (ocbErrInvalidBlockLength, Block.zero 16, output)
  else if tagLen > 16 ∨ tagLen = 0 then .ok (ocbErrInvalidTagLength, Block.zero 16, output)
  else if nonce.length ≥ 16 ∨ nonce.length = 0 then .ok (ocbErrInvalidNonceLength, Block.zero 16, output)
  else
    let m := (inputLen - inputLen % 16) / 16
    let remainingInputLen := inputLen - m * 16
    (blocksLoop sz c mode input m 0 (initOcb c tagLen nonce) output).bind fun (state, output) =>
    (finalBlock c mode input (16 * m) remainingInputLen state output).bind fun (state, output) =>
    (hash sz c state authData authDataLen).bind fun hashValue =>
      let cipherData := (state.checksum.xor state.offset).xor state.lDollar
      .ok (toInt (16 * m + remainingInputLen), (c.encrypt cipherData).xor hashValue, output)

/-- `cipher_encrypt_ocb`; `run_ocb` takes the length of the associated data as a `uint32_t`. -/
def cipherEncryptOcb (sz : Nat) (c : Cipher) (authData : List UInt8) (tagLen : Nat) (nonce input output : List UInt8) :
    Except Fault (Int × List UInt8) :=
  if input.length > 2 ^ 31 - 1 - tagLen then .ok (ocbErrInvalidDataLength, output)
  else
    (runOcb sz c authData (authData.length % 2 ^ 32) tagLen nonce input input.length output .encrypt).bind
      fun (len, tag, output) =>
    if len < 0 then .ok (len, output)
    else
      (write output len.toNat (tag.toList.take tagLen)).bind fun output => .ok (len + tagLen, output)

/-- `cipher_decrypt_ocb`. The sum of `INT32_MAX` and `tag_len` is taken to wrap around. -/
def cipherDecryptOcb (sz : Nat) (c : Cipher) (authData : List UInt8) (tagLen : Nat) (nonce input output : List UInt8) :
    Except Fault (Int × List UInt8) :=
  if input.length > 2 ^ 31 - 1 + tagLen then .ok (ocbErrInvalidDataLength, output)
  else
    -- as a size_t
    let plainLen := (input.length + 2 ^ (8 * sz) - tagLen) % 2 ^ (8 * sz)
    (runOcb sz c authData (authData.length % 2 ^ 32) tagLen nonce input plainLen output .decrypt).bind
      fun (len, tag, output) =>
    if len < 0 then .ok (len, output)
    else
      (read input plainLen tagLen).bind fun recv =>
        if tag.toList.take tagLen = recv then .ok (len, output)
        else (write output 0 (List.replicate plainLen 0)).bind fun output => .ok (ocbErrInvalidTag, output)

/-! ## RFC 7253 -/

/-- The polynomial of `double`, `zeros(120) || 10000111`. -/
def ocbPolynomial : List Bool := List.replicate 120 false ++ [true, false, false, false, false, true, true, true]

/-- `double` -/
def ocbDouble (s : Block16) : Block16 :=
  let shifted := (bits s.toList).drop 1 ++ [false]
  Block.ofBits 16 (if (bits s.toList)[0]? = some true then xorBits shifted ocbPolynomial else shifted)

/-- `L_*` -/
def ocbLStar (enc : Block16 → Block16) : Block16 := enc (Block.zero 16)

/-- `L_$` -/
def ocbLDollar (enc : Block16 → Block16) : Block16 := ocbDouble (ocbLStar enc)

/-- `L_i` -/
def ocbL (enc : Block16 → Block16) : Nat → Block16
  | 0 => ocbDouble (ocbLDollar enc)
  | i + 1 => ocbDouble (ocbL enc i)

/-- The offsets, from a first one on: at each number `L_i` for its trailing zeros is added. -/
def ocbOffset (enc : Block16 → Block16) (start : Block16) : Nat → Block16
  | 0 => start
  | i + 1 => (ocbOffset enc start i).xor (ocbL enc (padicValNat 2 (i + 1)))

/-- The exclusive or of the first `n` blocks, from number 1 on. -/
def ocbSum (f : Nat → Block16) : Nat → Block16
  | 0 => Block.zero 16
  | n + 1 => (ocbSum f n).xor (f (n + 1))

/-- The full block of a number, from 1 on. -/
def ocbBlock (s : List UInt8) (i : Nat) : Block16 := Block.ofList 16 (s.drop (16 * (i - 1)))

/-- What is behind the full blocks. -/
def ocbRest (s : List UInt8) : List UInt8 := s.drop (16 * (s.length / 16))

/-- A partial block with a one bit and zeros behind it. -/
def ocbPadded (s : List UInt8) : Block16 := Block.ofBits 16 (bits s ++ [true])

/-- `HASH` -/
def ocbHash (enc : Block16 → Block16) (a : List UInt8) : Block16 :=
  let m := a.length / 16
  let offset := ocbOffset enc (Block.zero 16)
  let sum := ocbSum (fun i => enc ((ocbBlock a i).xor (offset i))) m
  if ocbRest a = [] then sum else sum.xor (enc ((ocbPadded (ocbRest a)).xor ((offset m).xor (ocbLStar enc))))

/-- What both sides know: the length of the tag, the nonce and the associated data. -/
structure OcbParams where
  tagLen : Nat
  nonce : List UInt8
  adata : List UInt8
  tagLen_pos : 0 < tagLen
  tagLen_le : tagLen ≤ 16
  nonce_pos : 0 < nonce.length
  nonce_le : nonce.length ≤ 15

/-- `Nonce = num2str(TAGLEN mod 128, 7) || zeros(120 - bitlen(N)) || 1 || N` -/
def OcbParams.nonceBits (p : OcbParams) : List Bool :=
  numBits 7 (8 * p.tagLen % 128) ++ (List.replicate (120 - 8 * p.nonce.length) false ++ (true :: bits p.nonce))

/-- `bottom = str2num(Nonce[123..128])` -/
def OcbParams.bottom (p : OcbParams) : Nat := bitsNum (p.nonceBits.drop 122)

/-- `Ktop = ENCIPHER(K, Nonce[1..122] || zeros(6))` -/
def OcbParams.ktop (p : OcbParams) (enc : Block16 → Block16) : List Bool :=
  bits (enc (Block.ofBits 16 (p.nonceBits.take 122 ++ List.replicate 6 false))).toList

/-- `Stretch = Ktop || (Ktop[1..64] xor Ktop[9..72])` -/
def OcbParams.stretch (p : OcbParams) (enc : Block16 → Block16) : List Bool :=
  p.ktop enc ++ xorBits ((p.ktop enc).take 64) (((p.ktop enc).drop 8).take 64)

/-- `Offset_i`, with `Offset_0 = Stretch[1+bottom..128+bottom]` -/
def OcbParams.offset (p : OcbParams) (enc : Block16 → Block16) (i : Nat) : Block16 :=
  ocbOffset enc (Block.ofBits 16 (((p.stretch enc).drop p.bottom).take 128)) i

/-- The full blocks of the ciphertext, `C_i = Offset_i xor ENCIPHER(K, P_i xor Offset_i)`. -/
def OcbParams.cipherBlock (p : OcbParams) (enc : Block16 → Block16) (m : List UInt8) (i : Nat) : Block16 :=
  (p.offset enc i).xor (enc ((ocbBlock m i).xor (p.offset enc i)))

/-- `C_1 || ... || C_m || C_*` -/
def OcbParams.body (p : OcbParams) (enc : Block16 → Block16) (m : List UInt8) : List UInt8 :=
  keyStream (p.cipherBlock enc m) 1 (m.length / 16) ++
    xorBytes (ocbRest m) (enc ((p.offset enc (m.length / 16)).xor (ocbLStar enc))).toList

def OcbParams.tag (p : OcbParams) (enc : Block16 → Block16) (m : List UInt8) : Block16 :=
  let checksum := ocbSum (ocbBlock m) (m.length / 16)
  let offset := p.offset enc (m.length / 16)
  let data := if ocbRest m = [] then checksum.xor offset
    else (checksum.xor (ocbPadded (ocbRest m))).xor (offset.xor (ocbLStar enc))
  (enc (data.xor (ocbLDollar enc))).xor (ocbHash enc p.adata)

/-- `OCB-ENCRYPT` -/
def OcbParams.encrypt (p : OcbParams) (enc : Block16 → Block16) (m : List UInt8) : List UInt8 :=
  p.body enc m ++ (p.tag enc m).toList.take p.tagLen

/-- A cipher for blocks of 16 bytes, with its inverse. -/
structure Cipher.Invertible (c : Cipher) : Prop where
  blockSize : c.blockSize = 16
  decrypt_encrypt : ∀ b, c.decrypt (c.encrypt b) = b
  encrypt_decrypt : ∀ b, c.encrypt (c.decrypt b) = b

/-- **What the mode is for**, for the message `m` and for `input` to be decrypted: it encrypts as
RFC 7253 does, it decrypts what it has encrypted, and of other inputs, of any length, it accepts
only the encryptions, and leaves nothing of what is not accepted. -/
structure OcbRight (sz : Nat) (p : OcbParams) (m input : List UInt8) : Prop where
  encrypts : ∀ c : Cipher, c.Invertible → ∀ output : List UInt8, output.length = m.length + p.tagLen →
    cipherEncryptOcb sz c p.adata p.tagLen p.nonce m output = .ok (↑(m.length + p.tagLen), p.encrypt c.encrypt m)
  decrypts : ∀ c : Cipher, c.Invertible → ∀ plain : List UInt8, plain.length = m.length →
    cipherDecryptOcb sz c p.adata p.tagLen p.nonce (p.encrypt c.encrypt m) plain = .ok (↑m.length, m)
  authentic : ∀ c : Cipher, c.Invertible → ∀ plain : List UInt8, plain.length = input.length - p.tagLen →
    ∃ r out, cipherDecryptOcb sz c p.adata p.tagLen p.nonce input plain = .ok (r, out) ∧
      (r < 0 ∧ (out = plain ∨ out = List.replicate plain.length 0) ∨
        r = out.length ∧ input = p.encrypt c.encrypt out)

end Riot.Crypto
