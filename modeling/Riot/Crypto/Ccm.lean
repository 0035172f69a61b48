import Riot.Crypto.Cipher

/-!
# Counter with CBC-MAC

`sys/crypto/modes/ccm.c`, and what RFC 3610 wants of it. Buffers are handed over with their
lengths; `sz` is the size of a `size_t` in bytes.
-/

namespace Riot.Crypto

open Riot.Lib

def ccmErrInvalidCbcMac : Int := -3

def ccmErrInvalidDataLength : Int := -3

def ccmErrInvalidLengthEncoding : Int := -4

def ccmErrInvalidMacLength : Int := -5

def ccmBlockSize : Nat := 16

/-- `mac[i] ^= input[offset + i]`, over the bytes read. -/
def xorInto (mac : Block16) (bs : List UInt8) : Block16 :=
  .ofFn fun i => if h : i.val < bs.length then mac[i] ^^^ bs[i.val] else mac[i]

/-- The loop of `ccm_compute_cbc_mac`; `offset` is a `uint32_t`. -/
def cbcMacLoop (c : Cipher) (input : List UInt8) (length : Nat) :
    Nat → Nat → Block16 → Except Fault (Nat × Block16)
  | 0, _, _ => .error .endless
  | fuel + 1, offset, mac =>
    let blockSizeInput := if length - offset > c.blockSize then c.blockSize else length - offset
    (read input offset blockSizeInput).bind fun bs =>
      let mac := c.encrypt (xorInto mac bs)
      let offset := (offset + blockSizeInput) % 2 ^ 32
      if offset < length then cbcMacLoop c input length fuel offset mac else .ok (offset, mac)

/-- `ccm_compute_cbc_mac`. A loop that does not end with as many turns as bytes has begun anew. -/
def ccmComputeCbcMac (c : Cipher) (iv : Block16) (input : List UInt8) (length : Nat) :
    Except Fault (Int × Block16) :=
  if length = 0 then .ok (0, iv)
  else (cbcMacLoop c input length length 0 iv).bind fun (offset, mac) => .ok (toInt offset, mac)

/-- `ccm_create_mac_iv`; `auth_data_len` and `nonce_len` are a `uint8_t`. -/
def ccmCreateMacIv (c : Cipher) (authDataLen M L : Nat) (nonce : List UInt8) (nonceLen plaintextLen : Nat) :
    Except Fault (Option Block16) :=
  let X1 := Block.zero 16
  let X1 := X1.copy 0 [UInt8.ofNat (64 * (if authDataLen % 256 > 0 then 1 else 0) + 8 * ((M - 2) / 2) + (L - 1))]
  (read nonce 0 (min (nonceLen % 256) (15 - L))).bind fun bs =>
    let X1 := X1.copy 1 bs
    let X1 := X1.copy (16 - L) (toBytes L plaintextLen)
    -- if there is still data, plaintext_len was too big
    if plaintextLen / 256 ^ L > 0 then .ok none else .ok (some (c.encrypt X1))

/-- `ccm_compute_adata_mac`; `none` is an error. -/
def ccmComputeAdataMac (c : Cipher) (authData : List UInt8) (authDataLen : Nat) (X1 : Block16) :
    Except Fault (Option Block16) :=
  if authDataLen > 0 then
    if authDataLen ≤ 0xfeff then
      let lenEncoding := 2
      let authDataLenInEncoded :=
        if authDataLen ≥ ccmBlockSize - lenEncoding then ccmBlockSize - lenEncoding else authDataLen
      (read authData 0 authDataLenInEncoded).bind fun bs =>
      let authDataEncoded := UInt8.ofNat (authDataLen / 256) :: UInt8.ofNat authDataLen :: bs
      (ccmComputeCbcMac c X1 authDataEncoded (authDataLenInEncoded + lenEncoding)).bind fun (len, X1) =>
        if len < 0 then .ok none
        else if authDataLenInEncoded < authDataLen then
          (ccmComputeCbcMac c X1 (authData.drop authDataLenInEncoded) (authDataLen - authDataLenInEncoded)).bind
            fun (len, X1) => if len < 0 then .ok none else .ok (some X1)
        else .ok (some X1)
    else .ok none
  else .ok (some X1)

def fitsInNbytes (sz value numBytes : Nat) : Bool := value >>> (8 * min sz numBytes - 1) ≤ 1

/-- The counter block that both sides begin with. -/
def firstCounter (lengthEncoding : Nat) (nonce : List UInt8) (nonceLen : Nat) : Except Fault Block16 :=
  (read nonce 0 (min nonceLen (15 - lengthEncoding))).bind fun bs =>
    .ok (((Block.zero 16).copy 0 [UInt8.ofNat (lengthEncoding - 1)]).copy 1 bs)

def cipherEncryptCcm (sz : Nat) (c : Cipher) (authData : List UInt8) (macLength lengthEncoding : Nat)
    (nonce input output : List UInt8) : Except Fault (Int × List UInt8) :=
  if macLength % 2 ≠ 0 ∨ macLength < 4 ∨ macLength > 16 then .ok (ccmErrInvalidMacLength, output)
  else if lengthEncoding < 2 ∨ lengthEncoding > 8 ∨ !fitsInNbytes sz input.length lengthEncoding then
    .ok (ccmErrInvalidLengthEncoding, output)
  else if c.blockSize ≠ ccmBlockSize then .error .assertion
  else
    (ccmCreateMacIv c authData.length macLength lengthEncoding nonce nonce.length input.length).bind fun
    | none => .ok (ccmErrInvalidDataLength, output)
    | some macIv =>
      (ccmComputeAdataMac c authData authData.length macIv).bind fun
      | none => .ok (-1, output)
      | some macIv =>
        (ccmComputeCbcMac c macIv input input.length).bind fun (len, mac) =>
        if len < 0 then .ok (len, output)
        else
          (firstCounter lengthEncoding nonce nonce.length).bind fun nonceCounter =>
          (cipherEncryptCtr c nonceCounter c.blockSize (Block.zero 16).toList c.blockSize
            (Block.zero 16).toList).bind fun (len, nonceCounter, streamBlock) =>
          if len < 0 then .ok (len, output)
          else
            let nonceCounter := cryptoBlockIncCtr nonceCounter (c.blockSize - nonce.length)
            (cipherEncryptCtr c nonceCounter nonce.length input input.length output).bind fun (len, _, output) =>
            if len < 0 then .ok (len, output)
            else
              (write output len.toNat (xorBytes (mac.toList.take macLength) streamBlock)).bind fun output =>
                .ok (len + macLength, output)

def cipherDecryptCcm (sz : Nat) (c : Cipher) (authData : List UInt8) (macLength lengthEncoding : Nat)
    (nonce input plain : List UInt8) : Except Fault (Int × List UInt8) :=
  if macLength % 2 ≠ 0 ∨ macLength < 4 ∨ macLength > 16 then .ok (ccmErrInvalidMacLength, plain)
  else if lengthEncoding < 2 ∨ lengthEncoding > 8 ∨ !fitsInNbytes sz input.length lengthEncoding then
    .ok (ccmErrInvalidLengthEncoding, plain)
  else if c.blockSize ≠ ccmBlockSize then .error .assertion
  else
    (firstCounter lengthEncoding nonce nonce.length).bind fun nonceCounter =>
    (cipherEncryptCtr c nonceCounter c.blockSize (Block.zero 16).toList c.blockSize
      (Block.zero 16).toList).bind fun (len, nonceCounter, streamBlock) =>
    if len < 0 then .ok (len, plain)
    else
      -- as a size_t
      let plainLen := (input.length + 2 ^ (8 * sz) - macLength) % 2 ^ (8 * sz)
      let nonceCounter := cryptoBlockIncCtr nonceCounter (c.blockSize - nonce.length)
      (cipherEncryptCtr c nonceCounter nonce.length input plainLen plain).bind fun (len, _, plain) =>
      if len < 0 then .ok (len, plain)
      else
        (ccmCreateMacIv c authData.length macLength lengthEncoding nonce nonce.length plainLen).bind fun
        | none => .ok (ccmErrInvalidDataLength, plain)
        | some macIv =>
          (ccmComputeAdataMac c authData authData.length macIv).bind fun
          | none => .ok (-1, plain)
          | some macIv =>
            (ccmComputeCbcMac c macIv plain plainLen).bind fun (len', mac) =>
            if len' < 0 then .ok (len', plain)
            else
              (read input len'.toNat macLength).bind fun recv =>
                if cryptoEquals (xorBytes recv streamBlock) (mac.toList.take macLength) = 0 then
                  .ok (ccmErrInvalidCbcMac, plain)
                else .ok (toInt plainLen, plain)

/-! ## RFC 3610 -/

/-- What both sides know: the lengths of the tag and of the length field, the nonce and the
associated data. -/
structure CcmParams where
  M : Nat
  L : Nat
  nonce : List UInt8
  adata : List UInt8
  even : M % 2 = 0
  four_le : 4 ≤ M
  le_sixteen : M ≤ 16
  two_le : 2 ≤ L
  le_eight : L ≤ 8
  length_nonce : nonce.length = 15 - L
  length_adata : adata.length ≤ 0xfeff

def CcmParams.b0 (p : CcmParams) (m : List UInt8) : Block16 :=
  Block.ofList 16 (UInt8.ofNat (64 * (if p.adata = [] then 0 else 1) + 8 * ((p.M - 2) / 2) + (p.L - 1)) ::
    (p.nonce ++ toBytes p.L m.length))

/-- The blocks of the associated data, with its length in front; there are none without data. -/
def CcmParams.adataBlocks (p : CcmParams) : List Block16 :=
  if p.adata = [] then [] else blocks 16 (toBytes 2 p.adata.length ++ p.adata)

/-- `T` -/
def CcmParams.tag (p : CcmParams) (enc : Block16 → Block16) (m : List UInt8) : List UInt8 :=
  (chain enc (enc (p.b0 m)) (p.adataBlocks ++ blocks 16 m)).toList.take p.M

/-- `S_i`, the encryption of `A_i` -/
def CcmParams.stream (p : CcmParams) (enc : Block16 → Block16) (i : Nat) : Block16 :=
  enc (Block.ofList 16 (UInt8.ofNat (p.L - 1) :: (p.nonce ++ toBytes p.L i)))

/-- The encrypted message, and behind it the encrypted tag. -/
def CcmParams.encrypt (p : CcmParams) (enc : Block16 → Block16) (m : List UInt8) : List UInt8 :=
  xorBytes m (keyStream (p.stream enc) 1 (blockCount 16 m.length)) ++
    xorBytes (p.tag enc m) (p.stream enc 0).toList

/-- The messages whose length fits in `L` bytes and in what is returned. -/
def CcmParams.Message (p : CcmParams) (m : List UInt8) : Prop := m.length < 256 ^ p.L ∧ m.length < 2 ^ 31 - 16

/-- **What the mode is for**, for the message `m` and for `input` to be decrypted, with the ciphers
of 128-bit blocks: it encrypts as RFC 3610 does, it decrypts what it has encrypted, and of other
inputs, of any length, it accepts only the encryptions. -/
structure CcmRight (sz : Nat) (p : CcmParams) (m input : List UInt8) : Prop where
  encrypts : p.Message m → ∀ c : Cipher, c.blockSize = 16 → ∀ output : List UInt8,
    output.length = m.length + p.M →
    cipherEncryptCcm sz c p.adata p.M p.L p.nonce m output = .ok (↑(m.length + p.M), p.encrypt c.encrypt m)
  decrypts : p.Message m → ∀ c : Cipher, c.blockSize = 16 → ∀ plain : List UInt8, plain.length = m.length →
    cipherDecryptCcm sz c p.adata p.M p.L p.nonce (p.encrypt c.encrypt m) plain = .ok (↑m.length, m)
  authentic : ∀ c : Cipher, c.blockSize = 16 → ∀ plain : List UInt8, plain.length = input.length - p.M →
    ∃ r out, cipherDecryptCcm sz c p.adata p.M p.L p.nonce input plain = .ok (r, out) ∧
      (r < 0 ∨ r = out.length ∧ input = p.encrypt c.encrypt out)

end Riot.Crypto
