import Riot.Lib.Block

/-!
# Block ciphers and the counter mode

`sys/crypto/ciphers.c`, `sys/crypto/helper.c` and `sys/crypto/modes/ctr.c`. An output buffer is the
list of its bytes; an access outside of a buffer is a failure of its own, and so is a loop that goes
on for good.
-/

namespace Riot.Crypto

open Riot.Lib List

/-- The blocks of the ciphers with `block_size` 16. -/
abbrev Block16 := Block 16

/-- `cipher_t`, with the key of its context. `cipher_encrypt` returns 1 for every block. -/
structure Cipher where
  blockSize : Nat
  encrypt : Block16 → Block16
  decrypt : Block16 → Block16

inductive Fault where
  /-- an access outside of a buffer -/
  | outOfBounds
  /-- a failed assertion -/
  | assertion
  /-- a loop that does not end -/
  | endless
  deriving DecidableEq

/-- The `n` bytes from `pos` on. -/
def read (buf : List UInt8) (pos n : Nat) : Except Fault (List UInt8) :=
  if pos + n ≤ buf.length then .ok ((buf.drop pos).take n) else .error .outOfBounds

/-- The buffer with `bs` from `pos` on. -/
def write (buf : List UInt8) (pos : Nat) (bs : List UInt8) : Except Fault (List UInt8) :=
  if pos + bs.length ≤ buf.length then .ok (buf.take pos ++ (bs ++ buf.drop (pos + bs.length)))
  else .error .outOfBounds

/-- A number as an `int` of 32 bits. -/
def toInt (n : Nat) : Int := (BitVec.ofNat 32 n).toInt

/-- The loop of `crypto_block_inc_ctr`, with `n` bytes to go, up to the one at `pos`. -/
def incCtrLoop : Nat → Nat → Block16 → Block16
  | 0, _, block => block
  | n + 1, pos, block =>
    let b := (block[pos]?).getD 0 + 1
    let block := block.copy pos [b]
    if b ≠ 0 then block else incCtrLoop n (pos - 1) block

/-- `crypto_block_inc_ctr`, for at most 16 bytes. -/
def cryptoBlockIncCtr (block : Block16) (n : Nat) : Block16 := incCtrLoop n 15 block

/-- The loop of `crypto_equals`. -/
def equalsLoop : UInt8 → List UInt8 → List UInt8 → UInt8
  | diff, a :: as, b :: bs => equalsLoop (diff ||| (a ^^^ b)) as bs
  | diff, _, _ => diff

/-- `crypto_equals`, for blocks of one length. -/
def cryptoEquals (a b : List UInt8) : UInt8 :=
  let diff := equalsLoop 0 a b
  let diff := diff ||| ((diff >>> 1) ||| (diff <<< 7))
  let diff := diff ||| ((diff >>> 2) ||| (diff <<< 6))
  let diff := diff ||| ((diff >>> 4) ||| (diff <<< 4))
  diff + 1

/-- The loop of `cipher_encrypt_ctr`. -/
def ctrLoop (c : Cipher) (nonceLen : Nat) (input : List UInt8) (length : Nat) :
    Nat → Nat → Block16 → List UInt8 → Except Fault (Nat × Block16 × List UInt8)
  | 0, _, _, _ => .error .endless
  | fuel + 1, offset, nonceCounter, output =>
    let streamBlock := c.encrypt nonceCounter
    let blockSizeInput := if length - offset > c.blockSize then c.blockSize else length - offset
    (read input offset blockSizeInput).bind fun bs =>
    (write output offset (xorBytes bs streamBlock.toList)).bind fun output =>
      let offset := offset + blockSizeInput
      let nonceCounter := cryptoBlockIncCtr nonceCounter (c.blockSize - nonceLen)
      if offset < length then ctrLoop c nonceLen input length fuel offset nonceCounter output
      else .ok (offset, nonceCounter, output)

/-- `cipher_encrypt_ctr`. There are fewer turns of its loop than bytes, but for the first. -/
def cipherEncryptCtr (c : Cipher) (nonceCounter : Block16) (nonceLen : Nat) (input : List UInt8) (length : Nat)
    (output : List UInt8) : Except Fault (Int × Block16 × List UInt8) :=
  (ctrLoop c nonceLen input length (length + 1) 0 nonceCounter output).bind fun (offset, counter, output) =>
    .ok (toInt offset, counter, output)

/-! ## Buffers -/

variable {buf bs pre post : List UInt8} {n pos : Nat}

theorem read_append (h : bs.length = n) : read (pre ++ (bs ++ post)) pre.length n = .ok bs := by
  unfold read
  rw [if_pos (by rw [length_append, length_append]; omega), drop_left, ← h, take_left]

theorem write_append (h : buf.length = bs.length) :
    write (pre ++ (buf ++ post)) pre.length bs = .ok (pre ++ (bs ++ post)) := by
  unfold write
  rw [if_pos (by rw [length_append, length_append]; omega), take_left, ← h, ← drop_drop,
    drop_left, drop_left]

theorem read_of_lt (h : buf.length < pos + n) : read buf pos n = .error .outOfBounds :=
  if_neg (not_le.mpr h)

theorem toInt_of_lt (h : n < 2 ^ 31) : toInt n = n := by
  unfold toInt
  rw [BitVec.toInt_eq_toNat_cond, BitVec.toNat_ofNat, Nat.mod_eq_of_lt (by omega), if_pos (by omega)]

theorem toInt_neg_iff : toInt n < 0 ↔ 2 ^ 31 ≤ n % 2 ^ 32 := by
  unfold toInt
  rw [BitVec.toInt_eq_toNat_cond, BitVec.toNat_ofNat]
  split <;> omega

/-! ## Comparing -/

theorem equalsLoop_eq_zero : ∀ {diff : UInt8} {a b : List UInt8}, a.length = b.length →
    (equalsLoop diff a b = 0 ↔ diff = 0 ∧ a = b) := by
  intro diff a
  induction a generalizing diff with
  | nil =>
    intro b h
    obtain rfl := length_eq_zero_iff.mp h.symm
    simp [equalsLoop]
  | cons x a ih =>
    intro b h
    cases b with
    | nil => cases h
    | cons y b =>
      rw [equalsLoop, ih (Nat.succ.inj h), UInt8.or_eq_zero_iff, UInt8.xor_eq_zero_iff, cons.injEq, and_assoc]

theorem spread_eq : ∀ d : UInt8, (let diff := d ||| ((d >>> 1) ||| (d <<< 7))
    let diff := diff ||| ((diff >>> 2) ||| (diff <<< 6))
    let diff := diff ||| ((diff >>> 4) ||| (diff <<< 4))
    diff + 1) = if d = 0 then 1 else 0 := by
  have h : ∀ n : Fin 256, (let d := UInt8.ofNat n
    let diff := d ||| ((d >>> 1) ||| (d <<< 7))
    let diff := diff ||| ((diff >>> 2) ||| (diff <<< 6))
    let diff := diff ||| ((diff >>> 4) ||| (diff <<< 4))
    diff + 1) = if UInt8.ofNat n = 0 then 1 else 0 := by decide +kernel
  intro d
  have := h ⟨d.toNat, d.toNat_lt⟩
  rwa [UInt8.ofNat_toNat] at this

/-- **Blocks are found equal if they are.** -/
theorem cryptoEquals_eq {a b : List UInt8} (h : a.length = b.length) :
    cryptoEquals a b = if a = b then 1 else 0 := by
  unfold cryptoEquals
  rw [spread_eq]
  have := @equalsLoop_eq_zero 0 _ _ h
  by_cases hab : a = b
  · rw [if_pos (this.mpr ⟨rfl, hab⟩), if_pos hab]
  · rw [if_neg (fun h0 => hab (this.mp h0).2), if_neg hab]

end Riot.Crypto
