import Mathlib.Data.Nat.Bitwise
import Mathlib.Tactic.Ring

/-!
# Bit arithmetic

`core/lib/include/bitarithm.h`: the number of the highest and of the lowest set
bit of an `unsigned`. The lowest bit has three implementations, chosen by the
CPU: a compiler builtin, a de Bruijn multiplication with a lookup table, and a
loop. All of them compute the same function on non-zero words.
-/

namespace Riot.Core

open Nat

/-- Which implementation of `bitarithm_lsb` the CPU selects. -/
inductive LsbImpl where
  /-- `BITARITHM_LSB_BUILTIN` -/
  | builtin
  /-- `BITARITHM_LSB_LOOKUP` -/
  | lookup
  /-- neither -/
  | loop
  deriving DecidableEq, Repr

/-- `__builtin_clz`: the number of leading zero bits of a non-zero word. -/
def builtinClz (v : BitVec 32) : Nat := 31 - v.toNat.log2

/-- `__builtin_ffs`: one plus the number of the lowest set bit, zero for zero. -/
def builtinFfs (v : BitVec 32) : Nat :=
  match (List.range 32).find? (v.getLsbD ·) with
  | some i => i + 1
  | none => 0

/-- `bitarithm_msb` on a CPU with `BITARITHM_HAS_CLZ`. -/
def bitarithmMsb (v : BitVec 32) : Nat := 8 * 4 - builtinClz v - 1

def multiplyDeBruijnBitPosition : List Nat :=
  [0, 1, 28, 2, 29, 14, 24, 3, 30, 22, 20, 15, 25, 17, 4, 8,
   31, 27, 13, 23, 21, 19, 16, 7, 26, 12, 18, 6, 11, 5, 10, 9]

/-- The loop `while ((v & 0x01) == 0) { v >>= 1; r++; }`. -/
def bitarithmLsbLoop : Nat → BitVec 32 → Nat → Nat
  | 0, _, r => r
  | fuel + 1, v, r =>
    if v &&& 1#32 = 0#32 then bitarithmLsbLoop fuel (v >>> 1) (r + 1) else r

def bitarithmLsb (impl : LsbImpl) (v : BitVec 32) : Nat :=
  match impl with
  | .builtin => builtinFfs v - 1
  | .lookup => multiplyDeBruijnBitPosition.getD (((v &&& -v) * 0x077CB531#32) >>> 27).toNat 0
  | .loop => bitarithmLsbLoop 32 v 0

/-- The loop of `bitarithm_bits_set`, which clears the least significant bit set. -/
def bitarithmBitsSetLoop : Nat → BitVec 32 → Nat → Nat
  | 0, _, c => c
  | fuel + 1, v, c => if v = 0#32 then c else bitarithmBitsSetLoop fuel (v &&& (v - 1#32)) (c + 1)

def bitarithmBitsSet (v : BitVec 32) : Nat := bitarithmBitsSetLoop 32 v 0

/-- `p` is the number of the lowest set bit of `v`. -/
def LowestBit (v : BitVec 32) (p : Nat) : Prop :=
  v.getLsbD p = true ∧ ∀ q, q < p → v.getLsbD q = false

variable {v : BitVec 32} {p : Nat}

theorem LowestBit.lt (h : LowestBit v p) : p < 32 := by
  by_contra hp
  have := BitVec.getLsbD_of_ge v p (by omega)
  rw [h.1] at this
  exact Bool.noConfusion this

theorem exists_lowestBit (hv : v ≠ 0#32) : ∃ p, LowestBit v p := by
  have hex : ∃ p, v.getLsbD p = true := by
    by_contra hno
    refine hv (BitVec.eq_of_getLsbD_eq fun i _ => ?_)
    have := fun hi => hno ⟨i, hi⟩
    simpa using this
  refine ⟨Nat.find hex, Nat.find_spec hex, fun q hq => ?_⟩
  simpa using Nat.find_min hex hq

/-! ## The highest bit -/

theorem bitarithmMsb_eq_log2 (hv : v ≠ 0#32) : bitarithmMsb v = v.toNat.log2 := by
  have hne : v.toNat ≠ 0 := fun h => hv (BitVec.eq_of_toNat_eq (by simpa using h))
  have hlog : v.toNat.log2 < 32 := (log2_lt hne).mpr v.isLt
  unfold bitarithmMsb builtinClz
  omega

theorem bitarithmMsb_spec (hv : v ≠ 0#32) : bitarithmMsb v < 32 ∧ v.getLsbD (bitarithmMsb v) = true ∧
      ∀ q, bitarithmMsb v < q → v.getLsbD q = false := by
  have hne : v.toNat ≠ 0 := fun h => hv (BitVec.eq_of_toNat_eq (by simpa using h))
  have hlog : v.toNat.log2 < 32 := (log2_lt hne).mpr v.isLt
  rw [bitarithmMsb_eq_log2 hv]
  refine ⟨hlog, ?_, fun q hq => ?_⟩
  · exact testBit_log2 hne
  · refine testBit_eq_false_of_lt (lt_of_lt_of_le lt_log2_self ?_)
    exact Nat.pow_le_pow_right (by omega) hq

theorem bitarithmMsb_twoPow {k : Nat} (hk : k < 32) : bitarithmMsb (BitVec.ofNat 32 (2 ^ k)) = k := by
  have hlt : 2 ^ k < 2 ^ 32 := Nat.pow_lt_pow_right (by omega) hk
  unfold bitarithmMsb builtinClz
  rw [BitVec.toNat_ofNat, mod_eq_of_lt hlt, log2_two_pow]
  omega

theorem bitarithmBitsSet_twoPow : ∀ k : Fin 32, bitarithmBitsSet (BitVec.ofNat 32 (2 ^ k.val)) = 1 := by
  decide

/-! ## The lowest bit -/

private theorem builtinFfs_eq (h : LowestBit v p) : builtinFfs v = p + 1 := by
  have hfind : (List.range 32).find? (v.getLsbD ·) = some p := by
    rw [List.find?_range_eq_some]
    refine ⟨h.1, by simpa using h.lt, fun j hj => ?_⟩
    simpa using h.2 j hj
  unfold builtinFfs
  rw [hfind]

private theorem bitarithmLsbLoop_eq : ∀ {fuel p : Nat} {v : BitVec 32} {r : Nat},
    LowestBit v p → p < fuel → bitarithmLsbLoop fuel v r = r + p := by
  intro fuel
  induction fuel with
  | zero => intro p v r _ hf; exact absurd hf (by simp)
  | succ fuel ih =>
    intro p v r h hf
    have hbit : (v &&& 1#32 = 0#32) ↔ v.getLsbD 0 = false := by
      constructor
      · intro h0
        have := congrArg (BitVec.getLsbD · 0) h0
        simpa using this
      · intro h0
        refine BitVec.eq_of_getLsbD_eq fun i hi => ?_
        rcases Nat.eq_zero_or_pos i with rfl | hpos
        · rw [BitVec.getLsbD_and, h0]
          simp
        · simp [BitVec.getLsbD_one, pos_iff_ne_zero.mp hpos]
    unfold bitarithmLsbLoop
    cases p with
    | zero => rw [if_neg (by rw [hbit, h.1]; simp), add_zero]
    | succ p =>
      rw [if_pos (by rw [hbit]; exact h.2 0 (by omega))]
      have hshift : LowestBit (v >>> 1) p := by
        refine ⟨?_, fun q hq => ?_⟩
        · rw [BitVec.getLsbD_ushiftRight, add_comm]
          exact h.1
        · rw [BitVec.getLsbD_ushiftRight, add_comm]
          exact h.2 (q + 1) (by omega)
      rw [ih hshift (by omega)]
      omega

private theorem testBit_sub_one : ∀ {p v : Nat}, v.testBit p = true → (∀ q, q < p → v.testBit q = false) →
    ∀ i, (v - 1).testBit i = if i < p then true else if i = p then false else v.testBit i := by
  intro p
  induction p with
  | zero =>
    intro v hp _ i
    have hodd : v % 2 = 1 := by simpa using hp
    cases i with
    | zero => simp; omega
    | succ i =>
      rw [testBit_succ, testBit_succ, if_neg (by omega), if_neg (by omega),
        show (v - 1) / 2 = v / 2 by omega]
  | succ p ih =>
    intro v hp hlow i
    have heven : v % 2 = 0 := by simpa using hlow 0 (by omega)
    have hpos : v ≠ 0 := by
      rintro rfl
      simp at hp
    cases i with
    | zero => simp; omega
    | succ i =>
      have := ih (by rwa [testBit_succ] at hp)
        (fun q hq => by simpa [testBit_succ] using hlow (q + 1) (by omega)) i
      rw [testBit_succ, show (v - 1) / 2 = v / 2 - 1 by omega, this, testBit_succ]
      simp

theorem and_neg_eq_twoPow {w : Nat} {v : BitVec w} (hbit : v.getLsbD p = true)
    (hlow : ∀ q, q < p → v.getLsbD q = false) : v &&& -v = BitVec.twoPow w p := by
  have hne : v.toNat ≠ 0 := by
    intro h0
    simp [BitVec.getLsbD, h0] at hbit
  have hsub := testBit_sub_one hbit hlow
  refine BitVec.eq_of_getLsbD_eq fun i hi => ?_
  have hneg : (-v).getLsbD i = !(v.toNat - 1).testBit i := by
    rw [BitVec.getLsbD, BitVec.toNat_neg, mod_eq_of_lt (by omega),
      show 2 ^ w - v.toNat = 2 ^ w - ((v.toNat - 1) + 1) by omega,
      testBit_two_pow_sub_succ (by omega)]
    simp [hi]
  rw [BitVec.getLsbD_and, hneg, hsub, BitVec.getLsbD_twoPow]
  rcases lt_trichotomy i p with hip | rfl | hip
  · rw [hlow i hip]
    have : ¬ p = i := by omega
    simp [this]
  · rw [hbit]
    simp [hi]
  · have h1 : ¬ i < p := by omega
    have h2 : ¬ i = p := by omega
    have h3 : ¬ p = i := by omega
    simp only [h1, h2, h3, if_false, decide_false, Bool.and_false]
    rw [BitVec.getLsbD]
    simp

private theorem lookup_eq : ∀ p : Fin 32, multiplyDeBruijnBitPosition.getD
    ((BitVec.twoPow 32 p.val * 0x077CB531#32) >>> 27).toNat 0 = p.val := by
  decide

/-- **All three implementations find the lowest set bit.** -/
theorem bitarithmLsb_spec (impl : LsbImpl) (hv : v ≠ 0#32) : LowestBit v (bitarithmLsb impl v) := by
  obtain ⟨p, hp⟩ := exists_lowestBit hv
  have heq : bitarithmLsb impl v = p := by
    cases impl with
    | builtin => rw [bitarithmLsb, builtinFfs_eq hp, Nat.add_sub_cancel]
    | lookup =>
      rw [bitarithmLsb, and_neg_eq_twoPow hp.1 hp.2]
      exact lookup_eq ⟨p, hp.lt⟩
    | loop =>
      rw [bitarithmLsb, bitarithmLsbLoop_eq hp hp.lt, zero_add]
  rwa [heq]

end Riot.Core
