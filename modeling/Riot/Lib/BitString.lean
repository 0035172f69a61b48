import Riot.Lib.Block

/-!
# Bytes as strings of bits

The bits of bytes, the most significant first, and bits put together to blocks and numbers.
-/

namespace Riot.Lib

open List Block

variable {k n i j : Nat} {b : UInt8} {bs cs : List UInt8} {s t : List Bool}

/-- The bits of a byte. -/
def byteBits (b : UInt8) : List Bool := (List.range 8).map b.toBitVec.getMsbD

/-- The bits of bytes. -/
def bits (bs : List UInt8) : List Bool := bs.flatMap byteBits

/-- The byte of eight bits; missing ones are zero. -/
def ofByteBits (s : List Bool) : UInt8 :=
  ⟨(BitVec.ofBoolListBE ((List.range 8).map fun i => s[i]?.getD false)).cast (by simp)⟩

/-- The block of bits. -/
def Block.ofBits (k : Nat) (s : List Bool) : Block k := .ofFn fun i => ofByteBits (s.drop (8 * i))

/-- The `n` bits of a number. -/
def numBits (n v : Nat) : List Bool := (List.range n).map fun i => v.testBit (n - 1 - i)

/-- The number of bits. -/
def bitsNum (s : List Bool) : Nat := s.foldl (fun v b => 2 * v + b.toNat) 0

/-- Exclusive or, as far as both go. -/
def xorBits (s t : List Bool) : List Bool := s.zipWith (· ^^ ·) t

@[simp] theorem length_byteBits : (byteBits b).length = 8 := rfl

@[simp] theorem bits_nil : bits [] = [] := rfl

@[simp] theorem bits_cons : bits (b :: bs) = byteBits b ++ bits bs := flatMap_cons

@[simp] theorem bits_append : bits (bs ++ cs) = bits bs ++ bits cs := flatMap_append

@[simp] theorem length_bits : (bits bs).length = 8 * bs.length := by
  induction bs with
  | nil => rfl
  | cons b bs ih =>
    rw [bits_cons, length_append, length_byteBits, ih, length_cons]
    omega

theorem getElem?_byteBits (hj : j < 8) : (byteBits b)[j]? = some (b.toBitVec.getMsbD j) := by
  rw [byteBits, getElem?_map, getElem?_range hj]
  rfl

theorem getElem?_bits (hj : j < 8) : (bits bs)[8 * i + j]? = bs[i]?.map fun b => b.toBitVec.getMsbD j := by
  induction bs generalizing i with
  | nil => rfl
  | cons b bs ih =>
    rw [bits_cons]
    cases i with
    | zero => rw [getElem?_append_left (by rw [length_byteBits]; omega), mul_zero, zero_add,
        getElem?_byteBits hj]; rfl
    | succ i =>
      rw [getElem?_append_right (by rw [length_byteBits]; omega), length_byteBits,
        show 8 * (i + 1) + j - 8 = 8 * i + j by omega, ih]
      rfl

theorem bits_take : bits (bs.take n) = (bits bs).take (8 * n) := by
  induction bs generalizing n with
  | nil => rw [take_nil, bits_nil, take_nil]
  | cons b bs ih =>
    cases n with
    | zero => rfl
    | succ n =>
      have hfirst : (byteBits b).take (8 * (n + 1)) = byteBits b :=
        take_of_length_le (by rw [length_byteBits]; omega)
      rw [take_succ_cons, bits_cons, bits_cons, ih, take_append, length_byteBits, hfirst,
        show 8 * (n + 1) - 8 = 8 * n by omega]

theorem bits_drop : bits (bs.drop n) = (bits bs).drop (8 * n) := by
  induction bs generalizing n with
  | nil => rw [drop_nil, bits_nil, drop_nil]
  | cons b bs ih =>
    cases n with
    | zero => rfl
    | succ n =>
      have hfirst : (byteBits b).drop (8 * (n + 1)) = [] := drop_eq_nil_of_le (by rw [length_byteBits]; omega)
      rw [drop_succ_cons, bits_cons, ih, drop_append, length_byteBits, hfirst,
        show 8 * (n + 1) - 8 = 8 * n by omega, nil_append]

theorem getMsbD_ofByteBits (hj : j < 8) : (ofByteBits s).toBitVec.getMsbD j = s[j]?.getD false := by
  unfold ofByteBits
  rw [BitVec.getMsbD_cast, BitVec.getMsbD_ofBoolListBE, getD_eq_getElem?_getD, getElem?_map,
    getElem?_range hj]
  rfl

theorem byte_ext {a b : UInt8} (h : ∀ j < 8, a.toBitVec.getMsbD j = b.toBitVec.getMsbD j) : a = b := by
  apply UInt8.toBitVec_inj.mp
  exact BitVec.eq_of_getMsbD_eq h

theorem Block.getMsbD_ofBits (hi : i < k) (hj : j < 8) :
    (ofBits k s)[i].toBitVec.getMsbD j = s[8 * i + j]?.getD false := by
  unfold ofBits
  rw [Vector.getElem_ofFn, getMsbD_ofByteBits hj, getElem?_drop]

theorem Block.eq_ofBits {a : Block k} (h : ∀ i j (hi : i < k), j < 8 → a[i].toBitVec.getMsbD j =
    s[8 * i + j]?.getD false) : a = ofBits k s := by
  refine Vector.ext fun i hi => byte_ext fun j hj => ?_
  rw [h i j hi hj, getMsbD_ofBits hi hj]

theorem bitsNum_lt : bitsNum s < 2 ^ s.length := by
  have h : ∀ (s : List Bool) v n, v < 2 ^ n → s.foldl (fun v b => 2 * v + b.toNat) v < 2 ^ (n + s.length) := by
    intro s
    induction s with
    | nil => exact fun _ _ hv => hv
    | cons b s ih =>
      intro v n hv
      have hb := b.toNat_lt
      have hnext : 2 * v + b.toNat < 2 ^ (n + 1) := by
        omega
      rw [foldl_cons, length_cons, add_comm s.length, ← add_assoc]
      exact ih _ _ hnext
  have := h s 0 0 (by decide)
  rwa [zero_add] at this

theorem Block.ofList_eq_ofBits : ofList k bs = ofBits k (bits bs) := by
  refine eq_ofBits fun i j hi hj => ?_
  rw [getElem_ofList, getElem?_bits hj]
  cases bs[i]? with
  | none => exact BitVec.getMsbD_zero
  | some b => rfl

theorem Block.ofBits_append_false : ofBits k (s ++ replicate n false) = ofBits k s := by
  refine eq_ofBits fun i j hi hj => ?_
  rw [getMsbD_ofBits hi hj]
  by_cases hlt : 8 * i + j < s.length
  · rw [getElem?_append_left hlt]
  · rw [getElem?_append_right (by omega), getElem?_eq_none (l := s) (by omega), getElem?_replicate]
    split <;> rfl

theorem bits_replicate_zero : bits (replicate n 0) = replicate (8 * n) false := by
  induction n with
  | zero => rfl
  | succ n ih =>
    rw [replicate_succ, bits_cons, ih, show byteBits 0 = replicate 8 false from rfl,
      replicate_append_replicate, Nat.mul_succ, add_comm]

theorem bits_xorBytes : bits (xorBytes bs cs) = xorBits (bits bs) (bits cs) := by
  induction bs generalizing cs with
  | nil => rfl
  | cons b bs ih =>
    cases cs with
    | nil =>
      unfold xorBits
      rfl
    | cons c cs =>
      have hbyte : byteBits (b ^^^ c) = xorBits (byteBits b) (byteBits c) := by
        unfold xorBits byteBits
        exact map_congr_left fun j _ => BitVec.getMsbD_xor
      have hcons : xorBytes (b :: bs) (c :: cs) = (b ^^^ c) :: xorBytes bs cs := rfl
      rw [hcons, bits_cons, bits_cons, bits_cons, ih, hbyte]
      exact (zipWith_append (by rw [length_byteBits, length_byteBits])).symm

end Riot.Lib
