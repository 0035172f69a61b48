import Mathlib.Data.BitVec

/-!
# Serial numbers

Numbers that count modulo `2 ^ w` and are compared by the sign of their signed
difference. The difference is computed in a signed type of the same width, so a
comparison has an answer only if the two signed values lie less than `2 ^ (w - 1)`
apart; a pair of numbers can be close in the sequence and have none.
-/

namespace Riot.Lib

open Option Int

variable {w : Nat} {x y z k : BitVec w} {b b' : Bool}

/-- The difference of the signed values, if it is in the range of the type. -/
def signedSub (x y : BitVec w) : Option Int :=
  if -2 ^ w ≤ 2 * (x.toInt - y.toInt) ∧ 2 * (x.toInt - y.toInt) < 2 ^ w then
    some (x.toInt - y.toInt)
  else none

/-- The signed values are so close that there is an answer. -/
def Comparable (x y : BitVec w) : Prop :=
  -2 ^ w ≤ 2 * (x.toInt - y.toInt) ∧ 2 * (x.toInt - y.toInt) < 2 ^ w

instance (x y : BitVec w) : Decidable (Comparable x y) := inferInstanceAs (Decidable (_ ∧ _))

/-- `x` is before `y`. -/
def serialLt (x y : BitVec w) : Option Bool := (signedSub x y).map fun d => decide (d < 0)

/-- `x` is not behind `y`. -/
def serialLe (x y : BitVec w) : Option Bool := (signedSub x y).map fun d => decide (d ≤ 0)

/-- How far `y` is ahead of `x`, counting upwards. -/
def ahead (x y : BitVec w) : Nat := (y - x).toNat

theorem ahead_self : ahead x x = 0 := by
  rw [ahead, BitVec.sub_self]
  rfl

theorem ahead_lt : ahead x y < 2 ^ w := (y - x).isLt

theorem ahead_add_add : ahead (x + k) (y + k) = ahead x y := by
  rw [ahead, ahead, add_sub_add_right_eq_sub]

theorem add_ahead : x + BitVec.ofNat w (ahead x y) = y := by
  rw [ahead, BitVec.ofNat_toNat, BitVec.setWidth_eq, add_sub_cancel]

/-- Where there is an answer, the signed difference is the one modulo `2 ^ w`. -/
theorem signedSub_eq {d : Int} (h : signedSub x y = some d) : d = (x - y).toInt := by
  unfold signedSub at h
  split at h
  · rw [some.injEq] at h
    rw [BitVec.toInt_sub, ← h]
    refine (bmod_eq_of_le_mul_two ?_ ?_).symm
    · push_cast
      omega
    · push_cast
      omega
  · cases h

/-- **The comparisons do not depend on where the numbers start**, wherever they have
an answer. -/
theorem serialLt_add (h : serialLt x y = some b) (h' : serialLt (x + k) (y + k) = some b') : b' = b := by
  obtain ⟨d, hd, rfl⟩ := map_eq_some_iff.mp h
  obtain ⟨d', hd', rfl⟩ := map_eq_some_iff.mp h'
  rw [signedSub_eq hd, signedSub_eq hd', add_sub_add_right_eq_sub]

theorem serialLe_add (h : serialLe x y = some b) (h' : serialLe (x + k) (y + k) = some b') : b' = b := by
  obtain ⟨d, hd, rfl⟩ := map_eq_some_iff.mp h
  obtain ⟨d', hd', rfl⟩ := map_eq_some_iff.mp h'
  rw [signedSub_eq hd, signedSub_eq hd', add_sub_add_right_eq_sub]

theorem signedSub_of_comparable (h : Comparable x y) : signedSub x y = some (x.toInt - y.toInt) := if_pos h

theorem serialLt_of_comparable (h : Comparable x y) : serialLt x y = some (x.slt y) := by
  rw [serialLt, signedSub_of_comparable h]
  exact congrArg some (decide_eq_decide.mpr sub_neg)

theorem serialLe_of_comparable (h : Comparable x y) : serialLe x y = some (x.sle y) := by
  rw [serialLe, signedSub_of_comparable h]
  exact congrArg some (decide_eq_decide.mpr sub_nonpos)

theorem comparable_self : Comparable x x := by
  have hcast : ((2 ^ w : Nat) : Int) = 2 ^ w := by push_cast; rfl
  have hpos : 0 < 2 ^ w := Nat.two_pow_pos w
  unfold Comparable
  omega

/-! ## What an answer says about the distance -/

theorem serialLt_toInt (h : serialLt x y = some b) : b = decide (x.toInt < y.toInt) := by
  obtain ⟨d, hd, rfl⟩ := map_eq_some_iff.mp h
  unfold signedSub at hd
  split at hd
  · cases hd
    exact decide_eq_decide.mpr (by omega)
  · cases hd

theorem serialLe_toInt (h : serialLe x y = some b) : b = decide (x.toInt ≤ y.toInt) := by
  obtain ⟨d, hd, rfl⟩ := map_eq_some_iff.mp h
  unfold signedSub at hd
  split at hd
  · cases hd
    exact decide_eq_decide.mpr (by omega)
  · cases hd

theorem ahead_eq_emod : (ahead x y : Int) = (y.toInt - x.toInt) % (2 ^ w : Nat) := by
  have h : ((y - x).toNat : Int) = (y - x).toInt % (2 ^ w : Nat) := by
    rw [BitVec.toInt_eq_toNat_bmod, bmod_emod]
    exact (emod_eq_of_lt (natCast_nonneg _) (ofNat_lt.mpr (y - x).isLt)).symm
  rw [ahead, h, BitVec.toInt_sub, bmod_emod]

theorem ahead_of_toInt_le (h : x.toInt ≤ y.toInt) : (ahead x y : Int) = y.toInt - x.toInt := by
  have hy : 2 * y.toInt < 2 ^ w := BitVec.two_mul_toInt_lt
  have hx : -2 ^ w ≤ 2 * x.toInt := BitVec.le_two_mul_toInt
  rw [ahead_eq_emod]
  refine emod_eq_of_lt (by omega) ?_
  push_cast
  omega

/-- A number between two others, as the comparisons see it, lies between them. -/
theorem between_of_serial (hlt : serialLt x y = some true) (hle : serialLe y z = some true) :
    0 < ahead x y ∧ ahead x y ≤ ahead x z := by
  have h1 : x.toInt < y.toInt := of_decide_eq_true (serialLt_toInt hlt).symm
  have h2 : y.toInt ≤ z.toInt := of_decide_eq_true (serialLe_toInt hle).symm
  have hxy : (ahead x y : Int) = y.toInt - x.toInt := ahead_of_toInt_le h1.le
  have hxz : (ahead x z : Int) = z.toInt - x.toInt := ahead_of_toInt_le (h1.le.trans h2)
  omega

/-- The distance of two numbers that a comparison puts in order is less than half of the way
around. -/
theorem serialLt_true (h : serialLt x y = some true) : 0 < ahead x y ∧ 2 * ahead x y ≤ 2 ^ w := by
  have hlt : x.toInt < y.toInt := of_decide_eq_true (serialLt_toInt h).symm
  have hxy : (ahead x y : Int) = y.toInt - x.toInt := ahead_of_toInt_le hlt.le
  obtain ⟨d, hd, -⟩ := map_eq_some_iff.mp h
  unfold signedSub at hd
  split at hd
  · have hcast : ((2 ^ w : Nat) : Int) = 2 ^ w := by push_cast; rfl
    omega
  · cases hd

theorem serialLt_false (h : serialLt x y = some false) : 2 * ahead y x < 2 ^ w := by
  have hle : ¬x.toInt < y.toInt := of_decide_eq_false (serialLt_toInt h).symm
  have hyx : (ahead y x : Int) = x.toInt - y.toInt := ahead_of_toInt_le (not_lt.mp hle)
  obtain ⟨d, hd, -⟩ := map_eq_some_iff.mp h
  unfold signedSub at hd
  split at hd
  · have hcast : ((2 ^ w : Nat) : Int) = 2 ^ w := by push_cast; rfl
    omega
  · cases hd

/-! ## Distances -/

theorem ahead_add_right : ahead x (x + y) = y.toNat := by
  rw [ahead, add_sub_cancel_left]

theorem ahead_add (h : ahead x y + ahead y z < 2 ^ w) : ahead x z = ahead x y + ahead y z := by
  have hsum : z - x = (y - x) + (z - y) := by rw [add_comm, sub_add_sub_cancel]
  rw [ahead, hsum, BitVec.toNat_add]
  exact Nat.mod_eq_of_lt h

theorem ahead_sub (h : ahead x y ≤ ahead x z) : ahead y z = ahead x z - ahead x y := by
  have hdiff : z - y = (z - x) - (y - x) := (sub_sub_sub_cancel_right z y x).symm
  rw [ahead, hdiff]
  exact BitVec.toNat_sub_of_le h

theorem ahead_swap (h : ahead x y ≠ 0) : ahead y x = 2 ^ w - ahead x y := by
  have hneg : x - y = -(y - x) := (neg_sub y x).symm
  rw [ahead, hneg, BitVec.toNat_neg]
  exact Nat.mod_eq_of_lt (by unfold ahead at *; omega)

/-- **A segment is acknowledged exactly if its last number is before the acknowledgment**, which lies
between a number of the segment and the end of it. -/
theorem serialLt_last {seq len una ack : BitVec w} (hlen : 2 * len.toNat < 2 ^ w)
    (hseg : ahead seq una < len.toNat) (hpos : 0 < ahead una ack)
    (hle : ahead una ack ≤ ahead una (seq + len)) (hlt : serialLt (seq + len - 1) ack = some b) :
    (b = true ∧ ack = seq + len) ∨ (b = false ∧ ahead seq ack < len.toNat) := by
  have hend : ahead seq (seq + len) = len.toNat := ahead_add_right
  have hrest : ahead una (seq + len) = len.toNat - ahead seq una := by
    rw [ahead_sub (x := seq) (by omega), hend]
  have hsum : ahead seq ack = ahead seq una + ahead una ack := ahead_add (by omega)
  have hlast : ahead seq (seq + len - 1) = len.toNat - 1 := by
    have hlarge : 1 < 2 ^ w := by omega
    have hone : (1 : BitVec w).toNat = 1 := Nat.mod_eq_of_lt hlarge
    rw [add_sub_assoc, ahead_add_right, BitVec.toNat_sub_of_le (by rw [BitVec.le_def]; omega), hone]
  by_cases heq : ahead seq ack = len.toNat
  · have hack : ack = seq + len := by
      rw [← add_ahead (x := seq) (y := ack), heq, BitVec.ofNat_toNat, BitVec.setWidth_eq]
    refine .inl ⟨?_, hack⟩
    cases b with
    | true => rfl
    | false =>
      have hfar : 2 * ahead ack (seq + len - 1) < 2 ^ w := serialLt_false hlt
      have hback : ahead (seq + len - 1) ack = 1 := by
        rw [ahead_sub (x := seq) (by omega), heq, hlast]
        omega
      have hswap : ahead ack (seq + len - 1) = 2 ^ w - 1 := by
        rw [ahead_swap (x := seq + len - 1) (by omega), hback]
      omega
  · refine .inr ⟨?_, by omega⟩
    cases b with
    | false => rfl
    | true =>
      have hnear := serialLt_true hlt
      have hdist : ahead ack (seq + len - 1) = len.toNat - 1 - ahead seq ack := by
        rw [ahead_sub (x := seq) (by omega), hlast]
      have hswap : ahead (seq + len - 1) ack = 2 ^ w - ahead ack (seq + len - 1) := by
        refine ahead_swap fun h0 => ?_
        have hself : ack = seq + len - 1 := by
          rw [← add_ahead (x := ack) (y := seq + len - 1), h0]
          simp
        rw [← hself, ahead_self] at hnear
        omega
      omega

end Riot.Lib
