import Mathlib

/-!
# Binary long division

Quotient and remainder of a number whose bits are taken one after the other, and what comes of
scaling by a quotient that is rounded up: the product is never too small, and at most one too large.
-/

namespace Riot.Lib

open Nat

/-- `q` and `r` are quotient and remainder of `n` by `d`. -/
structure DivMod (n d q r : Nat) : Prop where
  eq : q * d + r = n
  lt : r < d

namespace DivMod

variable {n d q r : Nat}

theorem zero (h : 0 < d) : DivMod 0 d 0 0 := ⟨by simp, h⟩

theorem pos (h : DivMod n d q r) : 0 < d := lt_of_le_of_lt (zero_le r) h.lt

/-- One step of the division: the next bit of the number enters the remainder. -/
theorem bit (h : DivMod n d q r) {b : Nat} (hb : b < 2) :
    DivMod (2 * n + b) d (if d ≤ 2 * r + b then 2 * q + 1 else 2 * q)
      (if d ≤ 2 * r + b then 2 * r + b - d else 2 * r + b) := by
  have heq := h.eq
  have hlt := h.lt
  have hdouble : 2 * q * d = 2 * (q * d) := mul_assoc 2 q d
  split
  · refine ⟨?_, by omega⟩
    rw [succ_mul, hdouble]
    omega
  · refine ⟨?_, by omega⟩
    omega

theorem quot_le (h : DivMod n d q r) {k : Nat} (hn : n ≤ k * d) : q ≤ k := by
  have heq := h.eq
  exact le_of_mul_le_mul_right (show q * d ≤ k * d by omega) h.pos

theorem le_quot (h : DivMod n d q r) {k : Nat} (hn : k * d ≤ n) : k ≤ q := by
  have heq := h.eq
  have hlt := h.lt
  refine le_of_lt_succ (Nat.lt_of_mul_lt_mul_right (a := d) ?_)
  rw [Nat.succ_mul]
  omega

/-- The quotient rounded up: a multiple of the divisor that exceeds the number by less than it. -/
theorem exists_roundUp (h : DivMod n d q r) :
    ∃ e, (if 0 < r then q + 1 else q) * d = n + e ∧ e < d ∧ (r = 0 → e = 0) := by
  have heq := h.eq
  have hlt := h.lt
  split
  · refine ⟨d - r, ?_, by omega, by omega⟩
    rw [succ_mul]
    omega
  · exact ⟨0, by omega, h.pos, fun _ => rfl⟩

/-- A multiple of `m` has no remainder just below `m` times the divisor, if the divisor is at most
`m`: rounding up does not reach `m`. -/
theorem roundUp_lt {m : Nat} (h : DivMod n d q r) (hd : d ≤ m) (hn : m ∣ n) (hq : q < m)
    (hr : 0 < r) : q + 1 < m := by
  have heq := h.eq
  have hlt := h.lt
  rcases lt_or_ge (q + 1) m with hq' | hq'
  · exact hq'
  have hm : m = q + 1 := by omega
  -- what is missing to `m * d` is a multiple of `m` too, but smaller
  have hmiss : m ∣ d - r := by
    have hsum : n + (d - r) = m * d := by
      rw [hm, succ_mul]
      omega
    exact (Nat.dvd_add_right hn).mp ⟨d, hsum⟩
  have hle := le_of_dvd (by omega) hmiss
  omega

end DivMod

/-! ## Scaling -/

variable {num den s e Q : Nat}

private theorem scale_eq (h : Q * den = num * 2 ^ s + e) (x : Nat) :
    den * (Q * x) = x * num * 2 ^ s + e * x := by
  calc den * (Q * x) = Q * den * x := by ring
    _ = x * num * 2 ^ s + e * x := by rw [h]; ring

/-- Scaling by a ratio that was rounded up gives at least the rounded down product. -/
theorem le_scale (hden : 0 < den) (h : Q * den = num * 2 ^ s + e) (x : Nat) :
    x * num / den ≤ Q * x / 2 ^ s := by
  rw [Nat.le_div_iff_mul_le (Nat.two_pow_pos s)]
  refine Nat.le_of_mul_le_mul_left (c := den) ?_ hden
  calc den * (x * num / den * 2 ^ s) = den * (x * num / den) * 2 ^ s := by ring
    _ ≤ x * num * 2 ^ s := Nat.mul_le_mul_right _ (Nat.mul_div_le _ _)
    _ ≤ x * num * 2 ^ s + e * x := le_add_right _ _
    _ = den * (Q * x) := (scale_eq h x).symm

/-- The product stays below a bound `b` that the true one stays below by more than the error. -/
theorem scale_lt (h : Q * den = num * 2 ^ s + e) {x b : Nat}
    (hb : x * num * 2 ^ s + e * x < den * b * 2 ^ s) : Q * x / 2 ^ s < b := by
  rw [Nat.div_lt_iff_lt_mul (Nat.two_pow_pos s)]
  refine Nat.lt_of_mul_lt_mul_left (a := den) ?_
  calc den * (Q * x) = x * num * 2 ^ s + e * x := scale_eq h x
    _ < den * b * 2 ^ s := hb
    _ = den * (b * 2 ^ s) := mul_assoc _ _ _

theorem scale_le (hden : 0 < den) (h : Q * den = num * 2 ^ s + e) (he : e < den) {x : Nat}
    (hx : x ≤ 2 ^ s) : Q * x / 2 ^ s ≤ x * num / den + 1 := by
  refine le_of_lt_succ (scale_lt h ?_)
  have hfloor : x * num < den * (x * num / den + 1) := lt_mul_div_succ _ hden
  have herr : e * x ≤ den * 2 ^ s := Nat.mul_le_mul he.le hx
  calc x * num * 2 ^ s + e * x
      < den * (x * num / den + 1) * 2 ^ s + den * 2 ^ s :=
        Nat.add_lt_add_of_lt_of_le (Nat.mul_lt_mul_of_pos_right hfloor (Nat.two_pow_pos s)) herr
    _ = den * (x * num / den + 1 + 1) * 2 ^ s := by ring

theorem scale_exact (hden : 0 < den) (h : Q * den = num * 2 ^ s + e) {x : Nat}
    (hx : e * x < 2 ^ s) : Q * x / 2 ^ s = x * num / den := by
  refine le_antisymm (le_of_lt_succ (scale_lt h ?_)) (le_scale hden h x)
  have hfloor : x * num + 1 ≤ den * (x * num / den + 1) := lt_mul_div_succ _ hden
  calc x * num * 2 ^ s + e * x < x * num * 2 ^ s + 2 ^ s := Nat.add_lt_add_left hx _
    _ = (x * num + 1) * 2 ^ s := by ring
    _ ≤ den * (x * num / den + 1) * 2 ^ s := mul_le_mul_right _ hfloor

end Riot.Lib
