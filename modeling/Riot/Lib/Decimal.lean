import Mathlib

/-!
# Decimals in groups of digits

A number written as the digits of its high part followed by a fixed number of digits of the low
one, leading zeros included. What a decimal with a point stands for.
-/

namespace Riot.Lib

open List Nat

/-- The last `k` digits of `n`. -/
def lowDigits : Nat → Nat → List Char
  | 0, _ => []
  | k + 1, n => lowDigits k (n / 10) ++ [Nat.digitChar (n % 10)]

variable {k n a : Nat}

@[simp] theorem length_lowDigits : (lowDigits k n).length = k := by
  induction k generalizing n with
  | zero => rfl
  | succ k ih => rw [lowDigits, length_append, ih, length_singleton]

theorem lowDigits_zero : lowDigits k 0 = replicate k '0' := by
  induction k with
  | zero => rfl
  | succ k ih =>
    rw [lowDigits, Nat.zero_div, ih, replicate_succ']
    rfl

theorem toDigits_succ (h : 0 < n) {d : Nat} (hd : d < 10) :
    toDigits 10 (10 * n + d) = toDigits 10 n ++ [digitChar d] := by
  rw [← toDigits_append_toDigits (by omega) h hd, toDigits_of_lt_base hd]

/-- Taking off the last digit of a number in two parts takes it off the low one. -/
theorem mul_pow_succ_add (a k n : Nat) : a * 10 ^ (k + 1) + n = 10 * (a * 10 ^ k + n / 10) + n % 10 := by
  rw [mul_add, add_assoc, div_add_mod]
  ring

theorem div_lt_pow (hn : n < 10 ^ (k + 1)) : n / 10 < 10 ^ k :=
  Nat.div_lt_of_lt_mul (by rwa [Nat.mul_comm, ← Nat.pow_succ])

theorem lowDigits_add (j : Nat) (hn : n < 10 ^ k) :
    lowDigits (j + k) (a * 10 ^ k + n) = lowDigits j a ++ lowDigits k n := by
  induction k generalizing n with
  | zero =>
    rw [show n = 0 by omega, pow_zero, mul_one, add_zero, add_zero, lowDigits,
      append_nil]
  | succ k ih =>
    have hmod : n % 10 < 10 := mod_lt n (by omega)
    rw [mul_pow_succ_add, ← add_assoc, lowDigits, mul_add_div (by omega),
      div_eq_of_lt hmod, add_zero, ih (div_lt_pow hn), mul_add_mod,
      mod_eq_of_lt hmod, lowDigits, append_assoc]

/-- The digits of the high part, then as many of the low part as it has been shifted by. -/
theorem toDigits_mul_pow_add (ha : 0 < a) (hn : n < 10 ^ k) :
    toDigits 10 (a * 10 ^ k + n) = toDigits 10 a ++ lowDigits k n := by
  induction k generalizing n with
  | zero =>
    rw [show n = 0 by omega, pow_zero, mul_one, add_zero, lowDigits, append_nil]
  | succ k ih =>
    have hpos : 0 < a * 10 ^ k + n / 10 := Nat.add_pos_left (Nat.mul_pos ha (Nat.pow_pos (by omega))) _
    rw [mul_pow_succ_add, toDigits_succ hpos (mod_lt n (by omega)), ih (div_lt_pow hn),
      lowDigits, append_assoc]

theorem lowDigits_eq (hn : n < 10 ^ k) (hk : 0 < k) :
    lowDigits k n = replicate (k - (toDigits 10 n).length) '0' ++ toDigits 10 n := by
  induction k generalizing n with
  | zero => exact absurd hk (lt_irrefl 0)
  | succ k ih =>
    rcases lt_or_ge n 10 with h | h
    · rw [lowDigits, div_eq_of_lt h, lowDigits_zero, mod_eq_of_lt h,
        Nat.toDigits_of_lt_base h, length_singleton, Nat.add_sub_cancel]
    · have hk : 0 < k := by
        rcases Nat.eq_zero_or_pos k with rfl | hk
        · omega
        · exact hk
      rw [lowDigits, ih (div_lt_pow hn) hk, toDigits_of_base_le (n := n) (by omega) h, append_assoc,
        length_append, length_singleton, Nat.add_sub_add_right]

theorem isDigit_toDigits : ∀ d ∈ toDigits 10 n, d.isDigit = true :=
  fun _ hd => isDigit_of_mem_toDigits (by omega) (by omega) hd

theorem digitChar_ne_zero {d : Nat} (h0 : 0 < d) (h : d < 10) : digitChar d ≠ '0' := by
  intro heq
  have hval := toNat_digitChar_of_lt_ten h
  rw [heq] at hval
  have : '0'.toNat = 48 := rfl
  omega

theorem head_toDigits (h : 0 < n) : (toDigits 10 n).head? ≠ some '0' := by
  induction n using Nat.strongRecOn with
  | ind n ih =>
    rcases lt_or_ge n 10 with hlt | hge
    · rw [toDigits_of_lt_base hlt, head?_cons, ne_eq, Option.some.injEq]
      exact digitChar_ne_zero h hlt
    · rw [toDigits_of_base_le (by omega) hge, head?_append_of_ne_nil _ toDigits_ne_nil]
      exact ih (n / 10) (by omega) (by omega)

/-- The number of digits is one more than the last power of ten that the number reaches. -/
theorem length_toDigits_eq (hlow : k = 0 ∨ 10 ^ k ≤ n) (hhigh : n < 10 ^ (k + 1)) :
    (toDigits 10 n).length = k + 1 := by
  have hle := (length_toDigits_le_iff (b := 10) (by omega) (succ_pos k)).mpr hhigh
  have hpos := length_toDigits_pos (b := 10) (n := n)
  rcases Nat.eq_zero_or_pos k with rfl | hk
  · omega
  · have hgt := (length_toDigits_le_iff (n := n) (b := 10) (by omega) hk).not.mpr (by omega)
    omega

/-! ## Values -/

/-- The value of a decimal without a sign: digits and, behind a point if there is one, more digits. -/
def unsignedValue (s : List Char) : Option ℚ :=
  let ip := s.takeWhile Char.isDigit
  match s.dropWhile Char.isDigit with
  | [] => if ip = [] then none else some (Nat.ofDigitChars 10 ip 0)
  | c :: fp =>
    if c = '.' ∧ ip ≠ [] ∧ fp ≠ [] ∧ ∀ d ∈ fp, d.isDigit = true then
      some (Nat.ofDigitChars 10 (ip ++ fp) 0 / 10 ^ fp.length)
    else none

/-- The value of a decimal. -/
def decimalValue : List Char → Option ℚ
  | '-' :: s => (unsignedValue s).map (- ·)
  | s => unsignedValue s

variable {s ip fp : List Char}

theorem unsignedValue_digits (hs : ∀ d ∈ s, d.isDigit = true) (hne : s ≠ []) :
    unsignedValue s = some (ofDigitChars 10 s 0 : ℚ) := by
  have htake : s.takeWhile Char.isDigit = s := takeWhile_eq_self_iff.mpr hs
  have hdrop : s.dropWhile Char.isDigit = [] := dropWhile_eq_nil_iff.mpr hs
  simp only [unsignedValue, htake, hdrop, if_neg hne]

theorem unsignedValue_point (hip : ∀ d ∈ ip, d.isDigit = true) (hipne : ip ≠ [])
    (hfp : ∀ d ∈ fp, d.isDigit = true) (hfpne : fp ≠ []) :
    unsignedValue (ip ++ '.' :: fp) = some (ofDigitChars 10 (ip ++ fp) 0 / 10 ^ fp.length : ℚ) := by
  have htake : (ip ++ '.' :: fp).takeWhile Char.isDigit = ip := by
    rw [takeWhile_append_of_pos hip, takeWhile_cons_of_neg (by decide), append_nil]
  have hdrop : (ip ++ '.' :: fp).dropWhile Char.isDigit = '.' :: fp := by
    rw [dropWhile_append_of_pos hip, dropWhile_cons_of_neg (by decide)]
  simp only [unsignedValue, htake, hdrop]
  rw [if_pos ⟨trivial, hipne, hfpne, hfp⟩]

theorem decimalValue_of_digit {c : Char} (hc : c.isDigit = true) :
    decimalValue (c :: s) = unsignedValue (c :: s) := by
  have hne : c ≠ '-' := by
    rintro rfl
    exact absurd hc (by decide)
  rw [decimalValue]
  rintro _ ⟨⟩
  exact hne rfl

end Riot.Lib
