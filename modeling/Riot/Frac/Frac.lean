import Riot.Core.Bitarithm
import Riot.Lib.LongDivision

/-!
# Scaling by fractions

`sys/frac`: a 32 bit integer is multiplied by a fraction as a multiplication and a shift. The
factor comes from a binary long division that stops when its quotient fills 32 bits, so that as
many fractional bits are kept as fit.
-/

namespace Riot.Frac

open Riot.Core Riot.Lib Nat

/-! ## `gcd32` -/

variable {k num p u v : Nat}

theorem shiftRight_one_lt (hu : 0 < u) : u >>> 1 < u := by
  omega

theorem shiftRight_one_pos (hu : 0 < u) (h : u &&& 1 = 0) : 0 < u >>> 1 := by
  rw [and_one_is_mod] at h
  omega

theorem or_and_one_eq_zero : (u ||| v) &&& 1 = 0 ↔ u &&& 1 = 0 ∧ v &&& 1 = 0 := by
  rw [and_or_distrib_right, or_eq_zero_iff]

/-- The two numbers of `gcd32` once neither is zero, and the factors of 2 taken out of both. -/
structure GcdState where
  u : Nat
  v : Nat
  shift : Nat
  u_pos : 0 < u
  v_pos : 0 < v

/-- The loop `for (shift = 0; ((u | v) & 1) == 0; ++shift)`. -/
def removeCommonTwos (c : GcdState) : GcdState :=
  if h : (c.u ||| c.v) &&& 1 = 0 then
    removeCommonTwos
      { u := c.u >>> 1, v := c.v >>> 1, shift := c.shift + 1
        u_pos := shiftRight_one_pos c.u_pos (or_and_one_eq_zero.mp h).1
        v_pos := shiftRight_one_pos c.v_pos (or_and_one_eq_zero.mp h).2 }
  else c
termination_by c.u
decreasing_by exact shiftRight_one_lt c.u_pos

/-- The loop `while ((u & 1) == 0) { u >>= 1; }`, which ends for non-zero `u`. -/
def removeTwos (u : Nat) (hu : 0 < u) : {w : Nat // 0 < w ∧ w ≤ u} :=
  if h : u &&& 1 = 0 then
    have hlt := shiftRight_one_lt hu
    let w := removeTwos (u >>> 1) (shiftRight_one_pos hu h)
    ⟨w.1, w.2.1, w.2.2.trans hlt.le⟩
  else ⟨u, hu, Nat.le_refl u⟩
termination_by u

/-- The loop `do { .. } while (v != 0)` of `gcd32`. -/
def gcd32Loop (u v : Nat) (hu : 0 < u) (hv : 0 < v) : Nat :=
  let w := removeTwos v hv
  -- `u` and `w` change places if they are not in order
  if h : max u w.1 - min u w.1 = 0 then min u w.1
  else
    gcd32Loop (min u w.1) (max u w.1 - min u w.1) (Nat.lt_min.mpr ⟨hu, w.2.1⟩)
      (Nat.pos_of_ne_zero h)
termination_by u + v
decreasing_by
  have hw := (removeTwos v hv).2
  omega

def gcd32 (u v : Nat) : Nat :=
  if hu : u = 0 then v
  else if hv : v = 0 then u
  else
    let c := removeCommonTwos ⟨u, v, 0, Nat.pos_of_ne_zero hu, Nat.pos_of_ne_zero hv⟩
    let w := removeTwos c.u c.u_pos
    gcd32Loop w.1 c.v w.2.1 c.v_pos <<< c.shift % 2 ^ 32

/-! ## The greatest common divisor -/

theorem two_mul_shiftRight_one (h : u &&& 1 = 0) : 2 * (u >>> 1) = u := by
  rw [and_one_is_mod] at h
  omega

theorem coprime_two_of_and_one (h : u &&& 1 ≠ 0) : Nat.Coprime 2 u := by
  rw [and_one_is_mod] at h
  rw [coprime_two_left]
  exact odd_iff.mpr (by omega)

theorem removeTwos_odd (hu : 0 < u) : (removeTwos u hu).1 &&& 1 ≠ 0 := by
  fun_induction removeTwos u hu with
  | case1 u hu h _ w ih => exact ih
  | case2 u hu h => exact h

/-- Factors of 2 do not matter to the greatest common divisor with an odd number. -/
theorem gcd_removeTwos (hv : 0 < v) (hu : Nat.Coprime 2 u) : u.gcd (removeTwos v hv).1 = u.gcd v := by
  fun_induction removeTwos v hv with
  | case1 v hv h _ w ih =>
    rw [show w.1 = (removeTwos (v >>> 1) _).1 from rfl, ih]
    conv_rhs => rw [← two_mul_shiftRight_one h]
    exact (hu.gcd_mul_left_cancel_right _).symm
  | case2 v hv h => rfl

theorem gcd_min_max_sub (u w : Nat) : (min u w).gcd (max u w - min u w) = u.gcd w := by
  rcases le_total u w with h | h
  · rw [min_eq_left h, max_eq_right h, gcd_sub_self_right h]
  · rw [min_eq_right h, max_eq_left h, gcd_sub_self_right h, gcd_comm]

theorem gcd32Loop_eq (hu : 0 < u) (hv : 0 < v) (hodd : Nat.Coprime 2 u) : gcd32Loop u v hu hv = u.gcd v := by
  fun_induction gcd32Loop u v hu hv with
  | case1 u v hu hv w h =>
    have heq : u = w.1 := by omega
    rw [← gcd_removeTwos hv hodd, ← show w.1 = (removeTwos v hv).1 from rfl, ← heq, min_self, gcd_self]
  | case2 u v hu hv w h ih =>
    have hmin : Nat.Coprime 2 (min u w.1) := by
      rcases le_total u w.1 with hle | hle
      · rwa [min_eq_left hle]
      · rw [min_eq_right hle]
        exact coprime_two_of_and_one (removeTwos_odd hv)
    rw [ih hmin, gcd_min_max_sub]
    exact gcd_removeTwos hv hodd

/-- After the common factors are gone one of the two numbers is odd; nothing else is lost. -/
theorem removeCommonTwos_spec (c : GcdState) :
    ((removeCommonTwos c).u &&& 1 ≠ 0 ∨ (removeCommonTwos c).v &&& 1 ≠ 0) ∧
    (removeCommonTwos c).u.gcd (removeCommonTwos c).v * 2 ^ (removeCommonTwos c).shift =
      c.u.gcd c.v * 2 ^ c.shift := by
  fun_induction removeCommonTwos c with
  | case1 c h ih =>
    refine ⟨ih.1, ih.2.trans ?_⟩
    have heven := or_and_one_eq_zero.mp h
    conv_rhs => rw [← two_mul_shiftRight_one heven.1, ← two_mul_shiftRight_one heven.2, gcd_mul_left]
    ring
  | case2 c h =>
    rw [or_and_one_eq_zero] at h
    exact ⟨by tauto, rfl⟩

/-- Once one of the numbers is odd, the factors of 2 of `u` are not common ones. -/
theorem gcd32Loop_removeTwos (c : GcdState) (h : c.u &&& 1 ≠ 0 ∨ c.v &&& 1 ≠ 0) :
    gcd32Loop (removeTwos c.u c.u_pos).1 c.v (removeTwos c.u c.u_pos).2.1 c.v_pos = c.u.gcd c.v := by
  rw [gcd32Loop_eq _ _ (coprime_two_of_and_one (removeTwos_odd c.u_pos))]
  rcases h with h | h
  · rw [removeTwos, dif_neg h]
  · rw [gcd_comm, gcd_removeTwos c.u_pos (coprime_two_of_and_one h), gcd_comm]

/-- `gcd32` is the greatest common divisor; the shift at its end loses no bits. -/
theorem gcd32_eq (hu : u < 2 ^ 32) : gcd32 u v = u.gcd v := by
  unfold gcd32
  split
  · next h => rw [h, gcd_zero_left]
  next hu0 =>
  split
  · next h => rw [h, gcd_zero_right]
  next hv0 =>
  have hspec := removeCommonTwos_spec ⟨u, v, 0, pos_of_ne_zero hu0, pos_of_ne_zero hv0⟩
  dsimp only at hspec ⊢
  rw [gcd32Loop_removeTwos _ hspec.1, shiftLeft_eq, hspec.2, pow_zero, mul_one]
  exact mod_eq_of_lt (lt_of_le_of_lt (gcd_le_left v (pos_of_ne_zero hu0)) hu)

/-! ## `frac_long_divide` and `frac_init` -/

/-- The variables of the loop of `frac_long_divide`. -/
structure DivState where
  q : Nat
  r : Nat
  iBits : Int
  numMask : Nat

/-- The body of the loop up to the first check for its end. -/
def fracDivStep (num den : Nat) (s : DivState) : DivState :=
  let r := s.r <<< 1 % 2 ^ 64
  let q := s.q <<< 1 % 2 ^ 32
  let r := if num &&& s.numMask ≠ 0 then r ||| 1 else r
  let r' := if r ≥ den then r - den else r
  let q := if r ≥ den then q ||| 1 else q
  { q := q, r := r', iBits := if q = 0 then s.iBits - 1 else s.iBits, numMask := s.numMask >>> 1 }

/-- The loop of `frac_long_divide`, with the number of passes left. -/
def fracDivLoop (num den : Nat) : Nat → DivState → DivState
  | 0, s => s
  | k + 1, s =>
    let s := fracDivStep num den s
    if s.q &&& 1 <<< 31 ≠ 0 then s
    else if s.r = 0 ∧ num = 0 then s
    else fracDivLoop num den k s

/-- What the loop of `frac_long_divide` leaves, for non-zero `num`. -/
def fracDivEnd (num den : Nat) : DivState :=
  let p := bitarithmMsb (BitVec.ofNat 32 num)
  fracDivLoop num den (64 + p) { q := 0, r := 0, iBits := p + 1, numMask := 1 <<< p }

/-- `frac_long_divide`: the quotient and what is stored through `prec` and `rem`. -/
def fracLongDivide (num den : Nat) : Nat × Int × Nat :=
  if num = 0 then (0, 0, 0)
  else
    let s := fracDivEnd num den
    (if s.r > 0 then (s.q + 1) % 2 ^ 32 else s.q, s.iBits, s.r % 2 ^ 32)

/-- `frac_t` -/
structure FracT where
  frac : Nat
  shift : Nat
deriving DecidableEq, Repr

def fracInit (num den : Nat) : FracT :=
  let gcd := gcd32 num den
  let d := fracLongDivide (num / gcd) (den / gcd)
  { frac := d.1, shift := ((4 * 8 - d.2.1) % 256).toNat }

def fracScale (frac : FracT) (x : Nat) : Nat := (frac.frac * x % 2 ^ 64) >>> frac.shift % 2 ^ 32

/-! ## The long division -/

/-- The bits of `num` that `k` passes take in: the first `p + 1` are those of `num` itself. -/
def takenBits (num p k : Nat) : Nat := num * 2 ^ k / 2 ^ (p + 1)

theorem takenBits_of_le (h : k ≤ p + 1) : takenBits num p k = num / 2 ^ (p + 1 - k) := by
  rw [takenBits, show p + 1 = p + 1 - k + k by omega, pow_add,
    Nat.mul_div_mul_right _ _ (Nat.two_pow_pos k), Nat.add_sub_cancel]

theorem takenBits_of_ge (h : p + 1 ≤ k) : takenBits num p k = num * 2 ^ (k - (p + 1)) := by
  rw [takenBits, show num * 2 ^ k = num * 2 ^ (k - (p + 1)) * 2 ^ (p + 1) by
    rw [mul_assoc, ← pow_add, Nat.sub_add_cancel h], Nat.mul_div_cancel _ (Nat.two_pow_pos _)]

/-- The bit that the mask selects in the next pass. -/
def maskedBit (num p k : Nat) : Nat := if num &&& 2 ^ p / 2 ^ k ≠ 0 then 1 else 0

theorem maskedBit_lt : maskedBit num p k < 2 := by
  unfold maskedBit
  split <;> omega

theorem and_two_pow_ne_zero {n i : Nat} : n &&& 2 ^ i ≠ 0 ↔ n / 2 ^ i % 2 = 1 := by
  rw [and_two_pow, testBit_eq_decide_div_mod_eq]
  by_cases h : n / 2 ^ i % 2 = 1
  · simp [h]
  · simp [h]

theorem takenBits_succ : takenBits num p (k + 1) = 2 * takenBits num p k + maskedBit num p k := by
  rcases lt_or_ge p k with h | h
  · -- the mask is empty by now
    have hmask : 2 ^ p / 2 ^ k = 0 := Nat.div_eq_of_lt (Nat.pow_lt_pow_right (by omega) h)
    rw [maskedBit, hmask, and_zero, if_neg (by simp), takenBits_of_ge (by omega),
      takenBits_of_ge (by omega), show k + 1 - (p + 1) = k - (p + 1) + 1 by omega, pow_succ]
    ring
  · have hhalf : takenBits num p k = takenBits num p (k + 1) / 2 := by
      rw [takenBits_of_le (by omega), takenBits_of_le (by omega), Nat.div_div_eq_div_mul, ← pow_succ]
      congr 2
      omega
    have hbit : maskedBit num p k = takenBits num p (k + 1) % 2 := by
      rw [maskedBit, Nat.pow_div h (by omega), takenBits_of_le (by omega),
        show p + 1 - (k + 1) = p - k by omega]
      by_cases hb : num / 2 ^ (p - k) % 2 = 1
      · rw [if_pos (and_two_pow_ne_zero.mpr hb), hb]
      · rw [if_neg (fun hne => hb (and_two_pow_ne_zero.mp hne))]
        omega
    omega

/-- What holds after `k` passes of the loop. -/
structure DivInv (num den p k : Nat) (s : DivState) : Prop where
  divMod : DivMod (takenBits num p k) den s.q s.r
  iBits : s.iBits = p + 1 - k + (Nat.size s.q : Int)
  numMask : s.numMask = 2 ^ p / 2 ^ k

variable {num den p k : Nat} {s : DivState}

theorem size_two_mul_add {q b : Nat} (hb : b < 2) (h : 2 * q + b ≠ 0) : size (2 * q + b) = size q + 1 := by
  have hbit : bit (decide (b = 1)) q = 2 * q + b := by
    rcases show b = 0 ∨ b = 1 by omega with rfl | rfl <;> rfl
  rw [← hbit, size_bit (by rw [hbit]; exact h)]

theorem two_mul_or_one (n : Nat) : 2 * n ||| 1 = 2 * n + 1 := by
  have := two_pow_add_eq_or_of_lt (i := 1) (b := 1) (by omega) n
  exact this.symm

theorem DivInv.step (h : DivInv num den p k s) (hden : den < 2 ^ 32) (hq : s.q < 2 ^ 31) :
    DivInv num den p (k + 1) (fracDivStep num den s) := by
  have hr := h.divMod.lt
  have hstep := h.divMod.bit (b := maskedBit num p k) maskedBit_lt
  rw [← takenBits_succ] at hstep
  have hr2 : s.r <<< 1 % 2 ^ 64 = 2 * s.r := by
    omega
  have hq2 : s.q <<< 1 % 2 ^ 32 = 2 * s.q := by
    omega
  have hin : (if num &&& s.numMask ≠ 0 then 2 * s.r + 1 else 2 * s.r) =
      2 * s.r + maskedBit num p k := by
    rw [h.numMask, maskedBit]
    split <;> rfl
  have heq : fracDivStep num den s =
      { q := if den ≤ 2 * s.r + maskedBit num p k then 2 * s.q + 1 else 2 * s.q
        r := if den ≤ 2 * s.r + maskedBit num p k then 2 * s.r + maskedBit num p k - den
          else 2 * s.r + maskedBit num p k
        iBits := if (if den ≤ 2 * s.r + maskedBit num p k then 2 * s.q + 1 else 2 * s.q) = 0
          then s.iBits - 1 else s.iBits
        numMask := s.numMask >>> 1 } := by
    simp only [fracDivStep, hr2, hq2, two_mul_or_one, hin, ge_iff_le]
  rw [heq]
  refine ⟨hstep, ?_, ?_⟩
  · dsimp only
    rw [h.iBits]
    generalize hq' : (if den ≤ 2 * s.r + maskedBit num p k then 2 * s.q + 1 else 2 * s.q) = q'
    obtain ⟨b, hb, rfl⟩ : ∃ b, b < 2 ∧ q' = 2 * s.q + b := by
      split at hq'
      · exact ⟨1, by omega, hq'.symm⟩
      · exact ⟨0, by omega, hq'.symm⟩
    split
    · next h0 =>
      rw [h0, show s.q = 0 by omega, size_zero]
      push_cast
      ring
    · next h0 =>
      rw [size_two_mul_add hb h0]
      push_cast
      ring
  · rw [h.numMask, Nat.shiftRight_eq_div_pow, Nat.div_div_eq_div_mul, pow_one, ← pow_succ]

theorem DivInv.init (hden : 0 < den) (hp : num < 2 ^ (p + 1)) :
    DivInv num den p 0 { q := 0, r := 0, iBits := p + 1, numMask := 1 <<< p } := by
  refine ⟨?_, ?_, ?_⟩
  · rw [takenBits_of_le (by omega), Nat.sub_zero, Nat.div_eq_of_lt hp]
    exact DivMod.zero hden
  · simp
  · simp [shiftLeft_eq]

theorem fracDivStep_q_lt : (fracDivStep num den s).q < 2 ^ 32 := by
  have hmod : s.q <<< 1 % 2 ^ 32 < 2 ^ 32 := mod_lt _ (by omega)
  have hor : s.q <<< 1 % 2 ^ 32 ||| 1 < 2 ^ 32 := or_lt_two_pow hmod (by omega)
  simp only [fracDivStep]
  split_ifs <;> assumption

theorem full_iff {q : Nat} (hq : q < 2 ^ 32) : q &&& 1 <<< 31 ≠ 0 ↔ 2 ^ 31 ≤ q := by
  rw [shiftLeft_eq, one_mul, and_two_pow_ne_zero]
  omega

/-- The loop ends because the quotient is full, never because the passes are used up. -/
theorem fracDivLoop_spec (hnum : 0 < num) (hden : den < 2 ^ 32) {j : Nat}
    (h : DivInv num den p k s) (hq : s.q < 2 ^ 31) (hj : k + j = 64 + p) :
    ∃ k', k' ≤ 64 + p ∧ DivInv num den p k' (fracDivLoop num den j s) ∧
      2 ^ 31 ≤ (fracDivLoop num den j s).q ∧ (fracDivLoop num den j s).q < 2 ^ 32 := by
  induction j generalizing k s with
  | zero =>
    -- by now the quotient has at least 32 bits
    have hk : takenBits num p k = num * 2 ^ 63 := by
      rw [takenBits_of_ge (by omega), show k - (p + 1) = 63 by omega]
    have hle := h.divMod.le_quot (k := 2 ^ 31) (by rw [hk]; omega)
    omega
  | succ j ih =>
    have hstep := h.step hden hq
    have hlt : (fracDivStep num den s).q < 2 ^ 32 := fracDivStep_q_lt
    rw [fracDivLoop]
    split
    · next hfull => exact ⟨k + 1, by omega, hstep, (full_iff hlt).mp hfull, hlt⟩
    · next hfull =>
      rw [if_neg (by omega)]
      rw [full_iff hlt] at hfull
      exact ih hstep (by omega) (by omega)

/-- What the long division of a ratio ends with: 32 bits of the quotient, `e` of them fractional. -/
structure DivEnd (num den e : Nat) (s : DivState) : Prop where
  e_ge : 31 ≤ e
  e_lt : e < 64
  iBits : s.iBits = 32 - (e : Int)
  divMod : DivMod (num * 2 ^ e) den s.q s.r
  q_ge : 2 ^ 31 ≤ s.q
  q_lt : s.q < 2 ^ 32

theorem fracDivEnd_spec (hnum : 0 < num) (hle : num ≤ den) (hden : den < 2 ^ 32) :
    ∃ e, DivEnd num den e (fracDivEnd num den) := by
  have hlog : num < 2 ^ (bitarithmMsb (BitVec.ofNat 32 num) + 1) := by
    have hne : BitVec.ofNat 32 num ≠ 0#32 := by
      intro h
      have := congrArg BitVec.toNat h
      rw [BitVec.toNat_ofNat, mod_eq_of_lt (by omega)] at this
      exact hnum.ne' this
    rw [bitarithmMsb_eq_log2 hne, BitVec.toNat_ofNat, mod_eq_of_lt (by omega)]
    exact lt_log2_self
  unfold fracDivEnd
  generalize bitarithmMsb (BitVec.ofNat 32 num) = p at hlog
  obtain ⟨k, hk, hinv, hge, hlt⟩ := fracDivLoop_spec hnum hden (DivInv.init (by omega) hlog)
    (by simp) (zero_add (64 + p))
  generalize fracDivLoop num den (64 + p) _ = s at hinv hge hlt
  -- as long as `num` itself is read the quotient is at most one
  have hkp : p + 1 < k := by
    by_contra hle'
    have hsmall : takenBits num p k ≤ 1 * den := by
      rw [takenBits_of_le (by omega), one_mul]
      exact (div_le_self _ _).trans hle
    have := hinv.divMod.quot_le hsmall
    omega
  have hdiv := hinv.divMod
  rw [takenBits_of_ge (by omega)] at hdiv
  have hsize : size s.q = 32 := le_antisymm (size_le.mpr hlt) (lt_size.mpr hge)
  refine ⟨k - (p + 1), ?_, by omega, ?_, hdiv, hge, hlt⟩
  · -- fewer bits would leave room in the quotient
    by_contra hfew
    have hbound : num * 2 ^ (k - (p + 1)) ≤ 2 ^ 30 * den := by
      calc num * 2 ^ (k - (p + 1)) ≤ den * 2 ^ 30 :=
            Nat.mul_le_mul hle (Nat.pow_le_pow_right (by omega) (by omega))
        _ = 2 ^ 30 * den := mul_comm _ _
    have := hdiv.quot_le hbound
    omega
  · rw [hinv.iBits, hsize]
    omega

namespace DivEnd

variable {e : Nat}

theorem r_eq_zero (h : DivEnd num den e s) (hle : num ≤ den) (he : e = 31) : s.r = 0 := by
  have heq := h.divMod.eq
  have hq : 2 ^ 31 * den ≤ s.q * den := mul_le_mul_right den h.q_ge
  have hn : num * 2 ^ e ≤ 2 ^ 31 * den := by
    rw [he, mul_comm]
    exact mul_le_mul_left _ hle
  omega

/-- Rounding up does not overflow: below the largest quotient the division leaves no remainder. -/
theorem q_succ_lt (h : DivEnd num den e s) (hle : num ≤ den) (hden : den < 2 ^ 32) (hr : 0 < s.r) :
    s.q + 1 < 2 ^ 32 := by
  have he : 32 ≤ e := by
    have hne : e ≠ 31 := fun he => hr.ne' (h.r_eq_zero hle he)
    have := h.e_ge
    omega
  have hdvd : 2 ^ 32 ∣ num * 2 ^ e := Dvd.dvd.mul_left (pow_dvd_pow 2 he) num
  exact h.divMod.roundUp_lt hden.le hdvd h.q_lt hr

end DivEnd

/-! ## Scaling -/

/-- The factor is the ratio rounded up to `shift` fractional bits, which leave 32 bits of it. -/
structure IsFactor (num den : Nat) (frac : FracT) : Prop where
  den_pos : 0 < den
  shift_ge : 31 ≤ frac.shift
  shift_lt : frac.shift < 64
  frac_lt : frac.frac < 2 ^ 32
  ratio : ∃ e, frac.frac * den = num * 2 ^ frac.shift + e ∧ e < den ∧ (frac.shift = 31 → e = 0)
  room : 2 ^ 31 * den ≤ num * 2 ^ frac.shift

theorem fracLongDivide_prec (hnum : 0 < num) : (fracLongDivide num den).2.1 = (fracDivEnd num den).iBits := by
  rw [fracLongDivide, if_neg hnum.ne']

theorem isFactor_of_divEnd {n d e : Nat} (hn : 0 < n) (hle : n ≤ d) (hd : d < 2 ^ 32)
    (h : DivEnd n d e (fracDivEnd n d)) :
    IsFactor n d { frac := (fracLongDivide n d).1
                   shift := ((4 * 8 - (fracLongDivide n d).2.1) % 256).toNat } := by
  have hshift : ((4 * 8 - (fracDivEnd n d).iBits) % 256).toNat = e := by
    have := h.e_lt
    rw [h.iBits]
    omega
  have hfrac : (if (fracDivEnd n d).r > 0 then ((fracDivEnd n d).q + 1) % 2 ^ 32
      else (fracDivEnd n d).q) =
      if 0 < (fracDivEnd n d).r then (fracDivEnd n d).q + 1 else (fracDivEnd n d).q := by
    split
    · next hr => exact mod_eq_of_lt (h.q_succ_lt hle hd hr)
    · rfl
  simp only [fracLongDivide, if_neg hn.ne', hshift, hfrac]
  obtain ⟨e', hround, hlt, hzero⟩ := h.divMod.exists_roundUp
  refine ⟨by omega, h.e_ge, h.e_lt, ?_, ⟨e', hround, hlt, fun he => hzero (h.r_eq_zero hle he)⟩, ?_⟩
  · split
    · next hr => exact h.q_succ_lt hle hd hr
    · exact h.q_lt
  · have heq := h.divMod.eq
    have hq : 2 ^ 31 * d ≤ (fracDivEnd n d).q * d := mul_le_mul_right d h.q_ge
    dsimp only
    omega

namespace IsFactor

variable {n d x : Nat} {frac : FracT}

theorem fracScale_eq (h : IsFactor n d frac) (hle : n ≤ d) (hx : x < 2 ^ 32) :
    fracScale frac x = frac.frac * x / 2 ^ frac.shift := by
  have hprod : frac.frac * x < 2 ^ 32 * 2 ^ 32 := mul_lt_mul'' h.frac_lt hx
  have hres : frac.frac * x / 2 ^ frac.shift < 2 ^ 32 := by
    rcases lt_or_ge 31 frac.shift with hs | hs
    · have hpow : 2 ^ 32 ≤ 2 ^ frac.shift := Nat.pow_le_pow_right (by omega) hs
      refine Nat.div_lt_of_lt_mul (hprod.trans_le ?_)
      exact Nat.mul_le_mul_right _ hpow
    · obtain ⟨e, hratio, -, hzero⟩ := h.ratio
      have he : e = 0 := hzero (le_antisymm hs h.shift_ge)
      rw [scale_exact h.den_pos hratio (by rw [he, zero_mul]; exact Nat.two_pow_pos _)]
      refine lt_of_le_of_lt (Nat.div_le_of_le_mul ?_) hx
      rw [mul_comm]
      exact mul_le_mul_right x hle
  rw [fracScale, show 2 ^ 64 = 2 ^ 32 * 2 ^ 32 from rfl, mod_eq_of_lt hprod,
    shiftRight_eq_div_pow, mod_eq_of_lt hres]

theorem fracScale_mem (h : IsFactor n d frac) (hle : n ≤ d) (hx : x < 2 ^ 32) :
    fracScale frac x = x * n / d ∨ fracScale frac x = x * n / d + 1 := by
  obtain ⟨e, hratio, hlt, hzero⟩ := h.ratio
  rw [h.fracScale_eq hle hx]
  rcases lt_or_ge 31 frac.shift with hs | hs
  · have hpow : 2 ^ 32 ≤ 2 ^ frac.shift := Nat.pow_le_pow_right (by omega) hs
    have hlow := le_scale h.den_pos hratio x
    have hhigh := scale_le h.den_pos hratio hlt (hx.le.trans hpow)
    omega
  · have he : e = 0 := hzero (le_antisymm hs h.shift_ge)
    left
    exact scale_exact h.den_pos hratio (by rw [he, zero_mul]; exact Nat.two_pow_pos _)

/-- Small products are exact: the error is spread over more bits than the product has. -/
theorem fracScale_exact (h : IsFactor n d frac) (hle : n ≤ d) (hx : x < 2 ^ 32)
    (hsmall : x * n < 2 ^ 31) : fracScale frac x = x * n / d := by
  obtain ⟨e, hratio, hlt, -⟩ := h.ratio
  rw [h.fracScale_eq hle hx]
  refine scale_exact h.den_pos hratio (Nat.lt_of_mul_lt_mul_left (a := n) ?_)
  calc n * (e * x) = e * (x * n) := by ring
    _ ≤ d * (x * n) := Nat.mul_le_mul_right _ hlt.le
    _ < d * 2 ^ 31 := Nat.mul_lt_mul_of_pos_left hsmall h.den_pos
    _ = 2 ^ 31 * d := mul_comm _ _
    _ ≤ n * 2 ^ frac.shift := h.room

end IsFactor

theorem lowest_terms {num den : Nat} (hnum : 0 < num) (hden : num < 2 ^ 32) :
    ∃ g, 0 < g ∧ num = num / gcd32 num den * g ∧ den = den / gcd32 num den * g := by
  refine ⟨num.gcd den, gcd_pos_of_pos_left den hnum, ?_, ?_⟩
  · rw [gcd32_eq hden, Nat.div_mul_cancel (Nat.gcd_dvd_left num den)]
  · rw [gcd32_eq hden, Nat.div_mul_cancel (Nat.gcd_dvd_right num den)]

/-- Scaling by a fraction of at most one gives the product rounded down or one more, and rounds
small products down; neither the shift nor the rounding overflows. -/
theorem fracScale_fracInit :
    (∀ num den, 0 < num → num ≤ den → den < 2 ^ 32 →
      (∀ x, x < 2 ^ 32 →
        (fracScale (fracInit num den) x = x * num / den ∨
          fracScale (fracInit num den) x = x * num / den + 1) ∧
        (x * num < 2 ^ 31 → fracScale (fracInit num den) x = x * num / den)) ∧
      let n := num / gcd32 num den
      let d := den / gcd32 num den
      (0 ≤ 32 - (fracLongDivide n d).2.1 ∧ 32 - (fracLongDivide n d).2.1 < 64) ∧
      ((fracInit num den).shift : Int) = 32 - (fracLongDivide n d).2.1 ∧
      (0 < (fracDivEnd n d).r → (fracDivEnd n d).q + 1 < 2 ^ 32)) ∧
    ∀ u v, u < 2 ^ 32 → v < 2 ^ 32 → gcd32 u v = Nat.gcd u v := by
  refine ⟨fun num den hnum hle hden => ?_, fun u v hu _ => gcd32_eq hu⟩
  obtain ⟨g, hg, hn, hd⟩ := @lowest_terms num den hnum (by omega)
  have hinit : fracInit num den =
      { frac := (fracLongDivide (num / gcd32 num den) (den / gcd32 num den)).1
        shift := ((4 * 8 - (fracLongDivide (num / gcd32 num den)
          (den / gcd32 num den)).2.1) % 256).toNat } := rfl
  rw [hinit]
  generalize num / gcd32 num den = n at hn ⊢
  generalize den / gcd32 num den = d at hd ⊢
  subst hn hd
  have hn0 : 0 < n := Nat.pos_of_mul_pos_right hnum
  have hnd : n ≤ d := Nat.le_of_mul_le_mul_right hle hg
  have hd32 : d < 2 ^ 32 := Nat.lt_of_le_of_lt (Nat.le_mul_of_pos_right d hg) hden
  obtain ⟨e, hend⟩ := fracDivEnd_spec hn0 hnd hd32
  have hfac := isFactor_of_divEnd hn0 hnd hd32 hend
  refine ⟨fun x hx => ?_, ?_, ?_, hend.q_succ_lt hnd hd32⟩
  · rw [show x * (n * g) = x * n * g by ring, Nat.mul_div_mul_right _ _ hg]
    refine ⟨hfac.fracScale_mem hnd hx, fun hsmall => hfac.fracScale_exact hnd hx ?_⟩
    exact Nat.lt_of_le_of_lt (Nat.le_mul_of_pos_right _ hg) hsmall
  · have hlt := hend.e_lt
    rw [fracLongDivide_prec hn0, hend.iBits]
    omega
  · have hlt := hend.e_lt
    rw [fracLongDivide_prec hn0, hend.iBits]
    dsimp only
    omega

theorem fracScale_fracInit_third : fracScale (fracInit 1 3) 7 = 7 * 1 / 3 :=
  ((fracScale_fracInit.1 1 3 (by omega) (by omega) (by omega)).1 7 (by omega)).2 (by omega)

end Riot.Frac
