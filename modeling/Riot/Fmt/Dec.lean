import Riot.Lib.Decimal
import Riot.Lib.Memory

/-!
# Decimal numbers as text

The decimal functions of `sys/fmt`. They write to `out` without a terminating zero, or only count
what they would write if `out` is `NULL`. `fmt_u64_dec` does without a 64 bit division: it adds up
the residues of the powers of 2^16 in groups of four decimal digits.
-/

namespace Riot.Fmt

open Riot.Lib Memory List Nat

/-! ## `fmt_u32_dec` -/

/-- The loop `for (uint32_t tmp = 10; tmp <= val; len++) { tmp *= 10; }`, with a bound on the number
of its passes. -/
def fmtU32Count (val : Nat) : Nat → Nat → Nat → Nat
  | 0, _, len => len
  | k + 1, tmp, len => if tmp ≤ val then fmtU32Count val k (tmp * 10 % 2 ^ 32) (len + 1) else len

/-- The loop `do { *--ptr = (val % 10) + '0'; } while ((val /= 10))`. -/
def fmtU32Digits (m : Memory Char) (ptr val : Nat) : Memory Char :=
  let m := m.store (ptr - 1) [Char.ofNat (val % 10 + '0'.toNat)]
  if val / 10 = 0 then m else fmtU32Digits m (ptr - 1) (val / 10)
termination_by val
decreasing_by omega

def fmtU32Dec (m : Memory Char) (out : Option Nat) (val : Nat) : Memory Char × Nat :=
  let len := if val ≥ 1000000000 then 10 else fmtU32Count val 10 10 1
  (match out with
    | none => m
    | some out => fmtU32Digits m (out + len) val, len)

/-! ## `fmt_u64_dec` -/

/-- `(val >> (16 * i)) & 0xFFFF` -/
def half (val i : Nat) : Nat := (val >>> (16 * i)) &&& 0xFFFF

/-- The right sides of the assignments to `d[0]` to `d[3]`, as they are before they are cut to 32
bits. -/
def sum0 (val : Nat) : Nat := 656 * half val 3 + 7296 * half val 2 + 5536 * half val 1 + half val 0

def sum1 (val : Nat) : Nat :=
  sum0 val % 2 ^ 32 / 10000 + 7671 * half val 3 + 9496 * half val 2 + 6 * half val 1

def sum2 (val : Nat) : Nat := sum1 val % 2 ^ 32 / 10000 + 4749 * half val 3 + 42 * half val 2

def sum3 (val : Nat) : Nat := sum2 val % 2 ^ 32 / 10000 + 281 * half val 3

/-- The array `d` of groups of four digits, the lowest one first. -/
def fmtU64Groups (val : Nat) : Nat → Nat
  | 0 => sum0 val % 2 ^ 32 % 10000
  | 1 => sum1 val % 2 ^ 32 % 10000
  | 2 => sum2 val % 2 ^ 32 % 10000
  | 3 => sum3 val % 2 ^ 32 % 10000
  | _ => sum3 val % 2 ^ 32 / 10000

/-- The loop `while (!d[first] && first) { first--; }`. -/
def fmtU64First (d : Nat → Nat) : Nat → Nat
  | 0 => 0
  | first + 1 => if d (first + 1) = 0 then fmtU64First d first else first + 1

/-- The loop `while (first)` that writes the groups behind the first one over zeros. -/
def fmtU64Rest (d : Nat → Nat) : Memory Char → Nat → Nat → Memory Char
  | m, _, 0 => m
  | m, out, first + 1 =>
    let m :=
      if d first ≠ 0 then
        let tmp := (fmtU32Dec m none (d first)).2
        (fmtU32Dec m (some (out + (4 - tmp))) (d first)).1
      else m
    fmtU64Rest d m (out + 4) first

def fmtU64Dec (m : Memory Char) (out : Option Nat) (val : Nat) : Memory Char × Nat :=
  let d := fmtU64Groups val
  let first := fmtU64First d 4
  let r := fmtU32Dec m out (d first)
  let len := r.2
  let totalLen := len + first * 4
  (match out with
    | none => r.1
    | some out =>
      let out := out + len
      fmtU64Rest d (r.1.store out (List.replicate (totalLen - len) '0')) out first, totalLen)

/-! ## Signed numbers -/

/-- `fmt_s64_dec` and `fmt_s32_dec` are one function at two widths: a sign, and `fmt` for the
absolute value, which the conversion to the unsigned type computes. -/
def fmtSigned (w : Nat) (fmt : Memory Char → Option Nat → Nat → Memory Char × Nat)
    (m : Memory Char) (out : Option Nat) (val : Int) : Memory Char × Nat :=
  let u := (val % 2 ^ w).toNat
  if val < 0 then
    let m := match out with
      | none => m
      | some out => m.store out ['-']
    let r := fmt m (out.map (· + 1)) ((2 ^ w - u) % 2 ^ w)
    (r.1, r.2 + 1)
  else fmt m out u

def fmtS64Dec : Memory Char → Option Nat → Int → Memory Char × Nat := fmtSigned 64 fmtU64Dec

def fmtS32Dec : Memory Char → Option Nat → Int → Memory Char × Nat := fmtSigned 32 fmtU32Dec

/-! ## `scn_u32_dec` -/

/-- The loop of `scn_u32_dec`. -/
def scnU32Loop (m : Memory Char) : Nat → Nat → Nat → Nat
  | _, 0, res => res
  | str, n + 1, res =>
    let c := (m str).toNat
    if ¬('0'.toNat ≤ c ∧ c ≤ '9'.toNat) then res
    else scnU32Loop m (str + 1) n ((res * 10 % 2 ^ 32 + (c - '0'.toNat)) % 2 ^ 32)

def scnU32Dec (m : Memory Char) (str n : Nat) : Nat := scnU32Loop m str n 0

/-! ## What is written -/

/-- `r` is what a function that formats to `out` returns if it writes `s`, and nothing else. -/
def Writes (m : Memory Char) (out : Option Nat) (s : List Char) (r : Memory Char × Nat) : Prop :=
  r.2 = s.length ∧ r.1 = match out with
    | none => m
    | some a => m.store a s

variable {m : Memory Char} {out : Option Nat} {val a k : Nat}

theorem digit_eq {n : Nat} : Char.ofNat (n % 10 + '0'.toNat) = digitChar (n % 10) := by
  have h : n % 10 < 10 := mod_lt n (by omega)
  generalize n % 10 = d at h ⊢
  interval_cases d <;> rfl

theorem fmtU32Digits_eq {ptr : Nat} (h : (toDigits 10 val).length ≤ ptr) : fmtU32Digits m ptr val =
      m.store (ptr - (toDigits 10 val).length) (toDigits 10 val) := by
  fun_induction fmtU32Digits m ptr val with
  | case1 m ptr val m' h0 =>
    have hlt : val < 10 := by omega
    rw [toDigits_of_lt_base hlt, length_singleton]
    show m.store (ptr - 1) [Char.ofNat (val % 10 + '0'.toNat)] = _
    rw [digit_eq, mod_eq_of_lt hlt]
  | case2 m ptr val m' h0 ih =>
    have hge : 10 ≤ val := by omega
    have hlen : (toDigits 10 val).length = (toDigits 10 (val / 10)).length + 1 := by
      rw [toDigits_of_base_le (by omega) hge, length_append, length_singleton]
    rw [ih (by omega), show m' = m.store (ptr - 1) [digitChar (val % 10)] by
      rw [← digit_eq], toDigits_of_base_le (n := val) (by omega) hge, ← store_append,
      length_append, length_singleton]
    -- the last digit was stored first
    rw [store_comm (by rw [length_singleton]; omega)]
    congr 2 <;> omega

theorem fmtU32Count_eq {j : Nat} (hval : val < 1000000000) (hj : j = 0 ∨ 10 ^ j ≤ val)
    (hk : 9 ≤ j + k) : fmtU32Count val k (10 ^ (j + 1)) (j + 1) = (toDigits 10 val).length := by
  induction k generalizing j with
  | zero =>
    have hpow : 10 ^ 9 ≤ 10 ^ j := Nat.pow_le_pow_right (by omega) (by omega)
    omega
  | succ k ih =>
    rw [fmtU32Count]
    split
    · next hle =>
      have hj8 : j + 1 < 9 := by
        by_contra hge
        have hpow : 10 ^ 9 ≤ 10 ^ (j + 1) := Nat.pow_le_pow_right (by omega) (by omega)
        omega
      have hnext : 10 ^ (j + 1 + 1) ≤ 10 ^ 9 := Nat.pow_le_pow_right (by omega) (by omega)
      rw [← pow_succ, mod_eq_of_lt (lt_of_le_of_lt hnext (by omega))]
      exact ih (.inr hle) (by omega)
    · next hgt => exact (length_toDigits_eq hj (by omega)).symm

variable (m out) in
theorem fmtU32Dec_len (hval : val < 2 ^ 32) : (fmtU32Dec m out val).2 = (toDigits 10 val).length := by
  simp only [fmtU32Dec]
  split
  · next h => exact (length_toDigits_eq (k := 9) (by omega) (by omega)).symm
  · next h => exact fmtU32Count_eq (j := 0) (by omega) (.inl rfl) (by omega)

variable (m out) in
theorem fmtU32Dec_writes (hval : val < 2 ^ 32) : Writes m out (toDigits 10 val) (fmtU32Dec m out val) := by
  have hlen := fmtU32Dec_len m out hval
  refine ⟨hlen, ?_⟩
  cases out with
  | none => rfl
  | some a =>
    show fmtU32Digits m (a + (fmtU32Dec m (some a) val).2) val = _
    rw [hlen, fmtU32Digits_eq (le_add_left _ _), Nat.add_sub_cancel]

/-! ## Groups of four digits -/

/-- The number that the lowest `k` groups stand for. -/
def ofGroups (d : Nat → Nat) : Nat → Nat
  | 0 => 0
  | k + 1 => d k * 10 ^ (4 * k) + ofGroups d k

variable {d : Nat → Nat}

theorem ofGroups_lt (hd : ∀ i, i < k → d i < 10000) : ofGroups d k < 10 ^ (4 * k) := by
  induction k with
  | zero => simp [ofGroups]
  | succ k ih =>
    have hlow := ih fun i hi => hd i (by omega)
    have hk := hd k (by omega)
    have htop : d k * 10 ^ (4 * k) ≤ 9999 * 10 ^ (4 * k) := Nat.mul_le_mul_right _ (by omega)
    have hpow : 10 ^ (4 * (k + 1)) = 10000 * 10 ^ (4 * k) := by
      rw [show 4 * (k + 1) = 4 + 4 * k by ring, Nat.pow_add]
    rw [ofGroups, hpow]
    omega

theorem fmtU64Rest_eq {first : Nat} (hd : ∀ i, i < first → d i < 10000)
    (hm : Holds m a (replicate (4 * first) '0')) :
    fmtU64Rest d m a first = m.store a (lowDigits (4 * first) (ofGroups d first)) := by
  induction first generalizing m a with
  | zero => rw [fmtU64Rest, mul_zero, lowDigits, store_nil]
  | succ f ih =>
    have hdf := hd f (by omega)
    rw [show 4 * (f + 1) = 4 + 4 * f by ring, replicate_add, holds_append,
      length_replicate] at hm
    -- a group takes the place of four zeros, of which it leaves the leading ones
    have hgroup : (if d f ≠ 0 then
        (fmtU32Dec m (some (a + (4 - (fmtU32Dec m none (d f)).2))) (d f)).1 else m) =
        m.store a (lowDigits 4 (d f)) := by
      split
      · have hlen : (toDigits 10 (d f)).length ≤ 4 := (length_toDigits_le_iff (by omega) (by omega)).mpr hdf
        have hzeros : Holds m a (replicate (4 - (toDigits 10 (d f)).length) '0') := by
          have hfour := hm.1
          rw [← Nat.sub_add_cancel hlen, replicate_add, holds_append] at hfour
          exact hfour.1
        rw [fmtU32Dec_len _ _ (by omega), (fmtU32Dec_writes _ _ (by omega)).2, lowDigits_eq hdf (by omega),
          ← store_append, hzeros.store_eq, length_replicate]
      · next h =>
        rw [show d f = 0 by omega, lowDigits_zero, hm.1.store_eq]
    rw [fmtU64Rest]
    rw [hgroup, ih (fun i hi => hd i (by omega)) ?_]
    · rw [ofGroups, show 4 * (f + 1) = 4 + 4 * f by ring,
        lowDigits_add 4 (ofGroups_lt fun i hi => hd i (by omega)), ← store_append, length_lowDigits]
    · exact hm.2.store (.inr (by rw [length_lowDigits]))

/-! ## `fmt_u64_dec` -/

theorem half_eq (i : Nat) : half val i = val / 2 ^ (16 * i) % 2 ^ 16 := by
  rw [half, shiftRight_eq_div_pow, and_two_pow_sub_one_eq_mod _ 16]

variable (val) in
theorem half_lt (i : Nat) : half val i < 2 ^ 16 := by
  rw [half_eq]
  exact mod_lt _ (by omega)

theorem half_split (h : val < 2 ^ 64) :
    val = 2 ^ 48 * half val 3 + 2 ^ 32 * half val 2 + 2 ^ 16 * half val 1 + half val 0 := by
  rw [half_eq, half_eq, half_eq, half_eq]
  omega

theorem sums_lt : sum0 val < 2 ^ 32 ∧ sum1 val < 2 ^ 32 ∧ sum2 val < 2 ^ 32 ∧ sum3 val < 2 ^ 32 := by
  have h0 := half_lt val 0
  have h1 := half_lt val 1
  have h2 := half_lt val 2
  have h3 := half_lt val 3
  unfold sum3 sum2 sum1 sum0
  omega

theorem fmtU64Groups_lt (i : Nat) : fmtU64Groups val i < 10000 := by
  match i with
  | 0 | 1 | 2 | 3 => exact mod_lt _ (by omega)
  | i + 4 =>
    have h3 := half_lt val 3
    have hsum : sum3 val < 10 ^ 8 := by
      unfold sum3
      omega
    show sum3 val % 2 ^ 32 / 10000 < 10000
    omega

theorem ofGroups_fmtU64Groups (h : val < 2 ^ 64) : ofGroups (fmtU64Groups val) 5 = val := by
  have hs : sum0 val < 2 ^ 32 ∧ sum1 val < 2 ^ 32 ∧ sum2 val < 2 ^ 32 ∧ sum3 val < 2 ^ 32 := sums_lt
  have hval := half_split h
  simp only [ofGroups, fmtU64Groups]
  rw [mod_eq_of_lt hs.1, mod_eq_of_lt hs.2.1, mod_eq_of_lt hs.2.2.1, mod_eq_of_lt hs.2.2.2]
  conv_rhs => rw [hval]
  have e0 : sum0 val = 656 * half val 3 + 7296 * half val 2 + 5536 * half val 1 + half val 0 := rfl
  have e1 : sum1 val = sum0 val / 10000 + 7671 * half val 3 + 9496 * half val 2 + 6 * half val 1 := by
    rw [sum1, mod_eq_of_lt hs.1]
  have e2 : sum2 val = sum1 val / 10000 + 4749 * half val 3 + 42 * half val 2 := by
    rw [sum2, mod_eq_of_lt hs.2.1]
  have e3 : sum3 val = sum2 val / 10000 + 281 * half val 3 := by
    rw [sum3, mod_eq_of_lt hs.2.2.1]
  omega

theorem fmtU64First_spec (d : Nat → Nat) (n : Nat) : (fmtU64First d n = 0 ∨ 0 < d (fmtU64First d n)) ∧
      ofGroups d (fmtU64First d n + 1) = ofGroups d (n + 1) := by
  induction n with
  | zero => exact ⟨.inl rfl, rfl⟩
  | succ n ih =>
    rw [fmtU64First]
    split
    · next h0 =>
      refine ⟨ih.1, ih.2.trans ?_⟩
      rw [ofGroups.eq_2 d (n + 1), h0, zero_mul, zero_add]
    · next h0 => exact ⟨.inr (pos_of_ne_zero h0), rfl⟩

theorem toDigits_ofGroups {f : Nat} (hd : ∀ i, d i < 10000) (hf : f = 0 ∨ 0 < d f) :
    toDigits 10 (ofGroups d (f + 1)) = toDigits 10 (d f) ++ lowDigits (4 * f) (ofGroups d f) := by
  rcases hf with rfl | hf
  · simp [ofGroups, lowDigits]
  · rw [ofGroups, toDigits_mul_pow_add hf (ofGroups_lt fun i _ => hd i)]

theorem fmtU64Dec_writes (hval : val < 2 ^ 64) : Writes m out (toDigits 10 val) (fmtU64Dec m out val) := by
  have hd : ∀ i, fmtU64Groups val i < 10000 := fmtU64Groups_lt
  obtain ⟨hf, hsum⟩ := fmtU64First_spec (fmtU64Groups val) 4
  rw [ofGroups_fmtU64Groups hval] at hsum
  have hdigits := toDigits_ofGroups hd hf
  rw [hsum] at hdigits
  have htop := hd (fmtU64First (fmtU64Groups val) 4)
  obtain ⟨hlen, hmem⟩ := fmtU32Dec_writes m out
    (show fmtU64Groups val (fmtU64First (fmtU64Groups val) 4) < 2 ^ 32 by omega)
  simp only [fmtU64Dec]
  refine ⟨?_, ?_⟩
  · rw [hlen, hdigits, length_append, length_lowDigits]
    ring
  cases out with
  | none => exact hmem
  | some a =>
    dsimp only at hmem ⊢
    rw [hmem, hlen, Nat.add_sub_cancel_left, mul_comm _ 4, fmtU64Rest_eq (fun i _ => hd i) holds_store, store_store, store_append, ← hdigits]
    rw [length_replicate, length_lowDigits]

/-! ## Signed numbers -/

/-- The decimal of an integer: a minus sign if it is negative, then its absolute value. -/
def signedDigits (val : Int) : List Char :=
  if val < 0 then '-' :: Nat.toDigits 10 val.natAbs else Nat.toDigits 10 val.natAbs

theorem fmtSigned_writes {w : Nat} {fmt : Memory Char → Option Nat → Nat → Memory Char × Nat}
    (hfmt : ∀ m out u, u < 2 ^ w → Writes m out (toDigits 10 u) (fmt m out u))
    {val : Int} (hlow : -2 ^ w ≤ 2 * val) (hhigh : 2 * val < 2 ^ w) :
    Writes m out (signedDigits val) (fmtSigned w fmt m out val) := by
  have hpow : ((2 ^ w : Nat) : Int) = 2 ^ w := by push_cast; rfl
  unfold fmtSigned signedDigits
  split
  · next hneg =>
    -- the unsigned value is short of `2 ^ w` by the absolute value
    have habs : (2 ^ w - (val % 2 ^ w).toNat) % 2 ^ w = val.natAbs := by
      rw [← Int.add_emod_right, Int.emod_eq_of_lt (by omega) (by omega), mod_eq_of_lt (by omega)]
      omega
    dsimp only
    rw [habs]
    obtain ⟨hlen, hmem⟩ := hfmt (match out with | none => m | some out => m.store out ['-'])
      (out.map (· + 1)) val.natAbs (by omega)
    refine ⟨by rw [hlen, length_cons], ?_⟩
    rw [hmem]
    cases out with
    | none => rfl
    | some a => exact store_append
  · next hpos =>
    have habs : (val % 2 ^ w).toNat = val.natAbs := by
      rw [Int.emod_eq_of_lt (by omega) (by omega)]
      omega
    rw [habs]
    exact hfmt m out val.natAbs (by omega)

/-! ## `scn_u32_dec` -/

theorem isDigit_bounds {c : Char} (h : c.isDigit = true) : '0'.toNat ≤ c.toNat ∧ c.toNat ≤ '9'.toNat := by
  have hval : (48 ≤ c.val) ∧ c.val ≤ 57 := by simpa [Char.isDigit] using h
  exact ⟨UInt32.le_iff_toNat_le.mp hval.1, UInt32.le_iff_toNat_le.mp hval.2⟩

/-- Digits that stand in memory are read as the number they write, modulo 2^32. -/
theorem scnU32Loop_eq {s : List Char} {res : Nat} (hm : Holds m a s) (hs : ∀ c ∈ s, c.isDigit = true) :
    scnU32Loop m a s.length (res % 2 ^ 32) = ofDigitChars 10 s res % 2 ^ 32 := by
  induction s generalizing a res with
  | nil => rw [ofDigitChars_nil, length_nil, scnU32Loop]
  | cons c s ih =>
    have hc := isDigit_bounds (hs c mem_cons_self)
    have hstep : (res % 2 ^ 32 * 10 % 2 ^ 32 + (c.toNat - '0'.toNat)) % 2 ^ 32 =
        (10 * res + (c.toNat - '0'.toNat)) % 2 ^ 32 := by omega
    rw [length_cons, scnU32Loop, hm.1, if_neg (not_not.mpr hc), hstep,
      ih hm.2 fun d hd => hs d (mem_cons_of_mem c hd), ofDigitChars_cons]

theorem scnU32Dec_toDigits (hm : Holds m a (toDigits 10 val)) (hval : val < 2 ^ 32) :
    scnU32Dec m a (toDigits 10 val).length = val := by
  rw [scnU32Dec, show 0 = 0 % 2 ^ 32 from rfl, scnU32Loop_eq hm isDigit_toDigits,
    ofDigitChars_ten_toDigits, mod_eq_of_lt hval]

/-! ## The decimal functions -/

/-- `fmt_u64_dec` and `fmt_s64_dec` write the decimal of every number and count what they write
alike with and without a buffer; `scn_u32_dec` reads back what `fmt_u32_dec` writes. -/
theorem fmt_decimal :
    (∀ val, val < 2 ^ 64 →
      (sum0 val < 2 ^ 32 ∧ sum1 val < 2 ^ 32 ∧ sum2 val < 2 ^ 32 ∧ sum3 val < 2 ^ 32) ∧
      (0 < val → (Nat.toDigits 10 val).head? ≠ some '0') ∧
      ∀ m a, fmtU64Dec m (some a) val =
          (m.store a (Nat.toDigits 10 val), (Nat.toDigits 10 val).length) ∧
        fmtU64Dec m none val = (m, (Nat.toDigits 10 val).length)) ∧
    (∀ val : Int, -2 ^ 63 ≤ val → val < 2 ^ 63 → ∀ m a,
      fmtS64Dec m (some a) val = (m.store a (signedDigits val), (signedDigits val).length) ∧
      fmtS64Dec m none val = (m, (signedDigits val).length)) ∧
    ∀ val, val < 2 ^ 32 → ∀ m a,
      let r := fmtU32Dec m (some a) val
      scnU32Dec r.1 a r.2 = val := by
  have hpair : ∀ {m : Memory Char} {out s r}, Writes m out s r →
      r = ((match out with | none => m | some a => m.store a s), s.length) :=
    fun h => Prod.ext h.2 h.1
  refine ⟨fun val hval => ⟨sums_lt, head_toDigits, fun m a => ?_⟩, fun val hlow hhigh m a => ?_,
    fun val hval m a => ?_⟩
  · exact ⟨hpair (fmtU64Dec_writes hval), hpair (fmtU64Dec_writes hval)⟩
  · have hwrites : ∀ out, Writes m out (signedDigits val) (fmtS64Dec m out val) := fun out =>
      fmtSigned_writes (fun m out u hu => fmtU64Dec_writes hu) (by omega) (by omega)
    exact ⟨hpair (hwrites (some a)), hpair (hwrites none)⟩
  · obtain ⟨hlen, hmem⟩ := fmtU32Dec_writes m (some a) hval
    dsimp only at hmem ⊢
    rw [hlen, hmem]
    exact scnU32Dec_toDigits holds_store hval

theorem fmt_decimal_zero : fmtU64Dec (fun _ => ' ') none 0 = (fun _ => ' ', 1) :=
  ((fmt_decimal.1 0 (by omega)).2.2 (fun _ => ' ') 0).2

end Riot.Fmt
