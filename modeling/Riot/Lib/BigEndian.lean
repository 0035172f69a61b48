import Mathlib.Tactic.Ring
import Mathlib.Data.List.Basic

/-!
# Unsigned numbers as bytes

Numbers in network byte order, in a given number of bytes or in as few as
possible; zero takes none.
-/

namespace Riot.Lib

open Nat List

variable {n k v w : Nat} {bs cs : List UInt8}

/-- The lowest `n` bytes of `v`, most significant first. -/
def toBytes : Nat → Nat → List UInt8
  | 0, _ => []
  | n + 1, v => toBytes n (v / 256) ++ [UInt8.ofNat v]

/-- The number of bytes, most significant first. -/
def ofBytes (bs : List UInt8) : Nat := bs.foldl (fun acc b => 256 * acc + b.toNat) 0

/-- The number of bytes of `v`, counted up to `fuel`. -/
def byteCount : Nat → Nat → Nat
  | 0, _ => 0
  | fuel + 1, v => if v = 0 then 0 else byteCount fuel (v / 256) + 1

@[simp] theorem length_toBytes : (toBytes n v).length = n := by
  induction n generalizing v with
  | zero => rfl
  | succ n ih => rw [toBytes, length_append, ih, length_singleton]

theorem toBytes_zero : toBytes n 0 = replicate n 0 := by
  induction n with
  | zero => rfl
  | succ n ih =>
    rw [toBytes, Nat.zero_div, ih, replicate_succ']
    rfl

theorem ofBytes_append_singleton {b : UInt8} : ofBytes (bs ++ [b]) = 256 * ofBytes bs + b.toNat := by
  rw [ofBytes, foldl_append]
  rfl

/-- **Bytes of a number are read as the number**, if there are enough of them. -/
theorem ofBytes_toBytes (h : v < 256 ^ n) : ofBytes (toBytes n v) = v := by
  induction n generalizing v with
  | zero =>
    have : v = 0 := by omega
    subst this
    rfl
  | succ n ih =>
    rw [toBytes, ofBytes_append_singleton, ih (Nat.div_lt_of_lt_mul (by rw [mul_comm]; exact h)),
      UInt8.toNat_ofNat']
    omega

theorem foldl_bytes (acc : Nat) :
    bs.foldl (fun acc b => 256 * acc + b.toNat) acc = acc * 256 ^ bs.length + ofBytes bs := by
  induction bs generalizing acc with
  | nil => exact (mul_one acc).symm
  | cons b bs ih =>
    have hzero : ofBytes (b :: bs) = b.toNat * 256 ^ bs.length + ofBytes bs := by
      rw [ofBytes, foldl_cons, ih, Nat.mul_zero, Nat.zero_add]
    rw [foldl_cons, ih, hzero, length_cons, Nat.pow_succ, Nat.add_mul, Nat.mul_comm 256 acc,
      mul_assoc, mul_comm 256, add_assoc]

theorem ofBytes_cons {b : UInt8} : ofBytes (b :: bs) = b.toNat * 256 ^ bs.length + ofBytes bs := by
  rw [ofBytes, foldl_cons, foldl_bytes, Nat.mul_zero, Nat.zero_add]

theorem ofBytes_lt : ofBytes bs < 256 ^ bs.length := by
  induction bs with
  | nil => exact Nat.one_pos
  | cons b bs ih =>
    have hmul := mul_le_mul_right (256 ^ bs.length) b.toNat_lt
    rw [succ_mul] at hmul
    rw [ofBytes_cons, length_cons, pow_succ, mul_comm _ 256]
    omega

theorem ofBytes_inj (hlen : bs.length = cs.length) (h : ofBytes bs = ofBytes cs) : bs = cs := by
  induction bs generalizing cs with
  | nil => exact (eq_nil_of_length_eq_zero hlen.symm).symm
  | cons b bs ih =>
    cases cs with
    | nil => exact absurd hlen (succ_ne_zero _)
    | cons c cs =>
      have hlen' : bs.length = cs.length := succ.inj hlen
      have hb := @ofBytes_lt bs
      rw [ofBytes_cons, ofBytes_cons, hlen'] at h
      rw [hlen'] at hb
      -- the first bytes are the quotients by the weight of the others
      have hdiv := congrArg (· / 256 ^ cs.length) h
      have hpos : 0 < 256 ^ cs.length := Nat.pow_pos (by decide)
      simp only [mul_comm _ (256 ^ cs.length), mul_add_div hpos, div_eq_of_lt hb,
        div_eq_of_lt (@ofBytes_lt cs), add_zero] at hdiv
      rw [hdiv] at h
      rw [UInt8.toNat_inj.mp hdiv, ih hlen' (add_left_cancel h)]

theorem drop_toBytes : (toBytes (n + k) v).drop n = toBytes k v := by
  induction k generalizing v with
  | zero => exact drop_of_length_le (Nat.le_of_eq length_toBytes)
  | succ k ih =>
    rw [← add_assoc, toBytes, toBytes, drop_append_of_le_length, ih]
    rw [length_toBytes]
    exact le_add_right n k

theorem lt_pow_byteCount : ∀ {fuel v : Nat}, v < 256 ^ fuel → v < 256 ^ byteCount fuel v := by
  intro fuel
  induction fuel with
  | zero =>
    intro v h
    exact h
  | succ fuel ih =>
    intro v h
    rw [byteCount]
    split
    · rename_i h0
      simp [h0]
    · have hdiv : v / 256 < 256 ^ fuel := Nat.div_lt_of_lt_mul (by rw [mul_comm]; exact h)
      exact (div_lt_iff_lt_mul (by decide)).mp (ih hdiv)

theorem byteCount_le {fuel : Nat} : byteCount fuel v ≤ fuel := by
  induction fuel generalizing v with
  | zero => exact Nat.le_refl _
  | succ fuel ih =>
    rw [byteCount]
    split
    · exact zero_le _
    · exact succ_le_succ ih

theorem byteCount_le_of_lt {fuel : Nat} (h : v < 256 ^ n) : byteCount fuel v ≤ n := by
  induction fuel generalizing v n with
  | zero => exact zero_le _
  | succ fuel ih =>
    rw [byteCount]
    split
    case isTrue => exact zero_le _
    case isFalse hne =>
      cases n with
      | zero => exact absurd (lt_one_iff.mp h) hne
      | succ n =>
        rw [pow_succ, mul_comm] at h
        exact Nat.succ_le_succ (ih (Nat.div_lt_of_lt_mul h))

/-- Numbers that differ in the last byte only take the same number of bytes, but for zero,
which takes none. -/
theorem byteCount_eq {fuel : Nat} (hdiv : v / 256 = w / 256) (hw : w ≠ 0) :
    byteCount (fuel + 1) w = max 1 (byteCount (fuel + 1) v) := by
  rw [byteCount, if_neg hw, byteCount, hdiv]
  split
  · rename_i h0
    have h0' : w / 256 = 0 := by
      rw [← hdiv, h0]
    have hc : byteCount fuel 0 = 0 := by
      cases fuel <;> rfl
    rw [h0', hc]
    rfl
  · omega

end Riot.Lib
