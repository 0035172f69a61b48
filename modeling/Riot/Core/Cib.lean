import Riot.Lib.RingBuffer

/-!
# Circular integer buffers

`core/lib/include/cib.h`: two 32-bit counters that only ever grow, and wrap, and
a mask. The functions hand out array positions; `cibItems` is the queue that
results when the positions are used for an array of messages.
-/

namespace Riot.Core

open Riot.Lib BitVec

/-- `cib_t` -/
structure Cib where
  readCount : BitVec 32
  writeCount : BitVec 32
  mask : BitVec 32
  deriving DecidableEq

def cibInit (size : BitVec 32) : Cib := ⟨0, 0, size - 1⟩

def cibAvail (cib : Cib) : BitVec 32 := cib.writeCount - cib.readCount

/-- `cib_full`: a signed comparison. -/
def cibFull (cib : Cib) : Bool := decide ((cibAvail cib).toInt > cib.mask.toInt)

/-- `cib_get_unsafe`: the position to read. -/
def cibGetUnsafe (cib : Cib) : Nat × Cib :=
  ((cib.readCount &&& cib.mask).toNat, { cib with readCount := cib.readCount + 1 })

/-- `cib_put_unsafe`: the position to write. -/
def cibPutUnsafe (cib : Cib) : Nat × Cib :=
  ((cib.writeCount &&& cib.mask).toNat, { cib with writeCount := cib.writeCount + 1 })

/-- `cib_get`; `none` is -1. -/
def cibGet (cib : Cib) : Option Nat × Cib :=
  if cibAvail cib ≠ 0 then
    (some (cib.readCount &&& cib.mask).toNat, { cib with readCount := cib.readCount + 1 })
  else
    (none, cib)

/-- `cib_put`; `none` is -1. -/
def cibPut (cib : Cib) : Option Nat × Cib :=
  if (cibAvail cib).toInt ≤ cib.mask.toInt then
    (some (cib.writeCount &&& cib.mask).toNat, { cib with writeCount := cib.writeCount + 1 })
  else
    (none, cib)

/-! ## The queue -/

/-- What the counters say is in the array, oldest first. -/
def cibItems {α : Type} (cib : Cib) (arr : Nat → α) : List α :=
  (List.range (cibAvail cib).toNat).map fun i =>
    arr ((cib.readCount + BitVec.ofNat 32 i) &&& cib.mask).toNat

/-- The buffer has `2 ^ k` places. -/
def Cib.Sized (k : Nat) (cib : Cib) : Prop := k ≤ 31 ∧ cib.mask.toNat = 2 ^ k - 1

variable {α : Type} {k : Nat} {cib : Cib} {arr : Nat → α}

@[simp] theorem cibItems_length : (cibItems cib arr).length = (cibAvail cib).toNat := by
  simp [cibItems]

theorem cibInit_sized (hk : k ≤ 31) : (cibInit (BitVec.ofNat 32 (2 ^ k))).Sized k := by
  have hlt : 2 ^ k < 2 ^ 32 := Nat.pow_lt_pow_right (by omega) (by omega)
  have hpos : 0 < 2 ^ k := Nat.two_pow_pos k
  refine ⟨hk, ?_⟩
  have h1 : (1 : BitVec 32).toNat = 1 := rfl
  simp only [cibInit, toNat_sub, toNat_ofNat, h1]
  omega

@[simp] theorem cibItems_init (size : BitVec 32) : cibItems (cibInit size) arr = [] := by
  simp [cibItems, cibInit, cibAvail]

theorem cibItems_eq_nil : cibItems cib arr = [] ↔ cibAvail cib = 0 := by
  rw [← List.length_eq_zero_iff, cibItems_length, toNat_eq]
  rfl

theorem Cib.Sized.dvd (h : cib.Sized k) : 2 ^ k ∣ 2 ^ 32 := Nat.pow_dvd_pow 2 (le_trans h.1 (by omega))

theorem Cib.Sized.lt (h : cib.Sized k) : 2 ^ k < 2 ^ 32 :=
  Nat.pow_lt_pow_right (by omega) (lt_of_le_of_lt h.1 (by omega))

theorem and_mask {c : BitVec 32} (h : cib.Sized k) : (c &&& cib.mask).toNat = c.toNat % 2 ^ k := by
  rw [toNat_and, h.2, Nat.and_two_pow_sub_one_eq_mod]

theorem cibItems_eq (h : cib.Sized k) :
    cibItems cib arr = ringItems arr (2 ^ k) cib.readCount.toNat (cibAvail cib).toNat := by
  refine List.map_congr_left fun i _ => ?_
  rw [and_mask h, toNat_add, Nat.mod_mod_of_dvd _ h.dvd, Nat.add_mod,
    toNat_ofNat, Nat.mod_mod_of_dvd _ h.dvd, ← Nat.add_mod]

theorem writeCount_mod (h : cib.Sized k) :
    cib.writeCount.toNat % 2 ^ k = (cib.readCount.toNat + (cibAvail cib).toNat) % 2 ^ k := by
  have hw : cib.writeCount = cib.readCount + cibAvail cib := by
    unfold cibAvail
    bv_omega
  rw [hw, toNat_add, Nat.mod_mod_of_dvd _ h.dvd]

theorem cibAvail_get (h : cibAvail cib ≠ 0) :
    (cibAvail cib).toNat = (cibAvail (cibGetUnsafe cib).2).toNat + 1 := by
  unfold cibAvail cibGetUnsafe at *
  bv_omega

theorem cibAvail_put (h : (cibAvail cib).toNat + 1 < 2 ^ 32) :
    (cibAvail (cibPutUnsafe cib).2).toNat = (cibAvail cib).toNat + 1 := by
  unfold cibAvail cibPutUnsafe at *
  bv_omega

/-- **Reading takes the oldest item.** -/
theorem cibItems_get (hs : cib.Sized k) (h : cibAvail cib ≠ 0) :
    cibItems cib arr = arr (cibGetUnsafe cib).1 :: cibItems (cibGetUnsafe cib).2 arr := by
  have hs' : (cibGetUnsafe cib).2.Sized k := hs
  rw [cibItems_eq hs, cibItems_eq hs', cibAvail_get h, ringItems_pop]
  refine congrArg₂ List.cons ?_ (ringItems_congr ?_)
  · unfold cibGetUnsafe
    rw [and_mask hs]
  · unfold cibGetUnsafe
    rw [toNat_add, Nat.mod_mod_of_dvd _ hs.dvd]
    rfl

/-- **Writing appends**, as long as there is room. -/
theorem cibItems_put (hs : cib.Sized k) (h : (cibAvail cib).toNat < 2 ^ k) (x : α) :
    cibItems (cibPutUnsafe cib).2 (Function.update arr (cibPutUnsafe cib).1 x) = cibItems cib arr ++ [x] := by
  have hs' : (cibPutUnsafe cib).2.Sized k := hs
  have hlt := hs.lt
  have hslot : (cibPutUnsafe cib).1 = (cib.readCount.toNat + (cibAvail cib).toNat) % 2 ^ k := by
    unfold cibPutUnsafe
    rw [and_mask hs, writeCount_mod hs]
  rw [cibItems_eq hs, cibItems_eq hs', cibAvail_put (by omega), hslot]
  exact ringItems_push x h

theorem cibFull_iff (hs : cib.Sized k) (hk : k ≤ 30) (hle : (cibAvail cib).toNat ≤ 2 ^ k) :
    cibFull cib = true ↔ (cibAvail cib).toNat = 2 ^ k := by
  have hk' : 2 ^ k ≤ 2 ^ 30 := Nat.pow_le_pow_right (by omega) hk
  have hpos : 0 < 2 ^ k := Nat.two_pow_pos k
  have hm := hs.2
  unfold cibFull
  rw [decide_eq_true_eq, toInt_eq_toNat_cond, toInt_eq_toNat_cond]
  split <;> split <;> omega

theorem cibGet_eq : cibGet cib = if cibAvail cib = 0 then (none, cib)
      else (some (cibGetUnsafe cib).1, (cibGetUnsafe cib).2) := by
  unfold cibGet cibGetUnsafe
  by_cases h : cibAvail cib = 0 <;> simp [h]

theorem cibPut_eq : cibPut cib = if cibFull cib then (none, cib)
      else (some (cibPutUnsafe cib).1, (cibPutUnsafe cib).2) := by
  unfold cibPut cibFull cibPutUnsafe
  by_cases h : (cibAvail cib).toInt ≤ cib.mask.toInt
  · simp [h]
  · simp [h, Int.not_le.mp h]

end Riot.Core
