import Mathlib.Tactic.Ring
import Mathlib.Data.List.Range

/-!
# Ring buffers

The content of an array used as a ring: `len` items from position `start` on,
positions counted modulo the size. Positions are never reset, so a push and a
pop are an increment each; only their residues matter.
-/

namespace Riot.Lib

open Function List

variable {α : Type}

/-- The items of a ring buffer, oldest first. -/
def ringItems (arr : Nat → α) (size start len : Nat) : List α :=
  (List.range len).map fun i => arr ((start + i) % size)

variable {arr : Nat → α} {size start len : Nat}

@[simp] theorem ringItems_length : (ringItems arr size start len).length = len := by
  simp [ringItems]

theorem ringItems_congr {start' : Nat} (h : start % size = start' % size) :
    ringItems arr size start len = ringItems arr size start' len := by
  refine map_congr_left fun i _ => ?_
  rw [Nat.add_mod, h, ← Nat.add_mod]

theorem ringItems_pop : ringItems arr size start (len + 1) =
      arr (start % size) :: ringItems arr size (start + 1) len := by
  unfold ringItems
  rw [range_succ_eq_map, map_cons, map_map]
  refine congrArg₂ cons (by simp) (map_congr_left fun i _ => ?_)
  simp only [comp_apply]
  congr 2
  omega

theorem ringItems_append (m n : Nat) :
    ringItems arr size start (m + n) = ringItems arr size start m ++ ringItems arr size (start + m) n := by
  unfold ringItems
  rw [range_add, map_append, map_map]
  refine congrArg₂ (· ++ ·) rfl (map_congr_left fun i _ => ?_)
  simp only [comp_apply]
  rw [add_assoc]

theorem ringItems_inside (h : start + len ≤ size) :
    ringItems arr size start len = (range len).map fun i => arr (start + i) := by
  refine map_congr_left fun i hi => ?_
  have hi : i < len := mem_range.mp hi
  rw [Nat.mod_eq_of_lt (by omega)]

theorem ringItems_take {n : Nat} (h : n ≤ len) : (ringItems arr size start len).take n = ringItems arr size start n := by
  obtain ⟨m, rfl⟩ := Nat.exists_eq_add_of_le h
  rw [ringItems_append, take_left' ringItems_length]

theorem ringItems_drop {n : Nat} (h : n ≤ len) :
    (ringItems arr size start len).drop n = ringItems arr size (start + n) (len - n) := by
  obtain ⟨m, rfl⟩ := Nat.exists_eq_add_of_le h
  rw [ringItems_append, drop_left' ringItems_length, Nat.add_sub_cancel_left]

theorem ringItems_push (x : α) (h : len < size) :
    ringItems (update arr ((start + len) % size) x) size start (len + 1) =
      ringItems arr size start len ++ [x] := by
  unfold ringItems
  rw [range_succ, map_append]
  refine congrArg₂ (· ++ ·) (map_congr_left fun i hi => ?_) (by simp)
  have hi : i < len := mem_range.mp hi
  -- two positions less than `size` apart have different residues
  rw [update_of_ne]
  intro heq
  have hdvd : size ∣ (start + len) - (start + i) :=
    Nat.dvd_of_mod_eq_zero (Nat.sub_mod_eq_zero_of_mod_eq heq.symm)
  have := Nat.le_of_dvd (by omega) hdvd
  omega

end Riot.Lib
