import Mathlib.Data.List.Basic

/-!
# Windows of a stream

A stream is produced chunk by chunk; a window keeps what lies between two of its
offsets. Consecutive windows of one size put together are the stream.
-/

namespace Riot.Lib

open List

variable {α : Type} {start stop off : Nat} {xs ys : List α}

/-- The part of a chunk at offset `off` that lies between `start` and `stop`. -/
def window (start stop off : Nat) (xs : List α) : List α := (xs.take (stop - off)).drop (start - off)

theorem window_append : window start stop off (xs ++ ys) =
    window start stop off xs ++ window start stop (off + xs.length) ys := by
  unfold window
  rw [take_append, drop_append, length_take]
  congr 1
  by_cases hlen : stop - off ≤ xs.length
  · have h0 : stop - (off + xs.length) = 0 := by omega
    have h0' : stop - off - xs.length = 0 := by omega
    rw [h0, h0', take_zero, drop_nil, drop_nil]
  · have h1 : stop - off - xs.length = stop - (off + xs.length) := by omega
    have h2 : start - off - min (stop - off) xs.length = start - (off + xs.length) := by omega
    rw [h1, h2]

theorem flatten_windows (size n : Nat) :
    ((range n).map fun b => window (b * size) ((b + 1) * size) 0 xs).flatten = xs.take (n * size) := by
  induction n with
  | zero => simp
  | succ n ih =>
    have htake : xs.take (n * size) = (xs.take ((n + 1) * size)).take (n * size) := by
      rw [take_take, Nat.min_eq_left (Nat.mul_le_mul_right size (Nat.le_succ n))]
    rw [range_succ, map_append, flatten_append, ih, map_singleton, flatten_singleton,
      window, Nat.sub_zero, Nat.sub_zero, htake, take_append_drop]

end Riot.Lib
