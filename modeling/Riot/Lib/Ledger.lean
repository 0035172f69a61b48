import Mathlib

/-!
# Ledgers

A counter that many holders share is right if it is the sum of what each of them holds.
A holder that changes moves the sum by the difference.
-/

namespace Riot.Lib

open Function Finset

variable {ι β : Type} [Fintype ι] [DecidableEq ι] {f : ι → β} {g : β → Nat} {i : ι} {x : β}

theorem sum_update_add : (∑ j, g (update f i x j)) + g (f i) = (∑ j, g (f j)) + g x := by
  have hrest : ∑ j ∈ univ.erase i, g (update f i x j) = ∑ j ∈ univ.erase i, g (f j) :=
    sum_congr rfl fun j hj => by rw [update_of_ne (ne_of_mem_erase hj)]
  have hnew := add_sum_erase univ (fun j => g (update f i x j))
    (mem_univ i)
  have hold := add_sum_erase univ (fun j => g (f j)) (mem_univ i)
  rw [update_self] at hnew
  omega

omit [DecidableEq ι] in
theorem le_sum (i : ι) : g (f i) ≤ ∑ j, g (f j) :=
  single_le_sum (fun j _ => Nat.zero_le (g (f j))) (mem_univ i)

omit [DecidableEq ι] in
theorem sum_pos_iff : 0 < ∑ j, g (f j) ↔ ∃ j, 0 < g (f j) := by
  rw [Finset.sum_pos_iff]
  constructor
  · rintro ⟨j, -, hj⟩
    exact ⟨j, hj⟩
  · rintro ⟨j, hj⟩
    exact ⟨j, Finset.mem_univ j, hj⟩

end Riot.Lib
