import Mathlib.Data.List.Forall2
import Riot.Lib.Memory

/-!
# Terminated strings

Strings that end with a cell of their own, and several of them one behind the other.
-/

namespace Riot.Lib.Memory

open List

variable {α : Type} [DecidableEq α]

/-- The length of the string at `p`, whose terminator `z` must be one of the first `n` cells. -/
def strlen (z : α) (m : Memory α) : Nat → Nat → Option Nat
  | 0, _ => none
  | n + 1, p => if m p = z then some 0 else (strlen z m n (p + 1)).map (· + 1)

/-- Where each of `k` strings starts that stand one behind the other from `p` on, below `lim`. -/
def walk (z : α) (m : Memory α) (lim : Nat) : Nat → Nat → Option (List Nat)
  | 0, _ => some []
  | k + 1, p =>
    match strlen z m (lim - p) p with
    | none => none
    | some len => (walk z m lim k (p + (len + 1))).map (p :: ·)

variable {z : α} {m : Memory α} {p n lim : Nat} {s : List α} {ws : List (List α)}

theorem strlen_eq (hm : Holds m p (s ++ [z])) (hs : z ∉ s) (hn : s.length < n) :
    strlen z m n p = some s.length := by
  induction s generalizing p n with
  | nil =>
    obtain ⟨n, rfl⟩ : ∃ k, n = k + 1 := ⟨n - 1, by simp only [length_nil] at hn; omega⟩
    rw [strlen, if_pos hm.1, length_nil]
  | cons x s ih =>
    rw [length_cons] at hn
    obtain ⟨n, rfl⟩ : ∃ k, n = k + 1 := ⟨n - 1, by omega⟩
    have hx : m p ≠ z := by
      rw [hm.1]
      exact fun h => hs (h ▸ mem_cons_self)
    rw [strlen, if_neg hx, ih hm.2 (fun h => hs (mem_cons_of_mem x h)) (by omega),
      Option.map_some, length_cons]

theorem walk_eq (hm : Holds m p (ws.flatMap (· ++ [z]))) (hs : ∀ w ∈ ws, z ∉ w)
    (hlim : p + (ws.flatMap (· ++ [z])).length ≤ lim) :
    ∃ ps, walk z m lim ws.length p = some ps ∧
      List.Forall₂ (fun q w => Holds m q (w ++ [z]) ∧ q + w.length < lim) ps ws := by
  induction ws generalizing p with
  | nil => exact ⟨[], rfl, .nil⟩
  | cons w ws ih =>
    rw [flatMap_cons] at hm hlim
    rw [length_append, length_append, length_singleton] at hlim
    rw [holds_append, length_append, length_singleton] at hm
    obtain ⟨ps, hwalk, hall⟩ := ih hm.2 (fun v hv => hs v (mem_cons_of_mem w hv)) (by omega)
    refine ⟨p :: ps, ?_, .cons ⟨hm.1, by omega⟩ hall⟩
    rw [length_cons, walk, strlen_eq hm.1 (hs w mem_cons_self) (by omega)]
    dsimp only
    rw [hwalk, Option.map_some]

end Riot.Lib.Memory
