import Mathlib.Data.List.Basic

/-!
# Messages of one sender

Logs of messages tagged with their senders. Channels that keep the order of each
sender, but not of all senders together, are specified by the sublists
`bySender`: what a sender sent is what has been received from it followed by
what is still on its way.
-/

namespace Riot.Lib

variable {ι α : Type} [DecidableEq ι]

/-- The messages of sender `t`, in the order of the log. -/
def bySender (t : ι) (l : List (ι × α)) : List α :=
  (l.filter fun p => p.1 = t).map Prod.snd

@[simp] theorem bySender_nil (t : ι) : bySender t ([] : List (ι × α)) = [] := rfl

@[simp] theorem bySender_append (t : ι) (l l' : List (ι × α)) :
    bySender t (l ++ l') = bySender t l ++ bySender t l' := by
  simp [bySender]

theorem bySender_cons (t : ι) (p : ι × α) (l : List (ι × α)) :
    bySender t (p :: l) = (if p.1 = t then [p.2] else []) ++ bySender t l := by
  unfold bySender
  by_cases h : p.1 = t <;> simp [h]

theorem bySender_self (t : ι) (x : α) : bySender t [(t, x)] = [x] := by
  simp [bySender]

theorem bySender_of_ne {t u : ι} (h : u ≠ t) (x : α) : bySender t [(u, x)] = [] := by
  simp [bySender, h]

theorem mem_bySender {t : ι} {x : α} {l : List (ι × α)} : x ∈ bySender t l ↔ (t, x) ∈ l := by
  simp [bySender]

theorem snoc_eq_cons_iff {m y : α} : ∀ {xs : List α}, xs ++ [y] = m :: xs ↔ y = m ∧ ∀ x ∈ xs, x = m
  | [] => by simp
  | x :: xs => by
    rw [List.cons_append, List.cons.injEq]
    constructor
    · rintro ⟨rfl, h⟩
      obtain ⟨hy, hxs⟩ := snoc_eq_cons_iff.mp h
      exact ⟨hy, by simpa using hxs⟩
    · rintro ⟨hy, hall⟩
      have hx : x = m := hall x (by simp)
      refine ⟨hx, ?_⟩
      rw [hx]
      exact snoc_eq_cons_iff.mpr ⟨hy, fun z hz => hall z (by simp [hz])⟩

end Riot.Lib
