import Mathlib.Tactic.Ring
import Mathlib.Data.List.Basic

/-!
# Flat memory

Cells addressed by natural numbers, with the two block operations programs use
on them: storing given values and moving a block, source and target possibly
overlapping. `Holds m a s` says that the cells from `a` on are `s`; what a
block operation does is said by what it makes hold and by what it leaves alone.
-/

namespace Riot.Lib

open Function List Nat

/-- Cells of type `α`, addressed by natural numbers. -/
abbrev Memory (α : Type) := Nat → α

namespace Memory

variable {α : Type}

/-- The `n` cells from `a` on. -/
def slice (m : Memory α) (a : Nat) : Nat → List α
  | 0 => []
  | n + 1 => m a :: slice m (a + 1) n

/-- Stores `s` from `a` on. -/
def store (m : Memory α) (a : Nat) (s : List α) : Memory α := fun i =>
  if a ≤ i then (s[i - a]?).getD (m i) else m i

/-- Moves the `n` cells from `src` on to `dst`; the blocks may overlap. -/
def move (m : Memory α) (dst src n : Nat) : Memory α := fun i =>
  if dst ≤ i ∧ i < dst + n then m (src + (i - dst)) else m i

/-- Reads a cell that must lie in the block from `lo` to `hi`. -/
def load (m : Memory α) (lo hi a : Nat) : Option α := if lo ≤ a ∧ a < hi then some (m a) else none

/-- The cells from `a` on are `s`. -/
def Holds (m : Memory α) : Nat → List α → Prop
  | _, [] => True
  | a, x :: s => m a = x ∧ Holds m (a + 1) s

variable {m m' : Memory α} {a b n k : Nat} {x : α} {s t : List α}

/-! ## What cells hold -/

@[simp] theorem holds_nil : Holds m a [] := trivial

@[simp] theorem holds_cons : Holds m a (x :: s) ↔ m a = x ∧ Holds m (a + 1) s := Iff.rfl

theorem holds_iff : Holds m a s ↔ ∀ i (h : i < s.length), m (a + i) = s[i] := by
  induction s generalizing a with
  | nil => simp
  | cons x s ih =>
    rw [holds_cons, ih]
    constructor
    · intro ⟨hx, hxs⟩ i hi
      cases i with
      | zero => exact hx
      | succ i =>
        have := hxs i (by simpa using hi)
        rwa [add_assoc, add_comm 1 i] at this
    · intro h
      refine ⟨h 0 (by simp), fun i hi => ?_⟩
      have := h (i + 1) (by simpa using hi)
      rwa [add_assoc, add_comm 1 i]

@[simp] theorem holds_append : Holds m a (s ++ t) ↔ Holds m a s ∧ Holds m (a + s.length) t := by
  induction s generalizing a with
  | nil => simp
  | cons x s ih =>
    rw [cons_append, holds_cons, holds_cons, ih, length_cons, and_assoc, add_assoc, add_comm 1 s.length]

theorem Holds.congr (h : Holds m a s) (hm : ∀ i, a ≤ i → i < a + s.length → m' i = m i) : Holds m' a s := by
  rw [holds_iff] at h ⊢
  intro i hi
  rw [hm (a + i) (by omega) (by omega), h i hi]

theorem Holds.eq_of_length (h : Holds m a s) (h' : Holds m a t) (hl : s.length = t.length) : s = t := by
  rw [holds_iff] at h h'
  exact ext_getElem hl fun i hi hi' => (h i hi).symm.trans (h' i hi')

@[simp] theorem length_slice : (slice m a n).length = n := by
  induction n generalizing a with
  | zero => rfl
  | succ n ih => rw [slice, length_cons, ih]

theorem holds_slice : Holds m a (slice m a n) := by
  induction n generalizing a with
  | zero => exact holds_nil
  | succ n ih => exact ⟨rfl, ih⟩

theorem Holds.slice_eq (h : Holds m a s) : slice m a s.length = s := holds_slice.eq_of_length h length_slice

theorem slice_add : slice m a (n + k) = slice m a n ++ slice m (a + n) k := by
  have h : Holds m a (slice m a n ++ slice m (a + n) k) := by
    rw [holds_append, length_slice]
    exact ⟨holds_slice, holds_slice⟩
  have := h.slice_eq
  rwa [length_append, length_slice, length_slice] at this

theorem slice_congr (h : ∀ i, a ≤ i → i < a + n → m' i = m i) : slice m' a n = slice m a n := by
  induction n generalizing a with
  | zero => rfl
  | succ n ih => rw [slice, slice, h a (Nat.le_refl _) (by omega), ih fun i hlo hhi => h i (by omega) (by omega)]

theorem getElem_slice {i : Nat} (h : i < (slice m a n).length) : (slice m a n)[i] = m (a + i) :=
  (holds_iff.mp holds_slice i h).symm

theorem load_eq {lo hi : Nat} (h1 : lo ≤ a) (h2 : a < hi) : load m lo hi a = some (m a) := if_pos ⟨h1, h2⟩

/-! ## Storing -/

variable {dst i src : Nat}

theorem store_of_lt (h : i < a) : store m a s i = m i := by
  rw [store, if_neg (by omega)]

theorem store_of_ge (h : a + s.length ≤ i) : store m a s i = m i := by
  rw [store, getElem?_eq_none (by omega)]
  simp

theorem store_outside (h : i < a ∨ a + s.length ≤ i) : store m a s i = m i := h.elim store_of_lt store_of_ge

theorem holds_store : Holds (store m a s) a s := by
  rw [holds_iff]
  intro i hi
  rw [store, if_pos (by omega), Nat.add_sub_cancel_left, getElem?_eq_getElem hi, Option.getD_some]

theorem Holds.store (h : Holds m b t) (hd : b + t.length ≤ a ∨ a + s.length ≤ b) : Holds (store m a s) b t :=
  h.congr fun i hi hi' => store_outside (by omega)

@[simp] theorem store_nil : store m a [] = m := by
  funext i
  exact store_outside (by simp; omega)

theorem store_inside (h : i < s.length) : store m a s (a + i) = s[i] := holds_iff.mp holds_store i h

theorem store_append : store (store m a s) (a + s.length) t = store m a (s ++ t) := by
  funext i
  by_cases hlt : i < a
  · rw [store_of_lt (by omega), store_of_lt hlt, store_of_lt hlt]
  obtain ⟨j, rfl⟩ : ∃ j, i = a + j := ⟨i - a, by omega⟩
  by_cases hx : j < s.length
  · rw [store_of_lt (by omega), store_inside hx, store_inside (by rw [length_append]; omega),
      getElem_append_left hx]
  obtain ⟨k, rfl⟩ : ∃ k, j = s.length + k := ⟨j - s.length, by omega⟩
  by_cases hy : k < t.length
  · rw [← add_assoc, store_inside hy, add_assoc,
      store_inside (by rw [length_append]; omega), getElem_append_right (by omega)]
    congr 1
    omega
  · rw [store_of_ge (by omega), store_of_ge (by omega), store_of_ge (by rw [length_append]; omega)]

theorem store_comm (h : a + s.length ≤ b ∨ b + t.length ≤ a) :
    store (store m a s) b t = store (store m b t) a s := by
  funext i
  by_cases hx : a ≤ i ∧ i < a + s.length
  · rw [store_outside (s := t) (by omega)]
    obtain ⟨j, rfl⟩ : ∃ j, i = a + j := ⟨i - a, by omega⟩
    rw [store_inside (by omega), store_inside (by omega)]
  · rw [store_outside (s := s) (m := store m b t) (by omega)]
    by_cases hy : b ≤ i ∧ i < b + t.length
    · obtain ⟨j, rfl⟩ : ∃ j, i = b + j := ⟨i - b, by omega⟩
      rw [store_inside (by omega), store_inside (by omega)]
    · rw [store_outside (s := t) (by omega), store_outside (s := t) (by omega),
        store_outside (s := s) (by omega)]

theorem store_store (h : s.length ≤ t.length) : store (store m a s) a t = store m a t := by
  funext i
  by_cases hy : a ≤ i ∧ i < a + t.length
  · obtain ⟨j, rfl⟩ : ∃ j, i = a + j := ⟨i - a, by omega⟩
    rw [store_inside (by omega), store_inside (by omega)]
  · rw [store_outside (by omega), store_outside (by omega), store_outside (by omega)]

theorem store_cons : store (store m (a + 1) s) a [x] = store m a (x :: s) := by
  rw [store_comm (by simp)]
  exact store_append (s := [x])

theorem update_eq_store [DecidableEq Nat] : update m a x = store m a [x] := by
  funext i
  by_cases h : i = a
  · subst h
    rw [update_self]
    exact (holds_store (s := [x])).1.symm
  · rw [update_of_ne h, store_outside (by simp; omega)]

theorem Holds.store_eq (h : Holds m a s) : Memory.store m a s = m := by
  funext i
  by_cases hi : a ≤ i ∧ i < a + s.length
  · obtain ⟨j, rfl⟩ : ∃ j, i = a + j := ⟨i - a, by omega⟩
    rw [store_inside (by omega), holds_iff.mp h j (by omega)]
  · exact store_outside (by omega)

theorem Holds.eq_store (h : Holds m' a s) (hout : ∀ i, i < a ∨ a + s.length ≤ i → m' i = m i) :
    m' = Memory.store m a s := by
  funext i
  by_cases hi : a ≤ i ∧ i < a + s.length
  · obtain ⟨j, rfl⟩ : ∃ j, i = a + j := ⟨i - a, by omega⟩
    rw [store_inside (by omega), holds_iff.mp h j (by omega)]
  · rw [store_outside (by omega), hout i (by omega)]

theorem store_eq_self_iff : store m a s = m ↔ Holds m a s := by
  constructor
  · intro h
    rw [← h]
    exact holds_store
  · exact Holds.store_eq

theorem slice_store_of_disjoint (h : b + n ≤ a ∨ a + s.length ≤ b) :
    slice (store m a s) b n = slice m b n := by
  have hs : Holds (store m a s) b (slice m b n) := by
    refine holds_slice.store ?_
    rw [length_slice]
    exact h
  have := hs.slice_eq
  rwa [length_slice] at this

theorem store_splice (h : k + t.length ≤ n) :
    store m a ((slice m a n).take k ++ t ++ (slice m a n).drop (k + t.length)) = store m (a + k) t := by
  obtain ⟨r, rfl⟩ : ∃ r, n = k + (t.length + r) := ⟨n - (k + t.length), by omega⟩
  have htake : (slice m a (k + (t.length + r))).take k = slice m a k := by
    rw [slice_add, take_append_of_le_length (Nat.le_of_eq length_slice.symm)]
    exact take_of_length_le (Nat.le_of_eq length_slice)
  have hdrop : (slice m a (k + (t.length + r))).drop (k + t.length) = slice m (a + k + t.length) r := by
    rw [← Nat.add_assoc, slice_add, drop_append_of_le_length (Nat.le_of_eq length_slice.symm),
      drop_of_length_le (Nat.le_of_eq length_slice), nil_append, Nat.add_assoc]
  -- the three parts in turn; the outer two are there already
  have hrest : Holds (store m (a + k) t) (a + k + t.length) (slice m (a + k + t.length) r) :=
    holds_slice.store (.inr (Nat.le_refl _))
  rw [htake, hdrop, ← store_append, ← store_append, length_slice, holds_slice.store_eq,
    length_append, length_slice, ← add_assoc, hrest.store_eq]

/-! ## Combining

A store that merges each value with the one the cell holds. -/

/-- Stores `f old new` for each `new` of `s`, from `a` on. -/
def combine (f : α → α → α) (m : Memory α) (a : Nat) (s : List α) : Memory α :=
  store m a (List.zipWith f (slice m a s.length) s)

variable {f : α → α → α}

@[simp] theorem length_combined : (zipWith f (slice m a s.length) s).length = s.length := by
  rw [length_zipWith, length_slice, Nat.min_self]

@[simp] theorem combine_nil : combine f m a [] = m := by
  rw [combine, zipWith_nil_right, store_nil]

theorem combine_outside (h : i < a ∨ a + s.length ≤ i) : combine f m a s i = m i :=
  store_outside (by rw [length_combined]; exact h)

theorem combine_inside (h : i < s.length) : combine f m a s (a + i) = f (m (a + i)) s[i] := by
  rw [combine, store_inside (by rw [length_combined]; exact h), getElem_zipWith, getElem_slice]

theorem combine_append : combine f (combine f m a s) (a + s.length) t = combine f m a (s ++ t) := by
  funext i
  by_cases hlt : i < a
  · rw [combine_outside (by omega), combine_outside (.inl hlt), combine_outside (.inl hlt)]
  obtain ⟨j, rfl⟩ : ∃ j, i = a + j := ⟨i - a, by omega⟩
  by_cases hx : j < s.length
  · rw [combine_outside (by omega), combine_inside hx,
      combine_inside (by rw [length_append]; omega), getElem_append_left hx]
  obtain ⟨k, rfl⟩ : ∃ k, j = s.length + k := ⟨j - s.length, by omega⟩
  by_cases hy : k < t.length
  · rw [← add_assoc, combine_inside hy, combine_outside (by omega), add_assoc,
      combine_inside (by rw [length_append]; omega), getElem_append_right (by omega)]
    congr 1
    simp only [Nat.add_sub_cancel_left]
  · rw [combine_outside (by omega), combine_outside (by omega),
      combine_outside (by rw [length_append]; omega)]

theorem combine_eq_store (h : ∀ i (hi : i < s.length), f (m (a + i)) s[i] = s[i]) :
    combine f m a s = store m a s := by
  funext i
  by_cases hi : a ≤ i ∧ i < a + s.length
  · obtain ⟨j, rfl⟩ : ∃ j, i = a + j := ⟨i - a, by omega⟩
    rw [combine_inside (by omega), store_inside (by omega), h j (by omega)]
  · rw [combine_outside (by omega), store_outside (by omega)]

/-! ## Moving -/

theorem move_outside (h : i < dst ∨ dst + n ≤ i) : move m dst src n i = m i := by
  rw [move, if_neg (by omega)]

@[simp] theorem move_zero : move m dst src 0 = m := by
  funext i
  exact move_outside (by omega)

theorem move_succ (h : src ≤ dst) :
    move (store m (dst + n) [m (src + n)]) dst src n = move m dst src (n + 1) := by
  funext i
  rcases Nat.lt_trichotomy i (dst + n) with hi | rfl | hi
  · by_cases hd : dst ≤ i
    · rw [move, if_pos (by omega), move, if_pos (by omega), store_of_lt (by omega)]
    · rw [move_outside (by omega), move_outside (by omega), store_of_lt hi]
  · rw [move_outside (by omega), move, if_pos (by omega), Nat.add_sub_cancel_left]
    exact store_inside (s := [m (src + n)]) (by simp) (i := 0)
  · rw [move_outside (by omega), move_outside (by omega), store_of_ge (by simp; omega)]

/-- A list held within the moved block is held at the same place of the target. -/
theorem Holds.move {dst src : Nat} (h : Holds m (src + k) s) (hk : k + s.length ≤ n) :
    Holds (move m dst src n) (dst + k) s := by
  rw [holds_iff] at h ⊢
  intro i hi
  rw [Memory.move, if_pos (by omega), ← h i hi]
  congr 1
  omega

theorem Holds.move_of_disjoint (h : Holds m b t)
    (hd : b + t.length ≤ dst ∨ dst + n ≤ b) : Holds (Memory.move m dst src n) b t :=
  h.congr fun i hi hi' => move_outside (by omega)

/-- Replacing what lies between `p` and `t` by `z`: `t` is moved, along with `k`
cells in front of it, to where it follows `z`. -/
theorem Holds.splice {p z : List α} {dst src : Nat} (hp : Holds m a p) (ht : Holds m (src + k) t)
    (hn : k + t.length ≤ n) (hlo : a + p.length ≤ dst) (hd : dst + k = a + p.length + z.length) :
    Holds (Memory.store (Memory.move m dst src n) (a + p.length) z) a (p ++ (z ++ t)) := by
  rw [holds_append, holds_append]
  refine ⟨?_, holds_store, ?_⟩
  · exact (hp.move_of_disjoint (.inl hlo)).store (.inl (Nat.le_refl _))
  · rw [← hd]
    exact (ht.move hn).store (.inr (by omega))

end Memory

end Riot.Lib
