import Mathlib

/-!
# Sorting by merging runs

A list cut into sorted runs. Merging the runs pairwise keeps the elements, and keeps the order of equal
ones; it halves the number of runs until one is left.
-/

namespace Riot.Lib

open List

variable {α : Type}

/-- The order a comparison function stands for, as the merges ask for it. -/
def leOf (cmp : α → α → Int) (a b : α) : Bool := decide (cmp a b ≤ 0)

/-- The comparison function is a total preorder. -/
structure TotalPreorder (cmp : α → α → Int) : Prop where
  trans : ∀ a b c, cmp a b ≤ 0 → cmp b c ≤ 0 → cmp a c ≤ 0
  total : ∀ a b, cmp a b ≤ 0 ∨ cmp b a ≤ 0

/-- Neither comes before the other. -/
def equalTo (cmp : α → α → Int) (a b : α) : Bool := decide (cmp a b ≤ 0 ∧ cmp b a ≤ 0)

/-- The same elements, in order, equal ones in the order they had. -/
structure StablySorted (cmp : α → α → Int) (xs ys : List α) : Prop where
  perm : ys.Perm xs
  sorted : ys.Pairwise fun a b => cmp a b ≤ 0
  stable : ∀ a, ys.filter (equalTo cmp a) = xs.filter (equalTo cmp a)

/-- Merges the first run with the second one, the third one with the fourth one, and so on. -/
def mergePairs (le : α → α → Bool) : List (List α) → List (List α)
  | [] => []
  | [r] => [r]
  | r :: r' :: rs => r.merge r' le :: mergePairs le rs

/-- Runs of `w` elements, the last one possibly shorter. -/
def RunsOf (w : Nat) : List (List α) → Prop
  | [] => True
  | [r] => 0 < r.length ∧ r.length ≤ w
  | r :: r' :: rs => r.length = w ∧ RunsOf w (r' :: rs)

variable {cmp : α → α → Int} {le : α → α → Bool} {xs ys : List α} {r r' : List α} {rs : List (List α)} {w : Nat}

/-! ## The lengths of the runs -/

theorem RunsOf.tail (h : RunsOf w (r :: rs)) : RunsOf w rs := by
  cases rs with
  | nil => trivial
  | cons r' rs => exact h.2

theorem RunsOf.head_le (h : RunsOf w (r :: rs)) : r.length ≤ w := by
  cases rs with
  | nil => exact h.2
  | cons r' rs => exact h.1.le

theorem RunsOf.head_pos (h : RunsOf w (r :: rs)) (hw : 0 < w) : 0 < r.length := by
  cases rs with
  | nil => exact h.1
  | cons r' rs => exact h.1.symm ▸ hw

theorem RunsOf.cons (hr : r.length = w) (h : RunsOf w rs) (hw : 0 < w) : RunsOf w (r :: rs) := by
  cases rs with
  | nil => exact ⟨hr.symm ▸ hw, hr.le⟩
  | cons r' rs => exact ⟨hr, h⟩

theorem runsOf_singletons : ∀ xs : List α, RunsOf 1 (xs.map fun x => [x])
  | [] => trivial
  | [_] => ⟨Nat.one_pos, le_refl _⟩
  | _ :: y :: xs => ⟨rfl, runsOf_singletons (y :: xs)⟩

theorem flatten_singletons : ∀ xs : List α, (xs.map fun x => [x]).flatten = xs
  | [] => rfl
  | x :: xs => by
    rw [map_cons, flatten_cons, flatten_singletons xs]
    rfl

theorem RunsOf.mergePairs (hw : 0 < w) : ∀ {rs : List (List α)}, RunsOf w rs → RunsOf (2 * w) (mergePairs le rs)
  | [], _ => trivial
  | [_], h => ⟨h.1, by have := h.2; omega⟩
  | [r, r'], h => by
    have hr : r.length = w := h.1
    have hr' := h.2.2
    refine ⟨?_, ?_⟩ <;> rw [length_merge] <;> omega
  | r :: r' :: r'' :: rs, h => by
    refine RunsOf.cons ?_ (RunsOf.mergePairs hw h.tail.tail) (by omega)
    rw [length_merge, h.1, h.2.1]
    omega

theorem length_mergePairs (le : α → α → Bool) : ∀ rs : List (List α), 2 * (mergePairs le rs).length = rs.length + rs.length % 2
  | [] => rfl
  | [_] => rfl
  | r :: r' :: rs => by
    have := length_mergePairs le rs
    rw [mergePairs, length_cons, length_cons, length_cons]
    omega

theorem RunsOf.length_le (h : RunsOf w rs) : rs.flatten.length ≤ w * rs.length := by
  induction rs with
  | nil => exact Nat.zero_le _
  | cons r rs ih =>
    have hr := h.head_le
    have hrs := ih h.tail
    rw [flatten_cons, length_append, length_cons, Nat.mul_succ]
    omega

theorem RunsOf.lt_length (h : RunsOf w rs) (hne : rs ≠ []) : w * (rs.length - 1) < rs.flatten.length := by
  induction rs with
  | nil => exact absurd rfl hne
  | cons r rs ih =>
    rw [flatten_cons, length_append, length_cons, Nat.add_sub_cancel]
    cases rs with
    | nil =>
      have := h.1
      rw [length_nil]
      omega
    | cons r' rs =>
      have hrs := ih h.2 (by simp)
      have hr : r.length = w := h.1
      rw [length_cons, Nat.add_sub_cancel] at hrs
      rw [length_cons, Nat.mul_succ]
      omega

theorem RunsOf.length_runs_le (h : RunsOf w rs) (hw : 0 < w) : rs.length ≤ rs.flatten.length := by
  rcases rs with - | ⟨r, rs⟩
  · exact Nat.zero_le _
  · have hlt := h.lt_length (by simp)
    have hmul := Nat.le_mul_of_pos_left ((r :: rs).length - 1) hw
    omega

theorem length_mergePairs_le (le : α → α → Bool) (rs : List (List α)) : (mergePairs le rs).length ≤ rs.length := by
  have := length_mergePairs le rs
  omega

/-! ## What the merges keep -/

theorem flatten_mergePairs_perm (le : α → α → Bool) : ∀ rs : List (List α), (mergePairs le rs).flatten.Perm rs.flatten
  | [] => .refl _
  | [_] => .refl _
  | r :: r' :: rs => by
    rw [mergePairs, flatten_cons, flatten_cons, flatten_cons, ← append_assoc]
    exact (merge_perm_append le).append (flatten_mergePairs_perm le rs)

theorem sorted_merge (hcmp : TotalPreorder cmp) (hx : xs.Pairwise fun a b => cmp a b ≤ 0)
    (hy : ys.Pairwise fun a b => cmp a b ≤ 0) : (xs.merge ys (leOf cmp)).Pairwise fun a b => cmp a b ≤ 0 := by
  have hle : ∀ a b, leOf cmp a b = true ↔ cmp a b ≤ 0 := fun a b => decide_eq_true_iff
  have := pairwise_merge
    (fun a b c hab hbc => (hle a c).mpr (hcmp.trans a b c ((hle a b).mp hab) ((hle b c).mp hbc)))
    (fun a b => by
      rw [Bool.or_eq_true, hle, hle]
      exact hcmp.total a b)
    xs ys (hx.imp fun h => (hle _ _).mpr h) (hy.imp fun h => (hle _ _).mpr h)
  exact this.imp fun h => (hle _ _).mp h

theorem sorted_mergePairs (hcmp : TotalPreorder cmp) : ∀ {rs : List (List α)},
    (∀ r ∈ rs, r.Pairwise fun a b => cmp a b ≤ 0) →
      ∀ r ∈ mergePairs (leOf cmp) rs, r.Pairwise fun a b => cmp a b ≤ 0
  | [], h => h
  | [_], h => h
  | r :: r' :: rs, h => by
    intro x hx
    rcases mem_cons.mp hx with rfl | hx
    · exact sorted_merge hcmp (h r (by simp)) (h r' (by simp))
    · exact sorted_mergePairs hcmp (fun y hy => h y (by simp [hy])) x hx

/-- **A merge is stable.** -/
theorem filter_merge (hcmp : TotalPreorder cmp) (a : α) : ∀ {xs ys : List α},
    (xs.Pairwise fun a b => cmp a b ≤ 0) →
      (xs.merge ys (leOf cmp)).filter (equalTo cmp a) = xs.filter (equalTo cmp a) ++ ys.filter (equalTo cmp a)
  | [], ys, _ => by rw [nil_merge]; rfl
  | x :: xs, [], _ => by rw [merge_right, filter_nil, append_nil]
  | x :: xs, y :: ys, hx => by
    rw [cons_merge_cons]
    split
    · rw [filter_cons, filter_cons, filter_merge hcmp a (pairwise_cons.mp hx).2]
      split <;> rfl
    · rename_i hxy
      have hxy : ¬ cmp x y ≤ 0 := fun h => hxy (decide_eq_true h)
      rw [filter_cons, filter_merge hcmp a hx]
      split
      · rename_i hay
        obtain ⟨hay, hya⟩ := of_decide_eq_true hay
        -- what is equal to `y` is not before it
        have hnone : (x :: xs).filter (equalTo cmp a) = [] := by
          refine filter_eq_nil_iff.mpr fun z hz heq => hxy ?_
          obtain ⟨haz, hza⟩ := of_decide_eq_true heq
          have hzy := hcmp.trans z a y hza hay
          rcases mem_cons.mp hz with rfl | hz
          · exact hzy
          · exact hcmp.trans x z y ((pairwise_cons.mp hx).1 z hz) hzy
        rw [hnone, nil_append, nil_append, filter_cons, if_pos]
        exact decide_eq_true ⟨hay, hya⟩
      · rename_i hay
        rw [filter_cons_of_neg hay]

theorem filter_mergePairs (hcmp : TotalPreorder cmp) (a : α) : ∀ {rs : List (List α)},
    (∀ r ∈ rs, r.Pairwise fun a b => cmp a b ≤ 0) →
      (mergePairs (leOf cmp) rs).flatten.filter (equalTo cmp a) = rs.flatten.filter (equalTo cmp a)
  | [], _ => rfl
  | [_], _ => rfl
  | r :: r' :: rs, h => by
    rw [mergePairs, flatten_cons, flatten_cons, flatten_cons, filter_append, filter_append,
      filter_append, filter_merge hcmp a (h r (by simp)), append_assoc,
      filter_mergePairs hcmp a fun y hy => h y (by simp [hy])]

/-- What stays true of the runs from pass to pass. -/
structure SortingRuns (cmp : α → α → Int) (xs : List α) (rs : List (List α)) : Prop where
  perm : rs.flatten.Perm xs
  sorted : ∀ r ∈ rs, r.Pairwise fun a b => cmp a b ≤ 0
  stable : ∀ a, rs.flatten.filter (equalTo cmp a) = xs.filter (equalTo cmp a)

theorem SortingRuns.singletons (cmp : α → α → Int) (xs : List α) : SortingRuns cmp xs (xs.map fun x => [x]) where
  perm := .of_eq (flatten_singletons xs)
  sorted := by
    intro r hr
    obtain ⟨x, -, rfl⟩ := mem_map.mp hr
    exact pairwise_singleton _ x
  stable := by
    intro a
    rw [flatten_singletons]

theorem SortingRuns.mergePairs (hcmp : TotalPreorder cmp) (h : SortingRuns cmp xs rs) :
    SortingRuns cmp xs (mergePairs (leOf cmp) rs) where
  perm := (flatten_mergePairs_perm _ rs).trans h.perm
  sorted := sorted_mergePairs hcmp h.sorted
  stable := fun a => (filter_mergePairs hcmp a h.sorted).trans (h.stable a)

theorem SortingRuns.done (h : SortingRuns cmp xs rs) (hone : rs.length ≤ 1) : StablySorted cmp xs rs.flatten where
  perm := h.perm
  sorted := by
    match rs, hone, h.sorted with
    | [], _, _ => exact List.Pairwise.nil
    | [r], _, hsorted =>
      rw [flatten_cons, flatten_nil, append_nil]
      exact hsorted r (mem_singleton_self r)
  stable := h.stable

end Riot.Lib
