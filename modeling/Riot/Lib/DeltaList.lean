import Mathlib.Tactic.Ring
import Mathlib.Data.List.Basic

/-!
# Delta lists

A queue of keys with targets on an unbounded time line can be kept as a list of
offsets: each counts from the target of the entry before it, the first one from a
base. A target that lies behind the base is kept as the base itself.

`Encodes` relates the two. The operations on offsets are those that need no absolute
time: letting time elapse, inserting, and removing; beside each stands what it does to
the targets.
-/

namespace Riot.Lib

open List Prod

variable {α : Type} {b p q t v x : Nat} {k : α} {ds ts : List (α × Nat)}

/-- The offsets `ds` stand for the targets `ts`: `b` is the base and `p` the sum of the
offsets in front of them. -/
def Encodes (b : Nat) : Nat → List (α × Nat) → List (α × Nat) → Prop
  | _, [], [] => True
  | p, d :: ds, t :: ts => d.1 = t.1 ∧ p + d.2 = t.2 - b ∧ Encodes b (p + d.2) ds ts
  | _, _, _ => False

theorem Encodes.keys : ∀ {p : Nat} {ds ts : List (α × Nat)}, Encodes b p ds ts → ds.map fst = ts.map fst
  | _, [], [], _ => rfl
  | _, d :: ds, t :: ts, h => by
    rw [map_cons, map_cons, h.1, h.2.2.keys]
  | _, [], _ :: _, h => h.elim
  | _, _ :: _, [], h => h.elim

theorem encodes_nil : Encodes b p ([] : List (α × Nat)) ts ↔ ts = [] := by
  cases ts with
  | nil => exact iff_of_true trivial rfl
  | cons t ts => exact iff_of_false id (cons_ne_nil t ts)

theorem Encodes.cons_left {d : α × Nat} (h : Encodes b p (d :: ds) ts) :
    ∃ t ts', ts = t :: ts' ∧ d.1 = t.1 ∧ p + d.2 = t.2 - b ∧ Encodes b (p + d.2) ds ts' := by
  cases ts with
  | nil => exact h.elim
  | cons t ts' => exact ⟨t, ts', rfl, h⟩

/-! ## Elapsing time -/

/-- Lets `x` ticks elapse. -/
def elapse : Nat → List (α × Nat) → List (α × Nat)
  | _, [] => []
  | x, d :: ds => if x ≤ d.2 then (d.1, d.2 - x) :: ds else (d.1, 0) :: elapse (x - d.2) ds

@[simp] theorem elapse_zero : elapse 0 ds = ds := by
  cases ds with
  | nil => rfl
  | cons d ds => rw [elapse, if_pos (Nat.zero_le _), Nat.sub_zero]

theorem elapse_zeros {zs : List (α × Nat)} (hx : 0 < x) (hz : ∀ d ∈ zs, d.2 = 0) :
    elapse x (zs ++ ds) = zs ++ elapse x ds := by
  induction zs with
  | nil => rfl
  | cons z zs ih =>
    obtain ⟨hz, hzs⟩ := forall_mem_cons.mp hz
    rw [cons_append, elapse, if_neg (by omega), hz, Nat.sub_zero, ih hzs, cons_append, ← hz]

/-- **Elapsing moves the base**, and no target. -/
theorem Encodes.elapse : ∀ {p : Nat} {ds ts : List (α × Nat)}, Encodes b p ds ts →
    Encodes (b + x) (p - x) (Riot.Lib.elapse (x - p) ds) ts
  | _, [], [], _ => trivial
  | p, d :: ds, t :: ts, ⟨hk, ht, h⟩ => by
    have hrest := h.elapse
    rw [Riot.Lib.elapse]
    split
    · rename_i hle
      have hzero : x - (p + d.2) = 0 := by omega
      rw [hzero, elapse_zero] at hrest
      have hsum : p - x + (d.2 - (x - p)) = p + d.2 - x := by omega
      refine ⟨hk, ?_, ?_⟩
      · show p - x + (d.2 - (x - p)) = t.2 - (b + x)
        omega
      · rw [hsum]
        exact hrest
    · rename_i hgt
      have hsub : x - p - d.2 = x - (p + d.2) := Nat.sub_sub x p d.2
      have hsum : p - x + 0 = p + d.2 - x := by omega
      refine ⟨hk, ?_, ?_⟩
      · show p - x + 0 = t.2 - (b + x)
        omega
      · show Encodes (b + x) (p - x + 0) (Riot.Lib.elapse (x - p - d.2) ds) ts
        rw [hsum, hsub]
        exact hrest
  | _, [], _ :: _, h => h.elim
  | _, _ :: _, [], h => h.elim

/-- The offsets also stand for targets that are all put off by as much as the base is. -/
theorem Encodes.postpone : ∀ {p : Nat} {ds ts : List (α × Nat)}, Encodes b p ds ts →
    Encodes (b + q) p ds (ts.map fun t => (t.1, max t.2 b + q))
  | _, [], [], _ => trivial
  | p, d :: ds, t :: ts, ⟨hk, ht, h⟩ => by
    refine ⟨hk, ?_, h.postpone⟩
    show p + d.2 = max t.2 b + q - (b + q)
    omega
  | _, [], _ :: _, h => h.elim
  | _, _ :: _, [], h => h.elim

theorem Encodes.sum_lt : ∀ {p : Nat} {ds ts : List (α × Nat)}, Encodes b p ds ts → p < q →
    (∀ t ∈ ts, t.2 < b + q) → p + (ds.map snd).sum < q
  | _, [], [], _, hp, _ => hp
  | p, d :: ds, t :: ts, ⟨_, ht, h⟩, hp, hlt => by
    obtain ⟨hlt, hlts⟩ := forall_mem_cons.mp hlt
    have := h.sum_lt (by omega) hlts
    rw [map_cons, sum_cons]
    omega
  | _, [], _ :: _, h, _, _ => h.elim
  | _, _ :: _, [], h, _, _ => h.elim

/-! ## Insertion -/

/-- Inserts an entry behind all that are not due later. -/
def insertTarget (k : α) (t : Nat) : List (α × Nat) → List (α × Nat)
  | [] => [(k, t)]
  | e :: ts => if e.2 ≤ t then e :: insertTarget k t ts else (k, t) :: e :: ts

/-- The same on offsets: `v` counts from where the list starts. -/
def insertDelta (k : α) (v : Nat) : List (α × Nat) → List (α × Nat)
  | [] => [(k, v)]
  | d :: ds => if d.2 ≤ v then d :: insertDelta k (v - d.2) ds else (k, v) :: (d.1, d.2 - v) :: ds

/-- Takes an offset off the first one. -/
def subHead (v : Nat) : List (α × Nat) → List (α × Nat)
  | [] => []
  | d :: ds => (d.1, d.2 - v) :: ds

theorem insertDelta_of_lt (h : ∀ d ∈ ds.head?, v < d.2) : insertDelta k v ds = (k, v) :: subHead v ds := by
  cases ds with
  | nil => rfl
  | cons d ds =>
    have := h d rfl
    rw [insertDelta, if_neg (by omega)]
    rfl

theorem Encodes.insert (hb : b ≤ t) : ∀ {p v : Nat} {ds ts : List (α × Nat)}, Encodes b p ds ts →
    p + v = t - b → Encodes b p (insertDelta k v ds) (insertTarget k t ts)
  | _, _, [], [], _, hv => ⟨rfl, hv, trivial⟩
  | p, v, d :: ds, e :: ts, ⟨hk, ht, h⟩, hv => by
    rw [insertDelta, insertTarget]
    by_cases hle : d.2 ≤ v
    · rw [if_pos hle, if_pos (show e.2 ≤ t by omega)]
      exact ⟨hk, ht, h.insert hb (by omega)⟩
    · rw [if_neg hle, if_neg (show ¬ e.2 ≤ t by omega)]
      have hsum : p + v + (d.2 - v) = p + d.2 := by omega
      refine ⟨rfl, hv, hk, ?_, ?_⟩
      · show p + v + (d.2 - v) = e.2 - b
        omega
      · show Encodes b (p + v + (d.2 - v)) ds ts
        rw [hsum]
        exact h
  | _, _, [], _ :: _, h, _ => h.elim
  | _, _, _ :: _, [], h, _ => h.elim

theorem mem_insertTarget {e : α × Nat} : e ∈ insertTarget k t ts ↔ e = (k, t) ∨ e ∈ ts := by
  induction ts with
  | nil => rw [insertTarget, mem_singleton, or_iff_left (not_mem_nil)]
  | cons a ts ih =>
    rw [insertTarget]
    split
    · rw [mem_cons, ih, mem_cons, or_left_comm]
    · rw [mem_cons]

/-- **Insertion keeps the order of targets.** -/
theorem pairwise_insertTarget (h : ts.Pairwise fun e f => e.2 ≤ f.2) :
    (insertTarget k t ts).Pairwise fun e f => e.2 ≤ f.2 := by
  induction ts with
  | nil => exact pairwise_singleton _ _
  | cons a ts ih =>
    obtain ⟨ha, hts⟩ := pairwise_cons.mp h
    rw [insertTarget]
    split
    · rename_i hle
      refine pairwise_cons.mpr ⟨fun e he => ?_, ih hts⟩
      rcases mem_insertTarget.mp he with rfl | he
      · exact hle
      · exact ha e he
    · refine pairwise_cons.mpr ⟨fun e he => ?_, h⟩
      rcases mem_cons.mp he with rfl | he
      · omega
      · have := ha e he
        omega

theorem perm_insertTarget : (insertTarget k t ts).Perm ((k, t) :: ts) := by
  induction ts with
  | nil => exact .refl _
  | cons a ts ih =>
    rw [insertTarget]
    split
    · exact (ih.cons a).trans (.swap (k, t) a ts)
    · exact .refl _

/-! ## Removal -/

variable [DecidableEq α]

/-- Removes the entry of a key. -/
def removeTarget (k : α) (ts : List (α × Nat)) : List (α × Nat) := ts.eraseP fun e => decide (e.1 = k)

/-- Adds an offset to the first one. -/
def addHead (v : Nat) : List (α × Nat) → List (α × Nat)
  | [] => []
  | d :: ds => (d.1, d.2 + v) :: ds

/-- The same on offsets: the entry behind takes over the offset. -/
def removeDelta (k : α) : List (α × Nat) → List (α × Nat)
  | [] => []
  | d :: ds => if d.1 = k then addHead d.2 ds else d :: removeDelta k ds

theorem removeDelta_append {xs : List (α × Nat)} (h : k ∉ xs.map fst) :
    removeDelta k (xs ++ (k, v) :: ds) = xs ++ addHead v ds := by
  induction xs with
  | nil => rw [nil_append, removeDelta, if_pos rfl, nil_append]
  | cons x xs ih =>
    obtain ⟨hx, hxs⟩ := not_or.mp (mem_cons.not.mp h)
    rw [cons_append, removeDelta, if_neg (Ne.symm hx), ih hxs, cons_append]

theorem Encodes.remove : ∀ {p : Nat} {ds ts : List (α × Nat)}, Encodes b p ds ts →
    Encodes b p (removeDelta k ds) (removeTarget k ts)
  | _, [], [], _ => trivial
  | p, d :: ds, t :: ts, ⟨hk, ht, h⟩ => by
    rw [removeDelta, removeTarget, eraseP_cons]
    by_cases hd : d.1 = k
    · rw [if_pos hd, decide_eq_true (hk ▸ hd)]
      cases ds with
      | nil =>
        rw [encodes_nil.mp h]
        trivial
      | cons d' ds =>
        obtain ⟨t', ts', rfl, hk', ht', h'⟩ := h.cons_left
        have hsum : p + (d'.2 + d.2) = p + d.2 + d'.2 := by omega
        refine ⟨hk', ?_, ?_⟩
        · omega
        · rw [hsum]
          exact h'
    · rw [if_neg hd, decide_eq_false (hk ▸ hd)]
      exact ⟨hk, ht, h.remove⟩
  | _, [], _ :: _, h => h.elim
  | _, _ :: _, [], h => h.elim

theorem removeTarget_of_not_mem (h : k ∉ ts.map fst) : removeTarget k ts = ts := by
  refine eraseP_of_forall_not fun e he => ?_
  rw [decide_eq_true_eq]
  rintro rfl
  exact h (mem_map_of_mem he)

theorem mem_removeTarget {e : α × Nat} (h : e ∈ removeTarget k ts) : e ∈ ts := eraseP_subset h

theorem perm_removeTarget : ts.Perm ((ts.find? fun e => decide (e.1 = k)).toList ++ removeTarget k ts) := by
  induction ts with
  | nil => exact .refl _
  | cons e ts ih =>
    rw [removeTarget, find?_cons, eraseP_cons]
    cases decide (e.1 = k) with
    | true => exact .refl _
    | false => exact (ih.cons e).trans perm_middle.symm

theorem keys_removeTarget : (removeTarget k ts).map fst = (ts.map fst).erase k := by
  induction ts with
  | nil => rfl
  | cons a ts ih =>
    rw [removeTarget, eraseP_cons, map_cons, erase_cons]
    by_cases ha : a.1 = k
    · rw [decide_eq_true ha, if_pos (beq_iff_eq.mpr ha)]
      rfl
    · rw [decide_eq_false ha, if_neg (beq_iff_eq.not.mpr ha)]
      exact congrArg (a.1 :: ·) ih

/-! ## The targets that offsets stand for -/

/-- The targets of a list of offsets that starts at `b`. -/
def targets : Nat → List (α × Nat) → List (α × Nat)
  | _, [] => []
  | b, d :: ds => (d.1, b + d.2) :: targets (b + d.2) ds

omit [DecidableEq α] in
@[simp] theorem keys_targets : (targets b ds).map fst = ds.map fst := by
  induction ds generalizing b with
  | nil => rfl
  | cons d ds ih => rw [targets, map_cons, map_cons, ih]

omit [DecidableEq α] in
theorem le_of_mem_targets {t : α × Nat} (h : t ∈ targets b ds) : b ≤ t.2 := by
  induction ds generalizing b with
  | nil => exact absurd h not_mem_nil
  | cons d ds ih =>
    rcases mem_cons.mp h with rfl | h
    · exact Nat.le_add_right b d.2
    · have := ih h
      omega

omit [DecidableEq α] in

omit [DecidableEq α] in
theorem targets_shift : targets (b + x) ds = (targets b ds).map fun t => (t.1, t.2 + x) := by
  induction ds generalizing b with
  | nil => rfl
  | cons d ds ih =>
    have hsum : b + x + d.2 = b + d.2 + x := by omega
    rw [targets, targets, map_cons, hsum, ih]

omit [DecidableEq α] in
/-- **Insertion by offsets is insertion by targets.** -/
theorem targets_insertDelta : targets b (insertDelta k v ds) = insertTarget k (b + v) (targets b ds) := by
  induction ds generalizing b v with
  | nil => rfl
  | cons d ds ih =>
    rw [insertDelta, targets, insertTarget]
    by_cases hle : d.2 ≤ v
    · have hsum : b + d.2 + (v - d.2) = b + v := by omega
      rw [if_pos hle, if_pos (by show b + d.2 ≤ b + v; omega), targets, ih, hsum]
    · have hsum : b + v + (d.2 - v) = b + d.2 := by omega
      rw [if_neg hle, if_neg (by show ¬ b + d.2 ≤ b + v; omega), targets, targets, hsum]

/-- **Removal by offsets is removal by targets.** -/
theorem targets_removeDelta : targets b (removeDelta k ds) = removeTarget k (targets b ds) := by
  induction ds generalizing b with
  | nil => rfl
  | cons d ds ih =>
    rw [removeDelta, targets, removeTarget, eraseP_cons]
    by_cases hd : d.1 = k
    · rw [if_pos hd, decide_eq_true hd]
      cases ds with
      | nil => rfl
      | cons d' ds =>
        have hsum : b + (d'.2 + d.2) = b + d.2 + d'.2 := by omega
        rw [addHead, targets, hsum]
        rfl
    · rw [if_neg hd, decide_eq_false hd, targets, ih]
      rfl

end Riot.Lib
