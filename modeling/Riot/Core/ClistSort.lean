import Mathlib.Tactic.Ring
import Riot.Core.List
import Riot.Lib.MergeRuns

/-!
# Sorting a circular list

`core/lib/clist.c`: a merge sort in place. A pass merges the first run of `insize` nodes with the second
one, the third one with the fourth one, and so on, and relinks the nodes as it goes; the end of the list
is where a node links to the one the pass has started with.
-/

namespace Riot.Core

open Riot.Lib Function Option

variable {H T : Type} [DecidableEq H] [DecidableEq T]

def intMax : Nat := 2 ^ 31 - 1

/-! ## `_clist_sort` -/

/-- `e->next`, or `NULL` at the end of the list. -/
def clistAdvance (next : NodeMem H T) (oldhead e : T) : Link T :=
  if next (.entry e) = .ref oldhead then .null else next (.entry e)

/-- The `for` loop, with what is left to `insize`: `psize` and `q`. -/
def clistStep (next : NodeMem H T) (oldhead : T) : Nat → Nat → Link T → Option (Nat × Link T)
  | 0, psize, q => some (psize, q)
  | i + 1, psize, .ref q =>
    if clistAdvance next oldhead q = .null then some (psize + 1, .null)
    else clistStep next oldhead i (psize + 1) (clistAdvance next oldhead q)
  | _, _, _ => none

/-- The merged list of a pass, and the memory. -/
structure ClistMerged (H T : Type) where
  next : NodeMem H T
  list : Link T
  tail : Link T

/-- Adds the next element to the merged list. -/
def ClistMerged.add (s : ClistMerged H T) (e : T) : ClistMerged H T :=
  match s.tail with
  | .ref tail => { s with next := update s.next (.entry tail) (.ref e), tail := .ref e }
  | _ => { s with list := .ref e, tail := .ref e }

/-- Whether the next element of the merge comes from `p`. -/
def clistFromP (cmp : T → T → Int) (p : Link T) (psize : Nat) (q : Link T) (qsize : Nat) : Option Bool :=
  if psize = 0 then some false
  else if qsize = 0 ∨ q = .null then some true
  else
    match p, q with
    | .ref p, .ref q => some (decide (cmp p q ≤ 0))
    | _, _ => none

/-- The inner `while` loop: the merged list and `q`. -/
def clistMergeLoop (cmp : T → T → Int) (oldhead : T) :
    Nat → ClistMerged H T → Link T → Nat → Link T → Nat → Option (ClistMerged H T × Link T)
  | 0, _, _, _, _, _ => none
  | fuel + 1, s, p, psize, q, qsize =>
    if psize > 0 ∨ (qsize > 0 ∧ q ≠ .null) then
      match clistFromP cmp p psize q qsize, p, q with
      | some true, .ref e, _ =>
        clistMergeLoop cmp oldhead fuel (s.add e) (clistAdvance s.next oldhead e) (psize - 1) q qsize
      | some false, _, .ref e =>
        clistMergeLoop cmp oldhead fuel (s.add e) p psize (clistAdvance s.next oldhead e) (qsize - 1)
      | _, _, _ => none
    else some (s, q)

/-- The `while` loop over the runs: the merged list and `nmerges`. Every loop inside of it is given
`bound` iterations. Neither `psize` nor `i` is ever more than `insize`. -/
def clistPassLoop (cmp : T → T → Int) (bound insize : Nat) (oldhead : T) :
    Nat → ClistMerged H T → Link T → Nat → Option (ClistMerged H T × Nat)
  | 0, _, _, _ => none
  | fuel + 1, s, p, nmerges =>
    if p = .null then some (s, nmerges)
    else if nmerges = intMax then none
    else
      (clistStep s.next oldhead insize 0 p).bind fun (psize, q) =>
        (clistMergeLoop cmp oldhead bound s p psize q insize).bind fun (s, q) =>
          clistPassLoop cmp bound insize oldhead fuel s q (nmerges + 1)

/-- The outer loop: the memory and the new tail. There is no result without enough iterations, nor
when an `int` overflows or `NULL` is dereferenced. -/
def clistSortLoop (cmp : T → T → Int) (bound : Nat) :
    Nat → NodeMem H T → T → Nat → Option (NodeMem H T × T)
  | 0, _, _, _ => none
  | fuel + 1, next, oldhead, insize =>
    (clistPassLoop cmp bound insize oldhead bound ⟨next, .null, .null⟩ (.ref oldhead) 0).bind fun (s, nmerges) =>
      match s.tail, s.list with
      | .ref tail, .ref list =>
        let next := update s.next (.entry tail) (.ref list)
        if nmerges ≤ 1 then some (next, tail)
        else if insize * 2 > intMax then none
        else clistSortLoop cmp bound fuel next list (insize * 2)
      | _, _ => none

def clistSort (bound : Nat) (m : NodeMem H T) (list : Node H T) (cmp : T → T → Int) : Option (NodeMem H T) :=
  match m list with
  | .null => some m
  | .ref last =>
    match m (.entry last) with
    | .null => some (update m list .null)
    | .ref head =>
      (clistSortLoop cmp bound bound m head 1).map fun (m, tail) => update m list (.ref tail)
    | .mark => none
  | .mark => none

theorem clistSort_ref {bound : Nat} {m : NodeMem H T} {list : Node H T} {cmp : T → T → Int} {last head : T}
    (hlast : m list = .ref last) (hhead : m (.entry last) = .ref head) :
    clistSort bound m list cmp =
      (clistSortLoop cmp bound bound m head 1).map fun r => update r.1 list (.ref r.2) := by
  simp only [clistSort, hlast, hhead]

/-! ## More iterations change nothing -/

section Monotone

variable {cmp : T → T → Int} {oldhead : T} {bound bound' insize : Nat}

theorem clistMergeLoop_mono {fuel fuel' : Nat} {s : ClistMerged H T} {p q : Link T} {psize qsize : Nat}
    {r : ClistMerged H T × Link T} (hle : fuel ≤ fuel')
    (h : clistMergeLoop cmp oldhead fuel s p psize q qsize = some r) :
    clistMergeLoop cmp oldhead fuel' s p psize q qsize = some r := by
  induction fuel generalizing fuel' s p q psize qsize with
  | zero => cases h
  | succ fuel ih =>
    obtain ⟨n, rfl⟩ : ∃ n, fuel' = n + 1 := ⟨fuel' - 1, by omega⟩
    unfold clistMergeLoop at h ⊢
    by_cases hgo : psize > 0 ∨ (qsize > 0 ∧ q ≠ .null)
    · rw [if_pos hgo] at h ⊢
      cases hchoice : clistFromP cmp p psize q qsize with
      | none =>
        rw [hchoice] at h
        cases h
      | some left =>
        rw [hchoice] at h
        cases left with
        | true =>
          cases p with
          | ref e => exact ih (Nat.le_of_succ_le_succ hle) h
          | _ => cases h
        | false =>
          cases q with
          | ref e => exact ih (Nat.le_of_succ_le_succ hle) h
          | _ => cases h
    · rw [if_neg hgo] at h ⊢
      exact h

theorem clistPassLoop_mono (hb : bound ≤ bound') : ∀ {fuel fuel' : Nat} {s : ClistMerged H T} {p : Link T}
    {nmerges : Nat} {r : ClistMerged H T × Nat}, fuel ≤ fuel' →
      clistPassLoop cmp bound insize oldhead fuel s p nmerges = some r →
      clistPassLoop cmp bound' insize oldhead fuel' s p nmerges = some r
  | fuel + 1, fuel' + 1, s, p, nmerges, r, hle, h => by
    unfold clistPassLoop at h ⊢
    split at h
    · rename_i hnull
      rw [if_pos hnull]
      exact h
    · rename_i hnull
      rw [if_neg hnull]
      split at h
      · cases h
      · rename_i hmax
        rw [if_neg hmax]
        obtain ⟨a, ha, h⟩ := bind_eq_some_iff.mp h
        obtain ⟨b, hmerge, h⟩ := bind_eq_some_iff.mp h
        refine bind_eq_some_iff.mpr ⟨a, ha, bind_eq_some_iff.mpr ⟨b, clistMergeLoop_mono hb hmerge, ?_⟩⟩
        exact clistPassLoop_mono hb (Nat.le_of_succ_le_succ hle) h

theorem clistSortLoop_mono (hb : bound ≤ bound') : ∀ {fuel fuel' : Nat} {next : NodeMem H T} {head : T} {insize : Nat}
    {r : NodeMem H T × T}, fuel ≤ fuel' → clistSortLoop cmp bound fuel next head insize = some r →
      clistSortLoop cmp bound' fuel' next head insize = some r
  | fuel + 1, fuel' + 1, next, head, insize, r, hle, h => by
    obtain ⟨a, ha, h⟩ := bind_eq_some_iff.mp h
    refine bind_eq_some_iff.mpr ⟨a, clistPassLoop_mono hb hb ha, ?_⟩
    dsimp only at h ⊢
    split at h
    · split at h
      · rename_i hone
        rw [if_pos hone]
        exact h
      · rename_i hone
        rw [if_neg hone]
        split at h
        · cases h
        · rename_i hover
          rw [if_neg hover]
          exact clistSortLoop_mono hb (Nat.le_of_succ_le_succ hle) h
    · cases h

theorem clistSort_mono {m m' : NodeMem H T} {list : Node H T} (hb : bound ≤ bound')
    (h : clistSort bound m list cmp = some m') : clistSort bound' m list cmp = some m' := by
  unfold clistSort at h ⊢
  split at h
  · exact h
  · split at h
    · exact h
    · obtain ⟨r, hr, h⟩ := map_eq_some_iff.mp h
      exact map_eq_some_iff.mpr ⟨r, clistSortLoop_mono hb hb hr, h⟩
    · cases h
  · cases h

end Monotone

end Riot.Core
