import Riot.Core.ClistPass

/-!
# `clist_sort` sorts

Pass after pass the runs are twice as long, until there is one. `insize` is an `int`, which bounds the
length of the lists that are sorted.
-/

namespace Riot.Core

open Riot.Lib Function List

variable {H T : Type} [DecidableEq H] [DecidableEq T] {cmp : T → T → Int} {next next' : NodeMem H T} {oldhead : T}
  {s : ClistMerged H T} {xs ts : List T} {rs : List (List T)} {fuel bound insize : Nat}

/-! ## The whole sort -/

theorem Built.close (h : Built s xs) (hnd : xs.Nodup) (hne : xs ≠ []) :
    ∃ tail list, s.tail = .ref tail ∧ s.list = .ref list ∧ xs.head? = some list ∧
      RingAt (update s.next (.entry tail) (.ref list)) (.ref tail) xs ∧ tail ∈ xs := by
  obtain ⟨us, z, rfl⟩ := (eq_nil_or_concat' xs).resolve_left hne
  have htail : s.tail = .ref z := by
    rw [h.tail, getLast?_concat]
    rfl
  obtain ⟨y, hy⟩ : ∃ y, (us ++ [z]).head? = some y := Option.isSome_iff_exists.mp (by simp)
  have hlist : s.list = .ref y := by
    rw [h.list, hy]
    rfl
  have hseg := h.seg
  rw [htail, dropLast_concat, hlist] at hseg
  have hz : z ∉ us := fun hz => (nodup_append.mp hnd).2.2 z hz z (by simp) rfl
  refine ⟨z, y, htail, hlist, hy, ⟨?_, ?_⟩, by simp⟩
  · rw [getLast?_concat]
    rfl
  · rw [hy, Link.ofOption_some, seg_append]
    refine ⟨.ref z, seg_congr (fun t ht => ?_) hseg, rfl, update_self ..⟩
    exact update_of_ne (by rintro ⟨⟩; exact hz ht) ..

/-- What a pass is about to do. -/
structure PassReady (cmp : T → T → Int) (ts : List T) (next : NodeMem H T) (oldhead : T) (insize : Nat)
    (rs : List (List T)) : Prop where
  head : rs.flatten.head? = some oldhead
  seg : Seg next (.ref oldhead) rs.flatten (.ref oldhead)
  nodup : rs.flatten.Nodup
  runs : RunsOf insize rs
  sorting : SortingRuns cmp ts rs

omit [DecidableEq H] in
theorem PassReady.ahead (h : PassReady cmp ts next oldhead insize rs) :
    Seg (ahead next oldhead) (.ref oldhead) rs.flatten .null := by
  obtain ⟨us, hus⟩ := head?_eq_some_iff.mp h.head
  have hseg := h.seg
  have hnd := h.nodup
  rw [hus] at hseg hnd ⊢
  exact seg_ahead_ring hseg hnd

theorem PassReady.overflow (h : PassReady cmp ts next oldhead insize rs) (hinsize : 0 < insize)
    (hbound : rs.flatten.length < bound) (hmax : intMax < (mergePairs (leOf cmp) rs).length) :
    clistPassLoop cmp bound insize oldhead bound ⟨next, .null, .null⟩ (.ref oldhead) 0 = none := by
  have hruns := h.runs.length_runs_le hinsize
  have hmerges := length_mergePairs_le (leOf cmp) rs
  exact (clistPassLoop_eq hinsize built_nil h.ahead h.runs h.nodup hbound (by omega) (Nat.zero_le _)).2
    (by omega)

theorem PassReady.pass (h : PassReady cmp ts next oldhead insize rs) (hcmp : TotalPreorder cmp) (hinsize : 0 < insize)
    (hbound : rs.flatten.length < bound) (hmax : (mergePairs (leOf cmp) rs).length ≤ intMax) :
    ∃ s tail list, clistPassLoop cmp bound insize oldhead bound ⟨next, .null, .null⟩ (.ref oldhead) 0 =
        some (s, (mergePairs (leOf cmp) rs).length) ∧ s.tail = .ref tail ∧ s.list = .ref list ∧
      PassReady cmp ts (update s.next (.entry tail) (.ref list)) list (insize * 2)
        (mergePairs (leOf cmp) rs) ∧
      RingAt (update s.next (.entry tail) (.ref list)) (.ref tail) (mergePairs (leOf cmp) rs).flatten ∧
      Untouched next (update s.next (.entry tail) (.ref list)) rs.flatten := by
  have hperm := flatten_mergePairs_perm (leOf cmp) rs
  have hnd := hperm.nodup_iff.mpr h.nodup
  have hruns := h.runs.length_runs_le hinsize
  have hmerges := length_mergePairs_le (leOf cmp) rs
  have hne : (mergePairs (leOf cmp) rs).flatten ≠ [] := by
    intro hnil
    have hhead := h.head
    rw [hnil] at hperm
    rw [nil_perm.mp hperm] at hhead
    cases hhead
  have hfuel : (mergePairs (leOf cmp) rs).length < bound := by omega
  obtain ⟨s, hloop, hbuilt, huntouched⟩ :=
    (clistPassLoop_eq hinsize built_nil h.ahead h.runs h.nodup hbound hfuel (Nat.zero_le _)).1 (by omega)
  rw [zero_add] at hloop
  obtain ⟨tail, list, htail, hlist, hhead, hring, hmem⟩ := hbuilt.close hnd hne
  refine ⟨s, tail, list, hloop, htail, hlist, ⟨hhead, ?_, hnd, ?_, h.sorting.mergePairs hcmp⟩, hring, ?_⟩
  · have hseg := hring.2
    rw [hhead] at hseg
    exact hseg
  · rw [mul_comm]
    exact h.runs.mergePairs hinsize
  · have hclose : Untouched s.next (update s.next (.entry tail) (.ref list)) [tail] := by
      refine ⟨fun x => update_of_ne (by simp) .., fun t ht => ?_⟩
      exact update_of_ne (by rintro ⟨⟩; simp at ht) ..
    refine huntouched.trans hclose (fun t ht => ht) fun t ht => ?_
    obtain rfl := mem_singleton.mp ht
    exact hperm.subset hmem

/-- What the outer loop leads to. -/
structure SortDone (cmp : T → T → Int) (ts : List T) (next next' : NodeMem H T) (tail : T) (xs ys : List T) : Prop where
  sorted : StablySorted cmp ts ys
  ring : RingAt next' (.ref tail) ys
  untouched : Untouched next next' xs

/-- **The outer loop**: `insize` overflows when there are more than twice as many nodes as the last power
of two that an `int` holds. -/
theorem clistSortLoop_eq {j : Nat} (hcmp : TotalPreorder cmp) (h : PassReady cmp ts next oldhead (2 ^ j) rs)
    (hj : j ≤ 30) (hbound : rs.flatten.length < bound) (hfuel : rs.length ≤ fuel) :
    (rs.flatten.length ≤ 2 ^ 31 →
      ∃ next' tail ys, clistSortLoop cmp bound fuel next oldhead (2 ^ j) = some (next', tail) ∧
        SortDone cmp ts next next' tail rs.flatten ys) ∧
      (2 ^ 31 < rs.flatten.length → clistSortLoop cmp bound fuel next oldhead (2 ^ j) = none) := by
  induction fuel generalizing next oldhead rs j with
  | zero =>
    have hnil : rs = [] := length_eq_zero_iff.mp (Nat.le_zero.mp hfuel)
    have hhead := h.head
    rw [hnil] at hhead
    cases hhead
  | succ fuel ih =>
    have hinsize : 0 < 2 ^ j := Nat.two_pow_pos j
    have hruns := h.runs.length_runs_le hinsize
    have hmerges := length_mergePairs (leOf cmp) rs
    have hle := h.runs.length_le
    have hne : rs ≠ [] := by
      rintro rfl
      cases h.head
    have hlt := h.runs.lt_length hne
    have hw : 2 ^ j ≤ 2 ^ 30 := Nat.pow_le_pow_right (by omega) hj
    unfold clistSortLoop
    by_cases hmax : (mergePairs (leOf cmp) rs).length ≤ intMax
    · obtain ⟨s, tail, list, hloop, htail, hlist, hnext, hring, huntouched⟩ := h.pass hcmp hinsize hbound hmax
      rw [hloop, Option.bind_some]
      dsimp only
      rw [htail, hlist]
      dsimp only
      by_cases hone : (mergePairs (leOf cmp) rs).length ≤ 1
      · rw [if_pos hone]
        have hmul : 2 ^ j * rs.length ≤ 2 ^ j * 2 := Nat.mul_le_mul_left _ (by omega)
        refine ⟨fun _ => ⟨_, _, _, rfl, hnext.sorting.done hone, hring, huntouched⟩, fun hgt => ?_⟩
        omega
      · rw [if_neg hone]
        have hmul : 2 ^ j * 2 ≤ 2 ^ j * (rs.length - 1) := Nat.mul_le_mul_left _ (by omega)
        by_cases hover : 2 ^ j * 2 > intMax
        · rw [if_pos hover]
          unfold intMax at hover
          exact ⟨fun hle => by omega, fun _ => rfl⟩
        · rw [if_neg hover]
          have hj' : j + 1 ≤ 30 := by
            by_contra hj'
            obtain rfl : j = 30 := by omega
            exact hover (by decide)
          have hperm := flatten_mergePairs_perm (leOf cmp) rs
          obtain ⟨hdone, hnone⟩ := ih (j := j + 1) hnext hj' (by rw [hperm.length_eq]; exact hbound) (by omega)
          rw [hperm.length_eq] at hdone hnone
          refine ⟨fun hsmall => ?_, hnone⟩
          obtain ⟨next', tail', ys, hsort, hys⟩ := hdone hsmall
          refine ⟨next', tail', ys, hsort, hys.sorted, hys.ring, ?_⟩
          exact huntouched.trans hys.untouched (fun t ht => ht) fun t ht => hperm.subset ht
    · rw [h.overflow hinsize hbound (by omega)]
      unfold intMax at hmax
      exact ⟨fun hsmall => by omega, fun _ => rfl⟩

variable {ring : H → Prop} {m m' : NodeMem H T} {L : H → List T} {h : H}

theorem SortDone.linkage {tail : T} {ys : List T} (hd : SortDone cmp (L h) m next' tail (L h) ys)
    (hL : Linkage ring m L) (hr : ring h) :
    Linkage ring (update next' (.head h) (.ref tail)) (update L h ys) := by
  have hentry : ∀ t, update next' (.head h) (.ref tail) (.entry t) = next' (.entry t) :=
    fun t => update_of_ne (by simp) ..
  refine hL.replace _ (fun h' hne => ?_) (fun t h' hne ht => ?_) (fun t ht => .inl (hd.sorted.perm.subset ht))
    (hd.sorted.perm.nodup_iff.mpr (hL.nodup h)) ⟨fun _ => ?_, fun hno => absurd hr hno⟩
  · rw [update_of_ne (by simpa using hne)]
    exact hd.untouched.head h'
  · exact hd.untouched.entry t (hL.not_mem ht (Ne.symm hne))
  · rw [update_self]
    exact ring_congr (fun t _ => hentry t) hd.ring

theorem clistSort_cons (hL : Linkage ring m L) (hr : ring h) (hcmp : TotalPreorder cmp) (hne : L h ≠ [])
    (hbound : (L h).length < bound) :
    ((L h).length ≤ 2 ^ 31 →
      ∃ next' tail ys, clistSort bound m (.head h) cmp = some (update next' (.head h) (.ref tail)) ∧
        SortDone cmp (L h) m next' tail (L h) ys) ∧
      (2 ^ 31 < (L h).length → clistSort bound m (.head h) cmp = none) := by
  obtain ⟨us, z, hus⟩ := (eq_nil_or_concat' (L h)).resolve_left hne
  have hring := hL.ring_of hr
  rw [hus] at hring
  obtain ⟨hhead, -, hz⟩ := ring_snoc.mp hring
  obtain ⟨y, hy⟩ : ∃ y, (us ++ [z]).head? = some y := Option.isSome_iff_exists.mp (by simp)
  rw [hy, Link.ofOption_some] at hz
  have hseg := hring.2
  rw [← hus] at hseg hy
  rw [hy, Link.ofOption_some] at hseg
  have hready : PassReady cmp (L h) m y (2 ^ 0) ((L h).map fun x => [x]) := by
    refine ⟨?_, ?_, ?_, runsOf_singletons _, .singletons cmp _⟩ <;> rw [flatten_singletons]
    · exact hy
    · exact hseg
    · exact hL.nodup h
  have hflat : ((L h).map fun x => [x]).flatten.length < bound := by
    rw [flatten_singletons]
    exact hbound
  have hfuel : ((L h).map fun x => [x]).length ≤ bound := by
    rw [length_map]
    exact hbound.le
  obtain ⟨hdone, hnone⟩ := clistSortLoop_eq hcmp hready (Nat.zero_le _) hflat hfuel
  rw [flatten_singletons] at hdone hnone
  have hsort : clistSort bound m (.head h) cmp =
      (clistSortLoop cmp bound bound m y (2 ^ 0)).map fun r => update r.1 (.head h) (.ref r.2) :=
    clistSort_ref hhead hz
  rw [hsort]
  constructor
  · intro hsmall
    obtain ⟨next', tail, ys, hloop, hys⟩ := hdone hsmall
    exact ⟨next', tail, ys, by rw [hloop]; rfl, hys⟩
  · intro hlarge
    rw [hnone hlarge]
    rfl

/-- `clist_sort` returns and leaves the nodes of the list in order, equal ones in the order they had;
nothing is said about the other lists but that they are still there. -/
def ClistSorts (ring : H → Prop) (m : NodeMem H T) (L : H → List T) (h : H) (cmp : T → T → Int) : Prop :=
  ∃ m' ts, (∀ bound, (L h).length < bound → clistSort bound m (.head h) cmp = some m') ∧
    Linkage ring m' (update L h ts) ∧ StablySorted cmp (L h) ts

/-- **Sorting, exactly**: a list is sorted if it has no more nodes than an `int` can count to, and one
more. -/
theorem clistSorts_iff (hL : Linkage ring m L) (hr : ring h) (hcmp : TotalPreorder cmp) :
    ClistSorts ring m L h cmp ↔ (L h).length ≤ 2 ^ 31 := by
  by_cases hne : L h = []
  · rw [hne, List.length_nil]
    have hnull := hL.ring_of hr
    rw [hne, ring_nil] at hnull
    refine iff_of_true ⟨m, [], fun bound _ => ?_, ?_, ?_⟩ (Nat.zero_le _)
    · unfold clistSort
      rw [hnull]
    · rw [← hne, update_eq_self]
      exact hL
    · rw [hne]
      exact ⟨.refl _, .nil, fun _ => rfl⟩
  · obtain ⟨hdone, hnone⟩ := clistSort_cons hL hr hcmp hne (Nat.lt_succ_self _)
    constructor
    · rintro ⟨m', ts, hsort, -, -⟩
      by_contra hlarge
      have hsome := hsort _ (Nat.lt_succ_self _)
      rw [hnone (Nat.lt_of_not_le hlarge)] at hsome
      cases hsome
    · intro hsmall
      obtain ⟨next', tail, ys, hsort, hys⟩ := hdone hsmall
      exact ⟨_, ys, fun bound hbound => clistSort_mono hbound hsort, hys.linkage hL hr, hys.sorted⟩

/-! ## Lists of numbers -/

/-- The circular list of the numbers below `n`. -/
def countRing (n : Nat) : NodeMem Unit Nat
  | .head _ => .ref (n - 1)
  | .entry t => .ref ((t + 1) % n)

theorem seg_countRing {n a : Nat} : ∀ {j : Nat}, a + j ≤ n →
    Seg (countRing n) (.ref (a % n)) (range' a j) (.ref ((a + j) % n)) := by
  intro j
  induction j generalizing a with
  | zero => exact fun _ => rfl
  | succ j ih =>
    intro hle
    refine ⟨by rw [Nat.mod_eq_of_lt (by omega)], ?_⟩
    have hseg := ih (a := a + 1) (by omega)
    rw [Nat.add_right_comm] at hseg
    exact hseg

theorem linkage_countRing {n : Nat} (hn : 0 < n) :
    Linkage (fun _ => True) (countRing n) fun _ => range n where
  stored := by
    intro h
    refine ⟨fun _ => ⟨?_, ?_⟩, fun hno => absurd trivial hno⟩
    · obtain ⟨k, rfl⟩ : ∃ k, n = k + 1 := ⟨n - 1, by omega⟩
      rw [range_succ, getLast?_concat]
      rfl
    · obtain ⟨k, rfl⟩ : ∃ k, n = k + 1 := ⟨n - 1, by omega⟩
      have hseg := seg_countRing (n := k + 1) (a := 0) (j := k + 1) (by omega)
      rw [Nat.zero_mod, zero_add, Nat.mod_self, ← range_eq_range'] at hseg
      rw [head?_range, if_neg (by omega)]
      exact hseg
  nodup := fun _ => nodup_range
  disjoint := fun _ _ _ _ _ => rfl

/-- The greater number comes first. -/
def descending (a b : Nat) : Int := b - a

theorem totalPreorder_descending : TotalPreorder descending where
  trans := by
    intro a b c hab hbc
    unfold descending at *
    omega
  total := by
    intro a b
    unfold descending
    omega

theorem clistSorts_iff_descending :
    ClistSorts (fun _ => True) (countRing 5) (fun _ => List.range 5) () descending :=
  (clistSorts_iff (linkage_countRing (by omega)) trivial totalPreorder_descending).mpr (by decide)

/-- The same list, node by node. -/
example : (clistSort 6 (countRing 5) (.head ()) descending).map
    (fun m => (range 5).map fun t => m (.entry t)) = some [.ref 4, .ref 0, .ref 1, .ref 2, .ref 3] := by decide

/-- With more than twice as many nodes as the last power of two that an `int` holds, `insize` overflows. -/
theorem clistSort_long {n : Nat} (hn : 2 ^ 31 < n) :
    ¬ ClistSorts (fun _ => True) (countRing n) (fun _ => range n) () descending := by
  rintro ⟨m', ts, hsort, -, -⟩
  have hne : range n ≠ [] := ne_nil_of_length_pos (by rw [length_range]; omega)
  have hnone := (clistSort_cons (h := ()) (linkage_countRing (by omega)) trivial totalPreorder_descending hne
    (Nat.lt_succ_self _)).2 (by rw [length_range]; exact hn)
  rw [hsort _ (Nat.lt_succ_self _)] at hnone
  cases hnone

theorem not_clistSorts :
    Linkage (fun _ => True) (countRing 2147483649) (fun _ => List.range 2147483649) ∧ TotalPreorder descending ∧
      ¬ ClistSorts (fun _ => True) (countRing 2147483649) (fun _ => List.range 2147483649) () descending :=
  ⟨linkage_countRing (by omega), totalPreorder_descending, clistSort_long (by omega)⟩

end Riot.Core
