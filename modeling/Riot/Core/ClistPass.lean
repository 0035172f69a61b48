import Riot.Core.ClistSort

/-!
# A pass of the sort

The nodes that are not merged yet are linked as they were, since only the tail of the merged list is
rewritten. A pass over runs of one length thus merges them in pairs.
-/

namespace Riot.Core

open Riot.Lib Function List Nat

variable {H T : Type} [DecidableEq H] [DecidableEq T]

/-! ## The list in front of a pass -/

variable {cmp : T → T → Int} {next next' : NodeMem H T} {oldhead e : T} {s s' : ClistMerged H T}
  {p q k : Link T} {zs xs ys rest : List T} {psize qsize fuel bound insize nmerges : Nat}

/-- The links as the loops of a pass see them. -/
def ahead (next : NodeMem H T) (oldhead : T) : NodeMem H T :=
  fun x => if next x = .ref oldhead then .null else next x

omit [DecidableEq H] in
theorem clistAdvance_eq : clistAdvance next oldhead e = ahead next oldhead (.entry e) := rfl

omit [DecidableEq H] in
theorem seg_ahead_congr {l : Link T} (h : Seg (ahead next oldhead) l xs k)
    (heq : ∀ t ∈ xs, next' (.entry t) = next (.entry t)) : Seg (ahead next' oldhead) l xs k := by
  refine seg_congr (fun t ht => ?_) h
  unfold ahead
  rw [heq t ht]

omit [DecidableEq H] in
theorem seg_ahead {l : Link T} (h : Seg next l xs (.ref oldhead)) (hnot : oldhead ∉ xs) :
    Seg (ahead next oldhead) (if l = .ref oldhead then .null else l) xs .null := by
  induction xs generalizing l with
  | nil =>
    obtain rfl := seg_nil.mp h
    rw [if_pos rfl, seg_nil]
  | cons x xs ih =>
    obtain ⟨rfl, h⟩ := h
    have hx : Link.ref x ≠ .ref oldhead := by
      intro heq
      exact hnot (mem_cons.mpr (.inl (Link.ref.inj heq).symm))
    rw [if_neg hx]
    exact ⟨rfl, ih h fun hmem => hnot (mem_cons_of_mem x hmem)⟩

omit [DecidableEq H] in
theorem seg_ahead_ring (h : Seg next (.ref oldhead) (oldhead :: xs) (.ref oldhead)) (hnd : (oldhead :: xs).Nodup) :
    Seg (ahead next oldhead) (.ref oldhead) (oldhead :: xs) .null :=
  ⟨rfl, seg_ahead h.2 (nodup_cons.mp hnd).1⟩

omit [DecidableEq H] in
theorem clistStep_eq (hp : Seg (ahead next oldhead) p xs .null) (hxs : xs ≠ [] ∨ insize = 0) :
    ∃ q, clistStep next oldhead insize psize p = some (psize + (xs.take insize).length, q) ∧
      Seg (ahead next oldhead) q (xs.drop insize) .null := by
  induction insize generalizing p xs psize with
  | zero => exact ⟨p, rfl, hp⟩
  | succ i ih =>
    match xs, hxs with
    | x :: xs, _ =>
      obtain ⟨rfl, hp⟩ := hp
      unfold clistStep
      rw [clistAdvance_eq, take_succ_cons, length_cons, drop_succ_cons]
      match xs, hp with
      | [], hp =>
        rw [seg_nil] at hp
        rw [if_pos hp, take_nil, drop_nil]
        exact ⟨.null, rfl, rfl⟩
      | y :: ys, hp =>
        rw [if_neg (by rw [hp.1]; simp)]
        obtain ⟨q, hq, hseg⟩ := ih hp (.inl (by simp))
        exact ⟨q, by rw [hq, Nat.add_assoc, Nat.add_comm 1], hseg⟩

/-! ## The merged list -/

/-- The merged list has the elements `zs` so far; nothing is said about the link of the last one. -/
structure Built (s : ClistMerged H T) (zs : List T) : Prop where
  list : s.list = .ofOption zs.head?
  tail : s.tail = .ofOption zs.getLast?
  seg : Seg s.next s.list zs.dropLast s.tail

omit [DecidableEq H] [DecidableEq T] in
theorem built_nil : Built (⟨next, .null, .null⟩ : ClistMerged H T) [] := ⟨rfl, rfl, rfl⟩

theorem Built.add (h : Built s zs) (hnd : zs.Nodup) : Built (s.add e) (zs ++ [e]) := by
  rcases eq_nil_or_concat' zs with rfl | ⟨us, z, rfl⟩
  · have htail : s.tail = .null := h.tail
    unfold ClistMerged.add
    rw [htail]
    exact ⟨rfl, rfl, rfl⟩
  · have htail : s.tail = .ref z := by
      rw [h.tail, getLast?_concat]
      rfl
    have hseg := h.seg
    rw [htail, dropLast_concat] at hseg
    have hz : z ∉ us := fun hz => (nodup_append.mp hnd).2.2 z hz z (by simp) rfl
    unfold ClistMerged.add
    rw [htail]
    refine ⟨?_, ?_, ?_⟩
    · rw [head?_append_of_ne_nil _ (by simp)]
      exact h.list
    · rw [getLast?_concat]
      rfl
    · rw [dropLast_concat, seg_append]
      refine ⟨.ref z, seg_congr (fun t ht => ?_) hseg, rfl, update_self ..⟩
      exact update_of_ne (by rintro ⟨⟩; exact hz ht) ..

theorem Built.add_next (h : Built s zs) {x : Node H T} (hx : ∀ z ∈ zs, x ≠ .entry z) :
    (s.add e).next x = s.next x := by
  unfold ClistMerged.add
  split
  · rename_i z hz
    refine update_of_ne (hx z ?_) ..
    have hlast := h.tail.symm.trans hz
    cases hl : zs.getLast? with
    | none =>
      rw [hl] at hlast
      cases hlast
    | some y =>
      rw [hl] at hlast
      obtain rfl := Link.ref.inj hlast
      exact mem_of_getLast? hl
  · rfl

/-- What a loop has left alone. -/
structure Untouched (next next' : NodeMem H T) (touched : List T) : Prop where
  head : ∀ h, next' (.head h) = next (.head h)
  entry : ∀ t, t ∉ touched → next' (.entry t) = next (.entry t)

theorem Built.add_untouched (h : Built s zs) : Untouched s.next (s.add e).next zs where
  head := fun x => h.add_next fun z _ => by simp
  entry := fun t ht => h.add_next fun z hz => by
    rintro ⟨⟩
    exact ht hz

omit [DecidableEq H] [DecidableEq T] in
theorem Untouched.refl (touched : List T) : Untouched next next touched := ⟨fun _ => rfl, fun _ _ => rfl⟩

omit [DecidableEq H] [DecidableEq T] in
theorem Untouched.trans {next'' : NodeMem H T} {ts us vs : List T} (h : Untouched next next' ts)
    (h' : Untouched next' next'' us) (hts : ∀ t ∈ ts, t ∈ vs) (hus : ∀ t ∈ us, t ∈ vs) : Untouched next next'' vs where
  head := fun x => (h'.head x).trans (h.head x)
  entry := fun t ht => (h'.entry t fun hu => ht (hus t hu)).trans (h.entry t fun hu => ht (hts t hu))

/-- Between the iterations of a merge: `zs` is merged, `p` has `xs` left and `q` has `ys`, which end
where its run or the list ends. -/
structure Merging (oldhead : T) (s : ClistMerged H T) (zs : List T) (p k : Link T) (xs : List T) (q : Link T)
    (qsize : Nat) (ys rest : List T) : Prop where
  built : Built s zs
  left : Seg (ahead s.next oldhead) p xs k
  right : Seg (ahead s.next oldhead) q (ys ++ rest) .null
  size : qsize = ys.length ∨ ys.length ≤ qsize ∧ rest = []
  nodup : (zs ++ (xs ++ (ys ++ rest))).Nodup

variable {x y : T}

theorem Merging.takeLeft (h : Merging oldhead s zs p k (x :: xs) q qsize ys rest) : p = .ref x ∧
      Merging oldhead (s.add x) (zs ++ [x]) (clistAdvance s.next oldhead x) k xs q qsize ys rest := by
  have hnd := nodup_append.mp h.nodup
  have hnot : ∀ t, t ∈ xs ++ (ys ++ rest) → t ∉ zs := fun t ht hz =>
    hnd.2.2 t hz t (mem_cons_of_mem x ht) rfl
  have hsame : ∀ t, t ∈ xs ++ (ys ++ rest) → (s.add x).next (.entry t) = s.next (.entry t) :=
    fun t ht => h.built.add_untouched.entry t (hnot t ht)
  refine ⟨h.left.1, h.built.add hnd.1, ?_, ?_, h.size, ?_⟩
  · exact seg_ahead_congr h.left.2 fun t ht => hsame t (mem_append_left _ ht)
  · exact seg_ahead_congr h.right fun t ht => hsame t (mem_append_right _ ht)
  · rw [append_assoc]
    exact h.nodup

theorem Merging.takeRight (h : Merging oldhead s zs p k xs q (qsize + 1) (y :: ys) rest) : q = .ref y ∧
      Merging oldhead (s.add y) (zs ++ [y]) p k xs (clistAdvance s.next oldhead y) qsize ys rest := by
  have hperm : (zs ++ (xs ++ (y :: ys ++ rest))).Perm (zs ++ ([y] ++ (xs ++ (ys ++ rest)))) :=
    .append_left zs (perm_middle)
  have hnodup := hperm.nodup_iff.mp h.nodup
  have hnd := nodup_append.mp hnodup
  have hnot : ∀ t, t ∈ xs ++ (ys ++ rest) → t ∉ zs := fun t ht hz =>
    hnd.2.2 t hz t (mem_append_right _ ht) rfl
  have hsame : ∀ t, t ∈ xs ++ (ys ++ rest) → (s.add y).next (.entry t) = s.next (.entry t) :=
    fun t ht => h.built.add_untouched.entry t (hnot t ht)
  refine ⟨h.right.1, h.built.add hnd.1, ?_, ?_, ?_, ?_⟩
  · exact seg_ahead_congr h.left fun t ht => hsame t (mem_append_left _ ht)
  · exact seg_ahead_congr h.right.2 fun t ht => hsame t (mem_append_right _ ht)
  · rcases h.size with hsize | ⟨hsize, hrest⟩
    · exact .inl (succ.inj hsize)
    · exact .inr ⟨le_of_succ_le_succ hsize, hrest⟩
  · rw [append_assoc]
    exact hnodup

omit [DecidableEq H] in
theorem Merging.right_null (h : Merging oldhead s zs p k xs q qsize ys rest) : q = .null ↔ ys ++ rest = [] := by
  have hq := h.right
  cases hyr : ys ++ rest with
  | nil =>
    rw [hyr] at hq
    exact iff_of_true hq rfl
  | cons y yr =>
    rw [hyr] at hq
    exact iff_of_false (by rw [hq.1]; simp) (by simp)

omit [DecidableEq H] in
theorem Merging.right_over (h : Merging oldhead s zs p k xs q qsize [] rest) : qsize = 0 ∨ q = .null := by
  rw [h.right_null]
  rcases h.size with hsize | ⟨-, hrest⟩
  · exact .inl hsize
  · exact .inr hrest

theorem clistMergeLoop_left (hpsize : 0 < psize) (hchoice : clistFromP cmp (.ref x) psize q qsize = some true) :
    clistMergeLoop cmp oldhead (fuel + 1) s (.ref x) psize q qsize =
      clistMergeLoop cmp oldhead fuel (s.add x) (clistAdvance s.next oldhead x) (psize - 1) q qsize := by
  conv_lhs => unfold clistMergeLoop
  rw [if_pos (.inl hpsize), hchoice]

theorem clistMergeLoop_right (hqsize : 0 < qsize) (hchoice : clistFromP cmp p psize (.ref y) qsize = some false) :
    clistMergeLoop cmp oldhead (fuel + 1) s p psize (.ref y) qsize =
      clistMergeLoop cmp oldhead fuel (s.add y) p psize (clistAdvance s.next oldhead y) (qsize - 1) := by
  conv_lhs => unfold clistMergeLoop
  rw [if_pos (.inr ⟨hqsize, by simp⟩), hchoice]

/-- **Merging two runs.** -/
theorem clistMergeLoop_eq (h : Merging oldhead s zs p k xs q qsize ys rest) (hfuel : xs.length + ys.length < fuel) :
    ∃ s' q', clistMergeLoop cmp oldhead fuel s p xs.length q qsize = some (s', q') ∧
      Built s' (zs ++ xs.merge ys (leOf cmp)) ∧ Seg (ahead s'.next oldhead) q' rest .null ∧
      Untouched s.next s'.next (zs ++ (xs ++ ys)) := by
  induction fuel generalizing s zs p xs q ys qsize with
  | zero => exact absurd hfuel (not_lt_zero _)
  | succ fuel ih =>
    -- the next element comes from `p`
    have hleft : ∀ x xs', xs = x :: xs' → clistFromP cmp p xs.length q qsize = some true →
        xs.merge ys (leOf cmp) = x :: xs'.merge ys (leOf cmp) →
        ∃ s' q', clistMergeLoop cmp oldhead (fuel + 1) s p xs.length q qsize = some (s', q') ∧
          Built s' (zs ++ xs.merge ys (leOf cmp)) ∧ Seg (ahead s'.next oldhead) q' rest .null ∧
          Untouched s.next s'.next (zs ++ (xs ++ ys)) := by
      rintro x xs' rfl hchoice hmerge
      obtain ⟨rfl, hstep⟩ := h.takeLeft
      obtain ⟨s', q', hloop, hbuilt, hseg, huntouched⟩ := ih hstep (by rw [length_cons] at hfuel; omega)
      refine ⟨s', q', ?_, ?_, hseg, ?_⟩
      · rw [clistMergeLoop_left (by simp) hchoice, length_cons, Nat.add_sub_cancel]
        exact hloop
      · rw [hmerge, append_cons]
        exact hbuilt
      · refine h.built.add_untouched.trans huntouched (fun t ht => mem_append_left _ ht) fun t ht => ?_
        rw [append_assoc] at ht
        exact ht
    -- it comes from `q`
    have hright : ∀ y ys', ys = y :: ys' → clistFromP cmp p xs.length q qsize = some false →
        xs.merge ys (leOf cmp) = y :: xs.merge ys' (leOf cmp) →
        ∃ s' q', clistMergeLoop cmp oldhead (fuel + 1) s p xs.length q qsize = some (s', q') ∧
          Built s' (zs ++ xs.merge ys (leOf cmp)) ∧ Seg (ahead s'.next oldhead) q' rest .null ∧
          Untouched s.next s'.next (zs ++ (xs ++ ys)) := by
      rintro y ys' rfl hchoice hmerge
      obtain ⟨n, rfl⟩ : ∃ n, qsize = n + 1 := by
        rcases h.size with hsize | ⟨hsize, -⟩
        · exact ⟨ys'.length, hsize⟩
        · exact ⟨qsize - 1, by rw [length_cons] at hsize; omega⟩
      obtain ⟨rfl, hstep⟩ := h.takeRight
      obtain ⟨s', q', hloop, hbuilt, hseg, huntouched⟩ := ih hstep (by rw [length_cons] at hfuel; omega)
      refine ⟨s', q', ?_, ?_, hseg, ?_⟩
      · rw [clistMergeLoop_right (zero_lt_succ n) hchoice]
        exact hloop
      · rw [hmerge, append_cons]
        exact hbuilt
      · refine h.built.add_untouched.trans huntouched (fun t ht => mem_append_left _ ht) fun t ht => ?_
        simp only [mem_append, mem_cons, not_mem_nil, or_false] at ht ⊢
        tauto
    match xs, ys with
    | [], [] =>
      refine ⟨s, q, ?_, ?_, h.right, .refl _⟩
      · unfold clistMergeLoop
        rw [if_neg]
        rintro (hp | ⟨hq, hne⟩)
        · exact absurd hp (lt_irrefl _)
        · rcases h.right_over with hq' | hq'
          · omega
          · exact hne hq'
      · rw [nil_merge, append_nil]
        exact h.built
    | [], y :: ys =>
      exact hright y ys rfl (if_pos rfl) (by rw [nil_merge, nil_merge])
    | x :: xs, [] =>
      refine hleft x xs rfl ?_ (by rw [merge_right, merge_right])
      unfold clistFromP
      rw [if_neg (by simp), if_pos h.right_over]
    | x :: xs, y :: ys =>
      have hp := h.left.1
      have hq := h.right.1
      have hqsize : qsize ≠ 0 := by
        rcases h.size with hsize | ⟨hsize, -⟩ <;> rw [length_cons] at hsize <;> omega
      have hchoice : clistFromP cmp p (x :: xs).length q qsize = some (leOf cmp x y) := by
        unfold clistFromP
        rw [if_neg (by simp), if_neg (by rw [hq]; simp [hqsize]), hp, hq]
        rfl
      by_cases hxy : leOf cmp x y = true
      · exact hleft x xs rfl (hchoice.trans (congrArg some hxy)) (cons_merge_cons_pos _ _ _ hxy)
      · exact hright y ys rfl (hchoice.trans (congrArg some (Bool.eq_false_iff.mpr hxy)))
          (cons_merge_cons_neg _ _ _ hxy)

/-! ## A pass -/

variable {r r' : List T} {rs : List (List T)}

omit [DecidableEq H] [DecidableEq T] in
theorem take_run (h : r.length = insize ∨ r.length ≤ insize ∧ rest = []) :
    (r ++ rest).take insize = r ∧ (r ++ rest).drop insize = rest := by
  rcases h with h | ⟨h, rfl⟩
  · exact ⟨take_left' h, drop_left' h⟩
  · rw [append_nil]
    exact ⟨take_of_length_le h, drop_eq_nil_of_le h⟩

theorem clistPassLoop_merge (hs : Built s zs) (hp : Seg (ahead s.next oldhead) p (r ++ (r' ++ rest)) .null)
    (hr : r ≠ []) (hsize : r.length = insize ∨ r.length ≤ insize ∧ r' ++ rest = [])
    (hsize' : insize = r'.length ∨ r'.length ≤ insize ∧ rest = []) (hnd : (zs ++ (r ++ (r' ++ rest))).Nodup)
    (hbound : r.length + r'.length < bound) (hn : nmerges ≠ intMax) :
    ∃ s' q', clistPassLoop cmp bound insize oldhead (fuel + 1) s p nmerges =
        clistPassLoop cmp bound insize oldhead fuel s' q' (nmerges + 1) ∧
      Built s' (zs ++ r.merge r' (leOf cmp)) ∧ Seg (ahead s'.next oldhead) q' rest .null ∧
      Untouched s.next s'.next (zs ++ (r ++ r')) := by
  have hpnull : p ≠ .null := by
    cases r with
    | nil => exact absurd rfl hr
    | cons x r =>
      rw [hp.1]
      simp
  obtain ⟨k, hleft, -⟩ := seg_append.mp hp
  obtain ⟨q, hstep, hq⟩ := clistStep_eq hp (.inl (by simp [hr]))
  obtain ⟨htake, hdrop⟩ := take_run hsize
  rw [htake, Nat.zero_add] at hstep
  rw [hdrop] at hq
  obtain ⟨s', q', hloop, hbuilt, hseg, huntouched⟩ :=
    clistMergeLoop_eq (⟨hs, hleft, hq, hsize', hnd⟩ : Merging oldhead s zs p k r q insize r' rest) hbound
  refine ⟨s', q', ?_, hbuilt, hseg, huntouched⟩
  conv_lhs => unfold clistPassLoop
  rw [if_neg hpnull, if_neg hn, hstep, Option.bind_some]
  dsimp only
  rw [hloop, Option.bind_some]

theorem clistPassLoop_over (hp : p = .null) :
    clistPassLoop cmp bound insize oldhead (fuel + 1) s p nmerges = some (s, nmerges) := by
  unfold clistPassLoop
  rw [if_pos hp]

theorem clistPassLoop_overflow (hp : p ≠ .null) :
    clistPassLoop cmp bound insize oldhead (fuel + 1) s p intMax = none := by
  unfold clistPassLoop
  rw [if_neg hp, if_pos rfl]

/-- **A pass** merges the runs in pairs, unless there are more merges than an `int` can count. -/
theorem clistPassLoop_eq (hinsize : 0 < insize) (hs : Built s zs)
    (hp : Seg (ahead s.next oldhead) p rs.flatten .null) (hrs : RunsOf insize rs) (hnd : (zs ++ rs.flatten).Nodup)
    (hbound : rs.flatten.length < bound) (hfuel : (mergePairs (leOf cmp) rs).length < fuel) (hn : nmerges ≤ intMax) :
    (nmerges + (mergePairs (leOf cmp) rs).length ≤ intMax →
      ∃ s', clistPassLoop cmp bound insize oldhead fuel s p nmerges =
          some (s', nmerges + (mergePairs (leOf cmp) rs).length) ∧
        Built s' (zs ++ (mergePairs (leOf cmp) rs).flatten) ∧ Untouched s.next s'.next (zs ++ rs.flatten)) ∧
      (intMax < nmerges + (mergePairs (leOf cmp) rs).length →
        clistPassLoop cmp bound insize oldhead fuel s p nmerges = none) := by
  induction fuel generalizing s zs p rs nmerges with
  | zero => exact absurd hfuel (not_lt_zero _)
  | succ fuel ih =>
    -- one merge, and the others
    have hmerge : ∀ (r r' : List T) (rs' : List (List T)),
        Seg (ahead s.next oldhead) p (r ++ (r' ++ rs'.flatten)) .null → r ≠ [] →
        (r.length = insize ∨ r.length ≤ insize ∧ r' ++ rs'.flatten = []) →
        (insize = r'.length ∨ r'.length ≤ insize ∧ rs'.flatten = []) → RunsOf insize rs' →
        (zs ++ (r ++ (r' ++ rs'.flatten))).Nodup → (r ++ (r' ++ rs'.flatten)).length < bound →
        (mergePairs (leOf cmp) rs').length < fuel →
        (nmerges + ((mergePairs (leOf cmp) rs').length + 1) ≤ intMax →
          ∃ s', clistPassLoop cmp bound insize oldhead (fuel + 1) s p nmerges =
              some (s', nmerges + ((mergePairs (leOf cmp) rs').length + 1)) ∧
            Built s' (zs ++ (r.merge r' (leOf cmp) ++ (mergePairs (leOf cmp) rs').flatten)) ∧
            Untouched s.next s'.next (zs ++ (r ++ (r' ++ rs'.flatten)))) ∧
          (intMax < nmerges + ((mergePairs (leOf cmp) rs').length + 1) →
            clistPassLoop cmp bound insize oldhead (fuel + 1) s p nmerges = none) := by
      intro r r' rs' hp hr hsize hsize' hrs hnd hbound hfuel
      rw [length_append, length_append] at hbound
      by_cases hmax : nmerges = intMax
      · subst hmax
        refine ⟨fun hle => by omega, fun _ => clistPassLoop_overflow ?_⟩
        cases r with
        | nil => exact absurd rfl hr
        | cons x r =>
          rw [hp.1]
          simp
      · have hpair : r.length + r'.length < bound := by omega
        obtain ⟨s1, q1, hstep, hbuilt, hseg, huntouched⟩ :=
          clistPassLoop_merge hs hp hr hsize hsize' hnd hpair hmax
        have hperm : (zs ++ r.merge r' (leOf cmp) ++ rs'.flatten).Perm (zs ++ (r ++ (r' ++ rs'.flatten))) := by
          rw [append_assoc, ← append_assoc r]
          exact .append_left zs ((merge_perm_append _).append_right _)
        have hmore : nmerges + 1 ≤ intMax := by omega
        obtain ⟨hdone, hover⟩ := ih hbuilt hseg hrs (hperm.nodup_iff.mpr hnd) (by omega) hfuel hmore
        rw [hstep, show nmerges + ((mergePairs (leOf cmp) rs').length + 1) =
          nmerges + 1 + (mergePairs (leOf cmp) rs').length by omega]
        refine ⟨fun hle => ?_, hover⟩
        obtain ⟨s', hloop, hbuilt', huntouched'⟩ := hdone hle
        refine ⟨s', hloop, ?_, huntouched.trans huntouched' (fun t ht => ?_) fun t ht => ?_⟩
        · rw [← append_assoc]
          exact hbuilt'
        · simp only [mem_append] at ht ⊢
          tauto
        · exact hperm.subset ht
    match rs with
    | [] =>
      rw [clistPassLoop_over hp]
      refine ⟨fun _ => ⟨s, rfl, ?_, .refl _⟩, fun hlt => ?_⟩
      · rw [mergePairs, flatten_nil, append_nil]
        exact hs
      · rw [mergePairs, length_nil] at hlt
        omega
    | [r] =>
      have hone := hmerge r [] [] hp (ne_nil_of_length_pos hrs.1) (.inr ⟨hrs.2, rfl⟩)
        (.inr ⟨zero_le _, rfl⟩) trivial hnd hbound (lt_of_succ_lt_succ hfuel)
      rw [merge_right] at hone
      exact hone
    | r :: r' :: rs =>
      refine hmerge r r' rs hp (ne_nil_of_length_pos (hrs.head_pos hinsize)) (.inl hrs.1) ?_ hrs.tail.tail hnd hbound
        (lt_of_succ_lt_succ hfuel)
      cases rs with
      | nil => exact .inr ⟨hrs.2.2, rfl⟩
      | cons r'' rs => exact .inl hrs.2.1.symm

end Riot.Core
