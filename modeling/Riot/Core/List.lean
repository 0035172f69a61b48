import Riot.Lib.IntrusiveList

/-!
# The kernel's linked lists

`core/lib/include/list.h` (singly linked chains) and `core/lib/include/clist.h`
(circular lists), as functions on the memory of `next` fields. Loops over a list
carry a fuel argument; the specifications say how much is enough.

Each function has one specification, in terms of the list the head represents
and of the rest of the memory through `Linkage.replace`.
-/

namespace Riot.Core

open Riot.Lib Function

variable {H T : Type} [DecidableEq H] [DecidableEq T]

/-! ## `list.h` -/

/-- `list_remove_head`: the old head (or `null`) and the memory without it. -/
def listRemoveHead (m : NodeMem H T) (list : Node H T) : Link T × NodeMem H T :=
  match m list with
  | .ref head => (.ref head, update m list (m (.entry head)))
  | head => (head, m)

/-- `list_remove`: whether `node` was found, and the memory without it. -/
def listRemove (m : NodeMem H T) (node : T) : Nat → Node H T → Bool × NodeMem H T
  | 0, _ => (false, m)
  | fuel + 1, list =>
    match m list with
    | .ref next =>
      if next = node then
        (true, update m list (m (.entry node)))
      else
        listRemove m node fuel (.entry next)
    | _ => (false, m)

/-! ## `clist.h` -/

/-- `clist_rpush`: appends `newNode` at the end of `list`. -/
def clistRpush (m : NodeMem H T) (list : Node H T) (newNode : T) : NodeMem H T :=
  match m list with
  | .ref last =>
    let m := update m (.entry newNode) (m (.entry last))
    let m := update m (.entry last) (.ref newNode)
    update m list (.ref newNode)
  | _ =>
    let m := update m (.entry newNode) (.ref newNode)
    update m list (.ref newNode)

/-- `clist_lpop`: the memory after removing the first element. -/
def clistLpop (m : NodeMem H T) (list : Node H T) : NodeMem H T :=
  match m list with
  | .ref last =>
    match m (.entry last) with
    | .ref first =>
      if last = first then
        update m list .null
      else
        update m (.entry last) (m (.entry first))
    | _ => m
  | _ => m

/-- `clist_lpoprpush`: the first element becomes the last. -/
def clistLpoprpush (m : NodeMem H T) (list : Node H T) : NodeMem H T :=
  match m list with
  | .ref last => update m list (m (.entry last))
  | _ => m

/-- `clist_lpeek`: the first element. -/
def clistLpeek (m : NodeMem H T) (list : Node H T) : Link T :=
  match m list with
  | .ref last => m (.entry last)
  | l => l

/-- The `do … while` loop of `clist_find_before`, entered with the old `pos`. -/
def clistFindBeforeLoop (m : NodeMem H T) (list : Node H T) (node : T) : Nat → T → Option T
  | 0, _ => none
  | fuel + 1, pos =>
    match m (.entry pos) with
    | .ref pos =>
      if m (.entry pos) = .ref node then
        some pos
      else if .ref pos ≠ m list then
        clistFindBeforeLoop m list node fuel pos
      else
        none
    | _ => none

/-- `clist_find_before`: the predecessor of `node`. -/
def clistFindBefore (m : NodeMem H T) (fuel : Nat) (list : Node H T) (node : T) : Option T :=
  match m list with
  | .ref pos => clistFindBeforeLoop m list node fuel pos
  | _ => none

/-- `clist_remove`: the memory after removing `node`, if it is in the list. -/
def clistRemove (m : NodeMem H T) (fuel : Nat) (list : Node H T) (node : T) : NodeMem H T :=
  match m list with
  | .ref last =>
    if m (.entry last) = .ref node then
      clistLpop m list
    else
      match clistFindBefore m fuel list node with
      | some tmp =>
        let m' := update m (.entry tmp) (m (.entry node))
        if .ref node = m list then update m' list (.ref tmp) else m'
      | none => m
  | _ => m

/-! ## Other heads -/

section OtherHeads

variable {m : NodeMem H T} {h h' : H}

theorem listRemoveHead_head (hne : h' ≠ h) : (listRemoveHead m (.head h)).2 (.head h') = m (.head h') := by
  unfold listRemoveHead
  split
  · simp [hne]
  · rfl

theorem listRemove_entry (node : T) : ∀ (fuel : Nat) (t : T),
    (listRemove m node fuel (.entry t)).2 (.head h) = m (.head h)
  | 0, _ => rfl
  | fuel + 1, t => by
    unfold listRemove
    split
    · split
      · simp
      · exact listRemove_entry node fuel _
    · rfl

theorem listRemove_head {node : T} (fuel : Nat) (hne : h' ≠ h) :
    (listRemove m node fuel (.head h)).2 (.head h') = m (.head h') := by
  cases fuel with
  | zero => rfl
  | succ fuel =>
    unfold listRemove
    split
    · split
      · simp [hne]
      · exact listRemove_entry node fuel _
    · rfl

theorem clistRpush_head {t : T} (hne : h' ≠ h) : clistRpush m (.head h) t (.head h') = m (.head h') := by
  unfold clistRpush
  cases m (.head h) <;> simp [hne]

theorem clistLpop_head (hne : h' ≠ h) : clistLpop m (.head h) (.head h') = m (.head h') := by
  unfold clistLpop
  cases m (.head h) with
  | null => rfl
  | mark => rfl
  | ref last =>
    dsimp only
    cases m (.entry last) with
    | null => rfl
    | mark => rfl
    | ref first =>
      dsimp only
      split <;> simp [hne]

theorem clistLpoprpush_head (hne : h' ≠ h) : clistLpoprpush m (.head h) (.head h') = m (.head h') := by
  unfold clistLpoprpush
  cases m (.head h) <;> simp [hne]

theorem clistRemove_head {fuel : Nat} {t : T} (hne : h' ≠ h) :
    clistRemove m fuel (.head h) t (.head h') = m (.head h') := by
  unfold clistRemove
  cases hl : m (.head h) with
  | null => rfl
  | mark => rfl
  | ref last =>
    dsimp only
    split
    · exact clistLpop_head hne
    · cases clistFindBefore m fuel (.head h) t with
      | none => rfl
      | some tmp =>
        split <;> simp [hne]

end OtherHeads

/-! ## What each function does on the shapes it meets -/

variable {m : NodeMem H T} {list : Node H T}

variable {h : H} {ts : List T} {fuel : Nat} {a node t z : T}

theorem listRemoveHead_ref (h : m list = .ref t) :
    listRemoveHead m list = (.ref t, update m list (m (.entry t))) := by
  unfold listRemoveHead
  rw [h]

theorem clistRpush_null (h : m list = .null) : clistRpush m list t =
      update (update m (.entry t) (.ref t)) list (.ref t) := by
  unfold clistRpush
  rw [h]

theorem clistRpush_ref (h : m list = .ref z) : clistRpush m list t =
      update (update (update m (.entry t) (m (.entry z))) (.entry z) (.ref t)) list (.ref t) := by
  unfold clistRpush
  rw [h]

theorem clistLpoprpush_ref (h : m list = .ref z) : clistLpoprpush m list = update m list (m (.entry z)) := by
  unfold clistLpoprpush
  rw [h]

theorem clistLpop_singleton (h : m list = .ref t) (ht : m (.entry t) = .ref t) :
    clistLpop m list = update m list .null := by
  unfold clistLpop
  rw [h]
  simp [ht]

theorem clistLpop_ref (h : m list = .ref z) (hz : m (.entry z) = .ref t) (hne : z ≠ t) :
    clistLpop m list = update m (.entry z) (m (.entry t)) := by
  unfold clistLpop
  rw [h]
  simp [hz, hne]

theorem clistRemove_first (h : m list = .ref z)
    (hz : m (.entry z) = .ref t) : clistRemove m fuel list t = clistLpop m list := by
  unfold clistRemove
  rw [h]
  simp [hz]

theorem clistRemove_behind (h : m list = .ref z)
    (hz : m (.entry z) ≠ .ref t) (ha : clistFindBefore m fuel list t = some a) :
    clistRemove m fuel list t =
      if t = z then
        update (update m (.entry a) (m (.entry t))) list (.ref a)
      else
        update m (.entry a) (m (.entry t)) := by
  unfold clistRemove
  rw [h]
  simp [hz, ha]

/-! ## Specifications: chains -/

variable {ring : H → Prop} {L : H → List T}

theorem listRemoveHead_cons (hL : Linkage ring m L) (hr : ¬ ring h) (hts : L h = t :: ts) :
    (listRemoveHead m (.head h)).1 = .ref t ∧ Linkage ring (listRemoveHead m (.head h)).2 (update L h ts) ∧
      (listRemoveHead m (.head h)).2 (.head h) ≠ .mark := by
  have hc := hL.chain_of hr
  rw [hts, chain_cons] at hc
  have hnd := hL.nodup h
  rw [hts, List.nodup_cons] at hnd
  rw [listRemoveHead_ref hc.1]
  refine ⟨rfl, hL.replace (update m (.head h) (m (.entry t))) ?_ ?_ ?_ hnd.2
    ⟨fun hr' => absurd hr' hr, fun _ => .inl ?_⟩, ?_⟩
  · intro h' hne
    rw [update_of_ne (by simpa using hne)]
  · intro u h' _ _
    rw [update_of_ne (by simp)]
  · intro u hu
    exact .inl (by rw [hts]; simp [hu])
  · rw [update_self]
    exact seg_congr (fun u _ => by rw [update_of_ne (by simp)]) hc.2
  · simpa using seg_ne_mark hc.2

theorem listRemoveHead_nil (hL : Linkage ring m L) (hr : ¬ ring h) (hts : L h = []) :
    listRemoveHead m (.head h) = (m (.head h), m) ∧ (m (.head h) = .null ∨ m (.head h) = .mark) := by
  have hc := hL.chain_of hr
  rw [hts] at hc
  have hl : m (.head h) = .null ∨ m (.head h) = .mark := hc.imp id And.left
  refine ⟨?_, hl⟩
  unfold listRemoveHead
  rcases hl with hl | hl <;> rw [hl]

/-- The search loop of `list_remove` stops behind the elements in front of `node`. -/
theorem listRemove_found {e : Link T} {bs : List T} :
    ∀ {as : List T} {fuel : Nat} {n : Node H T}, Seg m (m n) (as ++ node :: bs) e →
      node ∉ as → as.length < fuel →
      listRemove m node fuel n = (true, update m (after n as) (m (.entry node)))
  | [], 0, _, _, _, hf => absurd hf (by simp)
  | [], fuel + 1, n, h, _, _ => by
    rw [listRemove, h.1]
    simp
  | a :: as, 0, _, _, _, hf => absurd hf (by simp)
  | a :: as, fuel + 1, n, h, hn, hf => by
    simp only [List.mem_cons, not_or] at hn
    rw [listRemove, h.1]
    simp only [after_cons]
    rw [if_neg (Ne.symm hn.1)]
    exact listRemove_found h.2 hn.2 (by simpa using hf)

theorem listRemove_missing : ∀ {ts : List T} {fuel : Nat} {n : Node H T},
    Seg m (m n) ts .null → node ∉ ts → listRemove m node fuel n = (false, m)
  | _, 0, _, _, _ => by rw [listRemove]
  | [], fuel + 1, n, h, _ => by
    rw [listRemove, h]
  | t :: ts, fuel + 1, n, h, hn => by
    simp only [List.mem_cons, not_or] at hn
    rw [listRemove, h.1]
    simp only
    rw [if_neg (Ne.symm hn.1)]
    exact listRemove_missing h.2 hn.2

theorem listRemove_linkage (hL : Linkage ring m L) (hr : ¬ ring h) (ht : t ∈ L h) (hf : (L h).length ≤ fuel) :
    (listRemove m t fuel (.head h)).1 = true ∧
      Linkage ring (listRemove m t fuel (.head h)).2 (update L h ((L h).erase t)) ∧
      (listRemove m t fuel (.head h)).2 (.head h) ≠ .mark := by
  have hnd := hL.nodup h
  obtain ⟨as, bs, hsplit⟩ := List.append_of_mem ht
  rw [hsplit] at hnd hf
  have has : t ∉ as := by
    intro hmem
    have := (List.nodup_append.mp hnd).2.2 t hmem t (by simp)
    exact this rfl
  have hseg : Seg m (m (.head h)) (as ++ t :: bs) .null := by
    have hc := hL.chain_of hr
    rw [hsplit] at hc
    rcases hc with hc | ⟨_, hc⟩
    · exact hc
    · exact absurd hc (by simp)
  have herase : (L h).erase t = as ++ bs := by
    rw [hsplit, List.erase_append_right _ has, List.erase_cons_head]
  rw [listRemove_found hseg has (by simp at hf; omega), herase]
  have hafter : after (.head h) as = .head h ∨ ∃ u ∈ as, after (.head h) as = .entry u :=
    (after_cases (.head h) as).imp And.right id
  have hseg' := seg_remove hseg hnd (fun x _ => by simp)
  refine ⟨rfl, hL.replace (update m (after (.head h) as) (m (.entry t))) ?_ ?_ ?_ ?_
    ⟨fun hr' => absurd hr' hr, fun _ => .inl hseg'⟩, seg_ne_mark hseg'⟩
  · intro h' hne
    rcases hafter with ha | ⟨u, _, ha⟩ <;> rw [ha] <;> simp [hne]
  · intro u h' hne hu
    rw [update_of_ne]
    rcases hafter with ha | ⟨v, hv, ha⟩
    · rw [ha]
      simp
    · rw [ha]
      intro huv
      have huv : u = v := by simpa using huv
      exact hne (hL.disjoint h' h u hu (by rw [hsplit, huv]; simp [hv]))
  · intro u hu
    rw [hsplit]
    rcases List.mem_append.mp hu with hu | hu <;> exact .inl (by simp [hu])
  · exact List.Nodup.sublist (by simp) hnd

/-! ## Specifications: rings -/

theorem clistRpush_linkage (hL : Linkage ring m L) (hr : ring h) (ht : Unlinked L t) :
    Linkage ring (clistRpush m (.head h) t) (update L h (L h ++ [t])) := by
  have hring := hL.ring_of hr
  have hnd : (L h ++ [t]).Nodup := by
    rw [List.nodup_append]
    refine ⟨hL.nodup h, by simp, fun a ha b hb => ?_⟩
    rw [List.mem_singleton] at hb
    exact fun hab => ht h (hb ▸ hab ▸ ha)
  have hfresh : ∀ u ∈ L h ++ [t], u ∈ L h ∨ Unlinked L u := by
    intro u hu
    rcases List.mem_append.mp hu with hu | hu
    · exact .inl hu
    · rw [List.mem_singleton] at hu
      exact .inr (hu ▸ ht)
  rcases List.eq_nil_or_concat' (L h) with hnil | ⟨ys, z, hsnoc⟩
  · -- the ring was empty: the new element points at itself
    rw [hnil, ring_nil] at hring
    rw [clistRpush_null hring]
    refine hL.replace _ ?_ ?_ hfresh hnd ⟨fun _ => ?_, fun hr' => absurd hr hr'⟩
    · intro h' hne
      rw [update_of_ne (by simpa using hne), update_of_ne (by simp)]
    · intro u h' _ hu
      have hut : u ≠ t := fun hut => ht h' (hut ▸ hu)
      rw [update_of_ne (by simp), update_of_ne (by simpa using hut)]
    · rw [hnil]
      simp [RingAt]
  · rw [hsnoc] at hring hnd ⊢
    rw [ring_snoc] at hring
    obtain ⟨hl, hseg, hz⟩ := hring
    have hmem : ∀ u ∈ ys ++ [z], u ∈ L h := fun u hu => by rw [hsnoc]; exact hu
    have htne : ∀ u ∈ ys ++ [z], u ≠ t := fun u hu hut => ht h (hut ▸ hmem u hu)
    have hzt : z ≠ t := htne z (by simp)
    rw [clistRpush_ref hl]
    refine hL.replace _ ?_ ?_ (hsnoc ▸ hfresh) hnd ⟨fun _ => ?_, fun hr' => absurd hr hr'⟩
    · intro h' hne
      simp [hne]
    · intro u h' hne hu
      have hut : u ≠ t := fun hut => ht h' (hut ▸ hu)
      have huz : u ≠ z := fun huz => hne (hL.disjoint h' h u hu (hmem u (by simp [huz])))
      simp [hut, huz]
    · rw [ring_snoc]
      simp only [update_self, true_and]
      have hhead : (ys ++ [z] ++ [t]).head? = (ys ++ [z]).head? := by cases ys <;> rfl
      rw [update_of_ne (by simp), update_of_ne (by simpa using Ne.symm hzt),
        update_self, hhead, seg_append]
      refine ⟨⟨.ref z, ?_, rfl, ?_⟩, hz⟩
      · refine seg_congr (fun u hu => ?_) hseg
        have hut := htne u (by simp [hu])
        have huz : u ≠ z := by
          intro huz
          have := (List.nodup_append.mp (List.nodup_append.mp hnd).1).2.2 u hu z (by simp)
          exact this huz
        simp [hut, huz]
      · simp

theorem clistLpoprpush_cons (hL : Linkage ring m L) (hr : ring h) (hts : L h = t :: ts) :
    Linkage ring (clistLpoprpush m (.head h)) (update L h (ts ++ [t])) := by
  have hring := hL.ring_of hr
  have hnd := hL.nodup h
  have hmem : ∀ u ∈ ts ++ [t], u ∈ L h := by
    intro u hu
    rw [hts]
    simpa [or_comm] using hu
  obtain ⟨ys, z, hz⟩ : ∃ ys z, L h = ys ++ [z] :=
    (List.eq_nil_or_concat' (L h)).resolve_left (by rw [hts]; simp)
  have hlast := hring
  rw [hz, ring_snoc, ← hz, hts] at hlast
  obtain ⟨hl, _, hfirst⟩ := hlast
  rw [hts] at hring hnd
  have hseg : m (.entry z) = .ref t ∧ Seg m (m (.entry t)) ts (.ref t) := ⟨hfirst, hring.2.2⟩
  rw [clistLpoprpush_ref hl, hseg.1]
  refine hL.replace _ ?_ ?_ (fun u hu => .inl (hmem u hu)) ?_
    ⟨fun _ => ?_, fun hr' => absurd hr hr'⟩
  · intro h' hne
    simp [hne]
  · intro u h' _ _
    simp
  · rw [List.nodup_append_comm]
    exact hnd
  · rw [ring_snoc]
    refine ⟨by simp, ?_, ?_⟩
    · exact seg_congr (fun u _ => by simp) hseg.2
    · cases ts with
      | nil => exact hseg.2
      | cons u us => exact hseg.2.1

omit [DecidableEq H] [DecidableEq T] in
theorem clistLpeek_cons (hL : Linkage ring m L)
    (hr : ring h) (hts : L h = t :: ts) : clistLpeek m (.head h) = .ref t := by
  have hring := hL.ring_of hr
  obtain ⟨ys, z, hz⟩ : ∃ ys z, L h = ys ++ [z] :=
    (List.eq_nil_or_concat' (L h)).resolve_left (by rw [hts]; simp)
  rw [hz, ring_snoc, ← hz, hts] at hring
  unfold clistLpeek
  rw [hring.1]
  exact hring.2.2

omit [DecidableEq H] in
/-- The loop of `clist_find_before`, entered in front of `as ++ a :: node :: bs`,
stops at `a`: no element passed is the last one, none has `node` behind it. -/
theorem clistFindBeforeLoop_found {last : T} {e : Link T} {bs : List T} (hlast : m list = .ref last) :
    ∀ {as : List T} {fuel : Nat} {pos : T}, Seg m (m (.entry pos)) (as ++ a :: node :: bs) e →
      node ∉ as → node ≠ a → last ∉ as → last ≠ a → as.length < fuel →
      clistFindBeforeLoop m list node fuel pos = some a
  | _, 0, _, _, _, _, _, _, hf => absurd hf (by simp)
  | [], fuel + 1, pos, h, _, _, _, _, _ => by
    simp only [List.nil_append, seg_cons] at h
    rw [clistFindBeforeLoop, h.1]
    simp [h.2.1]
  | c :: as, fuel + 1, pos, h, hn, hna, hl, hla, hf => by
    simp only [List.cons_append, List.mem_cons, not_or] at h hn hl
    have hnext : m (.entry c) ≠ .ref node := by
      cases as with
      | nil =>
        rw [List.nil_append] at h
        rw [h.2.1]
        simpa using Ne.symm hna
      | cons d ds =>
        rw [List.cons_append] at h
        rw [h.2.1]
        have := hn.2
        simp only [List.mem_cons, not_or] at this
        simpa using Ne.symm this.1
    rw [clistFindBeforeLoop, h.1]
    simp only [hnext, if_false, hlast]
    rw [if_pos (by simpa using Ne.symm hl.1)]
    exact clistFindBeforeLoop_found hlast h.2 hn.2 hna hl.2 hla (by simpa using hf)

theorem clistLpop_linkage (hL : Linkage ring m L) (hr : ring h) (hts : L h = t :: ts) :
    Linkage ring (clistLpop m (.head h)) (update L h ts) := by
  have hring := hL.ring_of hr
  have hnd := hL.nodup h
  rw [hts] at hnd hring
  have hmem : ∀ u ∈ ts, u ∈ L h := by
    intro u hu
    rw [hts]
    simp [hu]
  rcases List.eq_nil_or_concat' ts with rfl | ⟨ys, z, rfl⟩
  · have hl : m (.head h) = .ref t := hring.1
    have ht : m (.entry t) = .ref t := hring.2.2
    rw [clistLpop_singleton hl ht]
    refine hL.replace _ ?_ ?_ (by simp) (by simp) ⟨fun _ => ?_, fun hr' => absurd hr hr'⟩
    · intro h' hne
      simp [hne]
    · intro u h' _ _
      simp
    · rw [ring_nil]
      simp
  · rw [← List.cons_append, ring_snoc] at hring
    obtain ⟨hl, hseg, hz⟩ := hring
    have hne : z ≠ t := by
      rintro rfl
      simp at hnd
    rw [clistLpop_ref hl hz hne]
    refine hL.replace _ ?_ ?_ (fun u hu => .inl (hmem u hu)) (List.nodup_cons.mp hnd).2
      ⟨fun _ => ?_, fun hr' => absurd hr hr'⟩
    · intro h' _
      simp
    · intro u h' hne' hu
      have huz : u ≠ z := fun huz => hne' (hL.disjoint h' h u hu (huz ▸ hmem z (by simp)))
      simp [huz]
    · rw [ring_snoc]
      refine ⟨by simpa using hl, ?_, ?_⟩
      · rw [update_self]
        refine seg_congr (fun u hu => ?_) hseg.2
        have huz : u ≠ z := by
          rintro rfl
          have hnd' := (List.nodup_cons.mp hnd).2
          exact (List.nodup_append.mp hnd').2.2 u hu u (by simp) rfl
        simp [huz]
      · rw [update_self]
        cases ys with
        | nil => exact hseg.2
        | cons y ys => exact hseg.2.1

omit [DecidableEq T] in
private theorem getLast?_behind (xs ys : List T) (x y : T) : (xs ++ x :: (ys ++ [y])).getLast? = some y := by
  rw [← List.cons_append, ← List.append_assoc, List.getLast?_concat]

theorem clistRemove_linkage {h : H} {t : T} {fuel : Nat} (hL : Linkage ring m L)
    (hr : ring h) (ht : t ∈ L h) (hf : (L h).length ≤ fuel) :
    Linkage ring (clistRemove m fuel (.head h) t) (update L h ((L h).erase t)) := by
  obtain ⟨ys, z, hz⟩ : ∃ ys z, L h = ys ++ [z] :=
    (List.eq_nil_or_concat' (L h)).resolve_left (fun hnil => by rw [hnil] at ht; simp at ht)
  have hsnoc := hL.ring_of hr
  rw [hz, ring_snoc, ← hz] at hsnoc
  obtain ⟨hl, _, hfirst⟩ := hsnoc
  have hnd := hL.nodup h
  obtain ⟨as, bs, hsplit⟩ := List.append_of_mem ht
  rcases List.eq_nil_or_concat' as with rfl | ⟨as, a, rfl⟩
  · -- the first element
    rw [List.nil_append] at hsplit
    rw [hsplit] at hfirst
    rw [clistRemove_first hl hfirst]
    have := clistLpop_linkage hL hr hsplit
    rwa [hsplit, List.erase_cons_head]
  · -- an element with `a` in front of it
    rw [List.append_assoc, List.singleton_append] at hsplit
    have hring := hL.ring_of hr
    rw [hsplit] at hring hnd hf hfirst
    have hnd' := hnd
    simp only [List.nodup_append, List.nodup_cons, List.mem_cons, not_or] at hnd'
    obtain ⟨_, ⟨⟨hat, habs⟩, htbs, _⟩, hdis⟩ := hnd'
    have htas : t ∉ as := fun hmem => hdis t hmem t (.inr (.inl rfl)) rfl
    have hlast : z ∈ t :: bs := by
      have hzl : (as ++ a :: t :: bs).getLast? = some z := by rw [← hsplit, hz]; simp
      rw [List.getLast?_append, List.getLast?_cons_cons] at hzl
      have hsome : ((t :: bs).getLast?).isSome := by simp
      exact List.mem_of_getLast? hzl
    have hza : z ≠ a := fun hza => by
      rcases List.mem_cons.mp hlast with hzt | hzb
      · exact hat (hza ▸ hzt)
      · exact habs (hza ▸ hzb)
    have hzas : z ∉ as := fun hmem => by
      exact hdis z hmem z (.inr (by simpa using hlast)) rfl
    have hnfirst : m (.entry z) ≠ .ref t := by
      rw [hfirst]
      cases as with
      | nil => simpa using hat
      | cons c cs =>
        simp only [List.mem_cons, not_or] at htas
        simpa using Ne.symm htas.1
    have hfind : clistFindBefore m fuel (.head h) t = some a := by
      unfold clistFindBefore
      rw [hl]
      refine clistFindBeforeLoop_found hl (hfirst ▸ hring.2) htas (Ne.symm hat) hzas hza ?_
      simp at hf
      omega
    have herase : (L h).erase t = as ++ a :: bs := by
      rw [hsplit, List.erase_append_right _ htas, List.erase_cons_tail (by simpa using hat),
        List.erase_cons_head]
    have hmem : ∀ u ∈ as ++ a :: bs, u ∈ L h := by
      intro u hu
      rw [hsplit]
      simp only [List.mem_append, List.mem_cons] at hu ⊢
      tauto
    have hnd2 : (as ++ a :: bs).Nodup := herase ▸ (hL.nodup h).erase t
    have hother : ∀ u h', h' ≠ h → u ∈ L h' → u ≠ a := by
      rintro u h' hne hu rfl
      exact hne (hL.disjoint h' h u hu (hmem u (by simp)))
    have hseg := seg_unlink hring.2 hnd
    have hhead : (as ++ a :: t :: bs).head? = (as ++ a :: bs).head? := by cases as <;> rfl
    rw [hhead] at hseg
    rw [herase, clistRemove_behind hl hnfirst hfind]
    rcases List.eq_nil_or_concat' bs with rfl | ⟨bs, b, rfl⟩
    · -- it was the last one: the head moves back to `a`
      have hzt : t = z := by simpa using Eq.symm (List.mem_singleton.mp hlast)
      rw [if_pos hzt]
      refine hL.replace _ ?_ ?_ (fun u hu => .inl (hmem u hu)) hnd2
        ⟨fun _ => ?_, fun hr' => absurd hr hr'⟩
      · intro h' hne
        simp [hne]
      · intro u h' hne hu
        simp [hother u h' hne hu]
      · refine ⟨by simp, seg_congr (fun u _ => by simp) hseg⟩
    · have hzb : z = b := by
        have hzl : (as ++ a :: t :: (bs ++ [b])).getLast? = some z := by rw [← hsplit, hz]; simp
        rw [← List.cons_append, getLast?_behind] at hzl
        exact (Option.some.inj hzl).symm
      have hzt : t ≠ z := by
        rintro rfl
        exact htbs (by simp [hzb])
      rw [if_neg hzt]
      refine hL.replace _ ?_ ?_ (fun u hu => .inl (hmem u hu)) hnd2
        ⟨fun _ => ?_, fun hr' => absurd hr hr'⟩
      · intro h' _
        simp
      · intro u h' hne hu
        simp [hother u h' hne hu]
      · refine ⟨?_, hseg⟩
        rw [update_of_ne (by simp), hl, hzb]
        rw [getLast?_behind, Link.ofOption_some]

omit [DecidableEq H] [DecidableEq T] in
theorem next_mem (hL : Linkage ring m L) (hr : ring h) (ht : t ∈ L h) : ∃ u ∈ L h, m (.entry t) = .ref u := by
  have hring := hL.ring_of hr
  obtain ⟨as, bs, hsplit⟩ := List.append_of_mem ht
  rw [hsplit] at hring
  obtain ⟨k, _, hseg⟩ := seg_append.mp hring.2
  obtain ⟨-, hseg⟩ := seg_cons.mp hseg
  rw [hsplit]
  cases bs with
  | nil =>
    -- the last element points at the first
    rw [seg_nil] at hseg
    cases as with
    | nil => exact ⟨t, by simp, hseg⟩
    | cons a as => exact ⟨a, by simp, hseg⟩
  | cons b bs => exact ⟨b, by simp, hseg.1⟩

omit [DecidableEq H] in
theorem clistFindBeforeLoop_missing (hL : Linkage ring m L) (hr : ring h)
    (hnode : node ∉ L h) : ∀ {fuel : Nat} {pos : T}, pos ∈ L h →
      clistFindBeforeLoop m (.head h) node fuel pos = none
  | 0, _, _ => rfl
  | fuel + 1, pos, hpos => by
    obtain ⟨u, hu, hnext⟩ := next_mem hL hr hpos
    obtain ⟨v, hv, hnext'⟩ := next_mem hL hr hu
    unfold clistFindBeforeLoop
    simp only [hnext, hnext']
    have hne : v ≠ node := fun heq => hnode (heq ▸ hv)
    rw [if_neg (by simpa using hne)]
    split
    · exact clistFindBeforeLoop_missing hL hr hnode hu
    · rfl

theorem clistRemove_missing {h : H} {t : T} {fuel : Nat} (hL : Linkage ring m L) (hr : ring h)
    (ht : t ∉ L h) : clistRemove m fuel (.head h) t = m := by
  have hhead := (hL.ring_of hr).1
  unfold clistRemove
  cases hlast : (L h).getLast? with
  | none =>
    rw [hlast] at hhead
    rw [hhead]
    rfl
  | some z =>
    rw [hlast] at hhead
    have hz : z ∈ L h := List.mem_of_getLast? hlast
    obtain ⟨u, hu, hnext⟩ := next_mem hL hr hz
    have hne : u ≠ t := fun heq => ht (heq ▸ hu)
    have hfind : clistFindBefore m fuel (.head h) t = none := by
      unfold clistFindBefore
      rw [hhead]
      exact clistFindBeforeLoop_missing hL hr ht hz
    rw [hhead]
    simp only [Link.ofOption_some, hnext, hfind]
    rw [if_neg (by simpa using hne)]

/-! ## Entries that are not in the list -/

omit [DecidableEq H] [DecidableEq T] in
theorem last_mem (hL : Linkage ring m L) (hr : ring h) (ht : m (.head h) = .ref t) : t ∈ L h := by
  have hhead := (hL.ring_of hr).1
  rw [ht] at hhead
  cases hlast : (L h).getLast? with
  | none =>
    rw [hlast] at hhead
    cases hhead
  | some z =>
    rw [hlast] at hhead
    obtain rfl : t = z := by simpa using hhead
    exact List.mem_of_getLast? hlast

theorem clistRpush_entry {u : T} (hL : Linkage ring m L) (hr : ring h) (hu : u ∉ L h)
    (hne : u ≠ t) : clistRpush m (.head h) t (.entry u) = m (.entry u) := by
  cases hh : m (.head h) with
  | ref last =>
    have hlast : u ≠ last := fun heq => hu (heq ▸ last_mem hL hr hh)
    rw [clistRpush_ref hh]
    simp [hne, hlast]
  | null | mark =>
    unfold clistRpush
    rw [hh]
    simp [hne]

theorem clistLpop_entry {u : T} (hL : Linkage ring m L) (hr : ring h) (hu : u ∉ L h) :
    clistLpop m (.head h) (.entry u) = m (.entry u) := by
  unfold clistLpop
  cases hh : m (.head h) with
  | null | mark => rfl
  | ref last =>
    have hne : u ≠ last := fun heq => hu (heq ▸ last_mem hL hr hh)
    dsimp only
    cases m (.entry last) with
    | null | mark => rfl
    | ref first =>
      dsimp only
      split <;> simp [hne]

omit [DecidableEq H] in
theorem clistFindBeforeLoop_mem (hL : Linkage ring m L) (hr : ring h) : ∀ {fuel : Nat} {pos : T}, pos ∈ L h →
      clistFindBeforeLoop m (.head h) node fuel pos = some a → a ∈ L h
  | 0, _, _, ha => nomatch ha
  | fuel + 1, pos, hpos, ha => by
    obtain ⟨u, hu, hnext⟩ := next_mem hL hr hpos
    unfold clistFindBeforeLoop at ha
    simp only [hnext] at ha
    split at ha
    · exact Option.some.inj ha ▸ hu
    · split at ha
      · exact clistFindBeforeLoop_mem hL hr hu ha
      · cases ha

theorem clistRemove_entry {h : H} {t u : T} {fuel : Nat} (hL : Linkage ring m L) (hr : ring h)
    (hu : u ∉ L h) : clistRemove m fuel (.head h) t (.entry u) = m (.entry u) := by
  unfold clistRemove
  cases hh : m (.head h) with
  | null | mark => rfl
  | ref last =>
    dsimp only
    split
    · exact clistLpop_entry hL hr hu
    · cases hfind : clistFindBefore m fuel (.head h) t with
      | none => rfl
      | some tmp =>
        have hmem : tmp ∈ L h := by
          unfold clistFindBefore at hfind
          rw [hh] at hfind
          exact clistFindBeforeLoop_mem hL hr (last_mem hL hr hh) hfind
        have hne : u ≠ tmp := fun heq => hu (heq ▸ hmem)
        split <;> simp [hne]

end Riot.Core
