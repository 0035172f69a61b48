import Mathlib.Data.Fintype.Card
import Riot.Sixlowpan.FragRb

/-!
# The interval objects of the reassembly buffer

A state *pools* lists of objects if the entries hold these lists, no object is on two of them, and
those on none are free. Two steps change the lists: an object that is free is put in front of one,
and an entry that is removed gives all of its own back.

An object on a list is told from a free one by its end only. The end is 0 for a single byte at the
start of a datagram, so that the objects of one list, that of the entry at work, are left out until
it is known that the entry stays.
-/

namespace Riot.Sixlowpan.FragRb

open Riot.Lib Function List

variable {n m : Nat} {st : FragRb n m} {L : Fin n → List (Fin m)} {i j : Fin n} {t : Fin m}

/-! ## One entry -/

/-- How many bytes the intervals have together. -/
def total (ints : Fin m → RbInt m) (ts : List (Fin m)) : Nat := (ts.map fun t => (ints t).area.size).sum

/-- The entry `r` has the intervals `ts`, and has counted their bytes. -/
structure Enters (ints : Fin m → RbInt m) (r : RbEntry m) (ts : List (Fin m)) : Prop where
  within : ∀ t ∈ ts, (ints t).start ≤ (ints t).stop ∧ (ints t).stop < r.datagramSize
  apart : ts.Pairwise fun t u => (ints t).area.Apart (ints u).area
  small : r.datagramSize ≤ 2047
  vacant : r.pkt = none → ts = []
  counted : r.pkt ≠ none → (r.currentSize : Int) = total ints ts + r.grown
  /-- Only the first fragment is decompressed, -/
  header : r.pkt ≠ none → r.grown = 0 ∨ ∃ t ∈ ts, (ints t).start = 0
  /-- and every byte of it gives 20 at most. -/
  bounded : r.pkt ≠ none → r.grown ≤ 19 * 2047

variable {ints ints' : Fin m → RbInt m} {r : RbEntry m} {ts : List (Fin m)}

theorem total_congr (h : ∀ t ∈ ts, ints' t = ints t) : total ints' ts = total ints ts := by
  unfold total
  rw [map_congr_left fun t ht => by rw [h t ht]]

theorem Enters.congr (h : Enters ints r ts) (heq : ∀ t ∈ ts, ints' t = ints t) : Enters ints' r ts := by
  refine ⟨fun t ht => ?_, ?_, h.small, h.vacant, fun hp => ?_, fun hp => ?_, h.bounded⟩
  · rw [heq t ht]
    exact h.within t ht
  · refine h.apart.imp_of_mem fun {t u} ht hu hap => ?_
    rw [heq t ht, heq u hu]
    exact hap
  · rw [total_congr heq]
    exact h.counted hp
  · rcases h.header hp with h0 | ⟨t, ht, h0⟩
    · exact .inl h0
    · exact .inr ⟨t, ht, (heq t ht).symm ▸ h0⟩

theorem Enters.total_le (h : Enters ints r ts) : total ints ts ≤ r.datagramSize := by
  have hapart : (ts.map fun t => (ints t).area).Pairwise Area.Apart := pairwise_map.mpr h.apart
  have hin : ∀ s ∈ ts.map fun t => (ints t).area, s.addr + s.size ≤ r.datagramSize := by
    intro s hs
    obtain ⟨t, ht, rfl⟩ := mem_map.mp hs
    have := h.within t ht
    unfold RbInt.area
    simp only
    omega
  have hsum := sum_size_le hapart hin
  rwa [map_map] at hsum

theorem enters_vacant (hpkt : r.pkt = none) (hsize : r.datagramSize ≤ 2047) : Enters ints r [] :=
  ⟨fun _ h => absurd h not_mem_nil, List.Pairwise.nil, hsize, fun _ => rfl, fun h => absurd hpkt h,
    fun h => absurd hpkt h, fun h => absurd hpkt h⟩

/-! ## All entries -/

/-- The entries have the lists `L`, and the objects on none of them are free. -/
structure Pools (st : FragRb n m) (L : Fin n → List (Fin m)) : Prop where
  linkage : Linkage (fun _ => False) st.mem L
  free : ∀ t, Unlinked L t → (st.ints t).stop = 0
  enters : ∀ i, Enters st.ints (st.rbuf i) (L i)

/-- No object on the list looks free. -/
def Taken (ints : Fin m → RbInt m) (ts : List (Fin m)) : Prop := ∀ t ∈ ts, 0 < (ints t).stop

/-- The state pools its objects, and those on lists can be told from the free ones, -/
def Sound (st : FragRb n m) : Prop := ∃ L, Pools st L ∧ ∀ i, Taken st.ints (L i)

/-- but for the list of the entry `i`. -/
def SoundBut (i : Fin n) (st : FragRb n m) : Prop := ∃ L, Pools st L ∧ ∀ j, j ≠ i → Taken st.ints (L j)

theorem Sound.but (h : Sound st) (i : Fin n) : SoundBut i st := by
  obtain ⟨L, hP, hT⟩ := h
  exact ⟨L, hP, fun j _ => hT j⟩

theorem Pools.seg (hP : Pools st L) (i : Fin n) : Seg st.mem (st.mem (.head i)) (L i) .null := by
  rcases hP.linkage.chain_of (h := i) id with hseg | ⟨hmark, -⟩
  · exact hseg
  · rw [mem_head] at hmark
    cases h : (st.rbuf i).ints with
    | none =>
      rw [h] at hmark
      cases hmark
    | some t =>
      rw [h] at hmark
      cases hmark

theorem Pools.intsOf_eq (hP : Pools st L) (i : Fin n) : st.intsOf i = L i := by
  have hlen : (L i).length ≤ m := by
    have := (hP.linkage.nodup i).length_le_card
    rwa [Fintype.card_fin] at this
  exact links_eq (hP.seg i) (by omega)

/-! ## Entries are written -/

@[simp] theorem setEntry_ints (r : RbEntry m) : (st.setEntry i r).ints = st.ints := rfl

@[simp] theorem setEntry_rbuf_self (r : RbEntry m) : (st.setEntry i r).rbuf i = r := update_self ..

theorem setEntry_rbuf_of_ne (r : RbEntry m) (h : j ≠ i) : (st.setEntry i r).rbuf j = st.rbuf j :=
  update_of_ne h ..

theorem mem_setEntry (hints : r.ints = (st.rbuf i).ints) : (st.setEntry i r).mem = st.mem := by
  funext x
  cases x with
  | entry t => rfl
  | head j =>
    by_cases hj : j = i
    · subst hj
      rw [mem_head, mem_head, setEntry_rbuf_self, hints]
    · rw [mem_head, mem_head, setEntry_rbuf_of_ne r hj]

theorem Pools.setEntry (hP : Pools st L) (hints : r.ints = (st.rbuf i).ints)
    (hr : Enters st.ints r (L i)) : Pools (st.setEntry i r) L := by
  refine ⟨?_, hP.free, fun j => ?_⟩
  · rw [mem_setEntry hints]
    exact hP.linkage
  · by_cases hj : j = i
    · subst hj
      rw [setEntry_rbuf_self]
      exact hr
    · rw [setEntry_rbuf_of_ne r hj]
      exact hP.enters j

/-! ## An entry is removed -/

theorem baseRmLoop_eq : ∀ (ts : List (Fin m)) {fuel : Nat} {st : FragRb n m} {ptr : Option (Fin m)},
    Seg st.mem (.ofOption ptr) ts .null → ts.Nodup → ts.length ≤ fuel →
      baseRmLoop fuel st.ints ptr = fun t => if t ∈ ts then .unset else st.ints t := by
  intro ts
  induction ts with
  | nil =>
    intro fuel st ptr hseg _ _
    cases ptr with
    | some t => cases hseg
    | none =>
      cases fuel <;> simp [baseRmLoop]
  | cons t ts ih =>
    intro fuel st ptr hseg hnd hlen
    obtain ⟨hptr, htail⟩ := seg_cons.mp hseg
    obtain ⟨hnt, hnd'⟩ := nodup_cons.mp hnd
    cases fuel with
    | zero => cases hlen
    | succ fuel =>
      cases ptr with
      | none => cases hptr
      | some u =>
        obtain rfl : u = t := by simpa using hptr
        -- the rest of the list does not come back to the object that was just taken out
        have hrest : Seg ({ st with ints := update st.ints u .unset } : FragRb n m).mem
            (.ofOption (st.ints u).next) ts .null := by
          refine seg_congr (fun v hv => ?_) htail
          have hvu : v ≠ u := fun h => hnt (h ▸ hv)
          simp only [mem_entry, update_of_ne hvu]
        rw [baseRmLoop, ih hrest hnd' (by simpa using hlen)]
        funext v
        by_cases hvu : v = u
        · subst hvu
          simp
        · simp [hvu]

theorem Pools.remove_ints (hP : Pools st L) (i : Fin n) :
    (st.remove i).ints = fun t => if t ∈ L i then .unset else st.ints t := by
  have hlen : (L i).length ≤ m := by
    have := (hP.linkage.nodup i).length_le_card
    rwa [Fintype.card_fin] at this
  exact baseRmLoop_eq (L i) (hP.seg i) (hP.linkage.nodup i) (by omega)

theorem remove_rbuf_of_ne (h : j ≠ i) : (st.remove i).rbuf j = st.rbuf j := update_of_ne h ..

theorem remove_rbuf_self : (st.remove i).rbuf i
    = { st.rbuf i with ints := none, datagramSize := 0, pkt := none } := update_self ..

theorem Pools.remove (hP : Pools st L) (i : Fin n) : Pools (st.remove i) (update L i []) := by
  have hints := hP.remove_ints i
  have hother : ∀ j, j ≠ i → ∀ t ∈ L j, (st.remove i).ints t = st.ints t := by
    intro j hj t ht
    have hti : t ∉ L i := fun h => hj (hP.linkage.disjoint j i t ht h)
    rw [hints]
    simp only [if_neg hti]
  refine ⟨?_, fun t ht => ?_, fun j => ?_⟩
  · refine hP.linkage.replace _ (fun j hj => ?_) (fun t j hj ht => ?_) ?_ nodup_nil ⟨?_, fun _ => ?_⟩
    · rw [mem_head, mem_head, remove_rbuf_of_ne hj]
    · rw [mem_entry, mem_entry, hother j hj t ht]
    · exact fun t ht => absurd ht not_mem_nil
    · exact fun h => h.elim
    · refine .inl ?_
      rw [mem_head, remove_rbuf_self, Link.ofOption_none, seg_nil]
  · rw [hints]
    by_cases hti : t ∈ L i
    · simp only [if_pos hti, RbInt.unset]
    · simp only [if_neg hti]
      refine hP.free t fun j hj => ?_
      have hne : j ≠ i := fun h => hti (h ▸ hj)
      have := ht j
      rw [update_of_ne hne] at this
      exact this hj
  · by_cases hj : j = i
    · subst hj
      rw [remove_rbuf_self, update_self]
      exact enters_vacant rfl (Nat.zero_le _)
    · rw [remove_rbuf_of_ne hj, update_of_ne hj]
      exact (hP.enters j).congr (hother j hj)

/-- **An entry that is removed gives all its objects back**: what was not known of its list does not
matter any more. -/
theorem SoundBut.remove (h : SoundBut i st) : Sound (st.remove i) := by
  obtain ⟨L, hP, hT⟩ := h
  refine ⟨update L i [], hP.remove i, fun j => ?_⟩
  by_cases hj : j = i
  · subst hj
    rw [update_self]
    exact fun t ht => absurd ht not_mem_nil
  · rw [update_of_ne hj]
    intro t ht
    have hti : t ∉ L i := fun h => hj (hP.linkage.disjoint j i t ht h)
    rw [hP.remove_ints i]
    simp only [if_neg hti]
    exact hT j hj t ht

theorem Sound.remove (h : Sound st) (i : Fin n) : Sound (st.remove i) := (h.but i).remove

/-! ## An object is put on a list -/

theorem unlinked_of_free (hT : ∀ i, Taken st.ints (L i)) (ht : (st.ints t).stop = 0) : Unlinked L t := by
  intro i hi
  have := hT i t hi
  omega

theorem checkFragments_isSome {fragSize offset : Nat} : ∀ (ts : List (Fin m)) {fuel : Nat}
    {ptr : Option (Fin m)}, Seg st.mem (.ofOption ptr) ts .null → ts.length ≤ fuel →
      ∃ c, checkFragments st.ints fragSize offset fuel ptr = some c := by
  intro ts
  induction ts with
  | nil =>
    intro fuel ptr hseg _
    cases ptr with
    | some t => cases hseg
    | none => exact ⟨.success, by cases fuel <;> rfl⟩
  | cons t ts ih =>
    intro fuel ptr hseg hlen
    obtain ⟨hptr, htail⟩ := seg_cons.mp hseg
    cases fuel with
    | zero => cases hlen
    | succ fuel =>
      cases ptr with
      | none => cases hptr
      | some u =>
        obtain rfl : u = t := by simpa using hptr
        rw [checkFragments]
        split
        · exact ⟨_, rfl⟩
        · split
          · exact ⟨_, rfl⟩
          · exact ih htail (by simpa using hlen)

theorem checkFragments_success {fragSize offset : Nat} (hpos : 0 < fragSize)
    (hlt : offset + fragSize ≤ 2 ^ 16) : ∀ (ts : List (Fin m)) {fuel : Nat} {ptr : Option (Fin m)},
    Seg st.mem (.ofOption ptr) ts .null → checkFragments st.ints fragSize offset fuel ptr = some .success →
      ∀ t ∈ ts, (st.ints t).stop < offset ∨ offset + fragSize ≤ (st.ints t).start := by
  intro ts
  induction ts with
  | nil => exact fun _ _ _ ht => absurd ht not_mem_nil
  | cons t ts ih =>
    intro fuel ptr hseg hcheck
    obtain ⟨hptr, htail⟩ := seg_cons.mp hseg
    cases ptr with
    | none => cases hptr
    | some v =>
      obtain rfl : v = t := by simpa using hptr
      cases fuel with
      | zero => cases hcheck
      | succ fuel =>
        rw [checkFragments, Nat.mod_eq_of_lt (by omega : offset < 2 ^ 16),
          Nat.mod_eq_of_lt (by omega : offset + fragSize - 1 < 2 ^ 16)] at hcheck
        split at hcheck
        · cases hcheck
        · rename_i hover
          split at hcheck
          · cases hcheck
          · intro u hu
            rcases mem_cons.mp hu with rfl | hu
            · -- no overlap in part, and an interval that is the same starts at the same byte
              unfold RbIntOverlapPartially at hover
              omega
            · exact ih htail hcheck u hu

/-- The object that `_rbuf_int_get_free` finds says of itself that it is free. -/
theorem rbufIntGetFree_stop (h : st.rbufIntGetFree = some t) : (st.ints t).stop = 0 := by
  have := find?_some h
  simpa using this

theorem Enters.push {o : RbInt m} {fragSize : Nat} (h : Enters ints r ts) (ht : t ∉ ts)
    (hpkt : r.pkt ≠ none) (hpos : 0 < fragSize) (hstop : o.stop = o.start + fragSize - 1)
    (hsize : o.start + fragSize ≤ r.datagramSize)
    (hfar : ∀ u ∈ ts, (ints u).stop < o.start ∨ o.start + fragSize ≤ (ints u).start) :
    Enters (update ints t o)
      { r with ints := some t, currentSize := (r.currentSize + fragSize) % 2 ^ 16 } (t :: ts) := by
  have hold : ∀ u ∈ ts, update ints t o u = ints u := by
    intro u hu
    have hut : u ≠ t := fun h => ht (h ▸ hu)
    rw [update_of_ne hut]
  have h' := h.congr hold
  have hnew : update ints t o t = o := update_self ..
  have htotal : total (update ints t o) (t :: ts) = fragSize + total ints ts := by
    rw [← total_congr hold, total, map_cons, sum_cons, hnew, total]
    unfold RbInt.area
    simp only
    omega
  refine ⟨?_, ?_, h.small, fun hp => absurd hp hpkt, fun _ => ?_, fun _ => ?_, fun _ => h.bounded hpkt⟩
  · rw [forall_mem_cons, hnew]
    refine ⟨⟨?_, ?_⟩, h'.within⟩
    · omega
    · simp only
      omega
  · rw [pairwise_cons]
    refine ⟨fun u hu => ?_, h'.apart⟩
    have hin := h.within u hu
    rw [hnew, hold u hu]
    unfold RbInt.area Area.Apart
    simp only
    rcases hfar u hu with hlt | hle
    · right
      omega
    · left
      omega
  · -- the counter does not wrap: the intervals fit into the datagram, and the headers have not grown much
    have hcount := h.counted hpkt
    have hbound := h.bounded hpkt
    have hle := h.total_le
    have hsmall := h.small
    rw [Nat.mod_eq_of_lt (by omega)]
    push_cast
    omega
  · rcases h.header hpkt with h0 | ⟨u, hu, h0⟩
    · exact .inl h0
    · exact .inr ⟨u, mem_cons_of_mem _ hu, by rw [hold u hu]; exact h0⟩

theorem Pools.push {o : RbInt m} (hP : Pools st L) (ht : Unlinked L t) (hnext : o.next = (st.rbuf i).ints)
    (hints : r.ints = some t) (hr : Enters (update st.ints t o) r (t :: L i)) :
    Pools ({ st with ints := update st.ints t o }.setEntry i r) (update L i (t :: L i)) := by
  have hold : ∀ j, ∀ u ∈ L j, update st.ints t o u = st.ints u := by
    intro j u hu
    have hut : u ≠ t := fun h => ht j (h ▸ hu)
    rw [update_of_ne hut]
  refine ⟨?_, fun u hu => ?_, fun j => ?_⟩
  · refine hP.linkage.replace _ (fun j hj => ?_) (fun u j _ hu => ?_) ?_ ?_ ⟨fun h => h.elim, fun _ => .inl ?_⟩
    · rw [mem_head, mem_head, setEntry_rbuf_of_ne r hj]
    · rw [mem_entry, mem_entry, setEntry_ints]
      simp only [hold j u hu]
    · intro u hu
      rcases mem_cons.mp hu with rfl | hu
      · exact .inr ht
      · exact .inl hu
    · exact nodup_cons.mpr ⟨ht i, hP.linkage.nodup i⟩
    · rw [mem_head, setEntry_rbuf_self, hints, seg_cons, mem_entry, setEntry_ints]
      refine ⟨rfl, ?_⟩
      simp only [update_self, hnext]
      refine seg_congr (fun u hu => ?_) (hP.seg i)
      rw [mem_entry, mem_entry, setEntry_ints]
      simp only [hold i u hu]
  · have hut : u ≠ t := by
      rintro rfl
      have := hu i
      rw [update_self] at this
      exact this mem_cons_self
    rw [setEntry_ints]
    simp only [update_of_ne hut]
    refine hP.free u fun j hj => ?_
    have := hu j
    by_cases hji : j = i
    · subst hji
      rw [update_self] at this
      exact this (mem_cons_of_mem _ hj)
    · rw [update_of_ne hji] at this
      exact this hj
  · by_cases hj : j = i
    · subst hj
      rw [setEntry_rbuf_self, update_self]
      exact hr
    · rw [setEntry_rbuf_of_ne r hj, update_of_ne hj]
      exact (hP.enters j).congr (hold j)

end Riot.Sixlowpan.FragRb
