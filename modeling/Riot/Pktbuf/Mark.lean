import Riot.Pktbuf.Packet

/-!
# Marking

`gnrc_pktbuf_mark` either leaves the data where it is, in two areas next to each other, or moves the
marked bytes and the others to areas of their own. Both ways the cells that are not in use any more
are unused sections, and what was taken before an allocation failed is given back.
-/

namespace Riot.Pktbuf

open Riot.Lib Function List

variable {c : Config} {b b1 b' : Buf} {room : Nat → Prop} {live others : List Nat} {p q m size d newMarked : Nat}
  {type : Int} {rest : Option Nat}

/-- What has to come out of marking: `m` has the first bytes of `p`, and `p` what is left. -/
structure Marked (c : Config) (room : Nat → Prop) (b b' : Buf) (p m size : Nat) (type : Int) (others : List Nat) :
    Prop where
  sound : Sound c room b' (p :: m :: others)
  first : b'.snips p = { b.snips p with
    data := (b'.snips p).data, size := (b.snips p).size - size, next := some m }
  marked : b'.snips m = ⟨(b.snips p).next, (b'.snips m).data, size, type, 1⟩
  data : bytes b' m ++ bytes b' p = bytes b p
  others : ∀ q ∈ others, b'.snips q = b.snips q ∧ bytes b' q = bytes b q

theorem setMarked_snips_of_ne (hp : q ≠ p) (hm : q ≠ m) :
    (setMarked b p m size type newMarked rest).2.snips q = b.snips q := by
  unfold setMarked setSnip
  dsimp only
  rw [update_of_ne hp, update_of_ne hm]

theorem setMarked_snips_marked (hne : m ≠ p) : (setMarked b p m size type newMarked rest).2.snips m =
    ⟨(b.snips p).next, some newMarked, size, type, 1⟩ := by
  unfold setMarked setSnip
  dsimp only
  rw [update_of_ne hne, update_self]

theorem setMarked_snips_self : (setMarked b p m size type newMarked rest).2.snips p =
    { b.snips p with data := rest, size := (b.snips p).size - size, next := some m } := by
  unfold setMarked setSnip
  dsimp only
  rw [update_self]

theorem areas_setMarked (hp : p ∉ others) (hm : m ∉ p :: others) :
    areas c (setMarked b p m size type newMarked rest).2 (p :: m :: others) =
      (⟨p, align c c.snipSize⟩ :: rest.toList.map fun r => ⟨r, align c ((b.snips p).size - size)⟩) ++
        (⟨m, align c c.snipSize⟩ :: ⟨newMarked, align c size⟩ :: areas c b others) := by
  rw [mem_cons, not_or] at hm
  have hothers : areas c (setMarked b p m size type newMarked rest).2 others = areas c b others :=
    areas_congr fun q hq => setMarked_snips_of_ne (fun h => hp (h ▸ hq)) (fun h => hm.2 (h ▸ hq))
  rw [areas_cons, areas_cons, hothers, snipAreas, snipAreas, setMarked_snips_self, setMarked_snips_marked hm.1]
  cases rest <;> rfl

theorem marked_of_parted (h : Sound c room b (p :: others)) (hm : m ∉ p :: others) (hsize : 0 < size)
    (hle : size ≤ (b.snips p).size) (hsnips : b1.snips = b.snips) (hrest : rest = none ↔ (b.snips p).size = size)
    (hparted : Parted c room b1.unused ((⟨p, align c c.snipSize⟩ ::
      rest.toList.map fun r => ⟨r, align c ((b.snips p).size - size)⟩) ++
        (⟨m, align c c.snipSize⟩ :: ⟨newMarked, align c size⟩ :: areas c b others)))
    (hdata : b1.mem.slice newMarked size ++ (match rest with
      | none => []
      | some r => b1.mem.slice r ((b.snips p).size - size)) = bytes b p)
    (hothers : ∀ q ∈ others, bytes b1 q = bytes b q) :
    Marked c room b (setMarked b1 p m size type newMarked rest).2 p m size type others := by
  have hp := h.notMem
  have hok := h.snips p mem_cons_self
  have hm' := hm
  rw [mem_cons, not_or] at hm'
  have hself := @setMarked_snips_self b1 p m size newMarked type rest
  have hmarked := @setMarked_snips_marked b1 p m size newMarked type rest hm'.1
  have hkeep : ∀ q ∈ others, (setMarked b1 p m size type newMarked rest).2.snips q = b1.snips q := fun q hq =>
    setMarked_snips_of_ne (fun heq => hp (heq ▸ hq)) (fun heq => hm'.2 (heq ▸ hq))
  refine ⟨⟨?_, fun q hq => ?_⟩, ?_, ?_, ?_, fun q hq => ⟨?_, ?_⟩⟩
  · have hareas := @areas_setMarked c b1 others p m size newMarked type rest hp hm
    rw [@areas_congr c b b1 others fun q _ => by rw [hsnips], hsnips] at hareas
    rw [hareas]
    exact hparted
  · rcases mem_cons.mp hq with rfl | hq
    · rw [hself, hsnips]
      refine ⟨hrest.trans ?_, le_trans (Nat.sub_le _ _) hok.size, hok.users⟩
      dsimp only
      omega
    · rcases mem_cons.mp hq with rfl | hq
      · rw [hmarked]
        exact ⟨⟨fun h => (nomatch h), fun h => absurd h (by dsimp only; omega)⟩, le_trans hle hok.size, Nat.one_pos⟩
      · rw [hkeep q hq, hsnips]
        exact h.snips q (mem_cons_of_mem _ hq)
  · rw [hself, hsnips]
  · rw [hmarked, hsnips]
  · rw [← hdata]
    unfold bytes
    rw [hself, hmarked, hsnips]
    rfl
  · rw [hkeep q hq, hsnips]
  · rw [← hothers q hq]
    exact bytes_congr (hkeep q hq) fun _ _ _ _ _ => rfl

variable {u : List Area} {R : List Area} {newRest : Nat}

/-- The bytes are moved into areas of their own, and their old one is given back. -/
theorem move_marked (h : Sound c room b (p :: others)) (hd : (b.snips p).data = some d) (hm : m ∉ p :: others)
    (hpos : 0 < size) (hlt : size < (b.snips p).size)
    (hparted : Parted c room u (⟨newRest, align c ((b.snips p).size - size)⟩ :: ⟨newMarked, align c size⟩ ::
      ⟨m, align c c.snipSize⟩ :: ⟨p, align c c.snipSize⟩ :: ⟨d, align c (b.snips p).size⟩ :: areas c b others)) :
    ∃ b', ((memcpy c { b with unused := u } newMarked d size).bind fun b1 =>
        (memcpy c b1 newRest (d + size) ((b.snips p).size - size)).bind fun b1 =>
        (freeInternal c b1 (some d) (b.snips p).size).map fun b1 =>
          setMarked b1 p m size type newMarked (some newRest)) = some (some m, b') ∧
      Marked c room b b' p m size type others := by
  have hok := h.snips p mem_cons_self
  have hrest : (b.snips p).size - size ≤ c.bufSize := le_trans (Nat.sub_le _ _) hok.size
  have hsize : size ≤ align c size := le_align (fits_of_le (le_trans (le_of_lt hlt) hok.size))
  have hrest' : (b.snips p).size - size ≤ align c ((b.snips p).size - size) := le_align (fits_of_le hrest)
  have hall : (b.snips p).size ≤ align c (b.snips p).size := le_align (fits_of_le hok.size)
  obtain ⟨hfirst, hthen⟩ := pairwise_cons.mp hparted.apart
  obtain ⟨hsecond, -⟩ := pairwise_cons.mp hthen
  -- No area that is written to has anything in common with another.
  have hapart1 : Area.Apart ⟨newRest, align c ((b.snips p).size - size)⟩ ⟨newMarked, align c size⟩ :=
    hfirst _ mem_cons_self
  have hapart2 : Area.Apart ⟨newMarked, align c size⟩ ⟨d, align c (b.snips p).size⟩ :=
    hsecond _ (mem_cons_of_mem _ (mem_cons_of_mem _ mem_cons_self))
  have hcopy := @memcpy_eq c { b with unused := u } room _ ⟨newMarked, align c size⟩ ⟨d, align c (b.snips p).size⟩
    newMarked size d hparted (mem_cons_of_mem _ mem_cons_self)
    (mem_cons_of_mem _ (mem_cons_of_mem _ (mem_cons_of_mem _ (mem_cons_of_mem _ mem_cons_self))))
    le_rfl (by dsimp only; omega) (by dsimp only; omega)
  have hcopy' := @memcpy_eq c { b with unused := u, mem := b.mem.store newMarked (b.mem.slice d size) } room _
    ⟨newRest, align c ((b.snips p).size - size)⟩ ⟨d, align c (b.snips p).size⟩ newRest ((b.snips p).size - size) (d + size)
    hparted mem_cons_self
    (mem_cons_of_mem _ (mem_cons_of_mem _ (mem_cons_of_mem _ (mem_cons_of_mem _ mem_cons_self))))
    le_rfl (by dsimp only; omega) (by dsimp only; omega)
  have hsource : (b.mem.store newMarked (b.mem.slice d size)).slice (d + size) ((b.snips p).size - size) =
      b.mem.slice (d + size) ((b.snips p).size - size) := by
    refine Memory.slice_store_of_disjoint ?_
    unfold Area.Apart at hapart2
    rw [Memory.length_slice]
    dsimp only at hapart2
    omega
  rw [hsource] at hcopy'
  obtain ⟨u', hfree, hback⟩ := @freeInternal_parted c { b with
      unused := u
      mem := (b.mem.store newMarked (b.mem.slice d size)).store newRest (b.mem.slice (d + size) ((b.snips p).size - size)) }
    room (⟨newRest, align c ((b.snips p).size - size)⟩ :: ⟨newMarked, align c size⟩ :: ⟨m, align c c.snipSize⟩ ::
      ⟨p, align c c.snipSize⟩ :: areas c b others) d (b.snips p).size
    (hparted.perm (perm_iff_count.mpr fun a => by
      simp only [count_cons]
      omega))
  refine ⟨_, ?_, @marked_of_parted c b { b with
      unused := u'
      mem := (b.mem.store newMarked (b.mem.slice d size)).store newRest (b.mem.slice (d + size) ((b.snips p).size - size)) }
    room others p m size newMarked type (some newRest) h hm hpos (le_of_lt hlt) rfl
    ⟨fun h => (nomatch h), fun h => absurd h (by omega)⟩ ?_ ?_ fun q hq => ?_⟩
  · rw [hcopy]
    dsimp only [Option.bind]
    rw [hcopy']
    dsimp only [Option.bind]
    rw [hfree]
    rfl
  · refine hback.perm (perm_iff_count.mpr fun a => ?_)
    rw [Option.toList_some, map_singleton, cons_append, singleton_append]
    simp only [count_cons]
    omega
  · have hmarked : (b.mem.store newMarked (b.mem.slice d size)).slice newMarked size = b.mem.slice d size := by
      have := (@Memory.holds_store _ b.mem newMarked (b.mem.slice d size)).slice_eq
      rwa [Memory.length_slice] at this
    have hkeep : ((b.mem.store newMarked (b.mem.slice d size)).store newRest
        (b.mem.slice (d + size) ((b.snips p).size - size))).slice newMarked size = b.mem.slice d size := by
      rw [Memory.slice_store_of_disjoint, hmarked]
      unfold Area.Apart at hapart1
      rw [Memory.length_slice]
      dsimp only at hapart1
      omega
    have hrests : ((b.mem.store newMarked (b.mem.slice d size)).store newRest
        (b.mem.slice (d + size) ((b.snips p).size - size))).slice newRest ((b.snips p).size - size) =
          b.mem.slice (d + size) ((b.snips p).size - size) := by
      have := (@Memory.holds_store _ (b.mem.store newMarked (b.mem.slice d size)) newRest
        (b.mem.slice (d + size) ((b.snips p).size - size))).slice_eq
      rwa [Memory.length_slice] at this
    dsimp only
    rw [hkeep, hrests, ← Memory.slice_add, Nat.add_sub_cancel' (le_of_lt hlt), bytes, hd]
  · have hothers : ∀ t ∈ areas c b others, Area.Apart ⟨newRest, align c ((b.snips p).size - size)⟩ t := fun t ht =>
      hfirst t (mem_cons_of_mem _ (mem_cons_of_mem _ (mem_cons_of_mem _ (mem_cons_of_mem _ ht))))
    have hothers' : ∀ t ∈ areas c b others, Area.Apart ⟨newMarked, align c size⟩ t := fun t ht =>
      hsecond t (mem_cons_of_mem _ (mem_cons_of_mem _ (mem_cons_of_mem _ ht)))
    have hstep : bytes { b with mem := b.mem.store newMarked (b.mem.slice d size) } q = bytes b q :=
      bytes_store hq (h.tail q hq) rfl rfl le_rfl (by rw [Memory.length_slice]; dsimp only; omega) hothers'
    rw [← hstep]
    exact @bytes_store c { b with mem := b.mem.store newMarked (b.mem.slice d size) } _ _ others q _ _ hq (h.tail q hq) rfl
      rfl le_rfl (by rw [Memory.length_slice]; dsimp only; omega) hothers

theorem marked_inPlace (h : Sound c room b (p :: others)) (hd : (b.snips p).data = some d) (hm : m ∉ p :: others)
    (hpos : 0 < size) (hle : size ≤ (b.snips p).size) (hstay : ¬ ((b.snips p).size ≠ size ∧ size < align c size))
    (hparted : Parted c room u (⟨m, align c c.snipSize⟩ :: ⟨p, align c c.snipSize⟩ :: ⟨d, align c (b.snips p).size⟩ ::
      areas c b others)) :
    Marked c room b (setMarked { b with unused := u } p m size type d
      (if (b.snips p).size ≠ size then some (d + size) else none)).2 p m size type others := by
  have hok := h.snips p mem_cons_self
  have hfit := @fits_of_le c _ hok.size
  by_cases hall : (b.snips p).size = size
  · refine marked_of_parted h hm hpos hle rfl ?_ ?_ ?_ fun q hq => rfl
    · rw [if_neg (not_not.mpr hall)]
      exact ⟨fun _ => hall, fun _ => rfl⟩
    · rw [if_neg (not_not.mpr hall), ← hall]
      exact hparted.perm (List.Perm.swap _ _ _)
    · rw [if_neg (not_not.mpr hall), append_nil, bytes, hd, hall]
  · -- What is marked is a multiple of the alignment, and its area ends where the rest begins.
    have hdvd : c.unusedSize ∣ size := dvd_of_align_le (@fits_of_le c _ (le_trans hle hok.size)) (by omega)
    have hsize : align c size = size := align_of_dvd (@fits_of_le c _ (le_trans hle hok.size)) hdvd
    have hrest : align c (b.snips p).size = size + align c ((b.snips p).size - size) := by
      have hsum : size + ((b.snips p).size - size) = (b.snips p).size := Nat.add_sub_cancel' hle
      have := @align_add c size ((b.snips p).size - size) (by rw [hsum]; exact hfit) hdvd
      rwa [hsum] at this
    refine marked_of_parted h hm hpos hle rfl ?_ ?_ ?_ fun q hq => rfl
    · rw [if_pos hall]
      exact ⟨fun h => (nomatch h), fun h => absurd h hall⟩
    · rw [if_pos hall, hsize]
      rw [hrest] at hparted
      have hsplit := Parted.split (hparted.perm (perm_iff_count.mpr fun a => by
        simp only [count_cons]
        omega : List.Perm _ (⟨d, size + align c ((b.snips p).size - size)⟩ :: ⟨m, align c c.snipSize⟩ ::
          ⟨p, align c c.snipSize⟩ :: areas c b others))) hdvd hpos
        (align_pos (@fits_of_le c _ (le_trans (Nat.sub_le _ _) hok.size)) (by omega))
      refine hsplit.perm (perm_iff_count.mpr fun a => ?_)
      rw [Option.toList_some, map_singleton, cons_append, singleton_append]
      simp only [count_cons]
      omega
    · rw [if_pos hall]
      rw [← Memory.slice_add, Nat.add_sub_cancel' hle, bytes, hd]

/-- **Marking** leaves the buffer as it was, or marks. -/
theorem gnrcPktbufMark_cases (h : Sound c room b (p :: others)) :
    gnrcPktbufMark c b (some p) size type = some (none, b) ∨
      ∃ m b', gnrcPktbufMark c b (some p) size type = some (some m, b') ∧ Marked c room b b' p m size type others := by
  have hok := h.snips p mem_cons_self
  have hparted := h.parted
  unfold gnrcPktbufMark
  dsimp only
  cases hd : (b.snips p).data with
  | none => exact .inl rfl
  | some d =>
    dsimp only
    by_cases hbad : size = 0 ∨ size > (b.snips p).size
    · rw [if_pos hbad]
      exact .inl rfl
    rw [if_neg hbad]
    have hpos : 0 < size := by omega
    have hle : size ≤ (b.snips p).size := by omega
    have hfitm := @fits_of_le c size (le_trans hle hok.size)
    rw [areas_cons, snipAreas, hd] at hparted
    cases hm : pktbufAlloc c b c.snipSize with
    | none => exact .inl rfl
    | some r =>
      obtain ⟨m, b1⟩ := r
      obtain ⟨u1, rfl, hparted1⟩ := pktbufAlloc_parted hparted fits_snip c.snip_pos hm
      have hmnew : m ∉ p :: others := by
        refine notMem_of_apart (c := c) (b := b) fun t ht => ?_
        refine (pairwise_cons.mp hparted1.apart).1 t ?_
        rw [areas_cons, snipAreas, hd] at ht
        exact ht
      dsimp only
      by_cases hmove : (b.snips p).size ≠ size ∧ size < align c size
      · rw [if_pos hmove]
        have hrest : 0 < (b.snips p).size - size := by omega
        cases hn : pktbufAlloc c { b with unused := u1 } size with
        | none =>
          -- The descriptor is given back.
          obtain ⟨u, hfree, hback⟩ := @freeInternal_parted c { b with unused := u1 } room _ _ _ hparted1
          rw [hfree, hback.unique hparted]
          exact .inl rfl
        | some r =>
          obtain ⟨newMarked, b2⟩ := r
          obtain ⟨u2, rfl, hparted2⟩ := @pktbufAlloc_parted c _ _ room _ _ _ hparted1 hfitm hpos hn
          dsimp only
          cases hr : pktbufAlloc c { b with unused := u2 } ((b.snips p).size - size) with
          | none =>
            -- The descriptor and the area for the marked bytes are given back.
            obtain ⟨u, hfree, hback⟩ := @freeInternal_parted c { b with unused := u2 } room _ _ _
              (hparted2.perm (List.Perm.swap _ _ _))
            obtain ⟨u', hfree', hback'⟩ := @freeInternal_parted c { b with unused := u } room _ _ _ hback
            rw [hfree]
            dsimp only [Option.bind]
            rw [hfree', hback'.unique hparted]
            exact .inl rfl
          | some r =>
            obtain ⟨newRest, b3⟩ := r
            obtain ⟨u3, rfl, hparted3⟩ := @pktbufAlloc_parted c _ _ room _ _ _ hparted2
              (@fits_of_le c _ (le_trans (Nat.sub_le _ _) hok.size)) hrest hr
            obtain ⟨b', heq, hmarked⟩ := @move_marked c b room others p m size d newMarked type u3 newRest h hd hmnew hpos
              (by omega) hparted3
            exact .inr ⟨m, b', heq, hmarked⟩
      · rw [if_neg hmove]
        exact .inr ⟨m, _, rfl, marked_inPlace h hd hmnew hpos hle hmove hparted1⟩

end Riot.Pktbuf
