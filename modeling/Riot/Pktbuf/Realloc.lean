import Riot.Pktbuf.Packet

/-!
# Reallocation

`gnrc_pktbuf_realloc_data` gives the end of the data back, or moves what there is into a greater area.
A size that runs over in `_align` is allocated as nothing: at the first unused section, which stays
unused.
-/

namespace Riot.Pktbuf

open Riot.Lib List

variable {c : Config} {b b1 b' : Buf} {room : Nat → Prop} {live others : List Nat} {p q size d : Nat} {data : Option Nat}

/-- What has to come out of reallocation: `p` has `size` bytes, the first of them as before. -/
structure Reallocated (c : Config) (room : Nat → Prop) (b b' : Buf) (p size : Nat) (others : List Nat) : Prop where
  sound : Sound c room b' (p :: others)
  self : b'.snips p = { b.snips p with data := (b'.snips p).data, size := size }
  data : (bytes b' p).take (min (b.snips p).size size) = (bytes b p).take (min (b.snips p).size size)
  others : ∀ q ∈ others, b'.snips q = b.snips q ∧ bytes b' q = bytes b q

/-- `gnrc_pktbuf_realloc_data` does as it should: it fails and leaves the buffer as it was, or it has
reallocated. -/
def ReallocRight (c : Config) (room : Nat → Prop) (b : Buf) (p size : Nat) (others : List Nat) : Prop :=
  gnrcPktbufReallocData c b p size = some (ENOMEM, b) ∨
    ∃ b', gnrcPktbufReallocData c b p size = some (0, b') ∧ Reallocated c room b b' p size others

theorem setSnip_self {s : Snip} : (setSnip b p s).snips p = s := Function.update_self _ _ _

theorem setSnip_of_ne {s : Snip} (h : q ≠ p) : (setSnip b p s).snips q = b.snips q := Function.update_of_ne h _ _

theorem reallocated_of_parted (h : Sound c room b (p :: others)) (hsnips : b1.snips = b.snips)
    (hdata : data = none ↔ size = 0) (hsize : size ≤ c.bufSize)
    (hparted : Parted c room b1.unused (⟨p, align c c.snipSize⟩ :: (data.toList.map fun d => ⟨d, align c size⟩) ++
      areas c b others))
    (hbytes : ∀ d, data = some d → (b1.mem.slice d size).take (min (b.snips p).size size) =
      (bytes b p).take (min (b.snips p).size size))
    (hothers : ∀ q ∈ others, bytes b1 q = bytes b q) :
    Reallocated c room b (setSnip b1 p { b.snips p with data := data, size := size }) p size others := by
  have hp := h.notMem
  have hkeep : ∀ q ∈ others, (setSnip b1 p { b.snips p with data := data, size := size }).snips q = b1.snips q :=
    fun q hq => setSnip_of_ne fun heq => hp (heq ▸ hq)
  refine ⟨⟨?_, fun q hq => ?_⟩, ?_, ?_, fun q hq => ⟨?_, ?_⟩⟩
  · have hareas : areas c (setSnip b1 p { b.snips p with data := data, size := size }) others = areas c b others :=
      areas_congr fun q hq => by rw [hkeep q hq, hsnips]
    rw [areas_cons, hareas, snipAreas, setSnip_self]
    cases data <;> exact hparted
  · rcases mem_cons.mp hq with rfl | hq
    · rw [setSnip_self]
      exact ⟨hdata, hsize, (h.snips q mem_cons_self).users⟩
    · rw [hkeep q hq, hsnips]
      exact h.tail q hq
  · rw [setSnip_self]
  · unfold bytes
    rw [setSnip_self]
    cases data with
    | none =>
      have hzero := hdata.mp rfl
      rw [hzero, Nat.min_zero, take_zero, take_zero]
    | some d => exact hbytes d rfl
  · rw [hkeep q hq, hsnips]
  · rw [← hothers q hq]
    exact bytes_congr (hkeep q hq) fun _ _ _ _ _ => rfl

theorem realloc_assertion (h : Sound c room b (p :: others)) : hasData c (b.snips p) = true := by
  have hok := h.snips p mem_cons_self
  unfold hasData
  cases hd : (b.snips p).data with
  | none => exact beq_iff_eq.mpr (hok.data.mp hd)
  | some d =>
    have hsize : (b.snips p).size ≠ 0 := fun h0 => nomatch hd.symm.trans (hok.data.mpr h0)
    have hin := (h.parted.placed _ (data_mem mem_cons_self hd)).inside
    have hpos := (h.parted.placed _ (data_mem mem_cons_self hd)).pos
    dsimp only at hin hpos
    rw [Bool.and_eq_true, decide_eq_true_iff, contains, decide_eq_true_iff]
    omega

variable {u : List Area} {newData : Nat}

theorem take_bytes (h : SnipOk c (b.snips p)) (hle : (b.snips p).size ≤ size) :
    (bytes b p).take (min (b.snips p).size size) = bytes b p := by
  rw [min_eq_left hle, take_of_length_le (le_of_eq (length_bytes h))]

theorem realloc_fresh (h : Sound c room b (p :: others)) (hd : (b.snips p).data = none) (hpos : 0 < size)
    (hsize : size ≤ c.bufSize)
    (hparted : Parted c room u (⟨newData, align c size⟩ :: ⟨p, align c c.snipSize⟩ :: areas c b others)) :
    Reallocated c room b (setSnip { b with unused := u } p { b.snips p with data := some newData, size := size }) p size
      others := by
  have hzero := (h.snips p mem_cons_self).data.mp hd
  refine reallocated_of_parted h rfl ⟨fun h => (nomatch h), fun h => absurd h (by omega)⟩ hsize
    (hparted.perm (List.Perm.swap _ _ _)) (fun d _ => ?_) fun q hq => rfl
  rw [hzero, Nat.zero_min, take_zero, take_zero]

theorem realloc_moved (h : Sound c room b (p :: others)) (hd : (b.snips p).data = some d)
    (hlt : (b.snips p).size < size) (hsize : size ≤ c.bufSize)
    (hparted : Parted c room u (⟨newData, align c size⟩ :: ⟨p, align c c.snipSize⟩ ::
      ⟨d, align c (b.snips p).size⟩ :: areas c b others)) :
    ∃ b', ((copyData c { b with unused := u } newData (b.snips p)).bind fun b1 =>
        (freeInternal c b1 (some d) (b.snips p).size).map fun b1 =>
          ((0 : Int), setSnip b1 p { b.snips p with data := some newData, size := size })) = some (0, b') ∧
      Reallocated c room b b' p size others := by
  have hok := h.snips p mem_cons_self
  have hnew : size ≤ align c size := le_align (fits_of_le hsize)
  have hold : (b.snips p).size ≤ align c (b.snips p).size := le_align (fits_of_le hok.size)
  have hcopy := @memcpy_eq c { b with unused := u } room _ ⟨newData, align c size⟩ ⟨d, align c (b.snips p).size⟩ newData
    (b.snips p).size d hparted mem_cons_self
    (mem_cons_of_mem _ (mem_cons_of_mem _ mem_cons_self)) le_rfl (by dsimp only; omega)
    (by dsimp only; omega)
  obtain ⟨u', hfree, hback⟩ := @freeInternal_parted c
    { b with unused := u, mem := b.mem.store newData (b.mem.slice d (b.snips p).size) } room
    (⟨newData, align c size⟩ :: ⟨p, align c c.snipSize⟩ :: areas c b others) d (b.snips p).size
    (hparted.perm (perm_iff_count.mpr fun a => by
      simp only [count_cons]
      omega))
  refine ⟨_, ?_, @reallocated_of_parted c b
    { b with unused := u', mem := b.mem.store newData (b.mem.slice d (b.snips p).size) } room others p size (some newData) h rfl
    ⟨fun h => (nomatch h), fun h => absurd h (by omega)⟩ hsize (hback.perm (List.Perm.swap _ _ _)) (fun a ha => ?_)
    fun q hq => ?_⟩
  · rw [copyData, hd]
    dsimp only
    rw [hcopy]
    dsimp only [Option.bind]
    rw [hfree]
    rfl
  · cases ha
    have hslice : (b.mem.store newData (b.mem.slice d (b.snips p).size)).slice newData (b.snips p).size =
        b.mem.slice d (b.snips p).size := by
      have := (@Memory.holds_store _ b.mem newData (b.mem.slice d (b.snips p).size)).slice_eq
      rwa [Memory.length_slice] at this
    have hbytes : bytes b p = b.mem.slice d (b.snips p).size := by
      rw [bytes, hd]
    have hall : (b.snips p).size + (size - (b.snips p).size) = size := Nat.add_sub_cancel' (le_of_lt hlt)
    have hsplit := @Memory.slice_add _ (b.mem.store newData (b.mem.slice d (b.snips p).size)) newData (b.snips p).size
      (size - (b.snips p).size)
    rw [hall, hslice] at hsplit
    rw [take_bytes hok (le_of_lt hlt), min_eq_left (le_of_lt hlt), hbytes]
    rw [hsplit, take_left' Memory.length_slice]
  · exact bytes_store hq (h.tail q hq) rfl rfl le_rfl (by rw [Memory.length_slice]; dsimp only; omega)
      fun t ht => (pairwise_cons.mp hparted.apart).1 t
        (mem_cons_of_mem _ (mem_cons_of_mem _ ht))

theorem realloc_shrunk (h : Sound c room b (p :: others)) (hd : (b.snips p).data = some d) (hpos : 0 < size)
    (hlt : size < (b.snips p).size)
    (hparted : Parted c room u (⟨p, align c c.snipSize⟩ :: ⟨d, align c size⟩ :: areas c b others)) :
    Reallocated c room b (setSnip { b with unused := u } p { b.snips p with size := size }) p size others := by
  have hok := h.snips p mem_cons_self
  have hself : { b.snips p with size := size } = { b.snips p with data := some d, size := size } := by
    rw [← hd]
  rw [hself]
  refine reallocated_of_parted h rfl ⟨fun h => (nomatch h), fun h => absurd h (by omega)⟩
    (le_trans (le_of_lt hlt) hok.size) hparted (fun a ha => ?_) fun q hq => rfl
  cases ha
  have hall : size + ((b.snips p).size - size) = (b.snips p).size := Nat.add_sub_cancel' (le_of_lt hlt)
  have hsplit := @Memory.slice_add _ b.mem d size ((b.snips p).size - size)
  rw [hall] at hsplit
  rw [min_eq_right (le_of_lt hlt), bytes, hd]
  dsimp only
  rw [hsplit, take_left' Memory.length_slice, take_of_length_le (le_of_eq Memory.length_slice)]

theorem realloc_cut (h : Sound c room b (p :: others)) (hd : (b.snips p).data = some d) (hpos : 0 < size)
    (hlt : size < (b.snips p).size) (hcut : align c (b.snips p).size > align c size) :
    ∃ b', (freeInternal c b ((b.snips p).data.map (· + align c size)) ((b.snips p).size - align c size)).map (fun b1 =>
        ((0 : Int), setSnip b1 p { b.snips p with size := size })) = some (0, b') ∧
      Reallocated c room b b' p size others := by
  have hok := h.snips p mem_cons_self
  have hfit := @fits_of_le c _ hok.size
  have hfits := @fits_of_le c size (le_trans (le_of_lt hlt) hok.size)
  have hparted := h.parted
  rw [areas_cons, snipAreas, hd] at hparted
  rw [cons_append, cons_append, nil_append] at hparted
  have hmore := add_le_of_dvd_of_lt (@dvd_align c size) (@dvd_align c (b.snips p).size) hcut
  have hend := align_lt hfit
  have hsum : align c size + ((b.snips p).size - align c size) = (b.snips p).size := by omega
  have hadd := @align_add c (align c size) ((b.snips p).size - align c size) (by rw [hsum]; exact hfit) dvd_align
  rw [hsum] at hadd
  rw [hadd] at hparted
  have hrest := align_pos (@fits_of_le c ((b.snips p).size - align c size) (le_trans (Nat.sub_le _ _) hok.size))
    (by omega)
  have hsplit := Parted.split (hparted.perm (List.Perm.swap _ _ _)) dvd_align (align_pos hfits hpos) hrest
  obtain ⟨u', hfree, hback⟩ := @freeInternal_parted c b room (⟨p, align c c.snipSize⟩ :: ⟨d, align c size⟩ :: areas c b others)
    (d + align c size) ((b.snips p).size - align c size) (hsplit.perm (perm_iff_count.mpr fun a => by
      simp only [count_cons]
      omega))
  have hend : (b.snips p).data.map (· + align c size) = some (d + align c size) := by
    rw [hd]
    rfl
  refine ⟨_, ?_, realloc_shrunk h hd hpos hlt hback⟩
  rw [hend, hfree]
  rfl

/-- **Reallocation is right** unless a size that is greater than before runs over in `_align`. -/
theorem realloc_right (h : Sound c room b (p :: others))
    (hsize : size ≤ (b.snips p).size ∨ c.Fits size ∨ b.unused = []) : ReallocRight c room b p size others := by
  have hok := h.snips p mem_cons_self
  have hassert := realloc_assertion h
  unfold ReallocRight gnrcPktbufReallocData
  dsimp only
  rw [hassert, Bool.not_true, if_neg Bool.false_ne_true]
  by_cases hsame : size = (b.snips p).size
  · rw [if_pos hsame]
    exact .inr ⟨b, rfl, h, by rw [hsame], rfl, fun q _ => ⟨rfl, rfl⟩⟩
  rw [if_neg hsame]
  have hparted := h.parted
  rw [areas_cons, snipAreas] at hparted
  by_cases hnothing : size = 0 ∧ (b.snips p).data ≠ none
  · rw [if_pos hnothing]
    obtain ⟨hzero, hsome⟩ := hnothing
    obtain ⟨d, hd⟩ := Option.ne_none_iff_exists'.mp hsome
    rw [hd] at hparted
    obtain ⟨u', hfree, hback⟩ := freeInternal_parted (hparted.perm (List.Perm.swap _ _ _))
    rw [hd, hfree]
    refine .inr ⟨_, rfl, reallocated_of_parted h rfl ⟨fun _ => hzero, fun _ => rfl⟩ (by omega) hback
      (fun a ha => nomatch ha) fun q hq => rfl⟩
  rw [if_neg hnothing]
  by_cases hgrow : size > (b.snips p).size
  · rw [if_pos hgrow]
    cases ha : pktbufAlloc c b size with
    | none => exact .inl rfl
    | some r =>
      obtain ⟨newData, b1⟩ := r
      have hfit : c.Fits size := by
        rcases hsize with hle | hfit | hnil
        · omega
        · exact hfit
        · rw [pktbufAlloc, hnil] at ha
          cases ha
      obtain ⟨u', rfl, hparted'⟩ := pktbufAlloc_parted hparted hfit (lt_of_le_of_lt (Nat.zero_le _) hgrow) ha
      have hin := (hparted'.placed _ mem_cons_self).inside
      have hle := le_align hfit
      dsimp only at hin
      refine .inr ?_
      cases hd : (b.snips p).data with
      | none =>
        rw [hd] at hparted'
        dsimp only
        rw [copyData, hd]
        exact ⟨_, rfl, realloc_fresh h hd (by omega) (by omega) hparted'⟩
      | some d =>
        rw [hd] at hparted'
        exact realloc_moved h hd hgrow (by omega) hparted'
  rw [if_neg hgrow]
  have hlt : size < (b.snips p).size := by omega
  obtain ⟨d, hd⟩ : ∃ d, (b.snips p).data = some d := by
    refine Option.ne_none_iff_exists'.mp fun hnone => ?_
    have := hok.data.mp hnone
    omega
  have hpos : 0 < size := Nat.pos_of_ne_zero fun hzero => hnothing ⟨hzero, by rw [hd]; exact Option.some_ne_none _⟩
  refine .inr ?_
  by_cases hcut : align c (b.snips p).size > align c size
  · rw [if_pos hcut]
    exact realloc_cut h hd hpos hlt hcut
  · rw [if_neg hcut]
    have heq : align c size = align c (b.snips p).size :=
      le_antisymm (align_mono (fits_of_le hok.size) (le_of_lt hlt)) (by omega)
    rw [hd] at hparted
    refine ⟨_, rfl, realloc_shrunk h hd hpos hlt ?_⟩
    rw [heq]
    exact hparted

/-- **A size that runs over** is never right, but for a buffer that is full. -/
theorem not_realloc_right (h : Sound c room b (p :: others)) (hword : size < 2 ^ c.word) (hgrow : (b.snips p).size < size)
    (hfit : ¬ c.Fits size) (hunused : b.unused ≠ []) : ¬ ReallocRight c room b p size others := by
  have hbig : c.bufSize < size := by
    have := c.buf_fits
    unfold Config.Fits at hfit
    omega
  rintro (hfail | ⟨b', -, hb'⟩)
  · -- The first unused section is found to be large enough.
    obtain ⟨ptr, next, hfirst⟩ := exists_cons_of_ne_nil hunused
    have hptr := h.parted.tidy.placed ptr (by rw [hfirst]; exact mem_cons_self)
    have hu := Nat.le_of_dvd hptr.pos hptr.size
    have hin := hptr.inside
    have halloc : ∃ r, pktbufAlloc c b size = some r := by
      refine ⟨(ptr.addr, { b with unused := ⟨ptr.addr + 0, ptr.size - 0⟩ :: next }), ?_⟩
      rw [pktbufAlloc, align_of_not_fits hword hfit, hfirst, allocFrom, if_neg (by omega), if_neg (by omega),
        if_neg (by omega)]
      rfl
    obtain ⟨⟨newData, b1⟩, halloc⟩ := halloc
    have hassert := realloc_assertion h
    unfold gnrcPktbufReallocData at hfail
    dsimp only at hfail
    rw [hassert, Bool.not_true, if_neg Bool.false_ne_true, if_neg (by omega), if_neg (by omega), if_pos hgrow, halloc] at hfail
    obtain ⟨b2, -, hfail⟩ := Option.bind_eq_some_iff.mp hfail
    obtain ⟨b3, -, heq⟩ := Option.map_eq_some_iff.mp hfail
    exact absurd (Prod.mk.inj heq).1 (by decide)
  · have hok := (hb'.sound.snips p mem_cons_self).size
    rw [hb'.self] at hok
    exact absurd hok (by dsimp only; omega)

end Riot.Pktbuf
