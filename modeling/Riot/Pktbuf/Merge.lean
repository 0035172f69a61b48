import Mathlib.Data.List.Flatten
import Riot.Pktbuf.Mark
import Riot.Pktbuf.Realloc

/-!
# Releasing and merging

Releasing a packet takes a user from each of its snips, and the last one's areas are unused then.
Merging reallocates the data of the first snip for the sum of all sizes, copies that of the others
behind it and releases them. Where the others have no data, nothing is reallocated and they stay.
-/

namespace Riot.Pktbuf

open Riot.Lib List Nat

variable {c : Config} {b b' : Buf} {room : Nat → Prop} {live others ps rest : List Nat} {p q size d fuel : Nat}
  {pkt : Option Nat}

/-! ## Releasing -/

theorem Sound.congr (h : Sound c room b live) (hunused : b'.unused = b.unused)
    (hsnips : ∀ q ∈ live, (b'.snips q).data = (b.snips q).data ∧ (b'.snips q).size = (b.snips q).size ∧
      0 < (b'.snips q).users) : Sound c room b' live := by
  have hareas : areas c b' live = areas c b live := by
    refine flatMap_congr fun q hq => ?_
    obtain ⟨hdata, hsize, -⟩ := hsnips q hq
    unfold snipAreas
    rw [hdata, hsize]
  refine ⟨?_, fun q hq => ?_⟩
  · rw [hunused, hareas]
    exact h.parted
  · obtain ⟨hdata, hsize, husers⟩ := hsnips q hq
    have hok := h.snips q hq
    refine ⟨?_, ?_, husers⟩
    · rw [hdata, hsize]
      exact hok.data
    · rw [hsize]
      exact hok.size

theorem release_snip {s : Snip} (h : Sound c room b (p :: others)) :
    ∃ b', ((freeInternal c (setSnip b p s) (b.snips p).data (b.snips p).size).bind fun b =>
        freeInternal c b (some p) c.snipSize) = some b' ∧
      Sound c room b' others ∧ b'.mem = b.mem ∧ b'.snips = (setSnip b p s).snips := by
  have hp := h.notMem
  have hparted := h.parted
  rw [areas_cons, snipAreas] at hparted
  have hothers : ∀ u : List Area, areas c { setSnip b p s with unused := u } others = areas c b others := fun u =>
    areas_congr fun q hq => setSnip_of_ne fun heq => hp (heq ▸ hq)
  have hkeep : ∀ u : List Area, Parted c room u (areas c b others) → Sound c room { setSnip b p s with unused := u } others := by
    refine fun u hu => ⟨?_, fun q hq => ?_⟩
    · rw [hothers]
      exact hu
    · have hsnip : (setSnip b p s).snips q = b.snips q := setSnip_of_ne fun heq => hp (heq ▸ hq)
      rw [hsnip]
      exact h.tail q hq
  cases hd : (b.snips p).data with
  | none =>
    rw [hd] at hparted
    obtain ⟨u, hfree, hback⟩ := @freeInternal_parted c (setSnip b p s) room _ _ _ hparted
    exact ⟨_, hfree, hkeep u hback, rfl, rfl⟩
  | some d =>
    rw [hd] at hparted
    obtain ⟨u, hfree, hback⟩ := @freeInternal_parted c (setSnip b p s) room _ _ _ (hparted.perm (List.Perm.swap _ _ _))
    obtain ⟨u', hfree', hback'⟩ := @freeInternal_parted c { setSnip b p s with unused := u } room _ _ _ hback
    refine ⟨_, ?_, hkeep u' hback', rfl, rfl⟩
    rw [hfree]
    exact hfree'

/-- **What a release leaves**: of the snips of the packet those with other users. -/
structure Released (c : Config) (room : Nat → Prop) (b b' : Buf) (live ps live' : List Nat) : Prop where
  sound : Sound c room b' live'
  live : ∀ q, q ∈ live' ↔ q ∈ live ∧ ¬ (q ∈ ps ∧ (b.snips q).users = 1)
  mem : b'.mem = b.mem
  others : ∀ q, q ∉ ps → b'.snips q = b.snips q
  users : ∀ q ∈ live', q ∈ ps → b'.snips q = { b.snips q with users := (b.snips q).users - 1 }

theorem releaseLoop_released : ∀ {ps : List Nat} {fuel : Nat} {b : Buf} {pkt : Option Nat} {live : List Nat},
    Sound c room b live → Chain b pkt ps → (∀ q ∈ ps, q ∈ live) → ps.length ≤ fuel →
    ∃ b' live', releaseLoop c fuel b pkt = some b' ∧ Released c room b b' live ps live' := by
  intro ps
  induction ps with
  | nil =>
    rintro fuel b pkt live h rfl - -
    refine ⟨b, live, by cases fuel <;> rfl, h, fun q => ?_, rfl, fun q _ => rfl, fun q _ hq => nomatch hq⟩
    rw [and_iff_left]
    exact fun hq => nomatch hq.1
  | cons p ps ih =>
    rintro fuel b pkt live h ⟨rfl, hchain⟩ hsub hfuel
    obtain ⟨fuel, rfl⟩ : ∃ k, fuel = k + 1 := ⟨fuel - 1, by rw [length_cons] at hfuel; omega⟩
    have hnodup := Chain.nodup (show Chain b (some p) (p :: ps) from ⟨rfl, hchain⟩)
    obtain ⟨hnot, -⟩ := nodup_cons.mp hnodup
    have hlive := hsub p mem_cons_self
    have hfirst := h.first hlive
    have hplaced := h.parted.placed _ (desc_mem hlive)
    have hin := hplaced.inside
    have hpos := hplaced.pos
    dsimp only at hin hpos
    have hcontains : contains c p = true := decide_eq_true (by omega)
    have husers := (h.snips p hlive).users
    rw [releaseLoop]
    rw [if_pos ⟨hcontains, husers⟩]
    by_cases hone : (b.snips p).users = 1
    · obtain ⟨b1, hfree, hsound, hmem, hsnips⟩ := release_snip (s := { b.snips p with users := 0 }) hfirst
      have hkeep : ∀ q, q ≠ p → b1.snips q = b.snips q := fun q hq => by
        rw [hsnips]
        exact setSnip_of_ne hq
      have hchain1 : Chain b1 (b.snips p).next ps := hchain.congr fun q hq => hkeep q fun heq => hnot (heq ▸ hq)
      have hmemErase : ∀ q, q ∈ live.erase p ↔ q ∈ live ∧ q ≠ p := fun q => by
        rw [(h.nodup).mem_erase_iff, and_comm]
      obtain ⟨b', live', hloop, hrel⟩ := ih hsound hchain1 (fun q hq => (hmemErase q).mpr
        ⟨hsub q (mem_cons_of_mem _ hq), fun heq => hnot (heq ▸ hq)⟩) (le_of_succ_le_succ hfuel)
      refine ⟨b', live', ?_, hrel.sound, fun q => ?_, hrel.mem.trans hmem, fun q hq => ?_, fun q hq hmem => ?_⟩
      · rw [if_pos hone, ← hloop]
        obtain ⟨b0, hb0, hb1⟩ := Option.bind_eq_some_iff.mp hfree
        rw [hb0]
        dsimp only [Option.bind]
        rw [hb1]
      · rw [hrel.live q, hmemErase q]
        by_cases hqp : q = p
        · subst hqp
          constructor
          · rintro ⟨⟨-, hne⟩, -⟩
            exact absurd rfl hne
          · rintro ⟨-, hno⟩
            exact absurd ⟨mem_cons_self, hone⟩ hno
        · rw [hkeep q hqp, mem_cons, and_iff_left hqp, or_iff_right hqp]
      · rw [mem_cons, not_or] at hq
        rw [hrel.others q hq.2, hkeep q hq.1]
      · have hqp : q ≠ p := fun heq => ((hmemErase q).mp ((hrel.live q).mp hq).1).2 heq
        rw [hrel.users q hq ((mem_cons.mp hmem).resolve_left hqp), hkeep q hqp]
    · have hkeep : ∀ q, q ≠ p → (setSnip b p { b.snips p with users := (b.snips p).users - 1 }).snips q = b.snips q :=
        fun q hq => setSnip_of_ne hq
      have hself : (setSnip b p { b.snips p with users := (b.snips p).users - 1 }).snips p =
          { b.snips p with users := (b.snips p).users - 1 } := setSnip_self
      have hsound : Sound c room (setSnip b p { b.snips p with users := (b.snips p).users - 1 }) live := by
        refine h.congr rfl fun q hq => ?_
        by_cases hqp : q = p
        · subst hqp
          rw [hself]
          exact ⟨rfl, rfl, by dsimp only; omega⟩
        · rw [hkeep q hqp]
          exact ⟨rfl, rfl, (h.snips q hq).users⟩
      have hchain1 := hchain.congr fun q hq => hkeep q fun heq => hnot (heq ▸ hq)
      obtain ⟨b', live', hloop, hrel⟩ := ih hsound hchain1 (fun q hq => hsub q (mem_cons_of_mem _ hq))
        (le_of_succ_le_succ hfuel)
      refine ⟨b', live', ?_, hrel.sound, fun q => ?_, hrel.mem, fun q hq => ?_, fun q hq hmem => ?_⟩
      · rw [if_neg hone]
        exact hloop
      · rw [hrel.live q]
        by_cases hqp : q = p
        · subst hqp
          exact and_congr_right fun _ => not_congr ⟨fun hand => absurd hand.1 hnot, fun hand => absurd hand.2 hone⟩
        · rw [hkeep q hqp, mem_cons, or_iff_right hqp]
      · rw [mem_cons, not_or] at hq
        rw [hrel.others q hq.2, hkeep q hq.1]
      · by_cases hqp : q = p
        · subst hqp
          rw [hrel.others q hnot, hself]
        · rw [hrel.users q hq ((mem_cons.mp hmem).resolve_left hqp), hkeep q hqp]

/-! ## Sizes -/

theorem sum_areas_ge : ∀ {ps : List Nat}, (∀ q ∈ ps, (b.snips q).data = none → (b.snips q).size = 0) →
    (∀ q ∈ ps, (b.snips q).size ≤ c.bufSize) →
    (ps.map fun q => (b.snips q).size + 1).sum ≤ ((areas c b ps).map Area.size).sum := by
  intro ps
  induction ps with
  | nil => exact fun _ _ => le_rfl
  | cons p ps ih =>
    intro hdata hsize
    have hrec := ih (fun q hq => hdata q (mem_cons_of_mem _ hq)) fun q hq => hsize q (mem_cons_of_mem _ hq)
    have hdesc := @align_pos c _ fits_snip c.snip_pos
    have hle := le_align (fits_of_le (hsize p mem_cons_self))
    rw [areas_cons, map_append, sum_append, map_cons, sum_cons, snipAreas]
    cases hd : (b.snips p).data with
    | none =>
      have hzero := hdata p mem_cons_self hd
      rw [hzero, map_singleton, sum_singleton]
      dsimp only
      omega
    | some d =>
      rw [map_cons, map_singleton, sum_cons, sum_singleton]
      dsimp only
      omega

theorem Sound.sum_le (h : Sound c room b live) (hnodup : ps.Nodup) (hsub : ∀ q ∈ ps, q ∈ live) :
    (ps.map fun q => (b.snips q).size + 1).sum ≤ c.bufSize := by
  obtain ⟨l, hperm, hlist⟩ := hnodup.subperm hsub
  have hmem : ∀ q ∈ l, q ∈ live := fun q hq => hlist.subset hq
  have hareas : (areas c b l).Sublist (areas c b live) := hlist.flatMap _
  have hle := @sum_size_le (areas c b l) c.bufSize (h.parted.apart.sublist hareas) fun s hs =>
    (h.parted.placed s (hareas.subset hs)).inside
  have hge := @sum_areas_ge c b l (fun q hq => (h.snips q (hmem q hq)).data.mp) fun q hq => (h.snips q (hmem q hq)).size
  rw [← (hperm.map fun q => (b.snips q).size + 1).sum_nat]
  omega

theorem length_le_sum : ∀ {ps : List Nat}, ps.length + (ps.map fun q => (b.snips q).size).sum =
    (ps.map fun q => (b.snips q).size + 1).sum := by
  intro ps
  induction ps with
  | nil => rfl
  | cons p ps ih =>
    rw [length_cons, map_cons, map_cons, sum_cons, sum_cons, ← ih]
    omega

theorem pktLenLoop_eq : ∀ {ps : List Nat} {fuel len : Nat} {pkt : Option Nat}, Chain b pkt ps → ps.length ≤ fuel →
    len + (ps.map fun q => (b.snips q).size).sum < 2 ^ c.word →
    pktLenLoop c b fuel pkt len = some (len + (ps.map fun q => (b.snips q).size).sum) := by
  intro ps
  induction ps with
  | nil =>
    rintro fuel len pkt rfl - -
    cases fuel <;> rfl
  | cons p ps ih =>
    rintro fuel len pkt ⟨rfl, hchain⟩ hfuel hlt
    obtain ⟨fuel, rfl⟩ : ∃ k, fuel = k + 1 := ⟨fuel - 1, by rw [length_cons] at hfuel; omega⟩
    rw [map_cons, sum_cons] at hlt ⊢
    rw [pktLenLoop, mod_eq_of_lt (by omega), ih hchain (le_of_succ_le_succ hfuel) (by omega), add_assoc]

/-! ## Merging -/

theorem sum_le_of_flatMap (hok : ∀ q ∈ ps, SnipOk c (b.snips q)) :
    (ps.flatMap (bytes b)).length = (ps.map fun q => (b.snips q).size).sum := by
  rw [length_flatMap]
  exact congrArg _ (map_congr_left fun q hq => length_bytes (hok q hq))

theorem mergeLoop_eq : ∀ {ps : List Nat} {fuel : Nat} {b : Buf} {pkt : Option Nat} {offset : Nat},
    Sound c room b (p :: others) → (b.snips p).data = some d → Chain b pkt ps → (∀ q ∈ ps, q ∈ others) →
    ps.length ≤ fuel → offset + (ps.map fun q => (b.snips q).size).sum ≤ (b.snips p).size →
    mergeLoop c d fuel b pkt offset = some { b with mem := b.mem.store (d + offset) (ps.flatMap (bytes b)) } := by
  intro ps
  induction ps with
  | nil =>
    rintro fuel b pkt offset h hd rfl - - -
    rw [flatMap_nil, Memory.store_nil]
    cases fuel <;> rfl
  | cons q ps ih =>
    rintro fuel b pkt offset h hd ⟨rfl, hchain⟩ hsub hfuel hroom
    obtain ⟨fuel, rfl⟩ : ∃ k, fuel = k + 1 := ⟨fuel - 1, by rw [length_cons] at hfuel; omega⟩
    rw [map_cons, sum_cons] at hroom
    have hq := hsub q mem_cons_self
    have hokp := h.snips p mem_cons_self
    have hokq := h.tail q hq
    have hlep := le_align (fits_of_le hokp.size)
    have hleq := le_align (fits_of_le hokq.size)
    have hdata : (⟨d, align c (b.snips p).size⟩ : Area) ∈ areas c b (p :: others) := data_mem mem_cons_self hd
    have hcopy : copyData c b (d + offset) (b.snips q) =
        some { b with mem := b.mem.store (d + offset) (bytes b q) } := by
      unfold bytes copyData
      cases hda : (b.snips q).data with
      | none =>
        rw [Memory.store_nil]
      | some a =>
        exact memcpy_eq h.parted hdata (data_mem (mem_cons_of_mem _ hq) hda) (by dsimp only; omega)
          (by dsimp only; omega) (by dsimp only; omega)
    -- The other snips are not written to.
    have hapart : ∀ t ∈ areas c b others, Area.Apart ⟨d, align c (b.snips p).size⟩ t := by
      intro t ht
      have hall := h.parted.apart
      refine (pairwise_append.mp hall).2.2 _ ?_ t ht
      rw [snipAreas, hd]
      exact mem_cons_of_mem _ (mem_singleton_self _)
    have hbytes : ∀ r ∈ others, bytes { b with mem := b.mem.store (d + offset) (bytes b q) } r = bytes b r :=
      fun r hr => bytes_store hr (h.tail r hr) rfl rfl (by dsimp only; omega)
        (by rw [length_bytes hokq]; dsimp only; omega) hapart
    have hrest : ps.flatMap (bytes { b with mem := b.mem.store (d + offset) (bytes b q) }) = ps.flatMap (bytes b) :=
      flatMap_congr fun r hr => hbytes r (hsub r (mem_cons_of_mem _ hr))
    have hsound : Sound c room { b with mem := b.mem.store (d + offset) (bytes b q) } (p :: others) :=
      ⟨h.parted, h.snips⟩
    rw [mergeLoop, hcopy]
    dsimp only [Option.bind]
    rw [ih hsound hd (hchain.of_snips rfl) (fun r hr => hsub r (mem_cons_of_mem _ hr))
      (le_of_succ_le_succ hfuel) (by dsimp only; omega), hrest, ← add_assoc, flatMap_cons,
      ← Memory.store_append, length_bytes hokq]

/-- What has to come out of merging the snips `rest` into `p`. -/
structure Merged (c : Config) (room : Nat → Prop) (b b' : Buf) (p : Nat) (rest live' : List Nat) : Prop where
  sound : Sound c room b' (p :: live')
  next : (b'.snips p).next = none
  data : bytes b' p = (p :: rest).flatMap (bytes b)

/-- `gnrc_pktbuf_merge` does as it should: it fails and leaves the buffer as it was, or it has merged. -/
def MergeRight (c : Config) (room : Nat → Prop) (b : Buf) (p : Nat) (rest : List Nat) : Prop :=
  gnrcPktbufMerge c b p = some (ENOMEM, b) ∨
    ∃ b' live', gnrcPktbufMerge c b p = some (0, b') ∧ Merged c room b b' p rest live'

theorem gnrcPktLen_eq (h : Sound c room b (p :: others)) (hchain : Chain b (some p) (p :: rest))
    (hsub : ∀ q ∈ rest, q ∈ others) : rest.length + (b.snips p).size + (rest.map fun q => (b.snips q).size).sum < c.bufSize ∧
      gnrcPktLen c b (some p) = some ((b.snips p).size + (rest.map fun q => (b.snips q).size).sum) := by
  have hsum := h.sum_le hchain.nodup fun q hq => (mem_cons.mp hq).elim (fun heq => heq ▸ mem_cons_self)
    fun hq => mem_cons_of_mem _ (hsub q hq)
  rw [← length_le_sum, length_cons, map_cons, sum_cons] at hsum
  have hfit := c.buf_fits
  refine ⟨by omega, ?_⟩
  have heq := @pktLenLoop_eq c b (p :: rest) c.bufSize 0 _ hchain (by rw [length_cons]; omega)
    (by rw [map_cons, sum_cons]; omega)
  rw [map_cons, sum_cons, zero_add] at heq
  exact heq

theorem merged_of_reallocated {b1 : Buf} (h : Sound c room b (p :: others)) (hchain : Chain b (some p) (p :: rest))
    (hsub : ∀ q ∈ rest, q ∈ others) (hmore : (rest.map fun q => (b.snips q).size).sum ≠ 0)
    (hre : Reallocated c room b b1 p ((b.snips p).size + (rest.map fun q => (b.snips q).size).sum) others) :
    ∃ b' live', ((b1.snips p).data.bind fun data =>
        (mergeLoop c data c.bufSize b1 (b1.snips p).next (b.snips p).size).bind fun b =>
        (gnrcPktbufRelease c b (b.snips p).next).map fun b =>
          ((0 : Int), setSnip b p { b.snips p with next := none })) = some (0, b') ∧
      Merged c room b b' p rest live' := by
  obtain ⟨hlen, -⟩ := gnrcPktLen_eq h hchain hsub
  have hokp := hre.sound.snips p mem_cons_self
  have hself := hre.self
  have hsize : (b1.snips p).size = (b.snips p).size + (rest.map fun q => (b.snips q).size).sum := by
    rw [hself]
  have hnext : (b1.snips p).next = (b.snips p).next := by
    rw [hself]
  obtain ⟨d, hd⟩ : ∃ d, (b1.snips p).data = some d := by
    refine Option.ne_none_iff_exists'.mp fun hnone => ?_
    have := hokp.data.mp hnone
    omega
  have hp : p ∉ rest := (nodup_cons.mp hchain.nodup).1
  have hsnips : ∀ q ∈ rest, b1.snips q = b.snips q := fun q hq => (hre.others q (hsub q hq)).1
  have hchain1 : Chain b1 (b1.snips p).next rest := by
    rw [hnext]
    exact hchain.2.congr hsnips
  have hsizes : (rest.map fun q => (b1.snips q).size) = rest.map fun q => (b.snips q).size :=
    map_congr_left fun q hq => by rw [hsnips q hq]
  have hbytes : rest.flatMap (bytes b1) = rest.flatMap (bytes b) :=
    flatMap_congr fun q hq => (hre.others q (hsub q hq)).2
  have hloop := @mergeLoop_eq c room others p d rest c.bufSize b1 _ (b.snips p).size hre.sound hd hchain1 hsub (by omega)
    (Nat.le_of_eq (by rw [hsizes, hsize]))
  rw [hbytes] at hloop
  -- The others are released from a buffer with the same snips.
  have hsound : Sound c room { b1 with mem := b1.mem.store (d + (b.snips p).size) (rest.flatMap (bytes b)) }
    (p :: others) := ⟨hre.sound.parted, hre.sound.snips⟩
  have hchain2 : Chain { b1 with mem := b1.mem.store (d + (b.snips p).size) (rest.flatMap (bytes b)) }
    (b1.snips p).next rest := hchain1.of_snips rfl
  obtain ⟨b2, live', hrelease, hrel⟩ := @releaseLoop_released c room rest c.bufSize _ _ _ hsound hchain2 (fun q hq => mem_cons_of_mem _ (hsub q hq)) (by omega)
  have hplive : p ∈ live' := (hrel.live p).mpr ⟨mem_cons_self, fun hand => hp hand.1⟩
  have hpsnip : b2.snips p = b1.snips p := hrel.others p hp
  have hsound2 := hrel.sound.first hplive
  refine ⟨setSnip b2 p { b2.snips p with next := none }, live'.erase p, ?_, ?_, ?_, ?_⟩
  · rw [hd]
    dsimp only [Option.bind]
    rw [hloop]
    dsimp only
    rw [gnrcPktbufRelease, hrelease]
    rfl
  · refine hsound2.congr rfl fun q hq => ?_
    by_cases hqp : q = p
    · subst hqp
      rw [setSnip_self]
      exact ⟨rfl, rfl, (hsound2.snips q hq).users⟩
    · rw [setSnip_of_ne hqp]
      exact ⟨rfl, rfl, (hsound2.snips q hq).users⟩
  · rw [setSnip_self]
  · have hold : (b1.mem.store (d + (b.snips p).size) (rest.flatMap (bytes b))).slice d (b.snips p).size = bytes b p := by
      have hfirst : b1.mem.slice d (b.snips p).size = bytes b p := by
        have hdata := hre.data
        have hbytes1 : bytes b1 p = b1.mem.slice d ((b.snips p).size + (rest.map fun q => (b.snips q).size).sum) := by
          rw [bytes, hd]
          rw [hsize]
        rw [Nat.min_eq_left (Nat.le_add_right _ _), hbytes1, Memory.slice_add, take_left' Memory.length_slice,
          take_of_length_le (Nat.le_of_eq (length_bytes (h.snips p mem_cons_self)))] at hdata
        exact hdata
      rw [Memory.slice_store_of_disjoint (.inl le_rfl), hfirst]
    have hnew : (b1.mem.store (d + (b.snips p).size) (rest.flatMap (bytes b))).slice (d + (b.snips p).size)
        ((rest.map fun q => (b.snips q).size).sum) = rest.flatMap (bytes b) := by
      have := (@Memory.holds_store _ b1.mem (d + (b.snips p).size) (rest.flatMap (bytes b))).slice_eq
      rwa [sum_le_of_flatMap fun q hq => h.tail q (hsub q hq)] at this
    have hbytes2 : bytes (setSnip b2 p { b2.snips p with next := none }) p =
        b2.mem.slice d ((b.snips p).size + (rest.map fun q => (b.snips q).size).sum) := by
      rw [bytes, setSnip_self, hpsnip, hd]
      rw [hsize]
      rfl
    rw [hbytes2, hrel.mem, Memory.slice_add]
    rw [hold, hnew]
    rfl

/-- **Merging is right** if, and only if, there is nothing to merge or another snip has data. -/
theorem merge_right_iff (h : Sound c room b (p :: others)) (hchain : Chain b (some p) (p :: rest))
    (hsub : ∀ q ∈ rest, q ∈ others) : MergeRight c room b p rest ↔ rest = [] ∨ ∃ q ∈ rest, (b.snips q).size ≠ 0 := by
  obtain ⟨hlen, heq⟩ := gnrcPktLen_eq h hchain hsub
  have hsum : (rest.map fun q => (b.snips q).size).sum = 0 ↔ ∀ q ∈ rest, (b.snips q).size = 0 := by
    rw [List.sum_eq_zero_iff_forall_eq_nat]
    exact ⟨fun hall q hq => hall _ (mem_map_of_mem hq), fun hall n hn => by
      obtain ⟨q, hq, rfl⟩ := mem_map.mp hn
      exact hall q hq⟩
  by_cases hzero : (rest.map fun q => (b.snips q).size).sum = 0
  · -- Nothing is done.
    have hsame : gnrcPktbufMerge c b p = some (0, b) := by
      unfold gnrcPktbufMerge
      rw [heq, hzero, add_zero]
      exact if_pos rfl
    constructor
    · rintro (hfail | ⟨b', live', hok, hmerged⟩)
      · exact absurd (Prod.mk.inj (Option.some.inj (hsame.symm.trans hfail))).1 (by decide)
      · obtain rfl := (Prod.mk.inj (Option.some.inj (hsame.symm.trans hok))).2
        left
        have hnext := hchain.2
        rw [hmerged.next] at hnext
        cases rest with
        | nil => rfl
        | cons q rest => exact nomatch hnext.1
    · rintro (rfl | ⟨q, hq, hne⟩)
      · refine .inr ⟨b, others, hsame, h, hchain.2, ?_⟩
        rw [flatMap_singleton]
      · exact absurd (hsum.mp hzero q hq) hne
  · constructor
    · intro _
      right
      refine Classical.byContradiction fun hnone => hzero (hsum.mpr fun q hq => ?_)
      exact Classical.byContradiction fun hne => hnone ⟨q, hq, hne⟩
    · intro _
      have hright : ReallocRight c room b p ((b.snips p).size + (rest.map fun q => (b.snips q).size).sum) others :=
        realloc_right h (.inr (.inl (fits_of_le (by omega))))
      unfold MergeRight gnrcPktbufMerge
      rw [heq]
      dsimp only [Option.bind]
      rw [if_neg (by omega)]
      rcases hright with hfail | ⟨b1, hok, hre⟩
      · rw [hfail]
        exact .inl rfl
      · rw [hok]
        dsimp only
        rw [if_neg (by decide)]
        obtain ⟨b', live', heq', hmerged⟩ := merged_of_reallocated h hchain hsub hzero hre
        exact .inr ⟨b', live', heq', hmerged⟩

end Riot.Pktbuf
