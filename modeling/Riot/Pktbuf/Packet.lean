import Riot.Pktbuf.Unused

/-!
# Packets in the buffer

The cells of the buffer are *parted* into the unused sections and the areas in use; allocation and
freeing carry an area from one side to the other. Which sections are unused follows from the areas in
use, so that an operation that gives back what it took leaves the buffer as it was.

The areas in use are those of the live snips: a descriptor, and data if it has any. A packet is a
chain of live snips; other snips may be live too, and packets may have snips in common.
-/

namespace Riot.Pktbuf

open Riot.Lib List

variable {c : Config} {b b' : Buf} {room : Nat → Prop} {unused unused' L L' : List Area} {s t : Area}
  {live others ps : List Nat} {p q a d n size : Nat}

/-! ## Sections and areas in use -/

/-- The cells of `room` are those of the unused sections and those of the areas in use. -/
structure Parted (c : Config) (room : Nat → Prop) (unused L : List Area) : Prop where
  tidy : Tidy c unused
  placed : ∀ s ∈ L, Placed c s
  apart : L.Pairwise Area.Apart
  free : ∀ s ∈ L, ∀ x, s.Has x → ¬ Covers unused x
  room : ∀ x, Covers unused x ∨ Covers L x ↔ room x

theorem covers_perm (h : L.Perm L') {x : Nat} : Covers L x ↔ Covers L' x :=
  ⟨fun ⟨s, hs, hx⟩ => ⟨s, h.mem_iff.mp hs, hx⟩, fun ⟨s, hs, hx⟩ => ⟨s, h.mem_iff.mpr hs, hx⟩⟩

theorem Parted.perm (h : Parted c room unused L) (hp : L.Perm L') : Parted c room unused L' := by
  refine ⟨h.tidy, fun s hs => h.placed s (hp.mem_iff.mpr hs), (hp.pairwise_iff Area.Apart.symm).mp h.apart,
    fun s hs => h.free s (hp.mem_iff.mpr hs), fun x => ?_⟩
  rw [← covers_perm hp]
  exact h.room x

theorem Parted.unique (h : Parted c room unused L) (h' : Parted c room unused' L) : unused = unused' := by
  have hsub : ∀ {u v : List Area}, Parted c room u L → Parted c room v L → ∀ x, Covers u x → Covers v x := by
    intro u v hu hv x hx
    rcases (hv.room x).mpr ((hu.room x).mp (.inl hx)) with hcov | ⟨s, hs, hin⟩
    · exact hcov
    · exact absurd hx (hu.free s hs x hin)
  exact h.tidy.ascending.ext h'.tidy.ascending fun x => ⟨hsub h h' x, hsub h' h x⟩

theorem Parted.taken (h : Parted c room unused L) (ht : Taken c unused s unused') : Parted c room unused' (s :: L) := by
  refine ⟨ht.tidy, fun t hmem => ?_, pairwise_cons.mpr ⟨fun t hmem => ?_, h.apart⟩, fun t hmem x hx hc => ?_,
    fun x => ?_⟩
  · rcases mem_cons.mp hmem with rfl | hmem
    · exact ht.placed
    · exact h.placed t hmem
  · exact Area.apart_of_disjoint (fun x hx hxt => h.free t hmem x hxt (ht.covered x hx)) ht.placed.pos
      (h.placed t hmem).pos
  · rcases mem_cons.mp hmem with rfl | hmem
    · exact ht.free x hx hc
    · exact h.free t hmem x hx ((ht.covers x).mp hc).1
  · rw [← h.room x, ht.covers x, covers_cons]
    constructor
    · rintro (⟨hx, -⟩ | hx | hx)
      · exact .inl hx
      · exact .inl (ht.covered x hx)
      · exact .inr hx
    · rintro (hx | hx)
      · by_cases hs : s.Has x
        · exact .inr (.inl hs)
        · exact .inl ⟨hx, hs⟩
      · exact .inr (.inr hx)

theorem Parted.linked (h : Parted c room unused (s :: L)) (hl : Linked c unused s unused') :
    Parted c room unused' L := by
  obtain ⟨hapart, hrest⟩ := pairwise_cons.mp h.apart
  refine ⟨hl.tidy, fun t hmem => h.placed t (mem_cons_of_mem _ hmem), hrest, fun t hmem x hx hc => ?_, fun x => ?_⟩
  · rcases (hl.covers x).mp hc with hc | hc
    · exact h.free t (mem_cons_of_mem _ hmem) x hx hc
    · exact (hapart t hmem).not_has hc hx
  · rw [← h.room x, hl.covers x, covers_cons, or_assoc]

theorem pktbufAlloc_parted (h : Parted c room b.unused L) (hfit : c.Fits size) (hpos : 0 < size)
    (ha : pktbufAlloc c b size = some (a, b')) :
    ∃ left, b' = { b with unused := left } ∧ Parted c room left (⟨a, align c size⟩ :: L) := by
  obtain ⟨left, rfl, ht⟩ := pktbufAlloc_taken h.tidy hfit hpos ha
  exact ⟨left, rfl, h.taken ht⟩

theorem freeInternal_parted (h : Parted c room b.unused (⟨d, align c size⟩ :: L)) :
    ∃ left, freeInternal c b (some d) size = some { b with unused := left } ∧ Parted c room left L := by
  obtain ⟨left, heq, hl⟩ := freeInternal_linked h.tidy (h.placed _ mem_cons_self) (h.free _ mem_cons_self)
  exact ⟨left, heq, h.linked hl⟩

theorem Parted.split {k : Nat} (h : Parted c room unused (⟨a, n + k⟩ :: L)) (hn : c.unusedSize ∣ n) (hpos : 0 < n)
    (hk : 0 < k) : Parted c room unused (⟨a, n⟩ :: ⟨a + n, k⟩ :: L) := by
  obtain ⟨hapart, hrest⟩ := pairwise_cons.mp h.apart
  have hplaced := h.placed _ mem_cons_self
  have hsize := hplaced.size
  have hin := hplaced.inside
  dsimp only at hsize hin
  have hfirst : ∀ x, Area.Has ⟨a, n⟩ x → Area.Has ⟨a, n + k⟩ x := fun x hx => ⟨hx.1, by
    have := hx.2
    dsimp only at this ⊢
    omega⟩
  have hsecond : ∀ x, Area.Has ⟨a + n, k⟩ x → Area.Has ⟨a, n + k⟩ x := fun x hx => by
    unfold Area.Has at *
    dsimp only at *
    omega
  refine ⟨h.tidy, fun t hmem => ?_, pairwise_cons.mpr ⟨fun t hmem => ?_, pairwise_cons.mpr ⟨fun t hmem => ?_, hrest⟩⟩,
    fun t hmem x hx => ?_, fun x => ?_⟩
  · rcases mem_cons.mp hmem with rfl | hmem
    · exact ⟨hplaced.addr, hn, hpos, by dsimp only; omega⟩
    · rcases mem_cons.mp hmem with rfl | hmem
      · exact ⟨Nat.dvd_add hplaced.addr hn, (Nat.dvd_add_right hn).mp hsize, hk, by dsimp only; omega⟩
      · exact h.placed t (mem_cons_of_mem _ hmem)
  · rcases mem_cons.mp hmem with rfl | hmem
    · exact .inl (Nat.le_refl _)
    · exact Area.apart_of_disjoint (fun x hx => (hapart t hmem).not_has (hfirst x hx)) hpos
        (h.placed t (mem_cons_of_mem _ hmem)).pos
  · exact Area.apart_of_disjoint (fun x hx => (hapart t hmem).not_has (hsecond x hx)) hk
      (h.placed t (mem_cons_of_mem _ hmem)).pos
  · rcases mem_cons.mp hmem with rfl | hmem
    · exact h.free _ mem_cons_self x (hfirst x hx)
    · rcases mem_cons.mp hmem with rfl | hmem
      · exact h.free _ mem_cons_self x (hsecond x hx)
      · exact h.free t (mem_cons_of_mem _ hmem) x hx
  · rw [← h.room x, covers_cons, covers_cons, covers_cons, ← or_assoc (a := Area.Has ⟨a, n⟩ x)]
    refine or_congr_right (or_congr_left ⟨fun hx => ?_, fun hx => ?_⟩)
    · exact hx.elim (hfirst x) (hsecond x)
    · unfold Area.Has at *
      dsimp only at *
      omega

/-! ## Live snips -/

/-- The areas that a snip takes. -/
def snipAreas (c : Config) (b : Buf) (p : Nat) : List Area :=
  ⟨p, align c c.snipSize⟩ ::
    match (b.snips p).data with
    | none => []
    | some d => [⟨d, align c (b.snips p).size⟩]

def areas (c : Config) (b : Buf) (live : List Nat) : List Area := live.flatMap (snipAreas c b)

/-- A descriptor has data if its size says so, and a user. -/
structure SnipOk (c : Config) (s : Snip) : Prop where
  data : s.data = none ↔ s.size = 0
  size : s.size ≤ c.bufSize
  users : 0 < s.users

/-- **The packet buffer as it should be**, with the live snips: they and the unused sections take the
cells of `room`, each for itself. -/
structure Sound (c : Config) (room : Nat → Prop) (b : Buf) (live : List Nat) : Prop where
  parted : Parted c room b.unused (areas c b live)
  snips : ∀ p ∈ live, SnipOk c (b.snips p)

theorem areas_cons : areas c b (p :: live) = snipAreas c b p ++ areas c b live := flatMap_cons

theorem snipAreas_congr (h : b'.snips p = b.snips p) : snipAreas c b' p = snipAreas c b p := by
  unfold snipAreas
  rw [h]

theorem areas_congr (h : ∀ p ∈ live, b'.snips p = b.snips p) : areas c b' live = areas c b live :=
  flatMap_congr fun p hp => snipAreas_congr (h p hp)

theorem Sound.perm {live' : List Nat} (h : Sound c room b live) (hp : live.Perm live') : Sound c room b live' :=
  ⟨h.parted.perm (hp.flatMap_right _), fun p hmem => h.snips p (hp.mem_iff.mpr hmem)⟩

theorem Sound.first (h : Sound c room b live) (hp : p ∈ live) : Sound c room b (p :: live.erase p) :=
  h.perm (perm_cons_erase hp)

theorem Sound.tail (h : Sound c room b (p :: others)) : ∀ q ∈ others, SnipOk c (b.snips q) := fun q hq =>
  h.snips q (mem_cons_of_mem _ hq)

theorem desc_mem (hp : p ∈ live) : (⟨p, align c c.snipSize⟩ : Area) ∈ areas c b live :=
  mem_flatMap.mpr ⟨p, hp, mem_cons_self⟩

/-- An area in use is nowhere twice: a new descriptor is none of the live ones. -/
theorem notMem_of_apart (h : ∀ t ∈ areas c b live, Area.Apart ⟨a, align c c.snipSize⟩ t) : a ∉ live := by
  intro hmem
  have hpos := @align_pos c _ fits_snip c.snip_pos
  have hapart := h _ (desc_mem hmem)
  unfold Area.Apart at hapart
  dsimp only at hapart
  omega

theorem Sound.notMem (h : Sound c room b (p :: others)) : p ∉ others := by
  refine notMem_of_apart (c := c) (b := b) fun t ht => ?_
  have hapart := h.parted.apart
  exact (pairwise_append.mp hapart).2.2 _ mem_cons_self t ht

theorem Sound.nodup : ∀ {live : List Nat}, Sound c room b live → live.Nodup := by
  intro live h
  have hapart := h.parted.apart
  clear h
  induction live with
  | nil => exact nodup_nil
  | cons p live ih =>
    obtain ⟨-, hrest, hcross⟩ := pairwise_append.mp hapart
    exact nodup_cons.mpr ⟨notMem_of_apart (c := c) (b := b) fun t ht => hcross _ mem_cons_self t ht, ih hrest⟩

/-! ## Chains -/

/-- The snips of a packet, one after the other. -/
def Chain (b : Buf) : Option Nat → List Nat → Prop
  | pkt, [] => pkt = none
  | pkt, p :: ps => pkt = some p ∧ Chain b (b.snips p).next ps

theorem Chain.congr (hsnips : ∀ p ∈ ps, b'.snips p = b.snips p) : ∀ {pkt : Option Nat}, Chain b pkt ps → Chain b' pkt ps := by
  induction ps with
  | nil => exact fun h => h
  | cons p ps ih =>
    rintro pkt ⟨rfl, hrest⟩
    refine ⟨rfl, ?_⟩
    rw [hsnips p mem_cons_self]
    exact ih (fun q hq => hsnips q (mem_cons_of_mem _ hq)) hrest

theorem Chain.of_snips {pkt : Option Nat} (h : Chain b pkt ps) (hsnips : b'.snips = b.snips) : Chain b' pkt ps :=
  h.congr fun q _ => congrFun hsnips q

theorem Chain.unique : ∀ {ps qs : List Nat} {pkt : Option Nat}, Chain b pkt ps → Chain b pkt qs → ps = qs := by
  intro ps
  induction ps with
  | nil =>
    rintro qs pkt rfl hq
    cases qs with
    | nil => rfl
    | cons q qs => exact nomatch hq.1
  | cons p ps ih =>
    rintro qs pkt ⟨rfl, hp⟩ hq
    cases qs with
    | nil => exact nomatch hq
    | cons q qs =>
      obtain ⟨heq, hq⟩ := hq
      cases heq
      rw [ih hp hq]

theorem Chain.of_append {qs : List Nat} : ∀ {ps : List Nat} {pkt : Option Nat}, Chain b pkt (ps ++ q :: qs) →
    Chain b (some q) (q :: qs) := by
  intro ps
  induction ps with
  | nil =>
    rintro pkt ⟨rfl, hrest⟩
    exact ⟨rfl, hrest⟩
  | cons p ps ih => exact fun h => ih h.2

theorem Chain.nodup : ∀ {ps : List Nat} {pkt : Option Nat}, Chain b pkt ps → ps.Nodup := by
  intro ps
  induction ps with
  | nil => exact fun _ => nodup_nil
  | cons p ps ih =>
    rintro pkt ⟨rfl, hrest⟩
    refine nodup_cons.mpr ⟨fun hmem => ?_, ih hrest⟩
    -- From its second place on it would be the same chain again.
    obtain ⟨before, behind, rfl⟩ := append_of_mem hmem
    have hsame : p :: (before ++ p :: behind) = p :: behind := Chain.unique
      (show Chain b (some p) (p :: (before ++ p :: behind)) from ⟨rfl, hrest⟩) (Chain.of_append hrest)
    have := congrArg length hsame
    rw [length_cons, length_append, length_cons] at this
    omega

/-! ## Bytes -/

theorem bytes_congr (hsnip : b'.snips p = b.snips p) (hmem : ∀ d, (b.snips p).data = some d → ∀ i, d ≤ i →
    i < d + (b.snips p).size → b'.mem i = b.mem i) : bytes b' p = bytes b p := by
  unfold bytes
  rw [hsnip]
  cases hd : (b.snips p).data with
  | none => rfl
  | some d => exact Memory.slice_congr (hmem d hd)

theorem length_bytes (h : SnipOk c (b.snips p)) : (bytes b p).length = (b.snips p).size := by
  unfold bytes
  cases hd : (b.snips p).data with
  | none => exact (h.data.mp hd).symm
  | some d => exact Memory.length_slice

theorem data_mem (hq : q ∈ live) (hd : (b.snips q).data = some d) :
    (⟨d, align c (b.snips q).size⟩ : Area) ∈ areas c b live := by
  refine mem_flatMap.mpr ⟨q, hq, mem_cons_of_mem _ ?_⟩
  rw [hd]
  exact mem_singleton_self _

theorem bytes_store {bs : List UInt8} (hq : q ∈ live) (hok : SnipOk c (b.snips q)) (hsnip : b'.snips q = b.snips q)
    (hmem : b'.mem = b.mem.store a bs) (hlo : s.addr ≤ a) (hhi : a + bs.length ≤ s.addr + s.size)
    (hapart : ∀ t ∈ areas c b live, s.Apart t) : bytes b' q = bytes b q := by
  refine bytes_congr hsnip fun d hd i hge hlt => ?_
  have hle := le_align (fits_of_le hok.size)
  have h := hapart _ (data_mem hq hd)
  unfold Area.Apart at h
  dsimp only at h
  rw [hmem]
  exact Memory.store_outside (by omega)

theorem put_eq {bs : List UInt8} (h : Parted c room b.unused L) (hs : s ∈ L) (hlo : s.addr ≤ a)
    (hhi : a + bs.length ≤ s.addr + s.size) : put c b a bs = some { b with mem := b.mem.store a bs } := by
  unfold put
  by_cases hnil : bs = []
  · rw [if_pos hnil, hnil, Memory.store_nil]
  · have hin := (h.placed s hs).inside
    have hall : (b.unused.all fun t => t.addr + t.size ≤ a || a + bs.length ≤ t.addr) = true := by
      refine all_eq_true.mpr fun t ht => ?_
      have hpos := (h.tidy.placed t ht).pos
      have hapart := Area.apart_of_disjoint (s := s) (t := t) (fun x hx hxt => h.free s hs x hx ⟨t, ht, hxt⟩)
        (h.placed s hs).pos hpos
      unfold Area.Apart at hapart
      rw [Bool.or_eq_true, decide_eq_true_iff, decide_eq_true_iff]
      omega
    rw [if_neg hnil, if_pos ⟨by omega, hall⟩]

theorem memcpy_eq {src : Nat} (h : Parted c room b.unused L) (hs : s ∈ L) (ht : t ∈ L) (hlo : s.addr ≤ a)
    (hhi : a + n ≤ s.addr + s.size) (hend : src + n ≤ t.addr + t.size) :
    memcpy c b a src n = some { b with mem := b.mem.store a (b.mem.slice src n) } := by
  unfold memcpy
  by_cases hn : n = 0
  · rw [if_pos hn, hn, Memory.slice, Memory.store_nil]
  · have hin := (h.placed t ht).inside
    rw [if_neg hn, if_pos (by omega)]
    exact put_eq h hs hlo (by rw [Memory.length_slice]; exact hhi)

end Riot.Pktbuf
