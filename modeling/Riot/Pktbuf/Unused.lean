import Riot.Pktbuf.Static

/-!
# The list of the unused sections

Allocation takes an area out of the cells that the list covers, and freeing puts one in; the list is
kept ascending, with no two sections next to each other. As there is one such list for the cells it
covers, what is allocated and freed again leaves the list as it was.

All sizes and addresses are multiples of `sizeof(_unused_t)`, so that a hole that is too small is none.
-/

namespace Riot.Pktbuf

open Riot.Lib List Nat

variable {c : Config} {b b' : Buf} {as left : List Area} {new ptr : Area} {a d n size x : Nat}

/-! ## Alignment -/

/-- A size that `_align` does not run over with. -/
def Config.Fits (c : Config) (size : Nat) : Prop := size + (c.unusedSize - 1) < 2 ^ c.word

theorem fits_of_le (h : size ≤ c.bufSize) : c.Fits size := by
  have := c.buf_fits
  unfold Config.Fits
  omega

theorem fits_snip : c.Fits c.snipSize := by
  have := c.snip_fits
  unfold Config.Fits
  omega

theorem dvd_align : c.unusedSize ∣ align c size := Nat.dvd_mul_left _ _

theorem align_eq (h : c.Fits size) : align c size = (size + (c.unusedSize - 1)) / c.unusedSize * c.unusedSize := by
  unfold align
  rw [mod_eq_of_lt h]

theorem le_align (h : c.Fits size) : size ≤ align c size := by
  have hu := c.unused_pos
  have hmod := mod_lt (size + (c.unusedSize - 1)) hu
  have hdiv := div_add_mod (size + (c.unusedSize - 1)) c.unusedSize
  rw [align_eq h, mul_comm]
  omega

theorem align_lt (h : c.Fits size) : align c size < size + c.unusedSize := by
  have hu := c.unused_pos
  have hle := div_mul_le_self (size + (c.unusedSize - 1)) c.unusedSize
  rw [align_eq h]
  omega

theorem align_pos (h : c.Fits size) (hpos : 0 < size) : 0 < align c size := Nat.lt_of_lt_of_le hpos (le_align h)

theorem eq_of_dvd_of_lt {m n : Nat} (hm : c.unusedSize ∣ m) (hn : c.unusedSize ∣ n) (hle : m ≤ n)
    (hlt : n < m + c.unusedSize) : m = n := by
  have hzero := eq_zero_of_dvd_of_lt (dvd_sub hn hm) (by omega)
  omega

theorem add_le_of_dvd_of_lt {m n : Nat} (hm : c.unusedSize ∣ m) (hn : c.unusedSize ∣ n) (hlt : m < n) :
    m + c.unusedSize ≤ n := by
  have := le_of_dvd (by omega) (dvd_sub hn hm)
  omega

theorem align_of_dvd (h : c.Fits size) (hd : c.unusedSize ∣ size) : align c size = size :=
  (eq_of_dvd_of_lt hd dvd_align (le_align h) (align_lt h)).symm

theorem dvd_of_align_le (h : c.Fits size) (hle : align c size ≤ size) : c.unusedSize ∣ size := by
  rw [Nat.le_antisymm (le_align h) hle]
  exact dvd_align

theorem align_add {k r : Nat} (h : c.Fits (k + r)) (hk : c.unusedSize ∣ k) : align c (k + r) = k + align c r := by
  have hr : c.Fits r := by
    unfold Config.Fits at *
    omega
  obtain ⟨j, rfl⟩ := hk
  have hsum : c.unusedSize * j + r + (c.unusedSize - 1) = r + (c.unusedSize - 1) + c.unusedSize * j := by omega
  rw [align_eq h, align_eq hr, hsum, Nat.add_mul_div_left _ _ c.unused_pos, Nat.add_mul, Nat.mul_comm j, Nat.add_comm]

theorem align_of_not_fits (hlt : size < 2 ^ c.word) (h : ¬ c.Fits size) : align c size = 0 := by
  have hfit := c.buf_fits
  unfold Config.Fits at h
  unfold align
  rw [Nat.mod_eq_sub_mod (by omega), Nat.mod_eq_of_lt (by omega), Nat.div_eq_of_lt (by omega), Nat.zero_mul]

theorem align_mono {m n : Nat} (h : c.Fits n) (hle : m ≤ n) : align c m ≤ align c n := by
  have hm : c.Fits m := by
    unfold Config.Fits at *
    omega
  rw [align_eq hm, align_eq h]
  exact Nat.mul_le_mul_right _ (Nat.div_le_div_right (by omega))

/-! ## Sections -/

/-- An area as they are allocated: aligned, and in the buffer. -/
structure Placed (c : Config) (s : Area) : Prop where
  addr : c.unusedSize ∣ s.addr
  size : c.unusedSize ∣ s.size
  pos : 0 < s.size
  inside : s.addr + s.size ≤ c.bufSize

/-- **The list of the unused sections** as it should be. -/
structure Tidy (c : Config) (as : List Area) : Prop where
  ascending : Ascending as
  placed : ∀ s ∈ as, Placed c s

theorem Tidy.tail (h : Tidy c (ptr :: as)) : Tidy c as :=
  ⟨h.ascending.tail, fun s hs => h.placed s (mem_cons_of_mem _ hs)⟩

theorem Tidy.head (h : Tidy c (ptr :: as)) : Placed c ptr := h.placed ptr mem_cons_self

theorem Tidy.cons (hptr : Placed c ptr) (hgap : ∀ x, Covers as x → ptr.addr + ptr.size < x) (h : Tidy c as) :
    Tidy c (ptr :: as) := by
  refine ⟨Ascending.cons hptr.pos (fun t ht => ?_) h.ascending, fun s hs => ?_⟩
  · have := h.ascending.pos t ht
    exact hgap t.addr ⟨t, ht, Nat.le_refl _, by omega⟩
  · rcases mem_cons.mp hs with rfl | hs
    · exact hptr
    · exact h.placed s hs

theorem tidy_nil : Tidy c [] := ⟨ascending_nil, nofun⟩

/-! ## Allocation -/

/-- What `_pktbuf_alloc` takes. -/
structure Taken (c : Config) (as : List Area) (s : Area) (left : List Area) : Prop where
  placed : Placed c s
  covered : ∀ x, s.Has x → Covers as x
  tidy : Tidy c left
  covers : ∀ x, Covers left x ↔ Covers as x ∧ ¬ s.Has x

theorem allocFrom_taken : ∀ {as : List Area} {left : Option (List Area)}, Tidy c as → 0 < n → c.unusedSize ∣ n →
    allocFrom c n as = some (a, left) → ∃ left', left = some left' ∧ Taken c as ⟨a, n⟩ left' := by
  intro as
  induction as with
  | nil => exact nofun
  | cons ptr next ih =>
    intro left h hpos hn ha
    have hptr := h.head
    rw [allocFrom] at ha
    split at ha
    next hsmall =>
      obtain ⟨⟨a', left'⟩, hrec, heq⟩ := Option.map_eq_some_iff.mp ha
      obtain ⟨rfl, rfl⟩ := Prod.mk.inj heq
      obtain ⟨left'', rfl, htaken⟩ := ih h.tail hpos hn hrec
      have hbehind : ∀ x, Area.Has ⟨a', n⟩ x → ptr.addr + ptr.size < x := fun x hx =>
        h.ascending.lt_of_covers (htaken.covered x hx)
      refine ⟨ptr :: left'', rfl, htaken.placed, fun x hx => covers_cons.mpr (.inr (htaken.covered x hx)), ?_, ?_⟩
      · refine Tidy.cons hptr (fun x hx => ?_) htaken.tidy
        exact h.ascending.lt_of_covers ((htaken.covers x).mp hx).1
      · intro x
        rw [covers_cons, covers_cons, htaken.covers x]
        constructor
        · rintro (hx | ⟨hx, hnot⟩)
          · refine ⟨.inl hx, fun hhas => ?_⟩
            have := hbehind x hhas
            exact absurd hx.2 (by omega)
          · exact ⟨.inr hx, hnot⟩
        · rintro ⟨hx | hx, hnot⟩
          · exact .inl hx
          · exact .inr ⟨hx, hnot⟩
    next hlarge =>
      split at ha
      next hexact =>
        -- What would be left over is less than a section, so nothing is.
        obtain ⟨rfl, rfl⟩ := Prod.mk.inj (Option.some.inj ha)
        obtain rfl : n = ptr.size := eq_of_dvd_of_lt hn hptr.size (by omega) (by omega)
        refine ⟨next, rfl, hptr, fun x hx => covers_cons.mpr (.inl hx), h.tail, fun x => ?_⟩
        rw [covers_cons]
        constructor
        · intro hx
          refine ⟨.inr hx, fun hhas => ?_⟩
          have := h.ascending.lt_of_covers hx
          exact absurd hhas.2 (by dsimp only; omega)
        · rintro ⟨hx | hx, hnot⟩
          · exact absurd hx hnot
          · exact hx
      next hsplit =>
        have hinside := hptr.inside
        have hmore : ¬ ptr.addr + n + c.unusedSize > c.bufSize := by omega
        rw [if_neg hmore] at ha
        obtain ⟨rfl, rfl⟩ := Prod.mk.inj (Option.some.inj ha)
        have hu := c.unused_pos
        refine ⟨_, rfl, ⟨hptr.addr, hn, hpos, by dsimp only; omega⟩, fun x hx => ?_, ?_, fun x => ?_⟩
        · unfold Area.Has at hx
          dsimp only at hx
          exact covers_cons.mpr (.inl ⟨by omega, by omega⟩)
        · refine Tidy.cons ⟨Nat.dvd_add hptr.addr hn, Nat.dvd_sub hptr.size hn, by dsimp only; omega, by dsimp only; omega⟩
            (fun x hx => ?_) h.tail
          have := h.ascending.lt_of_covers hx
          dsimp only
          omega
        · rw [covers_cons, covers_cons]
          have hgap := @Ascending.lt_of_covers _ _ x h.ascending
          unfold Area.Has
          dsimp only
          constructor
          · rintro (hx | hx)
            · exact ⟨.inl ⟨by omega, by omega⟩, by omega⟩
            · have := hgap hx
              exact ⟨.inr hx, by omega⟩
          · rintro ⟨hx | hx, hnot⟩
            · exact .inl ⟨by omega, by omega⟩
            · exact .inr hx

/-- **What is allocated** was unused before. -/
theorem pktbufAlloc_taken (h : Tidy c b.unused) (hfit : c.Fits size) (hpos : 0 < size)
    (ha : pktbufAlloc c b size = some (a, b')) :
    ∃ left, b' = { b with unused := left } ∧ Taken c b.unused ⟨a, align c size⟩ left := by
  obtain ⟨⟨a', left⟩, hrec, heq⟩ := Option.map_eq_some_iff.mp ha
  cases heq
  obtain ⟨left', rfl, htaken⟩ := allocFrom_taken h (align_pos hfit hpos) dvd_align hrec
  exact ⟨left', rfl, htaken⟩

/-! ## Freeing -/

theorem tooSmallHole_iff {s t : Area} (hs : Placed c s) (ht : Placed c t) (hle : s.addr + s.size ≤ t.addr) :
    tooSmallHole c s t = true ↔ s.addr + s.size = t.addr := by
  have hin := ht.inside
  have hfit := c.buf_fits
  have hu := c.unused_pos
  have hhole : (t.addr + 2 ^ c.word - (s.addr + s.size)) % 2 ^ c.word = t.addr - (s.addr + s.size) := by
    rw [show t.addr + 2 ^ c.word - (s.addr + s.size) = t.addr - (s.addr + s.size) + 2 ^ c.word by omega, add_mod_right,
      mod_eq_of_lt (by omega)]
  unfold tooSmallHole
  rw [hhole, decide_eq_true_iff]
  constructor
  · exact fun hlt => eq_of_dvd_of_lt (Nat.dvd_add hs.addr hs.size) ht.addr hle (by omega)
  · intro heq
    omega

/-- What freeing `new` leaves. -/
structure Linked (c : Config) (as : List Area) (new : Area) (left : List Area) : Prop where
  tidy : Tidy c left
  covers : ∀ x, Covers left x ↔ Covers as x ∨ new.Has x

theorem linkNext_linked (hnew : Placed c new) (h : Tidy c as) (hle : ∀ t ∈ as, new.addr + new.size ≤ t.addr) :
    Linked c as new (linkNext c new as) := by
  cases as with
  | nil =>
    refine ⟨Tidy.cons hnew (fun x hx => absurd hx covers_nil) tidy_nil, fun x => ?_⟩
    rw [linkNext, covers_cons]
    exact or_comm
  | cons next rest =>
    have hnext := h.head
    have hfirst := hle next mem_cons_self
    rw [linkNext]
    by_cases hhole : tooSmallHole c new next = true
    · have hmeet := (tooSmallHole_iff hnew hnext hfirst).mp hhole
      have hsize : next.size + (next.addr - new.addr) = new.size + next.size := by omega
      rw [if_pos hhole, mergeSections, hsize]
      have hin := hnext.inside
      have hpos := hnew.pos
      refine ⟨Tidy.cons ⟨hnew.addr, Nat.dvd_add hnew.size hnext.size, by dsimp only; omega, by dsimp only; omega⟩
        (fun x hx => ?_) h.tail, fun x => ?_⟩
      · have := h.ascending.lt_of_covers hx
        dsimp only
        omega
      · rw [covers_cons, covers_cons]
        unfold Area.Has
        dsimp only
        constructor
        · rintro (hx | hx)
          · by_cases hlt : x < new.addr + new.size
            · exact .inr ⟨hx.1, hlt⟩
            · exact .inl (.inl ⟨by omega, by omega⟩)
          · exact .inl (.inr hx)
        · rintro ((hx | hx) | hx)
          · exact .inl ⟨by omega, by omega⟩
          · exact .inr hx
          · exact .inl ⟨by omega, by omega⟩
    · have hgap : new.addr + new.size < next.addr :=
        Nat.lt_of_le_of_ne hfirst fun heq => hhole ((tooSmallHole_iff hnew hnext hfirst).mpr heq)
      rw [if_neg hhole]
      refine ⟨Tidy.cons hnew (fun x hx => ?_) h, fun x => ?_⟩
      · rcases covers_cons.mp hx with hx | hx
        · exact Nat.lt_of_lt_of_le hgap hx.1
        · have := h.ascending.lt_of_covers hx
          omega
      · rw [covers_cons]
        exact or_comm

theorem Linked.cons {next : List Area} (hlink : Linked c next new left) (h : Tidy c (ptr :: next))
    (hgap : ptr.addr + ptr.size < new.addr) : Linked c (ptr :: next) new (ptr :: left) := by
  refine ⟨Tidy.cons h.head (fun x hx => ?_) hlink.tidy, fun x => ?_⟩
  · rcases (hlink.covers x).mp hx with hx | hx
    · exact h.ascending.lt_of_covers hx
    · exact Nat.lt_of_lt_of_le hgap hx.1
  · rw [covers_cons, covers_cons, hlink.covers x, or_assoc]

theorem linkFrom_linked : ∀ {as : List Area}, Tidy c as → Placed c new → (∀ x, new.Has x → ¬ Covers as x) →
    Linked c as new (linkFrom c new as) := by
  intro as
  induction as with
  | nil => exact fun h hnew _ => linkNext_linked hnew h fun t ht => nomatch ht
  | cons ptr next ih =>
    intro h hnew hfree
    have hptr := h.head
    have hnpos := hnew.pos
    have hapart : ∀ t ∈ ptr :: next, new.Apart t := fun t ht =>
      Area.apart_of_disjoint (fun x hx ht' => hfree x hx ⟨t, ht, ht'⟩) hnpos (h.placed t ht).pos
    rw [linkFrom]
    by_cases hbefore : ptr.addr < new.addr
    · rw [if_pos hbefore]
      have hend : ptr.addr + ptr.size ≤ new.addr := by
        have := hapart ptr mem_cons_self
        unfold Area.Apart at this
        omega
      by_cases hmore : next.head?.any (fun s => s.addr < new.addr) = true
      · rw [if_pos hmore]
        have hrec := ih h.tail hnew fun x hx hc => hfree x hx (covers_cons.mpr (.inr hc))
        cases next with
        | nil => cases hmore
        | cons t rest =>
          have hlt : t.addr < new.addr := of_decide_eq_true hmore
          have := h.ascending.head_lt (t := t) mem_cons_self
          exact hrec.cons h (by omega)
      · rw [if_neg hmore]
        -- `ptr` is the last section before the new one.
        have hbehind : ∀ t ∈ next, new.addr + new.size ≤ t.addr := by
          cases next with
          | nil => exact fun t ht => nomatch ht
          | cons t rest =>
            have hge : ¬ t.addr < new.addr := fun hlt => hmore (decide_eq_true hlt)
            have hfirst : new.addr + new.size ≤ t.addr := by
              have := hapart t (mem_cons_of_mem _ mem_cons_self)
              have hpos := (h.placed t (mem_cons_of_mem _ mem_cons_self)).pos
              unfold Area.Apart at this
              omega
            intro s hs
            rcases mem_cons.mp hs with rfl | hs
            · exact hfirst
            · have := h.tail.ascending.head_lt hs
              omega
        by_cases hhole : tooSmallHole c ptr new = true
        · have hmeet := (tooSmallHole_iff hptr hnew hend).mp hhole
          have hsize : new.size + (new.addr - ptr.addr) = ptr.size + new.size := by omega
          rw [if_pos hhole, mergeSections, hsize]
          have hin := hnew.inside
          have hlink := @linkNext_linked c _ ⟨ptr.addr, ptr.size + new.size⟩
            ⟨hptr.addr, Nat.dvd_add hptr.size hnew.size, by dsimp only; omega, by dsimp only; omega⟩ h.tail
            (fun t ht => by
              have := hbehind t ht
              dsimp only
              omega)
          refine ⟨hlink.tidy, fun x => ?_⟩
          rw [hlink.covers x, covers_cons]
          unfold Area.Has
          dsimp only
          constructor
          · rintro (hx | hx)
            · exact .inl (.inr hx)
            · by_cases hlt : x < ptr.addr + ptr.size
              · exact .inl (.inl ⟨hx.1, hlt⟩)
              · exact .inr ⟨by omega, by omega⟩
          · rintro ((hx | hx) | hx)
            · exact .inr ⟨by omega, by omega⟩
            · exact .inl hx
            · exact .inr ⟨by omega, by omega⟩
        · rw [if_neg hhole]
          have hgap : ptr.addr + ptr.size < new.addr :=
            Nat.lt_of_le_of_ne hend fun heq => hhole ((tooSmallHole_iff hptr hnew hend).mpr heq)
          exact (linkNext_linked hnew h.tail hbehind).cons h hgap
    · rw [if_neg hbefore]
      have hfirst : new.addr + new.size ≤ ptr.addr := by
        have := hapart ptr mem_cons_self
        have hpos := hptr.pos
        unfold Area.Apart at this
        omega
      refine linkNext_linked hnew h fun t ht => ?_
      rcases mem_cons.mp ht with rfl | ht
      · exact hfirst
      · have := h.ascending.head_lt ht
        omega

/-- **What is freed** is unused afterwards. -/
theorem freeInternal_linked (h : Tidy c b.unused) (hd : Placed c ⟨d, align c size⟩)
    (hfree : ∀ x, Area.Has ⟨d, align c size⟩ x → ¬ Covers b.unused x) :
    ∃ left, freeInternal c b (some d) size = some { b with unused := left } ∧
      Linked c b.unused ⟨d, align c size⟩ left := by
  have hin := hd.inside
  have hpos := hd.pos
  have hfit := c.buf_fits
  dsimp only at hin hpos
  have hrest : (c.bufSize + 2 ^ c.word - (d + align c size)) % 2 ^ c.word = c.bufSize - (d + align c size) := by
    rw [show c.bufSize + 2 ^ c.word - (d + align c size) = c.bufSize - (d + align c size) + 2 ^ c.word by omega,
      add_mod_right, mod_eq_of_lt (by omega)]
  have hcontains : contains c d = true := decide_eq_true (by omega)
  have hlink := linkFrom_linked h hd hfree
  refine ⟨_, ?_, hlink⟩
  unfold freeInternal
  dsimp only
  rw [if_pos hcontains, hrest]
  by_cases hend : c.bufSize - (d + align c size) < c.unusedSize
  · -- The hole before the end of the buffer is empty.
    have hlast : d + align c size = c.bufSize :=
      eq_of_dvd_of_lt (Nat.dvd_add hd.addr hd.size) c.aligned hin (by omega)
    rw [if_pos hend, hlast, Nat.sub_self, add_zero]
  · rw [if_neg hend]

theorem Taken.free {s : Area} (h : Taken c as s left) : ∀ x, s.Has x → ¬ Covers left x := fun x hx hc =>
  ((h.covers x).mp hc).2 hx

end Riot.Pktbuf
