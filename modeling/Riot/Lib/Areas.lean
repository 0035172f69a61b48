import Mathlib.Tactic.Ring
import Mathlib.Data.List.Nodup
import Mathlib.Data.List.Perm.Subperm

/-!
# Areas of a memory

An area is a number of cells from an address on. A list of areas is *ascending* if each ends before
the next begins, with a cell between them at least: there is only one such list for a set of cells, so
that two lists are found equal by what they cover.
-/

namespace Riot.Lib

open List

/-- `size` cells from `addr` on. -/
structure Area where
  addr : Nat
  size : Nat
deriving DecidableEq

/-- The cell `x` is in the area. -/
def Area.Has (s : Area) (x : Nat) : Prop := s.addr ≤ x ∧ x < s.addr + s.size

/-- The areas have no cell in common, one coming before the other. -/
def Area.Apart (s t : Area) : Prop := s.addr + s.size ≤ t.addr ∨ t.addr + t.size ≤ s.addr

/-- The cell `x` is in one of the areas. -/
def Covers (as : List Area) (x : Nat) : Prop := ∃ s ∈ as, s.Has x

/-- None of the areas is empty, and each has a gap behind it. -/
structure Ascending (as : List Area) : Prop where
  pos : ∀ s ∈ as, 0 < s.size
  gaps : as.Pairwise fun s t => s.addr + s.size < t.addr

variable {s t : Area} {as bs : List Area} {x n : Nat}

theorem Area.Apart.symm (h : s.Apart t) : t.Apart s := Or.symm h

theorem Area.Apart.not_has (h : s.Apart t) (hs : s.Has x) : ¬ t.Has x := by
  unfold Area.Apart Area.Has at *
  omega

theorem Area.apart_of_disjoint (h : ∀ x, s.Has x → ¬ t.Has x) (hs : 0 < s.size) (ht : 0 < t.size) : s.Apart t := by
  have h1 := h s.addr
  have h2 := h t.addr
  unfold Area.Apart
  unfold Area.Has at h1 h2
  omega

@[simp] theorem covers_nil : ¬ Covers [] x := by
  rintro ⟨s, hs, -⟩
  cases hs

@[simp] theorem covers_cons : Covers (s :: as) x ↔ s.Has x ∨ Covers as x := by
  unfold Covers
  rw [exists_mem_cons_iff]

theorem Ascending.tail (h : Ascending (s :: as)) : Ascending as :=
  ⟨fun t ht => h.pos t (mem_cons_of_mem _ ht), (pairwise_cons.mp h.gaps).2⟩

theorem Ascending.head_pos (h : Ascending (s :: as)) : 0 < s.size := h.pos s mem_cons_self

theorem Ascending.head_lt (h : Ascending (s :: as)) (ht : t ∈ as) : s.addr + s.size < t.addr :=
  (pairwise_cons.mp h.gaps).1 t ht

theorem Ascending.lt_of_covers (h : Ascending (s :: as)) (hx : Covers as x) : s.addr + s.size < x := by
  obtain ⟨t, ht, hle, -⟩ := hx
  have := h.head_lt ht
  omega

theorem ascending_nil : Ascending [] := ⟨nofun, List.Pairwise.nil⟩

theorem Ascending.cons (hs : 0 < s.size) (hgap : ∀ t ∈ as, s.addr + s.size < t.addr) (h : Ascending as) :
    Ascending (s :: as) := by
  refine ⟨fun t ht => ?_, pairwise_cons.mpr ⟨hgap, h.gaps⟩⟩
  rcases mem_cons.mp ht with rfl | ht
  · exact hs
  · exact h.pos t ht

/-- **Only one ascending list covers** the same cells. -/
theorem Ascending.ext : ∀ {as bs : List Area}, Ascending as → Ascending bs → (∀ x, Covers as x ↔ Covers bs x) →
    as = bs := by
  intro as
  induction as with
  | nil =>
    intro bs _ hb h
    cases bs with
    | nil => rfl
    | cons t bs =>
      have hpos := hb.head_pos
      exact absurd ((h t.addr).mpr (covers_cons.mpr (.inl ⟨Nat.le_refl _, by omega⟩))) covers_nil
  | cons s as ih =>
    intro bs ha hb h
    have hs := ha.head_pos
    cases bs with
    | nil => exact absurd ((h s.addr).mp (covers_cons.mpr (.inl ⟨Nat.le_refl _, by omega⟩))) covers_nil
    | cons t bs =>
      have ht := hb.head_pos
      -- The first cell of one list is covered by the other, so both begin at the same address.
      have hle : t.addr ≤ s.addr := by
        rcases covers_cons.mp ((h s.addr).mp (covers_cons.mpr (.inl ⟨Nat.le_refl _, by omega⟩))) with hin | hin
        · exact hin.1
        · have := hb.lt_of_covers hin
          omega
      have hge : s.addr ≤ t.addr := by
        rcases covers_cons.mp ((h t.addr).mpr (covers_cons.mpr (.inl ⟨Nat.le_refl _, by omega⟩))) with hin | hin
        · exact hin.1
        · have := ha.lt_of_covers hin
          omega
      have haddr : s.addr = t.addr := le_antisymm hge hle
      -- The cell behind the shorter of the two is not covered.
      have hsize : s.size = t.size := by
        refine le_antisymm (Nat.le_of_not_lt fun hlt => ?_) (Nat.le_of_not_lt fun hlt => ?_)
        · rcases covers_cons.mp ((h (t.addr + t.size)).mp (covers_cons.mpr (.inl ⟨by omega, by omega⟩))) with hin | hin
          · exact absurd hin.2 (Nat.lt_irrefl _)
          · exact absurd (hb.lt_of_covers hin) (Nat.lt_irrefl _)
        · rcases covers_cons.mp ((h (s.addr + s.size)).mpr (covers_cons.mpr (.inl ⟨by omega, by omega⟩))) with hin | hin
          · exact absurd hin.2 (Nat.lt_irrefl _)
          · exact absurd (ha.lt_of_covers hin) (Nat.lt_irrefl _)
      have heq : s = t := by
        cases s
        cases t
        dsimp only at haddr hsize
        rw [haddr, hsize]
      subst heq
      refine congrArg _ (ih ha.tail hb.tail fun x => ⟨fun hx => ?_, fun hx => ?_⟩)
      · rcases covers_cons.mp ((h x).mp (covers_cons.mpr (.inr hx))) with hin | hin
        · have := ha.lt_of_covers hx
          exact absurd hin.2 (by omega)
        · exact hin
      · rcases covers_cons.mp ((h x).mpr (covers_cons.mpr (.inr hx))) with hin | hin
        · have := hb.lt_of_covers hx
          exact absurd hin.2 (by omega)
        · exact hin

theorem sum_size_le (hapart : as.Pairwise Area.Apart) (hin : ∀ s ∈ as, s.addr + s.size ≤ n) :
    (as.map Area.size).sum ≤ n := by
  have hnodup : (as.flatMap fun s => range' s.addr s.size).Nodup := by
    refine nodup_flatMap.mpr ⟨fun s _ => nodup_range', hapart.imp fun {s t} hst x hs ht => ?_⟩
    rw [mem_range'_1] at hs ht
    exact hst.not_has hs ht
  have hsub : (as.flatMap fun s => range' s.addr s.size) ⊆ range n := by
    intro x hx
    obtain ⟨s, hs, hx⟩ := mem_flatMap.mp hx
    have hle := hin s hs
    rw [mem_range'_1] at hx
    exact mem_range.mpr (by omega)
  have hle := (hnodup.subperm hsub).length_le
  rw [length_range, length_flatMap] at hle
  have hmap : (as.map fun s => (range' s.addr s.size).length) = as.map Area.size :=
    map_congr_left fun s _ => length_range'
  rwa [hmap] at hle

end Riot.Lib
