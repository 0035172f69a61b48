import Mathlib.Data.List.Nodup

/-!
# Intrusive linked lists

A memory of list nodes in which an element carries its own `next` link, so that
one element can be linked in one place only. Two shapes are kept in it: chains,
which start at their head and end in `null`, and rings, whose head points at the
*last* element and whose last element points at the first.

`Seg` reads a stretch of the memory as a list. `Linkage` says that a family of
lists occupies the memory: each head represents its list, and no element is in
two lists or twice in one. `Linkage.replace` is the frame rule: an operation
that rewrites one list has to be understood for that list only.
-/

namespace Riot.Lib

open Function List

variable {H T : Type}

/-- The places that hold a link: the heads and the elements themselves. -/
inductive Node (H T : Type) where
  | head (h : H)
  | entry (t : T)
  deriving DecidableEq

/-- The value of a link. `mark` is one distinguished value that is no address. -/
inductive Link (T : Type) where
  | null
  | mark
  | ref (t : T)
  deriving DecidableEq

namespace Link

/-- The link to an element that may be missing. -/
def ofOption : Option T → Link T
  | none => null
  | some t => ref t

@[simp] theorem ofOption_none : (ofOption none : Link T) = null := rfl
@[simp] theorem ofOption_some (t : T) : ofOption (some t) = ref t := rfl

end Link

/-- The `next` field of every node. -/
abbrev NodeMem (H T : Type) := Node H T → Link T

/-- Following links from `l` visits exactly `ts` and arrives at the link `e`. -/
def Seg (m : NodeMem H T) : Link T → List T → Link T → Prop
  | l, [], e => l = e
  | l, t :: ts, e => l = .ref t ∧ Seg m (m (.entry t)) ts e

/-- The ring whose head holds `l`. -/
def RingAt (m : NodeMem H T) (l : Link T) (ts : List T) : Prop :=
  l = .ofOption ts.getLast? ∧ Seg m (.ofOption ts.head?) ts (.ofOption ts.head?)

/-- The chain whose head holds `l`; an empty chain may also be marked. -/
def ChainAt (m : NodeMem H T) (l : Link T) (ts : List T) : Prop :=
  Seg m l ts .null ∨ (l = .mark ∧ ts = [])

/-! ## Segments -/

variable {h : H} {e l : Link T} {ts xs ys : List T} {m m' : NodeMem H T} {t : T}

@[simp] theorem seg_nil : Seg m l [] e ↔ l = e := Iff.rfl

@[simp] theorem seg_cons : Seg m l (t :: ts) e ↔ l = .ref t ∧ Seg m (m (.entry t)) ts e := Iff.rfl

theorem seg_append : Seg m l (xs ++ ys) e ↔ ∃ k, Seg m l xs k ∧ Seg m k ys e := by
  induction xs generalizing l with
  | nil => simp
  | cons x xs ih =>
    simp only [cons_append, seg_cons, ih]
    constructor
    · rintro ⟨hl, k, h1, h2⟩
      exact ⟨k, ⟨hl, h1⟩, h2⟩
    · rintro ⟨k, ⟨hl, h1⟩, h2⟩
      exact ⟨hl, k, h1, h2⟩

theorem seg_congr : ∀ {ts : List T} {l : Link T},
    (∀ t ∈ ts, m' (.entry t) = m (.entry t)) → Seg m l ts e → Seg m' l ts e
  | [], _, _, h => h
  | t :: ts, l, heq, h => by
    obtain ⟨hl, h⟩ := h
    refine ⟨hl, ?_⟩
    rw [heq t (by simp)]
    exact seg_congr (fun u hu => heq u (by simp [hu])) h

/-- Follows at most `fuel` links. -/
def links (m : NodeMem H T) : Nat → Link T → List T
  | fuel + 1, .ref t => t :: links m fuel (m (.entry t))
  | _, _ => []

theorem links_eq : ∀ {ts : List T} {fuel : Nat} {l : Link T},
    Seg m l ts .null → ts.length ≤ fuel → links m fuel l = ts
  | [], fuel, l, h, _ => by
    subst h
    cases fuel <;> rfl
  | t :: ts, 0, l, _, hf => absurd hf (by simp)
  | t :: ts, fuel + 1, l, h, hf => by
    obtain ⟨rfl, h⟩ := h
    rw [links, links_eq h (by simpa using hf)]

theorem ring_congr (heq : ∀ t ∈ ts, m' (.entry t) = m (.entry t)) (h : RingAt m l ts) : RingAt m' l ts :=
  ⟨h.1, seg_congr heq h.2⟩

theorem chain_congr (heq : ∀ t ∈ ts, m' (.entry t) = m (.entry t)) (h : ChainAt m l ts) : ChainAt m' l ts :=
  h.imp (seg_congr heq) id

theorem ring_nil : RingAt m l [] ↔ l = .null := by
  simp [RingAt]

theorem ring_snoc {z : T} : RingAt m l (ts ++ [z]) ↔ l = .ref z ∧ Seg m (m (.entry z)) ts (.ref z)
      ∧ m (.entry z) = .ofOption (ts ++ [z]).head? := by
  unfold RingAt
  simp only [getLast?_append, getLast?_singleton, Option.some_or, Link.ofOption_some,
    seg_append, seg_cons, seg_nil]
  constructor
  · rintro ⟨hl, k, hs, hk, he⟩
    subst hk
    exact ⟨hl, he ▸ hs, he⟩
  · rintro ⟨hl, hs, he⟩
    exact ⟨hl, .ref z, he ▸ hs, rfl, he⟩

theorem ring_eq_null (h : RingAt m l ts) : l = .null ↔ ts = [] := by
  rw [h.1]
  cases hts : ts.getLast? with
  | none => simpa using hts
  | some z =>
    simp only [Link.ofOption_some, reduceCtorEq, false_iff]
    rintro rfl
    simp at hts

theorem seg_ref_unique {z : T} : ∀ {xs ys : List T} {l : Link T},
    Seg m l xs (.ref z) → Seg m l ys (.ref z) → z ∉ xs → z ∉ ys → xs = ys
  | [], [], _, _, _, _, _ => rfl
  | [], y :: ys, l, h1, h2, _, hy => by
    rw [seg_cons, h1] at h2
    obtain rfl : z = y := by simpa using h2.1
    simp at hy
  | x :: xs, [], l, h1, h2, hx, _ => by
    rw [seg_cons, h2] at h1
    obtain rfl : z = x := by simpa using h1.1
    simp at hx
  | x :: xs, y :: ys, l, h1, h2, hx, hy => by
    obtain ⟨hlx, h1⟩ := seg_cons.mp h1
    obtain ⟨hly, h2⟩ := seg_cons.mp h2
    obtain rfl : x = y := by simpa [hlx] using hly
    rw [seg_ref_unique h1 h2 (fun hz => hx (by simp [hz])) (fun hz => hy (by simp [hz]))]

theorem ring_unique (hx : RingAt m l xs)
    (hy : RingAt m l ys) (hndx : xs.Nodup) (hndy : ys.Nodup) : xs = ys := by
  rcases eq_nil_or_concat' xs with rfl | ⟨xs, z, rfl⟩
  · exact ((ring_eq_null hy).mp (ring_nil.mp hx)).symm
  · rcases eq_nil_or_concat' ys with rfl | ⟨ys, w, rfl⟩
    · exact (ring_eq_null hx).mp (ring_nil.mp hy)
    · obtain ⟨hlx, hsx, -⟩ := ring_snoc.mp hx
      obtain ⟨hly, hsy, -⟩ := ring_snoc.mp hy
      obtain rfl : z = w := by simpa [hlx] using hly
      have hzx : z ∉ xs := fun hz => (nodup_append.mp hndx).2.2 z hz z (by simp) rfl
      have hzy : z ∉ ys := fun hz => (nodup_append.mp hndy).2.2 z hz z (by simp) rfl
      rw [seg_ref_unique hsx hsy hzx hzy]

theorem chain_cons : ChainAt m l (t :: ts) ↔ l = .ref t ∧ Seg m (m (.entry t)) ts .null := by
  simp [ChainAt]

theorem seg_ne_mark (h : Seg m l ts .null) : l ≠ .mark := by
  rintro rfl
  cases ts with
  | nil => exact absurd h (by simp)
  | cons t ts => exact absurd h.1 (by simp)

/-- What a walk comes to lies in the list that is stored there. -/
theorem mem_of_seg : ∀ {xs zs : List T} {l : Link T}, Seg m l xs (.ref t) → Seg m l zs .null → t ∈ zs
  | xs, [], l, hx, hz => by
    obtain rfl := seg_nil.mp hz
    cases xs with
    | nil => cases hx
    | cons x xs => cases hx.1
  | [], z :: zs, l, hx, hz => by
    obtain rfl := seg_nil.mp hx
    cases hz.1
    exact List.mem_cons_self
  | x :: xs, z :: zs, l, hx, hz => by
    obtain ⟨rfl, hx⟩ := hx
    cases hz.1
    exact List.mem_cons_of_mem _ (mem_of_seg hx hz.2)

/-! ## Insertion and removal behind a node -/

/-- The node reached from `n` after walking over the elements `ts`. -/
def after (n : Node H T) : List T → Node H T
  | [] => n
  | t :: ts => after (.entry t) ts

@[simp] theorem after_nil (n : Node H T) : after n [] = n := rfl
@[simp] theorem after_cons (n : Node H T) (t : T) (ts : List T) :
    after n (t :: ts) = after (.entry t) ts := rfl

theorem after_snoc (n : Node H T) : ∀ (ts : List T) (t : T), after n (ts ++ [t]) = .entry t
  | [], _ => rfl
  | u :: us, t => by
    exact after_snoc (.entry u) us t

theorem after_cases (n : Node H T) : ∀ ts : List T,
    (ts = [] ∧ after n ts = n) ∨ ∃ t ∈ ts, after n ts = .entry t
  | [] => .inl ⟨rfl, rfl⟩
  | t :: ts => by
    rcases after_cases (.entry t) ts with ⟨rfl, h⟩ | ⟨u, hu, h⟩
    · exact .inr ⟨t, by simp, h⟩
    · exact .inr ⟨u, by simp [hu], h⟩

theorem after_ne {n x : Node H T} (hn : n ≠ x) (hts : ∀ t ∈ ts, .entry t ≠ x) : after n ts ≠ x := by
  rcases after_cases n ts with ⟨_, h⟩ | ⟨t, ht, h⟩
  · rw [h]
    exact hn
  · rw [h]
    exact hts t ht

theorem seg_after {n : Node H T} (h : Seg m (m n) (xs ++ ys) e) : Seg m (m (after n xs)) ys e := by
  induction xs generalizing n with
  | nil => exact h
  | cons x xs ih => exact ih h.2

section Surgery

variable [DecidableEq H] [DecidableEq T]

variable {e : Link T} {ys : List T} {m : NodeMem H T} {t : T}

theorem seg_insert : ∀ {xs : List T} {n : Node H T}, Seg m (m n) (xs ++ ys) e → (xs ++ ys).Nodup →
      t ∉ xs ++ ys → n ≠ .entry t → (∀ x ∈ xs ++ ys, n ≠ .entry x) →
      Seg (update (update m (.entry t) (m (after n xs))) (after n xs) (.ref t))
        (update (update m (.entry t) (m (after n xs))) (after n xs) (.ref t) n)
        (xs ++ t :: ys) e
  | [], n, h, _, ht, hnt, hn => by
    simp only [nil_append, after_nil, update_self, seg_cons, true_and] at *
    rw [update_of_ne (Ne.symm hnt), update_self]
    refine seg_congr (fun u hu => ?_) h
    have hut : u ≠ t := fun hut => ht (hut ▸ hu)
    rw [update_of_ne (Ne.symm (hn u hu)), update_of_ne (by simpa using hut)]
  | x :: xs, n, h, hnd, ht, hnt, hn => by
    simp only [cons_append, nodup_cons, mem_cons, not_or] at hnd ht
    have hxt : Node.entry (H := H) x ≠ .entry t := by simpa using Ne.symm ht.1
    have hafter : after (.entry x) xs ≠ n := by
      refine after_ne (Ne.symm (hn x (by simp))) (fun u hu => Ne.symm (hn u (by simp [hu])))
    rw [cons_append, after_cons, seg_cons]
    refine ⟨?_, ?_⟩
    · rw [update_of_ne (Ne.symm hafter), update_of_ne hnt]
      exact h.1
    · refine seg_insert h.2 hnd.2 ht.2 hxt (fun u hu => ?_)
      have hux : u ≠ x := fun hux => hnd.1 (hux ▸ hu)
      simpa using Ne.symm hux

theorem seg_remove : ∀ {xs : List T} {n : Node H T}, Seg m (m n) (xs ++ t :: ys) e → (xs ++ t :: ys).Nodup →
      (∀ x ∈ xs ++ t :: ys, n ≠ .entry x) →
      Seg (update m (after n xs) (m (.entry t))) (update m (after n xs) (m (.entry t)) n) (xs ++ ys) e
  | [], n, h, hnd, hn => by
    simp only [nil_append, after_nil, update_self] at *
    refine seg_congr (fun u hu => ?_) h.2
    rw [update_of_ne (Ne.symm (hn u (by simp [hu])))]
  | x :: xs, n, h, hnd, hn => by
    simp only [cons_append, nodup_cons] at hnd
    have hafter : after (.entry x) xs ≠ n := by
      refine after_ne (Ne.symm (hn x (by simp))) (fun u hu => Ne.symm (hn u (by simp [hu])))
    rw [cons_append, after_cons, seg_cons]
    refine ⟨?_, ?_⟩
    · rw [update_of_ne (Ne.symm hafter)]
      exact h.1
    · refine seg_remove h.2 hnd.2 (fun u hu => ?_)
      have hux : u ≠ x := fun hux => hnd.1 (hux ▸ hu)
      simpa using Ne.symm hux

theorem seg_unlink {l : Link T} {xs : List T} {a : T}
    (h : Seg m l (xs ++ a :: t :: ys) e) (hnd : (xs ++ a :: t :: ys).Nodup) :
    Seg (update m (.entry a) (m (.entry t))) l (xs ++ a :: ys) e := by
  rw [seg_append] at h ⊢
  obtain ⟨k, hxs, hk, ha, hys⟩ := h
  have hne : ∀ u, u ∈ xs ∨ u ∈ ys → u ≠ a := by
    rintro u hu rfl
    rcases hu with hu | hu
    · exact (nodup_append.mp hnd).2.2 u hu u (by simp) rfl
    · have hnd' := (nodup_append.mp hnd).2.1
      simp only [nodup_cons, mem_cons, not_or] at hnd'
      exact hnd'.1.2 hu
  refine ⟨k, seg_congr (fun u hu => ?_) hxs, hk, ?_⟩
  · simp [hne u (.inl hu)]
  · rw [update_self]
    exact seg_congr (fun u hu => by simp [hne u (.inr hu)]) hys

end Surgery

/-! ## Families of lists in one memory -/

/-- How the list of head `h` is stored: as a ring or as a chain. -/
def Stored (ring : H → Prop) (m : NodeMem H T) (h : H) (ts : List T) : Prop :=
  (ring h → RingAt m (m (.head h)) ts) ∧ (¬ ring h → ChainAt m (m (.head h)) ts)

/-- The memory holds the lists `L`, each element at most once among all of them. -/
structure Linkage (ring : H → Prop) (m : NodeMem H T) (L : H → List T) : Prop where
  /-- Every head represents its list. -/
  stored : ∀ h, Stored ring m h (L h)
  /-- No list has an element twice. -/
  nodup : ∀ h, (L h).Nodup
  /-- No element is in two lists. -/
  disjoint : ∀ h h' t, t ∈ L h → t ∈ L h' → h = h'

/-- The element is in none of the lists. -/
def Unlinked (L : H → List T) (t : T) : Prop := ∀ h, t ∉ L h

variable {ring : H → Prop} {m m' : NodeMem H T} {L : H → List T}

theorem stored_congr (hh : m' (.head h) = m (.head h))
    (he : ∀ t ∈ ts, m' (.entry t) = m (.entry t)) (hs : Stored ring m h ts) :
    Stored ring m' h ts := by
  unfold Stored
  rw [hh]
  exact ⟨fun hr => ring_congr he (hs.1 hr), fun hr => chain_congr he (hs.2 hr)⟩

theorem Linkage.ring_of (hL : Linkage ring m L) (hr : ring h) :
    RingAt m (m (.head h)) (L h) := (hL.stored h).1 hr

theorem Linkage.chain_of (hL : Linkage ring m L) (hr : ¬ ring h) :
    ChainAt m (m (.head h)) (L h) := (hL.stored h).2 hr

theorem Linkage.not_mem {h' : H} (hL : Linkage ring m L) (ht : t ∈ L h)
    (hne : h' ≠ h) : t ∉ L h' := fun ht' => hne (hL.disjoint h' h t ht' ht)

variable [DecidableEq H]

/-- **The frame rule.** An operation that rewrites the list of one head, and
touches besides that head only elements of its list and unlinked ones, keeps
the family. -/
theorem Linkage.replace (hL : Linkage ring m L) (m' : NodeMem H T)
    (hheads : ∀ h', h' ≠ h → m' (.head h') = m (.head h'))
    (hentries : ∀ t h', h' ≠ h → t ∈ L h' → m' (.entry t) = m (.entry t))
    (hfresh : ∀ t ∈ ts, t ∈ L h ∨ Unlinked L t)
    (hnodup : ts.Nodup) (hstored : Stored ring m' h ts) :
    Linkage ring m' (update L h ts) := by
  have hother : ∀ h' t, h' ≠ h → t ∈ ts → t ∉ L h' := by
    intro h' t hne ht ht'
    rcases hfresh t ht with hin | hun
    · exact hne (hL.disjoint h' h t ht' hin)
    · exact hun h' ht'
  refine ⟨fun h' => ?_, fun h' => ?_, fun h₁ h₂ t h1 h2 => ?_⟩
  · by_cases hh : h' = h
    · subst hh
      simpa using hstored
    · rw [update_of_ne hh]
      exact stored_congr (hheads h' hh) (fun t ht => hentries t h' hh ht) (hL.stored h')
  · by_cases hh : h' = h
    · subst hh
      simpa using hnodup
    · rw [update_of_ne hh]
      exact hL.nodup h'
  · by_cases e1 : h₁ = h <;> by_cases e2 : h₂ = h
    · rw [e1, e2]
    · subst e1
      rw [update_self] at h1
      rw [update_of_ne e2] at h2
      exact absurd h2 (hother h₂ t e2 h1)
    · subst e2
      rw [update_self] at h2
      rw [update_of_ne e1] at h1
      exact absurd h1 (hother h₁ t e1 h2)
    · rw [update_of_ne e1] at h1
      rw [update_of_ne e2] at h2
      exact hL.disjoint h₁ h₂ t h1 h2

theorem Linkage.update_unlinked [DecidableEq T] (hL : Linkage ring m L)
    (ht : Unlinked L t) (l : Link T) : Linkage ring (update m (.entry t) l) L := by
  have hne : ∀ h, ∀ u ∈ L h, update m (.entry t) l (.entry u) = m (.entry u) := by
    intro h u hu
    have hut : u ≠ t := fun hut => ht h (hut ▸ hu)
    simp [hut]
  exact ⟨fun h => stored_congr (by simp) (hne h) (hL.stored h), hL.nodup, hL.disjoint⟩

end Riot.Lib
