/-!
# Longest matching prefixes

A prefix of `n` bits is stored as a whole word of bits that is zero behind them.
Such words can be compared with a destination by the number of leading bits they
have in common with it. The order this gives on the prefixes of one destination
is that of their lengths, except that prefixes stored as the same word are not
told apart.

The second part is the search for the first largest element of a table.
-/

namespace Riot.Lib

open List

/-! ## Words that are zero behind a prefix -/

/-- The first `n` bits of `a` and `b` are equal. -/
def AgreeTo (n : Nat) (a b : Nat → Bool) : Prop := ∀ i, i < n → a i = b i

/-- `a` has no bit set from `n` on. -/
def ZeroFrom (n : Nat) (a : Nat → Bool) : Prop := ∀ i, n ≤ i → a i = false

variable {a b d : Nat → Bool} {m n k : Nat}

theorem AgreeTo.symm (h : AgreeTo n a b) : AgreeTo n b a := fun i hi => (h i hi).symm

theorem AgreeTo.trans {c : Nat → Bool} (hab : AgreeTo n a b) (hbc : AgreeTo n b c) :
    AgreeTo n a c := fun i hi => (hab i hi).trans (hbc i hi)

theorem ZeroFrom.ext (ha : ZeroFrom n a) (hb : ZeroFrom n b) (h : AgreeTo n a b) : a = b := by
  funext i
  rcases Nat.lt_or_ge i n with hi | hi
  · exact h i hi
  · rw [ha i hi, hb i hi]

/-- Of two prefixes of `d` the longer has at least as many leading bits in common with `d`. -/
theorem AgreeTo.of_shorter (ha : ZeroFrom m a) (hb : ZeroFrom n b) (hmn : m ≤ n)
    (hbd : AgreeTo n b d) (h : AgreeTo k a d) : AgreeTo k b d := by
  intro i hi
  rcases Nat.lt_or_ge i n with hin | hin
  · exact hbd i hin
  · -- behind both prefixes the shorter shows what `d` has there
    rw [hb i hin, ← h i hi, ha i (by omega)]

/-- If the shorter prefix has as many bits in common with `d`, both are stored alike. -/
theorem ZeroFrom.eq_of_agreeTo (ha : ZeroFrom m a) (hb : ZeroFrom n b) (hmn : m ≤ n)
    (hbd : AgreeTo n b d) (had : AgreeTo n a d) : a = b :=
  ZeroFrom.ext (fun i hi => ha i (by omega)) hb (had.trans hbd.symm)

/-! ## The first largest element -/

section Scan

variable {α : Type} (ok : α → Prop) (key : α → Nat)

/-- The scan of a table with a running result, which only an admissible element
with a larger key replaces. -/
def scanMax [DecidablePred ok] : List α → Option α → Nat → Option α
  | [], res, _ => res
  | x :: xs, res, best =>
    if best < key x ∧ ok x then scanMax xs (some x) (key x) else scanMax xs res best

/-- `x` is the first admissible element of `l` with the largest key. -/
def FirstMax (l : List α) (x : α) : Prop :=
  ∃ as bs, l = as ++ x :: bs ∧ ok x ∧ (∀ y ∈ as, ok y → key y < key x) ∧
    ∀ y ∈ bs, ok y → key y ≤ key x

variable {ok key}

theorem scanMax_ok [DecidablePred ok] : ∀ {l : List α} {res : Option α} {best : Nat} {x : α},
    scanMax ok key l res best = some x → res = some x ∨ x ∈ l ∧ ok x
  | [], _, _, _, h => .inl h
  | y :: ys, res, best, x, h => by
    rw [scanMax] at h
    split at h
    · rename_i hy
      rcases scanMax_ok h with heq | ⟨hmem, hok⟩
      · have hxy : y = x := Option.some.inj heq
        subst hxy
        exact .inr ⟨mem_cons_self, hy.2⟩
      · exact .inr ⟨mem_cons_of_mem _ hmem, hok⟩
    · rcases scanMax_ok h with heq | ⟨hmem, hok⟩
      · exact .inl heq
      · exact .inr ⟨mem_cons_of_mem _ hmem, hok⟩

theorem scanMax_none [DecidablePred ok] : ∀ {l : List α} {res : Option α} {best : Nat},
    (∀ x ∈ l, ok x → key x ≤ best) → scanMax ok key l res best = res
  | [], _, _, _ => rfl
  | x :: xs, res, best, h => by
    have hx : ¬ (best < key x ∧ ok x) := fun hx => absurd (h x (by simp) hx.2) (by omega)
    rw [scanMax, if_neg hx]
    exact scanMax_none fun y hy => h y (by simp [hy])

theorem scanMax_some [DecidablePred ok] : ∀ {l : List α} {res : Option α} {best : Nat},
    (∃ x ∈ l, ok x ∧ best < key x) →
      ∃ x, scanMax ok key l res best = some x ∧ FirstMax ok key l x ∧ best < key x
  | [], _, _, h => by simp at h
  | x :: xs, res, best, h => by
    rw [scanMax]
    by_cases hx : best < key x ∧ ok x
    · rw [if_pos hx]
      by_cases hlater : ∃ y ∈ xs, ok y ∧ key x < key y
      · -- a later element is larger still
        obtain ⟨z, hz, ⟨as, bs, hsplit, hok, hbefore, hafter⟩, hlt⟩ := @scanMax_some _ _ (some x) _ hlater
        refine ⟨z, hz, ⟨x :: as, bs, by rw [hsplit]; rfl, hok, ?_, hafter⟩, by omega⟩
        intro y hy hyok
        rcases mem_cons.mp hy with rfl | hy
        · exact hlt
        · exact hbefore y hy hyok
      · have hle : ∀ y ∈ xs, ok y → key y ≤ key x := fun y hy hyok =>
          Nat.le_of_not_lt fun hlt => hlater ⟨y, hy, hyok, hlt⟩
        exact ⟨x, scanMax_none hle, ⟨[], xs, rfl, hx.2, by simp, hle⟩, hx.1⟩
    · rw [if_neg hx]
      have hrest : ∃ y ∈ xs, ok y ∧ best < key y := by
        obtain ⟨y, hy, hyok, hlt⟩ := h
        rcases mem_cons.mp hy with rfl | hy
        · exact absurd ⟨hlt, hyok⟩ hx
        · exact ⟨y, hy, hyok, hlt⟩
      obtain ⟨z, hz, ⟨as, bs, hsplit, hok, hbefore, hafter⟩, hlt⟩ := @scanMax_some _ _ res _ hrest
      refine ⟨z, hz, ⟨x :: as, bs, by rw [hsplit]; rfl, hok, ?_, hafter⟩, hlt⟩
      intro y hy hyok
      rcases mem_cons.mp hy with rfl | hy
      · -- `x` was passed over, so its key is at most the running best
        have : ¬ best < key y := fun hb => hx ⟨hb, hyok⟩
        omega
      · exact hbefore y hy hyok

theorem FirstMax.le {l : List α} {x y : α} (h : FirstMax ok key l x) (hy : y ∈ l) (hok : ok y) :
    key y ≤ key x := by
  obtain ⟨as, bs, rfl, _, hbefore, hafter⟩ := h
  rcases mem_append.mp hy with hy | hy
  · exact Nat.le_of_lt (hbefore y hy hok)
  · rcases mem_cons.mp hy with rfl | hy
    · exact Nat.le_refl _
    · exact hafter y hy hok

/-- In a table that is scanned by index, what stands before the first largest element is smaller. -/
theorem FirstMax.lt_of_lt {n : Nat} {ok : Fin n → Prop} {key : Fin n → Nat} {x y : Fin n}
    (h : FirstMax ok key (finRange n) x) (hyx : y < x) (hok : ok y) : key y < key x := by
  obtain ⟨as, bs, hsplit, _, hbefore, _⟩ := h
  have hsorted : (as ++ x :: bs).Pairwise (· < ·) := hsplit ▸ pairwise_lt_finRange n
  have hy : y ∈ as ++ x :: bs := hsplit ▸ mem_finRange y
  rcases mem_append.mp hy with hy | hy
  · exact hbefore y hy hok
  · rw [pairwise_append, pairwise_cons] at hsorted
    rcases mem_cons.mp hy with rfl | hy
    · exact absurd hyx (Fin.lt_irrefl y)
    · exact absurd hyx (Fin.lt_asymm (hsorted.2.1.1 y hy))

end Scan

end Riot.Lib
