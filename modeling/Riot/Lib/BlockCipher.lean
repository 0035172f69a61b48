import Mathlib.Data.Fintype.Perm
import Riot.Lib.Block

/-!
# Block ciphers chosen on the way

A block cipher is a permutation of the blocks. Where few of its values are settled, the others are
free: it can be chosen along a chain of blocks, so that every block that comes to be encrypted is a
new one and the last comes out as wanted. Chains from two different blocks then have nothing to do
with each other, whatever the blocks are that come in.

`Partial` is the cipher as far as it is settled: the pairs of a block and what it becomes.
-/

namespace Riot.Lib

open List Prod Block

variable {k : Nat}

/-- The pairs are of different blocks, and become different blocks. -/
structure Partial (ps : List (Block k × Block k)) : Prop where
  keys : (ps.map Prod.fst).Nodup
  values : (ps.map Prod.snd).Nodup

/-- The cipher does what was settled. -/
def Extends (e : Block k → Block k) (ps : List (Block k × Block k)) : Prop := ∀ p ∈ ps, e p.1 = p.2

theorem Partial.cons {ps : List (Block k × Block k)} {x y : Block k} (h : Partial ps) (hx : x ∉ ps.map fst)
    (hy : y ∉ ps.map snd) : Partial ((x, y) :: ps) :=
  ⟨nodup_cons.mpr ⟨hx, h.keys⟩, nodup_cons.mpr ⟨hy, h.values⟩⟩

theorem Partial.exists_perm : ∀ {ps : List (Block k × Block k)}, Partial ps → ∃ e : Equiv.Perm (Block k), Extends e ps := by
  intro ps
  induction ps with
  | nil => exact fun _ => ⟨Equiv.refl _, fun p hp => nomatch hp⟩
  | cons p ps ih =>
    intro h
    obtain ⟨hx, hkeys⟩ := nodup_cons.mp h.keys
    obtain ⟨hy, hvalues⟩ := nodup_cons.mp h.values
    obtain ⟨e, he⟩ := ih ⟨hkeys, hvalues⟩
    -- The value of the new block is swapped with the one it should have; no other pair has either.
    refine ⟨e.trans (Equiv.swap (e p.1) p.2), fun q hq => ?_⟩
    rw [Equiv.trans_apply]
    rcases mem_cons.mp hq with rfl | hq
    · exact Equiv.swap_apply_left _ _
    · have hne : e q.1 ≠ e p.1 := fun heq => hx (e.injective heq ▸ mem_map_of_mem hq)
      have hne' : e q.1 ≠ p.2 := fun heq => hy (heq ▸ he q hq ▸ mem_map_of_mem hq)
      rw [Equiv.swap_apply_of_ne_of_ne hne hne']
      exact he q hq

theorem exists_block_notMem {bad : List (Block (k + 1))} (c : UInt8) (h : bad.length < 256 ^ k) :
    ∃ y : Block (k + 1), y[0] = c ∧ y ∉ bad := by
  let f : Nat → Block (k + 1) := fun n => ofList (k + 1) (c :: toBytes k n)
  refine Classical.byContradiction fun hall => ?_
  have hsub : (range (256 ^ k)).map f ⊆ bad := by
    intro y hy
    obtain ⟨n, -, rfl⟩ := mem_map.mp hy
    refine Classical.byContradiction fun hmem => hall ⟨f n, ?_, hmem⟩
    rw [getElem_ofList (by omega)]
    rfl
  have hnodup : ((range (256 ^ k)).map f).Nodup := by
    refine List.Nodup.map_on (fun a ha b hb hab => ?_) nodup_range
    have hlist := congrArg Vector.toList hab
    rw [toList_ofList (by rw [length_cons, length_toBytes]),
      toList_ofList (by rw [length_cons, length_toBytes])] at hlist
    rw [← ofBytes_toBytes (mem_range.mp ha), ← ofBytes_toBytes (mem_range.mp hb), (cons.inj hlist).2]
  have hle := (hnodup.subperm hsub).length_le
  rw [length_map, length_range] at hle
  omega

/-- **A chain is settled** from a new block on: its last block gets the first byte `c`, and none of
the blocks of `avoid` is encrypted on the way. -/
theorem Partial.exists_chain {c : UInt8} {avoid : List (Block (k + 1))} :
    ∀ {bs : List (Block (k + 1))} {ps : List (Block (k + 1) × Block (k + 1))} {x : Block (k + 1)}, Partial ps →
      x ∉ ps.map fst → x ∉ avoid → (∀ z ∈ avoid, z ∉ ps.map fst) →
      2 * (ps.length + bs.length) + avoid.length + 1 < 256 ^ k →
      ∃ qs out, Partial qs ∧ (∀ p ∈ ps, p ∈ qs) ∧ (∀ z ∈ avoid, z ∉ qs.map fst) ∧
        qs.length = ps.length + bs.length + 1 ∧ out[0] = c ∧
        ∀ e, Extends e qs → chain e (e x) bs = out := by
  intro bs
  induction bs with
  | nil =>
    intro ps x hps hx hxa hav hsmall
    obtain ⟨y, hc, hy⟩ := @exists_block_notMem _ (ps.map snd) c (by rw [length_map, length_nil] at *; omega)
    refine ⟨(x, y) :: ps, y, hps.cons hx hy, fun p hp => mem_cons_of_mem _ hp, ?_, rfl, hc, ?_⟩
    · intro z hz hmem
      rcases mem_cons.mp hmem with rfl | hmem
      · exact hxa hz
      · exact hav z hz hmem
    · exact fun e he => he _ mem_cons_self
  | cons b bs ih =>
    intro ps x hps hx hxa hav hsmall
    rw [length_cons] at hsmall
    -- What `x` becomes is new, and so is the block that is encrypted next.
    obtain ⟨y, -, hy⟩ := @exists_block_notMem _
      (ps.map snd ++ (x :: ps.map fst ++ avoid).map fun z => z.xor b) 0 (by
        rw [length_append, length_map, length_map, length_append, length_cons, length_map]
        omega)
    rw [mem_append, not_or] at hy
    have hnext : y.xor b ∉ x :: ps.map fst ++ avoid := by
      intro hmem
      have := mem_map_of_mem (f := fun z => xor z b) hmem
      rw [xor_xor_cancel] at this
      exact hy.2 this
    rw [mem_append, not_or] at hnext
    have hav' : ∀ z ∈ avoid, z ∉ ((x, y) :: ps).map fst := by
      intro z hz hmem
      rcases mem_cons.mp hmem with rfl | hmem
      · exact hxa hz
      · exact hav z hz hmem
    obtain ⟨qs, out, hqs, hsub, hqav, hlen, hc, hout⟩ := ih (hps.cons hx hy.1) hnext.1 hnext.2 hav' (by
      rw [length_cons]
      omega)
    refine ⟨qs, out, hqs, fun p hp => hsub p (mem_cons_of_mem _ hp), hqav, ?_, hc, fun e he => ?_⟩
    · rw [hlen, length_cons, length_cons]
      omega
    · have hxy : e x = y := he (x, y) (hsub _ mem_cons_self)
      rw [← hout e he, hxy]
      rfl

/-- **Chains from two different blocks** come out differently with some block cipher, in the first
byte already. -/
theorem exists_chain_ne {x x' : Block (k + 1)} {bs bs' : List (Block (k + 1))} (hne : x ≠ x')
    (hsmall : 2 * (bs.length + bs'.length) + 4 < 256 ^ k) :
    ∃ e : Equiv.Perm (Block (k + 1)), (chain e (e x) bs)[0] ≠ (chain e (e x') bs')[0] := by
  obtain ⟨qs, out, hqs, -, hav, hlen, hc, hout⟩ := @Partial.exists_chain k 0 [x'] bs [] x ⟨nodup_nil, nodup_nil⟩
    (not_mem_nil) (fun h => hne (mem_singleton.mp h)) (fun _ _ => not_mem_nil) (by
      rw [length_nil, length_singleton]
      omega)
  obtain ⟨rs, out', hrs, hsub, -, -, hc', hout'⟩ := @Partial.exists_chain k 1 [] bs' qs x' hqs
    (hav x' (mem_singleton_self _)) (not_mem_nil) (fun z hz => nomatch hz) (by
      rw [hlen, length_nil, length_nil]
      omega)
  obtain ⟨e, he⟩ := hrs.exists_perm
  refine ⟨e, ?_⟩
  rw [hout e fun p hp => he p (hsub p hp), hout' e he, hc, hc']
  decide

end Riot.Lib
