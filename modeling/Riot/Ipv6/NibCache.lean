import Riot.Ipv6.NibIsolation
import Mathlib.Data.Fintype.Card

/-!
# Replacement in the neighbor cache

The nodes of the neighbor cache are linked in `_next_removable`. A node that
leaves the cache is unlinked, but its own link is only reset when the whole node
is cleared; a node that another view keeps still has it, and when it enters the
cache again it is taken for linked. As long as that does not happen, the list
holds the nodes of the cache, and when the table is full the first of them that
can be collected is replaced.
-/

namespace Riot.Ipv6

open Riot.Core Riot.Lib Function List

variable {N O D : Nat}

namespace OnlTable

variable {t t' t'' : OnlTable N} {n m : Fin N} {L : List (Fin N)}

/-- `_next_removable` links the nodes `L`, each once. -/
def Linked (t : OnlTable N) (L : List (Fin N)) : Prop :=
  Linkage (fun _ => True) t.mem (fun _ => L)

/-- `_next_removable` links the nodes of the neighbor cache. -/
structure FifoIs (t : OnlTable N) (L : List (Fin N)) : Prop where
  linked : t.Linked L
  mem : ∀ n, View.nc ∈ (t.nodes n).mode ↔ n ∈ L

/-- The list is the same in both tables, and so are the nodes of the neighbor cache. -/
def SameFifo (t t' : OnlTable N) : Prop := ∀ L, t.FifoIs L → t'.FifoIs L

/-! ## The list -/

theorem Linked.nodup (h : t.Linked L) : L.Nodup := Linkage.nodup h ()

theorem Linked.length_le (h : t.Linked L) : L.length ≤ N := by
  simpa using List.Nodup.length_le_card h.nodup

theorem Linked.unique {L' : List (Fin N)} (h : t.Linked L) (h' : t.Linked L') : L = L' :=
  ring_unique (Linkage.ring_of h (h := ()) trivial) (Linkage.ring_of h' (h := ()) trivial) h.nodup h'.nodup

theorem Linked.of_mem (h : t.Linked L) (hmem : t'.mem = t.mem) : t'.Linked L := by
  unfold Linked
  rw [hmem]
  exact h

theorem Linked.reset (h : t.Linked L) (hn : n ∉ L)
    (hmem : t'.mem = update t.mem (.entry n) .null) : t'.Linked L := by
  unfold Linked
  rw [hmem]
  exact Linkage.update_unlinked h (fun _ => hn) _

theorem Linked.next_ne_null (h : t.Linked L) (hn : n ∈ L) : t.mem (.entry n) ≠ .null := by
  obtain ⟨u, -, hu⟩ := next_mem h (h := ()) trivial hn
  rw [hu]
  simp

theorem update_unit (L ts : List (Fin N)) : update (fun _ : Unit => L) () ts = fun _ => ts := by
  funext x
  cases x
  exact update_self ..

theorem Linked.rpush (h : t.Linked L) (hn : n ∉ L) : (t.rpush n).Linked (L ++ [n]) := by
  have hpush := clistRpush_linkage (h := ()) h trivial (fun _ => hn)
  rwa [update_unit] at hpush

theorem Linked.lpop_cons {ts : List (Fin N)} (h : t.Linked (n :: ts)) :
    ∃ t', t.lpop = (.ref n, t') ∧ t'.nodes = t.nodes ∧ t'.Linked ts := by
  refine ⟨_, Prod.ext (clistLpeek_cons (h := ()) h trivial rfl) rfl, rfl, ?_⟩
  have hpop := clistLpop_linkage (h := ()) h trivial rfl
  rwa [update_unit] at hpop

theorem Linked.lpop_nil (h : t.Linked []) : t.lpop.1 = .null := by
  have hring := Linkage.ring_of h (h := ()) trivial
  have hhead : t.mem nextRemovable = .null := (ring_eq_null hring).mpr rfl
  unfold lpop clistLpeek
  rw [hhead]

theorem Linked.remove (h : t.Linked L) (hn : n ∈ L) :
    Linkage (fun _ => True) (clistRemove t.mem (N + 1) nextRemovable n) (fun _ => L.erase n) := by
  have hlen := h.length_le
  have hremove := @clistRemove_linkage _ _ _ _ _ _ _ () _ (N + 1) h trivial hn (by omega)
  rwa [update_unit] at hremove

/-! ## Operations that leave the list as it is -/

theorem SameFifo.refl : t.SameFifo t := fun _ h => h

theorem SameFifo.trans (h : t.SameFifo t') (h' : t'.SameFifo t'') : t.SameFifo t'' :=
  fun L hL => h' L (h L hL)

theorem sameFifo_setNode {node : OnlEntry} (h : View.nc ∈ node.mode ↔ View.nc ∈ (t.nodes n).mode) :
    t.SameFifo (t.setNode n node) := by
  intro L hL
  refine ⟨hL.linked.of_mem rfl, fun m => ?_⟩
  by_cases hm : m = n
  · subst hm
    rw [setNode_self, h]
    exact hL.mem m
  · rw [setNode_ne _ hm]
    exact hL.mem m

theorem sameFifo_setMode {flag : View} (h : flag ≠ .nc) : t.SameFifo (t.setMode n flag) := by
  refine sameFifo_setNode ?_
  simp [h.symm]

theorem sameFifo_unsetMode {flag : View} (h : flag ≠ .nc) : t.SameFifo (t.unsetMode n flag) := by
  refine sameFifo_setNode ?_
  simp [h.symm]

theorem sameFifo_reset {node : OnlEntry} (hempty : (t.nodes n).mode = ∅) (hnode : node.mode = ∅)
    (hnodes : t'.nodes = update t.nodes n node)
    (hmem : t'.mem = update t.mem (.entry n) .null) : t.SameFifo t' := by
  intro L hL
  have hn : n ∉ L := by
    rw [← hL.mem n, hempty]
    simp
  refine ⟨hL.linked.reset hn hmem, fun m => ?_⟩
  rw [hnodes]
  by_cases hm : m = n
  · subst hm
    simp [hnode, hn]
  · rw [update_of_ne hm]
    exact hL.mem m

theorem sameFifo_onlClear : t.SameFifo (t.onlClear n) := by
  by_cases h : (t.nodes n).mode = ∅
  · rw [onlClear_empty h]
    exact sameFifo_reset h rfl rfl rfl
  · rw [onlClear_used h]
    exact .refl

theorem sameFifo_fresh {addr : Option Addr} {iface : Iface} (h : (t.nodes n).mode = ∅) :
    t.SameFifo (t.fresh addr iface n) := sameFifo_reset h rfl rfl rfl

theorem sameFifo_onlAlloc {addr : Option Addr} {iface : Iface} : t.SameFifo (t.onlAlloc addr iface).2 := by
  rcases onlAlloc_cases t addr iface with ⟨n, _, _, heq⟩ | ⟨n, hempty, _, heq⟩ | ⟨_, heq⟩
  · rw [heq]
    exact .refl
  · rw [heq]
    exact sameFifo_fresh hempty
  · rw [heq]
    exact .refl

variable {addr : Addr} {iface : Iface} {cstate : NudState}

theorem sameFifo_dadAdd : t.SameFifo (t.dadAdd addr).2 := by
  have halloc := @sameFifo_onlAlloc _ t (some addr) 0
  unfold dadAdd
  split
  · rename_i heq
    rwa [heq] at halloc
  · rename_i heq
    rw [heq] at halloc
    exact halloc.trans (sameFifo_setMode (by decide))

theorem sameFifo_dadRemove : t.SameFifo (t.dadRemove n) :=
  (sameFifo_unsetMode (by decide)).trans sameFifo_onlClear

/-! ## Removing from the cache -/

theorem fifoIs_ncRemove (h : t.FifoIs L) : (t.ncRemove n).FifoIs (L.erase n) := by
  have hunset : ∀ m, View.nc ∈ ((t.unsetMode n .nc).nodes m).mode ↔ m ∈ L.erase n := by
    intro m
    rw [h.linked.nodup.mem_erase_iff]
    by_cases hm : m = n
    · subst hm
      simp [unsetMode]
    · unfold unsetMode
      rw [setNode_ne _ hm, h.mem m]
      simp [hm]
  have hbase : FifoIs ⟨(t.unsetMode n .nc).nodes, clistRemove t.mem (N + 1) nextRemovable n⟩ (L.erase n) := by
    refine ⟨?_, hunset⟩
    by_cases hn : n ∈ L
    · exact h.linked.remove hn
    · have hsame := @clistRemove_missing _ _ _ _ _ _ _ () _ (N + 1) h.linked trivial hn
      rw [erase_of_not_mem hn]
      exact h.linked.of_mem hsame
  exact sameFifo_onlClear _ hbase

/-! ## Adding to the cache -/

/-- The node is in no cache, but has a link from the last time it was. -/
def Stale (t : OnlTable N) (n : Fin N) : Prop :=
  (t.nodes n).mode ≠ ∅ ∧ View.nc ∉ (t.nodes n).mode ∧ t.mem (.entry n) ≠ .null

theorem fifoIs_ncMark_new {cstate : NudState} (h : t.FifoIs L) (hnc : View.nc ∉ (t.nodes n).mode)
    (hmem : t.mem (.entry n) = .null) : (t.ncMark cstate n).FifoIs (L ++ [n]) := by
  have hn : n ∉ L := fun hn => hnc ((h.mem n).mpr hn)
  refine ⟨?_, fun m => ?_⟩
  · have hpush : (t.ncMark cstate n).mem = (t.rpush n).mem := by
      unfold ncMark
      simp [if_neg hnc, setMode, hmem, rpush]
    exact (h.linked.rpush hn).of_mem hpush
  · rw [ncMark_nodes, if_neg hnc]
    by_cases hm : m = n
    · subst hm
      simp
    · rw [update_of_ne hm, h.mem m]
      simp [hm]

theorem ncMark_queued (h : t.FifoIs L) (hnc : View.nc ∈ (t.nodes n).mode) : t.ncMark cstate n = t := by
  have hnext := h.linked.next_ne_null ((h.mem n).mp hnc)
  unfold ncMark
  simp only [if_pos hnc, if_neg hnext]

theorem ncMark_stale {cstate : NudState} (h : t.Stale n) : (t.ncMark cstate n).mem = t.mem ∧
    View.nc ∈ ((t.ncMark cstate n).nodes n).mode := by
  obtain ⟨-, hnc, hnext⟩ := h
  refine ⟨?_, ?_⟩
  · unfold ncMark
    simp [if_neg hnc, setMode, hnext]
  · rw [ncMark_nodes, if_neg hnc]
    simp

/-- The entry of a neighbor that replaces another. -/
def replacement (addr : Addr) (iface : Iface) (cstate : NudState) : OnlEntry :=
  ⟨addr, cstate, iface, .gc, {View.nc}⟩

theorem cacheOut_eq (hgc : IsGc (t.nodes n)) (h : t.Linked L) (hn : n ∉ L) : t.cacheOut addr iface cstate n =
      ⟨update t.nodes n (replacement addr iface cstate), update t.mem (.entry n) .null⟩ := by
  have hsame : clistRemove t.mem (N + 1) nextRemovable n = t.mem := clistRemove_missing (h := ()) h trivial hn
  have hremove : t.ncRemove n = ⟨update t.nodes n .zero, update t.mem (.entry n) .null⟩ := by
    have hempty : ((⟨(t.unsetMode n .nc).nodes, t.mem⟩ : OnlTable N).nodes n).mode = ∅ := by
      simpa [unsetMode] using hgc.1
    have hlist : t.ncRemove n = onlClear ⟨(t.unsetMode n .nc).nodes, t.mem⟩ n :=
      congrArg (fun mem => onlClear ⟨(t.unsetMode n .nc).nodes, mem⟩ n) hsame
    rw [hlist, onlClear_empty hempty]
    simp [setNode, unsetMode]
  have hfresh : (t.ncRemove n).overrideNode (some addr) iface n = (t.ncRemove n).fresh (some addr) iface n :=
    overrideNode_empty (by rw [hremove]; simp [OnlEntry.zero])
  unfold cacheOut
  simp only [hfresh]
  rw [hremove]
  simp [fresh, setNode, replacement, OnlEntry.zero]

/-! ### With a full table -/

/-- The first node of `L` that can be collected becomes the new neighbor, and no other node
changes. -/
def Replaces (t : OnlTable N) (L : List (Fin N)) (node : OnlEntry)
    (r : Option (Fin N) × OnlTable N) : Prop :=
  ∃ as v bs, L = as ++ v :: bs ∧ (∀ m ∈ as, ¬ IsGc (t.nodes m)) ∧ IsGc (t.nodes v) ∧ r.1 = some v ∧
    r.2.nodes = update t.nodes v node ∧ r.2.Linked (bs ++ as ++ [v])

/-- No node of `L` can be collected, and none is changed. -/
def Declines (t : OnlTable N) (L : List (Fin N)) (r : Option (Fin N) × OnlTable N) : Prop :=
  (∀ m ∈ L, ¬ IsGc (t.nodes m)) ∧ r.1 = none ∧ r.2.nodes = t.nodes ∧
    ∃ L', L'.Perm L ∧ r.2.Linked L'

/-- The loop, when `as` were passed over and requeued behind `bs`, which are to come. -/
theorem cacheOutLoop_spec {addr : Addr} {iface : Iface} {cstate : NudState} {first : Fin N}
    (hnd : L.Nodup) (hfirst : L.head? = some first) : ∀ {bs as : List (Fin N)} {tmp : Fin N}
    {fuel : Nat} {t' : OnlTable N}, t'.nodes = t.nodes → t'.Linked (bs ++ as) →
      L = as ++ tmp :: bs → (∀ m ∈ as, ¬ IsGc (t.nodes m)) → bs.length < fuel →
      Replaces t L (replacement addr iface cstate) (cacheOutLoop addr iface cstate first fuel t' tmp) ∨
        Declines t L (cacheOutLoop addr iface cstate first fuel t' tmp)
  | _, _, _, 0, _, _, _, _, _, hfuel => absurd hfuel (by omega)
  | bs, as, tmp, fuel + 1, t', hnodes, hlinked, hL, has, hfuel => by
    have htmp : tmp ∉ bs ++ as := by
      rw [hL] at hnd
      simp only [nodup_append, nodup_cons] at hnd
      intro hmem
      rcases mem_append.mp hmem with hb | ha
      · exact hnd.2.1.1 hb
      · exact hnd.2.2 tmp ha tmp (by simp) rfl
    unfold cacheOutLoop
    by_cases hgc : IsGc (t'.nodes tmp)
    · -- it is written over while it is out of the list, and then queued
      rw [if_pos hgc, cacheOut_eq hgc hlinked htmp]
      rw [hnodes] at hgc ⊢
      exact .inl ⟨as, tmp, bs, hL, has, hgc, rfl, rfl, (hlinked.reset htmp rfl).rpush htmp⟩
    · rw [if_neg hgc]
      rw [hnodes] at hgc
      have hpush := hlinked.rpush htmp
      have has' : ∀ m ∈ as ++ [tmp], ¬ IsGc (t.nodes m) := by
        intro m hm
        rcases mem_append.mp hm with hm | hm
        · exact has m hm
        · rw [mem_singleton.mp hm]
          exact hgc
      cases bs with
      | cons b bs =>
        have hpush' : (t'.rpush tmp).Linked (b :: (bs ++ (as ++ [tmp]))) := by simpa using hpush
        obtain ⟨t'', hpop, hnodes', hlinked'⟩ := hpush'.lpop_cons
        have hne : b ≠ first := by
          rintro rfl
          rw [hL] at hfirst hnd
          cases as with
          | nil =>
            obtain rfl : tmp = b := by simpa using hfirst
            simp at hnd
          | cons a as =>
            obtain rfl : a = b := by simpa using hfirst
            simp at hnd
        rw [hpop]
        simp only [if_neg hne]
        refine cacheOutLoop_spec hnd hfirst (hnodes'.trans hnodes) hlinked' ?_ has' ?_
        · rw [hL]
          simp
        · simpa using hfuel
      | nil =>
        -- the one taken now is the first one again
        have hL' : L = as ++ [tmp] := hL
        obtain ⟨rest, hrest⟩ : ∃ rest, as ++ [tmp] = first :: rest := by
          rw [← hL']
          exact head?_eq_some_iff.mp hfirst
        have hpush' : (t'.rpush tmp).Linked (first :: rest) := by
          rw [← hrest]
          simpa using hpush
        obtain ⟨t'', hpop, hnodes', hlinked'⟩ := hpush'.lpop_cons
        have hout : first ∉ rest := by
          rw [hL', hrest] at hnd
          exact (nodup_cons.mp hnd).1
        rw [hpop]
        simp only [if_true]
        refine .inr ⟨hL' ▸ has', rfl, hnodes'.trans hnodes, rest ++ [first], ?_, hlinked'.rpush hout⟩
        rw [hL', hrest]
        exact perm_append_singleton first rest

/-- **Replacement.** When no node has the address and none is empty, the first node of the list
that can be collected is replaced; if there is none, no node changes. -/
theorem ncAdd_full {addr : Addr} {iface : Iface} {cstate : NudState} (h : t.FifoIs L)
    (hfull : t.Full (some addr) iface) :
    Replaces t L (replacement addr iface cstate) (t.ncAdd addr iface cstate) ∨
      Declines t L (t.ncAdd addr iface cstate) := by
  have halloc : t.onlAlloc (some addr) iface = (none, t) := by
    rcases onlAlloc_cases t (some addr) iface with ⟨n, _, hm, _⟩ | ⟨n, hempty, _⟩ | ⟨_, heq⟩
    · exact absurd hm (hfull n).2
    · exact absurd hempty (hfull n).1
    · exact heq
  have hadd : t.ncAdd addr iface cstate = t.cacheOutOnlEntry addr iface cstate := by
    unfold ncAdd
    rw [halloc]
  rw [hadd]
  unfold cacheOutOnlEntry
  cases L with
  | nil =>
    have hnil := h.linked.lpop_nil
    have hres : t.lpop = (.null, t.lpop.2) := Prod.ext hnil rfl
    rw [hres]
    exact .inr ⟨by simp, rfl, rfl, [], .refl _, h.linked⟩
  | cons first L =>
    obtain ⟨t', hpop, hnodes, hlinked⟩ := h.linked.lpop_cons
    have hlen := h.linked.length_le
    rw [hpop]
    refine @cacheOutLoop_spec _ _ _ _ _ _ _ h.linked.nodup rfl L [] _ _ _ hnodes ?_ rfl ?_ ?_
    · rwa [append_nil]
    · simp
    · simp at hlen
      omega

theorem Replaces.fifoIs {r : Option (Fin N) × OnlTable N} (h : t.FifoIs L)
    (hr : Replaces t L (replacement addr iface cstate) r) : ∃ L', r.2.FifoIs L' := by
  obtain ⟨as, v, bs, hL, -, -, -, hnodes, hlinked⟩ := hr
  refine ⟨_, hlinked, fun m => ?_⟩
  have hmem : m ∈ bs ++ as ++ [v] ↔ m ∈ L := by
    rw [hL]
    simp only [mem_append, mem_cons]
    tauto
  rw [hnodes, hmem]
  by_cases hm : m = v
  · subst hm
    rw [update_self, hL]
    simp [replacement]
  · rw [update_of_ne hm]
    exact h.mem m

theorem Declines.fifoIs {r : Option (Fin N) × OnlTable N} (h : t.FifoIs L) (hr : Declines t L r) :
    ∃ L', r.2.FifoIs L' := by
  obtain ⟨-, -, hnodes, L', hperm, hlinked⟩ := hr
  refine ⟨L', hlinked, fun m => ?_⟩
  rw [hnodes, hperm.mem_iff]
  exact h.mem m

/-- The addition finds a stale node. -/
def Requeues (t : OnlTable N) (addr : Addr) (iface : Iface) : Prop :=
  ∃ n, t.onlFind (some addr) iface = some n ∧ t.Stale n

/-- An addition to the cache keeps the list exactly if it finds no stale node. -/
theorem fifoIs_ncAdd (h : t.FifoIs L) :
    ¬ t.Requeues addr iface ↔ ∃ L', (t.ncAdd addr iface cstate).2.FifoIs L' := by
  rcases onlAlloc_cases t (some addr) iface with
    ⟨n, hne, hm, heq⟩ | ⟨n, hempty, _, heq⟩ | ⟨hfull, heq⟩
  · have hadd : t.ncAdd addr iface cstate = (some n, t.ncMark cstate n) := by
      unfold ncAdd
      rw [heq]
    have hfind : t.onlFind (some addr) iface = some n := by
      have hfst := congrArg Prod.fst heq
      unfold onlAlloc at hfst
      split at hfst
      · rename_i hfind
        exact hfind.trans hfst
      · cases hfst
    rw [hadd]
    constructor
    · intro hno
      by_cases hnc : View.nc ∈ (t.nodes n).mode
      · exact ⟨L, by rwa [ncMark_queued h hnc]⟩
      · have hnull : t.mem (.entry n) = .null := by
          by_contra hnull
          exact hno ⟨n, hfind, hne, hnc, hnull⟩
        exact ⟨_, fifoIs_ncMark_new h hnc hnull⟩
    · rintro ⟨L', hL'⟩ ⟨m, hm', hstale⟩
      obtain rfl : n = m := Option.some.inj (hfind.symm.trans hm')
      -- the list is the old one, which the node is not in
      obtain ⟨hmem, hnc⟩ := @ncMark_stale _ _ _ cstate hstale
      obtain rfl : L = L' := Linked.unique (h.linked.of_mem hmem) hL'.linked
      exact hstale.2.1 ((h.mem n).mpr ((hL'.mem n).mp hnc))
  · have hadd : t.ncAdd addr iface cstate = (some n, (t.fresh (some addr) iface n).ncMark cstate n) := by
      unfold ncAdd
      rw [heq]
    have hfresh := @sameFifo_fresh _ _ _ (some addr) iface hempty L h
    have hmark := @fifoIs_ncMark_new _ _ n _ cstate hfresh (by simp [fresh, OnlEntry.zero]) (by simp [fresh])
    rw [hadd]
    constructor
    · exact fun _ => ⟨_, hmark⟩
    · rintro - ⟨m, hm', hstale⟩
      have hfst := congrArg Prod.fst heq
      unfold onlAlloc at hfst
      rw [hm'] at hfst
      obtain rfl : m = n := Option.some.inj hfst
      exact hstale.1 hempty
  · constructor
    · intro _
      rcases @ncAdd_full _ _ _ _ _ cstate h hfull with hr | hr
      · exact hr.fifoIs h
      · exact hr.fifoIs h
    · rintro - ⟨m, hm', -⟩
      have hfst := congrArg Prod.fst heq
      unfold onlAlloc at hfst
      rw [hm'] at hfst
      cases hfst

end OnlTable

/-! ## Calls -/

namespace Nib

open OnlTable

variable {s : Nib N O D} {i : Fin O} {d : Fin D} {n : Fin N}

theorem sameFifo_offlAdd {nextHop : Option Addr} {iface : Iface} {pfx : Addr} {pfxLen : Nat}
    {mode : View} (hs : s.TableOk) :
    s.onl.SameFifo (s.offlAdd nextHop iface pfx pfxLen mode).2.onl := by
  have hdst : ∀ {t : OnlTable N} {n : Fin N}, t.SameFifo (t.setMode n .dst) := sameFifo_setMode (by decide)
  rcases offlAdd_cases hs.emptyZero nextHop iface pfx pfxLen mode with
    ⟨i, n, _, _, _, _, heq⟩ | ⟨_, i, n, _, _, ⟨_, _, heq⟩ | ⟨hempty, heq⟩⟩ | ⟨_, ⟨i, _, heq⟩ | heq⟩
  · have haddr : s.onl.SameFifo (s.onl.setNode n
        { s.onl.nodes n with ipv6 := nextHop.getD (s.onl.nodes n).ipv6 }) := sameFifo_setNode Iff.rfl
    rw [heq]
    exact haddr.trans hdst
  · rw [heq]
    exact hdst
  · rw [heq]
    exact (sameFifo_fresh hempty).trans hdst
  · rw [heq]
    exact .refl
  · rw [heq]
    exact .refl

theorem sameFifo_plAdd {iface : Iface} {pfx : Addr} {pfxLen : Nat}
    {validLtime prefLtime now : BitVec 32} (hs : s.TableOk) :
    s.onl.SameFifo (s.plAdd iface pfx pfxLen validLtime prefLtime now).2.onl := by
  have hadd := @sameFifo_offlAdd _ _ _ _ none iface pfx pfxLen .pl hs
  unfold plAdd
  split
  · rename_i heq
    rw [heq] at hadd
    exact hadd
  · rename_i heq
    rw [heq] at hadd
    exact hadd

theorem sameFifo_offlRemove {mode : View} : s.onl.SameFifo (s.offlRemove i mode).onl := by
  rcases offlRemove_cases s i mode with ⟨_, heq⟩ | heq | ⟨n, _, _, heq⟩
  · rw [heq]
    exact .refl
  · rw [heq]
    exact .refl
  · rw [heq]
    exact (sameFifo_unsetMode (by decide)).trans sameFifo_onlClear

theorem sameFifo_dcRemoveAll : ∀ {l : List (Fin O)} {s : Nib N O D}, s.onl.SameFifo (dcRemoveAll n l s).onl
  | [], _ => .refl
  | dc :: rest, s => by
    unfold dcRemoveAll
    split
    · exact SameFifo.trans (@sameFifo_offlRemove _ _ _ _ _ .dc) sameFifo_dcRemoveAll
    · exact sameFifo_dcRemoveAll

theorem sameFifo_drlRemove : s.onl.SameFifo (s.drlRemove d).onl := by
  cases hd : s.defRouters d with
  | none =>
    obtain ⟨p, heq⟩ := drlRemove_none hd
    rw [heq]
    exact .refl
  | some n =>
    obtain ⟨p, t, ht, heq⟩ := drlRemove_some hd
    have hunset : s.onl.SameFifo (s.onl.unsetMode n .drl) := sameFifo_unsetMode (by decide)
    have hall := sameFifo_dcRemoveAll (n := n) (l := finRange O) (s := { s with
      onl := s.onl.unsetMode n .drl
      defRouters := update s.defRouters d none })
    rw [← ht] at hall
    rw [heq]
    exact (hunset.trans hall).trans sameFifo_onlClear

theorem sameFifo_drlAdd {routerAddr : Addr} {iface : Iface} :
    s.onl.SameFifo (s.drlAdd routerAddr iface).2.onl := by
  have hdrl : ∀ {t : OnlTable N} {n : Fin N}, t.SameFifo (t.setMode n .drl) := sameFifo_setMode (by decide)
  rcases drlAdd_cases s routerAddr iface with
    ⟨d, n, _, heq⟩ | ⟨d, n, t, _, _, halloc, heq⟩ | heq
  · rw [heq]
    exact hdrl
  · have ht := @sameFifo_onlAlloc _ s.onl (some routerAddr) iface
    rw [halloc] at ht
    rw [heq]
    exact ht.trans hdrl
  · rw [heq]
    exact .refl

theorem sameFifo_ftAddDefault {nextHop : Addr} {iface : Iface} :
    s.onl.SameFifo (s.ftAddDefault nextHop iface).2.onl := by
  have hadd := @sameFifo_drlAdd _ _ _ s nextHop iface
  unfold ftAddDefault
  split
  · rename_i heq
    rw [heq] at hadd
    exact hadd
  · rename_i heq
    rw [heq] at hadd
    exact hadd

/-- `_next_removable` links the nodes of the neighbor cache, and an addition with a full table
replaces the first of them that can be collected, or changes nothing if there is none. -/
def CacheOk (s : Nib N O D) : Prop :=
  ∃ L, s.onl.FifoIs L ∧ ∀ addr iface cstate, s.onl.Full (some addr) iface →
    Replaces s.onl L (replacement addr iface cstate) (s.onl.ncAdd addr iface cstate) ∨
      Declines s.onl L (s.onl.ncAdd addr iface cstate)

theorem cacheOk_iff : s.CacheOk ↔ ∃ L, s.onl.FifoIs L := by
  constructor
  · rintro ⟨L, hL, -⟩
    exact ⟨L, hL⟩
  · rintro ⟨L, hL⟩
    exact ⟨L, hL, fun addr iface cstate hfull => ncAdd_full hL hfull⟩

theorem cacheOk_init : (init : Nib N O D).CacheOk := by
  refine cacheOk_iff.mpr ⟨[], ⟨fun h => ⟨fun _ => ?_, fun hr => absurd trivial hr⟩, ?_, ?_⟩, ?_⟩
  · exact ring_nil.mpr rfl
  · exact fun _ => nodup_nil
  · exact fun _ _ _ ht => absurd ht (by simp)
  · intro n
    simp [init, OnlEntry.zero]

end Nib

namespace NibCall

variable {s : Nib N O D} {c : NibCall N O D}

/-- The call adds to the cache a node that has a link from the last time it was there. -/
def Requeues (s : Nib N O D) : NibCall N O D → Prop
  | ncAdd addr iface _ => s.onl.Requeues addr iface
  | _ => False

theorem sameFifo_exec (hs : s.TableOk) (hadd : ∀ addr iface cstate, c ≠ .ncAdd addr iface cstate)
    (hremove : ∀ n, c ≠ .ncRemove n) : s.onl.SameFifo (c.exec s).onl := by
  cases c with
  | ncAdd addr iface cstate => exact absurd rfl (hadd addr iface cstate)
  | ncRemove node => exact absurd rfl (hremove node)
  | ncSet node nud ar => exact OnlTable.sameFifo_setNode Iff.rfl
  | dadAdd addr => exact OnlTable.sameFifo_dadAdd
  | dadRemove node => exact OnlTable.sameFifo_dadRemove
  | drlAdd routerAddr iface => exact Nib.sameFifo_drlAdd
  | ftAddDefault nextHop iface => exact Nib.sameFifo_ftAddDefault
  | drlRemove d => exact Nib.sameFifo_drlRemove
  | drlGetDr => exact .refl
  | plAdd iface pfx pfxLen validLtime prefLtime now => exact Nib.sameFifo_plAdd hs
  | plFlags i flag => exact .refl
  | plRemove i => exact Nib.sameFifo_offlRemove
  | ftAdd nextHop iface pfx pfxLen => exact Nib.sameFifo_offlAdd hs
  | ftRemove i => exact Nib.sameFifo_offlRemove
  | dcAdd nextHop iface dst => exact Nib.sameFifo_offlAdd hs
  | dcRemove i => exact Nib.sameFifo_offlRemove

theorem requeues_iff (hs : s.TableOk) (hok : s.CacheOk) : ¬ c.Requeues s ↔ (c.exec s).CacheOk := by
  rw [Nib.cacheOk_iff] at hok ⊢
  obtain ⟨L, hL⟩ := hok
  by_cases hadd : ∃ addr iface cstate, c = .ncAdd addr iface cstate
  · obtain ⟨addr, iface, cstate, rfl⟩ := hadd
    exact OnlTable.fifoIs_ncAdd hL
  · by_cases hremove : ∃ n, c = .ncRemove n
    · obtain ⟨n, rfl⟩ := hremove
      exact ⟨fun _ => ⟨_, OnlTable.fifoIs_ncRemove hL⟩, fun _ => id⟩
    · have hsame : s.onl.SameFifo (c.exec s).onl := sameFifo_exec hs
        (fun addr iface cstate h => hadd ⟨addr, iface, cstate, h⟩) (fun n h => hremove ⟨n, h⟩)
      refine ⟨fun _ => ⟨L, hsame L hL⟩, fun _ hre => ?_⟩
      cases c with
      | ncAdd addr iface cstate => exact hadd ⟨addr, iface, cstate, rfl⟩
      | _ => exact hre

end NibCall

/-- **Neighbor cache replacement.** In every run the list of removable nodes holds the neighbor
cache, and full tables are served from its front, exactly if no addition finds a node that left the
cache while another view kept it. -/
theorem nib_cache (cs : List (NibCall N O D)) :
    Along nibStep (fun s c => ¬ c.Requeues s) Nib.init cs ↔ Always nibStep Nib.CacheOk Nib.init cs := by
  refine along_iff_always (I := Nib.TableOk) ?_ ?_ cs tableOk_init Nib.cacheOk_init
  · intro s c s' hs hok hstep
    unfold nibStep at hstep
    split at hstep
    · cases hstep
      exact NibCall.requeues_iff hs hok
    · cases hstep
  · intro s c s' hs _ _ hstep
    exact nibStep_tableOk hs hstep

attribute [local instance] neZero_two

/-- A neighbor that is also a default router leaves the cache and enters it again. -/
def routerAgain : List (NibCall 2 1 1) :=
  [.ncAdd (linkLocal 1) 6 NudState.stale, .drlAdd (linkLocal 1) 6, .ncRemove 0,
    .ncAdd (linkLocal 1) 6 NudState.stale]

/-- It is in the cache then, but the list is empty. -/
theorem not_nib_cache : ∃ cs : List (NibCall 2 1 1), ¬ Always nibStep Nib.CacheOk Nib.init cs := by
  have hrun : (nibRun routerAgain).any (fun s => decide
      (View.nc ∈ (s.onl.nodes 0).mode ∧ s.onl.mem OnlTable.nextRemovable = .null)) = true := by
    decide +kernel
  obtain ⟨s, hs, hdec⟩ := (Option.any_eq_true _ _).mp hrun
  obtain ⟨hnc, hempty⟩ := of_decide_eq_true hdec
  refine ⟨routerAgain, fun hall => ?_⟩
  obtain ⟨L, hL, -⟩ := hall.last hs
  have hring := Linkage.ring_of hL.linked (h := ()) trivial
  obtain rfl : L = [] := (ring_eq_null hring).mp hempty
  have := (hL.mem 0).mp hnc
  simp at this

end Riot.Ipv6
