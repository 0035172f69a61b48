import Riot.Ipv6.NibRoute

/-!
# Isolation of the off-link entries

Off-link entries and default routers refer to on-link nodes, and several may
refer to the same one. A node is kept while a flag of its mode says that it is
referred to. Prefix list entries of an interface share a node with the
unspecified address; an addition with a next hop that finds one of them writes
its address into the shared node. As long as no addition does that, entries
do not affect each other.
-/

namespace Riot.Ipv6

open Riot.Core Riot.Lib Function Option Finset

variable {N O D : Nat}

/-! ## What the on-link operations keep -/

namespace OnlTable

variable {t t' t'' : OnlTable N} {n m : Fin N}

/-- Something refers to the node: an off-link entry or a default router. -/
def Flagged (t : OnlTable N) (n : Fin N) : Prop :=
  View.dst ∈ (t.nodes n).mode ∨ View.drl ∈ (t.nodes n).mode

/-- Node `n` has the same address and interface in both tables. -/
def SameNode (t t' : OnlTable N) (n : Fin N) : Prop :=
  (t'.nodes n).ipv6 = (t.nodes n).ipv6 ∧ (t'.nodes n).iface = (t.nodes n).iface

/-- Nodes that something refers to keep their address, their interface and these flags. -/
def Keeps (t t' : OnlTable N) : Prop :=
  ∀ n, t.Flagged n → SameNode t t' n ∧
    (View.dst ∈ (t.nodes n).mode → View.dst ∈ (t'.nodes n).mode) ∧
    (View.drl ∈ (t.nodes n).mode → View.drl ∈ (t'.nodes n).mode)

theorem SameNode.refl : SameNode t t n := ⟨rfl, rfl⟩

theorem SameNode.trans (h : SameNode t t' n) (h' : SameNode t' t'' n) : SameNode t t'' n :=
  ⟨h'.1.trans h.1, h'.2.trans h.2⟩

theorem Keeps.refl : t.Keeps t := fun _ _ => ⟨.refl, id, id⟩

theorem Keeps.trans (h : t.Keeps t') (h' : t'.Keeps t'') : t.Keeps t'' := by
  intro n hn
  obtain ⟨hsame, hdst, hdrl⟩ := h n hn
  obtain ⟨hsame', hdst', hdrl'⟩ := h' n (hn.imp hdst hdrl)
  exact ⟨hsame.trans hsame', fun hd => hdst' (hdst hd), fun hd => hdrl' (hdrl hd)⟩

theorem Flagged.mode_ne (h : t.Flagged n) : (t.nodes n).mode ≠ ∅ := by
  intro h0
  unfold Flagged at h
  rw [h0] at h
  simp at h

theorem Keeps.of_node {node : OnlEntry} (hnodes : t'.nodes = update t.nodes n node)
    (hn : t.Flagged n → node.ipv6 = (t.nodes n).ipv6 ∧ node.iface = (t.nodes n).iface ∧
      (View.dst ∈ (t.nodes n).mode → View.dst ∈ node.mode) ∧
      (View.drl ∈ (t.nodes n).mode → View.drl ∈ node.mode)) : t.Keeps t' := by
  intro m hm
  by_cases heq : m = n
  · subst heq
    obtain ⟨hip, hif, hdst, hdrl⟩ := hn hm
    simp only [SameNode, hnodes, update_self]
    exact ⟨⟨hip, hif⟩, hdst, hdrl⟩
  · simp only [SameNode, hnodes, update_of_ne heq]
    exact ⟨⟨trivial, trivial⟩, id, id⟩

theorem Keeps.of_nodes (h : t'.nodes = t.nodes) : t.Keeps t' := by
  intro n _
  unfold SameNode
  rw [h]
  exact ⟨⟨rfl, rfl⟩, id, id⟩

theorem keeps_setMode (flag : View) : t.Keeps (t.setMode n flag) :=
  .of_node rfl fun _ => ⟨rfl, rfl, mem_insert_of_mem, mem_insert_of_mem⟩

theorem keeps_unsetMode {flag : View} (hdst : flag ≠ .dst) (hdrl : flag ≠ .drl) :
    t.Keeps (t.unsetMode n flag) :=
  .of_node rfl fun _ => ⟨rfl, rfl, fun h => mem_erase.mpr ⟨hdst.symm, h⟩,
    fun h => mem_erase.mpr ⟨hdrl.symm, h⟩⟩

theorem keeps_onlClear : t.Keeps (t.onlClear n) := by
  by_cases h : (t.nodes n).mode = ∅
  · rw [onlClear_empty h]
    exact .of_node rfl fun hf => absurd h hf.mode_ne
  · rw [onlClear_used h]
    exact .refl

variable {addr : Addr} {iface : Iface} {cstate : NudState}

theorem keeps_fresh {addr : Option Addr} (h : (t.nodes n).mode = ∅) :
    t.Keeps (t.fresh addr iface n) := .of_node rfl fun hf => absurd h hf.mode_ne

theorem keeps_onlAlloc {addr : Option Addr} {iface : Iface} : t.Keeps (t.onlAlloc addr iface).2 := by
  rcases onlAlloc_cases t addr iface with ⟨n, _, _, heq⟩ | ⟨n, hempty, _, heq⟩ | ⟨_, heq⟩
  · rw [heq]
    exact .refl
  · rw [heq]
    exact keeps_fresh hempty
  · rw [heq]
    exact .refl

theorem keeps_ncRemove : t.Keeps (t.ncRemove n) := by
  have hmode : t.Keeps (t.unsetMode n .nc) := keeps_unsetMode (by decide) (by decide)
  have hlist : (t.unsetMode n .nc).Keeps
      ⟨(t.unsetMode n .nc).nodes, clistRemove t.mem (N + 1) nextRemovable n⟩ := .of_nodes rfl
  exact (hmode.trans hlist).trans keeps_onlClear

theorem IsGc.not_flagged (h : IsGc (t.nodes n)) : ¬ t.Flagged n := by
  have hsub : ∀ v, v ∈ (t.nodes n).mode → v = .nc := by
    intro v hv
    by_contra hne
    have : v ∈ (t.nodes n).mode.erase .nc := mem_erase.mpr ⟨hne, hv⟩
    rw [h.1] at this
    simp at this
  rintro (hd | hd)
  · cases hsub _ hd
  · cases hsub _ hd

theorem keeps_cacheOut (h : IsGc (t.nodes n)) : t.Keeps (t.cacheOut addr iface cstate n) := by
  intro m hm
  have hne : m ≠ n := by
    rintro rfl
    exact h.not_flagged hm
  have hnodes : (t.cacheOut addr iface cstate n).nodes m = (t.ncRemove n).nodes m := by
    unfold cacheOut overrideNode
    rw [setNode_ne _ hne, setNode_ne _ hne]
    unfold onlClear
    split
    · exact setNode_ne _ hne
    · rfl
  obtain ⟨hsame, hdst, hdrl⟩ := keeps_ncRemove (n := n) m hm
  unfold SameNode at hsame ⊢
  rw [hnodes]
  exact ⟨hsame, hdst, hdrl⟩

theorem keeps_cacheOutLoop {first : Fin N} : ∀ {fuel : Nat} {t : OnlTable N} {tmp : Fin N},
      t.Keeps (cacheOutLoop addr iface cstate first fuel t tmp).2
  | 0, _, _ => .refl
  | fuel + 1, t, tmp => by
    unfold cacheOutLoop
    split
    · rename_i hgc
      exact (keeps_cacheOut hgc).trans (.of_nodes rfl)
    · split
      · rename_i tmp' t' heq
        have hpop : t'.nodes = t.nodes := lpop_nodes (t := t.rpush tmp) heq
        split
        · exact .of_nodes hpop
        · exact Keeps.trans (.of_nodes hpop) keeps_cacheOutLoop
      · rename_i t' _ heq
        have hpop : t'.nodes = t.nodes := lpop_nodes (t := t.rpush tmp) heq
        exact .of_nodes hpop

theorem keeps_ncMark : t.Keeps (t.ncMark cstate n) := by
  refine .of_node ncMark_nodes fun _ => ?_
  split
  · exact ⟨rfl, rfl, id, id⟩
  · exact ⟨rfl, rfl, mem_insert_of_mem, mem_insert_of_mem⟩

theorem keeps_ncAdd : t.Keeps (t.ncAdd addr iface cstate).2 := by
  have halloc := @keeps_onlAlloc _ t (some addr) iface
  unfold ncAdd
  split
  · rename_i t' heq
    rw [heq] at halloc
    refine halloc.trans ?_
    unfold cacheOutOnlEntry
    split
    · rename_i hpop
      exact Keeps.trans (.of_nodes (lpop_nodes hpop)) keeps_cacheOutLoop
    · exact .refl
  · rename_i t' heq
    rw [heq] at halloc
    exact halloc.trans keeps_ncMark

theorem keeps_dadAdd : t.Keeps (t.dadAdd addr).2 := by
  have halloc := @keeps_onlAlloc _ t (some addr) 0
  unfold dadAdd
  split
  · rename_i heq
    rwa [heq] at halloc
  · rename_i heq
    rw [heq] at halloc
    exact halloc.trans (keeps_setMode .dad)

theorem keeps_dadRemove : t.Keeps (t.dadRemove n) :=
  Keeps.trans (keeps_unsetMode (by decide) (by decide)) keeps_onlClear

end OnlTable

/-! ## References -/

namespace Nib

variable {s s' s'' : Nib N O D} {i j : Fin O} {n : Fin N} {d : Fin D}

/-- The next hop of an entry: address and interface. -/
def hop (s : Nib N O D) (i : Fin O) : Option (Addr × Iface) :=
  (s.dsts i).nextHop.map fun n => ((s.onl.nodes n).ipv6, (s.onl.nodes n).iface)

/-- Every node that is referred to before and after keeps its address and its interface. -/
def RefsKept (s s' : Nib N O D) : Prop :=
  (∀ i n, (s.dsts i).nextHop = some n → (s'.dsts i).nextHop = some n →
    OnlTable.SameNode s.onl s'.onl n) ∧
  ∀ d n, s.defRouters d = some n → s'.defRouters d = some n → OnlTable.SameNode s.onl s'.onl n

/-- There is one prefix list entry for an interface and a prefix. -/
def PlUnique (s : Nib N O D) : Prop :=
  ∀ i j n m, View.pl ∈ (s.dsts i).mode → View.pl ∈ (s.dsts j).mode →
    (s.dsts i).nextHop = some n → (s.dsts j).nextHop = some m →
    (s.onl.nodes n).iface = (s.onl.nodes m).iface → (s.dsts i).pfxLen = (s.dsts j).pfxLen →
    (s.dsts i).pfx = (s.dsts j).pfx → i = j

/-- The node is flagged for what refers to it, a router is listed once, and a prefix is behind an
unspecified next hop at most once for an interface, where all prefix list entries are. -/
structure RefsOk (s : Nib N O D) : Prop where
  table : s.TableOk
  dst : ∀ i n, (s.dsts i).nextHop = some n → View.dst ∈ (s.onl.nodes n).mode
  drl : ∀ d n, s.defRouters d = some n → View.drl ∈ (s.onl.nodes n).mode
  drInj : ∀ d d' n, s.defRouters d = some n → s.defRouters d' = some n → d = d'
  pl : ∀ i n, View.pl ∈ (s.dsts i).mode → (s.dsts i).nextHop = some n →
    (s.onl.nodes n).ipv6 = addrUnspecified
  unique : ∀ i j n m, (s.dsts i).nextHop = some n → (s.dsts j).nextHop = some m →
    (s.onl.nodes n).ipv6 = addrUnspecified → (s.onl.nodes m).ipv6 = addrUnspecified →
    (s.onl.nodes n).iface = (s.onl.nodes m).iface → (s.dsts i).pfxLen = (s.dsts j).pfxLen →
    (s.dsts i).pfx = (s.dsts j).pfx → i = j

theorem RefsOk.plUnique (hs : s.RefsOk) : s.PlUnique :=
  fun i j n m hi hj hn hm => hs.unique i j n m hn hm (hs.pl i n hi hn) (hs.pl j m hj hm)

theorem refsOk_init : (init : Nib N O D).RefsOk where
  table := tableOk_init
  dst := fun _ _ h => by cases h
  drl := fun _ _ h => by cases h
  drInj := fun _ _ _ h => by cases h
  pl := fun _ _ _ h => by cases h
  unique := fun _ _ _ _ h => by cases h

/-- Nothing is referred to that was not before, and what is referred to is kept. -/
structure Less (s s' : Nib N O D) : Prop where
  table : s.TableOk → s'.TableOk
  entry : ∀ i n, (s'.dsts i).nextHop = some n → (s.dsts i).nextHop = some n ∧
    (s'.dsts i).pfx = (s.dsts i).pfx ∧ (s'.dsts i).pfxLen = (s.dsts i).pfxLen ∧
    (View.pl ∈ (s'.dsts i).mode → View.pl ∈ (s.dsts i).mode)
  router : ∀ d n, s'.defRouters d = some n → s.defRouters d = some n
  entryNode : s.RefsOk → ∀ i n, (s'.dsts i).nextHop = some n →
    OnlTable.SameNode s.onl s'.onl n ∧ View.dst ∈ (s'.onl.nodes n).mode
  routerNode : s.RefsOk → ∀ d n, s'.defRouters d = some n →
    OnlTable.SameNode s.onl s'.onl n ∧ View.drl ∈ (s'.onl.nodes n).mode

theorem Less.refsOk (h : s.Less s') (hs : s.RefsOk) : s'.RefsOk where
  table := h.table hs.table
  dst := fun i n hn => (h.entryNode hs i n hn).2
  drl := fun d n hn => (h.routerNode hs d n hn).2
  drInj := fun d d' n hd hd' => hs.drInj d d' n (h.router d n hd) (h.router d' n hd')
  pl := by
    intro i n hi hn
    obtain ⟨hold, -, -, hpl⟩ := h.entry i n hn
    rw [(h.entryNode hs i n hn).1.1]
    exact hs.pl i n (hpl hi) hold
  unique := by
    intro i j n m hn hm hnu hmu hif hlen hpfx
    obtain ⟨hni, hpi, hli, -⟩ := h.entry i n hn
    obtain ⟨hmj, hpj, hlj, -⟩ := h.entry j m hm
    have hsn := (h.entryNode hs i n hn).1
    have hsm := (h.entryNode hs j m hm).1
    rw [hsn.1] at hnu
    rw [hsm.1] at hmu
    rw [hsn.2, hsm.2] at hif
    rw [hli, hlj] at hlen
    rw [hpi, hpj] at hpfx
    exact hs.unique i j n m hni hmj hnu hmu hif hlen hpfx

theorem Less.trans (h : s.Less s') (h' : s'.Less s'') : s.Less s'' where
  table := fun ht => h'.table (h.table ht)
  entry := by
    intro i n hn
    obtain ⟨hn', hp', hl', hpl'⟩ := h'.entry i n hn
    obtain ⟨hn0, hp, hl, hpl⟩ := h.entry i n hn'
    exact ⟨hn0, hp'.trans hp, hl'.trans hl, fun hv => hpl (hpl' hv)⟩
  router := fun d n hn => h.router d n (h'.router d n hn)
  entryNode := by
    intro hs i n hn
    have hs' := h.refsOk hs
    have hn' := (h'.entry i n hn).1
    have hlast := h'.entryNode hs' i n hn
    exact ⟨(h.entryNode hs i n hn').1.trans hlast.1, hlast.2⟩
  routerNode := by
    intro hs d n hn
    have hs' := h.refsOk hs
    have hn' := h'.router d n hn
    have hlast := h'.routerNode hs' d n hn
    exact ⟨(h.routerNode hs d n hn').1.trans hlast.1, hlast.2⟩

theorem Less.refsKept (h : s.Less s') (hs : s.RefsOk) : s.RefsKept s' :=
  ⟨fun i n _ hn => (h.entryNode hs i n hn).1, fun d n _ hn => (h.routerNode hs d n hn).1⟩

theorem less_of_keeps {t : OnlTable N} {p : Option (Fin D)} (h : s.onl.Keeps t) :
    s.Less { s with onl := t, primeDefRouter := p } where
  table := fun ht => ht.of_dsts rfl
  entry := fun _ _ hn => ⟨hn, rfl, rfl, id⟩
  router := fun _ _ hn => hn
  entryNode := by
    intro hs i n hn
    obtain ⟨hsame, hdst, -⟩ := h n (.inl (hs.dst i n hn))
    exact ⟨hsame, hdst (hs.dst i n hn)⟩
  routerNode := by
    intro hs d n hn
    obtain ⟨hsame, -, hdrl⟩ := h n (.inr (hs.drl d n hn))
    exact ⟨hsame, hdrl (hs.drl d n hn)⟩

/-- An entry is changed in other fields than those of the reference, or loses a view. -/
theorem less_setDst {e : OfflEntry N} (he : s.TableOk → EntryOk e) (hhop : e.nextHop = (s.dsts i).nextHop)
    (hpfx : e.pfx = (s.dsts i).pfx) (hlen : e.pfxLen = (s.dsts i).pfxLen)
    (hpl : View.pl ∈ e.mode → View.pl ∈ (s.dsts i).mode) : s.Less (s.setDst i e) where
  table := fun ht => ht.setDst (he ht)
  entry := by
    intro j n hn
    by_cases hj : j = i
    · subst hj
      rw [setDst_self] at hn ⊢
      exact ⟨hhop ▸ hn, hpfx, hlen, hpl⟩
    · rw [setDst_ne _ hj] at hn ⊢
      exact ⟨hn, rfl, rfl, id⟩
  router := fun _ _ hn => hn
  entryNode := by
    intro hs j n hn
    refine ⟨.refl, ?_⟩
    by_cases hj : j = i
    · subst hj
      rw [setDst_self, hhop] at hn
      exact hs.dst j n hn
    · rw [setDst_ne _ hj] at hn
      exact hs.dst j n hn
  routerNode := fun hs d n hn => ⟨.refl, hs.drl d n hn⟩

theorem less_clear (t : OnlTable N) (hkeep : ∀ m, (s.dsts i).nextHop ≠ some m ∨ s.Shared i →
      s.onl.Flagged m → OnlTable.SameNode s.onl t m ∧
        (View.dst ∈ (s.onl.nodes m).mode → View.dst ∈ (t.nodes m).mode))
    (hdrl : ∀ m, View.drl ∈ (s.onl.nodes m).mode → OnlTable.SameNode s.onl t m ∧
      View.drl ∈ (t.nodes m).mode) :
    s.Less ({ s with onl := t }.setDst i .zero) where
  table := fun ht => TableOk.setDst (ht.of_dsts rfl) entryOk_zero
  entry := by
    intro j n hn
    by_cases hj : j = i
    · subst hj
      rw [setDst_self] at hn
      cases hn
    · rw [setDst_ne _ hj] at hn ⊢
      exact ⟨hn, rfl, rfl, id⟩
  router := fun _ _ hn => hn
  entryNode := by
    intro hs j n hn
    by_cases hj : j = i
    · subst hj
      rw [setDst_self] at hn
      cases hn
    · rw [setDst_ne _ hj] at hn
      have hdst : View.dst ∈ (s.onl.nodes n).mode := hs.dst j n hn
      -- if it is also the next hop of the cleared entry, that entry shares it
      have hother : (s.dsts i).nextHop ≠ some n ∨ s.Shared i := by
        by_cases hi : (s.dsts i).nextHop = some n
        · exact .inr ⟨j, fun h => hj h.symm, hi.trans hn.symm⟩
        · exact .inl hi
      obtain ⟨hsame, hd⟩ := hkeep n hother (.inl hdst)
      exact ⟨hsame, hd hdst⟩
  routerNode := fun hs d n hn => hdrl n (hs.drl d n hn)

theorem offlRelease_cases (s : Nib N O D) (i : Fin O) : s.offlRelease i = s ∨
    ∃ n, (s.dsts i).nextHop = some n ∧ ¬ s.Shared i ∧
      s.offlRelease i = { s with onl := (s.onl.unsetMode n .dst).onlClear n } := by
  unfold offlRelease
  split
  · rename_i n hn
    split
    · exact .inl rfl
    · rename_i hno
      exact .inr ⟨n, hn, hno, rfl⟩
  · exact .inl rfl

/-- **A removal.** The entry stays in another view; or it is cleared, and with it the flag of a next
hop that it alone refers to. -/
theorem offlRemove_cases (s : Nib N O D) (i : Fin O) (mode : View) :
    ((s.dsts i).mode.erase mode ≠ ∅ ∧ s.offlRemove i mode =
      s.setDst i { s.dsts i with mode := (s.dsts i).mode.erase mode }) ∨
    s.offlRemove i mode = s.setDst i .zero ∨
    ∃ n, (s.dsts i).nextHop = some n ∧ ¬ s.Shared i ∧ s.offlRemove i mode =
      { s with onl := (s.onl.unsetMode n .dst).onlClear n }.setDst i .zero := by
  unfold offlRemove offlClear
  by_cases he : (s.dsts i).mode.erase mode = ∅
  · rw [if_pos (by simpa using he)]
    refine .inr ?_
    rcases offlRelease_cases (s.setDst i { s.dsts i with mode := (s.dsts i).mode.erase mode }) i with
      heq | ⟨n, hn, hno, heq⟩
    · rw [heq, setDst_setDst]
      exact .inl rfl
    · refine .inr ⟨n, by simpa using hn, ?_, ?_⟩
      · rintro ⟨j, hj, hhop⟩
        refine hno ⟨j, hj, ?_⟩
        rw [setDst_self, setDst_ne _ (Ne.symm hj)]
        exact hhop
      · rw [heq]
        simp [setDst]
  · rw [if_neg (by simpa using he)]
    exact .inl ⟨he, rfl⟩

theorem less_offlRemove {mode : View} : s.Less (s.offlRemove i mode) := by
  rcases offlRemove_cases s i mode with ⟨he, heq⟩ | heq | ⟨n, hn, hno, heq⟩
  · rw [heq]
    have hne : (s.dsts i).mode ≠ ∅ := fun h => he (by rw [h]; rfl)
    exact less_setDst (fun ht => EntryOk.setMode (ht i) hne he) rfl rfl rfl
      fun h => (mem_erase.mp h).2
  · rw [heq]
    exact less_clear s.onl (fun _ _ _ => ⟨.refl, id⟩) fun _ h => ⟨.refl, h⟩
  · rw [heq]
    refine less_clear _ ?_ ?_
    · rintro m (hm | hm) hf
      · -- another node, which is not touched
        have hmn : m ≠ n := fun h => hm (by rw [hn, h])
        have hnodes : ((s.onl.unsetMode n .dst).onlClear n).nodes m = s.onl.nodes m := by
          unfold OnlTable.onlClear
          split
          · exact (OnlTable.setNode_ne _ hmn).trans (OnlTable.setNode_ne _ hmn)
          · exact OnlTable.setNode_ne _ hmn
        unfold OnlTable.SameNode
        rw [hnodes]
        exact ⟨⟨rfl, rfl⟩, id⟩
      · exact absurd hm hno
    · intro m hm
      have hunset : OnlTable.SameNode s.onl (s.onl.unsetMode n .dst) m ∧
          View.drl ∈ ((s.onl.unsetMode n .dst).nodes m).mode := by
        by_cases hmn : m = n
        · subst hmn
          simp [OnlTable.SameNode, OnlTable.unsetMode, hm]
        · unfold OnlTable.SameNode OnlTable.unsetMode
          rw [OnlTable.setNode_ne _ hmn]
          exact ⟨⟨rfl, rfl⟩, hm⟩
      obtain ⟨hsame, -, hdrl⟩ := OnlTable.keeps_onlClear (n := n) m (.inr hunset.2)
      exact ⟨hunset.1.trans hsame, hdrl hunset.2⟩

variable {mode : View}

theorem offlRemove_dsts_ne (h : j ≠ i) : (s.offlRemove i mode).dsts j = s.dsts j := by
  rcases offlRemove_cases s i mode with ⟨_, heq⟩ | heq | ⟨n, _, _, heq⟩
  · rw [heq, setDst_ne _ h]
  · rw [heq, setDst_ne _ h]
  · rw [heq, setDst_ne _ h]

/-! ### Removing a default router -/

theorem less_dcRemoveAll : ∀ {l : List (Fin O)} {s : Nib N O D}, s.Less (dcRemoveAll n l s)
  | [], _ => less_of_keeps .refl
  | dc :: rest, s => by
    unfold dcRemoveAll
    split
    · exact Less.trans (@less_offlRemove _ _ _ _ _ .dc) less_dcRemoveAll
    · exact less_dcRemoveAll

theorem dcRemoveAll_dsts (h : ¬ (View.dc ∈ (s.dsts j).mode ∧ (s.dsts j).nextHop = some n)) :
    ∀ {l : List (Fin O)}, (dcRemoveAll n l s).dsts j = s.dsts j := by
  intro l
  induction l generalizing s with
  | nil => rfl
  | cons dc rest ih =>
    unfold dcRemoveAll
    split
    · rename_i hdc
      have hj : j ≠ dc := fun heq => h (heq ▸ hdc)
      have hsame : (s.dcRemove dc).dsts j = s.dsts j := offlRemove_dsts_ne hj
      rw [ih (by rwa [hsame]), hsame]
    · exact ih h

/-- The NIB with other default routers. -/
def withRouters (s : Nib N O D) (f : Fin D → Option (Fin N)) : Nib N O D :=
  { s with defRouters := f }

theorem offlRelease_withRouters (f : Fin D → Option (Fin N)) :
    (s.withRouters f).offlRelease i = (s.offlRelease i).withRouters f := by
  have hdsts : (s.withRouters f).dsts = s.dsts := rfl
  unfold offlRelease
  rw [hdsts]
  split
  · by_cases hs : s.Shared i
    · rw [if_pos hs]
      exact if_pos hs
    · rw [if_neg hs]
      exact if_neg hs
  · rfl

theorem offlRemove_withRouters (f : Fin D → Option (Fin N)) :
    (s.withRouters f).offlRemove i mode = (s.offlRemove i mode).withRouters f := by
  have hset : ∀ e, (s.withRouters f).setDst i e = (s.setDst i e).withRouters f := fun _ => rfl
  have hdsts : (s.withRouters f).dsts = s.dsts := rfl
  unfold offlRemove offlClear
  rw [hdsts, hset, offlRelease_withRouters]
  by_cases he : ((s.setDst i { s.dsts i with mode := (s.dsts i).mode.erase mode }).dsts i).mode = ∅
  · rw [if_pos he]
    exact if_pos he
  · rw [if_neg he]
    exact if_neg he

theorem dcRemoveAll_withRouters (f : Fin D → Option (Fin N)) : ∀ {l : List (Fin O)}
    {s : Nib N O D}, dcRemoveAll n l (s.withRouters f) = (dcRemoveAll n l s).withRouters f
  | [], _ => rfl
  | dc :: rest, s => by
    have hdsts : (s.withRouters f).dsts = s.dsts := rfl
    have hstep : (s.withRouters f).dcRemove dc = (s.dcRemove dc).withRouters f := offlRemove_withRouters f
    unfold dcRemoveAll
    rw [hdsts, hstep]
    split
    · exact dcRemoveAll_withRouters f
    · exact dcRemoveAll_withRouters f

theorem offlRemove_routers : (s.offlRemove i mode).defRouters = s.defRouters := by
  rcases offlRemove_cases s i mode with ⟨_, heq⟩ | heq | ⟨n, _, _, heq⟩
  · rw [heq]; rfl
  · rw [heq]; rfl
  · rw [heq]; rfl

theorem dcRemoveAll_routers : ∀ {l : List (Fin O)} {s : Nib N O D},
    (dcRemoveAll n l s).defRouters = s.defRouters
  | [], _ => rfl
  | dc :: rest, s => by
    unfold dcRemoveAll
    split
    · exact dcRemoveAll_routers.trans offlRemove_routers
    · exact dcRemoveAll_routers

theorem less_dropRouter (hd : s.defRouters d = some n) : s.Less
    { s with
      onl := s.onl.unsetMode n .drl
      defRouters := update s.defRouters d none } where
  table := fun ht => ht.of_dsts rfl
  entry := fun _ _ hn => ⟨hn, rfl, rfl, id⟩
  router := by
    intro d' m hm
    by_cases hdd : d' = d
    · subst hdd
      simp at hm
    · simpa [hdd] using hm
  entryNode := by
    intro hs i m hm
    have hdst := hs.dst i m hm
    by_cases hmn : m = n
    · subst hmn
      simp [OnlTable.SameNode, OnlTable.unsetMode, hdst]
    · simp only [OnlTable.SameNode, OnlTable.unsetMode, OnlTable.setNode_ne _ hmn]
      exact ⟨⟨trivial, trivial⟩, hdst⟩
  routerNode := by
    intro hs d' m hm
    have hdd : d' ≠ d := by
      rintro rfl
      simp at hm
    have hold : s.defRouters d' = some m := by simpa [hdd] using hm
    -- no other entry of the list has this node
    have hmn : m ≠ n := by
      rintro rfl
      exact hdd (hs.drInj d' d m hold hd)
    simp only [OnlTable.SameNode, OnlTable.unsetMode, OnlTable.setNode_ne _ hmn]
    exact ⟨⟨trivial, trivial⟩, hs.drl d' m hold⟩

theorem drlRemove_none (hd : s.defRouters d = none) :
    ∃ p, s.drlRemove d = { s with primeDefRouter := p } := by
  unfold drlRemove
  rw [hd]
  dsimp only
  split
  · exact ⟨none, rfl⟩
  · exact ⟨s.primeDefRouter, rfl⟩

theorem drlRemove_some (hd : s.defRouters d = some n) :
    ∃ p t, t = dcRemoveAll n (List.finRange O) { s with
        onl := s.onl.unsetMode n .drl
        defRouters := update s.defRouters d none } ∧
      s.drlRemove d = { t with onl := t.onl.onlClear n, primeDefRouter := p } := by
  unfold drlRemove
  rw [hd]
  dsimp only
  have hdrop : dcRemoveAll n (List.finRange O) { s with
      onl := s.onl.unsetMode n .drl
      defRouters := update s.defRouters d none } =
      { dcRemoveAll n (List.finRange O) { s with onl := s.onl.unsetMode n .drl } with
        defRouters := update s.defRouters d none } :=
    dcRemoveAll_withRouters (s := { s with onl := s.onl.unsetMode n .drl }) _
  have hrouters : (dcRemoveAll n (List.finRange O)
      { s with onl := s.onl.unsetMode n .drl }).defRouters = s.defRouters := dcRemoveAll_routers
  rw [hrouters]
  split
  · exact ⟨none, _, rfl, by rw [hdrop]⟩
  · refine ⟨(dcRemoveAll n (List.finRange O)
      { s with onl := s.onl.unsetMode n .drl }).primeDefRouter, _, rfl, by rw [hdrop]⟩

theorem less_drlRemove : s.Less (s.drlRemove d) := by
  cases hd : s.defRouters d with
  | none =>
    obtain ⟨p, heq⟩ := drlRemove_none hd
    rw [heq]
    exact less_of_keeps .refl
  | some n =>
    obtain ⟨p, t, ht, heq⟩ := drlRemove_some hd
    rw [heq]
    have hall : s.Less t := ht ▸ (less_dropRouter hd).trans less_dcRemoveAll
    exact hall.trans (less_of_keeps OnlTable.keeps_onlClear)

theorem drlRemove_dsts (h : ∀ n ∈ s.defRouters d,
      ¬ (View.dc ∈ (s.dsts j).mode ∧ (s.dsts j).nextHop = some n)) :
    (s.drlRemove d).dsts j = s.dsts j := by
  cases hd : s.defRouters d with
  | none =>
    obtain ⟨p, heq⟩ := drlRemove_none hd
    rw [heq]
  | some n =>
    obtain ⟨p, t, ht, heq⟩ := drlRemove_some hd
    rw [heq]
    have hn := h n hd
    have hkeep := dcRemoveAll_dsts (n := n) (j := j) (l := List.finRange O) (s := { s with
      onl := s.onl.unsetMode n .drl
      defRouters := update s.defRouters d none }) hn
    rw [← ht] at hkeep
    exact hkeep

/-! ### Adding an entry -/

section Add

variable {nextHop : Option Addr} {iface : Iface} {pfx : Addr} {pfxLen : Nat} {mode : View}

/-- The addition finds an entry whose next hop is unspecified, and has an address for it. -/
def Fills (s : Nib N O D) (nextHop : Option Addr) (iface : Iface) (pfx : Addr) (pfxLen : Nat) : Prop :=
  ∃ i, s.offlFind nextHop iface pfx pfxLen = .found i ∧ ∃ n ∈ (s.dsts i).nextHop,
    (s.onl.nodes n).ipv6 = addrUnspecified ∧ nextHop.getD addrUnspecified ≠ addrUnspecified

theorem offlFind_ne_found (hno : s.NoMatch nextHop iface pfx pfxLen) :
    s.offlFind nextHop iface pfx pfxLen ≠ .found i := by
  rcases offlFind_cases s nextHop iface pfx pfxLen with ⟨j, hj, hm, _⟩ | ⟨_, hf | ⟨_, _, hf⟩⟩
  · exact absurd hm (hno j hj)
  · rw [hf]
    simp
  · rw [hf]
    simp

/-- A matching entry whose next hop is not filled in has the address that is asked for. -/
theorem getD_of_not_fills (hno : ¬ s.Fills nextHop iface pfx pfxLen)
    (hfind : s.offlFind nextHop iface pfx pfxLen = .found i)
    (hm : s.OfflMatches nextHop iface pfx pfxLen i) (hn : (s.dsts i).nextHop = some n) :
    nextHop.getD (s.onl.nodes n).ipv6 = (s.onl.nodes n).ipv6 := by
  obtain ⟨-, -, m, hm', -, hor⟩ := hm
  obtain rfl : m = n := some.inj (hm'.symm.trans hn)
  cases nextHop with
  | none => rfl
  | some a =>
    rcases hor with hu | heq
    · by_contra hne
      exact hno ⟨i, hfind, m, hn, hu, fun ha => hne (ha.trans hu.symm)⟩
    · exact heq

/-- What an addition keeps: the invariant, the nodes referred to, and the other entries. -/
structure Added (s s' : Nib N O D) (r : Option (Fin O)) : Prop where
  refsOk : s'.RefsOk
  keeps : s.onl.Keeps s'.onl
  dsts : ∀ j, r ≠ some j → (s.dsts j).mode ≠ ∅ → s'.dsts j = s.dsts j
  routers : s'.defRouters = s.defRouters

theorem added_found (hs : s.RefsOk) (hmode : (s.dsts i).mode ≠ ∅) (hn : (s.dsts i).nextHop = some n)
    (hpl : mode = .pl → (s.onl.nodes n).ipv6 = addrUnspecified) :
    s.Added ({ s with onl := s.onl.setMode n .dst }.setDst i
      { s.dsts i with mode := insert mode (s.dsts i).mode }) (some i) := by
  have hkeep : s.onl.Keeps (s.onl.setMode n .dst) := OnlTable.keeps_setMode .dst
  -- the references are those of `s`, so only the views have to be looked at
  have hhop : ∀ j, (update s.dsts i
      { s.dsts i with mode := insert mode (s.dsts i).mode } j).nextHop = (s.dsts j).nextHop ∧
      (update s.dsts i { s.dsts i with mode := insert mode (s.dsts i).mode } j).pfx = (s.dsts j).pfx ∧
      (update s.dsts i
        { s.dsts i with mode := insert mode (s.dsts i).mode } j).pfxLen = (s.dsts j).pfxLen := by
    intro j
    by_cases hj : j = i
    · subst hj
      simp
    · simp [hj]
  have hsame : ∀ j m, (s.dsts j).nextHop = some m → OnlTable.SameNode s.onl (s.onl.setMode n .dst) m :=
    fun j m hm => (hkeep m (.inl (hs.dst j m hm))).1
  refine ⟨⟨?_, ?_, ?_, hs.drInj, ?_, ?_⟩, hkeep, ?_, rfl⟩
  · exact TableOk.setDst (hs.table.of_dsts rfl) (EntryOk.setMode (hs.table i) hmode (insert_ne_empty _ _))
  · intro j m hm
    have hm' := (hhop j).1 ▸ hm
    exact (hkeep m (.inl (hs.dst j m hm'))).2.1 (hs.dst j m hm')
  · intro d m hm
    exact (hkeep m (.inr (hs.drl d m hm))).2.2 (hs.drl d m hm)
  · intro j m hj hm
    have hm' := (hhop j).1 ▸ hm
    refine (hsame j m hm').1.trans ?_
    by_cases hji : j = i
    · subst hji
      obtain rfl : n = m := some.inj (hn.symm.trans hm')
      rw [setDst_self] at hj
      rcases mem_insert.mp hj with hv | hv
      · exact hpl hv.symm
      · exact hs.pl j n hv hm'
    · rw [setDst_ne _ hji] at hj
      exact hs.pl j m hj hm'
  · intro j k m m' hm hm' hu hu' hif hlen hpfx
    have hj := (hhop j).1 ▸ hm
    have hk := (hhop k).1 ▸ hm'
    have hsj := hsame j m hj
    have hsk := hsame k m' hk
    refine hs.unique j k m m' hj hk (hsj.1 ▸ hu) (hsk.1 ▸ hu') ?_ ?_ ?_
    · exact hsj.2.symm.trans (hif.trans hsk.2)
    · exact (hhop j).2.2.symm.trans (hlen.trans (hhop k).2.2)
    · exact (hhop j).2.1.symm.trans (hpfx.trans (hhop k).2.1)
  · intro j hj _
    have hji : j ≠ i := fun h => hj (h ▸ rfl)
    exact setDst_ne _ hji

theorem added_new {t : OnlTable N} (hs : s.RefsOk) (hi : (s.dsts i).mode = ∅) (hp : PfxOk pfx pfxLen)
    (hno : s.NoMatch nextHop iface pfx pfxLen) (hkeep : s.onl.Keeps t)
    (hnode : t.Matches nextHop iface n) (hpl : mode = .pl → nextHop = none) :
    s.Added ({ s with onl := t.setMode n .dst }.setDst i (s.newEntry pfx pfxLen mode i n)) (some i) := by
  have hkeep' : s.onl.Keeps (t.setMode n .dst) := hkeep.trans (OnlTable.keeps_setMode .dst)
  have hnode' : (t.setMode n .dst).Matches nextHop iface n := by
    unfold OnlTable.Matches OnlTable.setMode
    rw [OnlTable.setNode_self]
    exact hnode
  have hsame : ∀ j m, (s.dsts j).nextHop = some m → OnlTable.SameNode s.onl (t.setMode n .dst) m :=
    fun j m hm => (hkeep' m (.inl (hs.dst j m hm))).1
  -- an entry with the same prefix behind an unspecified next hop would have matched
  have hfresh : ∀ j m, (s.dsts j).nextHop = some m → ((t.setMode n .dst).nodes m).ipv6 = addrUnspecified →
      iface = ((t.setMode n .dst).nodes m).iface → pfxLen = (s.dsts j).pfxLen →
      initPrefix (s.dsts i).pfx pfx pfxLen = (s.dsts j).pfx → False := by
    intro j m hm hu hif hlen hpfx
    have hmode : (s.dsts j).mode ≠ ∅ := by
      intro h0
      have := ((hs.table j).empty h0).1
      rw [this] at hm
      cases hm
    refine hno j hmode ⟨hlen.symm, ?_, m, hm, ?_, .inl ?_⟩
    · refine (le_matchPrefix hp.2.2).mpr fun k hk => ?_
      rw [← hpfx, bit_initPrefix hp.2.2, if_pos hk]
    · exact (hsame j m hm).2.symm.trans hif.symm
    · exact (hsame j m hm).1.symm.trans hu
  refine ⟨⟨?_, ?_, ?_, hs.drInj, ?_, ?_⟩, hkeep', ?_, rfl⟩
  · exact TableOk.setDst (hs.table.of_dsts rfl) (entryOk_newEntry hs.table hi hp)
  · intro j m hm
    by_cases hji : j = i
    · subst hji
      rw [setDst_self] at hm
      obtain rfl : n = m := some.inj hm
      simp [OnlTable.setMode]
    · rw [setDst_ne _ hji] at hm
      exact (hkeep' m (.inl (hs.dst j m hm))).2.1 (hs.dst j m hm)
  · intro d m hm
    exact (hkeep' m (.inr (hs.drl d m hm))).2.2 (hs.drl d m hm)
  · intro j m hj hm
    by_cases hji : j = i
    · subst hji
      rw [setDst_self] at hj hm
      obtain rfl : n = m := some.inj hm
      have hv : mode = .pl := by
        have hmem : View.pl ∈ insert mode (s.dsts j).mode := hj
        rw [hi] at hmem
        simpa [eq_comm] using hmem
      have haddr := hnode'.2
      rw [hpl hv] at haddr
      exact haddr.symm
    · rw [setDst_ne _ hji] at hj hm
      exact (hsame j m hm).1.trans (hs.pl j m hj hm)
  · intro j k m m' hm hm' hu hu' hif hlen hpfx
    by_cases hji : j = i
    · by_cases hki : k = i
      · rw [hji, hki]
      · subst hji
        rw [setDst_ne _ hki] at hm' hlen hpfx
        rw [setDst_self] at hm hlen hpfx
        obtain rfl : n = m := some.inj hm
        exact (hfresh k m' hm' hu' (hnode'.1.symm.trans hif) hlen hpfx).elim
    · by_cases hki : k = i
      · subst hki
        rw [setDst_ne _ hji] at hm hlen hpfx
        rw [setDst_self] at hm' hlen hpfx
        obtain rfl : n = m' := some.inj hm'
        exact (hfresh j m hm hu (hnode'.1.symm.trans hif.symm) hlen.symm hpfx.symm).elim
      · rw [setDst_ne _ hji] at hm hlen hpfx
        rw [setDst_ne _ hki] at hm' hlen hpfx
        have hsj := hsame j m hm
        have hsk := hsame k m' hm'
        exact hs.unique j k m m' hm hm' (hsj.1.symm.trans hu) (hsk.1.symm.trans hu')
          (hsj.2.symm.trans (hif.trans hsk.2)) hlen hpfx
  · intro j hj _
    have hji : j ≠ i := fun h => hj (h ▸ rfl)
    exact setDst_ne _ hji

theorem added_offlAdd (hs : s.RefsOk) (hp : PfxOk pfx pfxLen) (hpl : mode = .pl → nextHop = none)
    (hno : ¬ s.Fills nextHop iface pfx pfxLen) :
    s.Added (s.offlAdd nextHop iface pfx pfxLen mode).2 (s.offlAdd nextHop iface pfx pfxLen mode).1 := by
  rcases offlAdd_cases hs.table.emptyZero nextHop iface pfx pfxLen mode with
    ⟨i, n, hfind, hne, hm, hn, heq⟩ | ⟨hnm, i, n, _, hi, ⟨_, hmn, heq⟩ | ⟨hempty, heq⟩⟩ |
    ⟨_, ⟨i, hi, heq⟩ | heq⟩
  · have hself : { s.onl.nodes n with ipv6 := nextHop.getD (s.onl.nodes n).ipv6 } = s.onl.nodes n := by
      rw [getD_of_not_fills hno hfind hm hn]
    have hset : s.onl.setNode n (s.onl.nodes n) = s.onl := by
      simp [OnlTable.setNode]
    rw [hself, hset] at heq
    rw [heq]
    refine added_found hs hne hn fun hmode => ?_
    obtain ⟨-, -, m, hm', -, hor⟩ := hm
    obtain rfl : m = n := some.inj (hm'.symm.trans hn)
    rw [hpl hmode] at hor
    exact hor.elim id Eq.symm
  · rw [heq]
    exact added_new hs hi hp hnm .refl hmn hpl
  · rw [heq]
    refine added_new hs hi hp hnm (OnlTable.keeps_fresh hempty) ?_ hpl
    simp [OnlTable.Matches, OnlTable.fresh, OnlTable.AddrEquals]
  · rw [heq]
    have hless : s.Less (s.setDst i .zero) :=
      less_clear s.onl (fun _ _ _ => ⟨.refl, id⟩) fun _ h => ⟨.refl, h⟩
    refine ⟨hless.refsOk hs, .refl, ?_, rfl⟩
    intro j _ hj
    have hji : j ≠ i := fun h => hj (h ▸ hi)
    exact setDst_ne _ hji
  · rw [heq]
    exact ⟨hs, .refl, fun _ _ _ => rfl, rfl⟩

end Add

theorem added_plAdd {iface : Iface} {pfx : Addr} {pfxLen : Nat} {validLtime prefLtime now : BitVec 32}
    (hs : s.RefsOk) (hp : PfxOk pfx pfxLen) :
    s.Added (s.plAdd iface pfx pfxLen validLtime prefLtime now).2
      (s.plAdd iface pfx pfxLen validLtime prefLtime now).1 := by
  have hno : ¬ s.Fills none iface pfx pfxLen := by
    rintro ⟨_, _, _, _, _, hne⟩
    exact hne rfl
  have hadd := @added_offlAdd _ _ _ _ _ _ _ _ .pl hs hp (fun _ => rfl) hno
  unfold plAdd
  split
  · rename_i i s' heq
    rw [heq] at hadd
    -- the lifetimes are written to the entry that was added
    have hless : s'.Less (s'.setDst i { s'.dsts i with
        validUntil := (lifetimes validLtime prefLtime now).1,
        prefUntil := (lifetimes validLtime prefLtime now).2 }) :=
      less_setDst (fun ht => ⟨(ht i).empty, (ht i).hop, (ht i).len, (ht i).zero⟩) rfl rfl rfl id
    refine ⟨hless.refsOk hadd.refsOk, hadd.keeps, ?_, hadd.routers⟩
    intro j hj hmode
    have hji : j ≠ i := fun h => hj (h ▸ rfl)
    rw [setDst_ne _ hji]
    exact hadd.dsts j hj hmode
  · rename_i s' heq
    rw [heq] at hadd
    exact hadd

/-! ### Adding a default router -/

theorem refsOk_drlAdd {routerAddr : Addr} {iface : Iface} (hs : s.RefsOk) :
    (s.drlAdd routerAddr iface).2.RefsOk ∧ s.onl.Keeps (s.drlAdd routerAddr iface).2.onl := by
  rcases drlAdd_cases s routerAddr iface with
    ⟨d, n, _, heq⟩ | ⟨d, n, t, hd, hno, halloc, heq⟩ | heq
  · rw [heq]
    have hkeep : s.onl.Keeps (s.onl.setMode n .drl) := OnlTable.keeps_setMode .drl
    exact ⟨(less_of_keeps hkeep).refsOk hs, hkeep⟩
  · rw [heq]
    have hkeep : s.onl.Keeps t := by
      have h := @OnlTable.keeps_onlAlloc _ s.onl (some routerAddr) iface
      rwa [halloc] at h
    have hkeep' : s.onl.Keeps (t.setMode n .drl) := hkeep.trans (OnlTable.keeps_setMode .drl)
    have hbase := (less_of_keeps (p := s.primeDefRouter) hkeep').refsOk hs
    -- the node is new to the list: an entry with it would have matched
    have hnew : ∀ d', s.defRouters d' ≠ some n := by
      intro d' hd'
      have hmode := hs.drl d' n hd'
      rcases OnlTable.onlAlloc_cases s.onl (some routerAddr) iface with
        ⟨m, _, hm, heq'⟩ | ⟨m, hempty, _, heq'⟩ | ⟨_, heq'⟩
      · obtain rfl : m = n := by simpa using congrArg Prod.fst (heq'.symm.trans halloc)
        exact hno d' ⟨m, hd', hm.1, hm.2⟩
      · obtain rfl : m = n := by simpa using congrArg Prod.fst (heq'.symm.trans halloc)
        rw [hempty] at hmode
        simp at hmode
      · rw [heq'] at halloc
        cases halloc
    refine ⟨⟨hbase.table, hbase.dst, ?_, ?_, hbase.pl, hbase.unique⟩, hkeep'⟩
    · intro d' m hm
      by_cases hdd : d' = d
      · subst hdd
        obtain rfl : n = m := by simpa using hm
        simp [OnlTable.setMode]
      · exact hbase.drl d' m (by simpa [hdd] using hm)
    · intro d1 d2 m h1 h2
      by_cases hd1 : d1 = d
      · by_cases hd2 : d2 = d
        · rw [hd1, hd2]
        · subst hd1
          obtain rfl : n = m := by simpa using h1
          exact absurd (by simpa [hd2] using h2) (hnew d2)
      · by_cases hd2 : d2 = d
        · subst hd2
          obtain rfl : n = m := by simpa using h2
          exact absurd (by simpa [hd1] using h1) (hnew d1)
        · exact hs.drInj d1 d2 m (by simpa [hd1] using h1) (by simpa [hd2] using h2)
  · rw [heq]
    exact ⟨hs, .refl⟩

theorem refsOk_ftAddDefault {nextHop : Addr} {iface : Iface} (hs : s.RefsOk) :
    (s.ftAddDefault nextHop iface).2.RefsOk ∧ s.onl.Keeps (s.ftAddDefault nextHop iface).2.onl := by
  obtain ⟨hok, hkeep⟩ := @refsOk_drlAdd _ _ _ _ nextHop iface hs
  unfold ftAddDefault
  split
  · rename_i d s' heq
    rw [heq] at hok hkeep
    exact ⟨(less_of_keeps .refl).refsOk hok, hkeep⟩
  · rename_i s' heq
    rw [heq] at hok hkeep
    exact ⟨hok, hkeep⟩

theorem refsKept_of_keeps (hs : s.RefsOk) (h : s.onl.Keeps s'.onl) : s.RefsKept s' :=
  ⟨fun i n hn _ => (h n (.inl (hs.dst i n hn))).1, fun d n hn _ => (h n (.inr (hs.drl d n hn))).1⟩

end Nib

/-! ## Calls -/

namespace NibCall

variable {s : Nib N O D} {c : NibCall N O D}

/-- The call writes an address into a next hop that was unspecified. -/
def Fills (s : Nib N O D) : NibCall N O D → Prop
  | ftAdd nextHop iface pfx pfxLen => s.Fills nextHop iface pfx pfxLen
  | dcAdd nextHop iface dst => s.Fills (some nextHop) iface dst Nib.addrBitLen
  | _ => False

/-- The off-link entries that the call is about: the one it adds or removes, and the destination
cache entries of a default router that is removed. -/
def Touches (s : Nib N O D) : NibCall N O D → Fin O → Prop
  | plAdd iface pfx pfxLen validLtime prefLtime now, j =>
    (s.plAdd iface pfx pfxLen validLtime prefLtime now).1 = some j
  | ftAdd nextHop iface pfx pfxLen, j => (s.ftAdd nextHop iface pfx pfxLen).1 = some j
  | dcAdd nextHop iface dst, j => (s.dcAdd nextHop iface dst).1 = some j
  | plRemove i, j => j = i
  | ftRemove i, j => j = i
  | dcRemove i, j => j = i
  | plFlags i _, j => j = i
  | drlRemove d, j => View.dc ∈ (s.dsts j).mode ∧ ∃ n ∈ s.defRouters d, (s.dsts j).nextHop = some n
  | _, _ => False

/-- The call leaves the other off-link entries and their next hops as they are, there is one prefix
list entry for an interface and a prefix, and the nodes referred to keep address and interface. -/
structure Isolated (s : Nib N O D) (c : NibCall N O D) : Prop where
  others : ∀ j, ¬ c.Touches s j → (s.dsts j).mode ≠ ∅ →
    (c.exec s).dsts j = s.dsts j ∧ (c.exec s).hop j = s.hop j
  plUnique : (c.exec s).PlUnique
  refs : s.RefsKept (c.exec s)

theorem hop_of_refsKept {s' : Nib N O D} {j : Fin O} (h : s.RefsKept s') (hj : s'.dsts j = s.dsts j) :
    s'.hop j = s.hop j := by
  unfold Nib.hop
  rw [hj]
  cases hn : (s.dsts j).nextHop with
  | none => rfl
  | some n =>
    obtain ⟨hip, hif⟩ := h.1 j n hn (by rw [hj, hn])
    simp [hip, hif]

theorem step_of_not_fills (hs : s.RefsOk) (hc : c.Asserts) (hno : ¬ c.Fills s) :
    (c.exec s).RefsOk ∧ s.RefsKept (c.exec s) ∧
      ∀ j, ¬ c.Touches s j → (s.dsts j).mode ≠ ∅ → (c.exec s).dsts j = s.dsts j := by
  have hless : ∀ {s' : Nib N O D}, s.Less s' → s'.RefsOk ∧ s.RefsKept s' :=
    fun h => ⟨h.refsOk hs, h.refsKept hs⟩
  have hkeep : ∀ {t : OnlTable N}, s.onl.Keeps t →
      ({ s with onl := t } : Nib N O D).RefsOk ∧ s.RefsKept { s with onl := t } ∧
        ∀ j, ¬ False → (s.dsts j).mode ≠ ∅ → s.dsts j = s.dsts j :=
    fun h => ⟨(hless (Nib.less_of_keeps h)).1, (hless (Nib.less_of_keeps h)).2, fun _ _ _ => rfl⟩
  have hadd : ∀ {s' : Nib N O D} {r : Option (Fin O)}, s.Added s' r → s'.RefsOk ∧ s.RefsKept s' ∧
      ∀ j, ¬ r = some j → (s.dsts j).mode ≠ ∅ → s'.dsts j = s.dsts j :=
    fun h => ⟨h.refsOk, Nib.refsKept_of_keeps hs h.keeps, h.dsts⟩
  cases c with
  | ncAdd addr iface cstate => exact hkeep OnlTable.keeps_ncAdd
  | ncRemove node => exact hkeep OnlTable.keeps_ncRemove
  | ncSet node nud ar => exact hkeep (.of_node rfl fun _ => ⟨rfl, rfl, id, id⟩)
  | dadAdd addr => exact hkeep OnlTable.keeps_dadAdd
  | dadRemove node => exact hkeep OnlTable.keeps_dadRemove
  | drlAdd routerAddr iface =>
    obtain ⟨hok, hk⟩ := @Nib.refsOk_drlAdd _ _ _ _ routerAddr iface hs
    exact ⟨hok, Nib.refsKept_of_keeps hs hk, fun j _ _ => congrFun Nib.drlAdd_dsts j⟩
  | ftAddDefault nextHop iface =>
    obtain ⟨hok, hk⟩ := @Nib.refsOk_ftAddDefault _ _ _ _ nextHop iface hs
    exact ⟨hok, Nib.refsKept_of_keeps hs hk, fun j _ _ => congrFun Nib.ftAddDefault_dsts j⟩
  | drlRemove d =>
    obtain ⟨hok, hk⟩ := hless (Nib.less_drlRemove (d := d))
    exact ⟨hok, hk, fun j hj _ => Nib.drlRemove_dsts fun n hn h => hj ⟨h.1, n, hn, h.2⟩⟩
  | drlGetDr =>
    obtain ⟨hok, hk⟩ := hless (Nib.less_of_keeps (p := s.drlChoose) .refl)
    exact ⟨hok, hk, fun _ _ _ => rfl⟩
  | plAdd iface pfx pfxLen validLtime prefLtime now => exact hadd (Nib.added_plAdd hs hc.1)
  | plFlags i flag =>
    obtain ⟨hok, hk⟩ := hless (Nib.less_setDst (i := i)
      (e := { s.dsts i with flags := insert flag (s.dsts i).flags })
      (fun ht => ⟨(ht i).empty, (ht i).hop, (ht i).len, (ht i).zero⟩) rfl rfl rfl id)
    exact ⟨hok, hk, fun j hj _ => Nib.setDst_ne _ hj⟩
  | plRemove i =>
    obtain ⟨hok, hk⟩ := hless (@Nib.less_offlRemove _ _ _ _ i .pl)
    exact ⟨hok, hk, fun j hj _ => Nib.offlRemove_dsts_ne hj⟩
  | ftAdd nextHop iface pfx pfxLen =>
    exact hadd (Nib.added_offlAdd hs hc (fun h => by cases h) hno)
  | ftRemove i =>
    obtain ⟨hok, hk⟩ := hless (@Nib.less_offlRemove _ _ _ _ i .ft)
    exact ⟨hok, hk, fun j hj _ => Nib.offlRemove_dsts_ne hj⟩
  | dcAdd nextHop iface dst =>
    exact hadd (Nib.added_offlAdd hs hc (fun h => by cases h) hno)
  | dcRemove i =>
    obtain ⟨hok, hk⟩ := hless (@Nib.less_offlRemove _ _ _ _ i .dc)
    exact ⟨hok, hk, fun j hj _ => Nib.offlRemove_dsts_ne hj⟩

/-- An addition that fills in a next hop changes the address of a node that is referred to. -/
theorem not_refsKept_of_fills {nextHop : Option Addr} {iface : Iface} {pfx : Addr} {pfxLen : Nat}
    {mode : View} (hs : s.RefsOk) (h : s.Fills nextHop iface pfx pfxLen) :
    ¬ s.RefsKept (s.offlAdd nextHop iface pfx pfxLen mode).2 := by
  obtain ⟨i, hfind, n, hn, hu, hne⟩ := h
  rcases Nib.offlAdd_cases hs.table.emptyZero nextHop iface pfx pfxLen mode with
    ⟨i', n', hfind', _, _, hn', heq⟩ | ⟨hno, _⟩ | ⟨hno, _⟩
  · obtain rfl : i = i' := by
      have := hfind.symm.trans hfind'
      simpa using this
    obtain rfl : n = n' := some.inj ((mem_def.mp hn).symm.trans hn')
    rw [heq]
    intro hk
    have hsame := (hk.1 i n hn' (by simpa using hn')).1
    have haddr : (({ s with onl := (s.onl.setNode n
        { s.onl.nodes n with ipv6 := nextHop.getD (s.onl.nodes n).ipv6 }).setMode n .dst }.setDst
        i { s.dsts i with mode := insert mode (s.dsts i).mode }).onl.nodes n).ipv6 =
        nextHop.getD (s.onl.nodes n).ipv6 := by
      simp [OnlTable.setMode]
    rw [haddr, hu] at hsame
    exact hne hsame
  · exact absurd hfind (Nib.offlFind_ne_found hno)
  · exact absurd hfind (Nib.offlFind_ne_found hno)

theorem isolated_iff (hs : s.RefsOk) (hc : c.Asserts) : ¬ c.Fills s ↔ c.Isolated s := by
  constructor
  · intro hno
    obtain ⟨hok, hkept, hothers⟩ := step_of_not_fills hs hc hno
    refine ⟨fun j hj hmode => ?_, hok.plUnique, hkept⟩
    have hd := hothers j hj hmode
    exact ⟨hd, hop_of_refsKept hkept hd⟩
  · intro hiso hfills
    cases c with
    | ftAdd nextHop iface pfx pfxLen => exact not_refsKept_of_fills hs hfills hiso.refs
    | dcAdd nextHop iface dst => exact not_refsKept_of_fills hs hfills hiso.refs
    | _ => exact hfills

end NibCall

/-- **Isolation.** In every run the calls leave what they are not about as it is, exactly if none of
them finds an entry behind an unspecified next hop with an address for it. -/
theorem nib_isolation (cs : List (NibCall N O D)) :
    Along nibStep (fun s c => ¬ c.Fills s) Nib.init cs ↔
      Along nibStep NibCall.Isolated Nib.init cs := by
  refine along_iff_along ?_ ?_ cs Nib.refsOk_init
  · intro s c s' hs hstep
    unfold nibStep at hstep
    split at hstep
    · rename_i hc
      exact NibCall.isolated_iff hs hc
    · cases hstep
  · intro s c s' hs hno hstep
    unfold nibStep at hstep
    split at hstep
    · rename_i hc
      cases hstep
      exact (NibCall.step_of_not_fills hs hc hno).1
    · cases hstep

/-- Two prefixes of one interface, the first of which then gets a route. -/
def routeToPrefix : List (NibCall 4 4 1) :=
  [.plAdd 6 addrDb8 48 Nib.uint32Max Nib.uint32Max 0,
    .plAdd 6 addrDb8 64 Nib.uint32Max Nib.uint32Max 0]

/-- The route to the first prefix becomes the next hop of the second. -/
theorem not_nib_isolation : ∃ cs : List (NibCall 4 4 1), ∃ s, nibRun cs = some s ∧
    s.hop 1 = some (linkLocal 1, 6) ∧ ¬ Along nibStep NibCall.Isolated Nib.init cs := by
  have hrun : (nibRun routeToPrefix).any (fun s => decide
      ((s.dsts 1).mode ≠ ∅ ∧ s.hop 1 ≠ some (linkLocal 1, 6) ∧
        (s.ftAdd (some (linkLocal 1)) 6 addrDb8 48).1 = some 0 ∧
        (s.ftAdd (some (linkLocal 1)) 6 addrDb8 48).2.hop 1 = some (linkLocal 1, 6) ∧
        PfxOk addrDb8 48)) = true := by decide +kernel
  obtain ⟨s, hs, hdec⟩ := (Option.any_eq_true _ _).mp hrun
  obtain ⟨hmode, hbefore, hentry, hafter, hpfx⟩ := of_decide_eq_true hdec
  have hstep : nibStep s (.ftAdd (some (linkLocal 1)) 6 addrDb8 48) =
      some (s.ftAdd (some (linkLocal 1)) 6 addrDb8 48).2 := if_pos hpfx
  refine ⟨routeToPrefix ++ [.ftAdd (some (linkLocal 1)) 6 addrDb8 48], _, ?_, hafter, ?_⟩
  · unfold nibRun at hs ⊢
    rw [run_append hs, run, hstep]
    rfl
  · intro hall
    have hiso := Along.last hall hs (by rw [hstep]; rfl)
    have htouch : ¬ (NibCall.ftAdd (some (linkLocal 1)) 6 addrDb8 48).Touches s 1 := by
      intro h
      have h01 : some (0 : Fin 4) = some 1 := hentry.symm.trans h
      simp at h01
    exact hbefore ((hiso.others 1 htouch hmode).2.symm.trans hafter)

end Riot.Ipv6
