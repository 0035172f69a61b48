import Riot.Ipv6.Nib
import Mathlib.Data.Finset.Max

/-!
# Longest prefix routing

`_nib_offl_get_match` picks the first entry whose stored prefix has the most
leading bits in common with the destination. Stored prefixes are zero behind
their length, so this is an entry with a longest covering prefix, unless shorter
prefixes that are stored alike stand before it: then their place in the table
decides.
-/

namespace Riot.Ipv6

open Riot.Lib

variable {N O D : Nat}

/-! ## The off-link table of a reachable NIB -/

/-- An entry that is empty is zero; another has a next hop and a prefix of 1 to 128 bits. -/
structure EntryOk (e : OfflEntry N) : Prop where
  empty : e.mode = ∅ → e.nextHop = none ∧ e.pfx = addrUnspecified
  hop : e.mode ≠ ∅ → e.nextHop.isSome
  len : e.mode ≠ ∅ → 0 < e.pfxLen ∧ e.pfxLen ≤ 128
  zero : e.mode ≠ ∅ → ZeroFrom e.pfxLen (bit e.pfx)

/-- Every entry of the off-link table is as it should be. -/
def Nib.TableOk (s : Nib N O D) : Prop := ∀ i, EntryOk (s.dsts i)

namespace Nib

variable {s : Nib N O D} {i : Fin O}

theorem TableOk.emptyZero (hs : s.TableOk) : s.EmptyZero := fun i he => (hs i).empty he

theorem entryOk_zero : EntryOk (OfflEntry.zero : OfflEntry N) :=
  ⟨fun _ => ⟨rfl, rfl⟩, fun h => absurd rfl h, fun h => absurd rfl h, fun h => absurd rfl h⟩

theorem TableOk.setDst {e : OfflEntry N} (hs : s.TableOk) (he : EntryOk e) : (s.setDst i e).TableOk := by
  intro j
  by_cases hj : j = i
  · subst hj
    rwa [setDst_self]
  · rw [setDst_ne _ hj]
    exact hs j

theorem TableOk.of_dsts {s' : Nib N O D} (hs : s.TableOk) (h : s'.dsts = s.dsts) : s'.TableOk := by
  intro j
  rw [h]
  exact hs j

theorem EntryOk.setMode {e : OfflEntry N} {mode : Finset View} (h : EntryOk e) (he : e.mode ≠ ∅)
    (hm : mode ≠ ∅) : EntryOk { e with mode := mode } :=
  ⟨fun h0 => absurd h0 hm, fun _ => h.hop he, fun _ => h.len he, fun _ => h.zero he⟩

theorem entryOk_newEntry {pfx : Addr} {pfxLen : Nat} {mode : View} {n : Fin N} (hs : s.TableOk)
    (hi : (s.dsts i).mode = ∅) (hp : PfxOk pfx pfxLen) : EntryOk (s.newEntry pfx pfxLen mode i n) := by
  have hz := ((hs i).empty hi).2
  refine ⟨fun h => absurd h (Finset.insert_ne_empty _ _), fun _ => rfl, fun _ => hp.2, fun _ => ?_⟩
  intro k hk
  change pfxLen ≤ k at hk
  change bit (initPrefix (s.dsts i).pfx pfx pfxLen) k = false
  rw [bit_initPrefix hp.2.2, if_neg (by omega), hz, bit_unspecified]

theorem TableOk.offlAdd {nextHop : Option Addr} {iface : Iface} {pfx : Addr} {pfxLen : Nat}
    {mode : View} (hs : s.TableOk) (hp : PfxOk pfx pfxLen) :
    (s.offlAdd nextHop iface pfx pfxLen mode).2.TableOk := by
  rcases offlAdd_cases hs.emptyZero nextHop iface pfx pfxLen mode with
    ⟨i, n, _, hne, _, _, heq⟩ | ⟨_, i, n, _, hi, ⟨_, _, heq⟩ | ⟨_, heq⟩⟩ | ⟨_, ⟨i, _, heq⟩ | heq⟩
  · rw [heq]
    exact (hs.of_dsts rfl).setDst (EntryOk.setMode (hs i) hne (Finset.insert_ne_empty _ _))
  · rw [heq]
    exact (hs.of_dsts rfl).setDst (entryOk_newEntry hs hi hp)
  · rw [heq]
    exact (hs.of_dsts rfl).setDst (entryOk_newEntry hs hi hp)
  · rw [heq]
    exact hs.setDst entryOk_zero
  · rw [heq]
    exact hs

theorem TableOk.plAdd {iface : Iface} {pfx : Addr} {pfxLen : Nat}
    {validLtime prefLtime now : BitVec 32} (hs : s.TableOk) (hp : PfxOk pfx pfxLen) :
    (s.plAdd iface pfx pfxLen validLtime prefLtime now).2.TableOk := by
  have hadd : (s.offlAdd none iface pfx pfxLen .pl).2.TableOk := hs.offlAdd hp
  unfold Nib.plAdd
  split
  · rename_i i s' heq
    rw [heq] at hadd
    exact hadd.setDst ⟨(hadd i).empty, (hadd i).hop, (hadd i).len, (hadd i).zero⟩
  · rename_i s' heq
    rwa [heq] at hadd

@[simp] theorem offlRelease_dsts : (s.offlRelease i).dsts = s.dsts := by
  unfold offlRelease
  split
  · split <;> rfl
  · rfl

theorem TableOk.offlRemove {mode : View} (hs : s.TableOk) : (s.offlRemove i mode).TableOk := by
  unfold Nib.offlRemove offlClear
  by_cases he : (s.dsts i).mode.erase mode = ∅
  · rw [if_pos (by simpa using he)]
    intro j
    by_cases hj : j = i
    · subst hj
      rw [setDst_self]
      exact entryOk_zero
    · rw [setDst_ne _ hj, offlRelease_dsts, setDst_ne _ hj]
      exact hs j
  · rw [if_neg (by simpa using he)]
    have hne : (s.dsts i).mode ≠ ∅ := fun h => he (by rw [h]; rfl)
    exact hs.setDst (EntryOk.setMode (hs i) hne he)

theorem TableOk.dcRemoveAll {n : Fin N} : ∀ {l : List (Fin O)} {s : Nib N O D}, s.TableOk →
    (Nib.dcRemoveAll n l s).TableOk
  | [], _, hs => hs
  | dc :: rest, s, hs => by
    unfold Nib.dcRemoveAll
    split
    · exact TableOk.dcRemoveAll (s := s.dcRemove dc) hs.offlRemove
    · exact TableOk.dcRemoveAll hs

@[simp] theorem drlAdd_dsts {routerAddr : Addr} {iface : Iface} :
    (s.drlAdd routerAddr iface).2.dsts = s.dsts := by
  unfold drlAdd
  split
  · split <;> rfl
  · split <;> rfl
  · rfl

@[simp] theorem ftAddDefault_dsts {nextHop : Addr} {iface : Iface} :
    (s.ftAddDefault nextHop iface).2.dsts = s.dsts := by
  have hadd := @drlAdd_dsts _ _ _ s nextHop iface
  unfold ftAddDefault
  split
  · rename_i d s' heq
    rw [heq] at hadd
    exact hadd
  · rename_i s' heq
    rw [heq] at hadd
    exact hadd

theorem TableOk.drlRemove {d : Fin D} (hs : s.TableOk) : (s.drlRemove d).TableOk := by
  unfold Nib.drlRemove
  cases hd : s.defRouters d with
  | none =>
    dsimp only
    split
    · exact hs
    · exact hs
  | some n =>
    dsimp only
    have h : (Nib.dcRemoveAll n (List.finRange O) { s with onl := s.onl.unsetMode n .drl }).TableOk :=
      TableOk.dcRemoveAll (hs.of_dsts rfl)
    split
    · exact h
    · exact h

end Nib

theorem nibStep_tableOk {s s' : Nib N O D} {c : NibCall N O D} (hs : s.TableOk)
    (h : nibStep s c = some s') : s'.TableOk := by
  unfold nibStep at h
  split at h
  · rename_i hc
    cases h
    cases c with
    | ncAdd addr iface cstate => exact hs.of_dsts rfl
    | ncRemove node => exact hs.of_dsts rfl
    | ncSet node nud ar => exact hs.of_dsts rfl
    | dadAdd addr => exact hs.of_dsts rfl
    | dadRemove node => exact hs.of_dsts rfl
    | drlAdd routerAddr iface => exact hs.of_dsts Nib.drlAdd_dsts
    | ftAddDefault nextHop iface => exact hs.of_dsts Nib.ftAddDefault_dsts
    | drlRemove d => exact hs.drlRemove
    | drlGetDr => exact hs.of_dsts rfl
    | plAdd iface pfx pfxLen validLtime prefLtime now => exact hs.plAdd hc.1
    | plFlags i flag => exact hs.setDst ⟨(hs i).empty, (hs i).hop, (hs i).len, (hs i).zero⟩
    | plRemove i => exact hs.offlRemove
    | ftAdd nextHop iface pfx pfxLen => exact hs.offlAdd hc
    | ftRemove i => exact hs.offlRemove
    | dcAdd nextHop iface dst => exact hs.offlAdd hc
    | dcRemove i => exact hs.offlRemove
  · cases h

theorem tableOk_init : (Nib.init : Nib N O D).TableOk := fun _ => Nib.entryOk_zero

theorem nibRun_tableOk {cs : List (NibCall N O D)} {s : Nib N O D} (h : nibRun cs = some s) : s.TableOk :=
  run_invariant_all (fun _ _ _ => nibStep_tableOk) cs tableOk_init h

/-! ## The match of a destination -/

namespace Nib

variable {s : Nib N O D} {dst : Addr} {i j : Fin O}

/-- A non-empty entry whose prefix is the one of `dst`. -/
def Covers (s : Nib N O D) (dst : Addr) (i : Fin O) : Prop :=
  (s.dsts i).mode ≠ ∅ ∧ AgreeTo (s.dsts i).pfxLen (bit (s.dsts i).pfx) (bit dst)

instance (s : Nib N O D) (dst : Addr) : DecidablePred (s.Covers dst) := fun _ =>
  inferInstanceAs (Decidable (_ ∧ ∀ i, i < _ → _ = _))

/-- A covering entry none of which is longer. -/
def Longest (s : Nib N O D) (dst : Addr) (i : Fin O) : Prop :=
  s.Covers dst i ∧ ∀ j, s.Covers dst j → (s.dsts j).pfxLen ≤ (s.dsts i).pfxLen

instance (s : Nib N O D) (dst : Addr) : DecidablePred (s.Longest dst) := fun _ =>
  inferInstanceAs (Decidable (_ ∧ ∀ _, _))

/-- What the search compares: the leading bits in common with the destination. -/
def matchBits (s : Nib N O D) (dst : Addr) (i : Fin O) : Nat := matchPrefix (s.dsts i).pfx dst

/-- What the search takes into account. -/
def Candidate (s : Nib N O D) (dst : Addr) (i : Fin O) : Prop :=
  (s.dsts i).mode ≠ ∅ ∧ (s.dsts i).pfxLen ≤ s.matchBits dst i

instance (s : Nib N O D) (dst : Addr) : DecidablePred (s.Candidate dst) := fun _ =>
  inferInstanceAs (Decidable (_ ∧ _))

theorem offlGetMatchLoop_eq (s : Nib N O D) (dst : Addr) : ∀ (l : List (Fin O)) (res : Option (Fin O))
    (best : Nat), s.offlGetMatchLoop dst l res best = scanMax (s.Candidate dst) (s.matchBits dst) l res best
  | [], _, _ => rfl
  | i :: l, res, best => by
    rw [offlGetMatchLoop, scanMax]
    by_cases hmode : (s.dsts i).mode ≠ ∅
    · rw [if_pos hmode]
      by_cases hm : best < s.matchBits dst i ∧ (s.dsts i).pfxLen ≤ s.matchBits dst i
      · have hyes : best < s.matchBits dst i ∧ s.Candidate dst i := ⟨hm.1, hmode, hm.2⟩
        rw [if_pos hyes, ← offlGetMatchLoop_eq s dst l]
        exact if_pos hm
      · have hno : ¬ (best < s.matchBits dst i ∧ s.Candidate dst i) := fun h => hm ⟨h.1, h.2.2⟩
        rw [if_neg hno, ← offlGetMatchLoop_eq s dst l]
        exact if_neg hm
    · have hno : ¬ (best < s.matchBits dst i ∧ s.Candidate dst i) := fun h => hmode h.2.1
      rw [if_neg hmode, if_neg hno, offlGetMatchLoop_eq s dst l]

theorem candidate_iff (hs : s.TableOk) : s.Candidate dst i ↔ s.Covers dst i := by
  constructor
  · rintro ⟨hmode, hm⟩
    exact ⟨hmode, (le_matchPrefix ((hs i).len hmode).2).mp hm⟩
  · rintro ⟨hmode, hm⟩
    exact ⟨hmode, (le_matchPrefix ((hs i).len hmode).2).mpr hm⟩

theorem Covers.matchBits_pos (hs : s.TableOk) (h : s.Covers dst i) : 0 < s.matchBits dst i := by
  have hlen := (hs i).len h.1
  have := (le_matchPrefix hlen.2).mpr h.2
  exact lt_of_lt_of_le hlen.1 this

/-- A longer covering prefix has at least as many bits in common with the destination. -/
theorem matchBits_le (hs : s.TableOk) (hi : s.Covers dst i) (hj : s.Covers dst j)
    (hle : (s.dsts i).pfxLen ≤ (s.dsts j).pfxLen) : s.matchBits dst i ≤ s.matchBits dst j := by
  have hmatch := (le_matchPrefix (matchPrefix_le (s.dsts i).pfx dst)).mp le_rfl
  refine (le_matchPrefix (matchPrefix_le (s.dsts i).pfx dst)).mpr ?_
  exact AgreeTo.of_shorter ((hs i).zero hi.1) ((hs j).zero hj.1) hle hj.2 hmatch

theorem pfx_eq_of_matchBits (hs : s.TableOk) (hi : s.Covers dst i) (hj : s.Covers dst j)
    (hle : (s.dsts i).pfxLen ≤ (s.dsts j).pfxLen) (htie : s.matchBits dst j ≤ s.matchBits dst i) :
    (s.dsts i).pfx = (s.dsts j).pfx := by
  have hlen := (hs j).len hj.1
  have hjm : (s.dsts j).pfxLen ≤ s.matchBits dst j := (le_matchPrefix hlen.2).mpr hj.2
  have him : AgreeTo (s.dsts j).pfxLen (bit (s.dsts i).pfx) (bit dst) :=
    (le_matchPrefix hlen.2).mp (le_trans hjm htie)
  exact addr_ext (((hs i).zero hi.1).eq_of_agreeTo ((hs j).zero hj.1) hle hj.2 him)

/-- **The search.** It ends with the first of the covering entries that have the most bits in
common with the destination. -/
theorem offlGetMatch_some (hs : s.TableOk) (h : ∃ i, s.Covers dst i) :
    ∃ x, s.offlGetMatch dst = some x ∧ s.Covers dst x ∧
      (∀ y, s.Covers dst y → s.matchBits dst y ≤ s.matchBits dst x) ∧
      ∀ y < x, s.Covers dst y → s.matchBits dst y < s.matchBits dst x := by
  obtain ⟨i, hi⟩ := h
  have hex : ∃ y ∈ List.finRange O, s.Candidate dst y ∧ 0 < s.matchBits dst y :=
    ⟨i, List.mem_finRange i, (candidate_iff hs).mpr hi, hi.matchBits_pos hs⟩
  obtain ⟨x, hx, hfirst, -⟩ := @scanMax_some _ _ _ _ _ none _ hex
  have hcand : s.Candidate dst x := by
    obtain ⟨_, _, _, hok, _⟩ := hfirst
    exact hok
  refine ⟨x, ?_, (candidate_iff hs).mp hcand, ?_, ?_⟩
  · rw [offlGetMatch, offlGetMatchLoop_eq, hx]
  · intro y hy
    exact hfirst.le (List.mem_finRange y) ((candidate_iff hs).mpr hy)
  · intro y hyx hy
    exact hfirst.lt_of_lt hyx ((candidate_iff hs).mpr hy)

/-! ## Longest prefixes -/

/-- A shorter covering entry that is stored like a longest one has a longest one before it. -/
def LongestFirst (s : Nib N O D) (dst : Addr) : Prop :=
  ∀ i j, s.Covers dst i → s.Longest dst j → (s.dsts i).pfx = (s.dsts j).pfx →
    (s.dsts i).pfxLen < (s.dsts j).pfxLen → ∃ k < i, s.Longest dst k

instance (s : Nib N O D) (dst : Addr) : Decidable (s.LongestFirst dst) :=
  inferInstanceAs (Decidable (∀ _ _, _))

/-- The default route has precedence over entry `x`, and there is one. -/
def Preceded (s : Nib N O D) (x : Fin O) : Prop := s.OffLinkPl x ∧ s.drlChoose ≠ none

/-- The search ends with a longest covering entry, and so does the choice of a route, unless the
default router has precedence. -/
def UsesLongest (s : Nib N O D) (dst : Addr) : Prop :=
  ∃ x, s.offlGetMatch dst = some x ∧ s.Longest dst x ∧
    (¬ s.Preceded x → ∃ e, (s.getRoute dst).1 = .fte e ∧ s.ftGet x = some e ∧
      e.dstLen = (s.dsts x).pfxLen)

theorem getRoute_of_match {x : Fin O} (hs : s.TableOk) (hx : s.offlGetMatch dst = some x)
    (hc : s.Covers dst x) (hp : ¬ s.Preceded x) : ∃ e, (s.getRoute dst).1 = .fte e ∧
      s.ftGet x = some e ∧ e.dstLen = (s.dsts x).pfxLen := by
  obtain ⟨n, hn⟩ := Option.isSome_iff_exists.mp ((hs x).hop hc.1)
  have hft : s.ftGet x = some
      { dst := (s.dsts x).pfx
        dstLen := (s.dsts x).pfxLen
        primary := false
        iface := (s.onl.nodes n).iface
        nextHop := if (s.dsts x).mode = {View.pl} then addrUnspecified else (s.onl.nodes n).ipv6 } := by
    unfold ftGet
    rw [hn]
    rfl
  refine ⟨_, ?_, hft, rfl⟩
  by_cases hoff : s.OffLinkPl x
  · have hdr : s.drlChoose = none := Decidable.not_not.mp fun h => hp ⟨hoff, h⟩
    have hget : s.drlGetDr = (none, { s with primeDefRouter := none }) := by
      unfold drlGetDr
      rw [hdr]
    simp only [getRoute, hx, if_pos hoff, hget]
    exact congrArg Route.of hft
  · simp only [getRoute, hx, if_neg hoff, hft, Route.of]

theorem usesLongest_iff (hs : s.TableOk) (h : ∃ i, s.Covers dst i) :
    s.UsesLongest dst ↔ s.LongestFirst dst := by
  obtain ⟨x, hx, hxc, hmax, hfirst⟩ := offlGetMatch_some hs h
  constructor
  · rintro ⟨x', hx', hxl, -⟩ i j hi hj hpfx hlt
    obtain rfl : x' = x := Option.some.inj (hx'.symm.trans hx)
    -- `i` ties with the longest ones, so the search met `x'` before it
    refine ⟨x', ?_, hxl⟩
    have hlen : (s.dsts j).pfxLen ≤ (s.dsts x').pfxLen := hxl.2 j hj.1
    have htie : s.matchBits dst i = s.matchBits dst j := by
      unfold matchBits
      rw [hpfx]
    have hjx : s.matchBits dst j = s.matchBits dst x' :=
      le_antisymm (hmax j hj.1) (matchBits_le hs hxc hj.1 (hj.2 x' hxc))
    rcases Nat.lt_trichotomy x'.val i.val with hlt' | heq | hgt
    · exact hlt'
    · obtain rfl : x' = i := Fin.ext heq
      omega
    · have := hfirst i hgt hi
      omega
  · intro hcond
    have hlongest : s.Longest dst x := by
      refine ⟨hxc, ?_⟩
      -- a longest covering entry exists, and it ties with `x`
      obtain ⟨j, hj, hjmax⟩ : ∃ j, s.Covers dst j ∧ ∀ y, s.Covers dst y →
          (s.dsts y).pfxLen ≤ (s.dsts j).pfxLen := by
        classical
        obtain ⟨j, hj, hjmax⟩ := (Finset.univ.filter (s.Covers dst)).exists_max_image
          (fun y => (s.dsts y).pfxLen) ⟨x, by simpa using hxc⟩
        exact ⟨j, by simpa using hj, fun y hy => hjmax y (by simpa using hy)⟩
      by_contra hnot
      have hlt : (s.dsts x).pfxLen < (s.dsts j).pfxLen := by
        refine Nat.lt_of_not_le fun hle => hnot fun y hy => ?_
        exact le_trans (hjmax y hy) hle
      have hpfx := pfx_eq_of_matchBits hs hxc hj (le_of_lt hlt) (hmax j hj)
      obtain ⟨k, hkx, hk⟩ := hcond x j hxc ⟨hj, hjmax⟩ hpfx hlt
      have := hfirst k hkx hk.1
      have := matchBits_le hs hxc hk.1 (hk.2 x hxc)
      omega
    exact ⟨x, hx, hlongest, getRoute_of_match hs hx hxc⟩

end Nib

/-- **Longest prefix routing.** For every content that the tables can reach and every destination
that some entry covers, the search and the route use a longest covering entry exactly if no shorter
one that is stored alike stands before the longest ones. -/
theorem nib_longest_prefix {cs : List (NibCall N O D)} {s : Nib N O D} (hrun : nibRun cs = some s)
    {dst : Addr} (hcov : ∃ i, s.Covers dst i) : s.UsesLongest dst ↔ s.LongestFirst dst :=
  Nib.usesLongest_iff (nibRun_tableOk hrun) hcov

section Example

/-- `2001:db8::` -/
def addrDb8 : Addr := #v[0x20, 0x01, 0x0d, 0xb8, 0, 0, 0, 0, 0, 0, 0, 0, 0, 0, 0, 0]

/-- `2001:db8::1` -/
def addrDb8One : Addr := #v[0x20, 0x01, 0x0d, 0xb8, 0, 0, 0, 0, 0, 0, 0, 0, 0, 0, 0, 1]

/-- `fe80::` and a last byte. -/
def linkLocal (k : BitVec 8) : Addr := #v[0xfe, 0x80, 0, 0, 0, 0, 0, 0, 0, 0, 0, 0, 0, 0, 0, k]

/-- Routes to `2001:db8::/a` and `2001:db8::/b` over two routers, added in this order. -/
def nestedRoutes (a b : Nat) : List (NibCall 4 2 1) :=
  [.ftAdd (some (linkLocal 1)) 6 addrDb8 a, .ftAdd (some (linkLocal 2)) 6 addrDb8 b]

/-- With the shorter route added first the longer one is not used. -/
theorem not_nib_longest_prefix : ∃ (cs : List (NibCall 4 2 1)) (s : Nib 4 2 1),
    nibRun cs = some s ∧ (∃ i, s.Covers addrDb8One i) ∧ ¬ s.UsesLongest addrDb8One := by
  have hrun : (nibRun (nestedRoutes 32 64)).any (fun s => decide
      (s.offlGetMatch addrDb8One = some 0 ∧ s.Covers addrDb8One 1 ∧
        (s.dsts 0).pfxLen < (s.dsts 1).pfxLen)) = true := by decide +kernel
  obtain ⟨s, hs, hdec⟩ := (Option.any_eq_true _ _).mp hrun
  obtain ⟨hmatch, hcov, hlt⟩ := of_decide_eq_true hdec
  refine ⟨_, s, hs, ⟨1, hcov⟩, ?_⟩
  rintro ⟨x, hx, hlong, -⟩
  obtain rfl : 0 = x := Option.some.inj (hmatch.symm.trans hx)
  have := hlong.2 1 hcov
  omega

/-- With the longer route added first it is used. -/
theorem nib_longest_prefix_db8 : ∃ s, nibRun (nestedRoutes 64 32) = some s ∧
    s.UsesLongest addrDb8One := by
  have hrun : (nibRun (nestedRoutes 64 32)).any (fun s => decide
      (s.Covers addrDb8One 0 ∧ s.LongestFirst addrDb8One)) = true := by decide +kernel
  obtain ⟨s, hs, hdec⟩ := (Option.any_eq_true _ _).mp hrun
  obtain ⟨hcov, hfirst⟩ := of_decide_eq_true hdec
  have hroute := nib_longest_prefix hs ⟨0, hcov⟩
  exact ⟨s, hs, hroute.mpr hfirst⟩

end Example

end Riot.Ipv6
