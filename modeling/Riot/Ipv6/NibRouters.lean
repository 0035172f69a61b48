import Riot.Ipv6.NibIsolation

/-!
# The choice of a default router

`_nib_drl_get_dr`, in a NIB that any calls have led to. The routers are those
`_nib_drl_iter` stops at; the one chosen last may have left the list since, and
then the search goes on behind its place.
-/

namespace Riot.Ipv6.Nib

open Riot.Lib List Nat Function

variable {N O D : Nat} {s s' : Nib N O D} {d p : Fin D}

/-- The default routers in their order. -/
def routers (s : Nib N O D) : List (Fin D) := (List.finRange D).filter fun d => s.DrUsed d

/-- How many routers there are up to the one chosen last. -/
def place (s : Nib N O D) : Nat :=
  match s.primeDefRouter with
  | none => 0
  | some p => (s.routers.filter (· ≤ p)).length

/-- All routers are known to be unreachable, and so is the one chosen last. -/
def AllUnreachable (s : Nib N O D) : Prop :=
  (∀ d, s.DrUsed d → s.DrUnreachable d) ∧ ∀ p, s.primeDefRouter = some p → s.DrUnreachable p

/-- The NIB after `m` calls. -/
def drlCalls (s : Nib N O D) : Nat → Nib N O D
  | 0 => s
  | m + 1 => (s.drlCalls m).drlGetDr.2

/-- **The choice.** The current router is kept while it is not known to be unreachable; else a router
that is not is found if there is one; and without one, successive calls go round all routers. -/
structure Selects (s : Nib N O D) : Prop where
  keeps : ∀ p, s.primeDefRouter = some p → ¬s.DrUnreachable p → s.drlGetDr.1 = some p
  finds : (∃ d, s.DrUsed d ∧ ¬s.DrUnreachable d) →
    ∃ d, s.drlGetDr.1 = some d ∧ s.defRouters d ≠ none ∧ ¬s.DrUnreachable d
  cycles : s.AllUnreachable → ∀ h : 0 < s.routers.length, ∀ m,
    (s.drlCalls m).drlGetDr.1 =
      some (s.routers.get ⟨(s.place + m) % s.routers.length, Nat.mod_lt _ h⟩)

/-! ## The iterator -/

/-- The routers `_nib_drl_iter` has still to come to. -/
def behind (s : Nib N O D) (last : Option (Fin D)) : List (Fin D) :=
  s.routers.filter fun d => ∀ l ∈ last, l < d

theorem mem_routers : d ∈ s.routers ↔ s.DrUsed d := by
  simp [routers]

theorem pairwise_routers : s.routers.Pairwise (· < ·) :=
  (pairwise_lt_finRange D).filter _

theorem behind_none : s.behind none = s.routers := by
  simp [behind]

theorem drlIter_eq (last : Option (Fin D)) : s.drlIter last = (s.behind last).head? := by
  unfold drlIter behind routers
  rw [filter_filter, head?_filter]
  simp

theorem behind_some {last : Option (Fin D)} {ds : List (Fin D)} (h : s.behind last = d :: ds) :
    s.behind (some d) = ds := by
  have hsorted : (s.behind last).Pairwise (· < ·) := pairwise_routers.filter _
  have hd : d ∈ s.behind last := h ▸ mem_cons_self
  have hlast : ∀ l ∈ last, l < d := by simpa using (mem_filter.mp hd).2
  have hsub : s.behind (some d) = (s.behind last).filter (d < ·) := by
    unfold behind
    rw [filter_filter]
    refine filter_congr fun e _ => ?_
    have : d < e → ∀ l ∈ last, l < e := fun hde l hl => (hlast l hl).trans hde
    simpa using this
  rw [h, pairwise_cons] at hsorted
  rw [hsub, h, filter_cons_of_neg (by simp), filter_eq_self]
  simpa using hsorted.1

theorem drlGetDrLoop_eq {fuel : Nat} : ∀ {last : Option (Fin D)}, (s.behind last).length < fuel →
    s.drlGetDrLoop fuel last = (s.behind last).find? fun d => ¬s.DrUnreachable d := by
  induction fuel with
  | zero => exact fun h => absurd h (not_lt_zero _)
  | succ fuel ih =>
    intro last hfuel
    unfold drlGetDrLoop
    rw [drlIter_eq]
    cases hds : s.behind last with
    | nil => rfl
    | cons d ds =>
      rw [hds, length_cons] at hfuel
      rw [head?_cons]
      dsimp only
      by_cases hun : s.DrUnreachable d
      · rw [if_pos hun, ih (by rw [behind_some hds]; omega), behind_some hds,
          find?_cons_of_neg (by simpa using hun)]
      · rw [if_neg hun, find?_cons_of_pos (by simpa using hun)]

theorem drlGetDrLoop_none :
    s.drlGetDrLoop (D + 1) none = s.routers.find? fun d => ¬s.DrUnreachable d := by
  have hlen : s.routers.length ≤ D := (length_filter_le _ _).trans length_finRange.le
  rw [drlGetDrLoop_eq (by rw [behind_none]; omega), behind_none]

theorem head_above : ∀ {l : List (Fin D)}, l.Pairwise (· < ·) →
    (l.filter (p < ·)).head? = l[(l.filter (· ≤ p)).length]?
  | [], _ => rfl
  | x :: xs, h => by
    rw [pairwise_cons] at h
    by_cases hx : p < x
    · have hnone : (x :: xs).filter (· ≤ p) = [] := by
        rw [filter_eq_nil_iff]
        intro y hy
        rcases mem_cons.mp hy with rfl | hy
        · simpa using hx
        · simpa using hx.trans (h.1 y hy)
      rw [hnone, filter_cons_of_pos (by simpa using hx)]
      rfl
    · rw [filter_cons_of_neg (by simpa using hx), head_above h.2,
        filter_cons_of_pos (by simpa using hx)]
      rfl

theorem drlIter_some (hp : s.primeDefRouter = some p) :
    s.drlIter (some p) = s.routers[s.place]? := by
  unfold place
  rw [hp, drlIter_eq]
  dsimp only
  rw [← head_above pairwise_routers]
  simp [behind]

/-! ## Calls -/

theorem choose_search (hun : ∀ p, s.primeDefRouter = some p → s.DrUnreachable p) :
    s.drlChoose = drlChoose.search s := by
  unfold drlChoose
  cases hp : s.primeDefRouter with
  | none => rfl
  | some p => exact if_pos (hun p hp)

theorem choose_next (h : s.AllUnreachable) (hpos : 0 < s.routers.length) :
    s.drlChoose = some (s.routers.get ⟨s.place % s.routers.length, mod_lt _ hpos⟩) := by
  have hnone : s.drlGetDrLoop (D + 1) none = none := by
    rw [drlGetDrLoop_none, find?_eq_none]
    intro d hd
    simpa using h.1 d (mem_routers.mp hd)
  have hfirst : s.drlIter none = some s.routers[0] := by
    rw [drlIter_eq, behind_none, head?_eq_getElem?, getElem?_eq_getElem hpos]
  rw [choose_search h.2]
  unfold drlChoose.search
  rw [hnone]
  dsimp only
  cases hp : s.primeDefRouter with
  | none =>
    have hplace : s.place = 0 := by unfold place; rw [hp]
    simp only [hfirst, hplace, zero_mod, get_eq_getElem]
  | some p =>
    have hle : s.place ≤ s.routers.length := by
      unfold place
      rw [hp]
      exact length_filter_le _ _
    rw [drlIter_some hp]
    rcases lt_or_ge s.place s.routers.length with hlt | hge
    · rw [getElem?_eq_getElem hlt]
      simp only [mod_eq_of_lt hlt, get_eq_getElem]
    · have hplace : s.place = s.routers.length := le_antisymm hle hge
      rw [getElem?_eq_none hge]
      simp only [hfirst, hplace, mod_self, get_eq_getElem]

theorem drlCalls_eq (m : Nat) : ∃ q, s.drlCalls m = { s with primeDefRouter := q } := by
  induction m with
  | zero => exact ⟨_, rfl⟩
  | succ m ih =>
    obtain ⟨q, hq⟩ := ih
    exact ⟨(s.drlCalls m).drlChoose, by rw [drlCalls, hq]; rfl⟩

theorem length_upTo {l : List (Fin D)} (h : l.Pairwise (· < ·)) {i : Nat} (hi : i < l.length) :
    (l.filter (· ≤ l[i])).length = i + 1 := by
  have hsplit : l.filter (· ≤ l[i]) = l.take (i + 1) := by
    have hpart : ∀ x, l.filter (· ≤ x) =
        (l.take (i + 1)).filter (· ≤ x) ++ (l.drop (i + 1)).filter (· ≤ x) := by
      intro x
      rw [← filter_append, take_append_drop]
    rw [hpart, filter_eq_self.mpr, filter_eq_nil_iff.mpr, append_nil]
    · intro x hx
      obtain ⟨k, hk, rfl⟩ := mem_iff_getElem.mp hx
      rw [getElem_drop]
      simpa using pairwise_iff_getElem.mp h i (i + 1 + k) hi _ (by omega)
    · intro x hx
      obtain ⟨k, hk, rfl⟩ := mem_iff_getElem.mp hx
      rw [length_take] at hk
      rw [getElem_take]
      rcases lt_or_ge k i with hki | hki
      · simpa using (pairwise_iff_getElem.mp h k i _ hi hki).le
      · have : k = i := by omega
        subst this
        simp
  rw [hsplit, length_take]
  omega

/-- **Round robin.** What the next call chooses after `m` calls. -/
theorem choose_drlCalls (h : s.AllUnreachable) (hpos : 0 < s.routers.length) : ∀ m,
    (s.drlCalls m).AllUnreachable ∧ (s.drlCalls m).drlChoose =
      some (s.routers.get ⟨(s.place + m) % s.routers.length, mod_lt _ hpos⟩)
  | 0 => ⟨h, choose_next h hpos⟩
  | m + 1 => by
    obtain ⟨hall, hchoose⟩ := choose_drlCalls h hpos m
    obtain ⟨q, hq⟩ := drlCalls_eq (s := s) m
    have hlt := mod_lt (s.place + m) hpos
    have hused : s.DrUsed (s.routers.get ⟨(s.place + m) % s.routers.length, hlt⟩) :=
      mem_routers.mp (getElem_mem hlt)
    have hcalls : s.drlCalls (m + 1) =
        { s with primeDefRouter := (s.drlCalls m).drlChoose } := by
      conv_lhs => unfold drlCalls drlGetDr
      rw [hq]
    have hnext : (s.drlCalls (m + 1)).AllUnreachable := by
      rw [hcalls]
      refine ⟨h.1, fun p hp => ?_⟩
      exact Option.some.inj (hchoose.symm.trans hp) ▸ h.1 _ hused
    have hplace : (s.drlCalls (m + 1)).place = (s.place + m) % s.routers.length + 1 := by
      rw [hcalls, hchoose]
      exact length_upTo pairwise_routers hlt
    have hrouters : (s.drlCalls (m + 1)).routers = s.routers := by rw [hcalls]; rfl
    refine ⟨hnext, ?_⟩
    have := choose_next hnext (by rw [hrouters]; exact hpos)
    simp only [get_eq_getElem, hrouters, hplace, mod_add_mod] at this ⊢
    exact this

/-- The router chosen last is in the table. -/
def PrimeListed (s : Nib N O D) : Prop := ∀ p, s.primeDefRouter = some p → s.defRouters p ≠ none

theorem Selects.of_primeListed (hs : s.PrimeListed) : s.Selects where
  keeps p hp hun := by
    unfold drlGetDr drlChoose
    rw [hp]
    exact if_neg hun
  finds := by
    rintro ⟨d, hd, hun⟩
    by_cases hkept : ∀ p, s.primeDefRouter = some p → s.DrUnreachable p
    · cases hfind : s.routers.find? fun d => ¬s.DrUnreachable d with
      | none =>
        have := find?_eq_none.mp hfind d (mem_routers.mpr hd)
        exact absurd hun (by simpa using this)
      | some e =>
        obtain ⟨n, hn, -⟩ := mem_routers.mp (mem_of_find?_eq_some hfind)
        refine ⟨e, ?_, ?_, by simpa using find?_some hfind⟩
        · show s.drlChoose = some e
          rw [choose_search hkept]
          unfold drlChoose.search
          rw [drlGetDrLoop_none, hfind]
        · rw [Option.mem_def.mp hn]
          exact Option.some_ne_none n
    · push Not at hkept
      obtain ⟨p, hp, hpun⟩ := hkept
      refine ⟨p, ?_, hs p hp, hpun⟩
      unfold drlGetDr drlChoose
      rw [hp]
      exact if_neg hpun
  cycles h hpos m := (choose_drlCalls h hpos m).2

/-! ## After any calls -/

theorem PrimeListed.of_eq (hs : s.PrimeListed) (hdr : s'.defRouters = s.defRouters)
    (hp : s'.primeDefRouter = s.primeDefRouter) : s'.PrimeListed := by
  intro p h
  rw [hdr]
  exact hs p (hp ▸ h)

theorem PrimeListed.offlRemove {i : Fin O} {mode : View} (hs : s.PrimeListed) :
    (s.offlRemove i mode).PrimeListed := by
  rcases offlRemove_cases s i mode with ⟨_, heq⟩ | heq | ⟨n, _, _, heq⟩
  all_goals
    rw [heq]
    exact hs.of_eq rfl rfl

theorem PrimeListed.offlAdd {nextHop : Option Addr} {iface : Iface} {pfx : Addr} {pfxLen : Nat}
    {mode : View} (hs : s.PrimeListed) :
    (s.offlAdd nextHop iface pfx pfxLen mode).2.PrimeListed := by
  have hreuse : ∀ i, (s.offlReuse nextHop i).PrimeListed := by
    intro i
    unfold offlReuse
    split
    · exact hs.of_eq rfl rfl
    · exact hs
  have halloc : (s.offlAlloc nextHop iface pfx pfxLen).2.PrimeListed := by
    unfold offlAlloc
    split
    · exact hreuse _
    · split
      · exact hs.of_eq rfl rfl
      · split
        · exact hs.of_eq rfl rfl
        · exact hs.of_eq rfl rfl
    · exact hs
  unfold Nib.offlAdd
  generalize s.offlAlloc nextHop iface pfx pfxLen = r at halloc ⊢
  obtain ⟨entry, t⟩ := r
  cases entry with
  | none => exact halloc
  | some i => exact halloc.of_eq rfl rfl

theorem PrimeListed.dcRemoveAll {n : Fin N} : ∀ {l : List (Fin O)} {s : Nib N O D},
    s.PrimeListed → (dcRemoveAll n l s).PrimeListed
  | [], _, hs => hs
  | dc :: rest, s, hs => by
    unfold Nib.dcRemoveAll
    split
    · exact dcRemoveAll hs.offlRemove
    · exact dcRemoveAll hs

theorem PrimeListed.drlAdd {routerAddr : Addr} {iface : Iface} (hs : s.PrimeListed) :
    (s.drlAdd routerAddr iface).2.PrimeListed ∧
      ∀ d, (s.drlAdd routerAddr iface).1 = some d → (s.drlAdd routerAddr iface).2.defRouters d ≠ none := by
  rcases drlAdd_cases s routerAddr iface with ⟨d, n, hd, heq⟩ | ⟨d, n, t, hd, -, -, heq⟩ | heq
  · rw [heq]
    refine ⟨hs.of_eq rfl rfl, fun e he => ?_⟩
    cases he
    rw [hd]
    exact Option.some_ne_none n
  · rw [heq]
    constructor
    · intro p hp
      have hne : p ≠ d := fun h => hs p hp (h ▸ hd)
      show update s.defRouters d (some n) p ≠ none
      rw [update_of_ne hne]
      exact hs p hp
    · rintro e he
      cases he
      show update s.defRouters d (some n) d ≠ none
      rw [update_self]
      exact Option.some_ne_none n
  · rw [heq]
    exact ⟨hs, nofun⟩

theorem PrimeListed.drlRemove (hs : s.PrimeListed) : (s.drlRemove d).PrimeListed := by
  -- but for the entry itself, the routers and the choice are left alone
  have hrest : ∀ t : Nib N O D, (∀ p, p ≠ d → t.primeDefRouter = some p → t.defRouters p ≠ none) →
      (if t.primeDefRouter = some d then { t with primeDefRouter := none } else t).PrimeListed := by
    intro t ht p hp
    split at hp
    · exact nomatch hp
    · rename_i hne
      rw [if_neg hne]
      exact ht p (fun h => hne (h ▸ hp)) hp
  unfold Nib.drlRemove
  refine hrest _ ?_
  cases hn : s.defRouters d with
  | none => exact fun p _ hp => hs p hp
  | some n =>
    intro p hne hp
    have hdc : (Nib.dcRemoveAll n (finRange O)
        { s with onl := s.onl.unsetMode n .drl }).PrimeListed :=
      dcRemoveAll (hs.of_eq rfl rfl)
    have := hdc p hp
    rw [dcRemoveAll_routers] at this
    show update (Nib.dcRemoveAll n (finRange O)
      { s with onl := s.onl.unsetMode n .drl }).defRouters d none p ≠ none
    rw [update_of_ne hne, dcRemoveAll_routers]
    exact this

theorem PrimeListed.drlGetDr (hs : s.PrimeListed) : s.drlGetDr.2.PrimeListed := by
  intro p hp
  have hused : ∀ {last : Option (Fin D)} {q}, s.drlIter last = some q → s.defRouters q ≠ none := by
    intro last q h
    rw [drlIter_eq] at h
    obtain ⟨n, hn, -⟩ := mem_routers.mp (mem_filter.mp (mem_of_mem_head? h)).1
    rw [Option.mem_def.mp hn]
    exact Option.some_ne_none n
  have hsearch : drlChoose.search s = some p → s.defRouters p ≠ none := by
    unfold drlChoose.search
    rw [drlGetDrLoop_none]
    split
    · rename_i q hq
      intro h
      cases h
      obtain ⟨n, hn, -⟩ := mem_routers.mp (mem_of_find?_eq_some hq)
      rw [Option.mem_def.mp hn]
      exact Option.some_ne_none n
    · split
      · rename_i hq
        exact fun h => hused (hq.trans h)
      · exact hused
  change s.drlChoose = some p at hp
  unfold drlChoose at hp
  split at hp
  · split at hp
    · exact hsearch hp
    · rename_i q hq _
      exact hs p (hq.trans hp)
  · exact hsearch hp

theorem PrimeListed.exec (hs : s.PrimeListed) (c : NibCall N O D) : (c.exec s).PrimeListed := by
  cases c with
  | ncAdd addr iface cstate => exact hs.of_eq rfl rfl
  | ncRemove node => exact hs.of_eq rfl rfl
  | ncSet node nud ar => exact hs.of_eq rfl rfl
  | dadAdd addr => exact hs.of_eq rfl rfl
  | dadRemove node => exact hs.of_eq rfl rfl
  | drlAdd routerAddr iface => exact hs.drlAdd.1
  | ftAddDefault nextHop iface =>
    obtain ⟨hadd, hlisted⟩ := @PrimeListed.drlAdd _ _ _ _ nextHop iface hs
    show (s.ftAddDefault nextHop iface).2.PrimeListed
    unfold Nib.ftAddDefault
    generalize s.drlAdd nextHop iface = r at hadd hlisted ⊢
    obtain ⟨entry, t⟩ := r
    cases entry with
    | none => exact hadd
    | some e => exact fun p hp => Option.some.inj hp ▸ hlisted e rfl
  | drlRemove d => exact hs.drlRemove
  | drlGetDr => exact hs.drlGetDr
  | plAdd iface pfx pfxLen validLtime prefLtime now =>
    have hadd := @PrimeListed.offlAdd _ _ _ _ none iface pfx pfxLen .pl hs
    show (s.plAdd iface pfx pfxLen validLtime prefLtime now).2.PrimeListed
    unfold Nib.plAdd
    generalize s.offlAdd none iface pfx pfxLen .pl = r at hadd ⊢
    obtain ⟨entry, t⟩ := r
    cases entry with
    | none => exact hadd
    | some i => exact hadd.of_eq rfl rfl
  | plFlags i flag => exact hs.of_eq rfl rfl
  | plRemove i => exact hs.offlRemove
  | ftAdd nextHop iface pfx pfxLen => exact hs.offlAdd
  | ftRemove i => exact hs.offlRemove
  | dcAdd nextHop iface dst => exact hs.offlAdd
  | dcRemove i => exact hs.offlRemove

/-- **Default router selection**, after any sequence of calls. -/
theorem drlGetDr_selects (cs : List (NibCall N O D)) (h : nibRun cs = some s) : s.Selects := by
  have hstep : ∀ (s : Nib N O D) c s', s.PrimeListed → nibStep s c = some s' → s'.PrimeListed := by
    intro s c s' hs hc
    obtain ⟨-, heq⟩ := Option.ite_none_right_eq_some.mp hc
    exact Option.some.inj heq ▸ hs.exec c
  have hinit : (init : Nib N O D).PrimeListed := fun p (hp : none = some p) => nomatch hp
  exact .of_primeListed (run_invariant_all hstep cs hinit h)

attribute [local instance] neZero_two

/-- Two routers, of which the chosen one leaves and another comes. -/
def routerChanges : List (NibCall 4 4 2) :=
  [.drlAdd (linkLocal 1) 6, .drlAdd (linkLocal 2) 6, .drlGetDr, .drlRemove 0, .drlAdd (linkLocal 3) 7]

theorem drlGetDr_selects_changes : ∃ s, nibRun routerChanges = some s ∧ s.Selects := by
  have hrun : (nibRun routerChanges).isSome = true := by decide +kernel
  obtain ⟨s, hs⟩ := Option.isSome_iff_exists.mp hrun
  exact ⟨s, hs, drlGetDr_selects routerChanges hs⟩

end Riot.Ipv6.Nib
