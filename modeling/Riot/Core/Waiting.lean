import Riot.Core.SchedLink

/-!
# Wait lists

The kernel objects above the scheduler care about who waits where; the order of
the run queues is none of their business. `Waiting cfg s W M` hides it: the
state is well linked, its wait lists are `W`, and the heads that hold a mark
instead of a link are those in `M`. Each function has one rule here that says
what it does to `W` and `M`.
-/

namespace Riot.Core

open Riot.Lib Function

variable {n : Nat} {cfg : Cfg} {s : Sched n} {W : WaitList n → List (Fin n)}
  {M : WaitList n → Prop}

/-- The head of a wait list, as the functions on lists take it. -/
abbrev waitHead (w : WaitList n) : Node (Head n) (Fin n) := .head (.wait w)

/-- The state is well linked, its wait lists are `W`, and `M` are marked. -/
def Waiting (cfg : Cfg) (s : Sched n) (W : WaitList n → List (Fin n)) (M : WaitList n → Prop) :
    Prop :=
  ∃ L, Linked cfg s L ∧ (∀ w, L (.wait w) = W w) ∧ ∀ w, s.next (waitHead w) = .mark ↔ M w

/-- The thread waits in none of the lists. -/
def Free (W : WaitList n → List (Fin n)) (t : Fin n) : Prop := ∀ w, t ∉ W w

/-- `thread_add_to_list` puts a thread behind those of the same priority. -/
def insertPrio (prio : Fin n → Nat) (t : Fin n) (ts : List (Fin n)) : List (Fin n) :=
  ts.orderedInsert (fun a b => prio a < prio b) t

variable {t u : Fin n} {ts : List (Fin n)} {st : ThreadStatus} {w w' : WaitList n}

theorem mem_insertPrio {prio : Fin n → Nat} :
    u ∈ insertPrio prio t ts ↔ u = t ∨ u ∈ ts := List.mem_orderedInsert _

@[simp] theorem insertPrio_nil (prio : Fin n → Nat) (t : Fin n) : insertPrio prio t [] = [t] := rfl

theorem mem_update_tail (hw : W w = t :: ts) (hu : u ∈ update W w ts w') : u ∈ W w' := by
  by_cases hww : w' = w
  · subst hww
    rw [update_self] at hu
    rw [hw]
    simp [hu]
  · rwa [update_of_ne hww] at hu

theorem mem_update_insertPrio {prio : Fin n → Nat} (hu : u ∈ update W w (insertPrio prio t (W w)) w') :
    u ∈ W w' ∨ u = t ∧ w' = w := by
  by_cases hww : w' = w
  · subst hww
    rw [update_self] at hu
    exact (mem_insertPrio.mp hu).symm.imp id fun h => ⟨h, rfl⟩
  · rw [update_of_ne hww] at hu
    exact .inl hu

/-! ## Facts about a represented state -/

theorem Waiting.status (hW : Waiting cfg s W M) (ht : t ∈ W w) :
    s.Live t ∧ (s.status t).waitsIn w = true := by
  obtain ⟨L, hL, hw, _⟩ := hW
  exact hL.waits t w (by rwa [hw])

theorem Waiting.not_onRunqueue (hW : Waiting cfg s W M) (ht : t ∈ W w) : (s.status t).onRunqueue = false :=
  ThreadStatus.waitsIn_not_onRunqueue (hW.status ht).2

theorem Waiting.free (hW : Waiting cfg s W M) (hon : (s.status t).onRunqueue = true) : Free W t := by
  intro w ht
  have := hW.not_onRunqueue ht
  rw [hon] at this
  exact Bool.noConfusion this

theorem Waiting.nodup (hW : Waiting cfg s W M) (w : WaitList n) : (W w).Nodup := by
  obtain ⟨L, hL, hw, _⟩ := hW
  exact hw w ▸ hL.linkage.nodup (.wait w)

theorem Waiting.disjoint (hW : Waiting cfg s W M) (h : t ∈ W w) (h' : t ∈ W w') : w = w' := by
  obtain ⟨L, hL, hw, _⟩ := hW
  have := hL.linkage.disjoint (.wait w) (.wait w') t (by rwa [hw]) (by rwa [hw])
  simpa using this

theorem Waiting.prio (hW : Waiting cfg s W M) (ht : s.Live t) : s.priority t < cfg.schedPrioLevels := by
  obtain ⟨L, hL, _⟩ := hW
  exact hL.prio t ht

theorem Waiting.next_nil (hW : Waiting cfg s W M) (hw : W w = []) :
    s.next (waitHead w) = .null ∨ s.next (waitHead w) = .mark := by
  obtain ⟨L, hL, hwL, _⟩ := hW
  have hc := hL.linkage.chain_of (not_isRunqueue w)
  rw [hwL, hw] at hc
  exact hc.imp id And.left

theorem Waiting.next_mark (hW : Waiting cfg s W M) (w : WaitList n) : s.next (waitHead w) = .mark ↔ M w := by
  obtain ⟨_, _, _, hm⟩ := hW
  exact hm w

theorem Waiting.next_null (hW : Waiting cfg s W M) (w : WaitList n) :
    s.next (waitHead w) = .null ↔ W w = [] ∧ ¬ M w := by
  rw [← hW.next_mark w]
  constructor
  · intro hn
    refine ⟨?_, by rw [hn]; simp⟩
    obtain ⟨L, hL, hwL, _⟩ := hW
    rcases hL.linkage.chain_of (not_isRunqueue w) with hc | ⟨hc, _⟩
    · rw [← hwL]
      cases hl : L (.wait w) with
      | nil => rfl
      | cons u us =>
        rw [hl, hn] at hc
        exact absurd hc.1 (by simp)
    · rw [hn] at hc
      exact absurd hc (by simp)
  · rintro ⟨hw, hm⟩
    exact (hW.next_nil hw).resolve_right hm

theorem Waiting.next_cons (hW : Waiting cfg s W M) (hw : W w = t :: ts) : s.next (waitHead w) = .ref t := by
  obtain ⟨L, hL, hwL, _⟩ := hW
  have hc := hL.linkage.chain_of (not_isRunqueue w)
  rw [hwL, hw, chain_cons] at hc
  exact hc.1

theorem Waiting.next_ref (hW : Waiting cfg s W M)
    (hn : s.next (waitHead w) = .ref t) : ∃ ts, W w = t :: ts := by
  cases hw : W w with
  | nil =>
    rcases hW.next_nil hw with h | h <;> rw [hn] at h <;> exact absurd h (by simp)
  | cons u us =>
    have := hW.next_cons hw
    rw [hn] at this
    exact ⟨us, by simpa using this.symm⟩

theorem Waiting.marked_nil (hW : Waiting cfg s W M) (hm : M w) : W w = [] := by
  cases hw : W w with
  | nil => rfl
  | cons u us =>
    have := hW.next_cons hw
    rw [(hW.next_mark w).mpr hm] at this
    exact absurd this (by simp)

theorem Waiting.not_marked (hW : Waiting cfg s W M) (ht : t ∈ W w) : ¬ M w := fun hm => by
  rw [hW.marked_nil hm] at ht
  exact absurd ht (by simp)

/-- The threads in a wait list, in the order of the links. -/
def waitersOf (s : Sched n) (w : WaitList n) : List (Fin n) :=
  links s.next (listFuel n) (s.next (waitHead w))

theorem Waiting.waitersOf (hW : Waiting cfg s W M) (w : WaitList n) : waitersOf s w = W w := by
  obtain ⟨L, hL, hwL, _⟩ := hW
  rw [← hwL]
  unfold Core.waitersOf
  rcases hL.linkage.chain_of (not_isRunqueue w) with hc | ⟨hc, hnil⟩
  · exact links_eq hc (le_of_lt (hL.length_lt (.wait w)))
  · rw [hc, hnil]
    rfl

/-! ## Changing the status of a thread that waits nowhere -/

theorem Waiting.block (hW : Waiting cfg s W M) (hl : s.Live t)
    (hst : st.onRunqueue = false) (hfree : Free W t) :
    Waiting cfg (schedSetStatus cfg s t st) W M := by
  obtain ⟨L, hL, hw, hm⟩ := hW
  refine ⟨_, schedSetStatus_block hL hl hst (fun w => by rw [hw]; exact hfree w), fun w => ?_,
    by simpa using hm⟩
  rw [update_of_ne (by simp), hw]

theorem Waiting.wake (hW : Waiting cfg s W M) (hl : s.Live t)
    (hst : st.onRunqueue = true) (hfree : Free W t) :
    Waiting cfg (schedSetStatus cfg s t st) W M := by
  obtain ⟨L, hL, hw, hm⟩ := hW
  cases hon : (s.status t).onRunqueue with
  | true => exact ⟨L, schedSetStatus_runnable hL hst hon, hw, by simpa using hm⟩
  | false =>
    have hun : Unlinked L t := hL.unlinked hon (fun w => by rw [hw]; exact hfree w)
    refine ⟨_, schedSetStatus_wake hL hl hst hun, fun w => ?_, by simpa using hm⟩
    rw [update_of_ne (by simp), hw]

theorem Waiting.setStatus (hW : Waiting cfg s W M) (hl : s.Live t)
    (hfree : Free W t) : Waiting cfg (schedSetStatus cfg s t st) W M := by
  cases hst : st.onRunqueue with
  | true => exact hW.wake hl hst hfree
  | false => exact hW.block hl hst hfree

/-! ## Replacing one wait list -/

theorem Linked.rewrite {L : Head n → List (Fin n)} (hL : Linked cfg s L) {next' : NodeMem (Head n) (Fin n)}
    (hlink : Linkage Head.IsRunqueue next' (update L (.wait w) ts))
    (hts : ∀ t ∈ ts, s.Live t ∧ (s.status t).waitsIn w = true) :
    Linked cfg { s with next := next' } (update L (.wait w) ts) := by
  refine ⟨hlink, fun t p => ?_, fun t w' ht => ?_, BitsAgree.wait hL.bits, hL.prio⟩
  · exact hL.runq t p
  · by_cases hww : w' = w
    · subst hww
      rw [update_self] at ht
      exact hts t ht
    · rw [update_of_ne (by simpa using hww)] at ht
      exact hL.waits t w' ht

theorem update_wait {L : Head n → List (Fin n)} (hw : ∀ w, L (.wait w) = W w) (w : WaitList n)
    (ts : List (Fin n)) (w' : WaitList n) :
    update L (.wait w) ts (.wait w') = update W w ts w' := by
  by_cases hww : w' = w
  · subst hww
    rw [update_self, update_self]
  · rw [update_of_ne (by simpa using hww), update_of_ne hww, hw]

theorem marks_rewrite {next' : NodeMem (Head n) (Fin n)} (hm : ∀ w', s.next (waitHead w') = .mark ↔ M w')
    (hother : ∀ w', w' ≠ w → next' (waitHead w') = s.next (waitHead w'))
    (hthis : next' (waitHead w) ≠ .mark) (w' : WaitList n) :
    next' (waitHead w') = .mark ↔ update M w False w' := by
  by_cases hww : w' = w
  · subst hww
    simpa using hthis
  · rw [hother w' hww, hm, update_of_ne hww]

theorem update_unmarked (hw : ¬ M w) : update M w False = M := by
  funext w'
  by_cases hww : w' = w
  · subst hww
    simpa using hw
  · rw [update_of_ne hww]

theorem Waiting.removeHead (hW : Waiting cfg s W M) (hts : W w = t :: ts) :
    (listRemoveHead s.next (waitHead w)).1 = .ref t ∧
      Waiting cfg { s with next := (listRemoveHead s.next (waitHead w)).2 } (update W w ts) M ∧
      Free (update W w ts) t := by
  have hfree : Free (update W w ts) t := by
    intro w' ht
    by_cases hww : w' = w
    · subst hww
      rw [update_self] at ht
      have := hW.nodup w'
      rw [hts] at this
      exact (List.nodup_cons.mp this).1 ht
    · rw [update_of_ne hww] at ht
      exact hww (hW.disjoint ht (by rw [hts]; simp))
  have hnm : ¬ M w := hW.not_marked (t := t) (by rw [hts]; simp)
  obtain ⟨L, hL, hw, hm⟩ := hW
  obtain ⟨hhead, hlink, hlast⟩ := listRemoveHead_cons hL.linkage (not_isRunqueue w) ((hw w).trans hts)
  have hmarks := marks_rewrite hm (fun w' hne => listRemoveHead_head (by simpa using hne)) hlast
  rw [update_unmarked hnm] at hmarks
  refine ⟨hhead, ⟨_, hL.rewrite hlink (fun u hu => ?_), update_wait hw w ts, hmarks⟩, hfree⟩
  exact hL.waits u w (by rw [hw, hts]; simp [hu])

theorem Waiting.removeHead_nil (hW : Waiting cfg s W M) (hts : W w = []) :
    listRemoveHead s.next (waitHead w) = (s.next (waitHead w), s.next) := by
  obtain ⟨L, hL, hw, _⟩ := hW
  exact (listRemoveHead_nil hL.linkage (not_isRunqueue w) ((hw w).trans hts)).1

theorem Waiting.remove (hW : Waiting cfg s W M) (ht : t ∈ W w) :
    (listRemove s.next t (listFuel n) (waitHead w)).1 = true ∧
      Waiting cfg { s with next := (listRemove s.next t (listFuel n) (waitHead w)).2 }
        (update W w ((W w).erase t)) M ∧
      Free (update W w ((W w).erase t)) t := by
  have hfree : Free (update W w ((W w).erase t)) t := by
    intro w' ht'
    by_cases hww : w' = w
    · subst hww
      rw [update_self] at ht'
      exact (hW.nodup w').not_mem_erase ht'
    · rw [update_of_ne hww] at ht'
      exact hww (hW.disjoint ht' ht)
  have hnm : ¬ M w := hW.not_marked ht
  obtain ⟨L, hL, hw, hm⟩ := hW
  have htL : t ∈ L (.wait w) := by rwa [hw]
  obtain ⟨hfound, hlink, hlast⟩ := listRemove_linkage hL.linkage (not_isRunqueue w) htL
    (le_of_lt (hL.length_lt (.wait w)))
  rw [hw] at hlink
  have hmarks := marks_rewrite hm (fun w' hne => listRemove_head _ (by simpa using hne)) hlast
  rw [update_unmarked hnm] at hmarks
  refine ⟨hfound, ⟨_, hL.rewrite hlink (fun u hu => ?_), update_wait hw w _, hmarks⟩, hfree⟩
  exact hL.waits u w (by rw [hw]; exact List.mem_of_mem_erase hu)

theorem Waiting.remove_missing (hW : Waiting cfg s W M) (ht : t ∉ W w) (hn : ¬ M w) :
    listRemove s.next t (listFuel n) (waitHead w) = (false, s.next) := by
  rw [← hW.next_mark w] at hn
  obtain ⟨L, hL, hw, _⟩ := hW
  have hc := hL.linkage.chain_of (not_isRunqueue w)
  rcases hc with hc | ⟨hc, _⟩
  · exact listRemove_missing hc (by rwa [hw])
  · exact absurd hc hn

/-- The loop of `thread_add_to_list` stops behind the threads of the same or a
higher priority. -/
theorem threadAddToListPos_eq {p : Nat} : ∀ {ts : List (Fin n)} {fuel : Nat}
    {list : Node (Head n) (Fin n)}, Seg s.next (s.next list) ts .null → ts.length < fuel →
      threadAddToListPos s p fuel list = after list (ts.takeWhile fun u => decide ¬ p < s.priority u)
  | _, 0, _, _, hf => absurd hf (by simp)
  | [], fuel + 1, list, h, _ => by
    rw [threadAddToListPos, h]
    rfl
  | u :: us, fuel + 1, list, h, hf => by
    rw [threadAddToListPos, h.1]
    by_cases hp : p < s.priority u
    · simp [hp]
    · simp only [gt_iff_lt, hp, if_false, not_false_eq_true, decide_true, List.takeWhile_cons_of_pos,
        after_cons]
      exact threadAddToListPos_eq h.2 (by simpa using hf)

theorem Waiting.add (hW : Waiting cfg s W M) {w : WaitList n} {t : Fin n} (hl : s.Live t)
    (hst : (s.status t).waitsIn w = true) (hfree : Free W t)
    (hnm : ¬ M w) :
    Waiting cfg (threadAddToList s (waitHead w) t) (update W w (insertPrio s.priority t (W w))) M := by
  have hn : s.next (waitHead w) ≠ .mark := fun h => hnm ((hW.next_mark w).mp h)
  obtain ⟨L, hL, hw, hm⟩ := hW
  have hun : Unlinked L t :=
    hL.unlinked (ThreadStatus.waitsIn_not_onRunqueue hst) (fun w' => by rw [hw]; exact hfree w')
  have hseg : Seg s.next (s.next (waitHead w)) (L (.wait w)) .null := by
    rcases hL.linkage.chain_of (not_isRunqueue w) with hc | ⟨hc, _⟩
    · exact hc
    · exact absurd hc hn
  have hnd := hL.linkage.nodup (.wait w)
  have htL : t ∉ L (.wait w) := hun (.wait w)
  have hpos := threadAddToListPos_eq hseg (hL.length_lt (.wait w)) (p := s.priority t)
  have hins : insertPrio s.priority t (L (.wait w)) = _ := List.orderedInsert_eq_take_drop _ t _
  rw [← List.takeWhile_append_dropWhile (l := L (.wait w))
    (p := fun u => decide ¬ s.priority t < s.priority u)] at hseg hnd htL
  have hseg' := seg_insert hseg hnd htL (by simp) (by simp)
  rw [← hpos, ← hins] at hseg'
  have hposcases : threadAddToListPos s (s.priority t) (listFuel n) (waitHead w) = waitHead w ∨
      ∃ u ∈ L (.wait w), threadAddToListPos s (s.priority t) (listFuel n) (waitHead w) = .entry u := by
    rw [hpos]
    rcases after_cases (waitHead w)
      ((L (.wait w)).takeWhile fun u => decide ¬ s.priority t < s.priority u) with h | ⟨u, hu, h⟩
    · exact .inl h.2
    · exact .inr ⟨u, List.takeWhile_subset _ hu, h⟩
  have hlink : Linkage Head.IsRunqueue (threadAddToList s (waitHead w) t).next
      (update L (.wait w) (insertPrio s.priority t (L (.wait w)))) := by
    refine hL.linkage.replace _ ?_ ?_ ?_ ?_ ⟨fun hr => absurd hr (not_isRunqueue w),
      fun _ => .inl hseg'⟩
    · intro h' hne
      rw [threadAddToList]
      rcases hposcases with h | ⟨u, _, h⟩ <;> rw [h] <;> simp [hne]
    · intro u h' hne hu
      have hut : u ≠ t := fun hut => hun h' (hut ▸ hu)
      rw [threadAddToList]
      rcases hposcases with h | ⟨v, hv, h⟩
      · rw [h]
        simp [hut]
      · have huv : u ≠ v := fun huv => hne (hL.linkage.disjoint h' _ u hu (huv ▸ hv))
        rw [h]
        simp [hut, huv]
    · intro u hu
      rcases mem_insertPrio.mp hu with rfl | hu
      · exact .inr hun
      · exact .inl hu
    · refine (List.perm_orderedInsert _ t (L (.wait w))).nodup_iff.mpr ?_
      exact List.nodup_cons.mpr ⟨hun (.wait w), hL.linkage.nodup (.wait w)⟩
  have hlast := seg_ne_mark hseg'
  rw [hw] at hlink
  have hmarks := marks_rewrite hm (fun w' hne => threadAddToList_next_wait s t hne) hlast
  rw [update_unmarked hnm] at hmarks
  refine ⟨_, hL.rewrite hlink (fun u hu => ?_), update_wait hw w _, hmarks⟩
  rcases mem_insertPrio.mp hu with rfl | hu
  · exact ⟨hl, hst⟩
  · exact hL.waits u w (by rwa [hw])

theorem Waiting.setEmpty (hW : Waiting cfg s W M) (hw : W w = [])
    {l : Link (Fin n)} (hl : l = .null ∨ l = .mark) :
    Waiting cfg { s with next := update s.next (waitHead w) l } W (update M w (l = .mark)) := by
  obtain ⟨L, hL, hwL, hm⟩ := hW
  have hlink : Linkage Head.IsRunqueue (update s.next (waitHead w) l) (update L (.wait w) []) := by
    refine hL.linkage.replace _ ?_ ?_ (by simp) (by simp)
      ⟨fun hr => absurd hr (not_isRunqueue w), fun _ => ?_⟩
    · intro h' hne
      simp [hne]
    · intro u h' _ _
      simp
    · rw [update_self]
      exact hl.imp id fun h => ⟨h, rfl⟩
  refine ⟨_, hL.rewrite hlink (by simp), fun w' => ?_, fun w' => ?_⟩
  · rw [update_wait hwL w [] w']
    by_cases hww : w' = w
    · rw [hww, update_self, hw]
    · rw [update_of_ne hww]
  · by_cases hww : w' = w
    · subst hww
      simp
    · rw [update_of_ne hww, ← hm w']
      simp [hww]

theorem Waiting.setFirst (hW : Waiting cfg s W M)
    (hl : s.Live t) (hst : (s.status t).waitsIn w = true) (hfree : Free W t) :
    Waiting cfg
      { s with
        next := update (update s.next (waitHead w) (.ref t)) (.entry t) .null }
      (update W w [t]) (update M w False) := by
  obtain ⟨L, hL, hwL, hm⟩ := hW
  have hun : Unlinked L t :=
    hL.unlinked (ThreadStatus.waitsIn_not_onRunqueue hst) (fun w' => by rw [hwL]; exact hfree w')
  have hlink : Linkage Head.IsRunqueue (update (update s.next (waitHead w) (.ref t)) (.entry t) .null)
      (update L (.wait w) [t]) := by
    refine hL.linkage.replace _ ?_ ?_ (by simpa using .inr hun) (by simp)
      ⟨fun hr => absurd hr (not_isRunqueue w), fun _ => .inl ?_⟩
    · intro h' hne
      simp [hne]
    · intro u h' _ hu
      have hut : u ≠ t := fun hut => hun h' (hut ▸ hu)
      simp [hut]
    · simp
  refine ⟨_, hL.rewrite hlink (by simpa using ⟨hl, hst⟩), update_wait hwL w [t], ?_⟩
  exact marks_rewrite hm (fun w' hne => by simp [hne]) (by simp)

/-! ## Priorities and switching -/

theorem Waiting.changePriority (hW : Waiting cfg s W M) {p : Nat} (hl : s.Live t)
    (hp : p < cfg.schedPrioLevels) : Waiting cfg (schedChangePriority cfg s t p) W M := by
  obtain ⟨L, hL, hw, hm⟩ := hW
  obtain ⟨L', hL', hw'⟩ := schedChangePriority_linked hL hl hp
  exact ⟨L', hL', fun w => (hw' w).trans (hw w), by simpa using hm⟩

theorem Waiting.switchTo (hW : Waiting cfg s W M) {prev act : Option (Fin n)}
    (hon : (s.status t).onRunqueue = true) : Waiting cfg (schedSwitchTo s prev act t) W M := by
  obtain ⟨L, hL, hw, hm⟩ := hW
  exact ⟨L, schedSwitchTo_linked hL hon, hw, by simpa using hm⟩

theorem Waiting.unschedule (hW : Waiting cfg s W M) (t : Fin n) : Waiting cfg (unschedule s t) W M := by
  obtain ⟨L, hL, hw, hm⟩ := hW
  exact ⟨L, unschedule_linked hL t, hw, by simpa using hm⟩

theorem Waiting.advance (hW : Waiting cfg s W M) (p : Nat) : Waiting cfg (schedRunqAdvance s p) W M := by
  obtain ⟨L, hL, hw, hm⟩ := hW
  refine ⟨_, schedRunqAdvance_linked hL p, fun w => ?_, by simpa using hm⟩
  rw [update_of_ne (by simp), hw]

end Riot.Core
