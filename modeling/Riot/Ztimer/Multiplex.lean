import Riot.Ztimer.Calls

/-!
# One clock for many timers

`Timers` says what a clock is for: it knows the tick each armed timer was set for, and
runs the callbacks of those that are due, the first one first. The clock of
`ztimer/core.c` refines it as long as it asks for the time often enough to tell how
much of it has elapsed.
-/

namespace Riot.Ztimer

open Riot.Lib List Nat

variable {T : Type} [DecidableEq T] {c : Clock T} {base now : Nat} {ts : List (T × Nat)} {t : T}

/-! ## The abstract clock -/

/-- Timers with the ticks they were set for. -/
structure Timers (T : Type) where
  /-- in the order they will be run -/
  armed : List (T × Nat)
  tick : Nat
  handling : Bool
  fired : List (Firing T)
  /-- all that were ever set -/
  sets : List (T × Nat)
  /-- those that were removed or set again before they were due -/
  cancelled : List (T × Nat)

/-- Cancels a timer if it is armed. -/
def Timers.cancel (σ : Timers T) (t : T) : Timers T :=
  { σ with
    armed := removeTarget t σ.armed
    cancelled := σ.cancelled ++ (σ.armed.find? fun e => decide (e.1 = t)).toList }

/-- Runs the first callback if it is due. -/
def Timers.runDue (σ : Timers T) : Timers T :=
  match σ.armed with
  | [] => { σ with handling := false }
  | (t, target) :: armed =>
    if target ≤ σ.tick then
      { σ with
        armed := armed
        handling := true
        fired := σ.fired ++ [{ timer := t, target := target, tick := σ.tick }] }
    else { σ with handling := false }

def Timers.step (adjustSet : UInt16) (σ : Timers T) : Event T → Option (Timers T)
  | .set t val =>
    let target := σ.tick + (adjusted adjustSet val).toNat
    let σ := σ.cancel t
    some { σ with armed := insertTarget t target σ.armed, sets := σ.sets ++ [(t, target)] }
  | .remove t => some (σ.cancel t)
  | .advance ticks => some { σ with tick := σ.tick + ticks }
  | .handler => if σ.handling then none else some σ.runDue
  | .resume => if σ.handling then some σ.runDue else none

def Timers.start (tick : Nat) : Timers T :=
  { armed := [], tick := tick, handling := false, fired := [], sets := [], cancelled := [] }

/-- **What holds of the abstract clock.** Callbacks run in the order of their targets and
never before them, and everything that was set is either armed, or was run, or was
cancelled, in each case once. -/
structure Timers.Inv (σ : Timers T) : Prop where
  order : σ.armed.Pairwise fun e f => e.2 ≤ f.2
  onTime : ∀ f ∈ σ.fired, f.target ≤ f.tick ∧ f.tick ≤ σ.tick
  inOrder : σ.fired.Pairwise fun f g => f.target ≤ g.target
  first : ∀ f ∈ σ.fired, ∀ e ∈ σ.armed, f.target ≤ e.2
  once : σ.sets.Perm (σ.fired.map (fun f => (f.timer, f.target)) ++ σ.cancelled ++ σ.armed)

omit [DecidableEq T] in
theorem Timers.inv_start {tick : Nat} : (Timers.start tick : Timers T).Inv :=
  ⟨.nil, fun _ h => absurd h not_mem_nil, .nil, fun _ h => absurd h not_mem_nil, .refl _⟩

theorem Timers.Inv.cancel {σ : Timers T} (h : σ.Inv) : (σ.cancel t).Inv where
  order := h.order.sublist eraseP_sublist
  onTime := h.onTime
  inOrder := h.inOrder
  first := fun f hf e he => h.first f hf e (mem_removeTarget he)
  once := by
    show σ.sets.Perm (_ ++ (σ.cancelled ++ _) ++ removeTarget t σ.armed)
    refine h.once.trans ?_
    rw [append_assoc, append_assoc, append_assoc]
    exact ((perm_removeTarget.append_left σ.cancelled).append_left _)

omit [DecidableEq T] in
theorem Timers.Inv.runDue {σ : Timers T} (h : σ.Inv) : σ.runDue.Inv := by
  unfold Timers.runDue
  split
  · exact ⟨h.order, h.onTime, h.inOrder, h.first, h.once⟩
  · rename_i t target armed harmed
    have hord := h.order
    have hfirst := h.first
    have honce := h.once
    rw [harmed] at hord hfirst honce
    split
    · rename_i hdue
      obtain ⟨hmin, hord⟩ := pairwise_cons.mp hord
      refine ⟨hord, ?_, ?_, ?_, ?_⟩
      · intro f hf
        rcases mem_append.mp hf with hf | hf
        · exact h.onTime f hf
        · obtain rfl := mem_singleton.mp hf
          exact ⟨hdue, le_refl _⟩
      · refine pairwise_append.mpr ⟨h.inOrder, pairwise_singleton _ _, fun f hf g hg => ?_⟩
        obtain rfl := mem_singleton.mp hg
        exact hfirst f hf _ mem_cons_self
      · intro f hf e he
        rcases mem_append.mp hf with hf | hf
        · exact hfirst f hf e (mem_cons_of_mem _ he)
        · obtain rfl := mem_singleton.mp hf
          exact hmin e he
      · dsimp only
        rw [map_append, map_singleton, append_assoc, append_assoc, singleton_append]
        rw [append_assoc] at honce
        exact honce.trans (perm_middle.append_left _)
    · exact ⟨h.order, h.onTime, h.inOrder, h.first, h.once⟩

theorem Timers.Inv.step {adjustSet : UInt16} {σ σ' : Timers T} {e : Event T} (h : σ.Inv)
    (hstep : σ.step adjustSet e = some σ') : σ'.Inv := by
  cases e with
  | set t val =>
    cases hstep
    have hc := h.cancel (t := t)
    refine ⟨pairwise_insertTarget hc.order, hc.onTime, hc.inOrder, ?_, ?_⟩
    · intro f hf e he
      rcases mem_insertTarget.mp he with rfl | he
      · have := h.onTime f hf
        omega
      · exact hc.first f hf e he
    · refine (hc.once.append_right [_]).trans ?_
      rw [append_assoc _ (σ.cancel t).armed]
      exact ((perm_append_singleton _ _).trans perm_insertTarget.symm).append_left _
  | remove t =>
    cases hstep
    exact h.cancel
  | advance ticks =>
    cases hstep
    exact ⟨h.order, fun f hf => ⟨(h.onTime f hf).1, le_add_right_of_le (h.onTime f hf).2⟩, h.inOrder,
      h.first, h.once⟩
  | handler =>
    rw [Timers.step] at hstep
    split at hstep
    · exact absurd hstep (by simp)
    · cases hstep
      exact h.runDue
  | resume =>
    rw [Timers.step] at hstep
    split at hstep
    · cases hstep
      exact h.runDue
    · exact absurd hstep (by simp)

/-! ## The clock refines it -/

variable [Fintype T] {s s' : Sys T} {σ : Timers T}

/-- A clock whose lower layer is a counter of its ticks. -/
def counter : Ops := { now := id, set := id, scale := 1 }

/-- Whether an event asks the lower layer for the time. -/
def reads (s : Sys T) : Event T → Bool
  | .set _ _ => true
  | .remove t => isSet s.clock t
  | .resume => (nowNext s.clock).1.isNone
  | _ => false

/-- Less than a round of the counter has passed since the lower layer was last asked,
or there are no timers. -/
def ReadsInTime (s : Sys T) (e : Event T) : Prop :=
  reads s e = true → s.clock.next list ≠ .null → s.time < s.lastRead + 2 ^ 32

/-- **The clock is the abstract one**: its list encodes the armed timers, the lower layer
is set for the first of them, and the same callbacks were run. -/
structure Refines (adjustSet : UInt16) (s : Sys T) (σ : Timers T) (base : Nat) : Prop where
  keeps : Keeps s.clock base σ.armed
  adjust : s.clock.adjustSet = adjustSet
  base_le : base ≤ s.time
  lastRead_le : s.lastRead ≤ base
  idle : s.handling = false → base = s.lastRead ∧ s.alarm = σ.armed.head?.map fun e => max e.2 base
  tick : s.time = σ.tick
  handling : s.handling = σ.handling
  fired : s.fired = σ.fired
  target : ∀ e ∈ σ.armed, s.target e.1 = e.2

omit [DecidableEq T] [Fintype T] in
theorem counter_tick : s.tick counter = s.time := mul_one _

omit [DecidableEq T] [Fintype T] in
theorem Keeps.counter_alarm (h : Keeps s.clock base ts) (htime : s.time = base)
    (hupd : ztimerUpdate counter s = s) : s.alarm = ts.head?.map fun e => max e.2 base := by
  rw [← hupd, h.alarm, htime]
  cases ts with
  | nil => rfl
  | cons e ts =>
    have hlt := h.near e mem_cons_self
    have hofNat : (UInt32.ofNat (e.2 - base)).toNat = e.2 - base := by
      rw [UInt32.toNat_ofNat', mod_eq_of_lt (by omega)]
    rw [head?_cons, Option.map_some, Option.map_some]
    show some (base + (UInt32.ofNat (e.2 - base)).toNat) = _
    rw [hofNat]
    congr 1
    omega

omit [DecidableEq T] [Fintype T] in
theorem linked_ne_null {ks : List T} (h : Linked c ks) (hne : ks ≠ []) : c.next list ≠ .null := by
  cases ks with
  | nil => exact absurd rfl hne
  | cons k ks =>
    rw [h.seg.1]
    simp

variable {adjustSet : UInt16}

theorem Refines.update (h : Refines adjustSet s σ base) {e : Event T} (hread : ReadsInTime s e)
    (hreads : reads s e = true) :
    Keeps (ztimerUpdateHeadOffset s.clock (s.now counter)) s.time σ.armed := by
  refine h.keeps.update h.base_le fun hne => ?_
  have hlt := hread hreads (linked_ne_null h.keeps.linked fun hnil => hne (map_eq_nil_iff.mp hnil))
  have := h.lastRead_le
  omega

theorem Refines.set (h : Refines adjustSet s σ base) {t : T} {val : UInt32} (hread : ReadsInTime s (.set t val)) :
    ∃ σ', σ.step adjustSet (.set t val) = some σ' ∧ Refines adjustSet (ztimerSet counter s t val).2 σ' s.time := by
  obtain ⟨hkeeps, hadj, htarget⟩ := (h.update hread rfl).ztimerSet h.keeps.linked rfl (t := t) (v := val)
  obtain ⟨htime, hhandling, hfired, hlast⟩ := @ztimerSet_frame T _ _ t counter s val
  rw [h.adjust, counter_tick] at htarget
  rw [h.adjust] at hkeeps hadj
  refine ⟨_, rfl, ?_⟩
  rw [Timers.cancel, ← h.tick]
  refine ⟨hkeeps, hadj, le_of_eq htime.symm, le_of_eq hlast, fun _ => ⟨hlast.symm, ?_⟩, htime,
    hhandling.trans h.handling, hfired.trans h.fired, ?_⟩
  · exact hkeeps.counter_alarm htime ztimerUpdate_idem
  · intro e he
    rw [htarget]
    rcases mem_insertTarget.mp he with rfl | he
    · exact Function.update_self _ _ _
    · have hne : e.1 ≠ t := fun heq => h.keeps.not_mem_remove (heq ▸ mem_map_of_mem he)
      rw [Function.update_of_ne hne]
      exact h.target e (mem_removeTarget he)

theorem Refines.remove (h : Refines adjustSet s σ base) {t : T} (hread : ReadsInTime s (.remove t)) :
    ∃ base', Refines adjustSet (ztimerRemove counter s t).2 (σ.cancel t) base' ∧
      (ztimerRemove counter s t).1 = decide (t ∈ σ.armed.map Prod.fst) := by
  by_cases ht : t ∈ σ.armed.map Prod.fst
  · have hset := (isSet_iff h.keeps.linked).mpr ht
    obtain ⟨hfst, hkeeps, hadj⟩ := (h.update hread hset).ztimerRemove h.keeps.linked ht rfl
    obtain ⟨htime, hhandling, hfired, hlast, htarget⟩ := @ztimerRemove_frame T _ _ t counter s hset
    refine ⟨s.time, ⟨hkeeps, hadj.trans h.adjust, le_of_eq htime.symm, le_of_eq hlast, fun _ =>
      ⟨hlast.symm, ?_⟩, htime.trans h.tick, hhandling.trans h.handling, hfired.trans h.fired, ?_⟩, ?_⟩
    · refine hkeeps.counter_alarm htime ?_
      unfold ztimerRemove
      rw [if_pos hset]
      exact ztimerUpdate_idem
    · intro e he
      rw [htarget]
      exact h.target e (mem_removeTarget he)
    · rw [hfst, decide_eq_true ht]
  · have hset : ¬ isSet s.clock t = true := fun hset => ht ((isSet_iff h.keeps.linked).mp hset)
    have hrem : removeTarget t σ.armed = σ.armed := removeTarget_of_not_mem ht
    refine ⟨base, ?_, ?_⟩
    · unfold ztimerRemove
      rw [if_neg hset]
      refine ⟨?_, h.adjust, h.base_le, h.lastRead_le, ?_, h.tick, h.handling, h.fired, ?_⟩
      · show Keeps s.clock base (removeTarget t σ.armed)
        rw [hrem]
        exact h.keeps
      · show s.handling = false → base = s.lastRead ∧
          s.alarm = (removeTarget t σ.armed).head?.map fun e => max e.2 base
        rw [hrem]
        exact h.idle
      · intro e he
        exact h.target e (mem_removeTarget he)
    · unfold ztimerRemove
      rw [if_neg hset, decide_eq_false ht]

omit [Fintype T] in
theorem Refines.trigger {e : T × Nat} {armed : List (T × Nat)} (hkeeps : Keeps c base (e :: armed))
    (hadj : c.adjustSet = adjustSet) (hdue : e.2 ≤ base) (hle : base ≤ s.time) (hlast : s.lastRead ≤ base)
    (htick : s.time = σ.tick) (hfired : s.fired = σ.fired) (harmed : σ.armed = e :: armed)
    (htarget : ∀ e ∈ σ.armed, s.target e.1 = e.2) :
    (nowNext c).1 = some e.1 ∧ Refines adjustSet (trigger counter s (nowNext c).2 e.1) σ.runDue base := by
  obtain ⟨hfst, hkeeps', hadj'⟩ := hkeeps.take hdue
  refine ⟨hfst, ?_⟩
  rw [Timers.runDue, harmed]
  dsimp only
  rw [if_pos (by omega)]
  refine ⟨hkeeps', hadj'.trans hadj, hle, hlast, fun h => absurd h (by simp [Riot.Ztimer.trigger]), htick, rfl, ?_, ?_⟩
  · show s.fired ++ [_] = σ.fired ++ [_]
    rw [hfired, htarget e (harmed ▸ mem_cons_self), counter_tick, htick]
  · intro e' he'
    exact htarget e' (harmed ▸ mem_cons_of_mem e he')

omit [Fintype T] in
theorem Refines.handler (h : Refines adjustSet s σ base) (hidle : s.handling = false)
    (halarm : s.alarm.any (· ≤ s.time) = true) :
    ∃ base', Refines adjustSet (ztimerHandler counter { s with alarm := none }) σ.runDue base' := by
  obtain ⟨a, ha, hle⟩ := (Option.any_eq_true _ _).mp halarm
  obtain ⟨-, hset⟩ := h.idle hidle
  obtain ⟨e, he, rfl⟩ := Option.map_eq_some_iff.mp (hset.symm.trans ha)
  obtain ⟨armed, harmed⟩ : ∃ armed, σ.armed = e :: armed := by
    cases hl : σ.armed with
    | nil => rw [hl] at he; exact absurd he (by simp)
    | cons e' armed =>
      rw [hl] at he
      exact ⟨armed, by rw [Option.some.inj he]⟩
  have hdue := of_decide_eq_true hle
  have hkeeps := h.keeps
  rw [harmed] at hkeeps
  have hadv := hkeeps.expireHead
  have hlast := h.lastRead_le
  obtain ⟨hfst, hrefines⟩ := Refines.trigger (s := { s with alarm := none }) hadv h.adjust (by omega) hdue
    (by dsimp only; omega) h.tick h.fired harmed h.target
  refine ⟨max e.2 base, ?_⟩
  rw [ztimerHandler_trigger (s := { s with alarm := none }) hkeeps.linked.seg.1 hfst]
  exact hrefines

theorem Refines.resume (h : Refines adjustSet s σ base) (hread : ReadsInTime s .resume) :
    ∃ base', Refines adjustSet (ztimerHandlerResume counter s) σ.runDue base' := by
  by_cases hdue : ∃ e ∈ σ.armed.head?, e.2 ≤ base
  · obtain ⟨e, he, hdue⟩ := hdue
    obtain ⟨armed, harmed⟩ := head?_eq_some_iff.mp he
    have hkeeps := h.keeps
    rw [harmed] at hkeeps
    obtain ⟨hfst, hrefines⟩ := Refines.trigger hkeeps h.adjust hdue h.base_le h.lastRead_le h.tick h.fired harmed
      h.target
    refine ⟨base, ?_⟩
    rw [ztimerHandlerResume_trigger hfst]
    exact hrefines
  · have hnone := h.keeps.take_none fun e he => not_le.mp fun hle => hdue ⟨e, he, hle⟩
    have hupd := h.update hread (by rw [reads, hnone]; rfl)
    obtain ⟨-, -, hadj, -⟩ := ztimerUpdateHeadOffset_spec h.keeps.linked (s.now counter)
    refine ⟨s.time, ?_⟩
    by_cases hdue' : ∃ e ∈ σ.armed.head?, e.2 ≤ s.time
    · obtain ⟨e, he, hdue'⟩ := hdue'
      obtain ⟨armed, harmed⟩ := head?_eq_some_iff.mp he
      rw [harmed] at hupd
      obtain ⟨hfst, hrefines⟩ := Refines.trigger (s := { s with lastRead := s.time }) hupd (hadj.trans h.adjust)
        hdue' le_rfl le_rfl h.tick h.fired harmed h.target
      rw [ztimerHandlerResume_late hnone hfst]
      exact hrefines
    · have hnone' := hupd.take_none fun e he => not_le.mp fun hle => hdue' ⟨e, he, hle⟩
      have hrun : σ.runDue = { σ with handling := false } := by
        unfold Timers.runDue
        split
        · rfl
        · rename_i t target armed harmed
          refine if_neg fun hle => hdue' ⟨(t, target), ?_, ?_⟩
          · rw [harmed]
            rfl
          · rw [h.tick]
            exact hle
      rw [ztimerHandlerResume_end hnone hnone', hrun, ztimerUpdate_eq]
      refine ⟨hupd, hadj.trans h.adjust, le_refl _, le_refl _, fun _ => ⟨rfl, ?_⟩, h.tick, rfl, h.fired,
        h.target⟩
      refine Keeps.counter_alarm (s := ztimerUpdate counter _) ?_ ?_ ztimerUpdate_idem
      · rw [ztimerUpdate_eq]
        exact hupd
      · rw [ztimerUpdate_eq]

/-- **Each step of the clock is one of the abstract clock.** -/
theorem Refines.step (h : Refines adjustSet s σ base) {e : Event T} (hread : ReadsInTime s e)
    (hstep : Riot.Ztimer.step counter s e = some s') :
    ∃ σ' base', σ.step adjustSet e = some σ' ∧ Refines adjustSet s' σ' base' := by
  cases e with
  | set t val =>
    cases hstep
    obtain ⟨σ', hσ, hrefines⟩ := h.set hread
    exact ⟨σ', _, hσ, hrefines⟩
  | remove t =>
    cases hstep
    obtain ⟨base', hrefines, -⟩ := h.remove hread
    exact ⟨_, base', rfl, hrefines⟩
  | advance ticks =>
    cases hstep
    refine ⟨_, base, rfl, h.keeps, h.adjust, le_add_right_of_le h.base_le, h.lastRead_le, h.idle, ?_, h.handling,
      h.fired, h.target⟩
    rw [h.tick]
  | handler =>
    rw [Riot.Ztimer.step] at hstep
    split at hstep
    · exact absurd hstep (by simp)
    rename_i hidle
    split at hstep
    · rename_i halarm
      cases hstep
      obtain ⟨base', hrefines⟩ := h.handler (Bool.eq_false_iff.mpr hidle) halarm
      refine ⟨_, base', ?_, hrefines⟩
      rw [Timers.step, ← h.handling, if_neg hidle]
    · exact absurd hstep (by simp)
  | resume =>
    rw [Riot.Ztimer.step] at hstep
    split at hstep
    · rename_i hhandling
      cases hstep
      obtain ⟨base', hrefines⟩ := h.resume hread
      refine ⟨_, base', ?_, hrefines⟩
      rw [Timers.step, ← h.handling, if_pos hhandling]
    · exact absurd hstep (by simp)

omit [DecidableEq T] [Fintype T] in
theorem refines_start (adjustSet : UInt16) (time : Nat) :
    Refines adjustSet (start adjustSet time : Sys T) (Timers.start time) time where
  keeps := Keeps.start
  adjust := rfl
  base_le := le_refl _
  lastRead_le := le_refl _
  idle := fun _ => ⟨rfl, rfl⟩
  tick := rfl
  handling := rfl
  fired := rfl
  target := fun _ h => absurd h not_mem_nil

/-! ## Runs -/

/-- The list encodes the armed timers of an abstract clock with its invariant, the same
callbacks were run, and between callbacks the lower layer is set for the first timer. -/
structure Multiplexes (s : Sys T) (σ : Timers T) : Prop where
  list : ∃ base, Keeps s.clock base σ.armed ∧ base ≤ s.time
  alarm : s.handling = false → s.alarm = σ.armed.head?.map fun e => max e.2 s.lastRead
  fired : s.fired = σ.fired
  inv : σ.Inv

/-- **One clock for many timers.** As long as the lower layer is asked for the time often
enough while there are timers, every run is one of the abstract clock. -/
theorem clock_multiplexes (adjustSet : UInt16) (time : Nat) (es : List (Event T)) (s : Sys T)
    (hread : Along (step counter) ReadsInTime (start adjustSet time) es)
    (hrun : run (step counter) (start adjustSet time) es = some s) :
    ∃ σ, run (Timers.step adjustSet) (Timers.start time) es = some σ ∧ Multiplexes s σ := by
  obtain ⟨σ, hσ, base, h⟩ := run_simulation (R := fun s σ => ∃ base, Refines adjustSet s σ base)
    (fun s σ e s' ⟨base, h⟩ hread hstep => by
      obtain ⟨σ', base', hσ', h'⟩ := h.step hread hstep
      exact ⟨σ', hσ', base', h'⟩) es ⟨time, refines_start adjustSet time⟩ hread hrun
  have hinv := run_invariant_all (I := Timers.Inv) (fun _ _ _ h hstep => h.step hstep) es
    Timers.inv_start hσ
  refine ⟨σ, hσ, ⟨base, h.keeps, h.base_le⟩, fun hidle => ?_, h.fired, hinv⟩
  obtain ⟨hbase, halarm⟩ := h.idle hidle
  rw [halarm, hbase]

instance (s : Sys T) (e : Event T) : Decidable (ReadsInTime s e) :=
  inferInstanceAs (Decidable (_ → _ → _))

attribute [local instance] neZero_two neZero_three

/-- Two timers; the callback of the first sets it again. -/
def twoTimers : List (Event (Fin 2)) :=
  [.set 0 10, .set 1 5, .advance 5, .handler, .set 1 7, .resume, .advance 6, .handler, .resume]

theorem clock_multiplexes_twoTimers : ∃ s σ,
    run (step counter) (start 0 0) twoTimers = some s ∧ run (Timers.step 0) (Timers.start 0) twoTimers = some σ ∧
      Multiplexes s σ := by
  have hsome : (run (step counter) (start 0 0) twoTimers).isSome = true := by decide
  obtain ⟨s, hs⟩ := Option.isSome_iff_exists.mp hsome
  obtain ⟨σ, hσ, h⟩ := clock_multiplexes 0 0 twoTimers s (by decide) hs
  exact ⟨s, σ, hs, hσ, h⟩

/-- Less than a round of the counter passes from one call to the next. -/
def Spaced : List (Event T) → Prop
  | .advance d :: es => d < 2 ^ 32 ∧ (∀ d', es.head? ≠ some (.advance d')) ∧ Spaced es
  | _ :: es => Spaced es
  | [] => True

/-- A timer is removed that is not set: the lower layer is not asked for the time. -/
def spacedEvents : List (Event (Fin 3)) :=
  [.set 0 100, .advance (2 ^ 31), .remove 1, .advance (2 ^ 31), .set 2 5, .advance 5, .handler]

/-- The callback of the later timer runs first. -/
theorem not_clock_multiplexes : Spaced spacedEvents ∧ ∃ s σ,
    run (step counter) (start 0 0) spacedEvents = some s ∧
      run (Timers.step 0) (Timers.start 0) spacedEvents = some σ ∧ ¬ Multiplexes s σ := by
  refine ⟨by simp [spacedEvents, Spaced], ?_⟩
  have hs : (run (step counter) (start 0 0) spacedEvents).any (fun s => s.fired.map Firing.timer = [2]) = true := by
    decide
  have hσ : (run (Timers.step 0) (Timers.start 0) spacedEvents).any (fun σ => σ.fired.map Firing.timer = [0]) =
      true := by decide
  obtain ⟨s, hs, hfs⟩ := (Option.any_eq_true _ _).mp hs
  obtain ⟨σ, hσ, hfσ⟩ := (Option.any_eq_true _ _).mp hσ
  refine ⟨s, σ, hs, hσ, fun h => ?_⟩
  have := of_decide_eq_true hfs
  rw [h.fired, of_decide_eq_true hfσ] at this
  exact absurd this (by decide)

end Riot.Ztimer
