import Riot.Core.MutexCancel

/-!
# When a priority is restored

The priority a thread had when it took a mutex is kept with the mutex and written
back by `mutex_unlock` only if there is a waiter to hand the mutex to. `Restored`
says that a thread without mutexes has the priority it started with. A boosted
holder keeps its new priority when its waiters have been cancelled, when it goes
to sleep, or when what was saved was the result of a boost through another mutex.
-/

namespace Riot.Core

open Riot.Lib

variable {n : Nat}

/-- A thread that holds no mutex is at its base priority. -/
def Restored (base : Fin n → Nat) (s : Kernel n × MutexHist n) : Prop :=
  ∀ t, (∀ p ∈ s.2.held, p.2 ≠ t) → s.1.sched.priority t = base t

instance (base : Fin n → Nat) (s : Kernel n × MutexHist n) : Decidable (Restored base s) := by
  unfold Restored
  infer_instance

/-- Besides `m` the thread holds another mutex. -/
def HoldsOther (held : List (Nat × Fin n)) (m : Nat) (t : Fin n) : Prop :=
  ∃ p ∈ held, p.1 ≠ m ∧ p.2 = t

instance (held : List (Nat × Fin n)) (m : Nat) (t : Fin n) : Decidable (HoldsOther held m t) := by
  unfold HoldsOther
  infer_instance

/-- Unlocking `m` leaves the base priority to whoever holds no mutex any more: the
holder that gives it up, and the recorded owner that is given a saved priority. -/
def LeavesBase (cfg : Cfg) (base : Fin n → Nat) (s : Kernel n × MutexHist n) (m : Nat)
    (restores : Bool) : Prop :=
  match waitersOf s.1.sched (.mutexQueue m) with
  | [] => ∀ u, (m, u) ∈ s.2.held → HoldsOther s.2.held m u ∨ s.1.sched.priority u = base u
  | t :: _ =>
    ∀ u, ((m, u) ∈ s.2.held ∨ u ∈ restoredOwner cfg s.1.sched (s.1.mutex m) restores) → u ≠ t →
      HoldsOther s.2.held m u ∨ passedPriority cfg s.1.sched (s.1.mutex m) restores u = base u

/-- The condition on a step; a thread that blocks boosts only a thread that holds
a mutex. -/
def RestoresNext (cfg : Cfg) (base : Fin n → Nat) (s : Kernel n × MutexHist n)
    (e : MutexEvent n) : Prop :=
  match e.act s.1 with
  | .block m me =>
    ∀ o ∈ recordedOwner cfg s.1.sched (s.1.mutex m),
      s.1.sched.priority me < s.1.sched.priority o → ∃ p ∈ s.2.held, p.2 = o
  | .unlock m restores => LeavesBase cfg base s m restores
  | .other => True

instance (cfg : Cfg) (base : Fin n → Nat) (s : Kernel n × MutexHist n) (m : Nat)
    (restores : Bool) : Decidable (LeavesBase cfg base s m restores) := by
  unfold LeavesBase
  exact match waitersOf s.1.sched (.mutexQueue m) with
  | [] | _ :: _ => inferInstance

instance (cfg : Cfg) (base : Fin n → Nat) (s : Kernel n × MutexHist n) (e : MutexEvent n) :
    Decidable (RestoresNext cfg base s e) := by
  unfold RestoresNext
  exact match e.act s.1 with
  | .block _ _ | .unlock _ _ | .other => inferInstance

/-! ## One step -/

variable {cfg : Cfg} {base : Fin n → Nat} {s s' : Kernel n × MutexHist n}
  {W W' : WaitList n → List (Fin n)} {M M' : WaitList n → Prop} {held : List (Nat × Fin n)}
  {prio : Fin n → Nat} {e : MutexEvent n} {out : MutexOut n} {m : Nat} {me t : Fin n}

/-- `Restored`, for given holders and priorities. -/
def RestoredFrom (base : Fin n → Nat) (held : List (Nat × Fin n)) (prio : Fin n → Nat) : Prop :=
  ∀ t, (∀ p ∈ held, p.2 ≠ t) → prio t = base t

theorem holds_nothing (hm : (m, t) ∉ held) (hother : ¬ HoldsOther held m t) : ∀ p ∈ held, p.2 ≠ t := by
  intro p hp hpt
  by_cases hpm : p.1 = m
  · refine hm ?_
    rw [← hpm, ← hpt]
    exact hp
  · exact hother ⟨p, hp, hpm, hpt⟩

theorem holds_unhold : (∀ p ∈ unhold held m, p.2 ≠ t) ↔ ¬ HoldsOther held m t := by
  constructor
  · rintro h ⟨p, hp, hpm, hpt⟩
    exact h p (mem_unhold.mpr ⟨hp, hpm⟩) hpt
  · intro h p hp hpt
    obtain ⟨hp, hpm⟩ := mem_unhold.mp hp
    exact h ⟨p, hp, hpm, hpt⟩

theorem restored_boost {o : Option (Fin n)} (h : RestoredFrom base held prio) :
    RestoredFrom base held (setPriority prio o fun t => min (prio t) (prio me)) ↔
      ∀ r ∈ o, prio me < prio r → ∃ p ∈ held, p.2 = r := by
  constructor
  · intro h' r hr hlt
    by_contra hnone
    have hfree : ∀ p ∈ held, p.2 ≠ r := fun p hp hpr => hnone ⟨p, hp, hpr⟩
    have hbase := h r hfree
    have hboost := h' r hfree
    rw [show o = some r from hr, setPriority_self] at hboost
    omega
  · intro hb t ht
    have hbase := h t ht
    by_cases ho : o = some t
    · have hnlt : ¬ prio me < prio t := by
        intro hlt
        obtain ⟨p, hp, hpt⟩ := hb t ho hlt
        exact ht p hp hpt
      rw [ho, setPriority_self]
      omega
    · rw [setPriority_of_ne ho]
      exact hbase

theorem restored_release (h : RestoredFrom base held prio) : RestoredFrom base (unhold held m) prio ↔
      ∀ u, (m, u) ∈ held → HoldsOther held m u ∨ prio u = base u := by
  unfold RestoredFrom
  simp only [holds_unhold]
  constructor
  · intro h' u _
    by_cases hother : HoldsOther held m u
    · exact .inl hother
    · exact .inr (h' u hother)
  · intro hb u hother
    by_cases hm : (m, u) ∈ held
    · exact (hb u hm).resolve_left hother
    · exact h u (holds_nothing hm hother)

theorem restored_pass {o : Option (Fin n)} {p : Fin n → Nat} (h : RestoredFrom base held prio) :
    RestoredFrom base ((m, t) :: unhold held m) (setPriority prio o p) ↔
      ∀ u, ((m, u) ∈ held ∨ u ∈ o) → u ≠ t → HoldsOther held m u ∨ setPriority prio o p u = base u := by
  have hafter : ∀ u, (∀ p ∈ (m, t) :: unhold held m, p.2 ≠ u) ↔ u ≠ t ∧ ¬ HoldsOther held m u := by
    intro u
    rw [List.forall_mem_cons, holds_unhold, ne_comm]
  unfold RestoredFrom
  simp only [hafter]
  constructor
  · intro h' u _ hut
    by_cases hother : HoldsOther held m u
    · exact .inl hother
    · exact .inr (h' u ⟨hut, hother⟩)
  · rintro hb u ⟨hut, hother⟩
    by_cases hcon : (m, u) ∈ held ∨ u ∈ o
    · exact (hb u hcon hut).resolve_left hother
    -- it held nothing before, and its priority stays
    · have hm : (m, u) ∉ held := fun h => hcon (.inl h)
      rw [setPriority_of_ne fun h => hcon (.inr h)]
      exact h u (holds_nothing hm hother)

/-- **One step, exactly.** -/
theorem restored_step (h : MutexHistInv cfg s W M) (hP : Restored base s)
    (hst : MutexStepped cfg s.1 s'.1 W W' M M' e out) (hrec : s'.2 = mutexRecord s.2 out) :
    RestoresNext cfg base s e ↔ Restored base s' := by
  have hfits := hst.fits h.inv.inv
  have hmove := hst.move
  have hgoal : Restored base s' ↔ RestoredFrom base (heldAfter s.2.held out) s'.1.sched.priority := by
    rw [← mutexRecord_held, ← hrec]
    exact Iff.rfl
  rw [hgoal]
  unfold RestoresNext
  cases hact : e.act s.1 with
  | block m me =>
    rw [hact] at hfits
    obtain rfl : out = .blocked m me := hfits
    cases hmove with
    | blocked hlocked hp hx =>
      rw [hp]
      exact (restored_boost hP).symm
  | unlock m restores =>
    rw [hact] at hfits
    obtain ⟨rfl, hout⟩ := hfits
    dsimp only
    unfold LeavesBase
    rw [h.inv.inv.waiting.waitersOf]
    rcases hout with ⟨rfl, hfree⟩ | rfl | ⟨t, rfl⟩
    · cases hmove with
      | nothing hp hx =>
        rw [hfree.1, hp]
        exact iff_of_true (fun u hu => absurd hu (h.held.not_mem hfree u)) hP
    · cases hmove with
      | released hw hm hp hx =>
        rw [hw, hp]
        exact (restored_release hP).symm
    · cases hmove with
      | handed hw hp hx =>
        rw [hw, hp]
        exact (restored_pass hP).symm
  | other =>
    rw [hact] at hfits
    refine iff_of_true trivial ?_
    cases hmove with
    | nothing hp => rwa [hp]
    | refused hp => rwa [hp]
    | woken hp => rwa [hp]
    | dequeued _ hp => rwa [hp]
    | locked _ _ hp =>
      rw [hp]
      exact fun t ht => hP t fun p hp => ht p (List.mem_cons_of_mem _ hp)
    | blocked => exact absurd rfl (hfits.1 _ _)
    | released => exact absurd rfl (hfits.2.1 _)
    | handed => exact absurd rfl (hfits.2.2 _ _)

/-- **Priorities are restored, exactly when nobody is left with a boost**: over
whole runs from the priorities the threads start with. -/
theorem restored_iff (cfg : Cfg) (k : Kernel n) (es : List (MutexEvent n))
    (hk : MutexStart cfg k) :
    Along (mutexHistStep cfg) (RestoresNext cfg k.sched.priority) (k, MutexHist.empty) es ↔
      Always (mutexHistStep cfg) (Restored k.sched.priority) (k, MutexHist.empty) es := by
  refine along_iff_always (I := fun s => ∃ W M, MutexHistInv cfg s W M)
    (fun s e s' hI hP hs => ?_) (fun s e s' hI _ _ hs => ?_) es ⟨_, _, hk.inv⟩ fun _ _ => rfl
  · obtain ⟨W, M, h⟩ := hI
    obtain ⟨W', M', out, h', hst, hrec⟩ := mutexHistStep_moves h hs
    exact restored_step h hP hst hrec
  · obtain ⟨W, M, h⟩ := hI
    obtain ⟨W', M', out, h', hst, hrec⟩ := mutexHistStep_moves h hs
    exact ⟨W', M', h'⟩

/-- The waiter that has boosted the holder is still there when the mutex is unlocked. -/
theorem restored_iff_waiting :
    Always (mutexHistStep clzCfg) (Restored lateCancelStart.sched.priority)
      (lateCancelStart, .empty) (cancelableWait ++ [.call 0 (.unlock 0)]) :=
  (restored_iff clzCfg _ _ lateCancelStart_start).mp (by decide)

/-- The waiter that has boosted the holder is cancelled, so that nobody waits when
the mutex is unlocked. Every thread is the one `sched_run` picks, and every call
is permitted. -/
theorem not_restored :
    clzCfg.priorityInheritance = true ∧ MutexStart clzCfg lateCancelStart ∧
      Along (mutexHistStep clzCfg)
        (fun s e => MutexPermitted s.1 e ∧ ∀ t ∈ e.thread, Picked clzCfg s.1.sched t)
        (lateCancelStart, .empty) (cancelableWait ++ [.isrCancel 0, .call 0 (.unlock 0)]) ∧
      ∃ s, run (mutexHistStep clzCfg) (lateCancelStart, .empty)
          (cancelableWait ++ [.isrCancel 0, .call 0 (.unlock 0)]) = some s ∧
        ¬ Restored lateCancelStart.sched.priority s := by
  refine ⟨rfl, lateCancelStart_start, by decide, ?_⟩
  have hend : (run (mutexHistStep clzCfg) (lateCancelStart, .empty)
      (cancelableWait ++ [.isrCancel 0, .call 0 (.unlock 0)])).any (fun s =>
      decide (¬ Restored lateCancelStart.sched.priority s)) = true := by decide
  obtain ⟨s, hs, hnot⟩ := (Option.any_eq_true _ _).mp hend
  exact ⟨s, hs, of_decide_eq_true hnot⟩

end Riot.Core
