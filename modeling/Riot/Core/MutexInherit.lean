import Riot.Core.MutexHist

/-!
# Whose priority is inherited

A thread that blocks raises the priority of the *recorded* owner, which is the
thread that took the mutex when it was unlocked. `mutex_unlock` hands the mutex
on without changing the record, and writes the saved priority back into a thread
that may hold other mutexes or wait for one. `Inherits` says that every holder
runs at least at the priority of those who wait for it, and is kept exactly by
the steps that happen to boost and restore the right threads.
-/

namespace Riot.Core

open Riot.Lib Function

variable {n : Nat}

/-- Every holder has at least the priority of those who wait for its mutex. -/
def Inherits (s : Kernel n × MutexHist n) : Prop :=
  ∀ p ∈ s.2.held, ∀ u ∈ waitersOf s.1.sched (.mutexQueue p.1),
    s.1.sched.priority p.2 ≤ s.1.sched.priority u

instance (s : Kernel n × MutexHist n) : Decidable (Inherits s) := by
  unfold Inherits
  infer_instance

/-- Blocking on `m` raises the right priorities: the holder is the recorded owner
or needs no boost; and if the recorded owner is boosted while it waits for
another mutex itself, then the holder of that one needs no boost. -/
def BoostSuffices (cfg : Cfg) (s : Kernel n × MutexHist n) (m : Nat) (me : Fin n) : Prop :=
  (∀ p ∈ s.2.held, p.1 = m → recordedOwner cfg s.1.sched (s.1.mutex m) = some p.2 ∨
    s.1.sched.priority p.2 ≤ s.1.sched.priority me) ∧
  ∀ o ∈ recordedOwner cfg s.1.sched (s.1.mutex m), s.1.sched.priority me < s.1.sched.priority o →
    ∀ p ∈ s.2.held, o ∈ waitersOf s.1.sched (.mutexQueue p.1) →
      p.2 = o ∨ s.1.sched.priority p.2 ≤ s.1.sched.priority me

/-- Unlocking `m` passes it to the most urgent waiter; and the priority written
back into the recorded owner is enough for the other mutexes it holds, and not
above that of whom it waits for. -/
def PassSuffices (cfg : Cfg) (s : Kernel n × MutexHist n) (m : Nat) (restores : Bool) : Prop :=
  match waitersOf s.1.sched (.mutexQueue m) with
  | [] => True
  | t :: ts =>
    (∀ u ∈ ts, passedPriority cfg s.1.sched (s.1.mutex m) restores t ≤
      passedPriority cfg s.1.sched (s.1.mutex m) restores u) ∧
    ∀ o ∈ restoredOwner cfg s.1.sched (s.1.mutex m) restores, ∀ p ∈ s.2.held, p.1 ≠ m →
      (p.2 = o → ∀ u ∈ waitersOf s.1.sched (.mutexQueue p.1),
        u = o ∨ (s.1.mutex m).ownerOriginalPriority ≤ s.1.sched.priority u) ∧
      (o ∈ waitersOf s.1.sched (.mutexQueue p.1) →
        p.2 = o ∨ s.1.sched.priority p.2 ≤ (s.1.mutex m).ownerOriginalPriority)

/-- The condition on a step. -/
def InheritsNext (cfg : Cfg) (s : Kernel n × MutexHist n) (e : MutexEvent n) : Prop :=
  match e.act s.1 with
  | .block m me => BoostSuffices cfg s m me
  | .unlock m restores => PassSuffices cfg s m restores
  | .other => True

instance (cfg : Cfg) (s : Kernel n × MutexHist n) (m : Nat) (me : Fin n) :
    Decidable (BoostSuffices cfg s m me) := by
  unfold BoostSuffices
  infer_instance

instance (cfg : Cfg) (s : Kernel n × MutexHist n) (m : Nat) (restores : Bool) :
    Decidable (PassSuffices cfg s m restores) := by
  unfold PassSuffices
  split <;> infer_instance

instance (cfg : Cfg) (s : Kernel n × MutexHist n) (e : MutexEvent n) :
    Decidable (InheritsNext cfg s e) := by
  unfold InheritsNext
  split <;> infer_instance

/-! ## One step -/

variable {cfg : Cfg} {k k' : Kernel n} {s s' : Kernel n × MutexHist n}
  {W W' : WaitList n → List (Fin n)} {M M' : WaitList n → Prop} {held : List (Nat × Fin n)}
  {prio : Fin n → Nat} {e : MutexEvent n} {out : MutexOut n} {m : Nat} {me : Fin n}

/-- `Inherits`, for given holders, waiters and priorities. -/
def InheritsFrom (held : List (Nat × Fin n)) (W : WaitList n → List (Fin n))
    (prio : Fin n → Nat) : Prop :=
  ∀ p ∈ held, ∀ u ∈ W (.mutexQueue p.1), prio p.2 ≤ prio u

theorem MutexHistInv.inheritsFrom_iff (h : MutexHistInv cfg s W M) :
    Inherits s ↔ InheritsFrom s.2.held W s.1.sched.priority := by
  unfold Inherits InheritsFrom
  simp only [h.inv.inv.waiting.waitersOf]

theorem inherits_boost {o : Option (Fin n)} (h : InheritsFrom held W prio) :
    InheritsFrom held (update W (.mutexQueue m) (insertPrio prio me (W (.mutexQueue m))))
        (setPriority prio o fun t => min (prio t) (prio me)) ↔
      (∀ p ∈ held, p.1 = m → o = some p.2 ∨ prio p.2 ≤ prio me) ∧
        ∀ t ∈ o, prio me < prio t → ∀ p ∈ held, t ∈ W (.mutexQueue p.1) → p.2 = t ∨ prio p.2 ≤ prio me := by
  have hle : ∀ t, setPriority prio o (fun t => min (prio t) (prio me)) t ≤ prio t := by
    intro t
    by_cases ht : o = some t
    · rw [ht, setPriority_self]
      exact min_le_left _ _
    · rw [setPriority_of_ne ht]
  have hme : setPriority prio o (fun t => min (prio t) (prio me)) me = prio me := by
    by_cases ht : o = some me
    · rw [ht, setPriority_self, min_self]
    · rw [setPriority_of_ne ht]
  have hmem : ∀ m' u, u ∈ update W (.mutexQueue m) (insertPrio prio me (W (.mutexQueue m))) (.mutexQueue m') ↔
      u = me ∧ m' = m ∨ u ∈ W (.mutexQueue m') := by
    intro m' u
    rw [mem_update_queue]
    split
    · rename_i hmm
      rw [mem_insertPrio, hmm]
      simp
    · rename_i hmm
      simp [hmm]
  constructor
  · intro h'
    refine ⟨fun p hp hpm => ?_, fun t ht hlt p hp hw => ?_⟩
    · have hwait := h' p hp me ((hmem p.1 me).mpr (.inl ⟨rfl, hpm⟩))
      rw [hme] at hwait
      by_cases ho : o = some p.2
      · exact .inl ho
      · rw [setPriority_of_ne ho] at hwait
        exact .inr hwait
    · have hwait := h' p hp t ((hmem p.1 t).mpr (.inr hw))
      rw [show o = some t from ht, setPriority_self, min_eq_right (le_of_lt hlt)] at hwait
      by_cases hpt : p.2 = t
      · exact .inl hpt
      · rw [setPriority_of_ne (by simpa [eq_comm] using hpt)] at hwait
        exact .inr hwait
  · rintro ⟨hnew, hchain⟩ p hp u hu
    rcases (hmem p.1 u).mp hu with ⟨rfl, hpm⟩ | hw
    -- the new waiter
    · rw [hme]
      rcases hnew p hp hpm with ho | hle'
      · rw [ho, setPriority_self]
        exact min_le_right _ _
      · exact (hle p.2).trans hle'
    -- a thread that waited before, perhaps boosted now
    · have hold := h p hp u hw
      by_cases ho : o = some u
      · by_cases hlt : prio me < prio u
        · rcases hchain u ho hlt p hp hw with hpu | hle'
          · rw [hpu]
          · rw [ho, setPriority_self, min_eq_right (le_of_lt hlt), ← ho]
            exact (hle p.2).trans hle'
        · rw [ho, setPriority_self, min_eq_left (Nat.le_of_not_lt hlt), ← ho]
          exact (hle p.2).trans hold
      · rw [setPriority_of_ne ho]
        exact (hle p.2).trans hold

theorem inherits_pass {o : Option (Fin n)} {orig : Nat} {t : Fin n} {ts : List (Fin n)}
    (h : InheritsFrom held W prio) :
    InheritsFrom ((m, t) :: unhold held m) (update W (.mutexQueue m) ts) (setPriority prio o fun _ => orig) ↔
      (∀ u ∈ ts, setPriority prio o (fun _ => orig) t ≤ setPriority prio o (fun _ => orig) u) ∧
        ∀ r ∈ o, ∀ p ∈ held, p.1 ≠ m → (p.2 = r → ∀ u ∈ W (.mutexQueue p.1), u = r ∨ orig ≤ prio u) ∧
            (r ∈ W (.mutexQueue p.1) → p.2 = r ∨ prio p.2 ≤ orig) := by
  have hother : ∀ p ∈ held, p.1 ≠ m → ((∀ u ∈ W (.mutexQueue p.1),
          setPriority prio o (fun _ => orig) p.2 ≤ setPriority prio o (fun _ => orig) u) ↔
        ∀ r ∈ o, (p.2 = r → ∀ u ∈ W (.mutexQueue p.1), u = r ∨ orig ≤ prio u) ∧
          (r ∈ W (.mutexQueue p.1) → p.2 = r ∨ prio p.2 ≤ orig)) := by
    intro p hp hpm
    have hold := h p hp
    cases o with
    | none => simpa [setPriority] using hold
    | some r =>
      constructor
      · intro h' r' hr
        obtain rfl : r = r' := by simpa using hr
        constructor
        · intro hpr u hu
          have := h' u hu
          rw [hpr, setPriority_self] at this
          by_cases hur : u = r
          · exact .inl hur
          · rw [setPriority_of_ne (by simpa [eq_comm] using hur)] at this
            exact .inr this
        · intro hw
          have := h' r hw
          rw [setPriority_self] at this
          by_cases hpr : p.2 = r
          · exact .inl hpr
          · rw [setPriority_of_ne (by simpa [eq_comm] using hpr)] at this
            exact .inr this
      · intro hr u hu
        obtain ⟨hholds, hwaits⟩ := hr r rfl
        by_cases hpr : p.2 = r
        · by_cases hur : u = r
          · rw [hpr, hur]
          · rw [hpr, setPriority_self, setPriority_of_ne (by simpa [eq_comm] using hur)]
            exact (hholds hpr u hu).resolve_left hur
        · rw [setPriority_of_ne (by simpa [eq_comm] using hpr)]
          by_cases hur : u = r
          · rw [hur, setPriority_self]
            exact (hwaits (hur ▸ hu)).resolve_left hpr
          · rw [setPriority_of_ne (by simpa [eq_comm] using hur)]
            exact hold u hu
  constructor
  · intro h'
    refine ⟨fun u hu => ?_, fun r hr p hp hpm => ?_⟩
    · exact h' (m, t) (by simp) u (by simpa using hu)
    · refine (hother p hp hpm).mp (fun u hu => ?_) r hr
      refine h' p (List.mem_cons_of_mem _ (mem_unhold.mpr ⟨hp, hpm⟩)) u ?_
      rwa [update_queue_ne _ hpm]
  · rintro ⟨hfirst, hrest⟩ p hp
    rcases List.mem_cons.mp hp with rfl | hp
    · intro u hu
      exact hfirst u (by simpa using hu)
    · obtain ⟨hp, hpm⟩ := mem_unhold.mp hp
      rw [update_queue_ne _ hpm]
      exact (hother p hp hpm).mpr fun r hr => hrest r hr p hp hpm

/-- **One step, exactly.** -/
theorem inherits_step (h : MutexHistInv cfg s W M) (hP : Inherits s)
    (h' : MutexHistInv cfg s' W' M') (hst : MutexStepped cfg s.1 s'.1 W W' M M' e out)
    (hrec : s'.2 = mutexRecord s.2 out) : InheritsNext cfg s e ↔ Inherits s' := by
  have hP := h.inheritsFrom_iff.mp hP
  have hfits := hst.fits h.inv.inv
  have hmove := hst.move
  rw [h'.inheritsFrom_iff, hrec, mutexRecord_held]
  unfold InheritsNext
  -- fewer holders or fewer waiters, and the same priorities
  have hfewer : (∀ p ∈ heldAfter s.2.held out, ∀ u ∈ W' (.mutexQueue p.1),
      p ∈ s.2.held ∧ u ∈ W (.mutexQueue p.1)) → s'.1.sched.priority = s.1.sched.priority →
      InheritsFrom (heldAfter s.2.held out) W' s'.1.sched.priority := by
    intro hsub hp p hp' u hu
    rw [hp]
    exact hP p (hsub p hp' u hu).1 u (hsub p hp' u hu).2
  cases hact : e.act s.1 with
  | block m me =>
    rw [hact] at hfits
    obtain rfl : out = .blocked m me := hfits
    cases hmove with
    | blocked hlocked hp hx =>
      rw [hp]
      unfold BoostSuffices
      simp only [h.inv.inv.waiting.waitersOf]
      exact (inherits_boost hP).symm
  | unlock m restores =>
    rw [hact] at hfits
    obtain ⟨rfl, hout⟩ := hfits
    unfold PassSuffices
    simp only [h.inv.inv.waiting.waitersOf]
    rcases hout with ⟨rfl, hnil⟩ | rfl | ⟨t, rfl⟩
    · cases hmove with
      | nothing hp hx =>
        rw [hnil.1]
        exact iff_of_true trivial (hfewer (fun p hp u hu => ⟨hp, hu⟩) hp)
    · cases hmove with
      | released hw hm hp hx =>
        rw [hw]
        exact iff_of_true trivial (hfewer (fun p hp u hu => ⟨(mem_unhold.mp hp).1, hu⟩) hp)
    · cases hmove with
      | handed hw hp hx =>
        rw [hw, hp]
        exact (inherits_pass hP).symm
  | other =>
    rw [hact] at hfits
    refine iff_of_true trivial ?_
    cases hmove with
    | nothing hp => exact hfewer (fun p hp u hu => ⟨hp, hu⟩) hp
    | refused hp => exact hfewer (fun p hp u hu => ⟨hp, hu⟩) hp
    | woken hp => exact hfewer (fun p hp u hu => ⟨hp, hu⟩) hp
    | locked hfree _ hp =>
      refine hfewer (fun p hp u hu => ?_) hp
      rcases List.mem_cons.mp hp with rfl | hp
      · rw [hfree.1] at hu
        exact absurd hu (by simp)
      · exact ⟨hp, hu⟩
    | dequeued ht hp =>
      refine hfewer (fun p hp u hu => ⟨hp, ?_⟩) hp
      rw [mem_update_queue] at hu
      split at hu
      · rename_i hpm
        rw [hpm]
        exact List.mem_of_mem_erase hu
      · exact hu
    | blocked => exact absurd rfl (hfits.1 _ _)
    | released => exact absurd rfl (hfits.2.1 _)
    | handed => exact absurd rfl (hfits.2.2 _ _)

/-- **Priorities are inherited, exactly when every boost and every write-back
suits the current holders**: over whole runs. -/
theorem inherits_iff (cfg : Cfg) (k : Kernel n) (es : List (MutexEvent n))
    (hk : MutexStart cfg k) :
    Along (mutexHistStep cfg) (InheritsNext cfg) (k, MutexHist.empty) es ↔
      Always (mutexHistStep cfg) Inherits (k, MutexHist.empty) es := by
  refine along_iff_always (I := fun s => ∃ W M, MutexHistInv cfg s W M)
    (fun s e s' hI hP hs => ?_) (fun s e s' hI _ _ hs => ?_) es ⟨_, _, hk.inv⟩ ?_
  · obtain ⟨W, M, h⟩ := hI
    obtain ⟨W', M', out, h', hst, hrec⟩ := mutexHistStep_moves h hs
    exact inherits_step h hP h' hst hrec
  · obtain ⟨W, M, h⟩ := hI
    obtain ⟨W', M', out, h', hst, hrec⟩ := mutexHistStep_moves h hs
    exact ⟨W', M', h'⟩
  · intro p hp
    exact absurd hp (by simp [MutexHist.empty])

/-- Threads of the priorities 5, 7, 3 and 9, and unlocked mutexes. -/
def staleOwnerStart : Kernel 4 :=
  Kernel.init (bootWith clzCfg ![5, 7, 3, 9]) (fun _ => 1) fun _ => 0

theorem staleOwnerStart_start : MutexStart clzCfg staleOwnerStart :=
  ⟨booted_bootWith clzCfg ![5, 7, 3, 9], fun _ => rfl, fun _ => rfl⟩

/-- The first thread takes mutex 0, and the second one waits for it and gets it;
then the third one waits for it. The first and the third thread wait at times for
mutexes of their own, which others unlock. -/
def staleOwner : List (MutexEvent 4) :=
  [.call 2 (.lock 1), .call 2 (.lock 1), .call 0 (.lock 0), .call 0 (.lock 2), .call 0 (.lock 2),
    .call 1 (.lock 0), .call 3 (.unlock 2), .resume 0, .call 0 (.unlock 0), .call 0 (.unlock 1),
    .resume 2, .call 2 (.lock 0)]

theorem inherits_iff_staleOwner :
    Always (mutexHistStep clzCfg) Inherits (staleOwnerStart, .empty) (staleOwner.take 11) :=
  (inherits_iff clzCfg _ _ staleOwnerStart_start).mp (by decide)

/-- The last thread to block boosts the thread that once took the mutex, not the
one that holds it. Every thread is the one `sched_run` picks. -/
theorem not_inherits :
    clzCfg.priorityInheritance = true ∧ MutexStart clzCfg staleOwnerStart ∧
      Along (mutexHistStep clzCfg) (fun s e => ∀ t ∈ e.thread, Picked clzCfg s.1.sched t)
        (staleOwnerStart, .empty) staleOwner ∧
      ∃ s, run (mutexHistStep clzCfg) (staleOwnerStart, .empty) staleOwner = some s ∧
        ¬ Inherits s := by
  refine ⟨rfl, staleOwnerStart_start, by decide, ?_⟩
  have hend : (run (mutexHistStep clzCfg) (staleOwnerStart, .empty) staleOwner).any (fun s =>
      decide (¬ Inherits s)) = true := by decide
  obtain ⟨s, hs, hnot⟩ := (Option.any_eq_true _ _).mp hend
  exact ⟨s, hs, of_decide_eq_true hnot⟩

end Riot.Core
