import Riot.Core.MutexMove

/-!
# Who holds a mutex

The queue of a mutex says that it is locked, not by whom. The history keeps
track: a thread holds a mutex from the moment the lock is taken for it, by itself
or by the hand-over of an unlocking party, until the mutex is unlocked. It also
records what the lock functions return.
-/

namespace Riot.Core

open Function

variable {n : Nat}

/-- A return of a lock function. -/
structure MutexReturn (n : Nat) where
  thread : Fin n
  mutex : Nat
  ret : MutexRet
  /-- whether the thread holds the mutex then -/
  owns : Bool
  deriving DecidableEq

structure MutexHist (n : Nat) where
  /-- The locked mutexes with their holders. -/
  held : List (Nat × Fin n)
  /-- The holder has been told that it did not get the mutex. -/
  disowned : Nat → Bool
  returns : List (MutexReturn n)

instance (h : MutexHist n) (p : Nat × Fin n) : Decidable (p ∈ h.held) := inferInstance

def MutexHist.empty : MutexHist n := ⟨[], fun _ => false, []⟩

/-- The other mutexes and their holders. -/
def unhold (held : List (Nat × Fin n)) (m : Nat) : List (Nat × Fin n) :=
  held.filter fun p => p.1 ≠ m

/-- Who holds what after a section. -/
def heldAfter (held : List (Nat × Fin n)) : MutexOut n → List (Nat × Fin n)
  | .locked m me _ => (m, me) :: held
  | .released m => unhold held m
  | .handed m t => (m, t) :: unhold held m
  | _ => held

/-- The history after a section. -/
def mutexRecord (h : MutexHist n) (out : MutexOut n) : MutexHist n :=
  let held := heldAfter h.held out
  match out with
  | .locked m me ret =>
    { held := held
      disowned := update h.disowned m false
      returns := ⟨me, m, ret, decide ((m, me) ∈ held)⟩ :: h.returns }
  | .handed m _ =>
    { h with held := held, disowned := update h.disowned m false }
  | .woken m me ret =>
    { held := held
      disowned :=
        if ret = .int negEcanceled ∧ (m, me) ∈ held then
          update h.disowned m true
        else
          h.disowned
      returns := ⟨me, m, ret, decide ((m, me) ∈ held)⟩ :: h.returns }
  | .refused m me ret =>
    { h with
      held := held
      returns := ⟨me, m, ret, decide ((m, me) ∈ held)⟩ :: h.returns }
  | _ => { h with held := held }

/-- One step of the mutexes with their history. -/
def mutexHistStep (cfg : Cfg) (s : Kernel n × MutexHist n) (e : MutexEvent n) :
    Option (Kernel n × MutexHist n) :=
  (mutexStep cfg s.1 e).map fun r => (r.1, mutexRecord s.2 r.2)

/-- The thread that takes the step, if it is not an interrupt. -/
def MutexEvent.thread : MutexEvent n → Option (Fin n)
  | .call me _ => some me
  | .resume me => some me
  | _ => none

/-- Initialised mutexes, and threads none of which is in a mutex function. -/
structure MutexStart (cfg : Cfg) (k : Kernel n) : Prop where
  booted : Booted cfg k.sched
  idle : ∀ t, k.cont t = .idle
  mutex : ∀ m, k.mutex m = ⟨kernelPidUndef, 0⟩

/-- `mutex_t` in its locked state -/
def MutexLocked (k : Kernel n) (m : Nat) : Prop :=
  k.sched.next (waitHead (.mutexQueue m)) ≠ .null

instance (k : Kernel n) (m : Nat) : Decidable (MutexLocked k m) :=
  inferInstanceAs (Decidable (_ ≠ _))

/-- Who holds a mutex with waiters `W` and marks `M`. -/
structure HeldInv (W : WaitList n → List (Fin n)) (M : WaitList n → Prop)
    (held : List (Nat × Fin n)) : Prop where
  /-- A mutex has one holder. -/
  unique : ∀ m t u, (m, t) ∈ held → (m, u) ∈ held → t = u
  /-- A mutex is locked exactly if somebody holds it. -/
  locked : ∀ m, (∃ t, (m, t) ∈ held) ↔ ¬ (W (.mutexQueue m) = [] ∧ ¬ M (.mutexQueue m))

variable {cfg : Cfg} {k k' : Kernel n} {W W' : WaitList n → List (Fin n)}
  {M M' : WaitList n → Prop} {held : List (Nat × Fin n)} {b : Bool} {out : MutexOut n} {m : Nat}

@[simp] theorem mem_unhold {m' : Nat} {t : Fin n} : (m', t) ∈ unhold held m ↔ (m', t) ∈ held ∧ m' ≠ m := by
  simp [unhold]

theorem not_mem_unhold {t : Fin n} : (m, t) ∉ unhold held m := by simp

@[simp] theorem mutexRecord_held (h : MutexHist n) (out : MutexOut n) :
    (mutexRecord h out).held = heldAfter h.held out := by
  cases out <;> rfl

theorem HeldInv.empty : HeldInv (n := n) (fun _ => []) (fun _ => False) [] :=
  ⟨fun _ _ _ h => absurd h (by simp), by simp⟩

theorem HeldInv.not_mem (h : HeldInv W M held)
    (hfree : W (.mutexQueue m) = [] ∧ ¬ M (.mutexQueue m)) (t : Fin n) : (m, t) ∉ held :=
  fun ht => (h.locked m).mp ⟨t, ht⟩ hfree

theorem HeldInv.of_waiter (h : HeldInv W M held) {u : Fin n} (hu : u ∈ W (.mutexQueue m)) :
    ∃ t, (m, t) ∈ held :=
  (h.locked m).mpr fun hf => by
    rw [hf.1] at hu
    exact absurd hu (by simp)

theorem HeldInv.congr {held' : List (Nat × Fin n)} (h : HeldInv W M held)
    (hother : ∀ m' t, m' ≠ m → ((m', t) ∈ held' ↔ (m', t) ∈ held))
    (hW : ∀ m', m' ≠ m → W' (.mutexQueue m') = W (.mutexQueue m'))
    (hM : ∀ m', m' ≠ m → M' (.mutexQueue m') = M (.mutexQueue m'))
    (huniq : ∀ t u, (m, t) ∈ held' → (m, u) ∈ held' → t = u)
    (hthis : (∃ t, (m, t) ∈ held') ↔ ¬ (W' (.mutexQueue m) = [] ∧ ¬ M' (.mutexQueue m))) :
    HeldInv W' M' held' where
  unique m' t u ht hu := by
    by_cases hmm : m' = m
    · subst hmm
      exact huniq t u ht hu
    · exact h.unique m' t u ((hother m' t hmm).mp ht) ((hother m' u hmm).mp hu)
  locked m' := by
    by_cases hmm : m' = m
    · subst hmm
      exact hthis
    · rw [hW m' hmm, hM m' hmm, ← h.locked m']
      exact exists_congr fun t => hother m' t hmm

theorem update_queue_ne {α : Type} {f : WaitList n → α} {x : α} (m' : Nat) (hmm : m' ≠ m) :
    update f (.mutexQueue m) x (.mutexQueue m') = f (.mutexQueue m') :=
  update_of_ne (by simpa using hmm) x f

theorem mem_update_queue {m' : Nat} {t : Fin n} {ts : List (Fin n)} :
    t ∈ update W (.mutexQueue m) ts (.mutexQueue m') ↔ if m' = m then t ∈ ts else t ∈ W (.mutexQueue m') := by
  by_cases hmm : m' = m
  · subst hmm
    simp
  · rw [if_neg hmm, update_queue_ne m' hmm]

/-- **Every move keeps track of the holders.** -/
theorem MutexMove.heldInv (hm : MutexMove cfg k W M b out k' W' M') (h : HeldInv W M held) :
    HeldInv W' M' (heldAfter held out) := by
  cases hm with
  | nothing => exact h
  | refused => exact h
  | woken => exact h
  | @blocked _ m me hlocked =>
    refine h.congr (m := m) (fun _ _ _ => Iff.rfl) update_queue_ne update_queue_ne
      (h.unique m) ?_
    rw [show heldAfter held (.blocked m me) = held from rfl, h.locked m, update_self]
    refine iff_of_true hlocked fun hf => ?_
    have : me ∈ insertPrio k.sched.priority me (W (.mutexQueue m)) := mem_insertPrio.mpr (.inl rfl)
    rw [hf.1] at this
    exact absurd this (by simp)
  | @locked _ m me ret hfree =>
    refine h.congr (m := m) (fun m' t hmm => ?_) (fun _ _ => rfl) update_queue_ne
      (fun t u ht hu => ?_) ?_
    · simp [heldAfter, hmm]
    · simp only [heldAfter, List.mem_cons, Prod.mk.injEq, true_and, h.not_mem hfree, or_false] at ht hu
      rw [ht, hu]
    · simp [heldAfter]
  | @released _ m hw hm =>
    refine h.congr (m := m) (fun m' t hmm => ?_) (fun _ _ => rfl) update_queue_ne
      (fun t u ht => absurd ht not_mem_unhold) ?_
    · simp [heldAfter, hmm]
    · rw [hw, update_self]
      simp [heldAfter]
  | @handed _ m t ts hw =>
    refine h.congr (m := m) (fun m' u hmm => ?_) update_queue_ne update_queue_ne
      (fun u v hu hv => ?_) ?_
    · simp [heldAfter, hmm]
    · simp only [heldAfter, List.mem_cons, Prod.mk.injEq, true_and, not_mem_unhold, or_false] at hu hv
      rw [hu, hv]
    · simp [heldAfter]
  | @dequeued _ m t ht =>
    refine h.congr (m := m) (fun _ _ _ => Iff.rfl) update_queue_ne update_queue_ne
      (h.unique m) ?_
    refine iff_of_true (h.of_waiter ht) ?_
    rw [update_self, update_self]
    exact fun hf => hf.2 hf.1

/-- What every step of the mutexes keeps. -/
structure MutexHistInv (cfg : Cfg) (s : Kernel n × MutexHist n) (W : WaitList n → List (Fin n))
    (M : WaitList n → Prop) : Prop where
  inv : MutexInv cfg s.1 W M
  held : HeldInv W M s.2.held

theorem mutexHistStep_moves {s s' : Kernel n × MutexHist n} {e : MutexEvent n}
    (h : MutexHistInv cfg s W M) (hs : mutexHistStep cfg s e = some s') :
    ∃ W' M' out, MutexHistInv cfg s' W' M' ∧ MutexStepped cfg s.1 s'.1 W W' M M' e out ∧
      s'.2 = mutexRecord s.2 out := by
  obtain ⟨⟨k', out⟩, hstep, rfl⟩ := Option.map_eq_some_iff.mp hs
  obtain ⟨W', M', hst⟩ := mutexStep_moves h.inv hstep
  refine ⟨W', M', out, ⟨hst.inv, ?_⟩, hst, rfl⟩
  rw [mutexRecord_held]
  exact hst.move.heldInv h.held

theorem MutexStart.inv (hk : MutexStart cfg k) :
    MutexHistInv cfg (k, MutexHist.empty) (fun _ => []) fun _ => False where
  inv :=
    { inv := hk.booted.inv
      original := fun m t ht => by
        rw [hk.mutex m] at ht
        exact absurd ht (by simp [threadGet, Cfg.pidIsValid, kernelPidUndef, kernelPidFirst]) }
  held := .empty

theorem MutexHistInv.locked_iff {s : Kernel n × MutexHist n} (h : MutexHistInv cfg s W M)
    (m : Nat) : MutexLocked s.1 m ↔ ∃ t, (m, t) ∈ s.2.held := by
  rw [h.held.locked m, ← h.inv.inv.unlocked_iff]
  exact Iff.rfl

/-! ## Blocking and unlocking -/

/-- What a step is about to do to priorities and holders. -/
inductive MutexAct (n : Nat) where
  | block (m : Nat) (me : Fin n)
  | unlock (m : Nat) (restores : Bool)
  /-- takes an unlocked mutex, or changes neither -/
  | other

def MutexEvent.act (k : Kernel n) : MutexEvent n → MutexAct n
  | .call me (.lock m) => if MutexLocked k m then .block m me else .other
  | .call me (.lockCancelable mc) =>
    match k.mutexCancel mc with
    | some c => if c.cancelled = false ∧ MutexLocked k c.mutex then .block c.mutex me else .other
    | none => .other
  | .call _ (.unlock m) => .unlock m true
  | .call _ (.unlockAndSleep m) => .unlock m false
  | .isrUnlock m => .unlock m true
  | _ => .other

/-- How outcomes belong to acts. -/
def MutexAct.Fits (W : WaitList n → List (Fin n)) (M : WaitList n → Prop) (restores : Bool) :
    MutexAct n → MutexOut n → Prop
  | .block m me, out => out = .blocked m me
  | .unlock m r, out => r = restores ∧ UnlockOut W M m out
  | .other, out =>
    (∀ m me, out ≠ .blocked m me) ∧ (∀ m, out ≠ .released m) ∧ ∀ m t, out ≠ .handed m t

theorem mutexLocked_iff (h : KernelInv cfg k.sched W M) (m : Nat) :
    MutexLocked k m ↔ ¬ (W (.mutexQueue m) = [] ∧ ¬ M (.mutexQueue m)) :=
  not_congr h.unlocked_iff

theorem MutexStepped.fits {e : MutexEvent n} (h : KernelInv cfg k.sched W M)
    (hst : MutexStepped cfg k k' W W' M M' e out) : (e.act k).Fits W M e.restores out := by
  have hmove := hst.move
  have hy := hst.yields
  -- an early out leaves `other`, blocking finds the mutex locked
  have hlock : ∀ m me ret, (out = .locked m me ret ∨ out = .blocked m me) →
      (if MutexLocked k m then MutexAct.block m me else .other).Fits W M e.restores out := by
    intro m me ret hout
    rcases hout with rfl | rfl
    · cases hmove with
      | locked hfree =>
        rw [if_neg fun hl => (mutexLocked_iff h m).mp hl hfree]
        simp [MutexAct.Fits]
    · cases hmove with
      | blocked hlocked =>
        rw [if_pos ((mutexLocked_iff h m).mpr hlocked)]
        rfl
  cases e with
  | call me x =>
    cases x with
    | lock m =>
      obtain ⟨_, _, _, hout⟩ := hy
      exact hlock m me (.bool true) (hout.imp And.left And.left)
    | trylock m =>
      obtain ⟨_, _, _, hout⟩ := hy
      rcases hout with rfl | rfl <;> simp [MutexEvent.act, MutexAct.Fits]
    | cancelInit mc m =>
      obtain ⟨_, rfl, _⟩ := hy
      simp [MutexEvent.act, MutexAct.Fits]
    | lockCancelable mc =>
      obtain ⟨_, _, _, c, hmc, hout⟩ := hy
      simp only [MutexEvent.act, hmc]
      rcases hout with ⟨hcan, rfl, _⟩ | ⟨hcan, hout⟩
      · simp [hcan, MutexAct.Fits]
      · simp only [hcan, true_and]
        exact hlock c.mutex me (.int 0) (hout.imp And.left And.left)
    | unlock m => exact ⟨rfl, hy.2.2⟩
    | unlockAndSleep m => exact ⟨rfl, hy.2.2.2⟩
    | cancel mc =>
      obtain ⟨_, c, _, _, hout⟩ := hy
      rcases hout with rfl | ⟨rfl, _⟩ <;> simp [MutexEvent.act, MutexAct.Fits]
  | resume me =>
    obtain ⟨_, _, _, hout⟩ := hy
    rcases hout with ⟨m, _, rfl⟩ | ⟨mc, c, _, _, rfl⟩ | ⟨_, rfl⟩ <;> simp [MutexEvent.act, MutexAct.Fits]
  | isrUnlock m => exact ⟨rfl, hy.2.2⟩
  | isrCancel mc =>
    obtain ⟨_, c, _, _, hout⟩ := hy
    rcases hout with rfl | ⟨rfl, _⟩ <;> simp [MutexEvent.act, MutexAct.Fits]
  | wakeup pid =>
    obtain ⟨rfl, _⟩ := hy
    simp [MutexEvent.act, MutexAct.Fits]

end Riot.Core
