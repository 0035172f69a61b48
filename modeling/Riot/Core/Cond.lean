import Riot.Core.Mutex

/-!
# Condition variables

`core/cond.c`. A `cond_t` is its queue. `cond_wait` is cut behind its `mutex_unlock`, which may
already switch to the thread that gets the mutex, and where the caller has blocked; the `mutex_lock`
at its end may block once more.
-/

namespace Riot.Core

open Function

variable {n : Nat}

/-- `cond_wait` up to the end of its `mutex_unlock`. -/
def condWait (cfg : Cfg) (k : Kernel n) (cond mutex : Nat) (me : Fin n) : Kernel n × MutexOut n :=
  let r := mutexUnlock cfg k mutex
  ({ r.1 with cont := update r.1.cont me (.condUnlocked cond mutex) }, r.2)

/-- The caller of `cond_wait` blocks. -/
def condWaitBlock (cfg : Cfg) (k : Kernel n) (cond mutex : Nat) (me : Fin n) : Kernel n :=
  { k with
    sched := threadAddToList (schedSetStatus cfg k.sched me .condBlocked) (waitHead (.condQueue cond)) me
    cont := update k.cont me (.condWait mutex) }

/-- The loop of `_cond_signal`. -/
def condSignalLoop (cfg : Cfg) (cond : Nat) (broadcast : Bool) : Nat → Sched n → Sched n
  | 0, s => s
  | fuel + 1, s =>
    let next := listRemoveHead s.next (waitHead (.condQueue cond))
    match next.1 with
    | .ref process =>
      let s := schedSetStatus cfg { s with next := next.2 } process .pending
      if broadcast then condSignalLoop cfg cond broadcast fuel s else s
    | _ => s

/-- `_cond_signal` -/
def condSignal (cfg : Cfg) (k : Kernel n) (cond : Nat) (broadcast : Bool) : Kernel n :=
  { k with sched := condSignalLoop cfg cond broadcast (listFuel n) k.sched }

/-- The calls a thread makes. -/
inductive CondCall where
  | wait (cond mutex : Nat)
  | signal (cond : Nat)
  | broadcast (cond : Nat)
  deriving DecidableEq

/-- The first section of a call. -/
def condCall (cfg : Cfg) (k : Kernel n) (me : Fin n) : CondCall → Kernel n × MutexOut n
  | .wait cond mutex => condWait cfg k cond mutex me
  | .signal cond => (condSignal cfg k cond false, .nothing)
  | .broadcast cond => (condSignal cfg k cond true, .nothing)

/-- How a thread goes on in `cond_wait`. -/
def condResume (cfg : Cfg) (k : Kernel n) (me : Fin n) : Option (Kernel n × MutexOut n) :=
  match k.cont me with
  | .condUnlocked cond mutex => some (condWaitBlock cfg k cond mutex me, .nothing)
  | .condWait mutex => some (mutexLockInternal cfg { k with cont := update k.cont me .idle } mutex me true)
  | _ => none

/-- Threads wait and signal, interrupts signal. -/
inductive CondEvent (n : Nat) where
  | call (me : Fin n) (c : CondCall)
  | resume (me : Fin n)
  | isrSignal (cond : Nat) (broadcast : Bool)
  deriving DecidableEq

/-- One section. -/
def condStep (cfg : Cfg) (k : Kernel n) : CondEvent n → Option (Kernel n × MutexOut n)
  | .call me c => (dispatch k me).bind fun k => if k.cont me = .idle then some (condCall cfg k me c) else none
  | .resume me => (dispatch k me).bind fun k => condResume cfg k me
  | .isrSignal cond broadcast => some (condSignal cfg k cond broadcast, .nothing)

/-! ## What signalling does -/

variable {cfg : Cfg} {s : Sched n} {W : WaitList n → List (Fin n)} {M : WaitList n → Prop}

/-- **`cond_signal` wakes the first thread of the queue, `cond_broadcast` all of them.** -/
theorem condSignalLoop_spec {cond : Nat} {broadcast : Bool} : ∀ {ts : List (Fin n)} {fuel : Nat} {s : Sched n}
    {W : WaitList n → List (Fin n)}, KernelInv cfg s W M → W (.condQueue cond) = ts → ts.length < fuel →
    let s' := condSignalLoop cfg cond broadcast fuel s
    KernelInv cfg s' (update W (.condQueue cond) (if broadcast then [] else ts.tail)) M ∧ s.SameTable s' ∧
      ∀ u, s'.status u = if u ∈ ts ∧ (broadcast ∨ u ∈ ts.head?) then .pending else s.status u := by
  intro ts
  induction ts with
  | nil =>
    intro fuel s W h hts hfuel
    obtain ⟨fuel, rfl⟩ := Nat.exists_eq_succ_of_ne_zero (Nat.pos_iff_ne_zero.mp hfuel)
    rcases h.removeHead_cases (w := .condQueue cond) (by simp) with ⟨t, ts, hw, -⟩ | ⟨-, hhead⟩
    · rw [hts] at hw
      cases hw
    · have heq : update W (.condQueue cond) [] = W := by rw [← hts, update_eq_self]
      dsimp only [condSignalLoop]
      rw [hhead]
      simp only [List.tail_nil, ite_self, heq]
      exact ⟨h, .refl s, fun u => by simp⟩
  | cons t ts ih =>
    intro fuel s W h hts hfuel
    obtain ⟨fuel, rfl⟩ := Nat.exists_eq_succ_of_ne_zero (Nat.ne_of_gt (lt_of_le_of_lt (Nat.zero_le _) hfuel))
    have hhead : (listRemoveHead s.next (waitHead (.condQueue cond))).1 = .ref t := by
      rcases h.removeHead_cases (w := .condQueue cond) (by simp) with ⟨u, us, hw, hhead⟩ | ⟨hw, -⟩
      · rw [hts] at hw
        cases hw
        exact hhead
      · rw [hts] at hw
        cases hw
    obtain ⟨hinv, hset⟩ := h.wakeFirst hts
    dsimp only [condSignalLoop]
    rw [hhead]
    cases broadcast with
    | false =>
      refine ⟨hinv, hset.same, fun u => ?_⟩
      simp only [hset.status, Bool.false_eq_true, if_false, false_or, List.head?_cons, Option.mem_some_iff]
      by_cases hut : u = t
      · rw [hut, update_self, if_pos ⟨List.mem_cons_self, rfl⟩]
      · rw [update_of_ne hut, if_neg fun hu => hut hu.2.symm]
    | true =>
      obtain ⟨hinv', hsame, hstatus⟩ := ih hinv (update_self ..) (Nat.lt_of_succ_lt_succ hfuel)
      rw [update_idem] at hinv'
      refine ⟨hinv', hset.same.trans hsame, fun u => ?_⟩
      simp only [true_or, and_true] at hstatus ⊢
      refine (hstatus u).trans ?_
      simp only [hset.status, List.mem_cons]
      by_cases hut : u = t
      · rw [hut, update_self, ite_self, if_pos (.inl rfl)]
      · rw [update_of_ne hut]
        simp only [hut, false_or]

end Riot.Core
