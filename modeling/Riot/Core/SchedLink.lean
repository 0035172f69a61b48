import Mathlib.Data.List.Sort
import Mathlib.Data.Fintype.Card
import Riot.Core.Sched

/-!
# Where a thread is linked

`Linked s L` ties the scheduler state to the lists it stands for: the run queues
and wait lists share the `rq_entry` nodes without overlap, a live thread is in
the run queue of its priority exactly when its status says so, a thread in a
wait list has a status that names such a list, and the bit cache knows which run
queues are empty.

Every function that touches a list has one theorem here that says what becomes
of `L`. Nothing above this file looks at a `next` pointer again.
-/

namespace Riot.Core

open Riot.Lib Function

variable {n : Nat} {cfg : Cfg} {s : Sched n} {L : Head n → List (Fin n)}

/-- The bit of `priority` is set. -/
def RunqueueBitSet (cfg : Cfg) (bitcache : BitVec 32) (priority : Nat) : Prop :=
  bitcache.getLsbD (if cfg.hasClz then 31 - priority else priority) = true

/-- The scheduler state represents the lists `L`. -/
structure Linked (cfg : Cfg) (s : Sched n) (L : Head n → List (Fin n)) : Prop where
  /-- The `next` pointers hold the lists, each thread at most once. -/
  linkage : Linkage Head.IsRunqueue s.next L
  /-- A thread is in a run queue iff it is live, runnable and of that priority. -/
  runq : ∀ t p, t ∈ L (.runqueue p) ↔
    s.Live t ∧ (s.status t).onRunqueue = true ∧ s.priority t = p
  /-- A thread in a wait list is live, and its status names the list. -/
  waits : ∀ t w, t ∈ L (.wait w) → s.Live t ∧ (s.status t).waitsIn w = true
  /-- The bit cache knows the non-empty run queues. -/
  bits : ∀ p, p < 32 → (RunqueueBitSet cfg s.runqueueBitcache p ↔ L (.runqueue p) ≠ [])
  /-- Priorities of live threads are in range. -/
  prio : ∀ t, s.Live t → s.priority t < cfg.schedPrioLevels

/-! ## Status -/

variable {bits : BitVec 32} {t : Fin n} {p q : Nat} {st : ThreadStatus} {w : WaitList n}

theorem ThreadStatus.waitsIn_not_onRunqueue (h : st.waitsIn w = true) : st.onRunqueue = false := by
  cases st <;> first | rfl | (cases w <;> simp [ThreadStatus.waitsIn] at h)

theorem not_isRunqueue (w : WaitList n) : ¬ (Head.wait w).IsRunqueue := id

theorem isRunqueue (p : Nat) : (Head.runqueue p : Head n).IsRunqueue := trivial

theorem Linked.length_le (hL : Linked cfg s L) (h : Head n) : (L h).length ≤ n := by
  have := (hL.linkage.nodup h).length_le_card
  simpa using this

theorem Linked.length_lt (hL : Linked cfg s L) (h : Head n) : (L h).length < listFuel n :=
  Nat.lt_succ_of_le (hL.length_le h)

theorem Linked.not_onRunqueue (hL : Linked cfg s L) (h : t ∈ L (.wait w)) : (s.status t).onRunqueue = false :=
  ThreadStatus.waitsIn_not_onRunqueue (hL.waits t w h).2

theorem Linked.mem_runq (hL : Linked cfg s L) (hl : s.Live t)
    (h : (s.status t).onRunqueue = true) : t ∈ L (.runqueue (s.priority t)) :=
  (hL.runq t _).mpr ⟨hl, h, rfl⟩

theorem Linked.unlinked (hL : Linked cfg s L)
    (hrun : (s.status t).onRunqueue = false) (hw : ∀ w, t ∉ L (.wait w)) : Unlinked L t := by
  intro h ht
  cases h with
  | runqueue p =>
    have := ((hL.runq t p).mp ht).2.1
    rw [hrun] at this
    exact Bool.noConfusion this
  | wait w => exact hw w ht

/-! ## The bit cache -/

theorem runqueueBit_getLsbD (cfg : Cfg) {i : Nat} (hp : p < 32) (hi : i < 32) :
    (runqueueBit cfg p).getLsbD i = decide (i = if cfg.hasClz then 31 - p else p) := by
  have key : ∀ p i : Fin 32, (0x80000000#32 >>> p.val).getLsbD i.val = decide (i.val = 31 - p.val) ∧
      (1#32 <<< p.val).getLsbD i.val = decide (i.val = p.val) := by decide
  obtain ⟨h1, h2⟩ := key ⟨p, hp⟩ ⟨i, hi⟩
  unfold runqueueBit
  split
  · exact h1
  · exact h2

private theorem bitIndex_lt {cfg : Cfg} (hp : p < 32) : (if cfg.hasClz then 31 - p else p) < 32 := by
  split <;> omega

private theorem bitIndex_inj {cfg : Cfg} (hp : p < 32) (hq : q < 32) :
    ((if cfg.hasClz then 31 - q else q) = if cfg.hasClz then 31 - p else p) ↔ q = p := by
  split <;> omega

theorem setRunqueueBit_set (hp : p < 32) (hq : q < 32) :
    RunqueueBitSet cfg (setRunqueueBit cfg bits p) q ↔ RunqueueBitSet cfg bits q ∨ q = p := by
  unfold RunqueueBitSet setRunqueueBit
  rw [BitVec.getLsbD_or, runqueueBit_getLsbD cfg hp (bitIndex_lt hq), Bool.or_eq_true,
    decide_eq_true_eq, bitIndex_inj hp hq]

theorem clearRunqueueBit_set (hp : p < 32) (hq : q < 32) :
    RunqueueBitSet cfg (clearRunqueueBit cfg bits p) q ↔ RunqueueBitSet cfg bits q ∧ q ≠ p := by
  unfold RunqueueBitSet clearRunqueueBit
  rw [BitVec.getLsbD_and, BitVec.getLsbD_not, runqueueBit_getLsbD cfg hp (bitIndex_lt hq)]
  simp only [Bool.and_eq_true, decide_eq_true_eq, Bool.not_eq_true', decide_eq_false_iff_not,
    bitIndex_inj hp hq, bitIndex_lt hq, true_and]

theorem getPrioQueueFromRunqueue_spec {bits : BitVec 32} (hbits : bits ≠ 0#32) :
    getPrioQueueFromRunqueue cfg bits < 32 ∧ RunqueueBitSet cfg bits (getPrioQueueFromRunqueue cfg bits) ∧
      ∀ q, q < getPrioQueueFromRunqueue cfg bits → ¬ RunqueueBitSet cfg bits q := by
  unfold RunqueueBitSet getPrioQueueFromRunqueue
  by_cases hclz : cfg.hasClz = true
  · obtain ⟨hlt, hset, hhigh⟩ := bitarithmMsb_spec hbits
    simp only [hclz, if_true]
    refine ⟨by omega, ?_, fun q hq => ?_⟩
    · rw [show 31 - (31 - bitarithmMsb bits) = bitarithmMsb bits by omega]
      exact hset
    · rw [hhigh (31 - q) (by omega)]
      simp
  · have hlow := bitarithmLsb_spec cfg.lsbImpl hbits
    simp only [hclz]
    refine ⟨hlow.lt, hlow.1, fun q hq => ?_⟩
    simp [hlow.2 q hq]

theorem runqueueBitSet_ne_zero (h : RunqueueBitSet cfg bits p) : bits ≠ 0#32 := by
  rintro rfl
  simp [RunqueueBitSet] at h

/-! ## What the scheduler functions leave alone -/

section Fields

variable (cfg : Cfg) (s : Sched n) (t : Fin n) (st : ThreadStatus) (p : Nat)

@[simp] theorem schedSetStatus_status : (schedSetStatus cfg s t st).status = update s.status t st := by
  unfold schedSetStatus
  split <;> split <;> rfl

@[simp] theorem schedSetStatus_priority : (schedSetStatus cfg s t st).priority = s.priority := by
  unfold schedSetStatus
  split <;> split <;> rfl

@[simp] theorem schedSetStatus_pid : (schedSetStatus cfg s t st).pid = s.pid := by
  unfold schedSetStatus
  split <;> split <;> rfl

@[simp] theorem schedSetStatus_schedThreads : (schedSetStatus cfg s t st).schedThreads = s.schedThreads := by
  unfold schedSetStatus
  split <;> split <;> rfl

@[simp] theorem schedSetStatus_schedActiveThread :
    (schedSetStatus cfg s t st).schedActiveThread = s.schedActiveThread := by
  unfold schedSetStatus
  split <;> split <;> rfl

@[simp] theorem schedSetStatus_schedActivePid :
    (schedSetStatus cfg s t st).schedActivePid = s.schedActivePid := by
  unfold schedSetStatus
  split <;> split <;> rfl

@[simp] theorem schedSetStatus_live (u : Fin n) : (schedSetStatus cfg s t st).Live u ↔ s.Live u := by
  simp [Sched.Live]

@[simp] theorem schedChangePriority_status : (schedChangePriority cfg s t p).status = s.status := by
  unfold schedChangePriority
  split
  · rfl
  · split <;> rfl

@[simp] theorem schedChangePriority_priority :
    (schedChangePriority cfg s t p).priority = update s.priority t p := by
  unfold schedChangePriority
  split
  · rename_i h
    rw [← h, update_eq_self]
  · split <;> rfl

@[simp] theorem schedChangePriority_pid : (schedChangePriority cfg s t p).pid = s.pid := by
  unfold schedChangePriority
  split
  · rfl
  · split <;> rfl

@[simp] theorem schedChangePriority_schedThreads :
    (schedChangePriority cfg s t p).schedThreads = s.schedThreads := by
  unfold schedChangePriority
  split
  · rfl
  · split <;> rfl

@[simp] theorem schedChangePriority_schedActiveThread :
    (schedChangePriority cfg s t p).schedActiveThread = s.schedActiveThread := by
  unfold schedChangePriority
  split
  · rfl
  · split <;> rfl

@[simp] theorem schedChangePriority_schedActivePid :
    (schedChangePriority cfg s t p).schedActivePid = s.schedActivePid := by
  unfold schedChangePriority
  split
  · rfl
  · split <;> rfl

@[simp] theorem schedChangePriority_live (u : Fin n) : (schedChangePriority cfg s t p).Live u ↔ s.Live u := by
  simp [Sched.Live]

@[simp] theorem schedSetStatus_next_wait (w : WaitList n) :
    (schedSetStatus cfg s t st).next (.head (.wait w)) = s.next (.head (.wait w)) := by
  unfold schedSetStatus
  split <;> split
  · rfl
  · exact clistRpush_head (by simp)
  · exact clistRemove_head (by simp)
  · rfl

@[simp] theorem schedChangePriority_next_wait (w : WaitList n) :
    (schedChangePriority cfg s t p).next (.head (.wait w)) = s.next (.head (.wait w)) := by
  unfold schedChangePriority
  split
  · rfl
  · split
    · exact (clistRpush_head (by simp)).trans (clistRemove_head (by simp))
    · rfl

@[simp] theorem schedRunqAdvance_next_wait (w : WaitList n) :
    (schedRunqAdvance s p).next (.head (.wait w)) = s.next (.head (.wait w)) :=
  clistLpoprpush_head (by simp)

@[simp] theorem unschedule_next : (unschedule s t).next = s.next := by
  unfold unschedule
  split <;> rfl

@[simp] theorem schedSwitchTo_next (prev act : Option (Fin n)) :
    (schedSwitchTo s prev act t).next = s.next := by
  unfold schedSwitchTo
  split
  · rfl
  · cases act with
    | none => rfl
    | some a => exact unschedule_next _ a

theorem threadAddToListPos_entry (k : Nat) : ∀ (fuel : Nat) (u : Fin n),
    ∃ v, threadAddToListPos s k fuel (.entry u) = .entry v
  | 0, u => ⟨u, rfl⟩
  | fuel + 1, u => by
    unfold threadAddToListPos
    split
    · split
      · exact ⟨u, rfl⟩
      · exact threadAddToListPos_entry k fuel _
    · exact ⟨u, rfl⟩

theorem threadAddToListPos_head (k fuel : Nat) (w : WaitList n) :
    threadAddToListPos s k fuel (.head (.wait w)) = .head (.wait w) ∨
      ∃ v, threadAddToListPos s k fuel (.head (.wait w)) = .entry v := by
  cases fuel with
  | zero => exact .inl rfl
  | succ fuel =>
    unfold threadAddToListPos
    split
    · split
      · exact .inl rfl
      · exact .inr (threadAddToListPos_entry s k fuel _)
    · exact .inl rfl

theorem threadAddToList_next_wait {w w' : WaitList n} (hne : w' ≠ w) :
    (threadAddToList s (.head (.wait w)) t).next (.head (.wait w')) = s.next (.head (.wait w')) := by
  unfold threadAddToList
  rcases threadAddToListPos_head s (s.priority t) (listFuel n) w with h | ⟨v, h⟩ <;> rw [h] <;> simp [hne]

@[simp] theorem threadAddToList_status (w : Node (Head n) (Fin n)) :
    (threadAddToList s w t).status = s.status := rfl

@[simp] theorem threadAddToList_priority (w : Node (Head n) (Fin n)) :
    (threadAddToList s w t).priority = s.priority := rfl

@[simp] theorem threadAddToList_live (w : Node (Head n) (Fin n)) (u : Fin n) :
    (threadAddToList s w t).Live u ↔ s.Live u := Iff.rfl

end Fields

/-! ## Pushing and popping -/

/-- The bit cache agrees with the lists. -/
def BitsAgree (cfg : Cfg) (bits : BitVec 32) (L : Head n → List (Fin n)) : Prop :=
  ∀ p, p < 32 → (RunqueueBitSet cfg bits p ↔ L (.runqueue p) ≠ [])

theorem BitsAgree.wait {ts : List (Fin n)}
    (h : BitsAgree cfg bits L) : BitsAgree cfg bits (update L (.wait w) ts) := by
  intro p hp
  exact h p hp

theorem runqueuePush_lists (hlink : Linkage Head.IsRunqueue s.next L)
    (hbits : BitsAgree cfg s.runqueueBitcache L) (hp : p < 32) (ht : Unlinked L t) :
    Linkage Head.IsRunqueue (runqueuePush cfg s t p).next (update L (.runqueue p) (L (.runqueue p) ++ [t])) ∧
      BitsAgree cfg (runqueuePush cfg s t p).runqueueBitcache
        (update L (.runqueue p) (L (.runqueue p) ++ [t])) := by
  refine ⟨clistRpush_linkage hlink (isRunqueue p) ht, fun q hq => ?_⟩
  rw [runqueuePush, setRunqueueBit_set hp hq, hbits q hq]
  by_cases hqp : q = p
  · subst hqp
    simp
  · simp [hqp]

theorem runqueuePop_lists (hlink : Linkage Head.IsRunqueue s.next L)
    (hbits : BitsAgree cfg s.runqueueBitcache L) (hp : s.priority t < 32)
    (ht : t ∈ L (.runqueue (s.priority t))) :
    Linkage Head.IsRunqueue (runqueuePop cfg s t).next (update L
        (.runqueue (s.priority t)) ((L (.runqueue (s.priority t))).erase t)) ∧
      BitsAgree cfg (runqueuePop cfg s t).runqueueBitcache (update L
        (.runqueue (s.priority t)) ((L (.runqueue (s.priority t))).erase t)) := by
  have hlen : (L (.runqueue (s.priority t))).length ≤ listFuel n := by
    have := (hlink.nodup (.runqueue (s.priority t))).length_le_card
    rw [Fintype.card_fin] at this
    exact Nat.le_succ_of_le this
  have hlink' := clistRemove_linkage hlink (isRunqueue _) ht hlen
  refine ⟨hlink', fun q hq => ?_⟩
  have hring := hlink'.ring_of (isRunqueue (s.priority t))
  rw [update_self] at hring
  rw [runqueuePop]
  by_cases hqp : q = s.priority t
  · subst hqp
    rw [update_self]
    split
    · rename_i hnull
      rw [clearRunqueueBit_set hp hq]
      simp [(ring_eq_null hring).mp hnull]
    · rename_i hnull
      have hne := fun h => hnull ((ring_eq_null hring).mpr h)
      rw [hbits _ hq]
      exact ⟨fun _ => hne, fun _ hnil => by rw [hnil] at ht; simp at ht⟩
  · rw [update_of_ne (by simpa using hqp)]
    split
    · rw [clearRunqueueBit_set hp hq, hbits q hq]
      simp [hqp]
    · exact hbits q hq

/-! ## `sched_set_status` -/

theorem schedSetStatus_block (hL : Linked cfg s L)
    (hl : s.Live t) (hst : st.onRunqueue = false) (hw : ∀ w, t ∉ L (.wait w)) :
    Linked cfg (schedSetStatus cfg s t st) (update L (.runqueue (s.priority t))
      ((L (.runqueue (s.priority t))).erase t)) := by
  have hp : s.priority t < 32 := lt_of_lt_of_le (hL.prio t hl) cfg.levels_le
  have hlists : Linkage Head.IsRunqueue (schedSetStatus cfg s t st).next (update L
        (.runqueue (s.priority t)) ((L (.runqueue (s.priority t))).erase t)) ∧
      BitsAgree cfg (schedSetStatus cfg s t st).runqueueBitcache (update L
        (.runqueue (s.priority t)) ((L (.runqueue (s.priority t))).erase t)) := by
    unfold schedSetStatus
    rw [hst]
    by_cases hon : (s.status t).onRunqueue = true
    · simp only [hon, if_true]
      exact runqueuePop_lists hL.linkage hL.bits hp (hL.mem_runq hl hon)
    · have hnot : t ∉ L (.runqueue (s.priority t)) := fun hmem => hon ((hL.runq t _).mp hmem).2.1
      simp only [hon]
      rw [List.erase_of_not_mem hnot, update_eq_self]
      exact ⟨hL.linkage, hL.bits⟩
  refine ⟨hlists.1, fun u q => ?_, fun u w hu => ?_, hlists.2, fun u hu => ?_⟩
  · rw [schedSetStatus_live, schedSetStatus_status, schedSetStatus_priority]
    by_cases hut : u = t
    · subst hut
      rw [update_self, hst]
      simp only [Bool.false_eq_true, false_and, and_false, iff_false]
      by_cases hq : q = s.priority u
      · subst hq
        rw [update_self]
        exact (hL.linkage.nodup _).not_mem_erase
      · rw [update_of_ne (by simpa using hq)]
        exact fun hmem => hq ((hL.runq u q).mp hmem).2.2.symm
    · rw [update_of_ne hut, ← hL.runq u q]
      by_cases hq : q = s.priority t
      · subst hq
        rw [update_self, List.mem_erase_of_ne hut]
      · rw [update_of_ne (by simpa using hq)]
  · have hut : u ≠ t := fun hut => hw w (hut ▸ hu)
    rw [schedSetStatus_live, schedSetStatus_status, update_of_ne hut]
    exact hL.waits u w hu
  · rw [schedSetStatus_live] at hu
    rw [schedSetStatus_priority]
    exact hL.prio u hu

theorem schedSetStatus_wake (hL : Linked cfg s L)
    (hl : s.Live t) (hst : st.onRunqueue = true) (ht : Unlinked L t) :
    Linked cfg (schedSetStatus cfg s t st) (update L (.runqueue (s.priority t))
      (L (.runqueue (s.priority t)) ++ [t])) := by
  have hp : s.priority t < 32 := lt_of_lt_of_le (hL.prio t hl) cfg.levels_le
  have hon : (s.status t).onRunqueue = false := by
    cases hon : (s.status t).onRunqueue with
    | false => rfl
    | true => exact absurd (hL.mem_runq hl hon) (ht _)
  have hlists := runqueuePush_lists hL.linkage hL.bits hp ht
  have hset : (schedSetStatus cfg s t st).next = (runqueuePush cfg s t (s.priority t)).next ∧
      (schedSetStatus cfg s t st).runqueueBitcache =
        (runqueuePush cfg s t (s.priority t)).runqueueBitcache := by
    unfold schedSetStatus
    rw [hst, hon]
    exact ⟨rfl, rfl⟩
  refine ⟨hset.1 ▸ hlists.1, fun u q => ?_, fun u w hu => ?_, ?_, fun u hu => ?_⟩
  · rw [schedSetStatus_live, schedSetStatus_status, schedSetStatus_priority]
    by_cases hut : u = t
    · subst hut
      rw [update_self, hst]
      by_cases hq : q = s.priority u
      · subst hq
        simp [hl]
      · rw [update_of_ne (by simpa using hq)]
        exact ⟨fun hmem => absurd hmem (ht _), fun h => absurd h.2.2.symm hq⟩
    · rw [update_of_ne hut, ← hL.runq u q]
      by_cases hq : q = s.priority t
      · subst hq
        simp [hut]
      · rw [update_of_ne (by simpa using hq)]
  · have hut : u ≠ t := fun hut => ht _ (hut ▸ hu)
    rw [schedSetStatus_live, schedSetStatus_status, update_of_ne hut]
    exact hL.waits u w hu
  · rw [hset.2]
    exact hlists.2
  · rw [schedSetStatus_live] at hu
    rw [schedSetStatus_priority]
    exact hL.prio u hu

/-- A state that differs from a represented one in status values only, with the
same threads runnable and waiting threads untouched, represents the same lists. -/
theorem Linked.of_status {s' : Sched n} (hL : Linked cfg s L) (hnext : s'.next = s.next)
    (hbits : s'.runqueueBitcache = s.runqueueBitcache) (hprio : s'.priority = s.priority)
    (hlive : ∀ t, s'.Live t ↔ s.Live t)
    (hrun : ∀ t, (s'.status t).onRunqueue = (s.status t).onRunqueue)
    (hwait : ∀ t, (s.status t).onRunqueue = false → s'.status t = s.status t) :
    Linked cfg s' L := by
  refine ⟨hnext ▸ hL.linkage, fun t p => ?_, fun t w ht => ?_, hbits ▸ hL.bits, fun t ht => ?_⟩
  · rw [hL.runq t p, hlive, hrun, hprio]
  · rw [hlive, hwait t (hL.not_onRunqueue ht)]
    exact hL.waits t w ht
  · rw [hprio]
    exact hL.prio t ((hlive t).mp ht)

theorem schedSetStatus_runnable (hL : Linked cfg s L)
    (hst : st.onRunqueue = true) (hon : (s.status t).onRunqueue = true) :
    Linked cfg (schedSetStatus cfg s t st) L := by
  have hset : schedSetStatus cfg s t st = { s with status := update s.status t st } := by
    unfold schedSetStatus
    rw [hst, hon]
    rfl
  rw [hset]
  refine hL.of_status rfl rfl rfl (fun _ => Iff.rfl) (fun u => ?_) (fun u hu => ?_)
  · by_cases hut : u = t
    · subst hut
      simp [hst, hon]
    · simp [hut]
  · have hut : u ≠ t := by
      rintro rfl
      rw [hon] at hu
      exact Bool.noConfusion hu
    simp [hut]

/-! ## `sched_change_priority` -/

/-- A runnable thread moves to the end of the run queue of its new priority; the
wait lists stay as they are, whatever the priority of a waiting thread becomes. -/
theorem schedChangePriority_linked (hL : Linked cfg s L) (hl : s.Live t) (hp : p < cfg.schedPrioLevels) :
    ∃ L', Linked cfg (schedChangePriority cfg s t p) L' ∧ ∀ w, L' (.wait w) = L (.wait w) := by
  have hp32 : p < 32 := lt_of_lt_of_le hp cfg.levels_le
  have hold32 : s.priority t < 32 := lt_of_lt_of_le (hL.prio t hl) cfg.levels_le
  have hprio : ∀ u, (schedChangePriority cfg s t p).Live u →
      (schedChangePriority cfg s t p).priority u < cfg.schedPrioLevels := by
    intro u hu
    rw [schedChangePriority_live] at hu
    rw [schedChangePriority_priority]
    by_cases hut : u = t
    · subst hut
      rwa [update_self]
    · rw [update_of_ne hut]
      exact hL.prio u hu
  by_cases hsame : s.priority t = p
  · refine ⟨L, ?_, fun _ => rfl⟩
    unfold schedChangePriority
    rwa [if_pos hsame]
  cases hon : (s.status t).onRunqueue with
  | false =>
    have heq : schedChangePriority cfg s t p = { s with priority := update s.priority t p } := by
      unfold schedChangePriority
      rw [if_neg hsame]
      simp [threadIsActive, hon]
    refine ⟨L, ⟨?_, fun u q => ?_, fun u w hu => ?_, ?_, hprio⟩, fun _ => rfl⟩
    · rw [heq]
      exact hL.linkage
    · rw [schedChangePriority_live, schedChangePriority_status, schedChangePriority_priority, hL.runq u q]
      by_cases hut : u = t
      · subst hut
        simp [hon]
      · rw [update_of_ne hut]
    · rw [schedChangePriority_live, schedChangePriority_status]
      exact hL.waits u w hu
    · rw [heq]
      exact hL.bits
  | true =>
    have hmem := hL.mem_runq hl hon
    have hpop := runqueuePop_lists hL.linkage hL.bits hold32 hmem
    have hun : Unlinked (update L (.runqueue (s.priority t)) ((L (.runqueue (s.priority t))).erase t)) t := by
      intro h ht
      by_cases hh : h = .runqueue (s.priority t)
      · subst hh
        rw [update_self] at ht
        exact (hL.linkage.nodup _).not_mem_erase ht
      · rw [update_of_ne hh] at ht
        exact hL.linkage.not_mem hmem hh ht
    have hpush := runqueuePush_lists hpop.1 hpop.2 hp32 hun
    have hpne : (Head.runqueue p : Head n) ≠ .runqueue (s.priority t) := by
      simpa using Ne.symm hsame
    rw [update_of_ne hpne] at hpush
    have heq : (schedChangePriority cfg s t p).next = (runqueuePush cfg (runqueuePop cfg s t) t p).next ∧
        (schedChangePriority cfg s t p).runqueueBitcache =
          (runqueuePush cfg (runqueuePop cfg s t) t p).runqueueBitcache := by
      unfold schedChangePriority
      rw [if_neg hsame]
      simp [threadIsActive, hon]
    rw [← heq.1, ← heq.2] at hpush
    refine ⟨_, ⟨hpush.1, fun u q => ?_, fun u w hu => ?_, hpush.2, hprio⟩, fun w => ?_⟩
    · rw [schedChangePriority_live, schedChangePriority_status, schedChangePriority_priority]
      by_cases hut : u = t
      · subst hut
        rw [update_self]
        by_cases hqp : q = p
        · subst hqp
          simp [hl, hon]
        · rw [update_of_ne (by simpa using hqp)]
          exact ⟨fun ht => absurd ht (hun _), fun h => absurd h.2.2.symm hqp⟩
      · rw [update_of_ne hut, ← hL.runq u q]
        by_cases hqp : q = p
        · subst hqp
          simp [hut]
        · rw [update_of_ne (by simpa using hqp)]
          by_cases hqo : q = s.priority t
          · subst hqo
            rw [update_self, List.mem_erase_of_ne hut]
          · rw [update_of_ne (by simpa using hqo)]
    · rw [schedChangePriority_live, schedChangePriority_status]
      exact hL.waits u w hu
    · rw [update_of_ne (by simp), update_of_ne (by simp)]

/-! ## Rotating and switching -/

/-- The first element moved to the end. -/
def rotate1 {α : Type} : List α → List α
  | [] => []
  | t :: ts => ts ++ [t]

theorem mem_rotate1 {α : Type} {x : α} : ∀ {ts : List α}, x ∈ rotate1 ts ↔ x ∈ ts
  | [] => Iff.rfl
  | t :: ts => by simp [rotate1, or_comm]

theorem schedRunqAdvance_linked (hL : Linked cfg s L) (p : Nat) : Linked cfg (schedRunqAdvance s p)
      (update L (.runqueue p) (rotate1 (L (.runqueue p)))) := by
  have hlink : Linkage Head.IsRunqueue (schedRunqAdvance s p).next
      (update L (.runqueue p) (rotate1 (L (.runqueue p)))) := by
    cases hts : L (.runqueue p) with
    | nil =>
      have hring := hL.linkage.ring_of (isRunqueue p)
      rw [hts, ring_nil] at hring
      rw [schedRunqAdvance, clistLpoprpush, hring, rotate1, ← hts, update_eq_self]
      exact hL.linkage
    | cons t ts => exact clistLpoprpush_cons hL.linkage (isRunqueue p) hts
  refine ⟨hlink, fun t q => ?_, fun t w ht => ?_, fun q hq => ?_, hL.prio⟩
  · refine Iff.trans ?_ (hL.runq t q)
    by_cases hqp : q = p
    · subst hqp
      rw [update_self, mem_rotate1]
    · rw [update_of_ne (by simpa using hqp)]
  · exact hL.waits t w ht
  · refine (hL.bits q hq).trans ?_
    by_cases hqp : q = p
    · subst hqp
      cases L (.runqueue q) <;> simp [rotate1]
    · rw [update_of_ne (by simpa using hqp)]

theorem unschedule_linked (hL : Linked cfg s L) (t : Fin n) : Linked cfg (unschedule s t) L := by
  unfold unschedule
  split
  · rename_i hrun
    refine hL.of_status rfl rfl rfl (fun _ => Iff.rfl) (fun u => ?_) (fun u hu => ?_)
    · by_cases hut : u = t
      · subst hut
        simp [hrun]
      · simp [hut]
    · have hut : u ≠ t := by
        rintro rfl
        rw [hrun] at hu
        exact Bool.noConfusion hu
      simp [hut]
  · exact hL

theorem schedSwitchTo_linked {prev act : Option (Fin n)} (hL : Linked cfg s L)
    (hon : (s.status t).onRunqueue = true) : Linked cfg (schedSwitchTo s prev act t) L := by
  have h1 : Linked cfg { s with status := update s.status t .running } L := by
    refine hL.of_status rfl rfl rfl (fun _ => Iff.rfl) (fun u => ?_) (fun u hu => ?_)
    · by_cases hut : u = t
      · subst hut
        simp [hon]
      · simp [hut]
    · have hut : u ≠ t := by
        rintro rfl
        rw [hon] at hu
        exact Bool.noConfusion hu
      simp [hut]
  have h3 : ∀ {s : Sched n} (pid : Nat) (a : Option (Fin n)), Linked cfg s L →
      Linked cfg { s with schedActivePid := pid, schedActiveThread := a } L :=
    fun _ _ h => ⟨h.linkage, h.runq, h.waits, h.bits, h.prio⟩
  unfold schedSwitchTo
  split
  · exact h1
  · cases act with
    | none => exact h3 _ _ h1
    | some a => exact h3 _ _ (unschedule_linked h1 a)

/-- With a non-empty bit cache the scheduler picks the head of the lowest
non-empty run queue. -/
theorem schedNextThread_spec (hL : Linked cfg s L) (hbits : s.runqueueBitcache ≠ 0#32) :
    ∃ p t ts, p < 32 ∧ L (.runqueue p) = t :: ts ∧ (∀ q, q < p → L (.runqueue q) = []) ∧
      schedNextThread cfg s = .ref t := by
  obtain ⟨hlt, hset, hlow⟩ := @getPrioQueueFromRunqueue_spec cfg _ hbits
  have hne := (hL.bits _ hlt).mp hset
  obtain ⟨t, ts, hts⟩ := List.exists_cons_of_ne_nil hne
  refine ⟨_, t, ts, hlt, hts, fun q hq => ?_, clistLpeek_cons hL.linkage (isRunqueue _) hts⟩
  by_contra hqne
  exact hlow q hq ((hL.bits q (by omega)).mpr hqne)

end Riot.Core
