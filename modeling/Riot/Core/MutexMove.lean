import Riot.Core.Mutex

/-!
# What the mutex functions do

Every section of a mutex function is one of a few moves: who waits where, which
queues are marked, and which priorities change.
-/

namespace Riot.Core

open Riot.Lib Function Option

/-! ## What happens to the lists -/

variable {n : Nat} {cfg : Cfg} {k : Kernel n} {s s' : Sched n} {W : WaitList n → List (Fin n)}
  {M : WaitList n → Prop} {m : Nat} {me : Fin n}

/-- The thread whose priority the mutex code changes. -/
def recordedOwner (cfg : Cfg) (s : Sched n) (mutex : Mutex) : Option (Fin n) :=
  if cfg.priorityInheritance then threadGet cfg s mutex.owner else none

/-- The owner whose priority a hand-over writes back. -/
def restoredOwner (cfg : Cfg) (s : Sched n) (mutex : Mutex) (restores : Bool) : Option (Fin n) :=
  if restores then recordedOwner cfg s mutex else none

/-- Changing the priority of at most one thread. -/
def setPriority (prio : Fin n → Nat) (o : Option (Fin n)) (p : Fin n → Nat) : Fin n → Nat :=
  match o with
  | some t => update prio t (p t)
  | none => prio

variable {t : Fin n} {k' : Kernel n} {out : MutexOut n}

theorem setPriority_self {prio : Fin n → Nat} {p : Fin n → Nat} : setPriority prio (some t) p t = p t := by
  simp [setPriority]

theorem setPriority_of_ne {prio : Fin n → Nat} {o : Option (Fin n)} {p : Fin n → Nat} (h : o ≠ some t) :
    setPriority prio o p t = prio t := by
  cases o with
  | none => rfl
  | some u => exact update_of_ne (fun htu => h (by rw [htu])) _ _

/-- The priorities after `me` has blocked. -/
def boostedPriority (cfg : Cfg) (s : Sched n) (mutex : Mutex) (me : Fin n) : Fin n → Nat :=
  setPriority s.priority (recordedOwner cfg s mutex) fun t => min (s.priority t) (s.priority me)

/-- The priorities after a hand-over. -/
def passedPriority (cfg : Cfg) (s : Sched n) (mutex : Mutex) (restores : Bool) : Fin n → Nat :=
  setPriority s.priority (restoredOwner cfg s mutex restores) fun _ => mutex.ownerOriginalPriority

theorem threadGet_live (h : KernelInv cfg s W M) {pid : Nat}
    (ht : threadGet cfg s pid = some t) : s.Live t ∧ s.pid t = pid := by
  unfold threadGet at ht
  split at ht
  · obtain ⟨hpid, _⟩ := h.table pid t ht
    refine ⟨?_, hpid⟩
    unfold Sched.Live
    rw [hpid]
    exact ht
  · exact absurd ht (by simp)

theorem KernelInv.changePriority (h : KernelInv cfg s W M) {p : Nat} (hl : s.Live t)
    (hp : p < cfg.schedPrioLevels) :
    KernelInv cfg (schedChangePriority cfg s t p) W M ∧
      SchedChange s (schedChangePriority cfg s t p) s.status (update s.priority t p) := by
  have hsame := schedChangePriority_sameTable cfg s t p
  exact ⟨h.of_sameTable hsame (h.waiting.changePriority hl hp) h.unmarked, ⟨hsame, by simp, by simp⟩⟩

theorem KernelInv.boost (h : KernelInv cfg s W M) (mutex : Mutex) (hl : s.Live me) :
    KernelInv cfg (mutexBoost cfg s mutex me) W M ∧
      SchedChange s (mutexBoost cfg s mutex me) s.status (boostedPriority cfg s mutex me) := by
  unfold mutexBoost boostedPriority recordedOwner setPriority
  split
  · cases ht : threadGet cfg s mutex.owner with
    | none => exact ⟨h, .refl s, rfl, rfl⟩
    | some owner =>
      dsimp only
      split
      · rename_i hlt
        rw [min_eq_right (le_of_lt hlt)]
        exact h.changePriority (threadGet_live h ht).1 (h.waiting.prio hl)
      · rename_i hlt
        rw [min_eq_left (Nat.le_of_not_lt hlt), update_eq_self]
        exact ⟨h, .refl s, rfl, rfl⟩
  · exact ⟨h, .refl s, rfl, rfl⟩

theorem KernelInv.restore (h : KernelInv cfg s W M) {mutex : Mutex}
    (hp : ∀ t, threadGet cfg s mutex.owner = some t → mutex.ownerOriginalPriority < cfg.schedPrioLevels) :
    KernelInv cfg (mutexRestore cfg s mutex) W M ∧
      SchedChange s (mutexRestore cfg s mutex) s.status (passedPriority cfg s mutex true) := by
  unfold mutexRestore passedPriority restoredOwner recordedOwner setPriority
  rw [if_pos rfl]
  split
  · cases ht : threadGet cfg s mutex.owner with
    | none => exact ⟨h, .refl s, rfl, rfl⟩
    | some owner =>
      dsimp only
      split
      · exact h.changePriority (threadGet_live h ht).1 (hp owner ht)
      · rename_i heq
        have heq : mutex.ownerOriginalPriority = s.priority owner := by
          simpa [eq_comm] using heq
        rw [heq, update_eq_self]
        exact ⟨h, .refl s, rfl, rfl⟩
  · exact ⟨h, .refl s, rfl, rfl⟩

theorem Sched.SameTable.threadGet (h : s.SameTable s') (pid : Nat) :
    threadGet cfg s' pid = threadGet cfg s pid := by
  unfold Core.threadGet
  rw [h.schedThreads]

theorem KernelInv.unmarked_update (h : KernelInv cfg s W M) (P : Prop) (w : WaitList n)
    (hw : update M (.mutexQueue m) P w) : ∃ m, w = .mutexQueue m := by
  by_cases hwm : w = .mutexQueue m
  · exact ⟨m, hwm⟩
  · rw [update_of_ne hwm] at hw
    exact h.unmarked w hw

theorem mutexEnqueue_spec (h : KernelInv cfg s W M) (hl : s.Live me) (hfree : Free W me) :
    KernelInv cfg (mutexEnqueue cfg s m me)
        (update W (.mutexQueue m) (insertPrio s.priority me (W (.mutexQueue m))))
        (update M (.mutexQueue m) False) ∧
      StatusSet s (mutexEnqueue cfg s m me) me .mutexBlocked := by
  have hst : ThreadStatus.mutexBlocked.waitsIn (WaitList.mutexQueue m : WaitList n) = true := rfl
  have hsame := schedSetStatus_sameTable cfg s me .mutexBlocked
  unfold mutexEnqueue
  dsimp only
  rw [schedSetStatus_next_wait]
  by_cases hm : M (.mutexQueue m)
  · rw [if_pos ((h.waiting.next_mark _).mpr hm), h.waiting.marked_nil hm, insertPrio_nil]
    have hblock : Waiting cfg (schedSetStatus cfg s me .mutexBlocked) W M := h.waiting.block hl rfl hfree
    have hW := hblock.setFirst (w := .mutexQueue m) (by simpa using hl) (by simp [hst]) hfree
    have hsame' := hsame.trans (next_sameTable _ (update (update
      (schedSetStatus cfg s me .mutexBlocked).next (waitHead (.mutexQueue m)) (.ref me))
      (.entry me) .null))
    exact ⟨h.of_sameTable hsame' hW (h.unmarked_update False), ⟨hsame', by simp, by simp⟩⟩
  · have hmark : s.next (waitHead (.mutexQueue m)) ≠ .mark := fun hmk => hm ((h.waiting.next_mark _).mp hmk)
    rw [if_neg hmark, update_unmarked hm]
    exact h.blockIn (.mutexQueue m) .mutexBlocked hl hfree hst hm

theorem mutexBlock_spec (h : KernelInv cfg k.sched W M) (hl : k.sched.Live me)
    (hfree : Free W me) (c : Cont) :
    KernelInv cfg (mutexBlock cfg k m me c).sched (update W (.mutexQueue m)
          (insertPrio k.sched.priority me (W (.mutexQueue m))))
        (update M (.mutexQueue m) False) ∧
      SchedChange k.sched (mutexBlock cfg k m me c).sched (update k.sched.status me .mutexBlocked)
        (boostedPriority cfg k.sched (k.mutex m) me) := by
  obtain ⟨hinv, hchg⟩ := mutexEnqueue_spec (m := m) h hl hfree
  obtain ⟨hinv', hchg'⟩ := hinv.boost (k.mutex m) ((hchg.same.live me).mpr hl)
  refine ⟨hinv', hchg.same.trans hchg'.same, hchg'.status.trans hchg.status, ?_⟩
  refine hchg'.priority.trans ?_
  unfold boostedPriority recordedOwner
  rw [hchg.same.threadGet, hchg.priority]

theorem mutexTake_spec (h : KernelInv cfg k.sched W M) (me : Fin n)
    (hnull : k.sched.next (waitHead (.mutexQueue m)) = .null) :
    KernelInv cfg (mutexTake cfg k m me).sched W (update M (.mutexQueue m) True) ∧
      SchedChange k.sched (mutexTake cfg k m me).sched k.sched.status k.sched.priority := by
  obtain ⟨hnil, _⟩ := (h.waiting.next_null _).mp hnull
  have hW := h.waiting.setEmpty hnil (.inr rfl)
  rw [eq_self] at hW
  exact ⟨h.of_sameTable (next_sameTable _ _) hW (h.unmarked_update True), next_sameTable _ _, rfl, rfl⟩

theorem mutexRelease_spec (h : KernelInv cfg s W M) (hmark : s.next (waitHead (.mutexQueue m)) = .mark) :
    KernelInv cfg { s with next := update s.next (waitHead (.mutexQueue m)) .null } W
        (update M (.mutexQueue m) False) ∧
      SchedChange s { s with next := update s.next (waitHead (.mutexQueue m)) .null }
        s.status s.priority := by
  have hm := (h.waiting.next_mark _).mp hmark
  have hW := h.waiting.setEmpty (h.waiting.marked_nil hm) (l := .null) (.inl rfl)
  rw [show (Link.null = (Link.mark : Link (Fin n))) = False by simp] at hW
  exact ⟨h.of_sameTable (next_sameTable _ _) hW (h.unmarked_update False), next_sameTable _ _, rfl, rfl⟩

theorem KernelInv.markIfNull (h : KernelInv cfg s W M) (ts : List (Fin n))
    (hts : W (.mutexQueue m) = ts) (hnm : ¬ M (.mutexQueue m)) :
    KernelInv cfg
        (if s.next (waitHead (.mutexQueue m)) = .null then
          { s with next := update s.next (waitHead (.mutexQueue m)) .mark }
        else s) W (update M (.mutexQueue m) (ts = [])) ∧
      SchedChange s
        (if s.next (waitHead (.mutexQueue m)) = .null then
          { s with next := update s.next (waitHead (.mutexQueue m)) .mark }
        else s) s.status s.priority := by
  by_cases hnil : ts = []
  · have hnull : s.next (waitHead (.mutexQueue m)) = .null :=
      (h.waiting.next_null _).mpr ⟨hts.trans hnil, hnm⟩
    rw [if_pos hnull]
    have hW := h.waiting.setEmpty (hts.trans hnil) (l := .mark) (.inr rfl)
    exact ⟨h.of_sameTable (next_sameTable _ _) (by simpa [hnil] using hW) (h.unmarked_update _),
      next_sameTable _ _, rfl, rfl⟩
  · have hnull : s.next (waitHead (.mutexQueue m)) ≠ .null := by
      rw [Ne, h.waiting.next_null, hts]
      exact fun h' => hnil h'.1
    rw [if_neg hnull, show (ts = []) = False by simpa using hnil, update_unmarked hnm]
    exact ⟨h, .refl s, rfl, rfl⟩

theorem mutexHandOver_spec (h : KernelInv cfg s W M) {ts : List (Fin n)} (hw : W (.mutexQueue m) = t :: ts) :
    KernelInv cfg (mutexHandOver cfg s m t) (update W (.mutexQueue m) ts)
        (update M (.mutexQueue m) (ts = [])) ∧
      StatusSet s (mutexHandOver cfg s m t) t .pending := by
  obtain ⟨hinv, hset⟩ := h.wakeFirst hw
  have hnm : ¬ M (.mutexQueue m) := h.waiting.not_marked (t := t) (by rw [hw]; simp)
  obtain ⟨hinv', hchg⟩ := hinv.markIfNull ts (by rw [update_self]) hnm
  exact ⟨hinv', hset.same.trans hchg.same, hchg.status.trans hset.status, hchg.priority.trans hset.priority⟩

/-! ## Moves -/

/-- What the functions need to keep the lists: a saved priority that may be
written back is one. -/
structure MutexInv (cfg : Cfg) (k : Kernel n) (W : WaitList n → List (Fin n))
    (M : WaitList n → Prop) : Prop where
  inv : KernelInv cfg k.sched W M
  original : ∀ m t, threadGet cfg k.sched (k.mutex m).owner = some t →
    (k.mutex m).ownerOriginalPriority < cfg.schedPrioLevels

/-- The moves of the mutex code. `W` says who waits where, `M` which queues are
marked; `restores` whether a hand-over puts the recorded owner's priority back. -/
inductive MutexMove (cfg : Cfg) (k : Kernel n) (W : WaitList n → List (Fin n))
    (M : WaitList n → Prop) (restores : Bool) :
    MutexOut n → Kernel n → (WaitList n → List (Fin n)) → (WaitList n → Prop) → Prop where
  | nothing {k' : Kernel n} (hp : k'.sched.priority = k.sched.priority)
      (hx : k'.mutex = k.mutex) : MutexMove cfg k W M restores .nothing k' W M
  | refused {k' : Kernel n} {m : Nat} {me : Fin n} {ret : MutexRet}
      (hp : k'.sched.priority = k.sched.priority) (hx : k'.mutex = k.mutex) :
      MutexMove cfg k W M restores (.refused m me ret) k' W M
  | woken {k' : Kernel n} {m : Nat} {me : Fin n} {ret : MutexRet}
      (hp : k'.sched.priority = k.sched.priority) (hx : k'.mutex = k.mutex) :
      MutexMove cfg k W M restores (.woken m me ret) k' W M
  | blocked {k' : Kernel n} {m : Nat} {me : Fin n}
      (hlocked : ¬ (W (.mutexQueue m) = [] ∧ ¬ M (.mutexQueue m)))
      (hp : k'.sched.priority = boostedPriority cfg k.sched (k.mutex m) me)
      (hx : k'.mutex = k.mutex) :
      MutexMove cfg k W M restores (.blocked m me) k'
        (update W (.mutexQueue m)
          (insertPrio k.sched.priority me (W (.mutexQueue m))))
        (update M (.mutexQueue m) False)
  | locked {k' : Kernel n} {m : Nat} {me : Fin n} {ret : MutexRet}
      (hfree : W (.mutexQueue m) = [] ∧ ¬ M (.mutexQueue m))
      (hlevel : k.sched.priority me < cfg.schedPrioLevels)
      (hp : k'.sched.priority = k.sched.priority)
      (hx : k'.mutex =
        if cfg.priorityInheritance then
          update k.mutex m ⟨k.sched.pid me, k.sched.priority me⟩
        else
          k.mutex) :
      MutexMove cfg k W M restores (.locked m me ret) k' W
        (update M (.mutexQueue m) True)
  | released {k' : Kernel n} {m : Nat} (hw : W (.mutexQueue m) = []) (hm : M (.mutexQueue m))
      (hp : k'.sched.priority = k.sched.priority) (hx : k'.mutex = k.mutex) :
      MutexMove cfg k W M restores (.released m) k' W (update M (.mutexQueue m) False)
  | handed {k' : Kernel n} {m : Nat} {t : Fin n} {ts : List (Fin n)}
      (hw : W (.mutexQueue m) = t :: ts)
      (hp : k'.sched.priority = passedPriority cfg k.sched (k.mutex m) restores)
      (hx : k'.mutex = k.mutex) :
      MutexMove cfg k W M restores (.handed m t) k' (update W (.mutexQueue m) ts)
        (update M (.mutexQueue m) (ts = []))
  | dequeued {k' : Kernel n} {m : Nat} {t : Fin n} (ht : t ∈ W (.mutexQueue m))
      (hp : k'.sched.priority = k.sched.priority) (hx : k'.mutex = k.mutex) :
      MutexMove cfg k W M restores (.dequeued m t) k'
        (update W (.mutexQueue m) ((W (.mutexQueue m)).erase t))
        (update M (.mutexQueue m) ((W (.mutexQueue m)).erase t = []))

/-- The state after a section: the lists are as they should be, and the section
was one of the moves. -/
def Moves (cfg : Cfg) (k : Kernel n) (W : WaitList n → List (Fin n)) (M : WaitList n → Prop)
    (restores : Bool) (r : Kernel n × MutexOut n) : Prop :=
  ∃ W' M', KernelInv cfg r.1.sched W' M' ∧ k.sched.SameTable r.1.sched ∧
    MutexMove cfg k W M restores r.2 r.1 W' M'

variable {b : Bool}

theorem KernelInv.unlocked_iff (h : KernelInv cfg k.sched W M) :
    k.sched.next (waitHead (.mutexQueue m)) = .null ↔
      W (.mutexQueue m) = [] ∧ ¬ M (.mutexQueue m) := h.waiting.next_null _

theorem mutexTake_moves (h : KernelInv cfg k.sched W M) (ret : MutexRet)
    (hl : k.sched.Live me) (hnull : k.sched.next (waitHead (.mutexQueue m)) = .null) :
    Moves cfg k W M b (mutexTake cfg k m me, .locked m me ret) := by
  obtain ⟨hinv, hchg⟩ := mutexTake_spec h me hnull
  exact ⟨_, _, hinv, hchg.same, .locked (h.unlocked_iff.mp hnull) (h.waiting.prio hl) hchg.priority rfl⟩

theorem mutexBlock_moves (h : KernelInv cfg k.sched W M) (c : Cont) (hl : k.sched.Live me)
    (hfree : Free W me) (hnull : k.sched.next (waitHead (.mutexQueue m)) ≠ .null) :
    Moves cfg k W M b (mutexBlock cfg k m me c, .blocked m me) := by
  obtain ⟨hinv, hchg⟩ := mutexBlock_spec (m := m) h hl hfree c
  exact ⟨_, _, hinv, hchg.same,
    .blocked (fun hf => hnull (h.unlocked_iff.mpr hf)) hchg.priority rfl⟩

theorem mutexLockInternal_moves (h : KernelInv cfg k.sched W M) (block : Bool)
    (hl : k.sched.Live me) (hfree : Free W me) :
    Moves cfg k W M b (mutexLockInternal cfg k m me block) := by
  unfold mutexLockInternal
  by_cases hnull : k.sched.next (waitHead (.mutexQueue m)) = .null
  · rw [if_pos hnull]
    exact mutexTake_moves h _ hl hnull
  · rw [if_neg hnull]
    cases block with
    | false => exact ⟨W, M, h, .refl _, .refused rfl rfl⟩
    | true => exact mutexBlock_moves h _ hl hfree hnull

theorem mutexLockCancelable_moves (h : KernelInv cfg k.sched W M) (mc : Nat) (c : MutexCancel n)
    (hl : k.sched.Live me) (hfree : Free W me) :
    Moves cfg k W M b (mutexLockCancelable cfg k mc c me) := by
  unfold mutexLockCancelable
  split
  · exact ⟨W, M, h, .refl _, .refused rfl rfl⟩
  · by_cases hnull : k.sched.next (waitHead (.mutexQueue c.mutex)) = .null
    · rw [if_pos hnull]
      exact mutexTake_moves h _ hl hnull
    · rw [if_neg hnull]
      exact mutexBlock_moves h _ hl hfree hnull

theorem mutexUnlock_moves (h : MutexInv cfg k W M) (m : Nat) :
    Moves cfg k W M true (mutexUnlock cfg k m) := by
  unfold mutexUnlock
  cases hn : k.sched.next (waitHead (.mutexQueue m)) with
  | null => exact ⟨W, M, h.inv, .refl _, .nothing rfl rfl⟩
  | mark =>
    obtain ⟨hinv, hchg⟩ := mutexRelease_spec h.inv hn
    have hm := (h.inv.waiting.next_mark _).mp hn
    exact ⟨_, _, hinv, hchg.same, .released (h.inv.waiting.marked_nil hm) hm hchg.priority rfl⟩
  | ref t =>
    obtain ⟨ts, hw⟩ := h.inv.waiting.next_ref hn
    obtain ⟨hinv, hset⟩ := mutexHandOver_spec h.inv hw
    have horig : ∀ u, threadGet cfg (mutexHandOver cfg k.sched m t) (k.mutex m).owner = some u →
        (k.mutex m).ownerOriginalPriority < cfg.schedPrioLevels := by
      intro u hu
      rw [hset.same.threadGet] at hu
      exact h.original m u hu
    obtain ⟨hinv', hchg⟩ := hinv.restore horig
    refine ⟨_, _, hinv', hset.same.trans hchg.same, .handed hw ?_ rfl⟩
    refine hchg.priority.trans ?_
    unfold passedPriority restoredOwner recordedOwner
    rw [hset.same.threadGet, hset.priority]

theorem mutexUnlockAndSleep_moves (h : KernelInv cfg k.sched W M) (m : Nat)
    (hl : k.sched.Live me) (hfree : Free W me) :
    Moves cfg k W M false (mutexUnlockAndSleep cfg k m me) := by
  unfold mutexUnlockAndSleep
  cases hn : k.sched.next (waitHead (.mutexQueue m)) with
  | null =>
    obtain ⟨hinv, hset⟩ := h.setStatus .sleeping hl hfree
    exact ⟨W, M, hinv, hset.same, .nothing hset.priority rfl⟩
  | mark =>
    obtain ⟨hinv, hchg⟩ := mutexRelease_spec h hn
    obtain ⟨hinv', hset⟩ := hinv.setStatus .sleeping ((hchg.same.live me).mpr hl) hfree
    have hm := (h.waiting.next_mark _).mp hn
    exact ⟨_, _, hinv', hchg.same.trans hset.same, .released (h.waiting.marked_nil hm) hm
      (hset.priority.trans hchg.priority) rfl⟩
  | ref t =>
    obtain ⟨ts, hw⟩ := h.waiting.next_ref hn
    obtain ⟨hinv, hset⟩ := mutexHandOver_spec h hw
    have hfree' : Free (update W (.mutexQueue m) ts) me := fun w hu => hfree w (mem_update_tail hw hu)
    obtain ⟨hinv', hset'⟩ := hinv.setStatus .sleeping ((hset.same.live me).mpr hl) hfree'
    refine ⟨_, _, hinv', hset.same.trans hset'.same, .handed hw ?_ rfl⟩
    exact hset'.priority.trans hset.priority

/-- `mutex_cancel` takes the thread out of the queue if it is there, and does
nothing to the lists otherwise. -/
theorem mutexCancel_moves (h : KernelInv cfg k.sched W M) (mc : Nat) (c : MutexCancel n) :
    Moves cfg k W M b (mutexCancel cfg k mc c) ∧ ((mutexCancel cfg k mc c).2 = .dequeued c.mutex c.thread ∨
        (mutexCancel cfg k mc c).2 = .nothing ∧ c.thread ∉ W (.mutexQueue c.mutex)) := by
  have hstay : ∀ k' : Kernel n, k'.sched = k.sched → k'.mutex = k.mutex →
      Moves cfg k W M b (k', .nothing) := by
    intro k' hs hx
    refine ⟨W, M, ?_, ?_, .nothing ?_ hx⟩
    · rwa [hs]
    · rw [hs]
      exact .refl _
    · rw [hs]
  unfold mutexCancel
  by_cases hact : threadIsActive k.sched c.thread = true
  · rw [if_pos hact]
    exact ⟨hstay _ rfl rfl, .inr ⟨rfl, h.waiting.free hact _⟩⟩
  · rw [if_neg hact]
    cases hn : k.sched.next (waitHead (.mutexQueue c.mutex)) with
    | null =>
      refine ⟨hstay _ rfl rfl, .inr ⟨rfl, ?_⟩⟩
      rw [(h.unlocked_iff.mp hn).1]
      simp
    | mark =>
      refine ⟨hstay _ rfl rfl, .inr ⟨rfl, ?_⟩⟩
      rw [h.waiting.marked_nil ((h.waiting.next_mark _).mp hn)]
      simp
    | ref t =>
      have hnm : ¬ M (.mutexQueue c.mutex) := by
        rw [← h.waiting.next_mark, hn]
        simp
      by_cases ht : c.thread ∈ W (.mutexQueue c.mutex)
      · obtain ⟨hfound, hW, hfree⟩ := h.waiting.remove ht
        have hl : k.sched.Live c.thread := (h.waiting.status ht).1
        obtain ⟨hinv, hchg⟩ := (h.of_sameTable (next_sameTable _ _) hW h.unmarked).markIfNull
          (m := c.mutex) _ (by rw [update_self]) hnm
        have hl' := (hchg.same.live c.thread).mpr hl
        obtain ⟨hinv', hset⟩ := hinv.setStatus .pending hl' hfree
        dsimp only
        rw [if_pos hfound]
        exact ⟨⟨_, _, hinv', (next_sameTable k.sched _).trans (hchg.same.trans hset.same),
          .dequeued ht (hset.priority.trans hchg.priority) rfl⟩, .inl rfl⟩
      · rw [h.waiting.remove_missing ht hnm]
        exact ⟨hstay _ rfl rfl, .inr ⟨rfl, ht⟩⟩

theorem threadWakeup_moves (h : KernelInv cfg k.sched W M) (pid : Nat) :
    Moves cfg k W M b ({ k with sched := (threadWakeup cfg k.sched pid).1 }, .nothing) := by
  unfold threadWakeup
  cases ht : threadGet cfg k.sched pid with
  | none => exact ⟨W, M, h, .refl _, .nothing rfl rfl⟩
  | some t =>
    dsimp only
    split
    · rename_i hsleep
      have hfree : Free W t := by
        intro w hw
        have := (h.waiting.status hw).2
        rw [hsleep] at this
        cases w <;> exact absurd this (by simp [ThreadStatus.waitsIn])
      obtain ⟨hinv, hset⟩ := h.setStatus .pending (threadGet_live h ht).1 hfree
      exact ⟨W, M, hinv, hset.same, .nothing hset.priority rfl⟩
    · exact ⟨W, M, h, .refl _, .nothing rfl rfl⟩

/-! ## What a step can do -/

/-- `mutex_unlock_and_sleep` does not look at the recorded owner. -/
def MutexEvent.restores : MutexEvent n → Bool
  | .call _ (.unlockAndSleep _) => false
  | _ => true

/-- How unlocking a mutex may end. -/
def UnlockOut (W : WaitList n → List (Fin n)) (M : WaitList n → Prop) (m : Nat)
    (out : MutexOut n) : Prop :=
  out = .nothing ∧ (W (.mutexQueue m) = [] ∧ ¬ M (.mutexQueue m)) ∨ out = .released m ∨
    ∃ t, out = .handed m t

/-- How outcomes and events belong together, and what becomes of the threads'
places in the code and of the cancellation structures. -/
def MutexEvent.Yields (k : Kernel n) (W : WaitList n → List (Fin n)) (M : WaitList n → Prop)
    (k' : Kernel n) : MutexEvent n → MutexOut n → Prop
  | .call me (.lock m), out =>
    Free W me ∧ k.cont me = .idle ∧ k'.mutexCancel = k.mutexCancel ∧
      (out = .locked m me (.bool true) ∧ k'.cont = k.cont ∨
        out = .blocked m me ∧ k'.cont = update k.cont me (.mutexLock m))
  | .call me (.trylock m), out =>
    k.cont me = .idle ∧ k'.mutexCancel = k.mutexCancel ∧ k'.cont = k.cont ∧
      (out = .locked m me (.bool true) ∨ out = .refused m me (.bool false))
  | .call me (.cancelInit mc m), out =>
    k.cont me = .idle ∧ out = .nothing ∧ k'.cont = k.cont ∧
      k'.mutexCancel = update k.mutexCancel mc (some ⟨m, me, false⟩)
  | .call me (.lockCancelable mc), out =>
    Free W me ∧ k.cont me = .idle ∧ k'.mutexCancel = k.mutexCancel ∧
      ∃ c, k.mutexCancel mc = some c ∧
        (c.cancelled = true ∧ out = .refused c.mutex me (.int negEcanceled) ∧ k'.cont = k.cont ∨
          c.cancelled = false ∧
            (out = .locked c.mutex me (.int 0) ∧ k'.cont = k.cont ∨
              out = .blocked c.mutex me ∧
                k'.cont = update k.cont me (.mutexLockCancelable mc)))
  | .call _ (.unlock m), out =>
    k'.mutexCancel = k.mutexCancel ∧ k'.cont = k.cont ∧ UnlockOut W M m out
  | .call me (.unlockAndSleep m), out =>
    k.cont me = .idle ∧ k'.mutexCancel = k.mutexCancel ∧
      k'.cont = update k.cont me .sleep ∧ UnlockOut W M m out
  | .call _ (.cancel mc), out =>
    k'.cont = k.cont ∧ ∃ c, k.mutexCancel mc = some c ∧
      k'.mutexCancel = update k.mutexCancel mc (some { c with cancelled := true }) ∧
      (out = .dequeued c.mutex c.thread ∨ out = .nothing ∧ c.thread ∉ W (.mutexQueue c.mutex))
  | .resume me, out =>
    Free W me ∧ k'.mutexCancel = k.mutexCancel ∧ k'.cont = update k.cont me .idle ∧
      ((∃ m, k.cont me = .mutexLock m ∧ out = .woken m me (.bool true)) ∨
        (∃ mc c, k.cont me = .mutexLockCancelable mc ∧ k.mutexCancel mc = some c ∧
          out = .woken c.mutex me (.int (if c.cancelled then negEcanceled else 0))) ∨
        k.cont me = .sleep ∧ out = .nothing)
  | .isrUnlock m, out => k'.mutexCancel = k.mutexCancel ∧ k'.cont = k.cont ∧ UnlockOut W M m out
  | .isrCancel mc, out =>
    k'.cont = k.cont ∧ ∃ c, k.mutexCancel mc = some c ∧
      k'.mutexCancel = update k.mutexCancel mc (some { c with cancelled := true }) ∧
      (out = .dequeued c.mutex c.thread ∨ out = .nothing ∧ c.thread ∉ W (.mutexQueue c.mutex))
  | .wakeup _, out => out = .nothing ∧ k'.mutexCancel = k.mutexCancel ∧ k'.cont = k.cont

theorem mutexUnlock_out (h : KernelInv cfg k.sched W M) (m : Nat) :
    UnlockOut W M m (mutexUnlock cfg k m).2 := by
  unfold mutexUnlock
  split
  · rename_i hn
    exact .inl ⟨rfl, h.unlocked_iff.mp hn⟩
  · exact .inr (.inl rfl)
  · exact .inr (.inr ⟨_, rfl⟩)

theorem mutexUnlockAndSleep_out (h : KernelInv cfg k.sched W M) (m : Nat) (me : Fin n) :
    UnlockOut W M m (mutexUnlockAndSleep cfg k m me).2 := by
  unfold mutexUnlockAndSleep
  split
  · rename_i hn
    exact .inl ⟨rfl, h.unlocked_iff.mp hn⟩
  · exact .inr (.inl rfl)
  · exact .inr (.inr ⟨_, rfl⟩)

theorem mutexCancel_cont (cfg : Cfg) (k : Kernel n) (mc : Nat) (c : MutexCancel n) :
    (mutexCancel cfg k mc c).1.cont = k.cont := by
  unfold mutexCancel
  dsimp only
  split
  · rfl
  · split
    · split <;> rfl
    · rfl

theorem mutexCancel_mutexCancel (cfg : Cfg) (k : Kernel n) (mc : Nat) (c : MutexCancel n) :
    (mutexCancel cfg k mc c).1.mutexCancel = update k.mutexCancel mc (some { c with cancelled := true }) := by
  unfold mutexCancel
  dsimp only
  split
  · rfl
  · split
    · split <;> rfl
    · rfl

theorem mutexCall_moves {c : MutexCall} {r : Kernel n × MutexOut n} (h : MutexInv cfg k W M)
    (hl : k.sched.Live me) (hfree : Free W me) (hidle : k.cont me = .idle)
    (hs : mutexCall cfg k me c = some r) :
    Moves cfg k W M (MutexEvent.call me c).restores r ∧ (MutexEvent.call me c).Yields k W M r.1 r.2 := by
  unfold mutexCall at hs
  cases c with
  | lock m =>
    simp only [some.injEq] at hs
    subst hs
    refine ⟨mutexLockInternal_moves h.inv true hl hfree, hfree, hidle, ?_⟩
    unfold mutexLockInternal
    split
    · exact ⟨rfl, .inl ⟨rfl, rfl⟩⟩
    · exact ⟨rfl, .inr ⟨rfl, rfl⟩⟩
  | trylock m =>
    simp only [some.injEq] at hs
    subst hs
    refine ⟨mutexLockInternal_moves h.inv false hl hfree, ?_⟩
    unfold mutexLockInternal
    split
    · exact ⟨hidle, rfl, rfl, .inl rfl⟩
    · exact ⟨hidle, rfl, rfl, .inr rfl⟩
  | cancelInit mc m =>
    simp only [some.injEq] at hs
    subst hs
    exact ⟨⟨W, M, h.inv, .refl _, .nothing rfl rfl⟩, hidle, rfl, rfl, rfl⟩
  | lockCancelable mc =>
    obtain ⟨x, hx, rfl⟩ := map_eq_some_iff.mp hs
    refine ⟨mutexLockCancelable_moves h.inv mc x hl hfree, hfree, hidle, ?_⟩
    unfold mutexLockCancelable
    split
    · rename_i hc
      exact ⟨rfl, x, hx, .inl ⟨hc, rfl, rfl⟩⟩
    · rename_i hc
      have hc : x.cancelled = false := by simpa using hc
      split
      · exact ⟨rfl, x, hx, .inr ⟨hc, .inl ⟨rfl, rfl⟩⟩⟩
      · exact ⟨rfl, x, hx, .inr ⟨hc, .inr ⟨rfl, rfl⟩⟩⟩
  | unlock m =>
    simp only [some.injEq] at hs
    subst hs
    refine ⟨mutexUnlock_moves h m, ?_, ?_, mutexUnlock_out h.inv m⟩
    all_goals unfold mutexUnlock; split <;> rfl
  | unlockAndSleep m =>
    simp only [some.injEq] at hs
    subst hs
    exact ⟨mutexUnlockAndSleep_moves h.inv m hl hfree, hidle, rfl, rfl, mutexUnlockAndSleep_out h.inv m me⟩
  | cancel mc =>
    obtain ⟨x, hx, rfl⟩ := map_eq_some_iff.mp hs
    obtain ⟨hmoves, hout⟩ := mutexCancel_moves (b := true) h.inv mc x
    exact ⟨hmoves, mutexCancel_cont cfg k mc x, x, hx, mutexCancel_mutexCancel cfg k mc x, hout⟩

/-- Dispatching a thread before its section changes none of what a move is about. -/
theorem MutexMove.of_dispatch {k0 : Kernel n} {W' : WaitList n → List (Fin n)}
    {M' : WaitList n → Prop} (hd : Dispatched k.sched k0.sched W me)
    (hk : k0 = { k with sched := k0.sched }) (hm : MutexMove cfg k0 W M b out k' W' M') :
    MutexMove cfg k W M b out k' W' M' := by
  have hmutex : k0.mutex = k.mutex := by rw [hk]
  have hget : ∀ pid, threadGet cfg k0.sched pid = threadGet cfg k.sched pid := by
    intro pid
    unfold threadGet
    rw [hd.schedThreads]
  have hp := hd.priority
  cases hm with
  | nothing hp' hx => exact .nothing (hp'.trans hp) (hx.trans hmutex)
  | refused hp' hx => exact .refused (hp'.trans hp) (hx.trans hmutex)
  | woken hp' hx => exact .woken (hp'.trans hp) (hx.trans hmutex)
  | blocked hlocked hp' hx =>
    rw [hp]
    refine .blocked hlocked (hp'.trans ?_) (hx.trans hmutex)
    unfold boostedPriority recordedOwner
    rw [hget, hmutex, hp]
  | locked hfree hlevel hp' hx =>
    refine .locked hfree (hp ▸ hlevel) (hp'.trans hp) (hx.trans ?_)
    rw [hmutex, hp, hd.pid]
  | released hw hm hp' hx => exact .released hw hm (hp'.trans hp) (hx.trans hmutex)
  | handed hw hp' hx =>
    refine .handed hw (hp'.trans ?_) (hx.trans hmutex)
    unfold passedPriority restoredOwner recordedOwner
    rw [hget, hmutex, hp]
  | dequeued ht hp' hx => exact .dequeued ht (hp'.trans hp) (hx.trans hmutex)

theorem MutexMove.original {W' : WaitList n → List (Fin n)}
    {M' : WaitList n → Prop} (hm : MutexMove cfg k W M b out k' W' M')
    (hget : ∀ pid, threadGet cfg k'.sched pid = threadGet cfg k.sched pid)
    (h : ∀ m t, threadGet cfg k.sched (k.mutex m).owner = some t →
      (k.mutex m).ownerOriginalPriority < cfg.schedPrioLevels) :
    ∀ m t, threadGet cfg k'.sched (k'.mutex m).owner = some t →
      (k'.mutex m).ownerOriginalPriority < cfg.schedPrioLevels := by
  have hsame : k'.mutex = k.mutex → ∀ m t, threadGet cfg k'.sched (k'.mutex m).owner = some t →
      (k'.mutex m).ownerOriginalPriority < cfg.schedPrioLevels := by
    intro hx m t ht
    rw [hx, hget] at ht
    rw [hx]
    exact h m t ht
  cases hm with
  | nothing _ hx => exact hsame hx
  | refused _ hx => exact hsame hx
  | woken _ hx => exact hsame hx
  | blocked _ _ hx => exact hsame hx
  | released _ _ _ hx => exact hsame hx
  | handed _ _ hx => exact hsame hx
  | dequeued _ _ hx => exact hsame hx
  | @locked _ m me ret _ hlevel _ hx =>
    split at hx
    · intro m' t ht
      rw [hx] at ht ⊢
      by_cases hmm : m' = m
      · rw [hmm, update_self]
        exact hlevel
      · rw [update_of_ne hmm] at ht ⊢
        exact h m' t (by rwa [hget] at ht)
    · exact hsame hx

/-- A step of the mutexes: the lists stay well linked, and the section was one
of the moves. -/
structure MutexStepped (cfg : Cfg) (k k' : Kernel n) (W W' : WaitList n → List (Fin n))
    (M M' : WaitList n → Prop) (e : MutexEvent n) (out : MutexOut n) : Prop where
  inv : MutexInv cfg k' W' M'
  move : MutexMove cfg k W M e.restores out k' W' M'
  yields : e.Yields k W M k' out
  get : ∀ pid, threadGet cfg k'.sched pid = threadGet cfg k.sched pid
  pid : k'.sched.pid = k.sched.pid

theorem Moves.stepped {e : MutexEvent n} {r : Kernel n × MutexOut n} (h : MutexInv cfg k W M)
    (hm : Moves cfg k W M e.restores r) (hy : e.Yields k W M r.1 r.2) :
    ∃ W' M', MutexStepped cfg k r.1 W W' M M' e r.2 := by
  obtain ⟨W', M', hinv, hsame, hmove⟩ := hm
  have hget : ∀ pid, threadGet cfg r.1.sched pid = threadGet cfg k.sched pid := fun pid => hsame.threadGet pid
  exact ⟨W', M', ⟨hinv, hmove.original hget h.original⟩, hmove, hy, hget, hsame.pid⟩

theorem MutexInv.dispatch (h : MutexInv cfg k W M) (hd : dispatch k me = some k') :
    MutexInv cfg k' W M ∧ Dispatched k.sched k'.sched W me ∧ k' = { k with sched := k'.sched } ∧
      ∀ pid, threadGet cfg k'.sched pid = threadGet cfg k.sched pid := by
  obtain ⟨hinv, hdis, hk'⟩ := h.inv.dispatch hd
  have hmutex : k'.mutex = k.mutex := by rw [hk']
  have hget : ∀ pid, threadGet cfg k'.sched pid = threadGet cfg k.sched pid := by
    intro pid
    unfold threadGet
    rw [hdis.schedThreads]
  refine ⟨⟨hinv, fun m t ht => ?_⟩, hdis, hk', hget⟩
  rw [hmutex, hget] at ht
  rw [hmutex]
  exact h.original m t ht

/-- **Every step is one of the moves.** -/
theorem mutexStep_moves {e : MutexEvent n}
    (h : MutexInv cfg k W M) (hs : mutexStep cfg k e = some (k', out)) :
    ∃ W' M', MutexStepped cfg k k' W W' M M' e out := by
  -- a thread is dispatched before its section
  have hthread : ∀ (me : Fin n) (f : Kernel n → Option (Kernel n × MutexOut n)),
      (dispatch k me).bind f = some (k', out) →
      (∀ k0, MutexInv cfg k0 W M → Dispatched k.sched k0.sched W me →
        k0 = { k with sched := k0.sched } → f k0 = some (k', out) →
        Moves cfg k0 W M e.restores (k', out) ∧ e.Yields k W M k' out) →
      ∃ W' M', MutexStepped cfg k k' W W' M M' e out := by
    intro me f hf hsec
    obtain ⟨k0, hd, hf⟩ := bind_eq_some_iff.mp hf
    obtain ⟨h0, hdis, hk0, hget⟩ := h.dispatch hd
    obtain ⟨⟨W', M', hinv', hsame, hmove⟩, hy⟩ := hsec k0 h0 hdis hk0 hf
    have hmove := hmove.of_dispatch hdis hk0
    have hget' : ∀ pid, threadGet cfg k'.sched pid = threadGet cfg k.sched pid :=
      fun pid => (hsame.threadGet pid).trans (hget pid)
    exact ⟨W', M', ⟨hinv', hmove.original hget' h.original⟩, hmove, hy, hget', hsame.pid.trans hdis.pid⟩
  cases e with
  | call me c =>
    refine hthread me _ hs fun k0 h0 hdis hk0 hf => ?_
    simp only [ite_none_right_eq_some] at hf
    obtain ⟨hidle, hf⟩ := hf
    obtain ⟨hmoves, hy⟩ := mutexCall_moves h0 hdis.live hdis.free hidle hf
    refine ⟨hmoves, ?_⟩
    rw [hk0] at hy
    exact hy
  | resume me =>
    refine hthread me _ hs fun k0 h0 hdis hk0 hf => ?_
    have hcont : k0.cont = k.cont := by rw [hk0]
    have hcancel : k0.mutexCancel = k.mutexCancel := by rw [hk0]
    unfold mutexResume at hf
    split at hf
    · rename_i m hc
      obtain ⟨rfl, rfl⟩ := hf
      exact ⟨⟨W, M, h0.inv, .refl _, .woken rfl rfl⟩, hdis.free, hcancel,
        by dsimp only; rw [hcont], .inl ⟨m, hcont ▸ hc, rfl⟩⟩
    · rename_i mc hc
      obtain ⟨c, hmc, hf⟩ := map_eq_some_iff.mp hf
      obtain ⟨rfl, rfl⟩ := hf
      exact ⟨⟨W, M, h0.inv, .refl _, .woken rfl rfl⟩, hdis.free, hcancel,
        by dsimp only; rw [hcont], .inr (.inl ⟨mc, c, hcont ▸ hc, hcancel ▸ hmc, rfl⟩)⟩
    · rename_i hc
      obtain ⟨rfl, rfl⟩ := hf
      exact ⟨⟨W, M, h0.inv, .refl _, .nothing rfl rfl⟩, hdis.free, hcancel,
        by dsimp only; rw [hcont], .inr (.inr ⟨hcont ▸ hc, rfl⟩)⟩
    · exact absurd hf (by simp)
  | isrUnlock m =>
    simp only [mutexStep, some.injEq] at hs
    have hy : (MutexEvent.isrUnlock m).Yields k W M (mutexUnlock cfg k m).1 (mutexUnlock cfg k m).2 := by
      refine ⟨?_, ?_, mutexUnlock_out h.inv m⟩
      all_goals unfold mutexUnlock; split <;> rfl
    have := Moves.stepped (e := .isrUnlock m) h (mutexUnlock_moves h m) hy
    rwa [hs] at this
  | isrCancel mc =>
    obtain ⟨c, hc, hs⟩ := map_eq_some_iff.mp hs
    obtain ⟨hmoves, hout⟩ := mutexCancel_moves (b := true) h.inv mc c
    have := Moves.stepped (e := .isrCancel mc) h hmoves
      ⟨mutexCancel_cont cfg k mc c, c, hc, mutexCancel_mutexCancel cfg k mc c, hout⟩
    rwa [hs] at this
  | wakeup pid =>
    simp only [mutexStep, some.injEq] at hs
    have := Moves.stepped (e := .wakeup pid) h (threadWakeup_moves h.inv pid) ⟨rfl, rfl, rfl⟩
    rwa [hs] at this

end Riot.Core
