import Riot.Core.Bystander
import Riot.Core.Cond
import Riot.Core.MutexHist

/-!
# The kernel as a whole

Mutexes, condition variables, mailboxes and messages share the threads and the one list node each
thread has. Here their sections interleave freely. What keeps them apart is that a thread waits
nowhere while it runs; a reply is the only operation that makes a thread runnable without looking
at where it is linked.
-/

namespace Riot.Core

open Riot.Lib Function Option

variable {n : Nat}

/-- A section of one of the kernel's objects. -/
inductive KernelEvent (n : Nat) where
  | mutex (e : MutexEvent n)
  | cond (e : CondEvent n)
  | mbox (e : MboxEvent n)
  | msg (e : MsgEvent n)
  deriving DecidableEq

/-- One section; who holds which mutex is recorded beside the state. -/
def kernelStep (cfg : Cfg) (s : Kernel n × List (Nat × Fin n)) :
    KernelEvent n → Option (Kernel n × List (Nat × Fin n))
  | .mutex e => (mutexStep cfg s.1 e).map fun r => (r.1, heldAfter s.2 r.2)
  | .cond e => (condStep cfg s.1 e).map fun r => (r.1, heldAfter s.2 r.2)
  | .mbox e => (mboxStep cfg s.1 e).map fun r => (r.1, s.2)
  | .msg e => (msgStep cfg s.1 e).map fun r => (r.1, s.2)

/-- The thread that `msg_reply` to `m` wakes, if it wakes one. -/
def replied (k : Kernel n) (m : Msg) : Option (Fin n) :=
  (k.sched.schedThreads m.senderPid).filter fun t => k.sched.status t = .replyBlocked

/-- The thread that is replied to is not in a list of senders: its message has been taken. -/
def ReplyInTurn (k : Kernel n) : KernelEvent n → Prop
  | .msg (.call _ (.reply m _)) => ∀ t ∈ replied k m, ∀ u, t ∉ waitersOf k.sched (.msgWaiters u)
  | .msg (.replyInt m _) => ∀ t ∈ replied k m, ∀ u, t ∉ waitersOf k.sched (.msgWaiters u)
  | _ => True

theorem lawfulBEq_fin : LawfulBEq (Fin n) := inferInstance

attribute [local instance] lawfulBEq_fin

instance (k : Kernel n) (e : KernelEvent n) : Decidable (ReplyInTurn k e) := by
  unfold ReplyInTurn
  split <;> infer_instance

/-- The run queues and the wait lists are well formed and have no thread in common; the runnable threads
are in the queues of their priorities, and who waits in a list has a status for such lists. -/
def ExclusivelyLinked (cfg : Cfg) (s : Sched n) : Prop := ∃ L, Linked cfg s L

/-- Initialised objects, and threads that are in none of the functions. -/
structure KernelStart (cfg : Cfg) (k : Kernel n) : Prop extends MutexStart cfg k where
  queues : ∀ t, QueueFresh k t

/-- What every section keeps. -/
structure KernelOk (cfg : Cfg) (k : Kernel n) (held : List (Nat × Fin n)) (W : WaitList n → List (Fin n))
    (M : WaitList n → Prop) : Prop where
  mutex : MutexInv cfg k W M
  held : HeldInv W M held
  queues : ∀ t, QueueOk k t

variable {cfg : Cfg} {k k₀ k' : Kernel n} {held : List (Nat × Fin n)} {W W' : WaitList n → List (Fin n)}
  {M : WaitList n → Prop} {me t : Fin n} {b : Bool}

/-! ## Sections that leave the mutexes alone -/

/-- The mutexes, their queues and the thread table are the same. -/
structure Aside (k k' : Kernel n) (W W' : WaitList n → List (Fin n)) : Prop where
  mutex : k'.mutex = k.mutex
  threads : k'.sched.schedThreads = k.sched.schedThreads
  queues : ∀ m, W' (.mutexQueue m) = W (.mutexQueue m)

theorem KernelOk.aside (h : KernelOk cfg k held W M) (ha : Aside k k' W W') (hinv : KernelInv cfg k'.sched W' M)
    (hq : ∀ t, QueueOk k' t) : KernelOk cfg k' held W' M where
  mutex :=
    { inv := hinv
      original := fun m t ht => by
        unfold threadGet at ht
        rw [ha.mutex, ha.threads] at ht
        rw [ha.mutex]
        exact h.mutex.original m t ht }
  held :=
    { unique := h.held.unique
      locked := fun m => by
        rw [ha.queues m]
        exact h.held.locked m }
  queues := hq

theorem KernelOk.dispatch (h : KernelOk cfg k held W M) (hd : dispatch k me = some k₀) :
    KernelOk cfg k₀ held W M ∧ Dispatched k.sched k₀.sched W me ∧ k₀ = { k with sched := k₀.sched } := by
  obtain ⟨hmutex, hdis, hk0, -⟩ := h.mutex.dispatch hd
  refine ⟨⟨hmutex, h.held, fun t => (h.queues t).congr (by rw [hk0]) (by rw [hk0])⟩, hdis, hk0⟩

theorem MboxMove.aside {out : MboxOut n} (hm : MboxMove k W me out k' W') : Aside k k' W W' := by
  cases hm with
  | failed | delivered | queued => exact ⟨rfl, rfl, fun _ => rfl⟩
  | blockedPut _ hs | blockedGet _ hs | handed _ hs =>
    exact ⟨rfl, hs.same.schedThreads, fun m => update_of_ne (by simp) ..⟩
  | taken _ _ hw =>
    rcases hw with ⟨-, rfl, rfl⟩ | ⟨t, ts, -, hs, rfl⟩
    · exact ⟨rfl, rfl, fun _ => rfl⟩
    · exact ⟨rfl, hs.same.schedThreads, fun m => update_of_ne (by simp) ..⟩

variable {r : Kernel n × MutexOut n} {m : Msg} {out : MsgOut n}

theorem MsgMove.aside {u : Option (Fin n)} {pid : Nat} (hm : MsgMove k W u pid out k' W') :
    Aside k k' W W' := by
  refine ⟨?_, hm.schedThreads, fun m => ?_⟩
  · cases hm <;> rfl
  · cases hm with
    | sending | refilled | copied => exact update_of_ne (by simp) ..
    | _ => rfl

theorem KernelOk.mbox {e : MboxEvent n} {out : MboxOut n} (h : KernelOk cfg k held W M)
    (hs : mboxStep cfg k e = some (k', out)) : ∃ W', KernelOk cfg k' held W' M := by
  obtain ⟨k₀, W', hd, hinv, hmove, -⟩ := mboxStep_move h.mutex.inv hs
  obtain ⟨-, -, -, hqueue, harray⟩ := mboxStep_bystander h.mutex.inv hs
  have h0 := (h.dispatch hd).1
  have henter : Aside k₀ (e.enter k₀) W W := by
    refine ⟨?_, by rw [e.enter_sched], fun _ => rfl⟩
    cases e with
    | call me c => cases c <;> rfl
    | resume me => rfl
  have ha := hmove.aside
  exact ⟨W', h0.aside ⟨ha.mutex.trans henter.mutex, ha.threads.trans henter.threads, ha.queues⟩ hinv
    fun t => (h.queues t).congr (by rw [hqueue]) (by rw [harray])⟩

/-! ## Messages -/

/-- A message move from a state that differs from `k₀` in what the threads pass and in the caller's status only,
and after which the caller's place in the code may be noted. -/
theorem KernelOk.msgMove {k1 k'' : Kernel n} {u : Option (Fin n)} {pid : Nat}
    (h : KernelOk cfg k₀ held W M) (hmove : MsgMove k1 W u pid out k' W') (hinv : KernelInv cfg k'.sched W' M)
    (hstart : Aside k₀ k1 W W) (hq : k1.msgQueue = k₀.msgQueue ∧ k1.msgArray = k₀.msgArray)
    (hend : k'' = k' ∨ ∃ cont, k'' = { k' with cont := cont }) : KernelOk cfg k'' held W' M := by
  have hq' := hmove.queueOk fun t => (h.queues t).congr (by rw [hq.1]) (by rw [hq.2])
  have ha := hmove.aside
  have h' := h.aside ⟨ha.mutex.trans hstart.mutex, ha.threads.trans hstart.threads, ha.queues⟩ hinv hq'
  rcases hend with rfl | ⟨cont, rfl⟩
  · exact h'
  · exact h'.aside ⟨rfl, rfl, fun _ => rfl⟩ h'.mutex.inv h'.queues

/-- Asking is sending in the state `REPLY_BLOCKED`. -/
theorem KernelOk.sendReceive (h : KernelOk cfg k held W M) (hl : k.sched.Live me)
    (hfree : Free W me) (hidle : k.cont me = .idle) (targetPid : Nat) :
    ∃ W', KernelOk cfg (msgSendReceive cfg k targetPid me).1 held W' M := by
  obtain ⟨hinv, hset⟩ := h.mutex.inv.setStatus .replyBlocked hl hfree
  have hl' : (schedSetStatus cfg k.sched me .replyBlocked).Live me := (hset.same.live me).mpr hl
  obtain ⟨W', hinv', hmove⟩ := msgSendBody_moves
    (k := { k with sched := schedSetStatus cfg k.sched me .replyBlocked }) hinv targetPid true hl' hfree hidle
  refine ⟨W', h.msgMove hmove hinv' ⟨rfl, hset.same.schedThreads, fun _ => rfl⟩ ⟨rfl, rfl⟩ ?_⟩
  unfold msgSendReceive
  dsimp only
  split
  · exact .inl rfl
  · exact .inr ⟨_, rfl⟩

theorem mem_replied : t ∈ replied k m ↔
    k.sched.schedThreads m.senderPid = some t ∧ k.sched.status t = .replyBlocked := by
  simp [replied, filter_eq_some_iff]

theorem KernelOk.reply {reply : Msg} (h : KernelOk cfg k held W M)
    (hfree : ∀ t ∈ replied k m, Free W t) (hs : msgReply cfg k m reply = some (k', out)) :
    ∃ W', KernelOk cfg k' held W' M := by
  obtain ⟨t, ht, hs⟩ := map_eq_some_iff.mp hs
  split at hs
  · cases hs
    exact ⟨W, h⟩
  · rename_i hst
    cases hs
    have hrep : t ∈ replied k m := mem_replied.mpr ⟨ht, not_not.mp hst⟩
    obtain ⟨hinv, hset⟩ := h.mutex.inv.setStatus .pending (h.mutex.inv.live_of_slot ht) (hfree t hrep)
    exact ⟨W, h.aside ⟨rfl, hset.same.schedThreads, fun _ => rfl⟩ hinv h.queues⟩

/-- A thread that waits for a reply is in no list if it is in no list of senders. -/
theorem KernelInv.free_of_replied (h : KernelInv cfg k.sched W M) (ht : t ∈ replied k m)
    (hw : ∀ u, t ∉ waitersOf k.sched (.msgWaiters u)) : Free W t := by
  intro w hmem
  have hst := (h.waiting.status hmem).2
  rw [(mem_replied.mp ht).2] at hst
  cases w with
  | msgWaiters u => exact hw u ((h.waiting.waitersOf _).symm ▸ hmem)
  | _ => cases hst

/-- Dispatching does not change who waits for a reply. -/
theorem replied_dispatch (hd : dispatch k me = some k₀) (h : KernelInv cfg k.sched W M) :
    t ∈ replied k₀ m ↔ t ∈ replied k m := by
  obtain ⟨-, hdis, -⟩ := h.dispatch hd
  rw [mem_replied, mem_replied, hdis.schedThreads]
  refine and_congr_right fun _ => ⟨fun hst => ?_, fun hst => ?_⟩
  · have hoff : (k.sched.status t).onRunqueue = false := by
      rw [← hdis.runnable, hst]
      rfl
    exact (hdis.status t hoff).symm.trans hst
  · exact (hdis.status t (by rw [hst]; rfl)).trans hst

theorem KernelOk.msg {e : MsgEvent n} (h : KernelOk cfg k held W M)
    (hturn : ReplyInTurn k (.msg e)) (hs : msgStep cfg k e = some (k', out)) :
    ∃ W', KernelOk cfg k' held W' M := by
  by_cases hway : e.OneWay
  · obtain ⟨k₀, W', hd, hinv, hmove⟩ := msgStep_move h.mutex.inv h.queues hway hs
    have h0 : KernelOk cfg k₀ held W M := by
      unfold MsgEvent.Starts at hd
      split at hd
      · exact (h.dispatch hd).1
      · exact hd.symm ▸ h
    have henter : Aside k₀ (e.enter k₀) W W ∧ (e.enter k₀).msgQueue = k₀.msgQueue ∧
        (e.enter k₀).msgArray = k₀.msgArray := by
      cases e with
      | call me c => cases c <;> exact ⟨⟨rfl, rfl, fun _ => rfl⟩, rfl, rfl⟩
      | _ => exact ⟨⟨rfl, rfl, fun _ => rfl⟩, rfl, rfl⟩
    exact ⟨W', h0.msgMove hmove hinv henter.1 henter.2 (.inl rfl)⟩
  · cases e with
    | call me c =>
      obtain ⟨k₀, hd, hs⟩ := bind_eq_some_iff.mp hs
      obtain ⟨h0, hdis, -⟩ := h.dispatch hd
      simp only [ite_none_right_eq_some] at hs
      obtain ⟨hidle, hs⟩ := hs
      cases c with
      | sendReceive m targetPid =>
        simp only [msgCall, ite_none_left_eq_some, some.injEq] at hs
        have hpass : KernelOk cfg { k₀ with waitData := update k₀.waitData me m } held W M :=
          h0.aside ⟨rfl, rfl, fun _ => rfl⟩ h0.mutex.inv h0.queues
        obtain ⟨W', h'⟩ := hpass.sendReceive hdis.live hdis.free hidle targetPid
        rw [hs.2] at h'
        exact ⟨W', h'⟩
      | reply m reply =>
        refine h0.reply (fun t ht => ?_) hs
        have ht := (replied_dispatch hd h.mutex.inv).mp ht
        exact h.mutex.inv.free_of_replied ht (hturn t ht)
      | _ => exact absurd trivial hway
    | replyInt m reply => exact h.reply (fun t ht => h.mutex.inv.free_of_replied ht (hturn t ht)) hs
    | _ => exact absurd trivial hway

/-! ## Mutexes and condition variables -/

/-- The message queues are the same. -/
def SameQueues (k : Kernel n) (r : Kernel n × MutexOut n) : Prop :=
  r.1.msgQueue = k.msgQueue ∧ r.1.msgArray = k.msgArray

theorem mutexUnlock_queues (m : Nat) : SameQueues k (mutexUnlock cfg k m) := by
  unfold mutexUnlock
  split <;> exact ⟨rfl, rfl⟩

theorem mutexLockInternal_queues (m : Nat) (block : Bool) : SameQueues k (mutexLockInternal cfg k m me block) := by
  unfold mutexLockInternal
  split
  · exact ⟨rfl, rfl⟩
  · split <;> exact ⟨rfl, rfl⟩

theorem mutexCancel_queues (mc : Nat) (c : MutexCancel n) : SameQueues k (mutexCancel cfg k mc c) := by
  unfold mutexCancel
  dsimp only
  split
  · exact ⟨rfl, rfl⟩
  · split
    · split <;> exact ⟨rfl, rfl⟩
    · exact ⟨rfl, rfl⟩

theorem mutexCall_queues {c : MutexCall} (hs : mutexCall cfg k me c = some r) : SameQueues k r := by
  cases c with
  | lock m => exact some.inj hs ▸ mutexLockInternal_queues m true
  | trylock m => exact some.inj hs ▸ mutexLockInternal_queues m false
  | cancelInit mc m => exact some.inj hs ▸ ⟨rfl, rfl⟩
  | lockCancelable mc =>
    obtain ⟨c, -, rfl⟩ := map_eq_some_iff.mp hs
    unfold mutexLockCancelable
    split
    · exact ⟨rfl, rfl⟩
    · split <;> exact ⟨rfl, rfl⟩
  | unlock m => exact some.inj hs ▸ mutexUnlock_queues m
  | unlockAndSleep m => exact some.inj hs ▸ ⟨rfl, rfl⟩
  | cancel mc =>
    obtain ⟨c, -, rfl⟩ := map_eq_some_iff.mp hs
    exact mutexCancel_queues mc c

theorem mutexResume_queues (hs : mutexResume k me = some r) : SameQueues k r := by
  unfold mutexResume at hs
  split at hs
  · exact some.inj hs ▸ ⟨rfl, rfl⟩
  · obtain ⟨c, -, rfl⟩ := map_eq_some_iff.mp hs
    exact ⟨rfl, rfl⟩
  · exact some.inj hs ▸ ⟨rfl, rfl⟩
  · cases hs

theorem mutexStep_queues {e : MutexEvent n} (hs : mutexStep cfg k e = some r) : SameQueues k r := by
  cases e with
  | call me c =>
    obtain ⟨k₀, hd, hs⟩ := bind_eq_some_iff.mp hs
    obtain ⟨-, -, rfl⟩ := dispatch_cases hd
    simp only [ite_none_right_eq_some] at hs
    have hq := mutexCall_queues hs.2
    exact hq
  | resume me =>
    obtain ⟨k₀, hd, hs⟩ := bind_eq_some_iff.mp hs
    obtain ⟨-, -, rfl⟩ := dispatch_cases hd
    have hq := mutexResume_queues hs
    exact hq
  | isrUnlock m => exact some.inj hs ▸ mutexUnlock_queues m
  | isrCancel mc =>
    obtain ⟨c, -, rfl⟩ := map_eq_some_iff.mp hs
    exact mutexCancel_queues mc c
  | wakeup pid => exact some.inj hs ▸ ⟨rfl, rfl⟩

/-- A section of the mutex code that started in `k`. -/
theorem KernelOk.moves (h : KernelOk cfg k held W M) (hm : Moves cfg k W M b r)
    (hq : SameQueues k r) : ∃ W' M', KernelOk cfg r.1 (heldAfter held r.2) W' M' := by
  obtain ⟨W', M', hinv, hsame, hmove⟩ := hm
  refine ⟨W', M', ⟨hinv, hmove.original (fun pid => hsame.threadGet pid) h.mutex.original⟩, hmove.heldInv h.held,
    fun t => (h.queues t).congr (by rw [hq.1]) (by rw [hq.2])⟩

theorem KernelOk.signal (h : KernelOk cfg k held W M) (cond : Nat) (broadcast : Bool) :
    ∃ W', KernelOk cfg (condSignal cfg k cond broadcast) held W' M := by
  have hlen : (W (.condQueue cond)).length < listFuel n := by
    have := (h.mutex.inv.waiting.nodup (.condQueue cond)).length_le_card
    rw [Fintype.card_fin] at this
    exact Nat.lt_succ_of_le this
  obtain ⟨hinv, hsame, -⟩ := @condSignalLoop_spec n cfg M cond broadcast _ _ _ _ h.mutex.inv rfl hlen
  exact ⟨_, h.aside ⟨rfl, hsame.schedThreads, fun m => update_of_ne (by simp) ..⟩ hinv h.queues⟩

theorem KernelOk.cond {e : CondEvent n} (h : KernelOk cfg k held W M)
    (hs : condStep cfg k e = some r) : ∃ W' M', KernelOk cfg r.1 (heldAfter held r.2) W' M' := by
  cases e with
  | call me c =>
    obtain ⟨k₀, hd, hs⟩ := bind_eq_some_iff.mp hs
    have h0 := (h.dispatch hd).1
    simp only [ite_none_right_eq_some] at hs
    obtain ⟨-, hs⟩ := hs
    cases c with
    | wait cond mutex =>
      cases hs
      obtain ⟨W', M', h'⟩ := h0.moves (mutexUnlock_moves h0.mutex mutex) (mutexUnlock_queues mutex)
      exact ⟨W', M', h'.aside ⟨rfl, rfl, fun _ => rfl⟩ h'.mutex.inv h'.queues⟩
    | signal cond =>
      cases hs
      obtain ⟨W', h'⟩ := h0.signal cond false
      exact ⟨W', M, h'⟩
    | broadcast cond =>
      cases hs
      obtain ⟨W', h'⟩ := h0.signal cond true
      exact ⟨W', M, h'⟩
  | resume me =>
    obtain ⟨k₀, hd, hs⟩ := bind_eq_some_iff.mp hs
    obtain ⟨h0, hdis, -⟩ := h.dispatch hd
    unfold condResume at hs
    split at hs
    · rename_i cond mutex _
      cases hs
      obtain ⟨hinv, hset⟩ := h0.mutex.inv.blockIn (.condQueue cond) .condBlocked hdis.live hdis.free rfl
        (h0.mutex.inv.not_marked (by simp))
      exact ⟨_, M, h0.aside ⟨rfl, hset.same.schedThreads, fun m => update_of_ne (by simp) ..⟩ hinv h0.queues⟩
    · rename_i mutex _
      cases hs
      have hidle : KernelOk cfg { k₀ with cont := update k₀.cont me .idle } held W M :=
        h0.aside ⟨rfl, rfl, fun _ => rfl⟩ h0.mutex.inv h0.queues
      exact hidle.moves (b := true) (mutexLockInternal_moves hidle.mutex.inv true hdis.live hdis.free)
        (mutexLockInternal_queues mutex true)
    · cases hs
  | isrSignal cond broadcast =>
    cases hs
    obtain ⟨W', h'⟩ := h.signal cond broadcast
    exact ⟨W', M, h'⟩

/-! ## Runs -/

/-- **One section**, whichever object it belongs to. -/
theorem kernelOk_step {s s' : Kernel n × List (Nat × Fin n)} {e : KernelEvent n}
    (h : ∃ W M, KernelOk cfg s.1 s.2 W M) (hturn : ReplyInTurn s.1 e) (hs : kernelStep cfg s e = some s') :
    ∃ W M, KernelOk cfg s'.1 s'.2 W M := by
  obtain ⟨W, M, h⟩ := h
  cases e with
  | mutex e =>
    obtain ⟨⟨k', out⟩, hstep, rfl⟩ := map_eq_some_iff.mp hs
    obtain ⟨W', M', hst⟩ := mutexStep_moves h.mutex hstep
    obtain ⟨hqueue, harray⟩ := mutexStep_queues hstep
    exact ⟨W', M', hst.inv, hst.move.heldInv h.held,
      fun t => (h.queues t).congr (by rw [hqueue]) (by rw [harray])⟩
  | cond e =>
    obtain ⟨⟨k', out⟩, hstep, rfl⟩ := map_eq_some_iff.mp hs
    exact h.cond hstep
  | mbox e =>
    obtain ⟨⟨k', out⟩, hstep, rfl⟩ := map_eq_some_iff.mp hs
    obtain ⟨W', h'⟩ := h.mbox hstep
    exact ⟨W', M, h'⟩
  | msg e =>
    obtain ⟨⟨k', out⟩, hstep, rfl⟩ := map_eq_some_iff.mp hs
    obtain ⟨W', h'⟩ := h.msg hturn hstep
    exact ⟨W', M, h'⟩

theorem KernelStart.ok (hk : KernelStart cfg k) : KernelOk cfg k [] (fun _ => []) fun _ => False where
  mutex := hk.toMutexStart.inv.inv
  held := .empty
  queues t := (hk.queues t).queueOk

theorem KernelOk.linked (h : KernelOk cfg k held W M) : ExclusivelyLinked cfg k.sched := by
  obtain ⟨L, hL, -⟩ := h.mutex.inv.waiting
  exact ⟨L, hL⟩

/-- A thread made runnable in a wait list is still found in it. -/
theorem not_linked_of_waiter {s : Sched n} {w : WaitList n} (h : KernelInv cfg s W M) (ht : t ∈ W w) :
    ¬ExclusivelyLinked cfg (schedSetStatus cfg s t .pending) := by
  rintro ⟨L', hL'⟩
  have hoff := h.waiting.not_onRunqueue ht
  obtain ⟨L, hL, hW, -⟩ := h.waiting
  obtain ⟨xs, ys, hsplit⟩ := List.append_of_mem (hW w ▸ ht)
  have hne : xs ++ t :: ys ≠ [] := by simp
  have hchain := hL.linkage.chain_of (not_isRunqueue w)
  rw [hsplit] at hchain
  obtain ⟨l, hxs, rfl, -⟩ := seg_append.mp (hchain.resolve_right fun hmark => hne hmark.2)
  -- the links up to the thread are not touched
  have hsame : ∀ u ∈ xs, (schedSetStatus cfg s t .pending).next (.entry u) = s.next (.entry u) := by
    intro u hu
    have hmem : u ∈ L (.wait w) := by
      rw [hsplit]
      exact List.mem_append_left _ hu
    have hut : u ≠ t := by
      rintro rfl
      have hnd := hL.linkage.nodup (.wait w)
      rw [hsplit] at hnd
      exact (List.nodup_append.mp hnd).2.2 u hu u List.mem_cons_self rfl
    unfold schedSetStatus
    simp only [ThreadStatus.onRunqueue_pending, if_true, hoff, Bool.false_eq_true, if_false]
    exact clistRpush_entry hL.linkage (isRunqueue _) (hL.linkage.not_mem hmem (by simp)) hut
  have hseg := seg_congr hsame hxs
  rw [← @schedSetStatus_next_wait n cfg s t .pending w] at hseg
  have hmem : t ∈ L' (.wait w) := by
    rcases hL'.linkage.chain_of (not_isRunqueue w) with hc | ⟨hmark, -⟩
    · exact mem_of_seg hseg hc
    · rw [hmark] at hseg
      cases xs with
      | nil => cases hseg
      | cons x xs => cases hseg.1
  have hst := (hL'.waits t w hmem).2
  rw [schedSetStatus_status, update_self] at hst
  cases w <;> cases hst

/-- The replies that are not in turn are those that leave a thread in two lists. -/
theorem replyInTurn_of_linked {s s' : Kernel n × List (Nat × Fin n)} {e : KernelEvent n}
    (h : ∃ W M, KernelOk cfg s.1 s.2 W M) (hs : kernelStep cfg s e = some s')
    (hlinked : ExclusivelyLinked cfg s'.1.sched) : ReplyInTurn s.1 e := by
  obtain ⟨W, M, h⟩ := h
  have hreply : ∀ {k k' : Kernel n} {m reply : Msg} {out : MsgOut n}, KernelInv cfg k.sched W M →
      msgReply cfg k m reply = some (k', out) → ExclusivelyLinked cfg k'.sched → ∀ t ∈ replied k m, Free W t := by
    intro k k' m reply out hinv hs hlinked t ht w hw
    obtain ⟨hget, hst⟩ := mem_replied.mp ht
    unfold msgReply at hs
    rw [hget, map_some, if_neg (not_not.mpr hst)] at hs
    cases hs
    exact not_linked_of_waiter hinv hw hlinked
  have hwaits : ∀ {t}, Free W t → ∀ u, t ∉ waitersOf s.1.sched (.msgWaiters u) := fun hfree u hmem =>
    hfree _ (h.mutex.inv.waiting.waitersOf _ ▸ hmem)
  unfold ReplyInTurn
  split
  · rename_i me m reply
    intro t ht
    obtain ⟨⟨k', out⟩, hstep, rfl⟩ := map_eq_some_iff.mp hs
    obtain ⟨k₀, hd, hstep⟩ := bind_eq_some_iff.mp hstep
    simp only [ite_none_right_eq_some] at hstep
    refine hwaits (hreply (h.dispatch hd).1.mutex.inv hstep.2 hlinked t ?_)
    exact (replied_dispatch hd h.mutex.inv).mpr ht
  · rename_i m reply
    intro t ht
    obtain ⟨⟨k', out⟩, hstep, rfl⟩ := map_eq_some_iff.mp hs
    exact hwaits (hreply h.mutex.inv hstep hlinked t ht)
  · trivial

/-- **The kernel objects share the list nodes without mixing them up, exactly as long as nobody is replied to whose
message has not been taken yet.** -/
theorem kernel_linked_iff (cfg : Cfg) (k : Kernel n) (hk : KernelStart cfg k) (es : List (KernelEvent n)) :
    Along (kernelStep cfg) (fun s e => ReplyInTurn s.1 e) (k, []) es ↔
      Always (kernelStep cfg) (fun s => ExclusivelyLinked cfg s.1.sched) (k, []) es := by
  refine along_iff_always (I := fun s => ∃ W M, KernelOk cfg s.1 s.2 W M) (fun s e s' hi _ hs => ?_)
    (fun s e s' hi _ hok hs => kernelOk_step hi hok hs) es ⟨_, _, hk.ok⟩ hk.ok.linked
  refine ⟨fun hok => ?_, fun hl => replyInTurn_of_linked hi hs hl⟩
  obtain ⟨W, M, h⟩ := kernelOk_step hi hok hs
  exact h.linked

/-- Two threads, the second one of the higher priority, none with a message queue. -/
def kernelStart : Kernel 2 := Kernel.init (bootWith clzCfg ![7, 3]) (fun _ => 1) fun _ => 0

theorem kernelStart_start : KernelStart clzCfg kernelStart :=
  ⟨⟨booted_bootWith clzCfg ![7, 3], fun _ => rfl, fun _ => rfl⟩, fun _ => .inl ⟨rfl, rfl⟩⟩

attribute [local instance] neZero_two

/-- The second thread locks a mutex, waits for a condition and asks the first one when that has signalled it. -/
def waitAndAsk : List (KernelEvent 2) :=
  [.mutex (.call 1 (.lock 0)), .cond (.call 1 (.wait 0 0)), .cond (.resume 1), .cond (.call 0 (.signal 0)),
    .cond (.resume 1), .msg (.call 1 (.sendReceive ⟨0, 1, 5⟩ 1))]

/-- The answer has to wait until the question has been taken. -/
theorem kernel_linked_iff_waitAndAsk :
    Always (kernelStep clzCfg) (fun s => ExclusivelyLinked clzCfg s.1.sched) (kernelStart, [])
      (waitAndAsk ++ [.msg (.call 0 .receive), .msg (.replyInt ⟨2, 0, 0⟩ ⟨1, 0, 0⟩)]) ∧
    ¬Always (kernelStep clzCfg) (fun s => ExclusivelyLinked clzCfg s.1.sched) (kernelStart, [])
      (waitAndAsk ++ [.msg (.replyInt ⟨2, 0, 0⟩ ⟨1, 0, 0⟩)]) :=
  ⟨(kernel_linked_iff clzCfg kernelStart kernelStart_start _).mp (by decide),
    fun h => absurd ((kernel_linked_iff clzCfg kernelStart kernelStart_start _).mpr h) (by decide)⟩

theorem kernelOk_run (hk : KernelStart cfg k) {es : List (KernelEvent n)} {s : Kernel n × List (Nat × Fin n)}
    (hturn : Along (kernelStep cfg) (fun s e => ReplyInTurn s.1 e) (k, []) es)
    (hrun : run (kernelStep cfg) (k, []) es = some s) : ∃ W M, KernelOk cfg s.1 s.2 W M :=
  run_invariant (I := fun s => ∃ W M, KernelOk cfg s.1 s.2 W M)
    (fun _ _ _ hi hok hs => kernelOk_step hi hok hs) es ⟨_, _, hk.ok⟩ hturn hrun

/-- **Mutual exclusion in the whole kernel.** A mutex has one holder at most, is locked exactly while it has one, and
has one as long as anybody waits for it. -/
theorem kernel_mutexes (cfg : Cfg) (k : Kernel n) (hk : KernelStart cfg k) (es : List (KernelEvent n))
    (hturn : Along (kernelStep cfg) (fun s e => ReplyInTurn s.1 e) (k, []) es)
    (s : Kernel n × List (Nat × Fin n)) (hrun : run (kernelStep cfg) (k, []) es = some s) (m : Nat) :
    (∀ t u, (m, t) ∈ s.2 → (m, u) ∈ s.2 → t = u) ∧ (MutexLocked s.1 m ↔ ∃ t, (m, t) ∈ s.2) ∧
      (waitersOf s.1.sched (.mutexQueue m) ≠ [] → ∃ t, (m, t) ∈ s.2) := by
  obtain ⟨W, M, h⟩ := kernelOk_run hk hturn hrun
  refine ⟨h.held.unique m, (mutexLocked_iff h.mutex.inv m).trans (h.held.locked m).symm, fun hw => ?_⟩
  rw [h.mutex.inv.waiting.waitersOf] at hw
  exact (h.held.locked m).mpr fun hfree => hw hfree.1

theorem kernel_mutexes_waitAndAsk : ∃ s, run (kernelStep clzCfg) (kernelStart, []) waitAndAsk = some s ∧
    (MutexLocked s.1 0 ↔ ∃ t, (0, t) ∈ s.2) := by
  obtain ⟨s, hs⟩ := Option.isSome_iff_exists.mp
    (show (run (kernelStep clzCfg) (kernelStart, []) waitAndAsk).isSome = true by decide)
  exact ⟨s, hs, (kernel_mutexes clzCfg kernelStart kernelStart_start waitAndAsk (by decide) s hs 0).2.1⟩

/-- **The scheduler has the highest priority to offer**, whatever the objects have done to priorities and lists: as
long as a thread is runnable, `sched_run` picks one that no runnable thread precedes, and that waits nowhere. -/
theorem kernel_picks (cfg : Cfg) (k : Kernel n) (hk : KernelStart cfg k) (es : List (KernelEvent n))
    (hturn : Along (kernelStep cfg) (fun s e => ReplyInTurn s.1 e) (k, []) es)
    (s : Kernel n × List (Nat × Fin n)) (hrun : run (kernelStep cfg) (k, []) es = some s)
    (hready : ∃ u, s.1.sched.Live u ∧ (s.1.sched.status u).onRunqueue = true) :
    ∃ t, Picked cfg s.1.sched t ∧ s.1.sched.Live t ∧ (∀ w, t ∉ waitersOf s.1.sched w) ∧
      ∀ u, s.1.sched.Live u → (s.1.sched.status u).onRunqueue = true →
        s.1.sched.priority t ≤ s.1.sched.priority u := by
  obtain ⟨W, M, h⟩ := kernelOk_run hk hturn hrun
  obtain ⟨L, hL, -⟩ := h.mutex.inv.waiting
  obtain ⟨v, hv, hvon⟩ := hready
  have hbits : s.1.sched.runqueueBitcache ≠ 0#32 := by
    have hp : s.1.sched.priority v < 32 := lt_of_lt_of_le (hL.prio v hv) cfg.levels_le
    exact runqueueBitSet_ne_zero ((hL.bits _ hp).mpr (List.ne_nil_of_mem (hL.mem_runq hv hvon)))
  obtain ⟨p, t, ts, -, hts, hlow, hnext⟩ := schedNextThread_spec hL hbits
  obtain ⟨hl, hon, hprio⟩ := (hL.runq t p).mp (by rw [hts]; exact List.mem_cons_self)
  refine ⟨t, hnext, hl, fun w hw => ?_, fun u hu huon => ?_⟩
  · rw [h.mutex.inv.waiting.waitersOf] at hw
    exact h.mutex.inv.waiting.free hon w hw
  · by_contra hlt
    have hmem := hL.mem_runq hu huon
    rw [hlow _ (by omega)] at hmem
    cases hmem

theorem kernel_picks_waitAndAsk : ∃ s, run (kernelStep clzCfg) (kernelStart, []) waitAndAsk = some s ∧
    ∃ t, Picked clzCfg s.1.sched t ∧ s.1.sched.Live t := by
  have hready : (run (kernelStep clzCfg) (kernelStart, []) waitAndAsk).any (fun s => decide
      (∃ u, s.1.sched.Live u ∧ (s.1.sched.status u).onRunqueue = true)) = true := by decide
  obtain ⟨s, hs, hready⟩ := (Option.any_eq_true _ _).mp hready
  obtain ⟨t, hpick, hl, -⟩ := kernel_picks clzCfg kernelStart kernelStart_start waitAndAsk (by decide) s hs
    (of_decide_eq_true hready)
  exact ⟨s, hs, t, hpick, hl⟩

end Riot.Core
