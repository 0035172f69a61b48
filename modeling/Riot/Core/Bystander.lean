import Riot.Core.Mbox
import Riot.Core.MsgQueue

/-!
# What a section does to the other threads

A section of one thread may wake another one, or put a message into its queue. It does
not block it, does not let it wait anywhere it did not wait before, and takes nothing
out of its queue.
-/

namespace Riot.Core

open Function

variable {n : Nat} {cfg : Cfg} {k k' k'' : Kernel n} {W W' W'' : WaitList n → List (Fin n)}
  {M : WaitList n → Prop} {t : Fin n}

/-- A step as one sees it who does not take it. -/
structure Bystander (k k' : Kernel n) (W W' : WaitList n → List (Fin n)) (t : Fin n) : Prop where
  threads : k'.sched.schedThreads = k.sched.schedThreads
  cont : k'.cont t = k.cont t
  waits : ∀ w, t ∈ W' w → t ∈ W w
  runnable : (k.sched.status t).onRunqueue = true → (k'.sched.status t).onRunqueue = true
  receiving : k'.sched.status t = .receiveBlocked → k.sched.status t = .receiveBlocked
  hasQueue : (k'.msgArray t).isSome = (k.msgArray t).isSome
  queue : queueItems k t ≠ [] → queueItems k' t ≠ []

theorem Bystander.refl : Bystander k k W W t := ⟨rfl, rfl, fun _ h => h, id, id, rfl, id⟩

theorem Bystander.trans (h : Bystander k k' W W' t) (h' : Bystander k' k'' W' W'' t) :
    Bystander k k'' W W'' t where
  threads := h'.threads.trans h.threads
  cont := h'.cont.trans h.cont
  waits w hw := h.waits w (h'.waits w hw)
  runnable hon := h'.runnable (h.runnable hon)
  receiving hst := h.receiving (h'.receiving hst)
  hasQueue := h'.hasQueue.trans h.hasQueue
  queue hq := h'.queue (h.queue hq)

theorem Bystander.of_status (hsame : k.sched.SameTable k'.sched) (hc : k'.cont t = k.cont t)
    (hw : ∀ w, t ∈ W' w → t ∈ W w)
    (hst : k'.sched.status t = k.sched.status t ∨ k'.sched.status t = .pending)
    (hq : k'.msgQueue t = k.msgQueue t) (ha : k'.msgArray t = k.msgArray t) :
    Bystander k k' W W' t where
  threads := hsame.schedThreads
  cont := hc
  waits := hw
  runnable hon := by
    rcases hst with hst | hst <;> rw [hst]
    · exact hon
    · rfl
  receiving hrec := by
    rcases hst with hst | hst <;> rw [hst] at hrec
    · exact hrec
    · exact absurd hrec (by simp)
  hasQueue := by rw [ha]
  queue hne := by rwa [queueItems_congr hq ha]

theorem Bystander.of_sched (hs : k'.sched = k.sched) (hc : k'.cont t = k.cont t)
    (hq : k'.msgQueue t = k.msgQueue t) (ha : k'.msgArray t = k.msgArray t) :
    Bystander k k' W W t :=
  .of_status (hs ▸ .refl _) hc (fun _ h => h) (.inl (by rw [hs])) hq ha

theorem SchedChange.pending_cases {s s' : Sched n} {u : Fin n} (hs : StatusSet s s' u .pending)
    (t : Fin n) : s'.status t = s.status t ∨ s'.status t = .pending := by
  rw [hs.status]
  by_cases htu : t = u
  · exact .inr (by rw [htu, update_self])
  · exact .inl (update_of_ne htu ..)

theorem LetThrough.cases {s s' : Sched n} {u : Fin n} (hs : LetThrough s s' u) (t : Fin n) :
    s'.status t = s.status t ∨ s'.status t = .pending := by
  unfold LetThrough at hs
  split at hs
  · exact hs.pending_cases t
  · exact .inl (by rw [hs.status])

/-! ## Dispatching and entering -/

theorem KernelInv.bystander_dispatch {me : Fin n} (h : KernelInv cfg k.sched W M)
    (hd : Core.dispatch k me = some k') (t : Fin n) : Bystander k k' W W t := by
  obtain ⟨-, hdis, hk'⟩ := h.dispatch hd
  rw [hk'] at hdis ⊢
  refine ⟨hdis.schedThreads, rfl, fun _ hw => hw, fun hon => ?_, fun hrec => ?_, rfl, id⟩
  · rw [hdis.runnable]
    exact hon
  · have hoff : (k.sched.status t).onRunqueue = false := by
      rw [← hdis.runnable, hrec]
      rfl
    rw [← hdis.status t hoff]
    exact hrec

theorem MboxEvent.bystander_enter (e : MboxEvent n) (hne : t ≠ e.thread) : Bystander k (e.enter k) W W t := by
  cases e with
  | call me c => cases c <;> exact .of_sched rfl rfl rfl rfl
  | resume me => exact .of_sched rfl (update_of_ne hne ..) rfl rfl

theorem MsgEvent.bystander_enter (e : MsgEvent n) : Bystander k (e.enter k) W W t := by
  cases e with
  | call me c => cases c <;> exact .of_sched rfl rfl rfl rfl
  | _ => exact .refl

/-! ## Moves -/

theorem MboxMove.bystander {me : Fin n} {out : MboxOut n} (hm : MboxMove k W me out k' W')
    (hne : t ≠ me) : Bystander k k' W W' t := by
  have hwait : ∀ w w', t ∈ update W w (insertPrio k.sched.priority me (W w)) w' → t ∈ W w' :=
    fun w w' hw => (mem_update_insertPrio hw).resolve_right fun h => hne h.1
  cases hm with
  | failed => exact .refl
  | delivered b => exact .refl
  | blockedPut hfull hs =>
    exact .of_status hs.same (update_of_ne hne ..) (hwait _) (.inl (hs.onRunqueue_of_ne hne)) rfl rfl
  | blockedGet hempty hs =>
    exact .of_status hs.same (update_of_ne hne ..) (hwait _) (.inl (hs.onRunqueue_of_ne hne)) rfl rfl
  | handed hw hs =>
    exact .of_status hs.same rfl (fun _ => mem_update_tail hw) (hs.pending_cases t) rfl rfl
  | queued hroom hmsg => exact .of_sched rfl rfl rfl rfl
  | taken havail hmsg hw =>
    rcases hw with ⟨_, rfl, rfl⟩ | ⟨u, ts, hw, hs, rfl⟩
    · exact .of_sched rfl rfl rfl rfl
    · exact .of_status hs.same rfl (fun _ => mem_update_tail hw) (hs.pending_cases t) rfl rfl

theorem MsgMove.bystander {me : Option (Fin n)} {pid : Nat} {out : MsgOut n}
    (hm : MsgMove k W me pid out k' W') (hq : ∀ t, QueueOk k t) (hne : ∀ u ∈ me, t ≠ u) :
    Bystander k k' W W' t := by
  cases hm with
  | failed => exact .refl
  | direct hst hpid hs => exact .of_status hs.same rfl (fun _ h => h) (hs.pending_cases t) rfl rfl
  | @queued u msg i cib hst hpid hput =>
    by_cases htu : t = u
    · subst htu
      have hitems : queueItems { k with
          msgQueue := update k.msgQueue t cib
          msgArray := update k.msgArray t
            ((k.msgArray t).map fun a => update a i msg) } t = queueItems k t ++ [msg] :=
        And.right ((hq t).queued hput (update_self ..) (update_self ..))
      refine ⟨rfl, rfl, fun _ h => h, id, id, by simp, fun _ => ?_⟩
      rw [hitems]
      simp
    · exact .of_sched rfl rfl (update_of_ne htu ..) (update_of_ne htu ..)
  | @sending _ u _ _ _ hme _ _ _ _ _ hs =>
    have hne := hne u hme
    exact .of_status hs.same (update_of_ne hne ..)
      (fun w hw => (mem_update_insertPrio hw).resolve_right fun h => hne h.1)
      (.inl (hs.onRunqueue_of_ne hne)) rfl rfl
  | @sent u _ hme hc => exact .of_sched rfl (update_of_ne (hne u hme) ..) rfl rfl
  | @answered u hme hc => exact .of_sched rfl (update_of_ne (hne u hme) ..) rfl rfl
  | @delivered u hme hc => exact .of_sched rfl (update_of_ne (hne u hme) ..) rfl rfl
  | @receiving u s hme hidle hqueue hw hs =>
    have hne := hne u hme
    exact .of_status hs.same (update_of_ne hne ..) (fun _ h => h)
      (.inl (hs.onRunqueue_of_ne hne)) rfl rfl
  | @taken u msgArray hme hidle harr havail hw =>
    exact .of_sched rfl rfl (update_of_ne (hne u hme) ..) rfl
  | @refilled u sender ts msgArray s hme hidle harr havail hw hs =>
    have hne := hne u hme
    exact .of_status hs.same rfl (fun _ => mem_update_tail hw) (hs.cases t)
      (update_of_ne hne ..) (update_of_ne hne ..)
  | @copied u sender ts s hme hidle hqueue hw hs =>
    exact .of_status hs.same rfl (fun _ => mem_update_tail hw) (hs.cases t) rfl rfl

theorem MsgMove.schedThreads {me : Option (Fin n)} {pid : Nat} {out : MsgOut n}
    (hm : MsgMove k W me pid out k' W') : k'.sched.schedThreads = k.sched.schedThreads := by
  cases hm with
  | direct _ _ hs => exact hs.same.schedThreads
  | sending _ _ _ _ _ _ hs => exact hs.same.schedThreads
  | receiving _ _ _ _ hs => exact hs.same.schedThreads
  | refilled _ _ _ _ _ hs => exact hs.same.schedThreads
  | copied _ _ _ _ hs => exact hs.same.schedThreads
  | _ => rfl

/-! ## Steps -/

theorem mboxStep_bystander {e : MboxEvent n} {out : MboxOut n} (h : KernelInv cfg k.sched W M)
    (hs : mboxStep cfg k e = some (k', out)) :
    ∃ W', KernelInv cfg k'.sched W' M ∧ (∀ t, t ≠ e.thread → Bystander k k' W W' t) ∧
      k'.msgQueue = k.msgQueue ∧ k'.msgArray = k.msgArray := by
  obtain ⟨k0, W', hd, h', hmove, -⟩ := mboxStep_move h hs
  refine ⟨W', h', fun t hne => ?_, ?_⟩
  · exact (h.bystander_dispatch hd t).trans ((e.bystander_enter hne).trans (hmove.bystander hne))
  · obtain ⟨-, -, hk0⟩ := h.dispatch hd
    have henter : (e.enter k0).msgQueue = k.msgQueue ∧ (e.enter k0).msgArray = k.msgArray := by
      rw [hk0]
      cases e with
      | call me c => cases c <;> exact ⟨rfl, rfl⟩
      | resume me => exact ⟨rfl, rfl⟩
    rw [← henter.1, ← henter.2]
    cases hmove <;> exact ⟨rfl, rfl⟩

theorem MsgEvent.Starts.queueOk {e : MsgEvent n} (hd : e.Starts k k') (hq : ∀ t, QueueOk k t)
    (t : Fin n) : QueueOk (e.enter k') t := by
  have hk' : k'.msgQueue = k.msgQueue ∧ k'.msgArray = k.msgArray := by
    unfold MsgEvent.Starts at hd
    split at hd
    · rw [(dispatch_cases hd).2.2]
      exact ⟨rfl, rfl⟩
    · rw [hd]
      exact ⟨rfl, rfl⟩
  have henter : (e.enter k').msgQueue = k'.msgQueue ∧ (e.enter k').msgArray = k'.msgArray := by
    cases e with
    | call me c => cases c <;> exact ⟨rfl, rfl⟩
    | _ => exact ⟨rfl, rfl⟩
  exact (hq t).congr (by rw [henter.1, hk'.1]) (by rw [henter.2, hk'.2])

theorem msgStep_bystander {e : MsgEvent n} {out : MsgOut n} (h : KernelInv cfg k.sched W M)
    (hq : ∀ t, QueueOk k t) (hway : e.OneWay) (hs : msgStep cfg k e = some (k', out)) :
    ∃ W', KernelInv cfg k'.sched W' M ∧ (∀ t, (∀ u ∈ e.thread, t ≠ u) → Bystander k k' W W' t) ∧
      ∀ t, QueueOk k' t := by
  obtain ⟨k0, W', hd, h', hmove⟩ := msgStep_move h hq hway hs
  have hq0 := hd.queueOk hq
  refine ⟨W', h', fun t hne => ?_, hmove.queueOk hq0⟩
  have hstart : Bystander k k0 W W t := by
    unfold MsgEvent.Starts at hd
    split at hd
    · exact h.bystander_dispatch hd t
    · rw [hd]
      exact .refl
  exact hstart.trans (e.bystander_enter.trans (hmove.bystander hq0 hne))

end Riot.Core
