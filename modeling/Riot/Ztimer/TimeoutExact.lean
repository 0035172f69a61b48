import Riot.Core.Bystander
import Riot.Ztimer.Timeout

/-!
# When a timeout is lost

The callback of a timer that expires while its thread waits ends the wait. One that
expires before the thread waits finds nothing to end: that of a mailbox timeout does not
find the thread among the readers, and the message of the other one is discarded if the
thread has no queue. The thread then waits for good.
-/

namespace Riot.Ztimer

open Riot.Lib Riot.Core Function Option

variable {n : Nat} {cfg : Cfg} {k k' : Kernel n} {W W' : WaitList n → List (Fin n)}
  {M : WaitList n → Prop} {me t : Fin n}

/-! ## The two waits -/

theorem mboxGet_empty {b : Nat} (h : KernelInv cfg k.sched W M) (hl : k.sched.Live me)
    (hfree : Free W me) (hempty : cibAvail (k.mbox b).cib = 0) :
    ∃ s, Core.mboxGet cfg k b me true =
        ({ k with sched := s, cont := update k.cont me (.mboxGet b) }, .blocked) ∧
      KernelInv cfg s (update W (.mboxReaders b) (insertPrio k.sched.priority me (W (.mboxReaders b)))) M ∧
      StatusSet k.sched s me .mboxBlocked := by
  obtain ⟨hinv, hset⟩ := h.blockIn (.mboxReaders b) .mboxBlocked hl hfree rfl (h.not_marked (by simp))
  refine ⟨_, ?_, hinv, hset⟩
  unfold Core.mboxGet
  rw [if_neg (not_not.mpr hempty), if_pos rfl]
  rfl

theorem mboxGet_avail {b : Nat} (h : KernelInv cfg k.sched W M) (hl : k.sched.Live me)
    (hfree : Free W me) (havail : cibAvail (k.mbox b).cib ≠ 0) :
    ∃ W' msg, KernelInv cfg (Core.mboxGet cfg k b me true).1.sched W' M ∧
      MboxMove k W me (.taken b msg) (Core.mboxGet cfg k b me true).1 W' ∧
      (Core.mboxGet cfg k b me true).2 = .taken b msg := by
  obtain ⟨W', hinv, hmove⟩ := mboxGet_move b true h hl hfree
  have hout : ∃ msg, (Core.mboxGet cfg k b me true).2 = .taken b msg := by
    unfold Core.mboxGet
    rw [if_pos havail]
    dsimp only
    split <;> exact ⟨_, rfl⟩
  obtain ⟨msg, hout⟩ := hout
  rw [hout] at hmove
  exact ⟨W', msg, hinv, hmove, hout⟩

theorem taken_onRunqueue {b : Nat} {msg : Msg} (hm : MboxMove k W me (.taken b msg) k' W')
    (hon : (k.sched.status t).onRunqueue = true) : (k'.sched.status t).onRunqueue = true := by
  cases hm with
  | taken havail hmsg hw =>
    rcases hw with ⟨-, rfl, -⟩ | ⟨u, ts, -, hs, -⟩
    · exact hon
    · rcases hs.pending_cases t with hst | hst <;> rw [hst]
      · exact hon
      · rfl

theorem received_onRunqueue {u : Option (Fin n)} {pid : Nat} {msg : Msg}
    (hm : MsgMove k W u pid (.received msg) k' W') (hon : (k.sched.status t).onRunqueue = true) :
    (k'.sched.status t).onRunqueue = true := by
  have hlet : ∀ {s : Sched n} {v : Fin n}, LetThrough k.sched s v → (s.status t).onRunqueue = true := by
    intro s v hs
    rcases hs.cases t with hst | hst <;> rw [hst]
    · exact hon
    · rfl
  cases hm with
  | delivered => exact hon
  | taken => exact hon
  | refilled _ _ _ _ _ hs => exact hlet hs
  | copied _ _ _ _ hs => exact hlet hs

theorem msgReceive_out (cfg : Cfg) (k : Kernel n) (me : Fin n) (block : Bool) :
    (∃ msg, (Core.msgReceive cfg k me block).2 = .received msg) ∨
      (Core.msgReceive cfg k me block).2 = .receiving ∨
      (∃ ret, (Core.msgReceive cfg k me block).2 = .failed ret) ∧ block = false := by
  unfold Core.msgReceive
  dsimp only
  split
  · rename_i hnone
    exact .inr (.inr ⟨⟨_, rfl⟩, by simpa using hnone.1⟩)
  · split
    · exact .inl ⟨_, rfl⟩
    · split
      · exact .inl ⟨_, rfl⟩
      · exact .inr (.inl rfl)

theorem msgTryReceive_ne (h : KernelInv cfg k.sched W M) :
    (Core.msgReceive cfg k me false).2 ≠ .receiving := by
  unfold Core.msgReceive
  rcases msgQueueGet_cases k me with ⟨msgArray, harr, havail, hget⟩ | ⟨hempty, hget⟩
  · simp only [hget, harr]
    rw [if_neg (by simp)]
    split <;> simp
  · simp only [hget]
    split
    · simp
    · rename_i hsome
      rcases h.removeHead_cases (w := .msgWaiters me) (by simp) with ⟨sender, ts, hw, hhead⟩ | ⟨hw, -⟩
      · rw [hhead]
        simp
      · exact absurd ((h.next_null (by simp)).mpr hw) (by simpa using hsome)

/-- A receiver waits when there is nothing to receive, and nobody who wants to send. -/
theorem msgReceive_cases (h : KernelInv cfg k.sched W M) (hq : ∀ t, QueueOk k t)
    (hl : k.sched.Live me) (hfree : Free W me) (hidle : k.cont me = .idle)
    (hon : (k.sched.status me).onRunqueue = true) :
    ∃ W' out, KernelInv cfg (Core.msgReceive cfg k me true).1.sched W' M ∧
      MsgMove k W (some me) k.sched.schedActivePid out (Core.msgReceive cfg k me true).1 W' ∧
      (Core.msgReceive cfg k me true).2 = out ∧
      (out = .receiving ∧ queueItems k me = [] ∧ W (.msgWaiters me) = [] ∧
          (Core.msgReceive cfg k me true).1.cont me = .msgReceive ∧
          (Core.msgReceive cfg k me true).1.sched.status me = .receiveBlocked ∨
        out ≠ .receiving ∧ ((k.msgArray me).isSome = true ∨ W (.msgWaiters me) ≠ []) ∧
          ((Core.msgReceive cfg k me true).1.sched.status me).onRunqueue = true) := by
  obtain ⟨W', hinv, hmove⟩ := msgReceive_moves h (hq me) true hl hfree hidle k.sched.schedActivePid
  refine ⟨W', _, hinv, hmove, rfl, ?_⟩
  rcases msgReceive_out cfg k me true with ⟨msg, hout⟩ | hout | ⟨-, hblock⟩
  · rw [hout] at hmove ⊢
    refine .inr ⟨by simp, ?_, received_onRunqueue hmove hon⟩
    generalize (Core.msgReceive cfg k me true).1 = k' at hmove
    cases hmove with
    | delivered hme hc =>
      cases hme
      rw [hidle] at hc
      exact absurd hc (by simp)
    | taken hme _ harr _ _ =>
      cases hme
      exact .inl (by rw [harr]; rfl)
    | refilled hme _ harr _ _ hs =>
      cases hme
      exact .inl (by rw [harr]; rfl)
    | copied hme _ _ hw hs =>
      cases hme
      exact .inr (by rw [hw]; simp)
  · rw [hout] at hmove ⊢
    refine .inl ⟨rfl, ?_⟩
    generalize (Core.msgReceive cfg k me true).1 = k' at hmove
    cases hmove with
    | receiving hme _ hq hw hs =>
      cases hme
      exact ⟨queueItems_empty hq, hw, update_self .., by rw [hs.status, update_self]⟩
  · exact absurd hblock (by simp)

/-! ## The invariant -/

/-- The timer of a call for this mailbox. -/
def TimeoutTimer.ForMbox (timer : TimeoutTimer) (b : Nat) : Prop :=
  (∃ target, timer = .set target (.mboxGet b)) ∨ timer.Expired

/-- The timer of a thread's call for a message. -/
def TimeoutTimer.ForMsg (timer : TimeoutTimer) (k : Kernel n) (t : Fin n) : Prop :=
  (∃ target m, timer = .set target (.msg m) ∧ k.sched.schedThreads m.senderPid = some t) ∨
    timer = .sent ∨ timer = .discarded

/-- What is known of a thread at each place of the two functions. -/
def Phase (k : Kernel n) (W : WaitList n → List (Fin n)) (timer : TimeoutTimer) (t : Fin n) :
    TimeoutCont → Prop
  | .outside => timer = .unset
  | .mboxGet b => (k.sched.status t).onRunqueue = true ∧ timer.ForMbox b
  | .mboxWait b => k.cont t = .mboxGet b ∧ (∀ w, t ∈ W w → w = .mboxReaders b) ∧ timer.ForMbox b
  | .mboxRemove => (k.sched.status t).onRunqueue = true ∧ ∃ b, timer.ForMbox b
  | .msgSet _ => (k.sched.status t).onRunqueue = true ∧ k.cont t = .idle ∧ timer = .unset
  | .msgReceive => (k.sched.status t).onRunqueue = true ∧ k.cont t = .idle ∧ timer.ForMsg k t ∧
      (timer = .discarded → (k.msgArray t).isSome → queueItems k t ≠ [])
  | .msgWait => k.cont t = .msgReceive ∧ timer.ForMsg k t
  | .msgRemove => (k.sched.status t).onRunqueue = true ∧ timer.ForMsg k t

/-- The thread does not wait although its timeout has passed. -/
def InTime (k : Kernel n) (W : WaitList n → List (Fin n)) (timer : TimeoutTimer) (t : Fin n) :
    Prop :=
  (timer.Expired → ∀ b, t ∉ W (.mboxReaders b)) ∧
    (timer = .discarded → k.sched.status t ≠ .receiveBlocked)

/-- What holds in every state. -/
structure TimeoutInv (cfg : Cfg) (s : TimeoutSys n) (W : WaitList n → List (Fin n))
    (M : WaitList n → Prop) : Prop where
  inv : KernelInv cfg s.kernel.sched W M
  queue : ∀ t, QueueOk s.kernel t
  phase : ∀ t, Phase s.kernel W (s.timer t) t (s.cont t)

variable {s s' : TimeoutSys n} {timer : TimeoutTimer} {cont : TimeoutCont} {addr : Fin n → Nat}

theorem TimeoutInv.timely_iff (h : TimeoutInv cfg s W M) :
    NoLostTimeout s ↔ ∀ t, InTime s.kernel W (s.timer t) t := by
  have hw := fun b => h.inv.waiting.waitersOf (.mboxReaders b)
  constructor
  · intro hP t
    exact ⟨fun hx b => hw b ▸ hP.mboxGet t hx b, hP.msgReceive t⟩
  · intro hP
    exact ⟨fun t hx b => (hw b).symm ▸ (hP t).1 hx b, fun t => (hP t).2⟩

theorem TimeoutTimer.ForMsg.bystander (h : timer.ForMsg k t)
    (hk : k'.sched.schedThreads = k.sched.schedThreads) : timer.ForMsg k' t := by
  unfold TimeoutTimer.ForMsg at *
  rw [hk]
  exact h

theorem Phase.bystander (h : Phase k W timer t cont) (hb : Bystander k k' W W' t) :
    Phase k' W' timer t cont := by
  cases cont with
  | outside => exact h
  | mboxGet b => exact ⟨hb.runnable h.1, h.2⟩
  | mboxWait b => exact ⟨hb.cont.trans h.1, fun w hw => h.2.1 w (hb.waits w hw), h.2.2⟩
  | mboxRemove => exact ⟨hb.runnable h.1, h.2⟩
  | msgSet timeout => exact ⟨hb.runnable h.1, hb.cont.trans h.2.1, h.2.2⟩
  | msgReceive =>
    obtain ⟨hon, hidle, htimer, hfull⟩ := h
    exact ⟨hb.runnable hon, hb.cont.trans hidle, htimer.bystander hb.threads,
      fun hx hsome => hb.queue (hfull hx (hb.hasQueue ▸ hsome))⟩
  | msgWait => exact ⟨hb.cont.trans h.1, h.2.bystander hb.threads⟩
  | msgRemove => exact ⟨hb.runnable h.1, h.2.bystander hb.threads⟩

theorem InTime.bystander (h : InTime k W timer t) (hb : Bystander k k' W W' t) : InTime k' W' timer t :=
  ⟨fun hx b hw => h.1 hx b (hb.waits _ hw), fun hx hst => h.2 hx (hb.receiving hst)⟩

theorem inTime_of_runnable (h : KernelInv cfg k.sched W M)
    (hon : (k.sched.status t).onRunqueue = true) : InTime k W timer t := by
  refine ⟨fun _ b => h.waiting.free hon (.mboxReaders b), fun _ hst => ?_⟩
  rw [hst] at hon
  exact Bool.noConfusion hon

theorem inTime_unset : InTime k W .unset t := ⟨fun hx => by simp [TimeoutTimer.Expired] at hx, by simp⟩

/-- What is left to show of a step in which `actor` takes part, if anybody does. -/
theorem TimeoutInv.next (h : TimeoutInv cfg s W M) (hP : NoLostTimeout s) (actor : Option (Fin n))
    (hinv : KernelInv cfg s'.kernel.sched W' M) (hq : ∀ t, QueueOk s'.kernel t)
    (hother : ∀ t, (∀ u ∈ actor, t ≠ u) → Bystander s.kernel s'.kernel W W' t ∧
      s'.cont t = s.cont t ∧ s'.timer t = s.timer t)
    (hactor : ∀ u ∈ actor, Phase s'.kernel W' (s'.timer u) u (s'.cont u)) :
    TimeoutInv cfg s' W' M ∧ (NoLostTimeout s' ↔ ∀ u ∈ actor, InTime s'.kernel W' (s'.timer u) u) := by
  have hphase : ∀ t, Phase s'.kernel W' (s'.timer t) t (s'.cont t) := by
    intro t
    by_cases ht : ∀ u ∈ actor, t ≠ u
    · obtain ⟨hb, hc, htimer⟩ := hother t ht
      rw [hc, htimer]
      exact (h.phase t).bystander hb
    · push Not at ht
      obtain ⟨u, hu, rfl⟩ := ht
      exact hactor t hu
  have h' : TimeoutInv cfg s' W' M := ⟨hinv, hq, hphase⟩
  refine ⟨h', h'.timely_iff.trans ⟨fun hall u _ => hall u, fun hact t => ?_⟩⟩
  by_cases ht : ∀ u ∈ actor, t ≠ u
  · obtain ⟨hb, -, htimer⟩ := hother t ht
    rw [htimer]
    exact (h.timely_iff.mp hP t).bystander hb
  · push Not at ht
    obtain ⟨u, hu, rfl⟩ := ht
    exact hact t hu

/-! ## One step -/

theorem TimeoutInv.outside (h : TimeoutInv cfg s W M) (hP : NoLostTimeout s)
    (actor : Option (Fin n)) (hinv : KernelInv cfg s'.kernel.sched W' M)
    (hq : ∀ t, QueueOk s'.kernel t)
    (hother : ∀ t, (∀ u ∈ actor, t ≠ u) → Bystander s.kernel s'.kernel W W' t ∧
      s'.cont t = s.cont t ∧ s'.timer t = s.timer t)
    (hactor : ∀ u ∈ actor, s'.cont u = .outside ∧ s'.timer u = .unset) :
    TimeoutInv cfg s' W' M ∧ NoLostTimeout s' := by
  obtain ⟨h', hiff⟩ := h.next hP actor hinv hq hother fun u hu => by
    rw [(hactor u hu).1]
    exact (hactor u hu).2
  refine ⟨h', hiff.mpr fun u hu => ?_⟩
  rw [(hactor u hu).2]
  exact inTime_unset

theorem exact_mbox {e : MboxEvent n} (h : TimeoutInv cfg s W M) (hP : NoLostTimeout s)
    (hs : timeoutStep cfg addr s (.mbox e) = some s') :
    ∃ W', TimeoutInv cfg s' W' M ∧ NoLostTimeout s' := by
  simp only [timeoutStep, ite_none_right_eq_some, map_eq_some_iff] at hs
  obtain ⟨hout, ⟨k', out⟩, hstep, rfl⟩ := hs
  obtain ⟨W', hinv, hb, hqueue, harray⟩ := mboxStep_bystander h.inv hstep
  have hunset : s.timer e.thread = .unset := by
    have := h.phase e.thread
    rwa [hout] at this
  refine ⟨W', h.outside hP (some e.thread) hinv (fun t => (h.queue t).congr (by rw [hqueue]) (by rw [harray]))
    (fun t ht => ⟨hb t (ht _ rfl), rfl, rfl⟩) fun u hu => ?_⟩
  cases hu
  exact ⟨hout, hunset⟩

theorem exact_msg {e : MsgEvent n} (h : TimeoutInv cfg s W M) (hP : NoLostTimeout s)
    (hs : timeoutStep cfg addr s (.msg e) = some s') :
    ∃ W', TimeoutInv cfg s' W' M ∧ NoLostTimeout s' := by
  simp only [timeoutStep, ite_none_right_eq_some, map_eq_some_iff] at hs
  obtain ⟨⟨hway, hout⟩, ⟨k', out⟩, hstep, rfl⟩ := hs
  obtain ⟨W', hinv, hb, hqueue⟩ := msgStep_bystander h.inv h.queue hway hstep
  have hunset : ∀ u ∈ e.thread, s.timer u = .unset := by
    intro u hu
    have := h.phase u
    rwa [hout u hu] at this
  exact ⟨W', h.outside hP e.thread hinv hqueue (fun t ht => ⟨hb t ht, rfl, rfl⟩)
    fun u hu => ⟨hout u hu, hunset u hu⟩⟩

/-- A step of `me`, in one of the functions, that meets a condition exactly if `me` does
not wait in vain after it. -/
theorem TimeoutInv.exactly (h : TimeoutInv cfg s W M) (hP : NoLostTimeout s) (me : Fin n)
    {timer : TimeoutTimer} {cont : TimeoutCont} {ok : Prop}
    (hcont : s'.cont = update s.cont me cont)
    (htimer : s'.timer = update s.timer me timer)
    (hinv : KernelInv cfg s'.kernel.sched W' M) (hq : ∀ t, QueueOk s'.kernel t)
    (hother : ∀ t, t ≠ me → Bystander s.kernel s'.kernel W W' t)
    (hme : Phase s'.kernel W' timer me cont) (hok : ok ↔ InTime s'.kernel W' timer me) :
    TimeoutInv cfg s' W' M ∧ (ok ↔ NoLostTimeout s') := by
  obtain ⟨h', hiff⟩ := h.next hP (some me) hinv hq (fun t ht => by
      have hne := ht me rfl
      rw [hcont, htimer, update_of_ne hne, update_of_ne hne]
      exact ⟨hother t hne, rfl, rfl⟩)
    (fun u hu => by
      cases hu
      rw [hcont, htimer, update_self, update_self]
      exact hme)
  refine ⟨h', hok.trans (Iff.trans ⟨fun hin u hu => ?_, fun hall => ?_⟩ hiff.symm)⟩
  · cases hu
    rw [htimer, update_self]
    exact hin
  · have := hall me rfl
    rwa [htimer, update_self] at this

theorem TimeoutInv.timely (h : TimeoutInv cfg s W M) (hP : NoLostTimeout s) (me : Fin n)
    {timer : TimeoutTimer} {cont : TimeoutCont}
    (hcont : s'.cont = update s.cont me cont)
    (htimer : s'.timer = update s.timer me timer)
    (hinv : KernelInv cfg s'.kernel.sched W' M) (hq : ∀ t, QueueOk s'.kernel t)
    (hother : ∀ t, t ≠ me → Bystander s.kernel s'.kernel W W' t)
    (hme : Phase s'.kernel W' timer me cont) (hin : InTime s'.kernel W' timer me) :
    TimeoutInv cfg s' W' M ∧ NoLostTimeout s' := by
  obtain ⟨h', hiff⟩ := h.exactly hP me hcont htimer hinv hq hother hme (iff_of_true trivial hin)
  exact ⟨h', hiff.mp trivial⟩

theorem dispatch_queueOk (hd : dispatch k me = some k') (hq : ∀ t, QueueOk k t) (t : Fin n) :
    QueueOk k' t := by
  rw [(dispatch_cases hd).2.2]
  exact (hq t).congr rfl rfl

theorem exact_mboxGetTimeout {b : Nat} {timeout : UInt32} (h : TimeoutInv cfg s W M)
    (hP : NoLostTimeout s) (hs : timeoutStep cfg addr s (.mboxGetTimeout me b timeout) = some s') :
    ∃ W', TimeoutInv cfg s' W' M ∧ NoLostTimeout s' := by
  simp only [timeoutStep, bind_eq_some_iff, ite_none_right_eq_some, some.injEq] at hs
  obtain ⟨k0, hd, -, rfl⟩ := hs
  obtain ⟨hinv, hdis, -⟩ := h.inv.dispatch hd
  exact ⟨W, h.timely hP me rfl rfl hinv (dispatch_queueOk hd h.queue)
    (fun t _ => h.inv.bystander_dispatch hd t) ⟨hdis.onRunqueue, .inl ⟨_, rfl⟩⟩
    (inTime_of_runnable hinv hdis.onRunqueue)⟩

theorem exact_msgReceiveTimeout {timeout : UInt32} (h : TimeoutInv cfg s W M)
    (hP : NoLostTimeout s) (hs : timeoutStep cfg addr s (.msgReceiveTimeout me timeout) = some s') :
    ∃ W', TimeoutInv cfg s' W' M ∧ NoLostTimeout s' := by
  simp only [timeoutStep, bind_eq_some_iff, ite_none_right_eq_some] at hs
  obtain ⟨k0, hd, ⟨hout, hidle⟩, hs⟩ := hs
  obtain ⟨hinv, hdis, -⟩ := h.inv.dispatch hd
  have hq0 := dispatch_queueOk hd h.queue
  have hunset : s.timer me = .unset := by
    have := h.phase me
    rwa [hout] at this
  obtain ⟨W', hinv', hmove⟩ := msgReceive_moves hinv (hq0 me) false hdis.live hdis.free hidle
    k0.sched.schedActivePid
  have hb : ∀ t, t ≠ me → Bystander s.kernel (Core.msgReceive cfg k0 me false).1 W W' t :=
    fun t hne => (h.inv.bystander_dispatch hd t).trans
      (hmove.bystander hq0 fun u hu => by rwa [← some.inj hu])
  rcases msgReceive_out cfg k0 me false with ⟨msg, hr⟩ | hr | ⟨⟨ret, hr⟩, -⟩
  · rw [← Prod.mk.eta (p := Core.msgReceive cfg k0 me false), hr] at hs
    cases hs
    refine ⟨W', h.timely hP me (update_eq_self ..).symm (update_eq_self ..).symm hinv'
      (hmove.queueOk hq0) hb ?_ ?_⟩
    · rw [hout]
      exact hunset
    · rw [hunset]
      exact inTime_unset
  · exact absurd hr (msgTryReceive_ne hinv)
  · have hk : (Core.msgReceive cfg k0 me false).1 = k0 ∧ W' = W := by
      rw [hr] at hmove
      generalize (Core.msgReceive cfg k0 me false).1 = k' at hmove
      cases hmove
      exact ⟨rfl, rfl⟩
    rw [← Prod.mk.eta (p := Core.msgReceive cfg k0 me false), hr, hk.1] at hs
    rw [hk.1, hk.2] at hb
    cases hs
    refine ⟨W, h.timely hP me rfl (update_eq_self ..).symm hinv hq0 hb ?_ ?_⟩
    · exact ⟨hdis.onRunqueue, hidle, hunset⟩
    · rw [hunset]
      exact inTime_unset

/-! ### The sections of a call -/

theorem exact_mboxGet {b : Nat} (h : TimeoutInv cfg s W M) (hP : NoLostTimeout s)
    (hc : s.cont me = .mboxGet b) (hs : timeoutStep cfg addr s (.proceed me) = some s') :
    ∃ W', TimeoutInv cfg s' W' M ∧ (BlocksInTime s (.proceed me) ↔ NoLostTimeout s') := by
  simp only [timeoutStep, bind_eq_some_iff] at hs
  obtain ⟨k0, hd, hs⟩ := hs
  obtain ⟨hinv, hdis, hk0⟩ := h.inv.dispatch hd
  have hq0 := dispatch_queueOk hd h.queue
  have htimer : (s.timer me).ForMbox b := by
    have := h.phase me
    rw [hc] at this
    exact this.2
  have hmbox : s.kernel.mbox = k0.mbox := by rw [hk0]
  rw [timeoutProceed, hc] at hs
  dsimp only at hs
  rw [BlocksInTime, hc]
  rw [hmbox]
  by_cases hempty : cibAvail (k0.mbox b).cib = 0
  · obtain ⟨sched, hget, hinv', hset⟩ := mboxGet_empty hinv hdis.live hdis.free hempty
    rw [hget, if_pos rfl] at hs
    cases hs
    have hmem : me ∈ update W (.mboxReaders b)
        (insertPrio k0.sched.priority me (W (.mboxReaders b))) (.mboxReaders b) := by
      rw [update_self]
      exact mem_insertPrio.mpr (.inl rfl)
    refine ⟨_, h.exactly hP me rfl (update_eq_self ..).symm hinv' hq0
      (fun t hne => (h.inv.bystander_dispatch hd t).trans
        ((MboxMove.blockedGet hempty hset).bystander hne))
      ⟨update_self .., fun w hw => ?_, htimer⟩ ⟨fun hok => ⟨fun hx => ?_, fun _ => ?_⟩,
        fun hin _ hx => hin.1 hx b hmem⟩⟩
    · rcases mem_update_insertPrio hw with hw | ⟨-, hw⟩
      · exact absurd hw (hdis.free w)
      · exact hw
    · exact absurd hx (hok hempty)
    · rw [hset.status, update_self]
      simp
  · obtain ⟨W', msg, hinv', hmove, hout⟩ := mboxGet_avail hinv hdis.live hdis.free hempty
    rw [hout, if_neg (by simp)] at hs
    cases hs
    have hon := taken_onRunqueue hmove hdis.onRunqueue
    have hqueue : ∀ t, QueueOk (Core.mboxGet cfg k0 b me true).1 t := by
      generalize (Core.mboxGet cfg k0 b me true).1 = k' at hmove
      cases hmove
      exact hq0
    exact ⟨W', h.exactly hP me rfl (update_eq_self ..).symm hinv' hqueue
      (fun t hne => (h.inv.bystander_dispatch hd t).trans (hmove.bystander hne))
      ⟨hon, b, htimer⟩ (iff_of_true (fun he => absurd he hempty) (inTime_of_runnable hinv' hon))⟩

theorem exact_msgReceive (h : TimeoutInv cfg s W M) (hP : NoLostTimeout s)
    (hc : s.cont me = .msgReceive) (hs : timeoutStep cfg addr s (.proceed me) = some s') :
    ∃ W', TimeoutInv cfg s' W' M ∧ (BlocksInTime s (.proceed me) ↔ NoLostTimeout s') := by
  simp only [timeoutStep, bind_eq_some_iff] at hs
  obtain ⟨k0, hd, hs⟩ := hs
  obtain ⟨hinv, hdis, hk0⟩ := h.inv.dispatch hd
  have hq0 := dispatch_queueOk hd h.queue
  have hb0 := h.inv.bystander_dispatch hd
  have hphase := h.phase me
  rw [hc] at hphase
  obtain ⟨-, hidle, htimer, hfull⟩ := hphase.bystander (hb0 me)
  rw [timeoutProceed, hc] at hs
  dsimp only at hs
  rw [BlocksInTime, hc]
  have harray : s.kernel.msgArray = k0.msgArray := by rw [hk0]
  rw [harray, ← hdis.next, ne_eq, hinv.next_null (by simp)]
  obtain ⟨W', out, hinv', hmove, hout, hcases⟩ :=
    msgReceive_cases hinv hq0 hdis.live hdis.free hidle hdis.onRunqueue
  have hb : ∀ t, t ≠ me → Bystander s.kernel (Core.msgReceive cfg k0 me true).1 W W' t :=
    fun t hne => (hb0 t).trans (hmove.bystander hq0 fun u hu => by rwa [← some.inj hu])
  have hfor := htimer.bystander hmove.schedThreads
  rw [hout] at hs
  rcases hcases with ⟨hrec, hitems, hw, hcont, hst⟩ | ⟨hrec, hsome, hon⟩
  · rw [if_pos hrec] at hs
    cases hs
    refine ⟨W', h.exactly hP me rfl (update_eq_self ..).symm hinv' (hmove.queueOk hq0) hb
      ⟨hcont, hfor⟩ ⟨fun hok => ⟨fun hx => ?_, fun hx => ?_⟩, fun hin hx => absurd hst (hin.2 hx)⟩⟩
    · rcases hfor with ⟨target, m, hset, -⟩ | hset | hset <;> rw [hset] at hx <;>
        simp [TimeoutTimer.Expired] at hx
    -- the queue is empty, so there is none
    · have hnone : k0.msgArray me = none := by
        cases harr : k0.msgArray me with
        | none => rfl
        | some msgArray => exact absurd hitems (hfull hx (by rw [harr]; rfl))
      exact absurd hw (hok hx hnone)
  · rw [if_neg hrec] at hs
    cases hs
    refine ⟨W', h.exactly hP me rfl (update_eq_self ..).symm hinv' (hmove.queueOk hq0) hb
      ⟨hon, hfor⟩ (iff_of_true (fun _ hnone => ?_) (inTime_of_runnable hinv' hon))⟩
    exact hsome.resolve_left (by rw [hnone]; simp)

theorem exact_proceed (h : TimeoutInv cfg s W M) (hP : NoLostTimeout s)
    (hstep : timeoutStep cfg addr s (.proceed me) = some s') :
    ∃ W', TimeoutInv cfg s' W' M ∧ (BlocksInTime s (.proceed me) ↔ NoLostTimeout s') := by
  have hs := hstep
  simp only [timeoutStep, bind_eq_some_iff] at hs
  obtain ⟨k0, hd, hs⟩ := hs
  obtain ⟨hinv, hdis, -⟩ := h.inv.dispatch hd
  have hq0 := dispatch_queueOk hd h.queue
  have hb0 := h.inv.bystander_dispatch hd
  have hphase := (h.phase me).bystander (hb0 me)
  -- who has been woken goes on, and waits no more
  have hback : ∀ t, t ≠ me → Bystander s.kernel
      { k0 with cont := update k0.cont me .idle } W W t := fun t hne =>
    (hb0 t).trans (.of_sched rfl (update_of_ne hne ..) rfl rfl)
  rw [timeoutProceed] at hs
  cases hc : s.cont me with
  | outside =>
    rw [hc] at hs
    exact absurd hs (by simp)
  | mboxGet b => exact exact_mboxGet h hP hc hstep
  | mboxWait b =>
    rw [hc] at hs hphase
    obtain ⟨hcont, -, htimer⟩ := hphase
    simp only [mboxResume, hcont, map_some, some.injEq] at hs
    subst hs
    rw [BlocksInTime, hc]
    exact ⟨W, h.exactly hP me rfl (update_eq_self ..).symm hinv hq0 hback
      ⟨hdis.onRunqueue, b, htimer⟩ (iff_of_true trivial (inTime_of_runnable hinv hdis.onRunqueue))⟩
  | mboxRemove =>
    rw [hc] at hs
    cases hs
    rw [BlocksInTime, hc]
    exact ⟨W, h.exactly hP me rfl rfl hinv hq0 (fun t _ => hb0 t) rfl (iff_of_true trivial inTime_unset)⟩
  | msgSet timeout =>
    rw [hc] at hs hphase
    obtain ⟨-, hidle, -⟩ := hphase
    cases hs
    rw [BlocksInTime, hc]
    refine ⟨W, h.exactly hP me rfl rfl hinv hq0 (fun t _ => hb0 t)
      ⟨hdis.onRunqueue, hidle, .inl ⟨_, _, rfl, ?_⟩, by simp⟩
      (iff_of_true trivial (inTime_of_runnable hinv hdis.onRunqueue))⟩
    rw [hdis.getpid]
    exact hdis.live
  | msgReceive => exact exact_msgReceive h hP hc hstep
  | msgWait =>
    rw [hc] at hs hphase
    obtain ⟨hcont, htimer⟩ := hphase
    simp only [msgResume, hcont, map_some, some.injEq] at hs
    subst hs
    rw [BlocksInTime, hc]
    exact ⟨W, h.exactly hP me rfl (update_eq_self ..).symm hinv hq0 hback
      ⟨hdis.onRunqueue, htimer⟩ (iff_of_true trivial (inTime_of_runnable hinv hdis.onRunqueue))⟩
  | msgRemove =>
    rw [hc] at hs
    cases hs
    rw [BlocksInTime, hc]
    exact ⟨W, h.exactly hP me rfl rfl hinv hq0 (fun t _ => hb0 t) rfl (iff_of_true trivial inTime_unset)⟩

/-! ### The interrupt -/

theorem TimeoutTimer.ForMbox.eq {target b b' : Nat} (h : timer.ForMbox b')
    (hset : timer = .set target (.mboxGet b)) : b' = b := by
  rcases h with ⟨target', hset'⟩ | hx | hx
  · rw [hset] at hset'
    simp only [TimeoutTimer.set.injEq, TimeoutCallback.mboxGet.injEq] at hset'
    exact hset'.2.symm
  · rw [hset] at hx
    exact absurd hx (by simp)
  · rw [hset] at hx
    exact absurd hx (by simp)

theorem TimeoutTimer.ForMbox.ne_msg {target b : Nat} {m : Msg} (h : timer.ForMbox b) :
    timer ≠ .set target (.msg m) := by
  rintro rfl
  rcases h with ⟨target', hset⟩ | hx | hx <;> simp_all

theorem TimeoutTimer.ForMsg.ne_mbox {target b : Nat} (h : timer.ForMsg k t) :
    timer ≠ .set target (.mboxGet b) := by
  rintro rfl
  rcases h with ⟨target', m, hset, -⟩ | hx | hx <;> simp_all

theorem Phase.readers_only {target b : Nat} (h : Phase k W timer t cont)
    (hset : timer = .set target (.mboxGet b)) (hinv : KernelInv cfg k.sched W M) {w : WaitList n}
    (hw : t ∈ W w) : w = .mboxReaders b := by
  cases cont with
  | outside => exact absurd (hset.symm.trans h) (by simp)
  | mboxGet b' => exact absurd hw (hinv.waiting.free h.1 w)
  | mboxWait b' =>
    rw [← h.2.2.eq hset]
    exact h.2.1 w hw
  | mboxRemove => exact absurd hw (hinv.waiting.free h.1 w)
  | msgSet timeout => exact absurd hw (hinv.waiting.free h.1 w)
  | msgReceive => exact absurd hw (hinv.waiting.free h.1 w)
  | msgWait => exact absurd hset h.2.ne_mbox
  | msgRemove => exact absurd hw (hinv.waiting.free h.1 w)

theorem Phase.expired {target b : Nat} {timer' : TimeoutTimer} (h : Phase k W timer t cont)
    (hset : timer = .set target (.mboxGet b)) (hx : timer'.Expired) : Phase k W timer' t cont := by
  cases cont with
  | outside => exact absurd (hset.symm.trans h) (by simp)
  | mboxGet b' => exact ⟨h.1, .inr hx⟩
  | mboxWait b' => exact ⟨h.1, h.2.1, .inr hx⟩
  | mboxRemove => exact ⟨h.1, b, .inr hx⟩
  | msgSet timeout => exact absurd (hset.symm.trans h.2.2) (by simp)
  | msgReceive => exact absurd hset h.2.2.1.ne_mbox
  | msgWait => exact absurd hset h.2.ne_mbox
  | msgRemove => exact absurd hset h.2.ne_mbox

theorem Phase.target {target : Nat} {m : Msg} (h : Phase k W timer t cont)
    (hset : timer = .set target (.msg m)) : k.sched.schedThreads m.senderPid = some t := by
  have hfor : ∀ {timer : TimeoutTimer}, timer = .set target (.msg m) → timer.ForMsg k t →
      k.sched.schedThreads m.senderPid = some t := by
    rintro timer rfl (⟨target', m', hset, hm⟩ | hx | hx)
    · simp only [TimeoutTimer.set.injEq, TimeoutCallback.msg.injEq] at hset
      rw [hset.2]
      exact hm
    · exact absurd hx (by simp)
    · exact absurd hx (by simp)
  cases cont with
  | outside => exact absurd (hset.symm.trans h) (by simp)
  | mboxGet b' => exact absurd hset h.2.ne_msg
  | mboxWait b' => exact absurd hset h.2.2.ne_msg
  | mboxRemove =>
    obtain ⟨b, hb⟩ := h.2
    exact absurd hset hb.ne_msg
  | msgSet timeout => exact absurd (hset.symm.trans h.2.2) (by simp)
  | msgReceive => exact hfor hset h.2.2.1
  | msgWait => exact hfor hset h.2
  | msgRemove => exact hfor hset h.2

/-- It stays where it is when the message is sent, or discarded for want of room. -/
theorem Phase.fired {target : Nat} {m : Msg} {timer' : TimeoutTimer} (h : Phase k W timer t cont)
    (hset : timer = .set target (.msg m))
    (hx : timer' = .sent ∨ timer' = .discarded ∧ ((k.msgArray t).isSome → queueItems k t ≠ [])) :
    Phase k W timer' t cont := by
  have hfor : timer'.ForMsg k t := .inr (hx.imp id And.left)
  cases cont with
  | outside => exact absurd (hset.symm.trans h) (by simp)
  | mboxGet b' => exact absurd hset h.2.ne_msg
  | mboxWait b' => exact absurd hset h.2.2.ne_msg
  | mboxRemove =>
    obtain ⟨b, hb⟩ := h.2
    exact absurd hset hb.ne_msg
  | msgSet timeout => exact absurd (hset.symm.trans h.2.2) (by simp)
  | msgReceive =>
    refine ⟨h.1, h.2.1, hfor, fun hd => ?_⟩
    rcases hx with hx | ⟨-, hx⟩
    · exact absurd (hx.symm.trans hd) (by simp)
    · exact hx
  | msgWait => exact ⟨h.1, hfor⟩
  | msgRemove => exact ⟨h.1, hfor⟩

theorem exact_fireMbox {target b : Nat} (h : TimeoutInv cfg s W M) (hP : NoLostTimeout s)
    (hset : s.timer me = .set target (.mboxGet b)) :
    ∃ W', TimeoutInv cfg (ztimerMboxGetTimeoutCallback cfg s me b) W' M ∧
      NoLostTimeout (ztimerMboxGetTimeoutCallback cfg s me b) := by
  have honly := fun w => (h.phase me).readers_only (w := w) hset h.inv
  unfold ztimerMboxGetTimeoutCallback
  by_cases hmem : me ∈ W (.mboxReaders b)
  · obtain ⟨hfound, hW, hfree⟩ := h.inv.waiting.remove hmem
    have hl := (h.inv.waiting.status hmem).1
    generalize listRemove s.kernel.sched.next me (listFuel n) (waitHead (.mboxReaders b)) = r at *
    obtain ⟨found, next⟩ := r
    obtain rfl := hfound
    have hsame : s.kernel.sched.SameTable
        (schedSetStatus cfg { s.kernel.sched with next := next } me .pending) :=
      (next_sameTable _ _).trans (schedSetStatus_sameTable cfg _ me .pending)
    have hb : ∀ t, Bystander s.kernel
        { s.kernel with sched := schedSetStatus cfg { s.kernel.sched with next := next } me .pending }
        W (update W (.mboxReaders b) ((W (.mboxReaders b)).erase me)) t := by
      intro t
      refine .of_status hsame rfl (fun w hw => ?_) ?_ rfl rfl
      · by_cases hwb : w = .mboxReaders b
        · rw [hwb, update_self] at hw
          exact hwb ▸ List.mem_of_mem_erase hw
        · rwa [update_of_ne hwb] at hw
      · have hs : StatusSet s.kernel.sched
            (schedSetStatus cfg { s.kernel.sched with next := next } me .pending) me .pending :=
          ⟨hsame, by simp, by simp⟩
        exact hs.pending_cases t
    refine ⟨_, h.timely hP me (update_eq_self ..).symm rfl
      (h.inv.of_sameTable hsame (hW.wake hl rfl hfree) h.inv.unmarked)
      (fun t => (h.queue t).congr rfl rfl) (fun t _ => hb t)
      (((h.phase me).bystander (hb me)).expired hset (.inl rfl))
      ⟨fun _ b' => hfree (.mboxReaders b'), by simp⟩⟩
  -- not among the readers
  · rw [h.inv.waiting.remove_missing hmem (h.inv.not_marked (by simp))]
    refine ⟨W, h.timely hP me (update_eq_self ..).symm rfl h.inv h.queue
      (fun t _ => .refl) ((h.phase me).expired hset (.inr rfl)) ⟨fun _ b' hw => ?_, by simp⟩⟩
    have := honly _ hw
    exact hmem (this ▸ hw)

theorem msgSendInt_failed {m : Msg} {ret : Int} {pid : Nat} (hq : QueueOk k t)
    (ht : k.sched.schedThreads pid = some t) (hout : (msgSendInt cfg k m pid).2 = .failed ret) :
    (msgSendInt cfg k m pid).1 = k ∧ k.sched.status t ≠ .receiveBlocked ∧
      ((k.msgArray t).isSome → queueItems k t ≠ []) := by
  unfold msgSendInt msgSendOneway at *
  rw [ht] at hout ⊢
  dsimp only at hout ⊢
  split at hout
  · exact absurd hout (by simp)
  · rename_i hst
    rw [if_neg hst]
    rcases queueMsg_cases k t { m with senderPid := cfg.kernelPidIsr } with
      ⟨hnone, hput⟩ | ⟨i, cib, hput, hsome⟩
    · rw [hnone]
      exact ⟨rfl, hst, hq.full hput⟩
    · rw [hsome] at hout
      exact absurd hout (by simp)

theorem exact_fireMsg {target : Nat} {m : Msg} (h : TimeoutInv cfg s W M) (hP : NoLostTimeout s)
    (hset : s.timer me = .set target (.msg m)) :
    ∃ W', TimeoutInv cfg (callbackMsg cfg s me m) W' M ∧ NoLostTimeout (callbackMsg cfg s me m) := by
  have htarget := (h.phase me).target hset
  obtain ⟨W', hinv', hmove⟩ := msgSendInt_moves h.inv m m.senderPid
  have hb : ∀ t, Bystander s.kernel (msgSendInt cfg s.kernel m m.senderPid).1 W W' t :=
    fun t => hmove.bystander h.queue (by simp)
  have hphase := (h.phase me).bystander (hb me)
  unfold callbackMsg
  split
  · rename_i kernel ret hsend
    have hout : (msgSendInt cfg s.kernel m m.senderPid).2 = .failed ret := by rw [hsend]
    obtain ⟨hk, hst, hfull⟩ := msgSendInt_failed (h.queue me) htarget hout
    obtain rfl : kernel = s.kernel := by rw [← hk, hsend]
    rw [hk] at hb hinv' hphase
    exact ⟨W', h.timely hP me (update_eq_self ..).symm rfl hinv' h.queue (fun t _ => hb t)
      (hphase.fired hset (.inr ⟨rfl, hfull⟩))
      ⟨fun hx => by simp [TimeoutTimer.Expired] at hx, fun _ => hst⟩⟩
  · rename_i kernel out _ hsend
    have hkernel : (msgSendInt cfg s.kernel m m.senderPid).1 = kernel := by rw [hsend]
    rw [hkernel] at hb hinv' hphase hmove
    exact ⟨W', h.timely hP me (update_eq_self ..).symm rfl hinv' (hmove.queueOk h.queue)
      (fun t _ => hb t) (hphase.fired hset (.inl rfl))
      ⟨fun hx => by simp [TimeoutTimer.Expired] at hx, by simp⟩⟩

/-- **One step, exactly.** -/
theorem timeoutStep_exact {e : TimeoutEvent n} (h : TimeoutInv cfg s W M) (hP : NoLostTimeout s)
    (hs : timeoutStep cfg addr s e = some s') :
    ∃ W', TimeoutInv cfg s' W' M ∧ (BlocksInTime s e ↔ NoLostTimeout s') := by
  have hkept : (∃ W', TimeoutInv cfg s' W' M ∧ NoLostTimeout s') →
      ∃ W', TimeoutInv cfg s' W' M ∧ (True ↔ NoLostTimeout s') :=
    fun ⟨W', h', hP'⟩ => ⟨W', h', iff_of_true trivial hP'⟩
  cases e with
  | mbox e => exact hkept (exact_mbox h hP hs)
  | msg e => exact hkept (exact_msg h hP hs)
  | mboxGetTimeout me b timeout => exact hkept (exact_mboxGetTimeout h hP hs)
  | msgReceiveTimeout me timeout => exact hkept (exact_msgReceiveTimeout h hP hs)
  | proceed me => exact exact_proceed h hP hs
  | fire me =>
    refine hkept ?_
    unfold timeoutStep at hs
    dsimp only at hs
    split at hs
    · rename_i target callback hset
      split at hs
      · cases callback with
        | mboxGet b =>
          cases hs
          exact exact_fireMbox h hP hset
        | msg m =>
          cases hs
          exact exact_fireMsg h hP hset
      · exact absurd hs (by simp)
    · exact absurd hs (by simp)
  | advance ticks =>
    cases hs
    exact hkept ⟨W, ⟨h.inv, h.queue, h.phase⟩, ⟨hP.mboxGet, hP.msgReceive⟩⟩

/-! ## Runs -/

theorem TimeoutStart.inv (h : TimeoutStart cfg s) :
    TimeoutInv cfg s (fun _ => []) (fun _ => False) ∧ NoLostTimeout s := by
  have hinv : TimeoutInv cfg s (fun _ => []) (fun _ => False) :=
    ⟨h.booted.inv, fun t => (h.queue t).queueOk, fun t => by rw [h.outside t]; exact h.unset t⟩
  refine ⟨hinv, hinv.timely_iff.mpr fun t => ?_⟩
  rw [h.unset t]
  exact inTime_unset

/-- **No timeout is lost, exactly when nobody sets out to wait after its timer has
expired**: over whole runs, for all timeouts and at every moment of the interrupts. -/
theorem noLostTimeout_iff (cfg : Cfg) (addr : Fin n → Nat) (s : TimeoutSys n)
    (es : List (TimeoutEvent n)) (hs : TimeoutStart cfg s) :
    Along (timeoutStep cfg addr) BlocksInTime s es ↔
      Always (timeoutStep cfg addr) NoLostTimeout s es :=
  along_iff_always (I := fun s => ∃ W M, TimeoutInv cfg s W M)
    (fun _ _ _ ⟨_, _, h⟩ hP hs => (timeoutStep_exact h hP hs).choose_spec.2)
    (fun _ _ _ ⟨_, M, h⟩ hP _ hs => ⟨_, M, (timeoutStep_exact h hP hs).choose_spec.1⟩) es
    ⟨_, _, hs.inv.1⟩ hs.inv.2

/-- A thread and its clock; `queue` is the size of its message queue. -/
def timeoutStart (queue : BitVec 32) : TimeoutSys 1 where
  kernel := Kernel.init (bootWith clzCfg ![7]) (fun _ => 1) fun _ => queue
  now := 0
  cont := fun _ => .outside
  timer := fun _ => .unset
  status := fun _ => 0
  ret := fun _ => 0

attribute [local instance] neZero_one

/-- The timer interrupt comes at once. -/
def expiredMboxGet : List (TimeoutEvent 1) := [.mboxGetTimeout 0 0 0, .fire 0, .proceed 0]

def expiredMsgReceive : List (TimeoutEvent 1) :=
  [.msgReceiveTimeout 0 0, .proceed 0, .fire 0, .proceed 0]

theorem timeoutStart_start : TimeoutStart clzCfg (timeoutStart 0) :=
  ⟨booted_bootWith clzCfg ![7], fun _ => .inl ⟨rfl, rfl⟩, fun _ => rfl, fun _ => rfl⟩

/-- A timeout that ends the wait for a mailbox. -/
theorem noLostTimeout_iff_waiting : Always (timeoutStep clzCfg fun _ => 0) NoLostTimeout (timeoutStart 0)
    [.mboxGetTimeout 0 0 5, .proceed 0, .advance 5, .fire 0, .proceed 0, .proceed 0] :=
  (noLostTimeout_iff clzCfg _ _ _ timeoutStart_start).mp (by decide)

/-- With a timeout of 0 a thread waits for good, for a mailbox or for a message. -/
theorem not_noLostTimeout : TimeoutStart clzCfg (timeoutStart 0) ∧
    (∃ s, run (timeoutStep clzCfg fun _ => 0) (timeoutStart 0) expiredMboxGet = some s ∧
      ¬ NoLostTimeout s) ∧
    ∃ s, run (timeoutStep clzCfg fun _ => 0) (timeoutStart 0) expiredMsgReceive = some s ∧
      ¬ NoLostTimeout s := by
  refine ⟨timeoutStart_start, ?_, ?_⟩
  · have hend : (run (timeoutStep clzCfg fun _ => 0) (timeoutStart 0) expiredMboxGet).any (fun s =>
        decide ((s.timer 0).Expired ∧ 0 ∈ waitersOf s.kernel.sched (.mboxReaders 0))) = true := by
      decide
    obtain ⟨s, hs, hlost⟩ := (Option.any_eq_true _ _).mp hend
    have hlost := of_decide_eq_true hlost
    exact ⟨s, hs, fun h => h.mboxGet 0 hlost.1 0 hlost.2⟩
  · have hend : (run (timeoutStep clzCfg fun _ => 0) (timeoutStart 0) expiredMsgReceive).any (fun s =>
        decide (s.timer 0 = .discarded ∧ s.kernel.sched.status 0 = .receiveBlocked)) = true := by
      decide
    obtain ⟨s, hs, hlost⟩ := (Option.any_eq_true _ _).mp hend
    have hlost := of_decide_eq_true hlost
    exact ⟨s, hs, fun h => h.msgReceive 0 hlost.1 hlost.2⟩

end Riot.Ztimer
