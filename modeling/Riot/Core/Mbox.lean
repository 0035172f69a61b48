import Riot.Core.Kernel

/-!
# Mailboxes

`core/mbox.c`. `_mbox_put` and `_mbox_get` are cut at the point where `_wait`
blocks the caller: what follows is a step of its own, taken when the thread runs
again. For `_mbox_put` that is the loop test, once more; for `_mbox_get` there is
nothing left to do, the sender has copied the message.
-/

namespace Riot.Core

open Function

variable {n : Nat}

/-- How a section of `_mbox_put` or `_mbox_get` ends. -/
inductive MboxOut (n : Nat) where
  /-- the caller waits -/
  | blocked
  /-- 0 is returned -/
  | failed
  /-- a put returns 1, the message went to a waiting reader -/
  | handed (b : Nat) (msg : Msg) (reader : Fin n)
  /-- a put returns 1, the message went into the queue -/
  | queued (b : Nat) (msg : Msg)
  /-- a get returns 1 with a message from the queue -/
  | taken (b : Nat) (msg : Msg)
  /-- a get that waited returns 1 -/
  | delivered (b : Nat) (msg : Msg)
  deriving DecidableEq

/-- The return value, if the function returns. -/
def MboxOut.ret : MboxOut n → Option Int
  | .blocked => none
  | .failed => some 0
  | _ => some 1

/-- `_wake_waiter` of the thread just taken off `list` -/
def mboxWakeWaiter (cfg : Cfg) (k : Kernel n) (w : WaitList n) (thread : Fin n) : Kernel n :=
  { k with
    sched := schedSetStatus cfg
      { k.sched with next := (listRemoveHead k.sched.next (waitHead w)).2 } thread .pending }

/-- `_wait` -/
def mboxWait (cfg : Cfg) (k : Kernel n) (w : WaitList n) (me : Fin n) (c : Cont) : Kernel n :=
  { k with
    sched := threadAddToList (schedSetStatus cfg k.sched me .mboxBlocked) (waitHead w) me
    cont := update k.cont me c }

/-- `_mbox_put` from the loop on. -/
def mboxPutLoop (cfg : Cfg) (k : Kernel n) (b : Nat) (me : Fin n) (blocking : Bool) :
    Kernel n × MboxOut n :=
  if cibFull (k.mbox b).cib then
    if blocking then
      (mboxWait cfg k (.mboxWriters b) me (.mboxPut b), .blocked)
    else
      (k, .failed)
  else
    let msg := { k.waitData me with senderPid := k.sched.schedActivePid }
    let slot := cibPutUnsafe (k.mbox b).cib
    ({ k with
        waitData := update k.waitData me msg
        mbox := update k.mbox b
          { cib := slot.2, msgArray := update (k.mbox b).msgArray slot.1 msg } },
      .queued b (k.waitData me))

def mboxPut (cfg : Cfg) (k : Kernel n) (b : Nat) (me : Fin n) (blocking : Bool) :
    Kernel n × MboxOut n :=
  match (listRemoveHead k.sched.next (waitHead (.mboxReaders b))).1 with
  | .ref thread =>
    (mboxWakeWaiter cfg
        { k with waitData := update k.waitData thread (k.waitData me) }
        (.mboxReaders b) thread,
      .handed b (k.waitData me) thread)
  | _ => mboxPutLoop cfg k b me blocking

def mboxGet (cfg : Cfg) (k : Kernel n) (b : Nat) (me : Fin n) (blocking : Bool) :
    Kernel n × MboxOut n :=
  if cibAvail (k.mbox b).cib ≠ 0 then
    let slot := cibGetUnsafe (k.mbox b).cib
    let msg := (k.mbox b).msgArray slot.1
    let k :=
      { k with
        waitData := update k.waitData me msg
        mbox := update k.mbox b { k.mbox b with cib := slot.2 } }
    match (listRemoveHead k.sched.next (waitHead (.mboxWriters b))).1 with
    | .ref thread => (mboxWakeWaiter cfg k (.mboxWriters b) thread, .taken b msg)
    | _ => (k, .taken b msg)
  else if blocking then
    (mboxWait cfg k (.mboxReaders b) me (.mboxGet b), .blocked)
  else
    (k, .failed)

/-- A call of one of the two functions; `msg` is the message object passed. -/
inductive MboxCall where
  | put (b : Nat) (msg : Msg) (blocking : Bool)
  | get (b : Nat) (blocking : Bool)
  deriving DecidableEq

/-- The first section of a call. -/
def mboxCall (cfg : Cfg) (k : Kernel n) (me : Fin n) : MboxCall → Kernel n × MboxOut n
  | .put b msg blocking =>
    mboxPut cfg { k with waitData := update k.waitData me msg } b me blocking
  | .get b blocking => mboxGet cfg k b me blocking

/-- What a thread does that was woken in `_wait`. -/
def mboxResume (cfg : Cfg) (k : Kernel n) (me : Fin n) : Option (Kernel n × MboxOut n) :=
  let k' := { k with cont := update k.cont me .idle }
  match k.cont me with
  | .mboxPut b => some (mboxPutLoop cfg k' b me true)
  | .mboxGet b => some (k', .delivered b (k.waitData me))
  | _ => none

/-- Threads call the mailbox functions and continue when they have been woken. -/
inductive MboxEvent (n : Nat) where
  | call (me : Fin n) (c : MboxCall)
  | resume (me : Fin n)
  deriving DecidableEq

/-- One section of one thread. -/
def mboxStep (cfg : Cfg) (k : Kernel n) : MboxEvent n → Option (Kernel n × MboxOut n)
  | .call me c =>
    (dispatch k me).bind fun k => if k.cont me = .idle then some (mboxCall cfg k me c) else none
  | .resume me => (dispatch k me).bind fun k => mboxResume cfg k me

/-! ## What a section can do -/

variable {cfg : Cfg} {k : Kernel n} {W : WaitList n → List (Fin n)} {M : WaitList n → Prop}
  {me : Fin n}

/-- The moves of the mailbox code. `k` is the state in which the thread `me` has
passed its arguments, `W` who waits where. -/
inductive MboxMove (k : Kernel n) (W : WaitList n → List (Fin n)) (me : Fin n) :
    MboxOut n → Kernel n → (WaitList n → List (Fin n)) → Prop where
  | failed : MboxMove k W me .failed k W
  | delivered (b : Nat) : MboxMove k W me (.delivered b (k.waitData me)) k W
  | blockedPut {b : Nat} {s : Sched n} (hfull : cibFull (k.mbox b).cib = true)
      (hs : StatusSet k.sched s me .mboxBlocked) :
      MboxMove k W me .blocked
        { k with sched := s, cont := update k.cont me (.mboxPut b) }
        (update W (.mboxWriters b)
          (insertPrio k.sched.priority me (W (.mboxWriters b))))
  | blockedGet {b : Nat} {s : Sched n} (hempty : cibAvail (k.mbox b).cib = 0)
      (hs : StatusSet k.sched s me .mboxBlocked) :
      MboxMove k W me .blocked
        { k with sched := s, cont := update k.cont me (.mboxGet b) }
        (update W (.mboxReaders b)
          (insertPrio k.sched.priority me (W (.mboxReaders b))))
  | handed {b : Nat} {s : Sched n} {t : Fin n} {ts : List (Fin n)}
      (hw : W (.mboxReaders b) = t :: ts) (hs : StatusSet k.sched s t .pending) :
      MboxMove k W me (.handed b (k.waitData me) t)
        { k with sched := s, waitData := update k.waitData t (k.waitData me) }
        (update W (.mboxReaders b) ts)
  | queued {b : Nat} (hroom : cibFull (k.mbox b).cib = false) {msg : Msg}
      (hmsg : msg = { k.waitData me with senderPid := k.sched.schedActivePid }) :
      MboxMove k W me (.queued b (k.waitData me))
        { k with
          waitData := update k.waitData me msg
          mbox := update k.mbox b
            { cib := (cibPutUnsafe (k.mbox b).cib).2
              msgArray :=
                update (k.mbox b).msgArray (cibPutUnsafe (k.mbox b).cib).1 msg } }
        W
  | taken {b : Nat} {s : Sched n} {W' : WaitList n → List (Fin n)} {msg : Msg}
      (havail : cibAvail (k.mbox b).cib ≠ 0)
      (hmsg : msg = (k.mbox b).msgArray (cibGetUnsafe (k.mbox b).cib).1)
      (hw : W (.mboxWriters b) = [] ∧ s = k.sched ∧ W' = W ∨
        ∃ t ts, W (.mboxWriters b) = t :: ts ∧ StatusSet k.sched s t .pending ∧
          W' = update W (.mboxWriters b) ts) :
      MboxMove k W me (.taken b msg)
        { k with
          sched := s
          waitData := update k.waitData me msg
          mbox := update k.mbox b
            { k.mbox b with cib := (cibGetUnsafe (k.mbox b).cib).2 } }
        W'

theorem mboxPutLoop_move (b : Nat) (blocking : Bool) (h : KernelInv cfg k.sched W M)
    (hl : k.sched.Live me) (hfree : Free W me) :
    ∃ W', KernelInv cfg (mboxPutLoop cfg k b me blocking).1.sched W' M ∧
      MboxMove k W me (mboxPutLoop cfg k b me blocking).2 (mboxPutLoop cfg k b me blocking).1 W' := by
  unfold mboxPutLoop
  cases hfull : cibFull (k.mbox b).cib with
  | false => exact ⟨W, h, .queued hfull rfl⟩
  | true =>
    cases blocking with
    | false => exact ⟨W, h, .failed⟩
    | true =>
      obtain ⟨hinv, hset⟩ := h.blockIn (.mboxWriters b) .mboxBlocked hl hfree rfl (h.not_marked (by simp))
      exact ⟨_, hinv, .blockedPut hfull hset⟩

theorem mboxPut_move (b : Nat) (blocking : Bool) (h : KernelInv cfg k.sched W M)
    (hl : k.sched.Live me) (hfree : Free W me) :
    ∃ W', KernelInv cfg (mboxPut cfg k b me blocking).1.sched W' M ∧
      MboxMove k W me (mboxPut cfg k b me blocking).2 (mboxPut cfg k b me blocking).1 W' := by
  unfold mboxPut
  rcases h.removeHead_cases (w := .mboxReaders b) (by simp) with ⟨t, ts, hw, hhead⟩ | ⟨hw, hhead⟩
  · rw [hhead]
    obtain ⟨hinv, hset⟩ := h.wakeFirst hw
    exact ⟨_, hinv, .handed hw hset⟩
  · rw [hhead]
    exact mboxPutLoop_move b blocking h hl hfree

theorem mboxGet_move (b : Nat) (blocking : Bool) (h : KernelInv cfg k.sched W M)
    (hl : k.sched.Live me) (hfree : Free W me) :
    ∃ W', KernelInv cfg (mboxGet cfg k b me blocking).1.sched W' M ∧
      MboxMove k W me (mboxGet cfg k b me blocking).2 (mboxGet cfg k b me blocking).1 W' := by
  unfold mboxGet
  by_cases havail : cibAvail (k.mbox b).cib ≠ 0
  · rw [if_pos havail]
    dsimp only
    rcases h.removeHead_cases (w := .mboxWriters b) (by simp) with ⟨t, ts, hw, hhead⟩ | ⟨hw, hhead⟩
    · rw [hhead]
      obtain ⟨hinv, hset⟩ := h.wakeFirst hw
      exact ⟨_, hinv, .taken havail rfl (.inr ⟨t, ts, hw, hset, rfl⟩)⟩
    · rw [hhead]
      exact ⟨W, h, .taken havail rfl (.inl ⟨hw, rfl, rfl⟩)⟩
  · rw [if_neg havail]
    cases blocking with
    | false => exact ⟨W, h, .failed⟩
    | true =>
      obtain ⟨hinv, hset⟩ := h.blockIn (.mboxReaders b) .mboxBlocked hl hfree rfl (h.not_marked (by simp))
      exact ⟨_, hinv, .blockedGet (by simpa using havail) hset⟩

/-! ## What a step can do -/

/-- The thread that takes the step. -/
def MboxEvent.thread : MboxEvent n → Fin n
  | .call me _ => me
  | .resume me => me

/-- The state in which a section starts: the thread has passed its message, or is
back from `_wait`. -/
def MboxEvent.enter (k : Kernel n) : MboxEvent n → Kernel n
  | .call me (.put _ msg _) => { k with waitData := update k.waitData me msg }
  | .call _ (.get _ _) => k
  | .resume me => { k with cont := update k.cont me .idle }

/-- How outcomes and events belong together. -/
def MboxEvent.Yields (k : Kernel n) (W : WaitList n → List (Fin n)) :
    MboxEvent n → MboxOut n → Prop
  | .call me (.put b msg _), out =>
    k.cont me = .idle ∧
      (W (.mboxReaders b) ≠ [] ∧ (∃ t, out = .handed b msg t) ∨
        W (.mboxReaders b) = [] ∧ (out = .blocked ∨ out = .failed ∨ out = .queued b msg))
  | .call me (.get b _), out =>
    k.cont me = .idle ∧ (out = .blocked ∨ out = .failed ∨ ∃ msg, out = .taken b msg)
  | .resume me, out =>
    (∃ b, k.cont me = .mboxPut b ∧
      (cibFull (k.mbox b).cib = true ∧ out = .blocked ∨
        cibFull (k.mbox b).cib = false ∧ out = .queued b (k.waitData me))) ∨
      ∃ b, k.cont me = .mboxGet b ∧ out = .delivered b (k.waitData me)

@[simp] theorem MboxEvent.enter_sched (e : MboxEvent n) (k : Kernel n) : (e.enter k).sched = k.sched := by
  cases e with
  | call me c => cases c <;> rfl
  | resume me => rfl

@[simp] theorem MboxEvent.enter_mbox (e : MboxEvent n) (k : Kernel n) : (e.enter k).mbox = k.mbox := by
  cases e with
  | call me c => cases c <;> rfl
  | resume me => rfl

theorem mboxPutLoop_out (cfg : Cfg) (k : Kernel n) (b : Nat) (me : Fin n) (blocking : Bool) :
    (mboxPutLoop cfg k b me blocking).2 = .blocked ∧ cibFull (k.mbox b).cib = true ∨
      (mboxPutLoop cfg k b me blocking).2 = .failed ∧ blocking = false ∨
      (mboxPutLoop cfg k b me blocking).2 = .queued b (k.waitData me) ∧ cibFull (k.mbox b).cib = false := by
  unfold mboxPutLoop
  cases hfull : cibFull (k.mbox b).cib with
  | false => simp
  | true => cases blocking <;> simp

theorem mboxPut_out (b : Nat) (blocking : Bool) (h : KernelInv cfg k.sched W M) : W (.mboxReaders b) ≠ [] ∧
        (∃ t, (mboxPut cfg k b me blocking).2 = .handed b (k.waitData me) t) ∨
      W (.mboxReaders b) = [] ∧
        ((mboxPut cfg k b me blocking).2 = .blocked ∨ (mboxPut cfg k b me blocking).2 = .failed ∨
          (mboxPut cfg k b me blocking).2 = .queued b (k.waitData me)) := by
  unfold mboxPut
  rcases h.removeHead_cases (w := .mboxReaders b) (by simp) with ⟨t, ts, hw, hhead⟩ | ⟨hw, hhead⟩
  · rw [hhead]
    exact .inl ⟨by rw [hw]; simp, t, rfl⟩
  · rw [hhead]
    refine .inr ⟨hw, ?_⟩
    rcases mboxPutLoop_out cfg k b me blocking with
      ⟨ho, _⟩ | ⟨ho, _⟩ | ⟨ho, _⟩ <;> simp [ho]

theorem mboxGet_out {b : Nat} {blocking : Bool} :
    (mboxGet cfg k b me blocking).2 = .blocked ∨ (mboxGet cfg k b me blocking).2 = .failed ∨
      ∃ msg, (mboxGet cfg k b me blocking).2 = .taken b msg := by
  unfold mboxGet
  split
  · dsimp only
    split <;> exact .inr (.inr ⟨_, rfl⟩)
  · cases blocking <;> simp

/-- **Every step is a dispatch and one move.** -/
theorem mboxStep_move {k' : Kernel n} {e : MboxEvent n} {out : MboxOut n}
    (h : KernelInv cfg k.sched W M) (hs : mboxStep cfg k e = some (k', out)) :
    ∃ k0 W', dispatch k e.thread = some k0 ∧ KernelInv cfg k'.sched W' M ∧
      MboxMove (e.enter k0) W e.thread out k' W' ∧ e.Yields k W out := by
  cases e with
  | call me c =>
    obtain ⟨k0, hd, hs⟩ := Option.bind_eq_some_iff.mp hs
    obtain ⟨hinv, hdis, hk0⟩ := h.dispatch hd
    simp only [Option.ite_none_right_eq_some, Option.some.injEq] at hs
    obtain ⟨hidle, hs⟩ := hs
    have hidle : k.cont me = .idle := by
      rw [hk0] at hidle
      exact hidle
    cases c with
    | put b msg blocking =>
      obtain ⟨W', hinv', hmove⟩ := mboxPut_move b blocking
        (k := { k0 with waitData := update k0.waitData me msg }) hinv hdis.live hdis.free
      have hout := @mboxPut_out _ cfg { k0 with waitData := update k0.waitData me msg } _
        _ me b blocking hinv
      simp only [update_self] at hout
      rw [Prod.ext_iff] at hs
      obtain ⟨rfl, rfl⟩ := hs
      exact ⟨k0, W', hd, hinv', hmove, hidle, hout⟩
    | get b blocking =>
      obtain ⟨W', hinv', hmove⟩ := mboxGet_move b blocking hinv hdis.live hdis.free
      rw [Prod.ext_iff] at hs
      obtain ⟨rfl, rfl⟩ := hs
      exact ⟨k0, W', hd, hinv', hmove, hidle, mboxGet_out⟩
  | resume me =>
    obtain ⟨k0, hd, hs⟩ := Option.bind_eq_some_iff.mp hs
    obtain ⟨hinv, hdis, hk0⟩ := h.dispatch hd
    have hcont : k0.cont = k.cont := by rw [hk0]
    have hdata : k0.waitData = k.waitData := by rw [hk0]
    have hmbox : k0.mbox = k.mbox := by rw [hk0]
    unfold mboxResume at hs
    split at hs
    · rename_i b hc
      obtain ⟨W', hinv', hmove⟩ := mboxPutLoop_move b true
        (k := { k0 with cont := update k0.cont me .idle }) hinv hdis.live hdis.free
      simp only [Option.some.injEq, Prod.ext_iff] at hs
      obtain ⟨rfl, rfl⟩ := hs
      refine ⟨k0, W', hd, hinv', hmove, .inl ⟨b, hcont ▸ hc, ?_⟩⟩
      rcases mboxPutLoop_out cfg { k0 with cont := update k0.cont me .idle } b me true
        with
        ⟨ho, hfull⟩ | ⟨_, hb⟩ | ⟨ho, hroom⟩
      · exact .inl ⟨hmbox ▸ hfull, ho⟩
      · exact absurd hb (by simp)
      · exact .inr ⟨hmbox ▸ hroom, hdata ▸ ho⟩
    · rename_i b hc
      obtain ⟨rfl, rfl⟩ := hs
      exact ⟨k0, W, hd, hinv, .delivered b, .inr ⟨b, hcont ▸ hc, by rw [hdata]⟩⟩
    · exact absurd hs (by simp)

end Riot.Core
