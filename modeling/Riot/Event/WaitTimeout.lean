import Riot.Event.Event
import Riot.Lib.Runs

/-!
# Waiting with a timeout

`event_wait_timeout` and `event_wait_timeout_ztimer`, with the contexts that post and cancel and
with the interrupt of the timer between any two steps. The list of the queue stands for its links.
One wait takes the flags of the events and of the timeout together.
-/

namespace Riot.Event

open Riot.Core Riot.Lib Nat Option

def threadFlagTimeout : BitVec 16 := 0x4000

/-- What `_wait_timeout` waits for. -/
def waitMask : BitVec 16 := threadFlagEvent ||| threadFlagTimeout

variable {E : Type}

/-- Where the waiter is: outside of the call; at the setting of the timer; in `_wait_timeout`, at
`event_get`, with the flags of the wait before, in it with the event popped, in front of
`thread_flags_wait_any`, and inside; and at the removal of the timer. -/
inductive WaitPc (E : Type) where
  | out (result : Option E)
  | arm
  | get (flags : BitVec 16)
  | reset (event : E)
  | wait
  | clear
  | remove (event : E)
  deriving DecidableEq

/-- `posting` counts the contexts in `event_post` with the flag still to be set; `fired` says that
the timer of the call has set its flag. -/
structure WaitWorld (E : Type) where
  queue : List E
  waiter : FlagThread
  posting : Nat
  armed : Bool
  fired : Bool
  pc : WaitPc E

inductive WaitAction (E : Type) where
  | post (event : E)
  | postFlag
  | cancel (event : E)
  | setFlags (mask : BitVec 16)
  | timeout
  | call
  | go
  deriving DecidableEq

variable [DecidableEq E]

/-- The next step of the waiter. -/
def WaitWorld.go (w : WaitWorld E) : Option (WaitWorld E) :=
  match w.pc with
  | .out _ => none
  | .arm => some { w with armed := true, pc := .get 0 }
  | .get _ =>
    match w.queue with
    | event :: queue => some { w with queue := queue, pc := .reset event }
    | [] => some { w with pc := .wait }
  | .reset event => some { w with pc := .remove event }
  | .wait => some { w with waiter := threadFlagsWaitAny w.waiter waitMask, pc := .clear }
  | .clear =>
    if w.waiter.status = .flagBlockedAny then none
    else
      let (flags, waiter) := threadFlagsClearAtomic w.waiter waitMask
      -- while ((result == NULL) && (flags & THREAD_FLAG_EVENT))
      some { w with
        waiter := waiter
        pc := if flags &&& threadFlagEvent ≠ 0 then .get flags else .out none }
  | .remove event => some { w with armed := false, pc := .out (some event) }

def WaitWorld.step (w : WaitWorld E) : WaitAction E → Option (WaitWorld E)
  | .post event =>
    -- an event that is queued, or popped and still marked as queued, is not linked again
    if event ∈ w.queue ∨ w.pc = .reset event then some { w with posting := w.posting + 1 }
    else some { w with queue := w.queue ++ [event], posting := w.posting + 1 }
  | .postFlag =>
    if w.posting = 0 then none
    else some { w with
      waiter := threadFlagsSet w.waiter threadFlagEvent, posting := w.posting - 1 }
  | .cancel event => some { w with queue := w.queue.erase event }
  | .setFlags mask => some { w with waiter := threadFlagsSet w.waiter mask }
  | .timeout =>
    if w.armed then
      some { w with
        waiter := threadFlagsSet w.waiter threadFlagTimeout, armed := false, fired := true }
    else none
  | .call =>
    match w.pc with
    | .out _ =>
      some { w with
        waiter := (threadFlagsClearAtomic w.waiter threadFlagTimeout).2
        armed := false
        fired := false
        pc := .arm }
    | _ => none
  | .go => w.go

/-- A running waiter with any flags and any events. -/
def WaitWorld.init (queue : List E) (flags : BitVec 16) : WaitWorld E where
  queue := queue
  waiter := ⟨flags, 0, .pending⟩
  posting := 0
  armed := false
  fired := false
  pc := .out none

/-- The steps of the waiter up to the end of the call, from where the timer has fired. -/
def WaitPc.left : WaitPc E → Nat
  | .out _ => 0
  | .remove _ => 1
  | .reset _ => 2
  | .get flags => if flags &&& threadFlagTimeout = 0 then 6 else 3
  | .clear => 4
  | .wait => 5
  | .arm => 7

/-- **The call returns.** Once the timer has fired the waiter is not blocked, -/
def Awake (w : WaitWorld E) : Prop :=
  w.fired = true → w.pc.left ≠ 0 → (w.step .go).isSome = true

/-- and each of its steps brings it nearer to the end of the call, whatever the others do. -/
def Nearer (w : WaitWorld E) (e : WaitAction E) : Prop :=
  w.fired = true → e ≠ .call → ∀ w', w.step e = some w' →
    w'.pc.left + (if e = .go then 1 else 0) ≤ w.pc.left

/-- No `event_get` finds the queue empty behind a wait that took the flag of the timeout along with
that of the events. -/
def NotBothFlags (w : WaitWorld E) (e : WaitAction E) : Prop :=
  e = .go → w.queue = [] → ∀ flags, w.pc = .get flags → flags &&& threadFlagTimeout = 0

/-! ## The invariant -/

/-- The flag of the timer is pending until a wait takes it, and the waiter sleeps only while no flag
is pending. -/
structure WaitInv (w : WaitWorld E) : Prop where
  arming : w.pc = .arm → w.armed = false ∧ w.fired = false
  pending : w.fired = true → w.pc.left ≤ 3 ∨ w.waiter.flags &&& threadFlagTimeout ≠ 0
  asleep : w.waiter.status = .flagBlockedAny →
    w.pc = .clear ∧ w.waiter.waitData = waitMask ∧ w.waiter.flags &&& waitMask = 0

variable {w w' : WaitWorld E} {e : WaitAction E} {flags mask : BitVec 16}

theorem waitMask_and : waitMask &&& flags &&& threadFlagTimeout = flags &&& threadFlagTimeout := by
  have hmask : threadFlagTimeout &&& waitMask = threadFlagTimeout := rfl
  rw [BitVec.and_comm, ← BitVec.and_assoc, hmask, BitVec.and_comm]

theorem timeout_of_mask (h : flags &&& waitMask = 0) : flags &&& threadFlagTimeout = 0 := by
  rw [← waitMask_and, BitVec.and_comm waitMask, h]
  rfl

omit [DecidableEq E] in
theorem WaitInv.set (h : WaitInv w) {queue : List E} {posting : Nat} {armed fired : Bool}
    (harmed : w.pc = .arm → armed = false ∧ fired = false)
    (hfired : fired = true → w.fired = true ∨ mask = threadFlagTimeout) :
    WaitInv { w with
      queue := queue
      waiter := threadFlagsSet w.waiter mask
      posting := posting
      armed := armed
      fired := fired } where
  arming := harmed
  pending hf := by
    refine or_iff_not_imp_left.mpr fun hleft hzero => ?_
    rw [threadFlagsSet_flags] at hzero
    obtain ⟨hbefore, hmask⟩ := or_and_eq_zero.mp hzero
    rcases hfired hf with hf | rfl
    · exact (h.pending hf).elim hleft fun hne => hne hbefore
    · exact absurd hmask (by decide)
  asleep hblocked := by
    obtain ⟨hbefore, hzero⟩ := threadFlagsSet_blocked hblocked
    obtain ⟨hpc, hdata, -⟩ := h.asleep hbefore
    rw [threadFlagsSet_waitData, threadFlagsSet_flags]
    exact ⟨hpc, hdata, hdata ▸ hzero⟩

theorem WaitInv.awake (h : WaitInv w) : Awake w := by
  intro hfired hleft
  unfold WaitWorld.step WaitWorld.go
  dsimp only
  split
  case h_1 hpc =>
    rw [hpc] at hleft
    exact absurd rfl hleft
  case h_6 hpc =>
    -- a blocked waiter has no flag pending, and has not taken that of the timer yet
    have hawake : w.waiter.status ≠ .flagBlockedAny := by
      intro hblocked
      rcases h.pending hfired with hle | hne
      · rw [hpc] at hle
        exact absurd hle (by decide : ¬4 ≤ 3)
      · exact hne (timeout_of_mask (h.asleep hblocked).2.2)
    rw [if_neg hawake]
    rfl
  case h_3 =>
    split
    · rfl
    · rfl
  all_goals rfl

omit [DecidableEq E] in
theorem WaitInv.go (h : WaitInv w) (hok : NotBothFlags w .go) (hstep : w.go = some w') :
    WaitInv w' ∧ (w.fired = true → w'.pc.left + 1 ≤ w.pc.left) := by
  have hawake : w.pc ≠ .clear → w.waiter.status ≠ .flagBlockedAny :=
    fun hpc hblocked => hpc (h.asleep hblocked).1
  unfold WaitWorld.go at hstep
  cases hpc : w.pc with
  | out result =>
    rw [hpc] at hstep
    exact nomatch hstep
  | arm =>
    have hnot := (h.arming hpc).2
    rw [hpc] at hstep
    cases hstep
    have hno : w.fired ≠ true := by
      rw [hnot]
      decide
    exact ⟨⟨nofun, fun hf => absurd hf hno, fun hb => absurd hb (hawake (by rw [hpc]; nofun))⟩,
      fun hf => absurd hf hno⟩
  | get flags =>
    have hsleep := hawake (by rw [hpc]; nofun)
    have hpending := h.pending
    rw [hpc] at hstep hpending
    dsimp only at hstep
    cases hqueue : w.queue with
    | cons event queue =>
      rw [hqueue] at hstep
      cases hstep
      refine ⟨⟨nofun, fun _ => .inl (by decide : 2 ≤ 3), fun hb => absurd hb hsleep⟩,
        fun _ => ?_⟩
      show 2 + 1 ≤ if flags &&& threadFlagTimeout = 0 then 6 else 3
      split
      · decide
      · decide
    | nil =>
      rw [hqueue] at hstep
      cases hstep
      have hleft : WaitPc.left (.get flags : WaitPc E) = 6 := if_pos (hok rfl hqueue flags hpc)
      rw [hleft] at hpending ⊢
      refine ⟨⟨nofun, fun hf => .inr ?_, fun hb => absurd hb hsleep⟩, fun _ => le_refl 6⟩
      exact (hpending hf).resolve_left (by decide)
  | reset event =>
    have hsleep := hawake (by rw [hpc]; nofun)
    rw [hpc] at hstep
    cases hstep
    exact ⟨⟨nofun, fun _ => .inl (by decide : 1 ≤ 3), fun hb => absurd hb hsleep⟩,
      fun _ => le_refl 2⟩
  | wait =>
    have hpending := h.pending
    rw [hpc] at hstep hpending
    cases hstep
    refine ⟨⟨nofun, fun hf => .inr ?_, fun hb => ⟨rfl, ?_⟩⟩, fun _ => le_refl 5⟩
    · have hne := (hpending hf).resolve_left (by decide : ¬5 ≤ 3)
      unfold threadFlagsWaitAny
      split
      · exact hne
      · exact hne
    · unfold threadFlagsWaitAny at hb ⊢
      split at hb
      next hzero =>
        rw [if_pos hzero]
        exact ⟨rfl, hzero⟩
      next => exact absurd hb (hawake (by rw [hpc]; nofun))
  | clear =>
    have hpending := h.pending
    rw [hpc] at hstep hpending
    dsimp only at hstep
    split at hstep
    · exact nomatch hstep
    next hsleep =>
      cases hstep
      have hdone : ∀ flags, flags = waitMask &&& w.waiter.flags → w.fired = true →
          WaitPc.left (if flags &&& threadFlagEvent ≠ 0 then .get flags else .out none : WaitPc E) ≤ 3 := by
        rintro flags rfl hf
        have hne := (hpending hf).resolve_left (by decide : ¬4 ≤ 3)
        split
        · exact (if_neg (by rwa [waitMask_and])).le
        · exact zero_le 3
      refine ⟨⟨fun hc => ?_, fun hf => .inl (hdone _ rfl hf), fun hb => absurd hb hsleep⟩,
        fun hf => succ_le_succ (hdone _ rfl hf)⟩
      dsimp only at hc
      split at hc
      · exact nomatch hc
      · exact nomatch hc
  | remove event =>
    have hsleep := hawake (by rw [hpc]; nofun)
    rw [hpc] at hstep
    cases hstep
    exact ⟨⟨nofun, fun _ => .inl (zero_le 3), fun hb => absurd hb hsleep⟩,
      fun _ => le_refl 1⟩

theorem WaitInv.step (h : WaitInv w) (hok : NotBothFlags w e) (hstep : w.step e = some w') :
    WaitInv w' ∧ Nearer w e := by
  cases e with
  | post event =>
    have hsame : w'.pc = w.pc ∧ w'.waiter = w.waiter ∧ w'.armed = w.armed ∧ w'.fired = w.fired := by
      simp only [WaitWorld.step] at hstep
      split at hstep <;> obtain rfl := some.inj hstep <;> exact ⟨rfl, rfl, rfl, rfl⟩
    obtain ⟨hpc, hwaiter, harmed, hfired⟩ := hsame
    refine ⟨⟨?_, ?_, ?_⟩, fun _ _ t ht => ?_⟩
    · rw [hpc, harmed, hfired]
      exact h.arming
    · rw [hpc, hwaiter, hfired]
      exact h.pending
    · rw [hpc, hwaiter]
      exact h.asleep
    · obtain rfl := some.inj (hstep.symm.trans ht)
      exact (congrArg WaitPc.left hpc).le
  | postFlag =>
    obtain ⟨-, heq⟩ := ite_none_left_eq_some.mp hstep
    cases heq
    refine ⟨h.set h.arming .inl, fun _ _ t ht => ?_⟩
    obtain rfl := some.inj (hstep.symm.trans ht)
    exact le_refl _
  | cancel event =>
    cases hstep
    refine ⟨⟨h.arming, h.pending, h.asleep⟩, fun _ _ t ht => ?_⟩
    cases ht
    exact le_refl _
  | setFlags mask =>
    cases hstep
    refine ⟨h.set h.arming .inl, fun _ _ t ht => ?_⟩
    cases ht
    exact le_refl _
  | timeout =>
    obtain ⟨harmed, heq⟩ := ite_none_right_eq_some.mp hstep
    cases heq
    refine ⟨h.set (fun hpc => ?_) fun _ => .inr rfl, fun _ _ t ht => ?_⟩
    · exact absurd (harmed.symm.trans (h.arming hpc).1) (by decide)
    · obtain rfl := some.inj (hstep.symm.trans ht)
      exact le_refl _
  | call =>
    refine ⟨?_, fun _ hne => absurd rfl hne⟩
    simp only [WaitWorld.step] at hstep
    split at hstep
    next hpc =>
      cases hstep
      refine ⟨fun _ => ⟨rfl, rfl⟩, nofun, fun hb => ?_⟩
      exact nomatch hpc.symm.trans (h.asleep hb).1
    next => exact nomatch hstep
  | go =>
    obtain ⟨hinv, hnear⟩ := h.go hok hstep
    refine ⟨hinv, fun hf _ t ht => ?_⟩
    obtain rfl := some.inj (hstep.symm.trans ht)
    exact hnear hf

/-- **No call hangs**: in every run in which no wait takes both flags for nothing. -/
theorem waitTimeout_returns (queue : List E) (flags : BitVec 16) (es : List (WaitAction E))
    (hok : Along WaitWorld.step NotBothFlags (WaitWorld.init queue flags) es) :
    Always WaitWorld.step Awake (WaitWorld.init queue flags) es ∧
      Along WaitWorld.step Nearer (WaitWorld.init queue flags) es := by
  have hinit : WaitInv (WaitWorld.init queue flags) :=
    ⟨nofun, nofun, nofun⟩
  exact ⟨always_of_along (fun _ h => h.awake) (fun _ _ _ h hok hs => (h.step hok hs).1) es hinit hok,
    along_of_along (fun _ _ _ h hok hs => (h.step hok hs).2)
      (fun _ _ _ h hok hs => (h.step hok hs).1) es hinit hok⟩

theorem waitTimeout_returns_event :
    Always WaitWorld.step Awake (WaitWorld.init [0] 0) [.call, .go, .go, .go, .timeout, .go] ∧
      Along WaitWorld.step Nearer (WaitWorld.init [0] 0) [.call, .go, .go, .go, .timeout, .go] :=
  waitTimeout_returns [0] 0 [.call, .go, .go, .go, .timeout, .go] (by
    simp [Along, WaitWorld.step, WaitWorld.init, WaitWorld.go, NotBothFlags])

/-- The flag of an event taken earlier is still pending: the wait takes it along with that of the
timeout, and the next one sleeps. -/
theorem not_waitTimeout_returns : ¬∀ (queue : List Nat) (flags : BitVec 16) (es : List (WaitAction Nat)),
    Always WaitWorld.step Awake (WaitWorld.init queue flags) es := by
  intro h
  have hlast := Always.last (h [] threadFlagEvent
    [.call, .go, .go, .go, .timeout, .go, .go, .go]) rfl
  exact absurd (hlast rfl (by decide)) (by decide)

end Riot.Event
