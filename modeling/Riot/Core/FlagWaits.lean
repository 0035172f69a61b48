import Mathlib
import Riot.Core.ThreadFlags
import Riot.Lib.Runs

/-!
# Thread flags lose nothing

The functions of `core/thread_flags.c` that a thread calls for its own flags, cut where interrupts are
enabled: other threads and interrupts set flags between any two steps. Every flag that is set is a token,
by the call that sets it; what a call returns takes the tokens of these flags, so that a token is with
exactly one call or still pending.
-/

namespace Riot.Core

open Riot.Lib List

/-- `_thread_flags_wait` in `thread_flags_wait_all`, up to where the thread is blocked or goes on. -/
def threadFlagsWaitAll (thread : FlagThread) (mask : BitVec 16) : FlagThread :=
  if ¬ thread.flags &&& mask = mask then { thread with waitData := mask, status := .flagBlockedAll }
  else thread

/-- `tmp &= (~tmp + 1)` in `thread_flags_wait_one` -/
def leastFlag (tmp : BitVec 16) : BitVec 16 := tmp &&& (~~~tmp + 1)

/-- The calls of a thread. -/
inductive FlagCall where
  | clear (mask : BitVec 16)
  | waitAny (mask : BitVec 16)
  | waitOne (mask : BitVec 16)
  | waitAll (mask : BitVec 16)
deriving DecidableEq

/-- Where the thread is: outside of the functions, behind the first critical section of one, or, in
`thread_flags_wait_one`, between reading the flags and clearing one of them. -/
inductive FlagPc where
  | idle
  | anySlept (mask : BitVec 16) (one : Bool)
  | oneRead (mask tmp seen : BitVec 16)
  | allSlept (mask : BitVec 16)
deriving DecidableEq

/-- A flag that was set, by the how manieth call of `thread_flags_set`. -/
structure FlagToken where
  set : Nat
  flag : Fin 16
deriving DecidableEq

/-- A call that has returned: what flags it has seen, what it returns, and what it took. -/
structure FlagReturn where
  call : FlagCall
  seen : BitVec 16
  value : BitVec 16
  taken : List FlagToken

structure FlagWorld where
  thread : FlagThread
  pc : FlagPc
  sets : Nat
  issued : List FlagToken
  pending : List FlagToken
  returned : List FlagReturn

def FlagWorld.init : FlagWorld := ⟨⟨0, 0, .running⟩, .idle, 0, [], [], []⟩

/-- The tokens of a call of `thread_flags_set`. -/
def tokensOf (set : Nat) (mask : BitVec 16) : List FlagToken :=
  ((List.finRange 16).filter fun flag : Fin 16 => mask.getLsbD flag).map fun flag => ⟨set, flag⟩

/-- The token is one of the flags in `value`. -/
def FlagToken.isIn (value : BitVec 16) (t : FlagToken) : Bool := value.getLsbD t.flag

/-- `_thread_flags_clear_atomic` at the end of a call. -/
def FlagWorld.finish (w : FlagWorld) (call : FlagCall) (seen mask : BitVec 16) : FlagWorld :=
  let (value, thread) := threadFlagsClearAtomic w.thread mask
  { w with
    thread := thread
    pc := .idle
    pending := w.pending.filter fun t => !t.isIn value
    returned := w.returned ++ [⟨call, seen, value, w.pending.filter (FlagToken.isIn value)⟩] }

/-- The first critical section of a call. -/
def FlagWorld.call (w : FlagWorld) : FlagCall → FlagWorld
  | .clear mask => w.finish (.clear mask) w.thread.flags mask
  | .waitAny mask => { w with thread := threadFlagsWaitAny w.thread mask, pc := .anySlept mask false }
  | .waitOne mask => { w with thread := threadFlagsWaitAny w.thread mask, pc := .anySlept mask true }
  | .waitAll mask => { w with thread := threadFlagsWaitAll w.thread mask, pc := .allSlept mask }

/-- What follows. -/
def FlagWorld.resume (w : FlagWorld) : Option FlagWorld :=
  match w.pc with
  | .idle => none
  | .anySlept mask false => some (w.finish (.waitAny mask) w.thread.flags mask)
  | .anySlept mask true => some { w with pc := .oneRead mask (leastFlag (w.thread.flags &&& mask)) w.thread.flags }
  | .oneRead mask tmp seen => some (w.finish (.waitOne mask) seen tmp)
  | .allSlept mask => some (w.finish (.waitAll mask) w.thread.flags mask)

inductive FlagEvent where
  /-- `thread_flags_set` by any thread or interrupt -/
  | set (mask : BitVec 16)
  | call (call : FlagCall)
  | resume
  /-- the scheduler runs the thread, or another one -/
  | dispatch
  | preempt

def flagStep (w : FlagWorld) : FlagEvent → Option FlagWorld
  | .set mask => some { w with
      thread := threadFlagsSet w.thread mask
      sets := w.sets + 1
      issued := w.issued ++ tokensOf w.sets mask
      pending := w.pending ++ tokensOf w.sets mask }
  | .call call => if w.thread.status = .running ∧ w.pc = .idle then some (w.call call) else none
  | .resume => if w.thread.status = .running then w.resume else none
  | .dispatch =>
    if w.thread.status = .pending then some { w with thread := { w.thread with status := .running } } else none
  | .preempt =>
    if w.thread.status = .running then some { w with thread := { w.thread with status := .pending } } else none

/-! ## What should hold -/

/-- `value` is one flag of `flags`, the least one. -/
def IsLeastFlag (value flags : BitVec 16) : Prop :=
  ∃ f : Fin 16, value = BitVec.twoPow 16 f ∧ flags.getLsbD f = true ∧ ∀ g < f, flags.getLsbD g = false

/-- What a call returns. -/
def FlagReturn.Right (r : FlagReturn) : Prop :=
  match r.call with
  | .clear mask => r.value = r.seen &&& mask
  | .waitAny mask => r.value = r.seen &&& mask ∧ r.value ≠ 0
  | .waitOne mask => IsLeastFlag r.value (r.seen &&& mask)
  | .waitAll mask => r.value = mask

/-- **Nothing is lost**, and nothing is returned that was not set. -/
structure FlagsRight (w : FlagWorld) : Prop where
  /-- Each token was issued once, and is with exactly one call or pending. -/
  issued_nodup : w.issued.Nodup
  conserved : w.issued.Perm (w.pending ++ w.returned.flatMap FlagReturn.taken)
  /-- The flags of the thread are those of the pending tokens. -/
  pending_iff : ∀ f : Fin 16, w.thread.flags.getLsbD f = true ↔ ∃ t ∈ w.pending, t.flag = f
  /-- What a call returns are the flags of the tokens it took. -/
  value_iff : ∀ r ∈ w.returned, ∀ f : Fin 16, r.value.getLsbD f = true ↔ ∃ t ∈ r.taken, t.flag = f
  results : ∀ r ∈ w.returned, r.Right
  /-- The thread does not sleep when what it waits for is there. -/
  awake_any : w.thread.status = .flagBlockedAny → w.thread.flags &&& w.thread.waitData = 0
  awake_all : w.thread.status = .flagBlockedAll → w.thread.flags &&& w.thread.waitData ≠ w.thread.waitData

variable {w w' : FlagWorld} {thread : FlagThread} {mask value flags : BitVec 16}

/-! ## Flags as sets -/

theorem eq_zero_iff_flags : flags = 0 ↔ ∀ f : Fin 16, flags.getLsbD f = false := by
  constructor
  · rintro rfl f
    exact BitVec.getLsbD_zero
  · intro h
    refine BitVec.eq_of_getLsbD_eq fun i hi => ?_
    rw [h ⟨i, hi⟩]
    exact BitVec.getLsbD_zero.symm

theorem isLeastFlag_leastFlag (h : flags ≠ 0) : IsLeastFlag (leastFlag flags) flags := by
  have hex : ∃ p, flags.getLsbD p = true := by
    by_contra hno
    refine h (eq_zero_iff_flags.mpr fun f => ?_)
    exact Bool.eq_false_iff.mpr fun hf => hno ⟨f, hf⟩
  have hbit := Nat.find_spec hex
  have hlow : ∀ q, q < Nat.find hex → flags.getLsbD q = false := fun q hq => by simpa using Nat.find_min hex hq
  have hlt : Nat.find hex < 16 := by
    by_contra hge
    rw [BitVec.getLsbD_of_ge _ _ (by omega)] at hbit
    cases hbit
  refine ⟨⟨Nat.find hex, hlt⟩, ?_, hbit, fun g hg => hlow g hg⟩
  rw [← and_neg_eq_twoPow hbit hlow, BitVec.neg_eq_not_add]
  rfl

theorem IsLeastFlag.and_eq (h : IsLeastFlag value (flags &&& mask)) : value &&& flags = value := by
  obtain ⟨f, rfl, hf, -⟩ := h
  rw [BitVec.getLsbD_and, Bool.and_eq_true] at hf
  refine BitVec.eq_of_getLsbD_eq fun i hi => ?_
  rw [BitVec.getLsbD_and, BitVec.getLsbD_twoPow]
  by_cases hif : f.val = i
  · subst hif
    rw [hf.1, Bool.and_true]
  · simp [hif]

theorem mem_tokensOf {t : FlagToken} {set : Nat} : t ∈ tokensOf set mask ↔ t.set = set ∧ mask.getLsbD t.flag = true := by
  unfold tokensOf
  rw [mem_map]
  constructor
  · rintro ⟨f, hf, rfl⟩
    exact ⟨rfl, (mem_filter.mp hf).2⟩
  · rintro ⟨rfl, hf⟩
    exact ⟨t.flag, mem_filter.mpr ⟨mem_finRange _, hf⟩, rfl⟩

theorem tokensOf_nodup {set : Nat} : (tokensOf set mask).Nodup := by
  refine List.Nodup.map ?_ ((nodup_finRange 16).filter _)
  intro f g h
  exact (FlagToken.mk.inj h).2

/-! ## The invariant -/

/-- What holds where the thread is. -/
def FlagPc.Holds (thread : FlagThread) : FlagPc → Prop
  | .idle => thread.status.onRunqueue = true
  | .anySlept mask _ =>
    thread.status = .flagBlockedAny ∧ thread.waitData = mask ∧ thread.flags &&& mask = 0 ∨
      thread.status.onRunqueue = true ∧ thread.flags &&& mask ≠ 0
  | .oneRead mask tmp seen =>
    thread.status.onRunqueue = true ∧ tmp &&& thread.flags = tmp ∧ IsLeastFlag tmp (seen &&& mask)
  | .allSlept mask =>
    thread.status = .flagBlockedAll ∧ thread.waitData = mask ∧ thread.flags &&& mask ≠ mask ∨
      thread.status.onRunqueue = true ∧ thread.flags &&& mask = mask

structure FlagInv (w : FlagWorld) : Prop where
  issued_nodup : w.issued.Nodup
  issued_lt : ∀ t ∈ w.issued, t.set < w.sets
  conserved : w.issued.Perm (w.pending ++ w.returned.flatMap FlagReturn.taken)
  pending_iff : ∀ f : Fin 16, w.thread.flags.getLsbD f = true ↔ ∃ t ∈ w.pending, t.flag = f
  value_iff : ∀ r ∈ w.returned, ∀ f : Fin 16, r.value.getLsbD f = true ↔ ∃ t ∈ r.taken, t.flag = f
  results : ∀ r ∈ w.returned, r.Right
  pc : w.pc.Holds w.thread

theorem FlagPc.Holds.asleep {pc : FlagPc} (h : pc.Holds thread) (hsleep : thread.status.onRunqueue = false) :
    thread.status = .flagBlockedAny ∧ thread.flags &&& thread.waitData = 0 ∨
      thread.status = .flagBlockedAll ∧ thread.flags &&& thread.waitData ≠ thread.waitData := by
  cases pc with
  | idle => exact absurd (hsleep.symm.trans h) nofun
  | oneRead mask tmp seen => exact absurd (hsleep.symm.trans h.1) nofun
  | anySlept mask one =>
    rcases h with ⟨hblocked, rfl, hzero⟩ | ⟨hrun, -⟩
    · exact .inl ⟨hblocked, hzero⟩
    · exact absurd (hsleep.symm.trans hrun) nofun
  | allSlept mask =>
    rcases h with ⟨hblocked, rfl, hne⟩ | ⟨hrun, -⟩
    · exact .inr ⟨hblocked, hne⟩
    · exact absurd (hsleep.symm.trans hrun) nofun

theorem FlagInv.right (h : FlagInv w) : FlagsRight w where
  issued_nodup := h.issued_nodup
  conserved := h.conserved
  pending_iff := h.pending_iff
  value_iff := h.value_iff
  results := h.results
  awake_any := by
    intro hblocked
    rcases h.pc.asleep (by rw [hblocked]; rfl) with ⟨-, hzero⟩ | ⟨hall, -⟩
    · exact hzero
    · rw [hblocked] at hall
      cases hall
  awake_all := by
    intro hblocked
    rcases h.pc.asleep (by rw [hblocked]; rfl) with ⟨hany, -⟩ | ⟨-, hne⟩
    · rw [hblocked] at hany
      cases hany
    · exact hne

theorem flagInv_init : FlagInv FlagWorld.init where
  issued_nodup := nodup_nil
  issued_lt := by simp [FlagWorld.init]
  conserved := List.Perm.refl _
  pending_iff := by
    intro f
    constructor
    · intro h
      rw [show FlagWorld.init.thread.flags = 0#16 from rfl, BitVec.getLsbD_zero] at h
      cases h
    · rintro ⟨t, ht, -⟩
      cases ht
  value_iff := by simp [FlagWorld.init]
  results := by simp [FlagWorld.init]
  pc := rfl

/-! ## Every step -/

/-- **The end of a call**: what is returned goes from the pending tokens to those taken. -/
theorem FlagInv.finish {call : FlagCall} {seen : BitVec 16} (h : FlagInv w) (hrun : w.thread.status.onRunqueue = true)
    (hright : (⟨call, seen, mask &&& w.thread.flags, []⟩ : FlagReturn).Right) : FlagInv (w.finish call seen mask) where
  issued_nodup := h.issued_nodup
  issued_lt := h.issued_lt
  conserved := by
    refine h.conserved.trans ?_
    show (w.pending ++ _).Perm (w.pending.filter _ ++ (w.returned ++ [_]).flatMap FlagReturn.taken)
    rw [flatMap_append, flatMap_singleton]
    have hsplit := filter_append_perm (fun t : FlagToken => !t.isIn (mask &&& w.thread.flags)) w.pending
    simp only [Bool.not_not] at hsplit
    have hboth := hsplit.symm.append_right (w.returned.flatMap FlagReturn.taken)
    refine hboth.trans ?_
    rw [append_assoc]
    exact List.Perm.append_left _ perm_append_comm
  pending_iff := by
    intro f
    show (w.thread.flags &&& ~~~(mask &&& w.thread.flags)).getLsbD f = true ↔
      ∃ t ∈ w.pending.filter fun t => !t.isIn (mask &&& w.thread.flags), t.flag = f
    have hlt := f.isLt
    constructor
    · intro hf
      rw [BitVec.getLsbD_and, Bool.and_eq_true, BitVec.getLsbD_not] at hf
      obtain ⟨t, ht, rfl⟩ := (h.pending_iff f).mp hf.1
      refine ⟨t, mem_filter.mpr ⟨ht, ?_⟩, rfl⟩
      unfold FlagToken.isIn
      simpa [hlt] using hf.2
    · rintro ⟨t, ht, rfl⟩
      obtain ⟨ht, hnot⟩ := mem_filter.mp ht
      have hset := (h.pending_iff t.flag).mpr ⟨t, ht, rfl⟩
      unfold FlagToken.isIn at hnot
      rw [BitVec.getLsbD_and, Bool.and_eq_true, BitVec.getLsbD_not]
      refine ⟨hset, ?_⟩
      simpa [hlt] using hnot
  value_iff := by
    intro r hr f
    rcases mem_append.mp hr with hr | hr
    · exact h.value_iff r hr f
    · obtain rfl := mem_singleton.mp hr
      constructor
      · intro hf
        have hset : w.thread.flags.getLsbD f = true := by
          rw [BitVec.getLsbD_and, Bool.and_eq_true] at hf
          exact hf.2
        obtain ⟨t, ht, rfl⟩ := (h.pending_iff f).mp hset
        exact ⟨t, mem_filter.mpr ⟨ht, hf⟩, rfl⟩
      · rintro ⟨t, ht, rfl⟩
        exact (mem_filter.mp ht).2
  results := by
    intro r hr
    rcases mem_append.mp hr with hr | hr
    · exact h.results r hr
    · obtain rfl := mem_singleton.mp hr
      exact hright
  pc := hrun

theorem threadFlagsSet_cases : (threadFlagsSet thread mask).flags = thread.flags ||| mask ∧
    (threadFlagsSet thread mask).waitData = thread.waitData ∧
    ((threadFlagsSet thread mask).status = thread.status ∧
        (thread.status = .flagBlockedAny → (thread.flags ||| mask) &&& thread.waitData = 0) ∧
        (thread.status = .flagBlockedAll → (thread.flags ||| mask) &&& thread.waitData ≠ thread.waitData) ∨
      (threadFlagsSet thread mask).status = .pending ∧
        (thread.status = .flagBlockedAny ∧ (thread.flags ||| mask) &&& thread.waitData ≠ 0 ∨
          thread.status = .flagBlockedAll ∧ (thread.flags ||| mask) &&& thread.waitData = thread.waitData)) := by
  refine ⟨threadFlagsSet_flags, threadFlagsSet_waitData, ?_⟩
  unfold threadFlagsSet threadFlagsWake
  by_cases hwakeup : FlagThread.wakeup { thread with flags := thread.flags ||| mask } = true
  · rw [if_pos hwakeup]
    refine .inr ⟨rfl, ?_⟩
    unfold FlagThread.wakeup at hwakeup
    split at hwakeup
    · rename_i hstatus
      exact .inl ⟨hstatus, of_decide_eq_true hwakeup⟩
    · rename_i hstatus
      exact .inr ⟨hstatus, of_decide_eq_true hwakeup⟩
    · cases hwakeup
  · rw [if_neg hwakeup]
    refine .inl ⟨rfl, fun hstatus => ?_, fun hstatus hall => hwakeup ?_⟩
    · by_contra hne
      refine hwakeup ?_
      unfold FlagThread.wakeup
      rw [hstatus]
      exact decide_eq_true hne
    · unfold FlagThread.wakeup
      rw [hstatus]
      exact decide_eq_true hall

theorem or_and_ne_zero (h : flags &&& value ≠ 0) : (flags ||| mask) &&& value ≠ 0 := fun hzero => h (or_and_eq_zero.mp hzero).1

theorem or_and_eq (h : flags &&& value = value) : (flags ||| mask) &&& value = value := by
  refine BitVec.eq_of_getLsbD_eq fun i hi => ?_
  have hbit := congrArg (fun v => BitVec.getLsbD v i) h
  simp only [BitVec.getLsbD_and, BitVec.getLsbD_or] at hbit ⊢
  cases hv : value.getLsbD i with
  | false => simp
  | true =>
    rw [hv, Bool.and_true] at hbit
    rw [hbit]
    rfl

/-- A set wakes the thread where what it waits for is there, and disturbs it nowhere else. -/
theorem FlagPc.Holds.set {pc : FlagPc} (h : pc.Holds thread) : pc.Holds (threadFlagsSet thread mask) := by
  obtain ⟨hflags, hwait, hstatus⟩ := @threadFlagsSet_cases thread mask
  -- a thread that does not sleep stays as it is
  have hrunning : thread.status.onRunqueue = true → (threadFlagsSet thread mask).status.onRunqueue = true := by
    intro hrun
    rcases hstatus with ⟨hsame, -, -⟩ | ⟨hpending, -⟩
    · rw [hsame]
      exact hrun
    · rw [hpending]
      rfl
  cases pc with
  | idle => exact hrunning h
  | oneRead m tmp seen =>
    refine ⟨hrunning h.1, ?_, h.2.2⟩
    rw [hflags, BitVec.and_comm]
    exact or_and_eq (by rw [BitVec.and_comm]; exact h.2.1)
  | anySlept m one =>
    rcases h with ⟨hblocked, rfl, -⟩ | ⟨hrun, hne⟩
    · rcases hstatus with ⟨hsame, hany, -⟩ | ⟨hpending, ⟨-, hne⟩ | ⟨hall, -⟩⟩
      · exact .inl ⟨hsame.trans hblocked, hwait, by rw [hflags]; exact hany hblocked⟩
      · exact .inr ⟨by rw [hpending]; rfl, by rw [hflags]; exact hne⟩
      · rw [hblocked] at hall
        cases hall
    · exact .inr ⟨hrunning hrun, by rw [hflags]; exact or_and_ne_zero hne⟩
  | allSlept m =>
    rcases h with ⟨hblocked, rfl, -⟩ | ⟨hrun, heq⟩
    · rcases hstatus with ⟨hsame, -, hall⟩ | ⟨hpending, ⟨hany, -⟩ | ⟨-, heq⟩⟩
      · exact .inl ⟨hsame.trans hblocked, hwait, by rw [hflags]; exact hall hblocked⟩
      · rw [hblocked] at hany
        cases hany
      · exact .inr ⟨by rw [hpending]; rfl, by rw [hflags]; exact heq⟩
    · exact .inr ⟨hrunning hrun, by rw [hflags]; exact or_and_eq heq⟩

theorem FlagInv.set (h : FlagInv w) : FlagInv { w with
    thread := threadFlagsSet w.thread mask
    sets := w.sets + 1
    issued := w.issued ++ tokensOf w.sets mask
    pending := w.pending ++ tokensOf w.sets mask } where
  issued_nodup := by
    refine nodup_append'.mpr ⟨h.issued_nodup, tokensOf_nodup, ?_⟩
    intro t ht ht'
    have hlt := h.issued_lt t ht
    have heq := (mem_tokensOf.mp ht').1
    omega
  issued_lt := by
    intro t ht
    rcases mem_append.mp ht with ht | ht
    · exact Nat.lt_succ_of_lt (h.issued_lt t ht)
    · rw [(mem_tokensOf.mp ht).1]
      exact Nat.lt_succ_self _
  conserved := by
    refine (h.conserved.append_right _).trans ?_
    rw [append_assoc, append_assoc]
    exact List.Perm.append_left _ perm_append_comm
  pending_iff := by
    intro f
    rw [threadFlagsSet_flags, BitVec.getLsbD_or, Bool.or_eq_true, h.pending_iff f]
    constructor
    · rintro (⟨t, ht, rfl⟩ | hf)
      · exact ⟨t, mem_append_left _ ht, rfl⟩
      · exact ⟨⟨w.sets, f⟩, mem_append_right _ (mem_tokensOf.mpr ⟨rfl, hf⟩), rfl⟩
    · rintro ⟨t, ht, rfl⟩
      rcases mem_append.mp ht with ht | ht
      · exact .inl ⟨t, ht, rfl⟩
      · exact .inr (mem_tokensOf.mp ht).2
  value_iff := h.value_iff
  results := h.results
  pc := h.pc.set

/-- What changes neither the flags nor the records needs a proof for the place of the thread only. -/
theorem FlagInv.thread_pc {pc : FlagPc} (h : FlagInv w) (hflags : thread.flags = w.thread.flags) (hpc : pc.Holds thread) :
    FlagInv { w with thread := thread, pc := pc } where
  issued_nodup := h.issued_nodup
  issued_lt := h.issued_lt
  conserved := h.conserved
  pending_iff := by
    intro f
    rw [hflags]
    exact h.pending_iff f
  value_iff := h.value_iff
  results := h.results
  pc := hpc

theorem threadFlagsWaitAny_holds (hrun : thread.status.onRunqueue = true) (one : Bool) :
    (threadFlagsWaitAny thread mask).flags = thread.flags ∧ (FlagPc.anySlept mask one).Holds (threadFlagsWaitAny thread mask) := by
  unfold threadFlagsWaitAny
  split
  · rename_i hzero
    exact ⟨rfl, .inl ⟨rfl, rfl, hzero⟩⟩
  · rename_i hne
    exact ⟨rfl, .inr ⟨hrun, hne⟩⟩

theorem threadFlagsWaitAll_holds (hrun : thread.status.onRunqueue = true) :
    (threadFlagsWaitAll thread mask).flags = thread.flags ∧ (FlagPc.allSlept mask).Holds (threadFlagsWaitAll thread mask) := by
  unfold threadFlagsWaitAll
  split
  · rename_i hne
    exact ⟨rfl, .inl ⟨rfl, rfl, hne⟩⟩
  · rename_i heq
    exact ⟨rfl, .inr ⟨hrun, Decidable.not_not.mp heq⟩⟩

theorem FlagInv.call (h : FlagInv w) (hrun : w.thread.status.onRunqueue = true) (call : FlagCall) : FlagInv (w.call call) := by
  cases call with
  | clear mask => exact h.finish hrun (BitVec.and_comm _ _)
  | waitAny mask =>
    obtain ⟨hflags, hpc⟩ := @threadFlagsWaitAny_holds w.thread mask hrun false
    exact h.thread_pc hflags hpc
  | waitOne mask =>
    obtain ⟨hflags, hpc⟩ := @threadFlagsWaitAny_holds w.thread mask hrun true
    exact h.thread_pc hflags hpc
  | waitAll mask =>
    obtain ⟨hflags, hpc⟩ := @threadFlagsWaitAll_holds w.thread mask hrun
    exact h.thread_pc hflags hpc

theorem FlagInv.resume (h : FlagInv w) (hrunning : w.thread.status = .running) (hresume : w.resume = some w') : FlagInv w' := by
  have hrun : w.thread.status.onRunqueue = true := by
    rw [hrunning]
    rfl
  have hpc := h.pc
  unfold FlagWorld.resume at hresume
  cases hwhere : w.pc with
  | idle =>
    rw [hwhere] at hresume
    cases hresume
  | anySlept mask one =>
    rw [hwhere] at hresume hpc
    have hne : w.thread.flags &&& mask ≠ 0 := by
      rcases hpc with ⟨hblocked, -, -⟩ | ⟨-, hne⟩
      · rw [hrunning] at hblocked
        cases hblocked
      · exact hne
    cases one with
    | false =>
      cases hresume
      refine h.finish hrun ⟨BitVec.and_comm _ _, ?_⟩
      rw [BitVec.and_comm]
      exact hne
    | true =>
      cases hresume
      have hleast := isLeastFlag_leastFlag hne
      exact h.thread_pc rfl ⟨hrun, hleast.and_eq, hleast⟩
  | oneRead mask tmp seen =>
    rw [hwhere] at hresume hpc
    cases hresume
    refine h.finish hrun ?_
    rw [hpc.2.1]
    exact hpc.2.2
  | allSlept mask =>
    rw [hwhere] at hresume hpc
    cases hresume
    refine h.finish hrun ?_
    rcases hpc with ⟨hblocked, -, -⟩ | ⟨-, heq⟩
    · rw [hrunning] at hblocked
      cases hblocked
    · rw [BitVec.and_comm]
      exact heq

theorem FlagPc.Holds.status {pc : FlagPc} {status : ThreadStatus} (h : pc.Holds thread)
    (hrun : thread.status.onRunqueue = true) (hrun' : status.onRunqueue = true) : pc.Holds { thread with status := status } := by
  cases pc with
  | idle => exact hrun'
  | oneRead mask tmp seen => exact ⟨hrun', h.2⟩
  | anySlept mask one =>
    rcases h with ⟨hblocked, -, -⟩ | ⟨-, hne⟩
    · rw [hblocked] at hrun
      cases hrun
    · exact .inr ⟨hrun', hne⟩
  | allSlept mask =>
    rcases h with ⟨hblocked, -, -⟩ | ⟨-, heq⟩
    · rw [hblocked] at hrun
      cases hrun
    · exact .inr ⟨hrun', heq⟩

theorem flagStep_inv {e : FlagEvent} (h : FlagInv w) (hstep : flagStep w e = some w') : FlagInv w' := by
  cases e with
  | set mask =>
    cases hstep
    exact h.set
  | call call =>
    unfold flagStep at hstep
    dsimp only at hstep
    split at hstep
    · rename_i hready
      cases hstep
      exact h.call (by rw [hready.1]; rfl) call
    · cases hstep
  | resume =>
    unfold flagStep at hstep
    dsimp only at hstep
    split at hstep
    · rename_i hrunning
      exact h.resume hrunning hstep
    · cases hstep
  | dispatch =>
    unfold flagStep at hstep
    dsimp only at hstep
    split at hstep
    · rename_i hpending
      cases hstep
      exact h.thread_pc rfl (h.pc.status (by rw [hpending]; rfl) rfl)
    · cases hstep
  | preempt =>
    unfold flagStep at hstep
    dsimp only at hstep
    split at hstep
    · rename_i hrunning
      cases hstep
      exact h.thread_pc rfl (h.pc.status (by rw [hrunning]; rfl) rfl)
    · cases hstep

end Riot.Core
