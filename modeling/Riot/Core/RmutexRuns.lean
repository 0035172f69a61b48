import Riot.Core.RmutexInv

/-!
# Recursive mutexes over runs

Every step keeps the invariant, and what it does to the lock is right. A run that locks the mutex more
often than `refcount` can count shows where that ends.
-/

namespace Riot.Core

open Riot.Lib Function Option Rmutex

variable {n : Nat}

variable {cfg : Cfg} {m : Nat} {s s' : Rmutex n} {W : WaitList n → List (Fin n)} {M : WaitList n → Prop}
  {me t : Fin n} {out : MutexOut n} {e : MutexEvent n} {k k' : Kernel n}

/-! ## Steps -/

/-- What is kept, and where the lock and the depth of a thread may change. -/
structure RmutexKept (cfg : Cfg) (m : Nat) (s : Rmutex n) (e : RmutexEvent n) (s' : Rmutex n) : Prop where
  inv : ∃ W M, RmutexInv cfg m s' W M
  released : ∀ t, s.Holds m t → ¬ s'.Holds m t → e = .go t ∧ s.depth t = 1 ∧ s'.depth t = 0
  depth : ∀ t, s'.depth t = s.depth t ∨ s'.pc t = .idle

variable {ev : RmutexEvent n}

theorem RmutexKept.of_held (hinv : RmutexInv cfg m s' W M) (hheld : ∀ t, s.Holds m t → s'.Holds m t)
    (hdepth : ∀ t, s'.depth t = s.depth t ∨ s'.pc t = .idle) : RmutexKept cfg m s ev s' where
  inv := ⟨W, M, hinv⟩
  released := fun t ht hno => absurd (hheld t ht) hno
  depth := hdepth

theorem RmutexInv.lock_step {trylock : Bool} (h : RmutexInv cfg m s W M) (hok : s.depth me < 65535)
    (hpc : s.pc me = .idle) (hs : rmutexTrylock cfg m s me trylock = some s') :
    RmutexKept cfg m s (.lock me trylock) s' := by
  obtain ⟨⟨s1, out⟩, hw, rfl⟩ := map_eq_some_iff.mp hs
  obtain ⟨k', W', M', rfl, hst, hheld⟩ := h.withMutex hw
  obtain ⟨hidle, -, hcont, rfl | rfl⟩ := hst.yields
  · exact .of_held (h.take hst hheld hcont (by simp [hpc])) (fun t ht => List.mem_cons_of_mem _ ht)
      fun t => .inl rfl
  · obtain ⟨hW, hholds⟩ := hst.move.unchanged (m := m) (by simp [MutexOut.changes]) s.held
    have h' := h.congr hst.inv hheld hW hholds (fun t => by rw [hcont]) hst.get hst.pid
    refine .of_held (h'.access rfl rfl rfl (by simp) (by rw [← hidle, ← hcont]) (fun _ _ => rfl) (fun hme => ?_)
      fun _ => ⟨trivial, rfl, rfl, rfl⟩) (fun t ht => ht) fun t => .inl rfl
    have hat := h'.holder me hme
    rw [show ({ s with kernel := k', held := heldAfter s.held _ } : Rmutex n).pc me = .idle from hpc] at hat
    exact ⟨⟨hat, hok⟩, fun t ht => h'.exclusive (h'.owner t ht) hme⟩

theorem RmutexInv.mutexLock_step (h : RmutexInv cfg m s W M) (hpc : s.pc me = .locking)
    (hs : rmutexMutexLock cfg m s me = some s') : RmutexKept cfg m s (.go me) s' := by
  obtain ⟨⟨s1, out⟩, hw, rfl⟩ := map_eq_some_iff.mp hs
  obtain ⟨k', W', M', rfl, hst, hheld⟩ := h.withMutex hw
  obtain ⟨-, -, -, ⟨rfl, hcont⟩ | ⟨rfl, hcont⟩⟩ := hst.yields
  · exact .of_held (h.take hst hheld hcont (by simp [hpc])) (fun t ht => List.mem_cons_of_mem _ ht)
      fun t => .inl rfl
  · refine .of_held (h.block hst hheld hcont fun hme => ?_) (fun t ht => ht) fun t => .inl rfl
    have hat := h.holder me hme
    rw [hpc] at hat
    exact hat

theorem RmutexInv.woken_step (h : RmutexInv cfg m s W M) (hpc : s.pc me = .blocked)
    (hs : rmutexWoken cfg s me = some s') : RmutexKept cfg m s (.go me) s' := by
  obtain ⟨⟨s1, out⟩, hw, rfl⟩ := map_eq_some_iff.mp hs
  obtain ⟨k', W', M', rfl, hst, hheld⟩ := h.withMutex hw
  have hm := (h.cont me).mpr hpc
  obtain ⟨hfree, -, hcont, ⟨m', -, rfl⟩ | ⟨mc, c, hc, -⟩ | ⟨hc, -⟩⟩ := hst.yields
  · exact .of_held (h.wake hst hheld hcont hpc hfree) (fun t ht => ht) fun t => .inl rfl
  · rw [hm] at hc
    cases hc
  · rw [hm] at hc
    cases hc

theorem RmutexInv.mutexUnlock_step (h : RmutexInv cfg m s W M) (hpc : s.pc me = .releasing)
    (hs : rmutexMutexUnlock cfg m s me = some s') : RmutexKept cfg m s (.go me) s' := by
  obtain ⟨⟨s1, out⟩, hw, rfl⟩ := map_eq_some_iff.mp hs
  obtain ⟨k', W', M', rfl, hst, hheld⟩ := h.withMutex hw
  have hme : s.Holds m me := by
    by_contra hno
    have hat := (h.bystander me hno).1
    rw [hpc] at hat
    exact hat
  obtain ⟨hinv, hno, hdepth⟩ := h.release hpc hst hheld
  refine ⟨⟨W', M', hinv⟩, fun t ht _ => ?_, fun t => ?_⟩
  · obtain rfl := h.exclusive ht hme
    refine ⟨rfl, hdepth, ?_⟩
    change update s.depth t (s.depth t - 1) t = 0
    rw [update_self]
    omega
  · by_cases ht : t = me
    · subst ht
      exact .inr goto_pc_self
    · exact .inl (update_of_ne ht ..)

theorem rmutexAccess_frame {p : RmutexPc} (hs : rmutexAccess s me p = some s') :
    s'.held = s.held ∧ ∀ t, s'.depth t = s.depth t ∨ s'.pc t = .idle := by
  have hupdate : ∀ (f : Fin n → RmutexPc) (d : Nat) (t : Fin n),
      update s.depth me d t = s.depth t ∨ update f me .idle t = .idle := by
    intro f d t
    by_cases ht : t = me
    · subst ht
      exact .inr (update_self ..)
    · exact .inl (update_of_ne ht ..)
  cases p with
  | tried trylock =>
    rw [rmutexAccess_tried_eq] at hs
    split at hs
    · split at hs <;> exact some.inj hs ▸ ⟨rfl, fun t => .inl rfl⟩
    · exact some.inj hs ▸ ⟨rfl, fun t => .inl rfl⟩
  | loaded c => exact some.inj hs ▸ ⟨rfl, fun t => hupdate _ _ t⟩
  | stored =>
    cases hs
    split
    · exact ⟨rfl, fun t => .inl rfl⟩
    · exact ⟨rfl, fun t => hupdate _ _ t⟩
  | got => exact some.inj hs ▸ ⟨rfl, fun t => .inl rfl⟩
  | owned => exact some.inj hs ▸ ⟨rfl, fun t => .inl rfl⟩
  | asserted => exact some.inj hs ▸ ⟨rfl, fun t => .inl rfl⟩
  | unlocking => exact some.inj hs ▸ ⟨rfl, fun t => .inl rfl⟩
  | lowered c => exact some.inj hs ▸ ⟨rfl, fun t => .inl rfl⟩
  | resetting => exact some.inj hs ▸ ⟨rfl, fun t => .inl rfl⟩
  | _ => cases hs

theorem RmutexInv.running_self (h : RmutexInv cfg m s W M) (hs : s.running me = some s') :
    RmutexInv cfg m s' W M ∧ Running cfg s' s' me ∧ s'.pc = s.pc ∧ s'.depth = s.depth ∧ s'.held = s.held := by
  obtain ⟨h', hr⟩ := h.running hs
  have heq := hr.eq
  refine ⟨h', ⟨rfl, hr.getpid, hr.get, hr.cont, rfl, rfl, rfl⟩, ?_, ?_, ?_⟩ <;> rw [heq]

theorem RmutexInv.access_step (h : RmutexInv cfg m s W M)
    (hs : (s.running me).bind (fun s1 => rmutexAccess s1 me (s.pc me)) = some s') :
    RmutexKept cfg m s (.go me) s' := by
  obtain ⟨s1, hrun, hs⟩ := bind_eq_some_iff.mp hs
  obtain ⟨h1, hr, hpc, hdepth, hheld⟩ := h.running_self hrun
  obtain ⟨hheld', hdepth'⟩ := rmutexAccess_frame hs
  rw [← hpc] at hs
  refine .of_held (rmutexInv_access h1 hr hs) (fun t ht => ?_) fun t => ?_
  · unfold Rmutex.Holds
    rw [hheld', hheld]
    exact ht
  · rw [← hdepth]
    exact hdepth' t

theorem RmutexInv.go_step (h : RmutexInv cfg m s W M) (hs : rmutexGo cfg m s me = some s') :
    RmutexKept cfg m s (.go me) s' := by
  unfold rmutexGo at hs
  split at hs
  · rename_i hpc
    exact h.mutexLock_step hpc hs
  · rename_i hpc
    exact h.woken_step hpc hs
  · rename_i hpc
    exact h.mutexUnlock_step hpc hs
  · exact h.access_step hs

theorem RmutexInv.unlock_step (h : RmutexInv cfg m s W M) (hpc : s.pc me = .idle) (hpos : 0 < s.depth me)
    (hs : rmutexUnlock s me = some s') : RmutexKept cfg m s (.unlock me) s' := by
  obtain ⟨s1, hrun, rfl⟩ := map_eq_some_iff.mp hs
  obtain ⟨h1, hr, hpc1, hdepth, hheld⟩ := h.running_self hrun
  have hme : s1.Holds m me := h1.holds_of_depth (by rw [hdepth]; exact hpos)
  have hat := h1.holder me hme
  rw [hpc1, hpc] at hat
  rw [if_pos (hat.owner.trans hr.getpid.symm)]
  refine .of_held (h1.access rfl rfl rfl (by simp) hr.cont (fun _ _ => rfl)
    (fun _ => ⟨hat, fun t ht => h1.exclusive (h1.owner t ht) hme⟩) fun hno => absurd hme hno) (fun t ht => ?_) fun t => ?_
  · change (m, t) ∈ s1.held
    rw [hheld]
    exact ht
  · exact .inl (congrFun hdepth t)

theorem RmutexInv.other_step (h : RmutexInv cfg m s W M) (he : s.Foreign m e)
    (hs : (s.withMutex cfg e).map Prod.fst = some s') : RmutexKept cfg m s (.other e) s' := by
  obtain ⟨⟨s1, out⟩, hw, rfl⟩ := map_eq_some_iff.mp hs
  obtain ⟨k', W', M', rfl, hst, hheld⟩ := h.withMutex hw
  obtain ⟨hout, hcont⟩ := h.foreign he hst
  obtain ⟨hW, hholds⟩ := hst.move.unchanged hout s.held
  exact .of_held (h.congr hst.inv hheld hW hholds hcont hst.get hst.pid) (fun t ht => (hholds t).mpr ht)
    fun t => .inl rfl

/-- **Every step keeps the invariant.** -/
theorem rmutexStep_kept (h : RmutexInv cfg m s W M) (hok : NestsBelow s ev) (hs : rmutexStep cfg m s ev = some s') :
    RmutexKept cfg m s ev s' := by
  cases ev with
  | lock me trylock =>
    obtain ⟨hpc, hs⟩ := ite_none_right_eq_some.mp hs
    exact h.lock_step hok hpc hs
  | unlock me =>
    obtain ⟨⟨hpc, hpos⟩, hs⟩ := ite_none_right_eq_some.mp hs
    exact h.unlock_step hpc hpos hs
  | go me => exact h.go_step hs
  | other e =>
    obtain ⟨he, hs⟩ := ite_none_right_eq_some.mp hs
    exact h.other_step he hs

theorem mutexStep_trylock_locked (h : MutexInv cfg k W M) (hl : MutexLocked k m)
    (hs : mutexStep cfg k (.call me (.trylock m)) = some (k', out)) :
    out = .refused m me (.bool false) ∧ k'.sched.next = k.sched.next ∧ k'.mutex = k.mutex := by
  obtain ⟨k0, hd, hs⟩ := bind_eq_some_iff.mp hs
  obtain ⟨-, hs⟩ := ite_none_right_eq_some.mp hs
  obtain ⟨-, hdis, hk0, -⟩ := h.dispatch hd
  have hcall := some.inj hs
  unfold mutexLockInternal at hcall
  rw [hdis.next, if_neg hl, if_neg (by simp)] at hcall
  cases hcall
  exact ⟨rfl, hdis.next, by rw [hk0]⟩

theorem RmutexInv.trylock_held (h : RmutexInv cfg m s W M) (ht : s.Holds m t) {trylock : Bool}
    (hs : rmutexTrylock cfg m s me trylock = some s') :
    SameLock s s' ∧ s'.pc = update s.pc me (.tried trylock) := by
  obtain ⟨⟨s1, out⟩, hw, rfl⟩ := map_eq_some_iff.mp hs
  obtain ⟨⟨k', out'⟩, hstep, heq⟩ := map_eq_some_iff.mp hw
  cases heq
  obtain ⟨rfl, hnext, hmutex⟩ := mutexStep_trylock_locked h.inv (h.locked_iff.mpr ⟨t, ht⟩) hstep
  exact ⟨⟨rfl, rfl, rfl, rfl, hnext, hmutex⟩, rfl⟩

theorem RmutexInv.trylock_ret (h : RmutexInv cfg m s W M) (hpc : s.pc me = .tried true) (hme : ¬ s.Holds m me)
    (hs : rmutexGo cfg m s me = some s') :
    SameLock s s' ∧ s'.pc = update s.pc me .idle ∧ s'.ret = update s.ret me (some 0) := by
  unfold rmutexGo at hs
  rw [hpc] at hs
  obtain ⟨s1, hrun, hs⟩ := bind_eq_some_iff.mp hs
  obtain ⟨-, hr'⟩ := h.running hrun
  obtain ⟨h1, hr, hpc1, -, hheld⟩ := h.running_self hrun
  have hme1 : ¬ s1.Holds m me := by
    unfold Rmutex.Holds
    rw [hheld]
    exact hme
  rw [rmutexAccess_tried h1 hr (by rw [hpc1, hpc]), if_neg hme1, if_pos rfl] at hs
  cases hs
  have heq := hr'.eq
  refine ⟨⟨?_, ?_, hheld, ?_, hr'.next, hr'.mutex⟩, ?_, ?_⟩
  · exact (congrArg Rmutex.owner heq).trans rfl
  · exact (congrArg refcount heq).trans rfl
  · exact (congrArg depth heq).trans rfl
  · exact congrArg (update · me .idle) hpc1
  · have hret : s1.ret = s.ret := (congrArg ret heq).trans rfl
    exact congrArg (update · me (some 0)) hret

theorem rmutexStep_right (h : RmutexInv cfg m s W M) (hok : NestsBelow s ev) (hs : rmutexStep cfg m s ev = some s') :
    RmutexStepRight m s ev s' := by
  have hkept := rmutexStep_kept h hok hs
  refine ⟨?_, ?_, hkept.released, ?_⟩
  · rintro me t rfl ht -
    obtain ⟨-, hs⟩ := ite_none_right_eq_some.mp hs
    exact h.trylock_held ht hs
  · rintro me rfl hpc hme
    exact h.trylock_ret hpc hme hs
  · intro t hd hd' ht
    -- the depth has changed, and the thread is outside of the functions
    obtain ⟨W', M', h'⟩ := hkept.inv
    have hpc := (hkept.depth t).resolve_left (by omega)
    have hat := h'.holder t ht
    rw [hpc] at hat
    have := hat.pos
    omega

/-- **The recursive mutex is exclusive and counts right** along every run, as long as nobody holds it
as often as `refcount` can count and locks it again. -/
theorem rmutex_right (hk : MutexStart cfg k) (es : List (RmutexEvent n))
    (hok : Along (rmutexStep cfg m) NestsBelow (rmutexInit k) es) :
    Always (rmutexStep cfg m) (RmutexRight m) (rmutexInit k) es ∧
      Along (rmutexStep cfg m) (fun s e => ∀ s', rmutexStep cfg m s e = some s' → RmutexStepRight m s e s')
        (rmutexInit k) es := by
  have hinit : ∃ W M, RmutexInv cfg m (rmutexInit k) W M := ⟨_, _, rmutexInv_init hk⟩
  have hstep : ∀ (s : Rmutex n) (e : RmutexEvent n) (s' : Rmutex n), (∃ W M, RmutexInv cfg m s W M) →
      NestsBelow s e → rmutexStep cfg m s e = some s' → ∃ W M, RmutexInv cfg m s' W M := by
    rintro s e s' ⟨W, M, h⟩ he hs
    exact (rmutexStep_kept h he hs).inv
  constructor
  · refine always_of_along (fun s hI => ?_) hstep es hinit hok
    obtain ⟨W, M, h⟩ := hI
    exact h.right
  · refine along_of_along (fun s e _ hI he _ => ?_) hstep es hinit hok
    obtain ⟨W, M, h⟩ := hI
    exact fun s' hs => rmutexStep_right h he hs

/-- Two threads, and unlocked mutexes. -/
def nestedStart : Kernel 2 :=
  Kernel.init (bootWith clzCfg ![3, 7]) (fun _ => 1) fun _ => 0

theorem nestedStart_start : MutexStart clzCfg nestedStart :=
  ⟨booted_bootWith clzCfg ![3, 7], fun _ => rfl, fun _ => rfl⟩

/-- A thread locks the mutex that is free, -/
def firstLock (me : Fin n) : List (RmutexEvent n) := [.lock me false, .go me, .go me, .go me]

/-- and again. -/
def relock (me : Fin n) : List (RmutexEvent n) := [.lock me false, .go me, .go me, .go me, .go me]

attribute [local instance] neZero_two

/-- The first thread unlocks it as often, while the second one tries it and then waits for it. -/
def nestedRun : List (RmutexEvent 2) :=
  firstLock 0 ++ relock 0 ++ [.lock 1 true, .go 1, .lock 1 false, .go 1, .go 1, .unlock 0, .go 0, .go 0, .go 0, .go 0,
    .unlock 0, .go 0, .go 0, .go 0, .go 0, .go 0, .go 0, .go 1, .go 1, .go 1, .go 1]

theorem rmutex_right_nested :
    (run (rmutexStep clzCfg 0) (rmutexInit nestedStart) nestedRun).any (fun s => s.depth 1 = 1) = true ∧
      Always (rmutexStep clzCfg 0) (RmutexRight 0) (rmutexInit nestedStart) nestedRun ∧
      Along (rmutexStep clzCfg 0) (fun s e => ∀ s', rmutexStep clzCfg 0 s e = some s' → RmutexStepRight 0 s e s')
        (rmutexInit nestedStart) nestedRun :=
  ⟨by decide +kernel, rmutex_right nestedStart_start _ (by decide +kernel)⟩

/-! ## Locking it too often -/

/-- The running thread has the lock. -/
structure Nesting (m : Nat) (s : Rmutex n) (me : Fin n) (d : Nat) : Prop where
  live : s.kernel.sched.Live me
  status : s.kernel.sched.status me = .running
  active : s.kernel.sched.schedActiveThread = some me
  cont : s.kernel.cont me = .idle
  locked : MutexLocked s.kernel m
  owner : s.owner = s.kernel.sched.schedActivePid
  pc : s.pc me = .idle
  depth : s.depth me = d
  refcount : s.refcount = BitVec.ofNat 16 d

theorem dispatch_running (hl : k.sched.Live me) (hst : k.sched.status me = .running)
    (hact : k.sched.schedActiveThread = some me) : dispatch k me = some k := by
  have hsw : schedSwitchTo k.sched k.sched.schedActiveThread k.sched.schedActiveThread me = k.sched := by
    unfold schedSwitchTo
    rw [if_pos hact, ← hst, update_eq_self]
  unfold dispatch
  rw [if_pos ⟨hl, by rw [hst]; rfl⟩, hsw]

theorem Rmutex.running_of_active (hl : s.kernel.sched.Live me) (hst : s.kernel.sched.status me = .running)
    (hact : s.kernel.sched.schedActiveThread = some me) (hcont : s.kernel.cont me = .idle) :
    s.running me = some s := by
  unfold running
  rw [dispatch_running hl hst hact, bind_some, if_pos hcont]

theorem Nesting.relock {d : Nat} (h : Nesting m s me d) :
    ∃ s', run (rmutexStep cfg m) s (relock me) = some s' ∧ Nesting m s' me (d + 1) := by
  have hmutex : s.withMutex cfg (.call me (.trylock m)) = some (s, .refused m me (.bool false)) := by
    have hstep : mutexStep cfg s.kernel (.call me (.trylock m)) = some (s.kernel, .refused m me (.bool false)) := by
      change (dispatch s.kernel me).bind (fun k => if k.cont me = .idle then
        some (mutexLockInternal cfg k m me false) else none) = _
      rw [dispatch_running h.live h.status h.active, bind_some, if_pos h.cont]
      unfold mutexLockInternal
      rw [if_neg h.locked, if_neg (by simp)]
    unfold withMutex
    rw [hstep]
    rfl
  have hgo : ∀ (s' : Rmutex n) (p : RmutexPc), s'.kernel = s.kernel → s'.pc me = p →
      p ≠ .locking → p ≠ .blocked → p ≠ .releasing → rmutexStep cfg m s' (.go me) = rmutexAccess s' me p := by
    intro s' p hk hp h1 h2 h3
    have hrun : s'.running me = some s' :=
      running_of_active (hk ▸ h.live) (hk ▸ h.status) (hk ▸ h.active) (hk ▸ h.cont)
    unfold rmutexStep rmutexGo
    subst hp
    dsimp only
    split
    · contradiction
    · contradiction
    · contradiction
    · rw [hrun, bind_some]
  -- the states in between
  let s1 := s.goto me (.tried false)
  let s2 := s1.goto me .got
  let s3 : Rmutex n := { s2.goto me .owned with owner := s.kernel.sched.schedActivePid }
  let s4 := s3.goto me (.loaded s.refcount)
  let s5 : Rmutex n := { s4.locked me with refcount := s.refcount + 1 }
  have h₁ : rmutexStep cfg m s (.lock me false) = some s1 := by
    change (if s.pc me = .idle then rmutexTrylock cfg m s me false else none) = some s1
    unfold rmutexTrylock
    rw [if_pos h.pc, hmutex]
    rfl
  have h₂ : rmutexStep cfg m s1 (.go me) = some s2 := by
    rw [hgo s1 (.tried false) rfl goto_pc_self (by simp) (by simp) (by simp), rmutexAccess_tried_eq]
    exact if_neg (not_not.mpr h.owner)
  have h₃ : rmutexStep cfg m s2 (.go me) = some s3 :=
    hgo s2 .got rfl goto_pc_self (by simp) (by simp) (by simp)
  have h4 : rmutexStep cfg m s3 (.go me) = some s4 :=
    hgo s3 .owned rfl goto_pc_self (by simp) (by simp) (by simp)
  have h5 : rmutexStep cfg m s4 (.go me) = some s5 :=
    hgo s4 (.loaded s.refcount) rfl goto_pc_self (by simp) (by simp) (by simp)
  refine ⟨s5, ?_, h.live, h.status, h.active, h.cont, h.locked, rfl, goto_pc_self, ?_, ?_⟩
  · unfold Core.relock
    rw [run, h₁]
    dsimp only
    rw [run, h₂]
    dsimp only
    rw [run, h₃]
    dsimp only
    rw [run, h4]
    dsimp only
    rw [run, h5]
    rfl
  · rw [← h.depth]
    exact update_self ..
  · rw [BitVec.ofNat_add, ← h.refcount]
    rfl

theorem Nesting.relock_many {d : Nat} (h : Nesting m s me d) (j : Nat) :
    ∃ s', run (rmutexStep cfg m) s (List.replicate j (Core.relock me)).flatten = some s' ∧ Nesting m s' me (d + j) := by
  induction j generalizing s d with
  | zero => exact ⟨s, rfl, h⟩
  | succ j ih =>
    obtain ⟨s1, hrun, h1⟩ := h.relock
    obtain ⟨s', hrun', h'⟩ := ih h1
    refine ⟨s', ?_, ?_⟩
    · rw [List.replicate_succ, List.flatten_cons, run_append hrun]
      exact hrun'
    · rw [show d + (j + 1) = d + 1 + j by omega]
      exact h'

/-- The first thread locks it 65536 times: `refcount` is 0, and the assertion in `rmutex_unlock` fails. -/
theorem not_rmutex_right :
    MutexStart clzCfg nestedStart ∧
      ∃ s, run (rmutexStep clzCfg 0) (rmutexInit nestedStart)
          (firstLock 0 ++ (List.replicate 65535 (relock 0)).flatten) = some s ∧
        s.depth 0 = 65536 ∧ s.refcount = 0 ∧ ¬ RmutexRight 0 s := by
  refine ⟨nestedStart_start, ?_⟩
  have hfirst : (run (rmutexStep clzCfg 0) (rmutexInit nestedStart) (firstLock 0)).any (fun s => decide
      (s.kernel.sched.Live 0 ∧ s.kernel.sched.status 0 = .running ∧ s.kernel.sched.schedActiveThread = some 0 ∧
        s.kernel.cont 0 = .idle ∧ MutexLocked s.kernel 0 ∧ s.owner = s.kernel.sched.schedActivePid ∧
        s.pc 0 = .idle ∧ s.depth 0 = 1 ∧ s.refcount = 1)) = true := by decide +kernel
  obtain ⟨s₁, hrun, hall⟩ := (Option.any_eq_true _ _).mp hfirst
  obtain ⟨hlive, hstatus, hactive, hcont, hlocked, howner, hpc, hdepth, hrefcount⟩ := of_decide_eq_true hall
  have h₁ : Nesting 0 s₁ 0 1 := ⟨hlive, hstatus, hactive, hcont, hlocked, howner, hpc, hdepth, hrefcount⟩
  obtain ⟨s, hrun', h⟩ := h₁.relock_many 65535
  have hzero : s.refcount = 0 := h.refcount.trans rfl
  refine ⟨s, (run_append hrun).trans hrun', h.depth, hzero, fun hright => ?_⟩
  have hcount := (hright.outside 0 h.pc (hright.holds 0 (by rw [h.depth]; omega))).2.2
  rw [hzero, h.depth] at hcount
  exact absurd hcount (by simp)

end Riot.Core
