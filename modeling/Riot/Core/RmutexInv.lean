import Riot.Core.Rmutex

/-!
# What a recursive mutex keeps

What `owner` and `refcount` are at each place the holder may be in the code. Nobody else
is the thread that `owner` names, so that a thread that reads its own pid there holds the
lock, whatever happens around the read.
-/

namespace Riot.Core

open Function Rmutex

variable {n : Nat}

/-- The holder's pid is in `owner`, and `refcount` says how often it has locked the mutex. -/
structure Owned (owner pid : Nat) (refcount : BitVec 16) (depth : Nat) : Prop where
  owner : owner = pid
  refcount : refcount.toNat = depth
  pos : 0 < depth

/-- The holder has not written to the lock yet. -/
structure Fresh (owner : Nat) (refcount : BitVec 16) (depth : Nat) : Prop where
  owner : owner = kernelPidUndef
  refcount : refcount = 0
  depth : depth = 0

/-- The holder is about to count up. -/
structure Entering (owner pid : Nat) (refcount : BitVec 16) (depth : Nat) : Prop where
  owner : owner = pid
  refcount : refcount.toNat = depth
  below : depth < 65535

/-- What the holder with this pid and depth has made of the lock, by its place in the code. -/
def HolderAt (owner pid : Nat) (refcount : BitVec 16) (depth : Nat) : RmutexPc → Prop
  | .idle => Owned owner pid refcount depth
  | .tried _ => Owned owner pid refcount depth ∧ depth < 65535
  | .blocked => Fresh owner refcount depth
  | .got => Fresh owner refcount depth ∨ Owned owner pid refcount depth ∧ depth < 65535
  | .owned => Entering owner pid refcount depth
  | .loaded c => Entering owner pid refcount depth ∧ c = refcount
  | .asserted => Owned owner pid refcount depth
  | .unlocking => Owned owner pid refcount depth
  | .lowered c => Owned owner pid refcount depth ∧ c = refcount
  | .stored => owner = pid ∧ refcount.toNat + 1 = depth
  | .resetting => owner = pid ∧ refcount = 0 ∧ depth = 1
  | .releasing => owner = kernelPidUndef ∧ refcount = 0 ∧ depth = 1
  | .locking => False
  | .failed => False

/-- Where a thread is that does not hold the lock: it waits, or it has not asked for it yet. -/
def BystanderAt (waiters : List (Fin n)) (t : Fin n) : RmutexPc → Prop
  | .idle => True
  | .tried _ => True
  | .locking => True
  | .blocked => t ∈ waiters
  | _ => False

/-- What every step keeps. -/
structure RmutexInv (cfg : Cfg) (m : Nat) (s : Rmutex n) (W : WaitList n → List (Fin n))
    (M : WaitList n → Prop) : Prop where
  inv : MutexInv cfg s.kernel W M
  held : HeldInv W M s.held
  cont : ∀ t, s.kernel.cont t = .mutexLock m ↔ s.pc t = .blocked
  waiting : ∀ t ∈ W (.mutexQueue m), s.pc t = .blocked ∧ ¬ s.Holds m t
  holder : ∀ t, s.Holds m t → HolderAt s.owner (s.kernel.sched.pid t) s.refcount (s.depth t) (s.pc t)
  bystander : ∀ t, ¬ s.Holds m t → BystanderAt (W (.mutexQueue m)) t (s.pc t) ∧ s.depth t = 0
  /-- Whom `owner` names holds the lock. -/
  owner : ∀ t, threadGet cfg s.kernel.sched s.owner = some t → s.Holds m t
  unheld : (∀ t, ¬ s.Holds m t) → s.owner = kernelPidUndef ∧ s.refcount = 0

variable {cfg : Cfg} {m : Nat} {s s' : Rmutex n} {W W' : WaitList n → List (Fin n)}
  {M M' : WaitList n → Prop} {me t u : Fin n} {out : MutexOut n} {e : MutexEvent n} {k : Kernel n}

/-! ## The invariant says what should hold -/

theorem RmutexInv.exclusive (h : RmutexInv cfg m s W M) (ht : s.Holds m t) (hu : s.Holds m u) : t = u :=
  h.held.unique m t u ht hu

theorem RmutexInv.locked_iff (h : RmutexInv cfg m s W M) : MutexLocked s.kernel m ↔ ∃ t, s.Holds m t :=
  (mutexLocked_iff h.inv.inv m).trans (h.held.locked m).symm

theorem RmutexInv.holds_of_depth (h : RmutexInv cfg m s W M) (ht : 0 < s.depth t) : s.Holds m t := by
  by_contra hno
  have := (h.bystander t hno).2
  omega

theorem RmutexInv.right (h : RmutexInv cfg m s W M) : RmutexRight m s where
  exclusive := fun t u => h.exclusive
  free := by
    rw [h.locked_iff]
    exact not_exists.symm
  holds := fun t => h.holds_of_depth
  outside := by
    intro t hpc ht
    have hat := h.holder t ht
    rw [hpc] at hat
    exact ⟨hat.owner, hat.pos, hat.refcount⟩
  no_failure := by
    intro t hpc
    by_cases ht : s.Holds m t
    · have hat := h.holder t ht
      rw [hpc] at hat
      exact hat
    · have hat := (h.bystander t ht).1
      rw [hpc] at hat
      exact hat

theorem threadGet_undef {sched : Sched n} : threadGet cfg sched kernelPidUndef = none := by
  unfold threadGet Cfg.pidIsValid
  simp [kernelPidUndef, kernelPidFirst]

theorem rmutexInv_init (hk : MutexStart cfg k) : RmutexInv cfg m (rmutexInit k) (fun _ => []) fun _ => False where
  inv := hk.inv.inv
  held := hk.inv.held
  cont := by
    intro t
    rw [show (rmutexInit k).kernel.cont t = .idle from hk.idle t]
    exact iff_of_false (fun h => by cases h) (fun h => by cases h)
  waiting := by
    intro t ht
    cases ht
  holder := by
    intro t ht
    cases ht
  bystander := fun t _ => ⟨trivial, rfl⟩
  owner := by
    intro t ht
    cases ht
  unheld := fun _ => ⟨rfl, rfl⟩

/-! ## Accesses -/

variable {c : BitVec 16} {trylock : Bool} {pc : RmutexPc}

@[simp] theorem Rmutex.goto_pc_self : (s.goto me pc).pc me = pc := update_self ..

theorem Rmutex.goto_pc_ne (ht : t ≠ me) : (s.goto me pc).pc t = s.pc t := update_of_ne ht ..

/-- A running thread. -/
structure Running (cfg : Cfg) (s s' : Rmutex n) (me : Fin n) : Prop where
  eq : s' = { s with kernel := s'.kernel }
  getpid : s'.kernel.sched.schedActivePid = s'.kernel.sched.pid me
  get : threadGet cfg s'.kernel.sched (s'.kernel.sched.pid me) = some me
  cont : s'.kernel.cont me = .idle
  pid : s'.kernel.sched.pid = s.kernel.sched.pid
  next : s'.kernel.sched.next = s.kernel.sched.next
  mutex : s'.kernel.mutex = s.kernel.mutex

theorem threadGet_pid (h : KernelInv cfg k.sched W M) (hl : k.sched.Live me) :
    threadGet cfg k.sched (k.sched.pid me) = some me := by
  unfold threadGet
  rw [if_pos (h.table _ _ hl).2]
  exact hl

theorem RmutexInv.running (h : RmutexInv cfg m s W M) (hs : s.running me = some s') :
    RmutexInv cfg m s' W M ∧ Running cfg s s' me := by
  obtain ⟨k, hd, hs⟩ := Option.bind_eq_some_iff.mp hs
  obtain ⟨hidle, hs⟩ := Option.ite_none_right_eq_some.mp hs
  cases hs
  obtain ⟨hinv, hdis, hk, hget⟩ := h.inv.dispatch hd
  have hcont : k.cont = s.kernel.cont := by rw [hk]
  refine ⟨⟨hinv, h.held, ?_, h.waiting, ?_, h.bystander, ?_, h.unheld⟩,
    ⟨rfl, hdis.getpid, threadGet_pid hinv.inv hdis.live, hidle, hdis.pid, hdis.next, by rw [hk]⟩⟩
  · intro t
    rw [show ({ s with kernel := k } : Rmutex n).kernel.cont = s.kernel.cont from hcont]
    exact h.cont t
  · intro t ht
    have := h.holder t ht
    rw [← hdis.pid] at this
    exact this
  · intro t ht
    exact h.owner t ((hget _).symm.trans ht)

/-- **An access** by a thread that is not blocked. -/
theorem RmutexInv.access (h : RmutexInv cfg m s W M) (hkernel : s'.kernel = s.kernel)
    (hheld : s'.held = s.held) (hpc : s'.pc = update s.pc me pc) (hne : pc ≠ .blocked)
    (hidle : s.kernel.cont me = .idle) (hdepth : ∀ t, t ≠ me → s'.depth t = s.depth t)
    (hholder : s.Holds m me → HolderAt s'.owner (s.kernel.sched.pid me) s'.refcount (s'.depth me) pc ∧
        ∀ t, threadGet cfg s.kernel.sched s'.owner = some t → t = me)
    (hbystander : ¬ s.Holds m me → BystanderAt (W (.mutexQueue m)) me pc ∧ s'.depth me = s.depth me ∧
      s'.owner = s.owner ∧ s'.refcount = s.refcount) : RmutexInv cfg m s' W M := by
  have hholds : ∀ t, s'.Holds m t ↔ s.Holds m t := by
    intro t
    unfold Rmutex.Holds
    rw [hheld]
  have hnb : s.pc me ≠ .blocked := by
    intro hb
    have := (h.cont me).mpr hb
    rw [hidle] at this
    cases this
  have hother : ∀ t, t ≠ me → s'.pc t = s.pc t := by
    intro t ht
    rw [hpc, update_of_ne ht]
  have hself : s'.pc me = pc := by rw [hpc, update_self]
  refine ⟨hkernel ▸ h.inv, hheld ▸ h.held, ?_, ?_, ?_, ?_, ?_, ?_⟩
  · intro t
    rw [hkernel, h.cont t]
    by_cases ht : t = me
    · subst ht
      rw [hself]
      exact iff_of_false hnb hne
    · rw [hother t ht]
  · intro t ht
    obtain ⟨hb, hno⟩ := h.waiting t ht
    have htm : t ≠ me := fun htm => hnb (htm ▸ hb)
    exact ⟨(hother t htm).trans hb, fun hh => hno ((hholds t).mp hh)⟩
  · intro t ht
    rw [hholds] at ht
    rw [hkernel]
    by_cases htm : t = me
    · subst htm
      rw [hself]
      exact (hholder ht).1
    · -- then the thread that acts is not the holder
      obtain ⟨-, -, howner, hrefcount⟩ := hbystander fun hme => htm (h.exclusive ht hme)
      rw [hother t htm, hdepth t htm, howner, hrefcount]
      exact h.holder t ht
  · intro t ht
    rw [hholds] at ht
    by_cases htm : t = me
    · subst htm
      obtain ⟨hat, hd, -, -⟩ := hbystander ht
      rw [hself, hd]
      exact ⟨hat, (h.bystander t ht).2⟩
    · rw [hother t htm, hdepth t htm]
      exact h.bystander t ht
  · intro t ht
    rw [hkernel] at ht
    rw [hholds]
    by_cases hme : s.Holds m me
    · exact (hholder hme).2 t ht ▸ hme
    · rw [(hbystander hme).2.2.1] at ht
      exact h.owner t ht
  · intro hno
    have hno : ∀ t, ¬ s.Holds m t := fun t ht => hno t ((hholds t).mpr ht)
    obtain ⟨-, -, howner, hrefcount⟩ := hbystander (hno me)
    rw [howner, hrefcount]
    exact h.unheld hno

theorem toNat_succ (h : c.toNat < 65535) : (c + 1).toNat = c.toNat + 1 := by
  change (c.toNat + 1) % 65536 = c.toNat + 1
  omega

theorem toNat_pred (h : 0 < c.toNat) : (c - 1).toNat + 1 = c.toNat := by
  change (65535 + c.toNat) % 65536 + 1 = c.toNat
  omega

theorem toNat_eq_zero (h : c.toNat = 0) : c = 0 := BitVec.eq_of_toNat_eq h

theorem RmutexInv.owner_iff (h : RmutexInv cfg m s W M) (hr : Running cfg s s me)
    (hpc : s.pc me = .tried trylock) : s.owner = s.kernel.sched.schedActivePid ↔ s.Holds m me := by
  rw [hr.getpid]
  constructor
  · intro howner
    refine h.owner me ?_
    rw [howner]
    exact hr.get
  · intro hme
    have hat := h.holder me hme
    rw [hpc] at hat
    exact hat.1.owner

theorem rmutexAccess_tried_eq : rmutexAccess s me (.tried trylock) =
    if s.owner ≠ s.kernel.sched.schedActivePid then
      (if trylock then some (s.refused me) else some (s.goto me .locking))
    else some (s.goto me .got) := rfl

theorem rmutexAccess_tried (h : RmutexInv cfg m s W M) (hr : Running cfg s s me)
    (hpc : s.pc me = .tried trylock) :
    rmutexAccess s me (.tried trylock) =
      some (if s.Holds m me then s.goto me .got else if trylock then s.refused me else s.goto me .locking) := by
  have hread := h.owner_iff hr hpc
  rw [rmutexAccess_tried_eq]
  by_cases hme : s.Holds m me
  · rw [if_neg (not_not.mpr (hread.mpr hme)), if_pos hme]
  · rw [if_pos (mt hread.mp hme), if_neg hme]
    split <;> rfl

/-- **An access keeps the invariant.** -/
theorem rmutexInv_access (h : RmutexInv cfg m s W M) (hr : Running cfg s s me)
    (hs : rmutexAccess s me (s.pc me) = some s') : RmutexInv cfg m s' W M := by
  have hself : ∀ owner, owner = s.kernel.sched.pid me →
      ∀ t, threadGet cfg s.kernel.sched owner = some t → t = me := by
    rintro owner rfl t ht
    rw [hr.get] at ht
    exact (Option.some.inj ht).symm
  have hundef : ∀ owner, owner = kernelPidUndef →
      ∀ t, threadGet cfg s.kernel.sched owner = some t → t = me := by
    rintro owner rfl t ht
    cases ht
  -- where only the holder can be
  have hmine : (∀ ws, ¬ BystanderAt ws me (s.pc me)) → s.Holds m me := by
    intro hno
    by_contra hme
    exact hno _ (h.bystander me hme).1
  have hdepth : ∀ d t, t ≠ me → update s.depth me d t = s.depth t := fun d t ht => update_of_ne ht d s.depth
  cases hpc : s.pc me with
  | tried trylock =>
    rw [hpc] at hs
    rw [rmutexAccess_tried h hr hpc] at hs
    cases hs
    by_cases hme : s.Holds m me
    · have hat := h.holder me hme
      rw [hpc] at hat
      rw [if_pos hme]
      exact h.access rfl rfl rfl (by simp) hr.cont (fun _ _ => rfl) (fun _ => ⟨.inr hat, hself _ hat.1.owner⟩)
        fun hno => absurd hme hno
    · rw [if_neg hme]
      split
      · exact h.access rfl rfl rfl (by simp) hr.cont (fun _ _ => rfl) (fun hh => absurd hh hme)
          fun _ => ⟨trivial, rfl, rfl, rfl⟩
      · exact h.access rfl rfl rfl (by simp) hr.cont (fun _ _ => rfl) (fun hh => absurd hh hme)
          fun _ => ⟨trivial, rfl, rfl, rfl⟩
  | got =>
    have hme := hmine fun _ => by rw [hpc]; exact id
    have hat := h.holder me hme
    rw [hpc] at hs hat
    cases hs
    have hcount : s.refcount.toNat = s.depth me ∧ s.depth me < 65535 := by
      rcases hat with hat | ⟨hat, hlt⟩
      · rw [hat.refcount, hat.depth]
        exact ⟨rfl, by omega⟩
      · exact ⟨hat.refcount, hlt⟩
    exact h.access rfl rfl rfl (by simp) hr.cont (fun _ _ => rfl)
      (fun _ => ⟨⟨hr.getpid, hcount.1, hcount.2⟩, hself _ hr.getpid⟩) fun hno => absurd hme hno
  | owned =>
    have hme := hmine fun _ => by rw [hpc]; exact id
    have hat := h.holder me hme
    rw [hpc] at hs hat
    cases hs
    exact h.access rfl rfl rfl (by simp) hr.cont (fun _ _ => rfl)
      (fun _ => ⟨⟨hat, rfl⟩, hself _ hat.owner⟩) fun hno => absurd hme hno
  | loaded c =>
    have hme := hmine fun _ => by rw [hpc]; exact id
    have hat := h.holder me hme
    rw [hpc] at hs hat
    obtain ⟨hat, rfl⟩ := hat
    cases hs
    refine h.access rfl rfl rfl (by simp) hr.cont (hdepth _) (fun _ => ?_) fun hno => absurd hme hno
    have hlt := hat.below
    rw [← hat.refcount] at hlt
    refine ⟨⟨hat.owner, ?_, ?_⟩, hself _ hat.owner⟩
    · rw [show (s.locked me).depth me = s.depth me + 1 from update_self .., ← hat.refcount]
      exact toNat_succ hlt
    · rw [show (s.locked me).depth me = s.depth me + 1 from update_self ..]
      omega
  | asserted =>
    have hme := hmine fun _ => by rw [hpc]; exact id
    have hat := h.holder me hme
    rw [hpc] at hs hat
    have hpos : s.refcount > 0 := by
      rw [gt_iff_lt, BitVec.lt_def, hat.refcount]
      exact hat.pos
    unfold rmutexAccess at hs
    rw [if_pos hpos] at hs
    cases hs
    exact h.access rfl rfl rfl (by simp) hr.cont (fun _ _ => rfl)
      (fun _ => ⟨hat, hself _ hat.owner⟩) fun hno => absurd hme hno
  | unlocking =>
    have hme := hmine fun _ => by rw [hpc]; exact id
    have hat := h.holder me hme
    rw [hpc] at hs hat
    cases hs
    exact h.access rfl rfl rfl (by simp) hr.cont (fun _ _ => rfl)
      (fun _ => ⟨⟨hat, rfl⟩, hself _ hat.owner⟩) fun hno => absurd hme hno
  | lowered c =>
    have hme := hmine fun _ => by rw [hpc]; exact id
    have hat := h.holder me hme
    rw [hpc] at hs hat
    obtain ⟨hat, rfl⟩ := hat
    cases hs
    refine h.access rfl rfl rfl (by simp) hr.cont (fun _ _ => rfl) (fun _ => ?_) fun hno => absurd hme hno
    refine ⟨⟨hat.owner, ?_⟩, hself _ hat.owner⟩
    exact (toNat_pred (hat.refcount ▸ hat.pos)).trans hat.refcount
  | stored =>
    have hme := hmine fun _ => by rw [hpc]; exact id
    have hat := h.holder me hme
    rw [hpc] at hs hat
    cases hs
    obtain ⟨howner, hcount⟩ := hat
    split
    · rename_i hzero
      refine h.access rfl rfl rfl (by simp) hr.cont (fun _ _ => rfl) (fun _ => ?_) fun hno => absurd hme hno
      refine ⟨⟨howner, hzero, ?_⟩, hself _ howner⟩
      rw [hzero] at hcount
      exact hcount.symm
    · rename_i hnz
      have hpos : s.refcount.toNat ≠ 0 := fun h0 => hnz (toNat_eq_zero h0)
      refine h.access rfl rfl rfl (by simp) hr.cont (hdepth _) (fun _ => ?_) fun hno => absurd hme hno
      rw [show (s.unlocked me).depth me = s.depth me - 1 from update_self ..]
      refine ⟨⟨howner, ?_, ?_⟩, hself _ howner⟩
      · rw [← hcount]
        rfl
      · omega
  | resetting =>
    have hme := hmine fun _ => by rw [hpc]; exact id
    have hat := h.holder me hme
    rw [hpc] at hs hat
    cases hs
    exact h.access rfl rfl rfl (by simp) hr.cont (fun _ _ => rfl)
      (fun _ => ⟨⟨rfl, hat.2⟩, hundef _ rfl⟩) fun hno => absurd hme hno
  | _ =>
    rw [hpc] at hs
    cases hs

/-! ## Sections of the inner mutex -/

variable {k' : Kernel n} {held' : List (Nat × Fin n)} {pc : RmutexPc} {ret : MutexRet}

theorem RmutexInv.withMutex (h : RmutexInv cfg m s W M) (hs : s.withMutex cfg e = some (s', out)) :
    ∃ k' W' M', s' = { s with kernel := k', held := heldAfter s.held out } ∧
      MutexStepped cfg s.kernel k' W W' M M' e out ∧ HeldInv W' M' (heldAfter s.held out) := by
  obtain ⟨⟨k', out'⟩, hstep, heq⟩ := Option.map_eq_some_iff.mp hs
  cases heq
  obtain ⟨W', M', hst⟩ := mutexStep_moves h.inv hstep
  exact ⟨k', W', M', rfl, hst, hst.move.heldInv h.held⟩

theorem RmutexInv.congr (h : RmutexInv cfg m s W M) (hinv : MutexInv cfg k' W' M') (hheld : HeldInv W' M' held')
    (hW : W' (.mutexQueue m) = W (.mutexQueue m)) (hholds : ∀ t, (m, t) ∈ held' ↔ (m, t) ∈ s.held)
    (hcont : ∀ t, k'.cont t = .mutexLock m ↔ s.kernel.cont t = .mutexLock m)
    (hget : ∀ pid, threadGet cfg k'.sched pid = threadGet cfg s.kernel.sched pid)
    (hpid : k'.sched.pid = s.kernel.sched.pid) :
    RmutexInv cfg m { s with kernel := k', held := held' } W' M' where
  inv := hinv
  held := hheld
  cont := fun t => (hcont t).trans (h.cont t)
  waiting := by
    intro t ht
    obtain ⟨hpc, hno⟩ := h.waiting t (hW ▸ ht)
    exact ⟨hpc, fun hh => hno ((hholds t).mp hh)⟩
  holder := by
    intro t ht
    have hat := h.holder t ((hholds t).mp ht)
    rw [← hpid] at hat
    exact hat
  bystander := by
    intro t ht
    have hat := h.bystander t fun hh => ht ((hholds t).mpr hh)
    rw [← hW] at hat
    exact hat
  owner := fun t ht => (hholds t).mpr (h.owner t ((hget _).symm.trans ht))
  unheld := fun hno => h.unheld fun t ht => hno t ((hholds t).mpr ht)

/-- The place of a thread in `mutex_lock` goes with its place in the functions. -/
theorem cont_goto {c : Cont} (h : ∀ t, k.cont t = .mutexLock m ↔ s.pc t = .blocked)
    (hcont : k'.cont = update k.cont me c) (hpc : c = .mutexLock m ↔ pc = .blocked) :
    ∀ t, k'.cont t = .mutexLock m ↔ update s.pc me pc t = .blocked := by
  intro t
  rw [hcont]
  by_cases ht : t = me
  · subst ht
    rw [update_self, update_self]
    exact hpc
  · rw [update_of_ne ht, update_of_ne ht]
    exact h t

theorem cont_goto_same (h : ∀ t, k.cont t = .mutexLock m ↔ s.pc t = .blocked) (hcont : k'.cont = k.cont)
    (hme : s.pc me ≠ .blocked) (hpc : pc ≠ .blocked) :
    ∀ t, k'.cont t = .mutexLock m ↔ update s.pc me pc t = .blocked :=
  cont_goto h (hcont.trans (update_eq_self me k.cont).symm) (iff_of_false (fun hc => hme ((h me).mp hc)) hpc)

/-- **The mutex was free** and has been taken. -/
theorem RmutexInv.take (h : RmutexInv cfg m s W M)
    (hst : MutexStepped cfg s.kernel k' W W' M M' e (.locked m me ret))
    (hheld : HeldInv W' M' ((m, me) :: s.held)) (hcont : k'.cont = s.kernel.cont)
    (hme : s.pc me ≠ .blocked) :
    RmutexInv cfg m (({ s with kernel := k', held := (m, me) :: s.held } : Rmutex n).goto me .got) W' M' := by
  cases hst.move with
  | locked hfree hlevel hp hx =>
  have hnobody : ∀ t, ¬ s.Holds m t := h.held.not_mem hfree
  obtain ⟨howner, hrefcount⟩ := h.unheld hnobody
  have hholds : ∀ t, (m, t) ∈ (m, me) :: s.held ↔ t = me := by
    intro t
    rw [List.mem_cons, Prod.mk.injEq]
    exact ⟨fun ht => ht.elim And.right fun ht => absurd ht (hnobody t), fun ht => .inl ⟨rfl, ht⟩⟩
  refine ⟨hst.inv, hheld, cont_goto_same h.cont hcont hme (by simp), ?_, ?_, ?_, ?_, ?_⟩
  · intro t ht
    rw [hfree.1] at ht
    cases ht
  · intro t ht
    obtain rfl := (hholds t).mp ht
    rw [goto_pc_self]
    exact .inl ⟨howner, hrefcount, (h.bystander t (hnobody t)).2⟩
  · intro t ht
    have htm : t ≠ me := fun htm => ht ((hholds t).mpr htm)
    rw [goto_pc_ne htm]
    exact h.bystander t (hnobody t)
  · intro t ht
    have ht : threadGet cfg k'.sched s.owner = some t := ht
    rw [howner, threadGet_undef] at ht
    cases ht
  · intro hno
    exact absurd ((hholds me).mpr rfl) (hno me)

/-- **The thread waits** for the mutex. -/
theorem RmutexInv.block (h : RmutexInv cfg m s W M)
    (hst : MutexStepped cfg s.kernel k' W W' M M' e (.blocked m me)) (hheld : HeldInv W' M' s.held)
    (hcont : k'.cont = update s.kernel.cont me (.mutexLock m)) (hme : ¬ s.Holds m me) :
    RmutexInv cfg m (({ s with kernel := k' } : Rmutex n).goto me .blocked) W' M' := by
  cases hst.move with
  | blocked hlocked hp hx =>
  have hmem : ∀ t, t ∈ update W (.mutexQueue m) (insertPrio s.kernel.sched.priority me (W (.mutexQueue m)))
      (.mutexQueue m) ↔ t = me ∨ t ∈ W (.mutexQueue m) := by
    intro t
    rw [update_self]
    exact mem_insertPrio
  refine ⟨hst.inv, hheld, cont_goto h.cont hcont (iff_of_true rfl rfl), ?_, ?_, ?_, ?_, h.unheld⟩
  · intro t ht
    by_cases htm : t = me
    · subst htm
      exact ⟨goto_pc_self, hme⟩
    · rw [goto_pc_ne htm]
      exact h.waiting t (((hmem t).mp ht).resolve_left htm)
  · intro t ht
    have htm : t ≠ me := fun htm => hme (htm ▸ ht)
    rw [goto_pc_ne htm]
    have hat := h.holder t ht
    rw [← hst.pid] at hat
    exact hat
  · intro t ht
    obtain ⟨hat, hdepth⟩ := h.bystander t ht
    refine ⟨?_, hdepth⟩
    by_cases htm : t = me
    · subst htm
      rw [goto_pc_self]
      exact (hmem t).mpr (.inl rfl)
    · rw [goto_pc_ne htm]
      cases hpc : s.pc t with
      | blocked =>
        rw [hpc] at hat
        exact (hmem t).mpr (.inr hat)
      | _ =>
        rw [hpc] at hat
        exact hat
  · intro t ht
    exact h.owner t ((hst.get _).symm.trans ht)

/-- **The thread wakes up** with the mutex. -/
theorem RmutexInv.wake (h : RmutexInv cfg m s W M) {m' : Nat}
    (hst : MutexStepped cfg s.kernel k' W W' M M' e (.woken m' me ret)) (hheld : HeldInv W' M' s.held)
    (hcont : k'.cont = update s.kernel.cont me .idle) (hpc : s.pc me = .blocked)
    (hfree : Free W me) : RmutexInv cfg m (({ s with kernel := k' } : Rmutex n).goto me .got) W' M' := by
  cases hst.move with
  | woken hp hx =>
  have hme : s.Holds m me := by
    by_contra hno
    have hat := (h.bystander me hno).1
    rw [hpc] at hat
    exact hfree _ hat
  have hother : ∀ t, t ≠ me → (goto { s with kernel := k' } me .got).pc t = s.pc t :=
    fun t ht => update_of_ne ht ..
  refine ⟨hst.inv, hheld, cont_goto h.cont hcont (by simp), ?_, ?_, ?_, ?_, h.unheld⟩
  · intro t ht
    rw [hother t fun htm => hfree _ (htm ▸ ht)]
    exact h.waiting t ht
  · intro t ht
    obtain rfl := h.exclusive hme ht
    have hat := h.holder me hme
    rw [hpc] at hat
    rw [goto_pc_self]
    exact .inl hat
  · intro t ht
    rw [hother t fun htm => ht (htm ▸ hme)]
    exact h.bystander t ht
  · intro t ht
    exact h.owner t ((hst.get _).symm.trans ht)

theorem RmutexInv.release (h : RmutexInv cfg m s W M) (hpc : s.pc me = .releasing)
    (hst : MutexStepped cfg s.kernel k' W W' M M' (.call me (.unlock m)) out)
    (hheld : HeldInv W' M' (heldAfter s.held out)) :
    RmutexInv cfg m (({ s with kernel := k', held := heldAfter s.held out } : Rmutex n).unlocked me) W' M' ∧
      (m, me) ∉ heldAfter s.held out ∧ s.depth me = 1 := by
  have hme : s.Holds m me := by
    by_contra hno
    have hat := (h.bystander me hno).1
    rw [hpc] at hat
    exact hat
  have hat := h.holder me hme
  rw [hpc] at hat
  obtain ⟨howner, hrefcount, hdepth⟩ := hat
  have hnb : s.pc me ≠ .blocked := by simp [hpc]
  have hother : ∀ t, t ≠ me → ¬ s.Holds m t := fun t ht hh => ht (h.exclusive hh hme)
  obtain ⟨-, hcont, hout⟩ := hst.yields
  generalize hs' : (({ s with kernel := k', held := heldAfter s.held out } : Rmutex n).unlocked me) = s'
  have hpc' : ∀ t, t ≠ me → s'.pc t = s.pc t ∧ s'.depth t = s.depth t := by
    subst hs'
    exact fun t ht => ⟨update_of_ne ht .., update_of_ne ht ..⟩
  have hself : s'.pc me = .idle ∧ s'.depth me = 0 := by
    subst hs'
    refine ⟨update_self .., ?_⟩
    change update s.depth me (s.depth me - 1) me = 0
    rw [update_self]
    omega
  have hlock : s'.owner = kernelPidUndef ∧ s'.refcount = 0 := by
    subst hs'
    exact ⟨howner, hrefcount⟩
  have hkernel : s'.kernel = k' ∧ s'.held = heldAfter s.held out := by
    subst hs'
    exact ⟨rfl, rfl⟩
  have hcont' : ∀ t, s'.kernel.cont t = .mutexLock m ↔ s'.pc t = .blocked := by
    subst hs'
    exact cont_goto_same h.cont hcont hnb (by simp)
  have hname : ∀ t, threadGet cfg s'.kernel.sched s'.owner = some t → s'.Holds m t := by
    intro t ht
    rw [hlock.1, threadGet_undef] at ht
    cases ht
  rcases hout with ⟨rfl, hfree⟩ | rfl | ⟨t, rfl⟩
  · exact absurd hme (h.held.not_mem hfree me)
  · -- nobody waits
    cases hst.move with
    | released hw hm hp hx =>
    have hnobody : ∀ t, ¬ s'.Holds m t := by
      intro t ht
      unfold Rmutex.Holds at ht
      rw [hkernel.2] at ht
      exact not_mem_unhold ht
    refine ⟨⟨hkernel.1 ▸ hst.inv, hkernel.2 ▸ hheld, hcont', ?_, ?_, ?_, hname, fun _ => hlock⟩, not_mem_unhold, hdepth⟩
    · intro t ht
      rw [hw] at ht
      cases ht
    · exact fun t ht => absurd ht (hnobody t)
    · intro t _
      by_cases htm : t = me
      · subst htm
        rw [hself.1]
        exact ⟨trivial, hself.2⟩
      · rw [(hpc' t htm).1, (hpc' t htm).2]
        exact h.bystander t (hother t htm)
  · -- the first waiter gets the mutex
    cases hst.move with
    | @handed _ _ _ ts hw hp hx =>
    have hholds : ∀ u, s'.Holds m u ↔ u = t := by
      intro u
      unfold Rmutex.Holds
      rw [hkernel.2, show heldAfter s.held (.handed m t) = (m, t) :: unhold s.held m from rfl, List.mem_cons,
        Prod.mk.injEq]
      exact ⟨fun hu => hu.elim And.right fun hu => absurd hu not_mem_unhold, fun hu => .inl ⟨rfl, hu⟩⟩
    have hnodup := h.inv.inv.waiting.nodup (.mutexQueue m)
    rw [hw] at hnodup
    have hmem : ∀ u, u ∈ W (.mutexQueue m) ↔ u = t ∨ u ∈ ts := by
      intro u
      rw [hw, List.mem_cons]
    have htm : t ≠ me := fun htm => hnb (htm ▸ (h.waiting t ((hmem t).mpr (.inl rfl))).1)
    have hW : update W (.mutexQueue m) ts (.mutexQueue m) = ts := update_self ..
    refine ⟨⟨hkernel.1 ▸ hst.inv, hkernel.2 ▸ hheld, hcont', ?_, ?_, ?_, hname, fun _ => hlock⟩, ?_, hdepth⟩
    · intro u hu
      rw [hW] at hu
      obtain ⟨hb, -⟩ := h.waiting u ((hmem u).mpr (.inr hu))
      refine ⟨((hpc' u fun hum => hnb (hum ▸ hb)).1).trans hb, fun hh => ?_⟩
      rw [(hholds u).mp hh] at hu
      exact (List.nodup_cons.mp hnodup).1 hu
    · intro u hu
      obtain rfl := (hholds u).mp hu
      obtain ⟨hb, hno⟩ := h.waiting u ((hmem u).mpr (.inl rfl))
      rw [(hpc' u htm).1, (hpc' u htm).2, hb]
      exact ⟨hlock.1, hlock.2, (h.bystander u hno).2⟩
    · intro u hu
      have hut : u ≠ t := fun hut => hu ((hholds u).mpr hut)
      by_cases hum : u = me
      · subst hum
        rw [hself.1]
        exact ⟨trivial, hself.2⟩
      · rw [(hpc' u hum).1, (hpc' u hum).2, hW]
        obtain ⟨hat, hd⟩ := h.bystander u (hother u hum)
        refine ⟨?_, hd⟩
        cases hup : s.pc u with
        | blocked =>
          rw [hup] at hat
          exact ((hmem u).mp hat).resolve_left hut
        | _ =>
          rw [hup] at hat
          exact hat
    · intro hme'
      rw [← hkernel.2] at hme'
      exact htm ((hholds me).mp hme').symm

/-! ## Sections of other mutexes -/

/-- The mutex an outcome is about, as far as its queue or its holder has changed. -/
def MutexOut.changes : MutexOut n → Option Nat
  | .blocked m _ => some m
  | .locked m _ _ => some m
  | .released m => some m
  | .handed m _ => some m
  | .dequeued m _ => some m
  | _ => none

theorem MutexMove.unchanged {b : Bool} (hmove : MutexMove cfg k W M b out k' W' M') (hout : out.changes ≠ some m)
    (held : List (Nat × Fin n)) : W' (.mutexQueue m) = W (.mutexQueue m) ∧
      ∀ t, (m, t) ∈ heldAfter held out ↔ (m, t) ∈ held := by
  have hne : ∀ m', some m' ≠ some m → m ≠ m' := fun m' hm hmm => hm (hmm ▸ rfl)
  cases hmove with
  | nothing => exact ⟨rfl, fun _ => Iff.rfl⟩
  | refused => exact ⟨rfl, fun _ => Iff.rfl⟩
  | woken => exact ⟨rfl, fun _ => Iff.rfl⟩
  | blocked => exact ⟨update_queue_ne m (hne _ hout), fun _ => Iff.rfl⟩
  | locked => exact ⟨rfl, fun t => by simp [heldAfter, hne _ hout]⟩
  | released => exact ⟨rfl, fun t => by simp [heldAfter, hne _ hout]⟩
  | handed => exact ⟨update_queue_ne m (hne _ hout), fun t => by simp [heldAfter, hne _ hout]⟩
  | dequeued => exact ⟨update_queue_ne m (hne _ hout), fun _ => Iff.rfl⟩

theorem UnlockOut.changes {m' : Nat} (hout : UnlockOut W M m' out) (hm : m' ≠ m) : out.changes ≠ some m := by
  rcases hout with ⟨rfl, -⟩ | rfl | ⟨t, rfl⟩ <;> simp [MutexOut.changes, hm]

theorem RmutexInv.foreign (h : RmutexInv cfg m s W M) (he : s.Foreign m e)
    (hst : MutexStepped cfg s.kernel k' W W' M M' e out) :
    out.changes ≠ some m ∧ ∀ t, k'.cont t = .mutexLock m ↔ s.kernel.cont t = .mutexLock m := by
  have hy := hst.yields
  have hsame : k'.cont = s.kernel.cont → ∀ t, k'.cont t = .mutexLock m ↔ s.kernel.cont t = .mutexLock m := by
    intro hc t
    rw [hc]
  have hset : ∀ me c, k'.cont = update s.kernel.cont me c → c ≠ .mutexLock m → s.pc me = .idle →
      ∀ t, k'.cont t = .mutexLock m ↔ s.kernel.cont t = .mutexLock m := by
    intro me c hc hcm hidle t
    rw [hc]
    by_cases ht : t = me
    · subst ht
      rw [update_self]
      refine iff_of_false hcm fun hm => ?_
      have := (h.cont t).mp hm
      rw [hidle] at this
      cases this
    · rw [update_of_ne ht]
  cases e with
  | call me c =>
    cases c with
    | lock m' =>
      obtain ⟨hidle, hm⟩ := he
      obtain ⟨-, -, -, ⟨rfl, hc⟩ | ⟨rfl, hc⟩⟩ := hy
      · exact ⟨by simpa [MutexOut.changes] using hm, hsame hc⟩
      · exact ⟨by simpa [MutexOut.changes] using hm, hset me _ hc (by simpa using hm) hidle⟩
    | trylock m' =>
      obtain ⟨hidle, hm⟩ := he
      obtain ⟨-, -, hc, rfl | rfl⟩ := hy
      · exact ⟨by simpa [MutexOut.changes] using hm, hsame hc⟩
      · exact ⟨by simp [MutexOut.changes], hsame hc⟩
    | cancelInit mc m' =>
      obtain ⟨-, rfl, hc, -⟩ := hy
      exact ⟨by simp [MutexOut.changes], hsame hc⟩
    | lockCancelable mc =>
      obtain ⟨hidle, hm⟩ := he
      obtain ⟨-, -, -, c, hmc, ⟨-, rfl, hc⟩ | ⟨-, ⟨rfl, hc⟩ | ⟨rfl, hc⟩⟩⟩ := hy
      · exact ⟨by simp [MutexOut.changes], hsame hc⟩
      · exact ⟨by simpa [MutexOut.changes] using hm c hmc, hsame hc⟩
      · exact ⟨by simpa [MutexOut.changes] using hm c hmc, hset me _ hc (by simp) hidle⟩
    | unlock m' =>
      obtain ⟨-, hc, hout⟩ := hy
      exact ⟨hout.changes he.2, hsame hc⟩
    | unlockAndSleep m' =>
      obtain ⟨-, -, hc, hout⟩ := hy
      exact ⟨hout.changes he.2, hset me _ hc (by simp) he.1⟩
    | cancel mc =>
      obtain ⟨hc, c, hmc, -, rfl | ⟨rfl, -⟩⟩ := hy
      · exact ⟨by simpa [MutexOut.changes] using he.2 c hmc, hsame hc⟩
      · exact ⟨by simp [MutexOut.changes], hsame hc⟩
  | resume me =>
    obtain ⟨-, -, hc, ⟨m', -, rfl⟩ | ⟨mc, c, -, -, rfl⟩ | ⟨-, rfl⟩⟩ := hy <;>
      exact ⟨by simp [MutexOut.changes], hset me _ hc (by simp) he⟩
  | isrUnlock m' =>
    obtain ⟨-, hc, hout⟩ := hy
    exact ⟨hout.changes he, hsame hc⟩
  | isrCancel mc =>
    obtain ⟨hc, c, hmc, -, rfl | ⟨rfl, -⟩⟩ := hy
    · exact ⟨by simpa [MutexOut.changes] using he c hmc, hsame hc⟩
    · exact ⟨by simp [MutexOut.changes], hsame hc⟩
  | wakeup pid =>
    obtain ⟨rfl, -, hc⟩ := hy
    exact ⟨by simp [MutexOut.changes], hsame hc⟩

end Riot.Core
