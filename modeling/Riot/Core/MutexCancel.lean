import Riot.Core.MutexHist

/-!
# What a cancelled lock returns

`mutex_lock_cancelable` decides what to return when its thread runs again, from
the flag in its `mutex_cancel_t`. A thread that has been handed the mutex and not
run since can still be cancelled: it is no longer in the queue, so only the flag
is set, and it returns `-ECANCELED` although the mutex is its own.
-/

namespace Riot.Core

open Riot.Lib Function

variable {n : Nat}

/-! ## The documented use -/

/-- "You MUST NOT call this function once the thread referred to by mc reuses the
mutex object": the thread is not in another call that locks the mutex. -/
def CancelPermitted (k : Kernel n) (mc : Nat) (c : MutexCancel n) : Prop :=
  match k.cont c.thread with
  | .mutexLock m => m ≠ c.mutex
  | .mutexLockCancelable mc' =>
    mc' = mc ∨ (k.mutexCancel mc').map MutexCancel.mutex ≠ some c.mutex
  | _ => True

instance (k : Kernel n) (mc : Nat) (c : MutexCancel n) : Decidable (CancelPermitted k mc c) := by
  unfold CancelPermitted
  split <;> infer_instance

/-- The calls the documentation permits. -/
def MutexPermitted (k : Kernel n) : MutexEvent n → Prop
  -- the structure is not in use
  | .call _ (.cancelInit mc _) => ∀ t, k.cont t ≠ .mutexLockCancelable mc
  -- "initialized with mutex_cancel_init by the calling thread"
  | .call me (.lockCancelable mc) => ∀ c ∈ k.mutexCancel mc, c.thread = me
  | .call _ (.cancel mc) => ∀ c ∈ k.mutexCancel mc, CancelPermitted k mc c
  | .isrCancel mc => ∀ c ∈ k.mutexCancel mc, CancelPermitted k mc c
  | _ => True

instance (k : Kernel n) (e : MutexEvent n) : Decidable (MutexPermitted k e) := by
  unfold MutexPermitted
  split <;> infer_instance

/-! ## The claim and the condition -/

/-- The return value tells the caller whether the mutex is its own. -/
def MutexReturn.Faithful (r : MutexReturn n) : Prop :=
  (r.ret = .int negEcanceled → r.owns = false) ∧ (r.ret = .int 0 → r.owns = true)

/-- All callers have been told the truth, and every locked mutex has a holder that
takes itself for one. -/
structure CancelFaithful (s : Kernel n × MutexHist n) : Prop where
  returns : ∀ r ∈ s.2.returns, r.Faithful
  owned : ∀ m, MutexLocked s.1 m → ∃ t, (m, t) ∈ s.2.held ∧ s.2.disowned m = false

/-- The thread is in `mutex_lock_cancelable`, for this mutex. -/
def Cancelable (k : Kernel n) (m : Nat) (t : Fin n) : Prop :=
  match k.cont t with
  | .mutexLockCancelable mc => (k.mutexCancel mc).map MutexCancel.mutex = some m
  | _ => False

instance (k : Kernel n) (m : Nat) (t : Fin n) : Decidable (Cancelable k m t) := by
  unfold Cancelable
  split <;> infer_instance

/-- The thread the structure belongs to is not one that has got the mutex, but
has yet to return. -/
def NotHanded (s : Kernel n × MutexHist n) (mc : Nat) : Prop :=
  ∀ c ∈ s.1.mutexCancel mc,
    s.1.cont c.thread = .mutexLockCancelable mc → (c.mutex, c.thread) ∉ s.2.held

/-- The holder of the mutex has returned from `mutex_lock_cancelable`. -/
def HolderReturned (s : Kernel n × MutexHist n) (m : Nat) : Prop :=
  ∀ t, (m, t) ∈ s.2.held → ¬ Cancelable s.1 m t

/-- Between the hand-over of a mutex to a thread in `mutex_lock_cancelable` and
that thread's return the lock is not cancelled and the mutex is not unlocked; and
no thread locks a mutex it has. -/
def NoLateCancel (s : Kernel n × MutexHist n) : MutexEvent n → Prop
  | .call me (.lockCancelable mc) => ∀ c ∈ s.1.mutexCancel mc, (c.mutex, me) ∉ s.2.held
  | .call _ (.unlock m) => HolderReturned s m
  | .call _ (.unlockAndSleep m) => HolderReturned s m
  | .isrUnlock m => HolderReturned s m
  | .call _ (.cancel mc) => NotHanded s mc
  | .isrCancel mc => NotHanded s mc
  | _ => True

instance (s : Kernel n × MutexHist n) (mc : Nat) : Decidable (NotHanded s mc) := by
  unfold NotHanded
  infer_instance

instance (s : Kernel n × MutexHist n) (m : Nat) : Decidable (HolderReturned s m) := by
  unfold HolderReturned
  infer_instance

instance (s : Kernel n × MutexHist n) (e : MutexEvent n) : Decidable (NoLateCancel s e) := by
  unfold NoLateCancel
  split <;> infer_instance

/-! ## The invariant -/

/-- The flag of a thread in `mutex_lock_cancelable` is right: not set while the
thread waits, set afterwards exactly if it did not get the mutex. -/
def CancelSound (k : Kernel n) (W : WaitList n → List (Fin n)) (held : List (Nat × Fin n))
    (t : Fin n) (mc : Nat) : Prop :=
  ∃ c, k.mutexCancel mc = some c ∧ c.thread = t ∧
    (t ∈ W (.mutexQueue c.mutex) → c.cancelled = false ∧ (c.mutex, t) ∉ held) ∧
    (t ∉ W (.mutexQueue c.mutex) → (c.cancelled = true ↔ (c.mutex, t) ∉ held))

structure CancelInv (s : Kernel n × MutexHist n) (W : WaitList n → List (Fin n)) : Prop where
  sound : ∀ t mc, s.1.cont t = .mutexLockCancelable mc → CancelSound s.1 W s.2.held t mc
  returns : ∀ r ∈ s.2.returns, r.Faithful
  disowned : ∀ m, s.2.disowned m = false

variable {cfg : Cfg} {k k' : Kernel n} {s s' : Kernel n × MutexHist n}
  {W W' : WaitList n → List (Fin n)} {M M' : WaitList n → Prop} {held : List (Nat × Fin n)}
  {b : Bool} {e : MutexEvent n} {out : MutexOut n} {t : Fin n} {mc : Nat}

/-- A move that neither concerns the thread nor takes the mutex away from it
leaves its flag right. -/
theorem MutexMove.cancelSound (hm : MutexMove cfg k W M b out k' W' M')
    (hnd : ∀ w, (W w).Nodup) (hcancel : k'.mutexCancel mc = k.mutexCancel mc)
    (hactor : ∀ m, out ≠ .blocked m t ∧ ∀ ret, out ≠ .locked m t ret)
    (hwindow : ∀ m, (out = .released m ∨ ∃ u, out = .handed m u) →
      (k.mutexCancel mc).map MutexCancel.mutex = some m → (m, t) ∉ held)
    (hdequeued : ∀ m, out = .dequeued m t → (k.mutexCancel mc).map MutexCancel.mutex ≠ some m)
    (h : CancelSound k W held t mc) : CancelSound k' W' (heldAfter held out) t mc := by
  obtain ⟨c, hc, ht, hin, hnot⟩ := h
  refine ⟨c, hcancel.trans hc, ht, ?_⟩
  simp only [hc, Option.map_some, Option.some.injEq] at hwindow hdequeued
  cases hm with
  | nothing => exact ⟨hin, hnot⟩
  | refused => exact ⟨hin, hnot⟩
  | woken => exact ⟨hin, hnot⟩
  | @blocked _ m me =>
    have hme : t ≠ me := fun h => (hactor m).1 (by rw [h])
    have hq : t ∈ update W (.mutexQueue m)
        (insertPrio k.sched.priority me (W (.mutexQueue m))) (.mutexQueue c.mutex) ↔
        t ∈ W (.mutexQueue c.mutex) := by
      rw [mem_update_queue]
      split
      · rename_i hmm
        rw [mem_insertPrio, hmm]
        simp [hme]
      · rfl
    rw [hq]
    exact ⟨hin, hnot⟩
  | @locked _ m me ret =>
    have hme : t ≠ me := fun h => (hactor m).2 ret (by rw [h])
    simpa [heldAfter, hme] using ⟨hin, hnot⟩
  | @released _ m =>
    have hkeep : (c.mutex, t) ∈ unhold held m ↔ (c.mutex, t) ∈ held := by
      rw [mem_unhold]
      refine ⟨And.left, fun h => ⟨h, fun hmm => ?_⟩⟩
      exact hwindow m (.inl rfl) hmm (hmm ▸ h)
    dsimp only [heldAfter]
    rw [hkeep]
    exact ⟨hin, hnot⟩
  | @handed _ m u us hw =>
    by_cases hmm : c.mutex = m
    · have hnh : (m, t) ∉ held := hwindow m (.inr ⟨u, rfl⟩) hmm
      rw [hmm] at hin hnot ⊢
      rw [hw] at hin hnot
      have hnd := List.nodup_cons.mp (hw ▸ hnd (.mutexQueue m))
      by_cases htu : t = u
      · subst htu
        -- it is handed the mutex
        have := hin (by simp)
        rw [update_self]
        exact ⟨fun hts => absurd hts hnd.1, fun _ => by simp [heldAfter, this.1]⟩
      · simp only [List.mem_cons, htu, false_or] at hin hnot
        rw [update_self]
        simp only [heldAfter, List.mem_cons, Prod.mk.injEq, htu, and_false, not_mem_unhold,
          or_self, not_false_eq_true, and_true, iff_true]
        exact ⟨fun hts => (hin hts).1, fun hts => (hnot hts).mpr hnh⟩
    · simpa [heldAfter, hmm] using ⟨hin, hnot⟩
  | @dequeued _ m u hu =>
    by_cases hmm : c.mutex = m
    · have htu : t ≠ u := fun h => hdequeued m (by rw [h]) (congrArg some hmm)
      rw [hmm] at hin hnot ⊢
      rw [update_self, List.mem_erase_of_ne htu]
      exact ⟨hin, hnot⟩
    · rw [update_queue_ne _ hmm]
      exact ⟨hin, hnot⟩

theorem CancelInv.sound_frame (h : CancelInv s W) (hst : MutexStepped cfg s.1 k' W W' M M' e out)
    (hnd : ∀ w, (W w).Nodup) (hc : s.1.cont t = .mutexLockCancelable mc)
    (hcancel : k'.mutexCancel mc = s.1.mutexCancel mc)
    (hactor : ∀ m, out ≠ .blocked m t ∧ ∀ ret, out ≠ .locked m t ret)
    (hwindow : ∀ m, (out = .released m ∨ ∃ u, out = .handed m u) → HolderReturned s m)
    (hdequeued : ∀ m, out = .dequeued m t → (s.1.mutexCancel mc).map MutexCancel.mutex ≠ some m) :
    CancelSound k' W' (heldAfter s.2.held out) t mc := by
  refine hst.move.cancelSound hnd hcancel hactor (fun m ho hmc hheld => ?_) hdequeued
    (h.sound t mc hc)
  refine hwindow m ho t hheld ?_
  unfold Cancelable
  rw [hc]
  exact hmc

theorem CancelInv.record (h : CancelInv s W) (out : MutexOut n)
    (hret : ∀ m me ret, out = .locked m me ret ∨ out = .refused m me ret ∨ out = .woken m me ret →
      (⟨me, m, ret, decide ((m, me) ∈ heldAfter s.2.held out)⟩ : MutexReturn n).Faithful) :
    (∀ r ∈ (mutexRecord s.2 out).returns, r.Faithful) ∧ ∀ m, (mutexRecord s.2 out).disowned m = false := by
  have hkeep : ∀ m x, update s.2.disowned m false x = false := by
    intro m x
    by_cases hx : x = m
    · rw [hx, update_self]
    · rw [update_of_ne hx]
      exact h.disowned x
  unfold mutexRecord
  cases out with
  | locked m me ret => exact ⟨by simpa using ⟨hret m me ret (by simp), h.returns⟩, hkeep m⟩
  | refused m me ret => exact ⟨by simpa using ⟨hret m me ret (by simp), h.returns⟩, h.disowned⟩
  | woken m me ret =>
    have hf := hret m me ret (by simp)
    refine ⟨by simpa using ⟨hf, h.returns⟩, fun x => ?_⟩
    dsimp only
    rw [if_neg]
    · exact h.disowned x
    · rintro ⟨hr, hheld⟩
      have := hf.1 hr
      simp only [decide_eq_false_iff_not] at this
      exact this hheld
  | handed m u => exact ⟨h.returns, hkeep m⟩
  | nothing => exact ⟨h.returns, h.disowned⟩
  | blocked m me => exact ⟨h.returns, h.disowned⟩
  | released m => exact ⟨h.returns, h.disowned⟩
  | dequeued m u => exact ⟨h.returns, h.disowned⟩

theorem cont_of_update {k k' : Kernel n} {me : Fin n} {c : Cont}
    (hk : k'.cont = update k.cont me c) (hne : ∀ mc, c ≠ .mutexLockCancelable mc)
    (ht : k'.cont t = .mutexLockCancelable mc) : k.cont t = .mutexLockCancelable mc ∧ t ≠ me := by
  rw [hk] at ht
  by_cases htm : t = me
  · subst htm
    rw [update_self] at ht
    exact absurd ht (hne mc)
  · rw [update_of_ne htm] at ht
    exact ⟨ht, htm⟩

theorem CancelInv.unlock (h : CancelInv s W) (hst : MutexStepped cfg s.1 k' W W' M M' e out)
    (hnd : ∀ w, (W w).Nodup) {m : Nat} (hout : UnlockOut W M m out) (hok : HolderReturned s m)
    (hcancel : k'.mutexCancel = s.1.mutexCancel)
    (hcont : ∀ t mc, k'.cont t = .mutexLockCancelable mc → s.1.cont t = .mutexLockCancelable mc) :
    CancelInv (k', mutexRecord s.2 out) W' := by
  obtain ⟨hret, hdis⟩ := h.record out (by
    rintro m' me ret ho
    rcases hout with ⟨rfl, _⟩ | rfl | ⟨u, rfl⟩ <;> simp at ho)
  refine ⟨fun t mc hc => ?_, hret, hdis⟩
  rw [mutexRecord_held]
  refine h.sound_frame hst hnd (hcont t mc hc) (congrFun hcancel mc) (fun m' => ?_)
    (fun m' ho => ?_) (fun m' ho => ?_)
  · rcases hout with ⟨rfl, _⟩ | rfl | ⟨u, rfl⟩ <;> simp
  · have : m' = m := by
      rcases hout with ⟨rfl, _⟩ | rfl | ⟨u, rfl⟩ <;> simp at ho <;> exact ho.symm
    rw [this]
    exact hok
  · rcases hout with ⟨rfl, _⟩ | rfl | ⟨u, rfl⟩ <;> simp at ho

/-- Cancelling sets the flag of a thread that waits, and then the thread does not
wait any more; or of one that has not been handed the mutex. -/
theorem CancelInv.cancel (h : CancelInv s W) (hst : MutexStepped cfg s.1 k' W W' M M' e out)
    (hnd : ∀ w, (W w).Nodup) {mc : Nat} {c : MutexCancel n} (hc : s.1.mutexCancel mc = some c)
    (hout : out = .dequeued c.mutex c.thread ∨ out = .nothing ∧ c.thread ∉ W (.mutexQueue c.mutex))
    (hperm : CancelPermitted s.1 mc c) (hok : NotHanded s mc) (hcont : k'.cont = s.1.cont)
    (hcancel : k'.mutexCancel = update s.1.mutexCancel mc (some { c with cancelled := true })) :
    CancelInv (k', mutexRecord s.2 out) W' := by
  obtain ⟨hret, hdis⟩ := h.record out (by
    rintro m' me ret ho
    rcases hout with rfl | ⟨rfl, _⟩ <;> simp at ho)
  refine ⟨fun t mc' ht' => ?_, hret, hdis⟩
  have ht : s.1.cont t = .mutexLockCancelable mc' := by rw [← hcont]; exact ht'
  rw [mutexRecord_held]
  by_cases hmm : mc' = mc
  · subst hmm
    -- the thread it belongs to: it is out of the queue, and holds nothing
    obtain ⟨c', hc', hthread, -⟩ := h.sound t mc' ht
    obtain rfl : c = c' := Option.some.inj (hc.symm.trans hc')
    subst hthread
    have hnh := hok c hc ht
    have hheld : heldAfter s.2.held out = s.2.held := by
      rcases hout with rfl | ⟨rfl, _⟩ <;> rfl
    have hnw : c.thread ∉ W' (.mutexQueue c.mutex) := by
      have hmove := hst.move
      rcases hout with rfl | ⟨rfl, hnot⟩
      · cases hmove with
        | dequeued hu =>
          rw [update_self]
          exact (hnd _).not_mem_erase
      · cases hmove with
        | nothing => exact hnot
    refine ⟨{ c with cancelled := true }, by rw [hcancel, update_self], rfl,
      fun hw => absurd hw hnw, fun _ => ?_⟩
    rw [hheld]
    exact iff_of_true rfl hnh
  · refine h.sound_frame hst hnd ht (by rw [hcancel, update_of_ne hmm]) (fun m' => ?_)
      (fun m' ho => ?_) (fun m' ho => ?_)
    · rcases hout with rfl | ⟨rfl, _⟩ <;> simp
    · rcases hout with rfl | ⟨rfl, _⟩ <;> simp at ho
    · rcases hout with rfl | ⟨rfl, _⟩
      · simp only [MutexOut.dequeued.injEq] at ho
        have hother := hperm
        unfold CancelPermitted at hother
        rw [ho.2, ht] at hother
        rw [← ho.1]
        exact hother.resolve_left hmm
      · exact absurd ho (by simp)

theorem CancelInv.acts (h : CancelInv s W) (hst : MutexStepped cfg s.1 k' W W' M M' e out)
    (hnd : ∀ w, (W w).Nodup) (me : Fin n)
    (hout : out = .nothing ∨ ∃ m ret, out = .locked m me ret ∨ out = .blocked m me ∨
      out = .refused m me ret ∨ out = .woken m me ret)
    (hret : ∀ m me ret, out = .locked m me ret ∨ out = .refused m me ret ∨ out = .woken m me ret →
      (⟨me, m, ret, decide ((m, me) ∈ heldAfter s.2.held out)⟩ : MutexReturn n).Faithful)
    (hcancel : ∀ t mc, t ≠ me → s.1.cont t = .mutexLockCancelable mc → k'.mutexCancel mc = s.1.mutexCancel mc)
    (hcont : ∀ t, t ≠ me → k'.cont t = s.1.cont t)
    (hme : ∀ mc, k'.cont me = .mutexLockCancelable mc → CancelSound k' W' (heldAfter s.2.held out) me mc) :
    CancelInv (k', mutexRecord s.2 out) W' := by
  obtain ⟨hret, hdis⟩ := h.record out hret
  refine ⟨fun t mc ht => ?_, hret, hdis⟩
  rw [mutexRecord_held]
  by_cases htm : t = me
  · subst htm
    exact hme mc ht
  · have hc : s.1.cont t = .mutexLockCancelable mc := (hcont t htm).symm.trans ht
    refine h.sound_frame hst hnd hc (hcancel t mc htm hc) (fun m => ?_) (fun m ho => ?_)
      (fun m ho => ?_)
    · have : me ≠ t := fun h => htm h.symm
      rcases hout with rfl | ⟨m', ret, rfl | rfl | rfl | rfl⟩ <;> simp [this]
    · rcases hout with rfl | ⟨m', ret, rfl | rfl | rfl | rfl⟩ <;> simp at ho
    · rcases hout with rfl | ⟨m', ret, rfl | rfl | rfl | rfl⟩ <;> simp at ho

theorem faithful_of_owns {m : Nat} {me : Fin n} {i : Int} {owns : Bool} (hi : i ≠ negEcanceled)
    (h : owns = true) : (⟨me, m, .int i, owns⟩ : MutexReturn n).Faithful :=
  ⟨fun hret => absurd (MutexRet.int.inj hret) hi, fun _ => h⟩

theorem faithful_of_cancelled {m : Nat} {me : Fin n} {owns : Bool} (h : owns = false) :
    (⟨me, m, .int negEcanceled, owns⟩ : MutexReturn n).Faithful :=
  ⟨fun _ => h, fun hret => absurd (MutexRet.int.inj hret) (by decide)⟩

theorem faithful_bool {m : Nat} {me : Fin n} {r owns : Bool} :
    (⟨me, m, .bool r, owns⟩ : MutexReturn n).Faithful :=
  ⟨fun h => absurd h (by simp), fun h => absurd h (by simp)⟩

/-- **One step.** -/
theorem cancelInv_step (h : MutexHistInv cfg s W M) (hc : CancelInv s W)
    (hperm : MutexPermitted s.1 e) (hok : NoLateCancel s e)
    (hs : mutexHistStep cfg s e = some s') :
    ∃ W' M', MutexHistInv cfg s' W' M' ∧ CancelInv s' W' := by
  obtain ⟨W', M', out, h', hst, hrec⟩ := mutexHistStep_moves h hs
  refine ⟨W', M', h', ?_⟩
  have hnd := h.inv.inv.waiting.nodup
  have hy := hst.yields
  suffices CancelInv (s'.1, mutexRecord s.2 out) W' by rwa [← hrec] at this
  cases e with
  | call me x =>
    cases x with
    | lock m =>
      obtain ⟨_, hidle, hcancel, hout⟩ := hy
      refine hc.acts hst hnd me (.inr ⟨m, .bool true, ?_⟩) (fun m' u ret ho => ?_)
        (fun t mc _ _ => congrFun hcancel mc) (fun t htm => ?_) (fun mc ht => ?_)
      · rcases hout with ⟨rfl, _⟩ | ⟨rfl, _⟩ <;> simp
      · rcases hout with ⟨rfl, _⟩ | ⟨rfl, _⟩ <;> simp at ho
        obtain ⟨rfl, rfl, rfl⟩ := ho
        exact faithful_bool
      · rcases hout with ⟨_, hcont⟩ | ⟨_, hcont⟩
        · rw [hcont]
        · rw [hcont, update_of_ne htm]
      · rcases hout with ⟨_, hcont⟩ | ⟨_, hcont⟩
        · rw [hcont, hidle] at ht
          exact absurd ht (by simp)
        · rw [hcont, update_self] at ht
          exact absurd ht (by simp)
    | trylock m =>
      obtain ⟨hidle, hcancel, hcont, hout⟩ := hy
      refine hc.acts hst hnd me (.inr ?_) (fun m' u ret ho => ?_)
        (fun t mc _ _ => congrFun hcancel mc) (fun t _ => congrFun hcont t) (fun mc ht => ?_)
      · rcases hout with rfl | rfl
        · exact ⟨m, .bool true, by simp⟩
        · exact ⟨m, .bool false, by simp⟩
      · rcases hout with rfl | rfl <;> simp at ho <;> obtain ⟨rfl, rfl, rfl⟩ := ho <;> exact faithful_bool
      · rw [hcont, hidle] at ht
        exact absurd ht (by simp)
    | cancelInit mc m =>
      obtain ⟨hidle, rfl, hcont, hcancel⟩ := hy
      refine hc.acts hst hnd me (.inl rfl) (fun m' u ret ho => by simp at ho)
        (fun t mc' _ ht => ?_) (fun t _ => congrFun hcont t) (fun mc' ht => ?_)
      · have hne : mc' ≠ mc := fun h => hperm t (h ▸ ht)
        rw [hcancel, update_of_ne hne]
      · rw [hcont, hidle] at ht
        exact absurd ht (by simp)
    | lockCancelable mc =>
      obtain ⟨hfree, hidle, hcancel, c, hmc, hout⟩ := hy
      have hnh : (c.mutex, me) ∉ s.2.held := hok c hmc
      have hact : out = .refused c.mutex me (.int negEcanceled) ∨
          out = .locked c.mutex me (.int 0) ∨ out = .blocked c.mutex me := by
        rcases hout with ⟨_, ho, _⟩ | ⟨_, ⟨ho, _⟩ | ⟨ho, _⟩⟩ <;> simp [ho]
      refine hc.acts hst hnd me (.inr ?_) (fun m' u ret ho => ?_)
        (fun t mc' _ _ => congrFun hcancel mc') (fun t htm => ?_) (fun mc' ht => ?_)
      · rcases hact with rfl | rfl | rfl
        · exact ⟨c.mutex, .int negEcanceled, by simp⟩
        · exact ⟨c.mutex, .int 0, by simp⟩
        · exact ⟨c.mutex, .int 0, by simp⟩
      · rcases hact with rfl | rfl | rfl <;> simp at ho <;> obtain ⟨rfl, rfl, rfl⟩ := ho
        · exact faithful_of_cancelled (decide_eq_false hnh)
        · exact faithful_of_owns (by decide) (by simp [heldAfter])
      · rcases hout with ⟨_, _, hcont⟩ | ⟨_, ⟨_, hcont⟩ | ⟨_, hcont⟩⟩
        · rw [hcont]
        · rw [hcont]
        · rw [hcont, update_of_ne htm]
      · rcases hout with ⟨_, _, hcont⟩ | ⟨hflag, ⟨_, hcont⟩ | ⟨rfl, hcont⟩⟩
        · rw [hcont, hidle] at ht
          exact absurd ht (by simp)
        · rw [hcont, hidle] at ht
          exact absurd ht (by simp)
        -- the caller waits
        · rw [hcont, update_self] at ht
          obtain rfl : mc = mc' := by simpa using ht
          refine ⟨c, (congrFun hcancel mc).trans hmc, hperm c hmc, fun _ => ⟨hflag, hnh⟩,
            fun hnw => absurd ?_ hnw⟩
          have hmove := hst.move
          cases hmove with
          | blocked =>
            rw [update_self]
            exact mem_insertPrio.mpr (.inl rfl)
    | unlock m =>
      obtain ⟨hcancel, hcont, hout⟩ := hy
      exact hc.unlock hst hnd hout hok hcancel fun t mc ht => hcont ▸ ht
    | unlockAndSleep m =>
      obtain ⟨_, hcancel, hcont, hout⟩ := hy
      exact hc.unlock hst hnd hout hok hcancel fun t mc ht => (cont_of_update hcont (by simp) ht).1
    | cancel mc =>
      obtain ⟨hcont, c, hmc, hcancel, hout⟩ := hy
      exact hc.cancel hst hnd hmc hout (hperm c hmc) hok hcont hcancel
  | resume me =>
    obtain ⟨hfree, hcancel, hcont, hout⟩ := hy
    refine hc.acts hst hnd me ?_ (fun m' u ret ho => ?_)
      (fun t mc _ _ => congrFun hcancel mc)
      (fun t htm => by rw [hcont, update_of_ne htm]) (fun mc ht => ?_)
    · rcases hout with ⟨m, _, rfl⟩ | ⟨mc, c, _, _, rfl⟩ | ⟨_, rfl⟩
      · exact .inr ⟨m, .bool true, by simp⟩
      · exact .inr ⟨c.mutex, _, .inr (.inr (.inr rfl))⟩
      · exact .inl rfl
    · rcases hout with ⟨m, _, rfl⟩ | ⟨mc, c, hme, hmc, rfl⟩ | ⟨_, rfl⟩
      · simp at ho
        obtain ⟨rfl, rfl, rfl⟩ := ho
        exact faithful_bool
      -- it does not wait any more, so the flag tells whether it holds the mutex
      · obtain ⟨c', hc', -, -, hnot⟩ := hc.sound me mc hme
        obtain rfl : c = c' := Option.some.inj (hmc.symm.trans hc')
        have hflag := hnot (hfree _)
        simp at ho
        obtain ⟨rfl, rfl, rfl⟩ := ho
        cases hcan : c.cancelled with
        | true =>
          rw [hcan, eq_self, true_iff] at hflag
          exact faithful_of_cancelled (decide_eq_false hflag)
        | false =>
          rw [hcan] at hflag
          have hflag : (c.mutex, me) ∈ s.2.held := by simpa using hflag
          exact faithful_of_owns (by decide) (decide_eq_true hflag)
      · simp at ho
    · rw [hcont, update_self] at ht
      exact absurd ht (by simp)
  | isrUnlock m =>
    obtain ⟨hcancel, hcont, hout⟩ := hy
    exact hc.unlock hst hnd hout hok hcancel fun t mc ht => hcont ▸ ht
  | isrCancel mc =>
    obtain ⟨hcont, c, hmc, hcancel, hout⟩ := hy
    exact hc.cancel hst hnd hmc hout (hperm c hmc) hok hcont hcancel
  | wakeup pid =>
    obtain ⟨rfl, hcancel, hcont⟩ := hy
    obtain ⟨hret, hdis⟩ := hc.record .nothing (fun m' u ret ho => by simp at ho)
    refine ⟨fun t mc ht => ?_, hret, hdis⟩
    exact hc.sound_frame hst hnd (congrFun hcont t ▸ ht) (congrFun hcancel mc) (fun m => by simp)
      (fun m ho => by simp at ho) (fun m ho => by simp at ho)

theorem CancelInv.faithful (h : MutexHistInv cfg s W M) (hc : CancelInv s W) :
    CancelFaithful s where
  returns := hc.returns
  owned m hm := by
    obtain ⟨t, ht⟩ := (h.locked_iff m).mp hm
    exact ⟨t, ht, hc.disowned m⟩

/-- **Cancellation is told truly**, along every run of permitted calls in which no
lock is cancelled, and no mutex unlocked, between a hand-over and the return. -/
theorem cancel_faithful (cfg : Cfg) (k : Kernel n) (es : List (MutexEvent n))
    (hk : MutexStart cfg k)
    (hes : Along (mutexHistStep cfg) (fun s e => MutexPermitted s.1 e ∧ NoLateCancel s e)
      (k, MutexHist.empty) es) :
    Always (mutexHistStep cfg) CancelFaithful (k, MutexHist.empty) es := by
  refine always_of_along (I := fun s => ∃ W M, MutexHistInv cfg s W M ∧ CancelInv s W)
    (fun s hI => ?_) (fun s e s' hI hok hs => ?_) es ⟨_, _, hk.inv, ?_⟩ hes
  · obtain ⟨W, M, h, hc⟩ := hI
    exact hc.faithful h
  · obtain ⟨W, M, h, hc⟩ := hI
    obtain ⟨W', M', h', hc'⟩ := cancelInv_step h hc hok.1 hok.2 hs
    exact ⟨W', M', h', hc'⟩
  · refine ⟨fun t mc ht => ?_, fun r hr => ?_, fun _ => rfl⟩
    · have := hk.idle t
      rw [this] at ht
      exact absurd ht (by simp)
    · exact absurd hr (by simp [MutexHist.empty])

/-- Two threads, the second one of the higher priority, and unlocked mutexes. -/
def lateCancelStart : Kernel 2 :=
  Kernel.init (bootWith clzCfg ![7, 3]) (fun _ => 1) fun _ => 0

theorem lateCancelStart_start : MutexStart clzCfg lateCancelStart :=
  ⟨booted_bootWith clzCfg ![7, 3], fun _ => rfl, fun _ => rfl⟩

attribute [local instance] neZero_two

/-- The second thread sleeps until the first one has locked the mutex, and waits
for it in `mutex_lock_cancelable`. -/
def cancelableWait : List (MutexEvent 2) :=
  [.call 1 (.unlockAndSleep 1), .call 0 (.lock 0), .wakeup 2, .resume 1,
    .call 1 (.cancelInit 0 0), .call 1 (.lockCancelable 0)]

theorem cancel_faithful_waiting :
    Always (mutexHistStep clzCfg) CancelFaithful (lateCancelStart, .empty)
      (cancelableWait ++ [.isrCancel 0, .resume 1]) :=
  cancel_faithful clzCfg _ _ lateCancelStart_start (by decide)

/-- The mutex is handed to the waiting thread, and an interrupt cancels the lock
before that thread runs: it returns `-ECANCELED` and owns the mutex. Every thread
is the one `sched_run` picks, and every call is permitted. -/
theorem not_cancel_faithful :
    MutexStart clzCfg lateCancelStart ∧
      Along (mutexHistStep clzCfg)
        (fun s e => MutexPermitted s.1 e ∧ ∀ t ∈ e.thread, Picked clzCfg s.1.sched t)
        (lateCancelStart, .empty)
        (cancelableWait ++ [.call 0 (.unlock 0), .isrCancel 0, .resume 1]) ∧
      ∃ s, run (mutexHistStep clzCfg) (lateCancelStart, .empty)
          (cancelableWait ++ [.call 0 (.unlock 0), .isrCancel 0, .resume 1]) = some s ∧
        ¬ CancelFaithful s := by
  refine ⟨lateCancelStart_start, by decide, ?_⟩
  have hend : (run (mutexHistStep clzCfg) (lateCancelStart, .empty)
      (cancelableWait ++ [.call 0 (.unlock 0), .isrCancel 0, .resume 1])).any (fun s =>
      decide (⟨1, 0, .int negEcanceled, true⟩ ∈ s.2.returns)) = true := by decide
  obtain ⟨s, hs, hret⟩ := (Option.any_eq_true _ _).mp hend
  have hret := of_decide_eq_true hret
  exact ⟨s, hs, fun h => absurd ((h.returns _ hret).1 rfl) (by simp)⟩

end Riot.Core
