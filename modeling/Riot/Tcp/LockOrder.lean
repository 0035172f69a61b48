import Riot.Tcp.Locks

/-!
# The order of the locks

`_receive` takes the lock of the list first and a `fsm_lock` then, a call of the state
machine that closes, opens or listens takes them the other way round. Two threads get
stuck if they meet; they do not meet if such a call never has the `fsm_lock` of a TCB that
the loop of `_receive` has still to look at.
-/

namespace Riot.Tcp

open Riot.Lib Function List Option

/-- No thread has the lock of the list and waits for a `fsm_lock` whose owner waits for the lock of
the list. -/
def LockOrder (s : LockSys) : Prop :=
  ∀ p q id, s.owner .list = some p → s.owner (.fsm id) = some q →
    ¬((s.pos p).wants = some (.fsm id) ∧ (s.pos q).wants = some .list)

/-- The TCBs that the loop of `_receive` has still to look at. -/
def Position.toVisit : Position → List TcbId
  | .walking _ _ rest => rest
  | .inGetState _ _ _ rest => rest
  | _ => []

/-- The owner of the `fsm_lock` of the TCB waits for the lock of the list. -/
def LockSys.blocks (s : LockSys) (id : TcbId) : Bool :=
  (s.owner (.fsm id)).any fun q => (s.pos q).wants == some .list

/-- `_receive` gets the lock of the list only when no call that waits for it has the `fsm_lock` of a
TCB of the list, and a call that takes it gets its `fsm_lock` only when `_receive` has not to look at
the TCB any more. -/
def LockOk (s : LockSys) : LockEvent → Prop
  | .step p =>
    match s.pos p with
    | .atReceive .. => ∀ id ∈ s.sys.list, s.blocks id = false
    | .atFsmLock id op => s.takesListLock id op → id ∉ (s.pos .eventloop).toVisit
    | _ => True
  | _ => True

instance (s : LockSys) : (ev : LockEvent) → Decidable (LockOk s ev)
  | .step p => by
    unfold LockOk
    dsimp only
    split <;> infer_instance
  | .start .. => inferInstanceAs (Decidable True)
  | .receive .. => inferInstanceAs (Decidable True)
  | .api .. => inferInstanceAs (Decidable True)

/-! ## The invariant -/

/-- The thread is in `_receive`, up to its call of the state machine. -/
def Position.receives : Position → Bool
  | .atReceive .. => true
  | .walking .. => true
  | .inGetState .. => true
  | .found .. => true
  | _ => false

/-- A lock belongs to the thread that holds it by its position. -/
def Held (owner : Lock → Option Thread) (pos : Thread → Position) : Prop :=
  ∀ l p, owner l = some p ↔ l ∈ (pos p).holds

/-- The thread has the `fsm_lock` of the TCB, and is in front of the lock of the list. -/
def Position.blocks (pos : Position) (id : TcbId) : Prop := .fsm id ∈ pos.holds ∧ pos.wants = some .list

/-- The loop of `_receive` meets nobody who waits for the lock of the list. -/
structure LockInv (s : LockSys) : Prop where
  held : Held s.owner s.pos
  receives : ∀ n, (s.pos (.user n)).receives = false
  clear : ∀ id ∈ (s.pos .eventloop).toVisit, ∀ q, ¬(s.pos q).blocks id

variable {s s' : LockSys} {p q : Thread} {l : Lock} {pos : Position} {id : TcbId}
  {owner : Lock → Option Thread} {poss : Thread → Position}

theorem LockInv.order (h : LockInv s) : LockOrder s := by
  rintro p q id hlist hfsm ⟨hwants, hwaits⟩
  have hp : .list ∈ (s.pos p).holds := (h.held .list p).mp hlist
  have hq : .fsm id ∈ (s.pos q).holds := (h.held (.fsm id) q).mp hfsm
  have hwalk : p = .eventloop ∧ id ∈ (s.pos p).toVisit := by
    cases hpos : s.pos p with
    | walking o seg rest =>
      cases p with
      | user n =>
        have hno := h.receives n
        rw [hpos] at hno
        cases hno
      | eventloop =>
        rw [hpos] at hwants
        cases rest with
        | nil => cases hwants
        | cons id' rest =>
          obtain rfl : id' = id := Lock.fsm.inj (some.inj hwants)
          exact ⟨rfl, mem_cons_self⟩
    | atFsmLock id' op =>
      rw [hpos] at hp
      exact absurd hp (by simp [Position.holds])
    | _ =>
      rw [hpos] at hwants
      cases hwants
  obtain ⟨rfl, hvisit⟩ := hwalk
  exact h.clear id hvisit q ⟨hq, hwaits⟩

/-! ## Locking and unlocking -/

theorem Held.goTo (h : Held owner poss) (hsame : ∀ l, l ∈ pos.holds ↔ l ∈ (poss p).holds) :
    Held owner (update poss p pos) := by
  intro l q
  by_cases hq : q = p
  · rw [hq, update_self, hsame]
    exact h l p
  · rw [update_of_ne hq]
    exact h l q

theorem Held.lock (h : Held owner poss) (hfree : owner l = none)
    (hholds : ∀ l', l' ∈ pos.holds ↔ l' = l ∨ l' ∈ (poss p).holds) :
    Held (update owner l (some p)) (update poss p pos) := by
  intro l' q
  by_cases hq : q = p
  · rw [hq, update_self, hholds]
    by_cases hl : l' = l
    · rw [hl, update_self]
      exact iff_of_true rfl (.inl rfl)
    · rw [update_of_ne hl, h l' p]
      exact ⟨.inr, fun hc => hc.resolve_left hl⟩
  · rw [update_of_ne hq]
    by_cases hl : l' = l
    · rw [hl, update_self, ← h l q, hfree]
      exact iff_of_false (fun hc => hq (some.inj hc).symm) (by simp)
    · rw [update_of_ne hl]
      exact h l' q

theorem Held.unlock (h : Held owner poss) (hown : l ∈ (poss p).holds)
    (hholds : ∀ l', l' ∈ pos.holds ↔ l' ≠ l ∧ l' ∈ (poss p).holds) :
    Held (update owner l none) (update poss p pos) := by
  intro l' q
  by_cases hq : q = p
  · rw [hq, update_self, hholds]
    by_cases hl : l' = l
    · rw [hl, update_self]
      exact iff_of_false (by simp) fun hc => hc.1 rfl
    · rw [update_of_ne hl, h l' p]
      exact ⟨fun hc => ⟨hl, hc⟩, fun hc => hc.2⟩
  · rw [update_of_ne hq]
    by_cases hl : l' = l
    · rw [hl, update_self, ← h l q, (h l p).mpr hown]
      exact iff_of_false (by simp) fun hc => hq (some.inj hc).symm
    · rw [update_of_ne hl]
      exact h l' q

/-- A thread goes on: what the loop has still to look at is free, and a thread that comes in front of
the lock of the list has no `fsm_lock` of it. -/
theorem clear_update (h : ∀ id ∈ (poss .eventloop).toVisit, ∀ q, ¬(poss q).blocks id)
    (hvisit : p = .eventloop → ∀ id ∈ pos.toVisit, ∀ q, q ≠ p → ¬(poss q).blocks id)
    (hblocks : ∀ id ∈ (poss .eventloop).toVisit, p ≠ .eventloop → ¬pos.blocks id)
    (hloop : pos.toVisit = [] ∨ pos.wants ≠ some .list) :
    ∀ id ∈ (update poss p pos .eventloop).toVisit, ∀ q, ¬(update poss p pos q).blocks id := by
  intro id hmem q
  by_cases hp : p = .eventloop
  · rw [hp, update_self] at hmem
    by_cases hq : q = p
    · rw [hq, update_self]
      rcases hloop with hnil | hwants
      · rw [hnil] at hmem
        cases hmem
      · exact fun hc => hwants hc.2
    · rw [update_of_ne hq]
      exact hvisit hp id hmem q hq
  · rw [update_of_ne (Ne.symm hp)] at hmem
    by_cases hq : q = p
    · rw [hq, update_self]
      exact hblocks id hmem hp
    · rw [update_of_ne hq]
      exact h id hmem q

theorem receives_update (h : ∀ n, (poss (.user n)).receives = false)
    (hpos : pos.receives = true → p = .eventloop) :
    ∀ n, (update poss p pos (.user n)).receives = false := by
  intro n
  by_cases hp : (.user n : Thread) = p
  · rw [hp, update_self]
    by_contra hc
    rw [hpos (Bool.eq_true_of_not_eq_false hc)] at hp
    cases hp
  · rw [update_of_ne hp]
    exact h n

/-- What a thread does with a lock keeps the invariant, if the position that it comes to fits. -/
structure Fits (s : LockSys) (p : Thread) (pos : Position) : Prop where
  receives : pos.receives = true → p = .eventloop
  visit : p = .eventloop → ∀ id ∈ pos.toVisit, ∀ q, q ≠ p → ¬(s.pos q).blocks id
  blocks : ∀ id ∈ (s.pos .eventloop).toVisit, p ≠ .eventloop → ¬pos.blocks id
  loop : pos.toVisit = [] ∨ pos.wants ≠ some .list

/-- A position outside of the loop of `_receive`, and not in front of the lock of the list. -/
theorem Fits.plain (hreceives : pos.receives = true → p = .eventloop) (hvisit : pos.toVisit = [])
    (hwants : pos.wants ≠ some .list) : Fits s p pos :=
  { receives := hreceives
    visit := fun _ _ hmem => absurd hmem (by rw [hvisit]; exact not_mem_nil)
    blocks := fun _ _ _ hc => hwants hc.2
    loop := .inl hvisit }

theorem LockInv.fitsLoop (h : LockInv s) (hp : p = .eventloop)
    (hvisit : ∀ id ∈ pos.toVisit, id ∈ (s.pos .eventloop).toVisit) (hwants : pos.wants ≠ some .list) :
    Fits s p pos :=
  ⟨fun _ => hp, fun _ id hmem q _ => h.clear id (hvisit id hmem) q, fun _ _ hne => absurd hp hne, .inr hwants⟩

theorem LockInv.goTo (h : LockInv s) (hfits : Fits s p pos) (hsame : ∀ l, l ∈ pos.holds ↔ l ∈ (s.pos p).holds) :
    LockInv (s.goTo p pos) :=
  ⟨h.held.goTo hsame, receives_update h.receives hfits.receives,
    clear_update h.clear hfits.visit hfits.blocks hfits.loop⟩

theorem LockInv.lock (h : LockInv s) (hlock : s.lock p l pos = some s') (hfits : Fits s p pos)
    (hholds : ∀ l', l' ∈ pos.holds ↔ l' = l ∨ l' ∈ (s.pos p).holds) : LockInv s' := by
  unfold LockSys.lock at hlock
  split at hlock
  · rename_i hfree
    cases hlock
    exact ⟨h.held.lock hfree hholds, receives_update h.receives hfits.receives,
      clear_update h.clear hfits.visit hfits.blocks hfits.loop⟩
  · cases hlock

theorem LockInv.unlock {sys : Sys} (h : LockInv s) (hfits : Fits s p pos) (hown : l ∈ (s.pos p).holds)
    (hholds : ∀ l', l' ∈ pos.holds ↔ l' ≠ l ∧ l' ∈ (s.pos p).holds) :
    LockInv ({ s with sys := sys }.unlock p l pos) :=
  ⟨h.held.unlock hown hholds, receives_update h.receives hfits.receives,
    clear_update h.clear hfits.visit hfits.blocks hfits.loop⟩

/-! ## Steps -/

theorem LockInv.eventloop (h : LockInv s) (hpos : (s.pos p).receives = true) : p = .eventloop := by
  cases p with
  | eventloop => rfl
  | user n =>
    rw [h.receives n] at hpos
    cases hpos

/-- While another thread has the lock of the list, the loop of `_receive` looks at nothing. -/
theorem LockInv.not_visiting (h : LockInv s) (hown : .list ∈ (s.pos p).holds) (hp : p ≠ .eventloop) :
    (s.pos .eventloop).toVisit = [] := by
  have howner : s.owner .list = some p := (h.held .list p).mpr hown
  have hno : .list ∉ (s.pos .eventloop).holds := by
    intro hc
    have hother : s.owner .list = some .eventloop := (h.held .list .eventloop).mpr hc
    rw [howner] at hother
    exact hp (some.inj hother)
  cases hpos : s.pos .eventloop with
  | walking o seg rest =>
    rw [hpos] at hno
    exact absurd mem_cons_self hno
  | inGetState o seg id rest =>
    rw [hpos] at hno
    exact absurd (mem_cons_of_mem _ mem_cons_self) hno
  | _ => rfl

theorem fits_afterFsmLock {op : FsmOp} (hok : s.takesListLock id op → id ∉ (s.pos .eventloop).toVisit) :
    Fits s p (afterFsmLock s id op) := by
  unfold afterFsmLock
  cases op with
  | fsm o event =>
    dsimp only
    split
    · rename_i htakes
      refine ⟨fun hc => (by cases hc), fun _ _ hc => (by cases hc), fun id' hvisit _ hblocks => ?_, .inl rfl⟩
      obtain rfl : id' = id := Lock.fsm.inj (mem_singleton.mp hblocks.1)
      exact hok htakes hvisit
    · exact Fits.plain (fun hc => by cases hc) rfl (by simp [Position.wants])
  | _ => exact Fits.plain (fun hc => by cases hc) rfl (by simp [Position.wants])

theorem holds_afterFsmLock {op : FsmOp} : (afterFsmLock s id op).holds = [.fsm id] := by
  unfold afterFsmLock
  cases op with
  | fsm o event =>
    dsimp only
    split <;> rfl
  | _ => rfl

theorem LockInv.next (h : LockInv s) (hok : LockOk s (.step p)) (hnext : s.next p = some s') : LockInv s' := by
  unfold LockSys.next at hnext
  unfold LockOk at hok
  dsimp only at hok
  cases hpos : s.pos p with
  | idle =>
    rw [hpos] at hnext
    cases hnext
  | atFsmLock id op =>
    rw [hpos] at hnext hok
    refine h.lock hnext (fits_afterFsmLock hok) fun l' => ?_
    rw [hpos, holds_afterFsmLock]
    simp [Position.holds]
  | inFsm id op =>
    rw [hpos] at hnext
    have hidle : ∀ sys, LockInv ({ s with sys := sys }.unlock p (.fsm id) .idle) := by
      intro sys
      refine h.unlock (Fits.plain (fun hc => by cases hc) rfl (by simp [Position.wants])) ?_ fun l' => ?_
      · rw [hpos]
        exact mem_cons_self
      · rw [hpos]
        simp [Position.holds]
    cases op with
    | fsm o event =>
      obtain ⟨r, -, rfl⟩ := map_eq_some_iff.mp hnext
      exact hidle r.1
    | getState =>
      cases hnext
      exact hidle s.sys
    | setMbox =>
      cases hnext
      exact hidle s.sys
  | atListLock id o event =>
    rw [hpos] at hnext
    refine h.lock hnext (Fits.plain (fun hc => by cases hc) rfl (by simp [Position.wants])) fun l' => ?_
    rw [hpos]
    simp [Position.holds, or_comm]
  | inTransition id o event =>
    rw [hpos] at hnext
    obtain ⟨r, -, rfl⟩ := map_eq_some_iff.mp hnext
    have hown : .list ∈ (s.pos p).holds := by
      rw [hpos]
      exact mem_cons_of_mem _ mem_cons_self
    split
    · refine h.unlock ?_ hown fun l' => ?_
      · refine ⟨fun hc => (by cases hc), fun _ _ hc => (by cases hc), fun id' hvisit hp => ?_, .inl rfl⟩
        rw [h.not_visiting hown hp] at hvisit
        cases hvisit
      · rw [hpos]
        cases l' <;> simp [Position.holds]
    · refine h.unlock (Fits.plain (fun hc => by cases hc) rfl (by simp [Position.wants])) hown fun l' => ?_
      rw [hpos]
      cases l' <;> simp [Position.holds]
  | atListLockAgain id =>
    rw [hpos] at hnext
    refine h.lock hnext (Fits.plain (fun hc => by cases hc) rfl (by simp [Position.wants])) fun l' => ?_
    rw [hpos]
    simp [Position.holds, or_comm]
  | inTransitionAgain id =>
    rw [hpos] at hnext
    cases hnext
    refine h.unlock (Fits.plain (fun hc => by cases hc) rfl (by simp [Position.wants])) ?_ fun l' => ?_
    · rw [hpos]
      simp [Position.holds]
    · rw [hpos]
      cases l' <;> simp [Position.holds]
  | leaving id =>
    rw [hpos] at hnext
    cases hnext
    refine h.unlock (Fits.plain (fun hc => by cases hc) rfl (by simp [Position.wants])) ?_ fun l' => ?_
    · rw [hpos]
      simp [Position.holds]
    · rw [hpos]
      cases l' <;> simp [Position.holds]
  | atReceive o seg =>
    rw [hpos] at hnext hok
    have hp : p = .eventloop := h.eventloop (by rw [hpos]; rfl)
    refine h.lock hnext ⟨fun _ => hp, fun _ id hmem q _ hblocks => ?_, fun _ _ hne => absurd hp hne, .inr ?_⟩
      fun l' => ?_
    · have hfree := hok id hmem
      unfold LockSys.blocks at hfree
      rw [(h.held _ q).mpr hblocks.1, any_some, hblocks.2] at hfree
      cases hfree
    · cases s.sys.list <;> simp [Position.wants]
    · rw [hpos]
      simp [Position.holds]
  | walking o seg rest =>
    have hp : p = .eventloop := h.eventloop (by rw [hpos]; rfl)
    have hown : .list ∈ (s.pos p).holds := by
      rw [hpos]
      exact mem_cons_self
    cases rest with
    | nil =>
      rw [hpos] at hnext
      cases hnext
      refine h.unlock (Fits.plain (fun hc => by cases hc) rfl (by simp [Position.wants])) hown fun l' => ?_
      rw [hpos]
      simp [Position.holds]
    | cons id rest =>
      rw [hpos] at hnext
      refine h.lock hnext (h.fitsLoop hp (fun id' hmem => ?_) (by simp [Position.wants])) fun l' => ?_
      · rw [← hp, hpos]
        exact mem_cons_of_mem id hmem
      · rw [hpos]
        simp [Position.holds]
  | inGetState o seg id rest =>
    rw [hpos] at hnext
    cases hnext
    have hp : p = .eventloop := h.eventloop (by rw [hpos]; rfl)
    have hown : .fsm id ∈ (s.pos p).holds := by
      rw [hpos]
      exact mem_cons_self
    split
    · refine h.unlock (Fits.plain (fun _ => hp) rfl (by simp [Position.wants])) hown fun l' => ?_
      rw [hpos]
      cases l' <;> simp [Position.holds]
    · refine h.unlock (h.fitsLoop hp (fun id' hmem => ?_) ?_) hown fun l' => ?_
      · rw [← hp, hpos]
        exact hmem
      · cases rest <;> simp [Position.wants]
      · rw [hpos]
        cases l' <;> simp [Position.holds]
  | found o seg id =>
    rw [hpos] at hnext
    cases hnext
    refine h.unlock (Fits.plain (fun hc => by cases hc) rfl (by simp [Position.wants])) ?_ fun l' => ?_
    · rw [hpos]
      exact mem_cons_self
    · rw [hpos]
      cases l' <;> simp [Position.holds]

theorem LockInv.step {ev : LockEvent} (h : LockInv s) (hok : LockOk s ev) (hstep : lockStep s ev = some s') :
    LockInv s' := by
  cases ev with
  | step p => exact h.next hok hstep
  | start p id op =>
    unfold lockStep at hstep
    dsimp only at hstep
    cases hpos : s.pos p with
    | idle =>
      rw [hpos] at hstep
      dsimp only at hstep
      split at hstep
      · cases hstep
        refine h.goTo (Fits.plain (fun hc => by cases hc) rfl (by simp [Position.wants])) fun l => ?_
        rw [hpos]
        simp [Position.holds]
      · cases hstep
    | _ =>
      rw [hpos] at hstep
      cases hstep
  | receive o seg =>
    unfold lockStep at hstep
    cases hpos : s.pos .eventloop with
    | idle =>
      rw [hpos] at hstep
      cases hstep
      refine h.goTo ⟨fun _ => rfl, fun _ _ hc => (by cases hc), fun _ _ hne => absurd rfl hne, .inl rfl⟩ fun l => ?_
      rw [hpos]
      simp [Position.holds]
    | _ =>
      rw [hpos] at hstep
      cases hstep
  | api n id a =>
    unfold lockStep at hstep
    dsimp only at hstep
    cases hpos : s.pos (.user n) with
    | idle =>
      rw [hpos] at hstep
      obtain ⟨t, -, rfl⟩ := map_eq_some_iff.mp hstep
      exact ⟨h.held, h.receives, h.clear⟩
    | _ =>
      rw [hpos] at hstep
      cases hstep

theorem lockStart_inv {sys : Sys} : LockInv (lockStart sys) where
  held _ _ := iff_of_false (by simp [lockStart]) (by simp [lockStart, Position.holds])
  receives _ := rfl
  clear _ hmem := by cases hmem

/-! ## Runs -/

/-- **Lock order.** The event loop and the threads of the user never wait for each other with the lock of
the list and a `fsm_lock`, as long as no call that takes the lock of the list has the `fsm_lock` of a
TCB that `_receive` has still to look at. -/
theorem lock_order (sys : Sys) (es : List LockEvent) (hok : Along lockStep LockOk (lockStart sys) es) :
    Always lockStep LockOrder (lockStart sys) es :=
  always_of_along (fun _ h => h.order) (fun _ _ _ h hok hstep => h.step hok hstep) es lockStart_inv hok

/-- One TCB, which listens. -/
def oneListener : Sys where
  tcbs := fun _ => { tcbInit with state := .listen, localPort := 80 }
  list := [0]
  bufUsed := [true]

/-- What a call gets in a system with room for every packet. -/
def roomy : Oracle := { alloc := fun _ => true, iss := 100, ports := [] }

/-- `_receive` looks for the TCB of a packet, and a user aborts the TCB behind it. -/
def abortBehind : List LockEvent :=
  [.receive roomy (peerSegment { ack := true } 5001 101 []), .step .eventloop, .step .eventloop, .step .eventloop,
    .start (.user 0) 0 (.fsm roomy .callAbort), .step (.user 0), .step .eventloop, .step (.user 0), .step (.user 0),
    .step (.user 0)]

theorem lock_order_abortBehind : Always lockStep LockOrder (lockStart oneListener) abortBehind :=
  lock_order oneListener abortBehind (by decide +kernel)

/-- A user aborts a TCB after `_receive` has taken the lock of the list, and before it looks at the TCB. -/
def abortBefore : List LockEvent :=
  [.receive roomy (peerSegment { ack := true } 5001 101 []), .step .eventloop,
    .start (.user 0) 0 (.fsm roomy .callAbort), .step (.user 0)]

/-- Then the event loop waits for the `fsm_lock` of the TCB, and the user for the lock of the list. -/
theorem not_lock_order : ∃ s, run lockStep (lockStart oneListener) abortBefore = some s ∧ ¬LockOrder s := by
  have hend : (run lockStep (lockStart oneListener) abortBefore).any (fun s =>
      decide (s.owner .list = some .eventloop ∧ s.owner (.fsm 0) = some (.user 0) ∧
        (s.pos .eventloop).wants = some (.fsm 0) ∧ (s.pos (.user 0)).wants = some .list)) = true := by
    decide +kernel
  obtain ⟨s, hrun, hend⟩ := (Option.any_eq_true _ _).mp hend
  obtain ⟨hlist, hfsm, hwants, hwaits⟩ := of_decide_eq_true hend
  exact ⟨s, hrun, fun horder => horder .eventloop (.user 0) 0 hlist hfsm ⟨hwants, hwaits⟩⟩

end Riot.Tcp
