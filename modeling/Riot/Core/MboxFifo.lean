import Riot.Lib.PerSender
import Riot.Core.MboxStall

/-!
# What a mailbox delivers

The history of a mailbox records the calls that returned 1 and which put a
received message comes from. `MboxFifo` compares it with an ideal channel: the
messages each thread has put, complete with its pid, are those received from it
followed by those of its messages in the queue.

Everything goes through the queue in order except what is handed to a waiting
reader. Two things can go wrong there. The direct copy does not set
`sender_pid`, and it overtakes the messages a late writer has left in the queue.
-/

namespace Riot.Core

open Riot.Lib Function List

variable {n : Nat}

/-! ## The history -/

/-- A received message: whose put it comes from, and whose get returns it. -/
structure Delivery (n : Nat) where
  sender : Fin n
  reader : Fin n
  msg : Msg

def Delivery.fromPut (d : Delivery n) : Fin n × Msg := (d.sender, d.msg)

def Delivery.toGet (d : Delivery n) : Fin n × Msg := (d.reader, d.msg)

/-- The history of a mailbox. -/
structure MboxHist (n : Nat) where
  /-- The puts that returned 1, with the message as it was passed. -/
  puts : List (Fin n × Msg)
  /-- Who put the messages that are in the queue. -/
  queue : List (Fin n)
  /-- The messages taken from the queue or handed to a waiting reader. -/
  gets : List (Delivery n)
  /-- The gets that returned 1, with the message in the caller's hands. -/
  received : List (Fin n × Msg)

def MboxHist.empty : MboxHist n := ⟨[], [], [], []⟩

/-- The histories after a step of `me`. -/
def mboxRecord (h : Nat → MboxHist n) (me : Fin n) : MboxOut n → Nat → MboxHist n
  | .handed b msg reader =>
    update h b
      { h b with
        puts := (h b).puts ++ [(me, msg)]
        gets := (h b).gets ++ [⟨me, reader, msg⟩] }
  | .queued b msg =>
    update h b
      { h b with
        puts := (h b).puts ++ [(me, msg)]
        queue := (h b).queue ++ [me] }
  | .taken b msg =>
    update h b
      { h b with
        queue := (h b).queue.tail
        gets := (h b).gets ++ (h b).queue.head?.toList.map fun sender => ⟨sender, me, msg⟩
        received := (h b).received ++ [(me, msg)] }
  | .delivered b msg =>
    update h b { h b with received := (h b).received ++ [(me, msg)] }
  | .blocked => h
  | .failed => h

/-- One step of the mailboxes with their histories. -/
def mboxHistStep (cfg : Cfg) (s : Kernel n × (Nat → MboxHist n)) (e : MboxEvent n) :
    Option (Kernel n × (Nat → MboxHist n)) :=
  (mboxStep cfg s.1 e).map fun r => (r.1, mboxRecord s.2 e.thread r.2)

/-! ## The ideal channel -/

/-- The messages in the queue. -/
def Mbox.items (mbox : Mbox) : List Msg := cibItems mbox.cib mbox.msgArray

/-- A message as its receiver should see it. -/
def stamp (pid : Fin n → Nat) (p : Fin n × Msg) : Fin n × Msg :=
  (p.1, { p.2 with senderPid := pid p.1 })

/-- What a reader that was handed a message, but has not run since, will return. -/
def inFlight (k : Kernel n) (b : Nat) (r : Fin n) : List Msg :=
  if k.cont r = .mboxGet b ∧ (k.sched.status r).onRunqueue = true then [k.waitData r] else []

/-- What a thread has put, with its pid, is what was received from it and what
the queue still holds, in order. -/
def InOrder (s : Kernel n × (Nat → MboxHist n)) (b : Nat) (t : Fin n) : Prop :=
  bySender t ((s.2 b).puts.map (stamp s.1.sched.pid)) =
    bySender t ((s.2 b).gets.map Delivery.fromPut) ++
      bySender t ((s.2 b).queue.zip (s.1.mbox b).items)

instance (s : Kernel n × (Nat → MboxHist n)) (b : Nat) (t : Fin n) : Decidable (InOrder s b t) :=
  inferInstanceAs (Decidable (_ = _))

/-- Every mailbox is an ideal channel so far. -/
structure MboxFifo (s : Kernel n × (Nat → MboxHist n)) : Prop where
  /-- The messages of each thread arrive complete and in order. -/
  order : ∀ b t, InOrder s b t
  /-- Every message in the queue has been put by somebody. -/
  stored : ∀ b, (s.2 b).queue.length = (s.1.mbox b).items.length
  /-- What was sent the way of a thread is what its gets have returned, and what
  the one it is in will. -/
  returned : ∀ b r, bySender r ((s.2 b).gets.map Delivery.toGet) =
    bySender r (s.2 b).received ++ inFlight s.1 b r

/-- The mailbox the event is about. -/
def MboxEvent.mbox (k : Kernel n) : MboxEvent n → Option Nat
  | .call _ (.put b _ _) => some b
  | .call _ (.get b _) => some b
  | .resume me =>
    match k.cont me with
    | .mboxPut b => some b
    | .mboxGet b => some b
    | _ => none

/-- If the event is a put that finds a waiting reader, then the caller has filled
in its own pid, and no other message of its own is still in the queue. -/
def OrderlyPut (s : Kernel n × (Nat → MboxHist n)) : MboxEvent n → Prop
  | .call me (.put b msg _) =>
    ReaderWaits s.1 b → msg.senderPid = s.1.sched.pid me ∧
      ∀ p ∈ (s.2 b).queue.zip (s.1.mbox b).items, p.1 = me → p.2 = msg
  | _ => True

instance (s : Kernel n × (Nat → MboxHist n)) (e : MboxEvent n) : Decidable (OrderlyPut s e) := by
  unfold OrderlyPut
  split <;> infer_instance

/-- A queue that counts as not full has room. -/
def HasRoom (k : Kernel n) (b : Nat) : Prop :=
  cibFull (k.mbox b).cib = false → (cibAvail (k.mbox b).cib).toNat ≤ (k.mbox b).cib.mask.toNat

instance (k : Kernel n) (b : Nat) : Decidable (HasRoom k b) :=
  inferInstanceAs (Decidable (_ → _))

/-- The condition on a step: an orderly put, and room in the queue it uses. -/
def Orderly (s : Kernel n × (Nat → MboxHist n)) (e : MboxEvent n) : Prop :=
  OrderlyPut s e ∧ ∀ b ∈ e.mbox s.1, HasRoom s.1 b

instance (s : Kernel n × (Nat → MboxHist n)) (e : MboxEvent n) : Decidable (Orderly s e) := by
  unfold Orderly
  cases e.mbox s.1 with
  | none => exact decidable_of_iff (OrderlyPut s e) (by simp)
  | some b => exact decidable_of_iff (OrderlyPut s e ∧ HasRoom s.1 b) (by simp)

/-! ## The invariant -/

/-- What the proofs need to know besides: who waits where and why, and the sizes
of the queues. -/
structure MboxHistInv (cfg : Cfg) (size : Nat → Nat) (s : Kernel n × (Nat → MboxHist n))
    (W : WaitList n → List (Fin n)) (M : WaitList n → Prop) : Prop where
  inv : KernelInv cfg s.1.sched W M
  readers : ∀ b, ∀ t ∈ W (.mboxReaders b), s.1.cont t = .mboxGet b
  writers : ∀ b, ∀ t ∈ W (.mboxWriters b), s.1.cont t = .mboxPut b
  sized : ∀ b, (s.1.mbox b).cib.Sized (size b)
  avail : ∀ b, (cibAvail (s.1.mbox b).cib).toNat ≤ 2 ^ size b
  stored : ∀ b, (s.2 b).queue.length = (s.1.mbox b).items.length
  returned : ∀ b r, bySender r ((s.2 b).gets.map Delivery.toGet) =
    bySender r (s.2 b).received ++ inFlight s.1 b r

variable {cfg : Cfg} {size : Nat → Nat} {k k' : Kernel n} {h : Nat → MboxHist n}
  {W W' : WaitList n → List (Fin n)} {M : WaitList n → Prop} {me : Fin n}

variable {r t u : Fin n} {out : MboxOut n} {msg : Msg} {b b' : Nat} {s : Sched n}

theorem inFlight_congr (hc : k'.cont r = k.cont r)
    (hs : (k'.sched.status r).onRunqueue = (k.sched.status r).onRunqueue)
    (hd : k'.waitData r = k.waitData r) : inFlight k' b r = inFlight k b r := by
  unfold inFlight
  rw [hc, hs, hd]

theorem inFlight_of_cont (hc : k.cont r ≠ .mboxGet b) : inFlight k b r = [] := by
  unfold inFlight
  rw [if_neg (fun h => hc h.1)]

theorem inFlight_of_blocked (hs : (k.sched.status r).onRunqueue = false) : inFlight k b r = [] := by
  unfold inFlight
  rw [if_neg (fun h => by rw [hs] at h; exact absurd h.2 (by simp))]

/-- A move of a thread that is in no mailbox function moves no other message
towards a reader. -/
theorem inFlight_frame {st : ThreadStatus}
    (hs : StatusSet k.sched s t st) (hsched : k'.sched = s) (hrt : r ≠ t)
    (hc : k'.cont r = k.cont r) (hd : k'.waitData r = k.waitData r) :
    inFlight k' b r = inFlight k b r := by
  refine inFlight_congr hc ?_ hd
  rw [hsched, hs.onRunqueue_of_ne hrt]

/-! ### The queue -/

theorem items_queued (hsized : (k.mbox b).cib.Sized (size b))
    (hroom : cibFull (k.mbox b).cib = false) (hr : HasRoom k b) (msg : Msg) :
    Mbox.items { cib := (cibPutUnsafe (k.mbox b).cib).2
                 msgArray :=
                   update (k.mbox b).msgArray (cibPutUnsafe (k.mbox b).cib).1 msg } =
      (k.mbox b).items ++ [msg] := by
  have hle := hr hroom
  rw [hsized.2] at hle
  have hpos : 0 < 2 ^ size b := Nat.two_pow_pos _
  exact cibItems_put hsized (by omega) msg

theorem items_taken (hsized : (k.mbox b).cib.Sized (size b)) (havail : cibAvail (k.mbox b).cib ≠ 0) :
    (k.mbox b).items = (k.mbox b).msgArray (cibGetUnsafe (k.mbox b).cib).1 ::
      Mbox.items { k.mbox b with cib := (cibGetUnsafe (k.mbox b).cib).2 } :=
  cibItems_get hsized havail

/-! ### One move -/

theorem MboxHistInv.blocked {w : WaitList n} {c : Cont} {s : Sched n} {st : ThreadStatus}
    (h' : MboxHistInv cfg size (k, h) W M) (hs : StatusSet k.sched s me st)
    (hst : st.onRunqueue = false) (hidle : k.cont me = .idle) (hfree : Free W me)
    (hinv : KernelInv cfg s (update W w (insertPrio k.sched.priority me (W w))) M)
    (hread : ∀ b, w = .mboxReaders b → c = .mboxGet b)
    (hwrite : ∀ b, w = .mboxWriters b → c = .mboxPut b) :
    MboxHistInv cfg size ({ k with sched := s, cont := update k.cont me c }, h)
      (update W w (insertPrio k.sched.priority me (W w))) M where
  inv := hinv
  readers := fun b t ht => by
    rcases mem_update_insertPrio ht with ht | ⟨rfl, hw⟩
    · have htm : t ≠ me := fun htm => hfree _ (htm ▸ ht)
      simpa [htm] using h'.readers b t ht
    · simpa using hread b hw.symm
  writers := fun b t ht => by
    rcases mem_update_insertPrio ht with ht | ⟨rfl, hw⟩
    · have htm : t ≠ me := fun htm => hfree _ (htm ▸ ht)
      simpa [htm] using h'.writers b t ht
    · simpa using hwrite b hw.symm
  sized := h'.sized
  avail := h'.avail
  stored := h'.stored
  returned := fun b r => by
    refine (h'.returned b r).trans (congrArg _ ?_)
    by_cases hrm : r = me
    · subst hrm
      have hoff : (s.status r).onRunqueue = false := by
        rw [hs.status, update_self]
        exact hst
      rw [inFlight_of_cont (by rw [hidle]; simp), inFlight_of_blocked hoff]
    · have hfl : inFlight { k with sched := s, cont := update k.cont me c } b r =
          inFlight k b r := inFlight_frame hs rfl hrm (by simp [hrm]) rfl
      exact hfl.symm

theorem MboxHistInv.wakeWriter {ts : List (Fin n)}
    (h' : MboxHistInv cfg size (k, h) W M) (hs : StatusSet k.sched s t .pending)
    (hw : W (.mboxWriters b) = t :: ts)
    (hinv : KernelInv cfg s (update W (.mboxWriters b) ts) M) :
    MboxHistInv cfg size ({ k with sched := s }, h) (update W (.mboxWriters b) ts) M where
  inv := hinv
  readers := fun b' u hu => h'.readers b' u (mem_update_tail hw hu)
  writers := fun b' u hu => h'.writers b' u (mem_update_tail hw hu)
  sized := h'.sized
  avail := h'.avail
  stored := h'.stored
  returned := fun b' r => by
    refine (h'.returned b' r).trans (congrArg _ ?_)
    by_cases hrt : r = t
    · have hc := h'.writers b t (by rw [hw]; simp)
      subst hrt
      rw [inFlight_of_cont (by rw [hc]; simp), inFlight_of_cont (by rw [hc]; simp)]
    · have hfl : inFlight { k with sched := s } b' r = inFlight k b' r := inFlight_frame hs rfl hrt rfl rfl
      exact hfl.symm

theorem MboxHistInv.handed {b : Nat} {s : Sched n} {t : Fin n} {ts : List (Fin n)} {msg : Msg}
    (h' : MboxHistInv cfg size (k, h) W M) (hs : StatusSet k.sched s t .pending)
    (hw : W (.mboxReaders b) = t :: ts)
    (hinv : KernelInv cfg s (update W (.mboxReaders b) ts) M) :
    MboxHistInv cfg size ({ k with sched := s, waitData := update k.waitData t msg },
        mboxRecord h me (.handed b msg t)) (update W (.mboxReaders b) ts) M where
  inv := hinv
  readers := fun b' u hu => h'.readers b' u (mem_update_tail hw hu)
  writers := fun b' u hu => h'.writers b' u (mem_update_tail hw hu)
  sized := h'.sized
  avail := h'.avail
  stored := fun b' => by
    have := h'.stored b'
    dsimp only [mboxRecord] at this ⊢
    by_cases hbb : b' = b
    · subst hbb
      simpa using this
    · rwa [update_of_ne hbb]
  returned := fun b' r => by
    have hc : k.cont t = .mboxGet b := h'.readers b t (by rw [hw]; simp)
    have hoff : (k.sched.status t).onRunqueue = false :=
      h'.inv.waiting.not_onRunqueue (w := .mboxReaders b) (by rw [hw]; simp)
    have hold := h'.returned b' r
    dsimp only [mboxRecord] at hold ⊢
    by_cases hrt : r = t
    · subst hrt
      by_cases hbb : b' = b
      · -- the reader had nothing under way, now it has the message
        subst hbb
        have hnew : inFlight { k with sched := s, waitData := update k.waitData r msg } b' r = [msg] := by
          unfold inFlight
          simp [hc, hs.status]
        rw [inFlight_of_blocked hoff, append_nil] at hold
        rw [update_self, hnew]
        rw [map_append, bySender_append, hold]
        exact congrArg _ (bySender_self r msg)
      · rw [update_of_ne hbb, inFlight_of_cont (by rw [hc]; simpa using Ne.symm hbb)]
        rwa [inFlight_of_cont (by rw [hc]; simpa using Ne.symm hbb)] at hold
    · have hfl : inFlight { k with sched := s, waitData := update k.waitData t msg } b' r
          = inFlight k b' r := inFlight_frame hs rfl hrt rfl (by simp [hrt])
      rw [hfl]
      by_cases hbb : b' = b
      · subst hbb
        rw [update_self]
        rw [map_append, bySender_append, hold]
        simp [Delivery.toGet, bySender_of_ne (Ne.symm hrt)]
      · rwa [update_of_ne hbb]

theorem inFlight_own {mbox : Nat → Mbox} (hidle : k.cont me = .idle) :
    inFlight { k with waitData := update k.waitData me msg, mbox := mbox } b r = inFlight k b r := by
  by_cases hrm : r = me
  · subst hrm
    simp [inFlight, hidle]
  · exact inFlight_congr rfl rfl (by simp [hrm])

theorem MboxHistInv.queued {b : Nat} {msg msg' : Msg} (h' : MboxHistInv cfg size (k, h) W M)
    (hidle : k.cont me = .idle) (hroom : cibFull (k.mbox b).cib = false) (hr : HasRoom k b) :
    MboxHistInv cfg size
      ({ k with
          waitData := update k.waitData me msg'
          mbox := update k.mbox b
            { cib := (cibPutUnsafe (k.mbox b).cib).2
              msgArray :=
                update (k.mbox b).msgArray (cibPutUnsafe (k.mbox b).cib).1 msg' } },
        mboxRecord h me (.queued b msg)) W M where
  inv := h'.inv
  readers := h'.readers
  writers := h'.writers
  sized := fun b' => by
    dsimp only
    by_cases hbb : b' = b
    · subst hbb
      rw [update_self]
      exact h'.sized b'
    · rw [update_of_ne hbb]
      exact h'.sized b'
  avail := fun b' => by
    dsimp only
    by_cases hbb : b' = b
    · subst hbb
      have hle : (cibAvail (k.mbox b').cib).toNat ≤ (k.mbox b').cib.mask.toNat := hr hroom
      have hmask : (k.mbox b').cib.mask.toNat = 2 ^ size b' - 1 := (h'.sized b').2
      have hlt := (h'.sized b').lt
      have hpos : 0 < 2 ^ size b' := Nat.two_pow_pos _
      rw [update_self]
      rw [cibAvail_put (by omega)]
      omega
    · rw [update_of_ne hbb]
      exact h'.avail b'
  stored := fun b' => by
    have hold := h'.stored b'
    dsimp only [mboxRecord] at hold ⊢
    by_cases hbb : b' = b
    · subst hbb
      rw [update_self, update_self, items_queued (h'.sized b') hroom hr]
      simp [hold]
    · rwa [update_of_ne hbb, update_of_ne hbb]
  returned := fun b' r => by
    rw [inFlight_own hidle]
    have hold := h'.returned b' r
    dsimp only [mboxRecord] at hold ⊢
    by_cases hbb : b' = b
    · subst hbb
      rwa [update_self]
    · rwa [update_of_ne hbb]

theorem MboxHistInv.taken {b : Nat} {msg : Msg} (h' : MboxHistInv cfg size (k, h) W M)
    (hidle : k.cont me = .idle) (havail : cibAvail (k.mbox b).cib ≠ 0)
    (hmsg : msg = (k.mbox b).msgArray (cibGetUnsafe (k.mbox b).cib).1) :
    MboxHistInv cfg size
      ({ k with
          waitData := update k.waitData me msg
          mbox := update k.mbox b
            { k.mbox b with cib := (cibGetUnsafe (k.mbox b).cib).2 } },
        mboxRecord h me (.taken b msg)) W M where
  inv := h'.inv
  readers := h'.readers
  writers := h'.writers
  sized := fun b' => by
    dsimp only
    by_cases hbb : b' = b
    · subst hbb
      rw [update_self]
      exact h'.sized b'
    · rw [update_of_ne hbb]
      exact h'.sized b'
  avail := fun b' => by
    dsimp only
    by_cases hbb : b' = b
    · subst hbb
      have hold : (cibAvail (k.mbox b').cib).toNat ≤ 2 ^ size b' := h'.avail b'
      have := cibAvail_get havail
      rw [update_self]
      dsimp only
      omega
    · rw [update_of_ne hbb]
      exact h'.avail b'
  stored := fun b' => by
    have hold := h'.stored b'
    dsimp only [mboxRecord] at hold ⊢
    by_cases hbb : b' = b
    · subst hbb
      rw [items_taken (h'.sized b') havail] at hold
      simp [hold]
    · rwa [update_of_ne hbb, update_of_ne hbb]
  returned := fun b' r => by
    rw [inFlight_own hidle]
    have hold := h'.returned b' r
    have hstored := h'.stored b'
    dsimp only [mboxRecord] at hold hstored ⊢
    by_cases hbb : b' = b
    · subst hbb
      rw [items_taken (h'.sized b') havail] at hstored
      obtain ⟨sender, queue, hq⟩ := exists_cons_of_length_eq_add_one hstored
      have hnil : ∀ r', r' = me → inFlight k b' r' = [] := by
        rintro r' rfl
        exact inFlight_of_cont (by rw [hidle]; simp)
      rw [update_self]
      simp only [hq, head?_cons, Option.toList_some, map_append, map_cons, map_nil, bySender_append, hold]
      by_cases hrm : r = me
      · rw [hnil r hrm, hrm]
        simp [Delivery.toGet]
      · simp [Delivery.toGet, bySender_of_ne (Ne.symm hrm)]
    · rwa [update_of_ne hbb]

/-- **The invariant is kept by every move.** -/
theorem MboxMove.histInv (hmove : MboxMove k W me out k' W')
    (h' : MboxHistInv cfg size (k, h) W M) (hinv : KernelInv cfg k'.sched W' M)
    (hidle : k.cont me = .idle) (hfree : Free W me) (hne : ∀ b msg, out ≠ .delivered b msg)
    (hr : ∀ b msg, out = .queued b msg → HasRoom k b) :
    MboxHistInv cfg size (k', mboxRecord h me out) W' M := by
  cases hmove with
  | failed => exact h'
  | delivered b => exact absurd rfl (hne b _)
  | blockedPut hfull hs => exact h'.blocked hs rfl hidle hfree hinv (by simp) (by simp)
  | blockedGet hempty hs => exact h'.blocked hs rfl hidle hfree hinv (by simp) (by simp)
  | handed hw hs => exact h'.handed hs hw hinv
  | queued hroom hmsg => exact h'.queued hidle hroom (hr _ _ rfl)
  | taken havail hmsg hw =>
    have htaken := h'.taken hidle havail hmsg
    rcases hw with ⟨_, rfl, rfl⟩ | ⟨t, ts, hw, hs, rfl⟩
    · exact htaken
    · exact htaken.wakeWriter hs hw hinv

/-! ### The order -/

theorem stamp_snd_eq_iff {pid : Fin n → Nat} {p : Fin n × Msg} :
    (stamp pid p).2 = p.2 ↔ p.2.senderPid = pid p.1 := by
  obtain ⟨t, msg⟩ := p
  obtain ⟨senderPid, type, content⟩ := msg
  simp [stamp, eq_comm]

/-- The direct copy, exactly: the message has the right pid and overtakes no
other message of its sender. -/
theorem inOrder_handed {data : Fin n → Msg} (hpid : s.pid = k.sched.pid) (ho : InOrder (k, h) b' u) :
    InOrder ({ k with sched := s, waitData := data }, mboxRecord h me (.handed b msg t)) b' u ↔
      (b' = b → u = me → msg.senderPid = k.sched.pid me ∧
        ∀ x ∈ bySender me ((h b).queue.zip (k.mbox b).items), x = msg) := by
  unfold InOrder at *
  dsimp only [mboxRecord] at ho ⊢
  rw [hpid]
  by_cases hbb : b' = b
  · subst hbb
    rw [update_self]
    simp only [map_append, map_cons, map_nil, bySender_append, ho, true_imp_iff]
    by_cases hum : u = me
    · subst hum
      -- cancel what had been received before
      have hnew : bySender u [stamp k.sched.pid (u, msg)] = [(stamp k.sched.pid (u, msg)).2] :=
        bySender_self u _
      rw [hnew, show bySender u [Delivery.fromPut ⟨u, t, msg⟩] = [msg] from bySender_self u msg,
        append_assoc, append_assoc, append_cancel_left_eq, singleton_append,
        snoc_eq_cons_iff, stamp_snd_eq_iff]
      simp
    · have hnew : bySender u [stamp k.sched.pid (me, msg)] = [] := bySender_of_ne (Ne.symm hum) _
      rw [hnew, show bySender u [Delivery.fromPut ⟨me, t, msg⟩] = [] from
        bySender_of_ne (Ne.symm hum) _]
      simp [hum]
  · simp [ho, hbb]

theorem inOrder_queued (ho : InOrder (k, h) b' u)
    (h' : MboxHistInv cfg size (k, h) W M) (hact : k.sched.schedActivePid = k.sched.pid me)
    (hroom : cibFull (k.mbox b).cib = false) (hr : HasRoom k b)
    (hmsg : msg = { k.waitData me with senderPid := k.sched.schedActivePid }) :
    InOrder
      ({ k with
          waitData := update k.waitData me msg
          mbox := update k.mbox b
            { cib := (cibPutUnsafe (k.mbox b).cib).2
              msgArray :=
                update (k.mbox b).msgArray (cibPutUnsafe (k.mbox b).cib).1 msg } },
        mboxRecord h me (.queued b (k.waitData me))) b' u := by
  have hstored := h'.stored b'
  unfold InOrder at *
  dsimp only [mboxRecord] at ho hstored ⊢
  by_cases hbb : b' = b
  · subst hbb
    rw [update_self, update_self, items_queued (h'.sized b') hroom hr]
    rw [zip_append hstored, map_append, bySender_append, bySender_append, ho, append_assoc]
    have hstamp : stamp k.sched.pid (me, k.waitData me) = (me, msg) := by
      rw [hmsg, hact]
      rfl
    simp [hstamp]
  · rwa [update_of_ne hbb, update_of_ne hbb]

theorem inOrder_taken (ho : InOrder (k, h) b' u) (h' : MboxHistInv cfg size (k, h) W M)
    (hpid : s.pid = k.sched.pid) (havail : cibAvail (k.mbox b).cib ≠ 0)
    (hmsg : msg = (k.mbox b).msgArray (cibGetUnsafe (k.mbox b).cib).1) :
    InOrder
      ({ k with
          sched := s
          waitData := update k.waitData me msg
          mbox := update k.mbox b
            { k.mbox b with cib := (cibGetUnsafe (k.mbox b).cib).2 } },
        mboxRecord h me (.taken b msg)) b' u := by
  have hstored := h'.stored b'
  unfold InOrder at *
  dsimp only [mboxRecord] at ho hstored ⊢
  rw [hpid]
  by_cases hbb : b' = b
  · subst hbb
    have hitems := items_taken (h'.sized b') havail
    rw [hitems] at hstored ho
    obtain ⟨sender, queue, hq⟩ := exists_cons_of_length_eq_add_one hstored
    rw [hq, zip_cons_cons, bySender_cons] at ho
    rw [update_self, update_self]
    simp only [hq, head?_cons, Option.toList_some, tail_cons, map_append,
      map_cons, map_nil, bySender_append, ho, bySender_cons, bySender_nil,
      Delivery.fromPut, append_nil, append_assoc, hmsg]
  · rwa [update_of_ne hbb, update_of_ne hbb]

/-- **The order after a move**, exactly. -/
theorem MboxMove.inOrder (hmove : MboxMove k W me out k' W')
    (h' : MboxHistInv cfg size (k, h) W M) (hact : k.sched.schedActivePid = k.sched.pid me)
    (hr : ∀ b msg, out = .queued b msg → HasRoom k b) (hne : ∀ b msg, out ≠ .delivered b msg)
    (ho : ∀ b u, InOrder (k, h) b u) :
    (∀ b u, InOrder (k', mboxRecord h me out) b u) ↔
      ∀ b msg t, out = .handed b msg t → msg.senderPid = k.sched.pid me ∧
        ∀ x ∈ bySender me ((h b).queue.zip (k.mbox b).items), x = msg := by
  cases hmove with
  | failed => exact iff_of_true ho fun b msg t hout => absurd hout (by simp)
  | delivered b => exact absurd rfl (hne b _)
  | blockedPut hfull hs =>
    refine iff_of_true (fun b u => ?_) fun b msg t hout => absurd hout (by simp)
    have := ho b u
    unfold InOrder at *
    rwa [hs.same.pid]
  | blockedGet hempty hs =>
    refine iff_of_true (fun b u => ?_) fun b msg t hout => absurd hout (by simp)
    have := ho b u
    unfold InOrder at *
    rwa [hs.same.pid]
  | @handed b s t ts hw hs =>
    constructor
    · intro hall b' msg' t' hout
      obtain ⟨rfl, rfl, rfl⟩ := hout
      exact (inOrder_handed hs.same.pid (ho b me)).mp (hall b me) rfl rfl
    · intro hok b' u
      exact (inOrder_handed hs.same.pid (ho b' u)).mpr fun _ _ => hok b _ t rfl
  | queued hroom hmsg =>
    refine iff_of_true (fun b u => ?_) fun b msg t hout => absurd hout (by simp)
    exact inOrder_queued (ho b u) h' hact hroom (hr _ _ rfl) hmsg
  | taken havail hmsg hw =>
    refine iff_of_true (fun b u => ?_) fun b msg t hout => absurd hout (by simp)
    refine inOrder_taken (ho b u) h' ?_ havail hmsg
    rcases hw with ⟨_, rfl, _⟩ | ⟨t, ts, _, hs, _⟩
    · rfl
    · exact hs.same.pid

/-! ### Entering -/

/-- A section starts: the caller is in no mailbox function any more, and a get
that has waited returns its message. -/
theorem MboxHistInv.enter {e : MboxEvent n} {k0 : Kernel n}
    (h' : MboxHistInv cfg size (k, h) W M) (hd : dispatch k e.thread = some k0)
    (hy : e.Yields k W out) :
    (e.enter k0).cont e.thread = .idle ∧
      ((∀ b msg, out ≠ .delivered b msg) → MboxHistInv cfg size (e.enter k0, h) W M) ∧
      ∀ b msg, out = .delivered b msg → MboxHistInv cfg size (e.enter k0, mboxRecord h e.thread out) W M := by
  obtain ⟨hinv, hdis, hk0⟩ := h'.inv.dispatch hd
  obtain ⟨s, rfl⟩ : ∃ s, k0 = { k with sched := s } := ⟨_, hk0⟩
  have hfl : ∀ b r, inFlight { k with sched := s } b r = inFlight k b r :=
    fun b r => inFlight_congr rfl (hdis.runnable r) rfl
  have h0 : MboxHistInv cfg size ({ k with sched := s }, h) W M :=
    { h' with inv := hinv, returned := fun b r => (h'.returned b r).trans (by rw [hfl]) }
  cases e with
  | call me c =>
    have hidle : k.cont me = .idle := by
      cases c <;> exact hy.1
    refine ⟨?_, fun _ => ?_, fun b msg ho => ?_⟩
    · cases c <;> exact hidle
    rotate_left
    · cases c with
      | put b' msg' blocking =>
        rcases hy.2 with ⟨_, t, hout⟩ | ⟨_, hout | hout | hout⟩ <;>
          exact absurd (hout.symm.trans ho) (by simp)
      | get b' blocking =>
        rcases hy.2 with hout | hout | ⟨_, hout⟩ <;> exact absurd (hout.symm.trans ho) (by simp)
    · cases c with
      | get b blocking => exact h0
      | put b msg blocking =>
        refine { h0 with returned := fun b' r => (h0.returned b' r).trans (congrArg _ ?_) }
        exact (inFlight_own (k := { k with sched := s }) hidle).symm
  | resume me =>
    have hcont : ∀ t, t ≠ me → update k.cont me .idle t = k.cont t := fun t ht => update_of_ne ht _ _
    have hidle : ∀ b, inFlight ((MboxEvent.resume me).enter { k with sched := s }) b me = [] :=
      fun b => inFlight_of_cont (by simp [MboxEvent.enter])
    have hother : ∀ b r, r ≠ me →
        inFlight ((MboxEvent.resume me).enter { k with sched := s }) b r = inFlight k b r :=
      fun b r hr => inFlight_congr (hcont r hr) (hdis.runnable r) rfl
    have hread : ∀ b, ∀ t ∈ W (.mboxReaders b), update k.cont me .idle t = .mboxGet b :=
      fun b t ht => (hcont t fun htm => hdis.free _ (htm ▸ ht)).trans (h'.readers b t ht)
    have hwrite : ∀ b, ∀ t ∈ W (.mboxWriters b), update k.cont me .idle t = .mboxPut b :=
      fun b t ht => (hcont t fun htm => hdis.free _ (htm ▸ ht)).trans (h'.writers b t ht)
    have hon : (k.sched.status me).onRunqueue = true := by
      rw [← hdis.runnable]
      exact hdis.onRunqueue
    refine ⟨by simp [MboxEvent.enter, MboxEvent.thread], fun hnd => ?_, fun b msg ho => ?_⟩
    · rcases hy with ⟨b, hc, _⟩ | ⟨b, _, hout⟩
      · refine ⟨hinv, hread, hwrite, h'.sized, h'.avail, h'.stored, fun b' r => ?_⟩
        refine (h'.returned b' r).trans (congrArg _ ?_)
        by_cases hr : r = me
        · subst hr
          rw [hidle, inFlight_of_cont (by rw [hc]; simp)]
        · exact (hother b' r hr).symm
      · exact absurd hout (hnd _ _)
    · rcases hy with ⟨b', _, hout⟩ | ⟨b', hc, hout⟩
      · rcases hout with ⟨_, hout⟩ | ⟨_, hout⟩ <;> rw [hout] at ho <;> exact absurd ho (by simp)
      · subst hout
        refine ⟨hinv, hread, hwrite, h'.sized, h'.avail, fun b1 => ?_, fun b1 r => ?_⟩
        · have hold := h'.stored b1
          dsimp only [mboxRecord] at hold ⊢
          by_cases hbb : b1 = b'
          · subst hbb
            rwa [update_self]
          · rwa [update_of_ne hbb]
        · have hold := h'.returned b1 r
          dsimp only [mboxRecord, MboxEvent.thread] at hold ⊢
          by_cases hr : r = me
          · subst hr
            rw [hidle]
            by_cases hbb : b1 = b'
            · subst hbb
              have hfly : inFlight k b1 r = [k.waitData r] := by
                unfold inFlight
                rw [if_pos ⟨hc, hon⟩]
              rw [hfly] at hold
              rw [update_self]
              simp [hold, bySender_self]
            · rw [inFlight_of_cont (by rw [hc]; simpa using Ne.symm hbb)] at hold
              rwa [update_of_ne hbb]
          · rw [hother b1 r hr]
            by_cases hbb : b1 = b'
            · subst hbb
              simp [hold, bySender_of_ne (Ne.symm hr)]
            · rwa [update_of_ne hbb]

/-! ## Every step -/

theorem orderlyPut_iff {blocking : Bool} (h' : KernelInv cfg k.sched W M) :
    OrderlyPut (k, h) (.call me (.put b msg blocking)) ↔
      (W (.mboxReaders b) ≠ [] → msg.senderPid = k.sched.pid me ∧
        ∀ x ∈ bySender me ((h b).queue.zip (k.mbox b).items), x = msg) := by
  unfold OrderlyPut
  dsimp only
  rw [h'.readerWaits_iff]
  refine imp_congr_right fun _ => and_congr_right fun _ => ?_
  simp only [mem_bySender, Prod.forall]
  exact ⟨fun hp x hx => hp me x hx rfl, fun hp u x hx hu => hp x (hu ▸ hx)⟩

/-- **One step, exactly**: where there is room, the invariant is kept, and the
order is kept if and only if the step is no disorderly put. -/
theorem mboxHist_step {s s' : Kernel n × (Nat → MboxHist n)} {e : MboxEvent n}
    (hI : ∃ W M, MboxHistInv cfg size s W M) (ho : ∀ b u, InOrder s b u)
    (hroom : ∀ b ∈ e.mbox s.1, HasRoom s.1 b) (hs : mboxHistStep cfg s e = some s') :
    (∃ W M, MboxHistInv cfg size s' W M) ∧ (OrderlyPut s e ↔ ∀ b u, InOrder s' b u) := by
  obtain ⟨W, M, h'⟩ := hI
  obtain ⟨k, h⟩ := s
  obtain ⟨⟨k', out⟩, hstep, rfl⟩ := Option.map_eq_some_iff.mp hs
  obtain ⟨k0, W', hd, hinv', hmove, hy⟩ := mboxStep_move h'.inv hstep
  obtain ⟨hinv, hdis, hk0⟩ := h'.inv.dispatch hd
  obtain ⟨hidle, hentered, hdelivered⟩ := h'.enter hd hy
  have hpid : (e.enter k0).sched.pid = k.sched.pid := by
    rw [e.enter_sched]
    exact hdis.pid
  have hmbox : (e.enter k0).mbox = k.mbox := by
    rw [e.enter_mbox, hk0]
  have ho' : ∀ b u, InOrder (e.enter k0, h) b u := by
    intro b u
    have := ho b u
    unfold InOrder at *
    rwa [hpid, hmbox]
  by_cases hnd : ∀ b msg, out ≠ .delivered b msg
  · have h1 := hentered hnd
    have hact : (e.enter k0).sched.schedActivePid = (e.enter k0).sched.pid e.thread := by
      rw [e.enter_sched]
      exact hdis.getpid
    have hr : ∀ b msg, out = .queued b msg → HasRoom (e.enter k0) b := by
      intro b msg hout
      unfold HasRoom
      rw [hmbox]
      refine hroom b ?_
      cases e with
      | call me c =>
        cases c with
        | put b' msg' blocking =>
          rcases hy.2 with ⟨_, t, hout'⟩ | ⟨_, hout' | hout' | hout'⟩
          · exact absurd (hout'.symm.trans hout) (by simp)
          · exact absurd (hout'.symm.trans hout) (by simp)
          · exact absurd (hout'.symm.trans hout) (by simp)
          · have := hout'.symm.trans hout
            simp only [MboxOut.queued.injEq] at this
            exact congrArg some this.1
        | get b' blocking =>
          rcases hy.2 with hout' | hout' | ⟨_, hout'⟩ <;> exact absurd (hout'.symm.trans hout) (by simp)
      | resume me =>
        rcases hy with ⟨b', hc, ⟨_, hout'⟩ | ⟨_, hout'⟩⟩ | ⟨b', hc, hout'⟩
        · exact absurd (hout'.symm.trans hout) (by simp)
        · have := hout'.symm.trans hout
          simp only [MboxOut.queued.injEq] at this
          dsimp only at hc
          simp [MboxEvent.mbox, hc, this.1]
        · exact absurd (hout'.symm.trans hout) (by simp)
    refine ⟨⟨W', M, hmove.histInv h1 hinv' hidle hdis.free hnd hr⟩, ?_⟩
    dsimp only
    rw [hmove.inOrder h1 hact hr hnd ho', hpid, hmbox]
    -- only a put hands over
    cases e with
    | resume me =>
      refine iff_of_true trivial fun b msg t hout => ?_
      rcases hy with ⟨b', _, ⟨_, hout'⟩ | ⟨_, hout'⟩⟩ | ⟨b', _, hout'⟩ <;>
        exact absurd (hout'.symm.trans hout) (by simp)
    | call me c =>
      cases c with
      | get b blocking =>
        refine iff_of_true trivial fun b' msg t hout => ?_
        rcases hy.2 with hout' | hout' | ⟨_, hout'⟩ <;> exact absurd (hout'.symm.trans hout) (by simp)
      | put b msg blocking =>
        rw [orderlyPut_iff h'.inv]
        rcases hy.2 with ⟨hne, t, rfl⟩ | ⟨hnil, hout'⟩
        · constructor
          · intro hok b' msg' t' hout
            obtain ⟨rfl, rfl, rfl⟩ := hout
            exact hok hne
          · intro hok _
            exact hok b msg t rfl
        · refine iff_of_true (fun hne => absurd hnil hne) fun b' msg' t' hout => ?_
          rcases hout' with hout' | hout' | hout' <;> exact absurd (hout'.symm.trans hout) (by simp)
  · -- a get that has waited returns: nothing moves
    push Not at hnd
    obtain ⟨b, msg, rfl⟩ := hnd
    cases hmove with
    | delivered =>
      refine ⟨⟨W, M, hdelivered b _ rfl⟩, iff_of_true ?_ fun b' u => ?_⟩
      · cases e with
        | resume me => trivial
        | call me c =>
          cases c with
          | get b' blocking => trivial
          | put b' msg' blocking =>
            rcases hy.2 with ⟨_, t, hout⟩ | ⟨_, hout | hout | hout⟩ <;> exact absurd hout (by simp)
      · have := ho' b' u
        unfold InOrder at *
        dsimp only [mboxRecord] at this ⊢
        by_cases hbb : b' = b
        · subst hbb
          rwa [update_self]
        · rwa [update_of_ne hbb]

/-! ## Whole runs -/

theorem MboxHistInv.fifo_iff {s : Kernel n × (Nat → MboxHist n)}
    (h' : MboxHistInv cfg size s W M) : MboxFifo s ↔ ∀ b u, InOrder s b u :=
  ⟨MboxFifo.order, fun ho => ⟨ho, h'.stored, h'.returned⟩⟩

theorem MboxHistInv.hasRoom {s : Kernel n × (Nat → MboxHist n)} (h' : MboxHistInv cfg size s W M) (hsize : size b ≤ 30) : HasRoom s.1 b := by
  intro hroom
  have hne : (cibAvail (s.1.mbox b).cib).toNat ≠ 2 ^ size b := by
    rw [Ne, ← cibFull_iff (h'.sized b) hsize (h'.avail b), hroom]
    simp
  have := h'.avail b
  rw [(h'.sized b).2]
  omega

theorem histInv_start (hk : MboxStart cfg k) :
    ∃ size : Nat → Nat, (∀ b, (k.mbox b).cib.mask.toNat = 2 ^ size b - 1) ∧
      MboxHistInv cfg size (k, fun _ => .empty) (fun _ => []) fun _ => False := by
  choose size hle hcib using hk.size
  have hsized : ∀ b, (k.mbox b).cib.Sized (size b) := fun b => by
    rw [hcib]
    exact cibInit_sized (hle b)
  have hitems : ∀ b, (k.mbox b).items = [] := fun b => by
    unfold Mbox.items
    rw [hcib]
    exact cibItems_init _
  refine ⟨size, fun b => (hsized b).2, hk.booted.inv, by simp, by simp, hsized, fun b => ?_,
    fun b => ?_, fun b r => ?_⟩
  · have := congrArg length (hitems b)
    unfold Mbox.items at this
    rw [cibItems_length] at this
    simp [this]
  · simp [hitems, MboxHist.empty]
  · rw [inFlight_of_cont (by rw [hk.idle]; simp)]
    rfl

theorem inOrder_start (k : Kernel n) (b : Nat) (u : Fin n) : InOrder (k, fun _ => .empty) b u := by
  simp [InOrder, MboxHist.empty]

/-- **What a mailbox delivers**, over whole runs of any threads on mailboxes of
any capacity. If every put that finds a waiting reader is orderly, every message
is received once, in the order its sender put it, with its sender's pid. Up to
2^30 places the converse holds too: the first disorderly put shows. -/
theorem mboxFifo_iff (cfg : Cfg) (k : Kernel n) (es : List (MboxEvent n))
    (hk : MboxStart cfg k) :
    (Along (mboxHistStep cfg) Orderly (k, fun _ => .empty) es →
      Always (mboxHistStep cfg) MboxFifo (k, fun _ => .empty) es) ∧
    ((∀ b, (k.mbox b).cib.mask.toNat < 2 ^ 30) →
      Always (mboxHistStep cfg) MboxFifo (k, fun _ => .empty) es →
      Along (mboxHistStep cfg) Orderly (k, fun _ => .empty) es) := by
  obtain ⟨size, hmask, h₀⟩ := histInv_start hk
  constructor
  · refine always_of_along
      (I := fun s => (∃ W M, MboxHistInv cfg size s W M) ∧ ∀ b u, InOrder s b u) ?_ ?_ es
      ⟨⟨_, _, h₀⟩, inOrder_start k⟩
    · rintro s ⟨⟨W, M, h'⟩, ho⟩
      exact h'.fifo_iff.mpr ho
    · rintro s e s' ⟨hI, ho⟩ hok hs
      obtain ⟨hI', hiff⟩ := mboxHist_step hI ho hok.2 hs
      exact ⟨hI', hiff.mp hok.1⟩
  · intro hsmall halways
    have hsize : ∀ b, size b ≤ 30 := by
      intro b
      by_contra hlt
      have hpow : 2 ^ 31 ≤ 2 ^ size b := Nat.pow_le_pow_right (by omega) (by omega)
      have := hsmall b
      rw [hmask b] at this
      omega
    refine (along_iff_always (I := fun s => ∃ W M, MboxHistInv cfg size s W M) ?_ ?_ es
      ⟨_, _, h₀⟩ (h₀.fifo_iff.mpr (inOrder_start k))).mpr halways
    · rintro s e s' ⟨W, M, h'⟩ hP hs
      have hroom : ∀ b ∈ e.mbox s.1, HasRoom s.1 b := fun b _ => h'.hasRoom (hsize b)
      obtain ⟨⟨W', M', h''⟩, hiff⟩ := mboxHist_step ⟨W, M, h'⟩ hP.order hroom hs
      rw [h''.fifo_iff, ← hiff]
      exact ⟨And.left, fun hok => ⟨hok, hroom⟩⟩
    · rintro s e s' hI hP hok hs
      exact (mboxHist_step hI hP.order hok.2 hs).1

theorem mboxFifo_iff_lateWriter :
    Always (mboxHistStep clzCfg) MboxFifo (lateWriterStart, fun _ => .empty)
      (lateWriter.drop 1 |>.take 2) ∧
    Along (mboxHistStep clzCfg) Orderly (lateWriterStart, fun _ => .empty)
      (lateWriter.drop 1 |>.take 2) := by
  obtain ⟨hmp, hmpr⟩ := mboxFifo_iff clzCfg lateWriterStart (lateWriter.drop 1 |>.take 2)
    lateWriterStart_start
  have hal := hmp (by decide)
  exact ⟨hal, hmpr (fun b => show (cibInit 1).mask.toNat < 2 ^ 30 by decide) hal⟩

attribute [local instance] neZero_three

/-- A put to a waiting reader by a caller that has not filled in its pid, and
one, with the pid, that overtakes the caller's last message. -/
def directCopy : List (MboxEvent 3) := [.call 1 (.get 0 true), .call 0 (.put 0 ⟨0, 1, 0⟩ true)]

def overtaking : List (MboxEvent 3) :=
  [.call 1 (.get 1 true), .call 0 (.put 0 ⟨1, 1, 0⟩ true), .call 0 (.put 0 ⟨1, 2, 0⟩ true),
    .call 2 (.put 1 ⟨3, 3, 0⟩ true), .resume 1, .call 1 (.get 0 true), .call 1 (.get 0 true),
    .resume 0, .call 0 (.put 0 ⟨1, 4, 0⟩ true)]

/-- The received message does not carry the pid, or comes before an older one.
Every thread is the one `sched_run` picks. -/
theorem not_mboxFifo :
    MboxStart clzCfg lateWriterStart ∧ ∀ es ∈ [directCopy, overtaking],
      Along (mboxHistStep clzCfg) (fun s e => Picked clzCfg s.1.sched e.thread)
        (lateWriterStart, fun _ => .empty) es ∧
      ∃ s, run (mboxHistStep clzCfg) (lateWriterStart, fun _ => .empty) es = some s ∧
        ¬ MboxFifo s := by
  refine ⟨lateWriterStart_start, fun es hes => ⟨?_, ?_⟩⟩
  · revert es
    decide
  · have hend : ∀ es ∈ [directCopy, overtaking],
        (run (mboxHistStep clzCfg) (lateWriterStart, fun _ => .empty) es).any (fun s =>
          decide (¬ InOrder s 0 0)) = true := by decide
    obtain ⟨s, hs, hbad⟩ := (Option.any_eq_true _ _).mp (hend es hes)
    exact ⟨s, hs, fun h => of_decide_eq_true hbad (h.order 0 0)⟩

end Riot.Core
