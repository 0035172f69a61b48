import Riot.Core.Mbox

/-!
# Can a reader wait while there is a message?

`_mbox_put` looks for waiting readers once, before it waits for room. A writer
that was woken goes straight to the queue, so a reader that came to wait in the
meantime stays blocked although a message is available. `NoStall` says that this
does not happen; it holds along a run exactly if no woken writer finds both room
in the queue and somebody reading.
-/

namespace Riot.Core

open Riot.Lib Function

variable {n : Nat}

/-- One step, without its outcome. -/
def mboxNext (cfg : Cfg) (k : Kernel n) (e : MboxEvent n) : Option (Kernel n) :=
  (mboxStep cfg k e).map Prod.fst

/-- Initialised mailboxes, each with room for a power of two of messages, and
threads none of which is in a mailbox function. -/
structure MboxStart (cfg : Cfg) (k : Kernel n) : Prop where
  booted : Booted cfg k.sched
  idle : ∀ t, k.cont t = .idle
  size : ∀ b, ∃ j ≤ 31, (k.mbox b).cib = cibInit (BitVec.ofNat 32 (2 ^ j))

/-- Somebody waits in `mbox->readers`. -/
def ReaderWaits (k : Kernel n) (b : Nat) : Prop :=
  k.sched.next (waitHead (.mboxReaders b)) ≠ .null

instance (k : Kernel n) (b : Nat) : Decidable (ReaderWaits k b) :=
  inferInstanceAs (Decidable (_ ≠ _))

/-- Whoever reads waits for a message that does not exist yet. -/
def NoStall (k : Kernel n) : Prop := ∀ b, ReaderWaits k b → cibAvail (k.mbox b).cib = 0

/-- The event is not that of a woken writer that finds room in the queue while
somebody waits to read. -/
def NoLateWriter (k : Kernel n) : MboxEvent n → Prop
  | .call _ _ => True
  | .resume me =>
    match k.cont me with
    | .mboxPut b => ReaderWaits k b → cibFull (k.mbox b).cib = true
    | _ => True

instance (k : Kernel n) : (e : MboxEvent n) → Decidable (NoLateWriter k e)
  | .call _ _ => inferInstanceAs (Decidable True)
  | .resume me => by
    unfold NoLateWriter
    dsimp only
    refine (k.cont me).casesOn ?_ ?_ ?_ ?_ ?_ ?_ ?_ ?_ ?_ ?_ ?_ <;> intros <;> infer_instance

variable {cfg : Cfg} {k k' : Kernel n} {W W' : WaitList n → List (Fin n)} {M : WaitList n → Prop}

theorem KernelInv.readerWaits_iff (h : KernelInv cfg k.sched W M) (b : Nat) :
    ReaderWaits k b ↔ W (.mboxReaders b) ≠ [] :=
  not_congr (h.next_null (by simp))

theorem cibAvail_get_ne {cib : Cib} (h : cibAvail cib = 0) : cibAvail (cibPutUnsafe cib).2 ≠ 0 := by
  unfold cibAvail cibPutUnsafe at *
  bv_omega

/-- A move keeps readers and messages apart exactly if it does not queue a
message under the eyes of a reader. -/
theorem MboxMove.noStall {me : Fin n} {out : MboxOut n} (hmove : MboxMove k W me out k' W')
    (h : ∀ b, W (.mboxReaders b) ≠ [] → cibAvail (k.mbox b).cib = 0) :
    (∀ b, W' (.mboxReaders b) ≠ [] → cibAvail (k'.mbox b).cib = 0) ↔
      ∀ b msg, out = .queued b msg → W (.mboxReaders b) = [] := by
  cases hmove with
  | failed => exact ⟨fun _ b msg ho => absurd ho (by simp), fun _ => h⟩
  | delivered b => exact ⟨fun _ b msg ho => absurd ho (by simp), fun _ => h⟩
  | blockedPut hfull hs =>
    refine ⟨fun _ b msg ho => absurd ho (by simp), fun _ b hb => h b ?_⟩
    rwa [update_of_ne (by simp)] at hb
  | @blockedGet b s hempty hs =>
    refine ⟨fun _ b msg ho => absurd ho (by simp), fun _ b' hb => ?_⟩
    by_cases hbb : b' = b
    · rw [hbb]
      exact hempty
    · rw [update_of_ne (by simpa using hbb)] at hb
      exact h b' hb
  | @handed b s t ts hw hs =>
    refine ⟨fun _ b msg ho => absurd ho (by simp), fun _ b' hb => h b' ?_⟩
    by_cases hbb : b' = b
    · rw [hbb, hw]
      simp
    · rwa [update_of_ne (by simpa using hbb)] at hb
  | @queued b hroom msg hmsg =>
    constructor
    · intro h' b' msg' ho
      obtain ⟨rfl, _⟩ := ho
      by_contra hne
      have := h' b hne
      dsimp only at this
      rw [update_self] at this
      exact cibAvail_get_ne (h b hne) this
    · intro ho b' hb
      by_cases hbb : b' = b
      · subst hbb
        exact absurd (ho b' _ rfl) hb
      · dsimp only
        rw [update_of_ne hbb]
        exact h b' hb
  | @taken b s _ msg havail hmsg hw =>
    refine ⟨fun _ b msg ho => absurd ho (by simp), fun _ b' hb => ?_⟩
    have hsame : W' (.mboxReaders b') = W (.mboxReaders b') := by
      rcases hw with ⟨_, _, rfl⟩ | ⟨t, ts, _, _, rfl⟩
      · rfl
      · rw [update_of_ne (by simp)]
    rw [hsame] at hb
    by_cases hbb : b' = b
    · exact absurd (hbb ▸ h b' hb) havail
    · dsimp only
      rw [update_of_ne hbb]
      exact h b' hb

/-- **One step, exactly.** -/
theorem noStall_step {e : MboxEvent n} (hI : ∃ W M, KernelInv cfg k.sched W M)
    (hP : NoStall k) (hs : mboxNext cfg k e = some k') : NoLateWriter k e ↔ NoStall k' := by
  obtain ⟨W, M, h⟩ := hI
  obtain ⟨⟨_, out⟩, hstep, rfl⟩ := Option.map_eq_some_iff.mp hs
  obtain ⟨k0, W', hd, h', hmove, hy⟩ := mboxStep_move h hstep
  obtain ⟨hinv, hdis, hk0⟩ := h.dispatch hd
  have hmbox : k0.mbox = k.mbox := by rw [hk0]
  have hP' : ∀ b, W (.mboxReaders b) ≠ [] → cibAvail ((e.enter k0).mbox b).cib = 0 := by
    intro b hb
    rw [e.enter_mbox, hmbox]
    exact hP b ((h.readerWaits_iff b).mpr hb)
  have hstall : NoStall (n := n) _ ↔ _ := forall_congr' fun b => imp_congr_left (h'.readerWaits_iff b)
  rw [hstall, hmove.noStall hP']
  cases e with
  | call me c =>
    refine iff_of_true trivial fun b msg ho => ?_
    cases c with
    | put b' msg' blocking =>
      rcases hy.2 with ⟨_, t, hout⟩ | ⟨hnil, hout⟩
      · exact absurd (hout.symm.trans ho) (by simp)
      · rcases hout with hout | hout | hout
        · exact absurd (hout.symm.trans ho) (by simp)
        · exact absurd (hout.symm.trans ho) (by simp)
        · have := hout.symm.trans ho
          simp only [MboxOut.queued.injEq] at this
          exact this.1 ▸ hnil
    | get b' blocking =>
      rcases hy.2 with hout | hout | ⟨_, hout⟩ <;> exact absurd (hout.symm.trans ho) (by simp)
  | resume me =>
    unfold NoLateWriter
    rcases hy with ⟨b, hc, hout⟩ | ⟨b, hc, hout⟩
    · simp only [hc, h.readerWaits_iff]
      rcases hout with ⟨hfull, rfl⟩ | ⟨hroom, rfl⟩
      · exact iff_of_true (fun _ => hfull) (by simp)
      -- it queues its message: nobody may wait to read
      · constructor
        · intro hok b' msg ho
          simp only [MboxOut.queued.injEq] at ho
          by_contra hne
          have := hok (ho.1 ▸ hne)
          rw [hroom] at this
          exact Bool.noConfusion this
        · intro hnil hne
          exact absurd (hnil b _ rfl) hne
    · simp only [hc, true_iff]
      intro b' msg ho
      rw [hout] at ho
      exact absurd ho (by simp)

/-- **No reader is left waiting, exactly when no woken writer meets one**: over
whole runs, for mailboxes of every capacity and threads of all priorities. -/
theorem noStall_iff (cfg : Cfg) (k : Kernel n) (es : List (MboxEvent n))
    (hk : MboxStart cfg k) :
    Along (mboxNext cfg) NoLateWriter k es ↔ Always (mboxNext cfg) NoStall k es := by
  refine along_iff_always (I := fun k => ∃ W M, KernelInv cfg k.sched W M)
    (fun k e k' hI hP hs => noStall_step hI hP hs) (fun k e k' hI _ _ hs => ?_) es
    ⟨_, _, hk.booted.inv⟩ fun b hb => ?_
  · obtain ⟨W, M, h⟩ := hI
    obtain ⟨⟨_, out⟩, hstep, rfl⟩ := Option.map_eq_some_iff.mp hs
    obtain ⟨_, W', _, h', _, _⟩ := mboxStep_move h hstep
    exact ⟨W', M, h'⟩
  · exact absurd rfl ((hk.booted.inv.readerWaits_iff b).mp hb)

/-- A writer blocks on a full mailbox, a reader of higher priority empties it and
waits for more, and the writer queues its message behind the reader's back. -/
def lateWriter : List (MboxEvent 3) :=
  [.call 1 (.get 1 true), .call 0 (.put 0 ⟨0, 1, 0⟩ true), .call 0 (.put 0 ⟨0, 2, 0⟩ true),
    .call 2 (.put 1 ⟨0, 3, 0⟩ true), .resume 1, .call 1 (.get 0 true), .call 1 (.get 0 true),
    .resume 0]

/-- Three threads, the second one of the highest priority, and mailboxes with
room for one message. -/
def lateWriterStart : Kernel 3 :=
  Kernel.init (bootWith clzCfg ![7, 3, 9]) (fun _ => 1) fun _ => 0

theorem lateWriterStart_start : MboxStart clzCfg lateWriterStart :=
  ⟨booted_bootWith clzCfg ![7, 3, 9], fun _ => rfl, fun _ => ⟨0, by omega, rfl⟩⟩

theorem noStall_iff_lateWriter :
    Always (mboxNext clzCfg) NoStall lateWriterStart (lateWriter.take 7) :=
  (noStall_iff clzCfg _ _ lateWriterStart_start).mp (by decide)

/-- At the end of the run a message is in the queue and a reader waits. Every
thread is the one `sched_run` picks. -/
theorem not_noStall :
    MboxStart clzCfg lateWriterStart ∧
      Along (mboxNext clzCfg) (fun k e => Picked clzCfg k.sched e.thread) lateWriterStart
        lateWriter ∧
      ∃ k, run (mboxNext clzCfg) lateWriterStart lateWriter = some k ∧ ¬ NoStall k := by
  refine ⟨lateWriterStart_start, by decide, ?_⟩
  have hend : (run (mboxNext clzCfg) lateWriterStart lateWriter).any (fun k =>
      decide (ReaderWaits k 0 ∧ cibAvail (k.mbox 0).cib ≠ 0)) = true := by decide
  obtain ⟨k, hk, hstall⟩ := (Option.any_eq_true _ _).mp hend
  have hstall := of_decide_eq_true hstall
  exact ⟨k, hk, fun h => hstall.2 (h 0 hstall.1)⟩

end Riot.Core
