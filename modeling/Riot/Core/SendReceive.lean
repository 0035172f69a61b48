import Riot.Core.Msg

/-!
# Asking a thread that does not exist

`msg_send_receive` takes the caller off its run queue, and `_msg_send` looks the target up after
that. Where it finds none nothing is undone: -1 is returned to a thread that the scheduler takes
for blocked, with nobody there to answer it.
-/

namespace Riot.Core

variable {n : Nat} {cfg : Cfg} {k k₀ k' : Kernel n} {me : Fin n} {m : Msg} {targetPid : Nat} {out : MsgOut n}

/-- **What a caller may expect of a refusal**: the scheduler is as it was. -/
def Refused (k₀ k' : Kernel n) (out : MsgOut n) : Prop := out = .failed (-1) → k'.sched = k₀.sched

theorem msgSendBody_refused_iff (block : Bool) :
    (msgSendBody cfg k targetPid me block).2 = .failed (-1) ↔ k.sched.schedThreads targetPid = none := by
  unfold msgSendBody
  cases ht : k.sched.schedThreads targetPid with
  | none => simp [ht]
  | some target =>
    simp only [ht, reduceCtorEq, iff_false]
    split
    · split
      · simp
      · split <;> simp
    · simp

theorem msgSendBody_missing (block : Bool) (h : k.sched.schedThreads targetPid = none) :
    (msgSendBody cfg k targetPid me block).1.sched = k.sched := by
  unfold msgSendBody
  simp only [h]

theorem msgSendReceive_missing (h : k.sched.schedThreads targetPid = none) :
    (msgSendReceive cfg k targetPid me).2 = .failed (-1) ∧
      (msgSendReceive cfg k targetPid me).1.sched = schedSetStatus cfg k.sched me .replyBlocked := by
  have hmiss : (schedSetStatus cfg k.sched me .replyBlocked).schedThreads targetPid = none := by
    rw [schedSetStatus_schedThreads]
    exact h
  have hout := (@msgSendBody_refused_iff _ cfg { k with sched := schedSetStatus cfg k.sched me .replyBlocked }
    me targetPid true).mpr hmiss
  have hsched := @msgSendBody_missing _ cfg { k with sched := schedSetStatus cfg k.sched me .replyBlocked }
    me targetPid true hmiss
  unfold msgSendReceive
  dsimp only
  rw [hout]
  exact ⟨rfl, hsched⟩

theorem msgSendReceive_refused_iff :
    (msgSendReceive cfg k targetPid me).2 = .failed (-1) ↔ k.sched.schedThreads targetPid = none := by
  have hbody := @msgSendBody_refused_iff _ cfg { k with sched := schedSetStatus cfg k.sched me .replyBlocked }
    me targetPid true
  rw [schedSetStatus_schedThreads] at hbody
  rw [← hbody]
  unfold msgSendReceive
  dsimp only
  split
  · rename_i ret hret
    rw [hret]
  · exact Iff.rfl

/-- **`msg_send_receive` refuses without a trace exactly if it does not refuse**: the scheduler is as
before the call if and only if there is a thread to ask. `k₀` is the state before the call, the
caller running. -/
theorem msgSendReceive_right_iff (hd : dispatch k me = some k₀)
    (hcall : msgCall cfg k₀ me (.sendReceive m targetPid) = some (k', out)) :
    Refused k₀ k' out ↔ k₀.sched.schedThreads targetPid ≠ none := by
  obtain ⟨-, hon, rfl⟩ := dispatch_cases hd
  have hrun := (@schedSwitchTo_onRunqueue _ k.sched k.sched.schedActiveThread k.sched.schedActiveThread me me
    hon).1.trans hon
  simp only [msgCall, Option.ite_none_left_eq_some, Option.some.injEq] at hcall
  obtain ⟨-, hres⟩ := hcall
  constructor
  · intro hright hmiss
    obtain ⟨hout, hsched⟩ := @msgSendReceive_missing _ cfg { k with
      sched := schedSwitchTo k.sched k.sched.schedActiveThread k.sched.schedActiveThread me
      waitData := Function.update k.waitData me m } me targetPid hmiss
    rw [hres] at hout hsched
    -- the caller was runnable, and is blocked
    have hstatus := congrArg (fun s => (s.status me).onRunqueue) (hsched.symm.trans (hright hout))
    rw [schedSetStatus_status, Function.update_self, hrun] at hstatus
    exact absurd hstatus (by decide)
  · intro htarget hout
    have hrefused := (congrArg Prod.snd hres).trans hout
    exact absurd (msgSendReceive_refused_iff.mp hrefused) htarget

/-- A system with one thread. -/
def askingStart : Kernel 1 := Kernel.init (bootWith clzCfg ![7]) (fun _ => 0) fun _ => 0

theorem askingStart_booted : Booted clzCfg askingStart.sched := booted_bootWith clzCfg ![7]

theorem asking_runs : ∃ k₀ k' out, dispatch askingStart 0 = some k₀ ∧
    msgCall clzCfg k₀ 0 (.sendReceive ⟨0, 1, 0⟩ 5) = some (k', out) ∧ out = .failed (-1) ∧
    k₀.sched.schedThreads 5 = none ∧ k₀.sched.status 0 = .running ∧ k'.sched.status 0 = .replyBlocked := by
  have hrun : ((dispatch askingStart 0).bind fun k₀ => (msgCall clzCfg k₀ 0 (.sendReceive ⟨0, 1, 0⟩ 5)).map
      fun r => (r.2, k₀.sched.schedThreads 5, k₀.sched.status 0, r.1.sched.status 0)) =
        some (.failed (-1), none, .running, .replyBlocked) := by decide
  obtain ⟨k₀, hd, hrest⟩ := Option.bind_eq_some_iff.mp hrun
  obtain ⟨⟨k', out⟩, hcall, heq⟩ := Option.map_eq_some_iff.mp hrest
  obtain ⟨hout, hthreads, hbefore, hafter⟩ := Prod.mk.inj heq |>.imp_right fun h =>
    (Prod.mk.inj h).imp_right Prod.mk.inj
  exact ⟨k₀, k', out, hd, hcall, hout, hthreads, hbefore, hafter⟩

theorem msgSendReceive_right_iff_asking : ∃ k₀ k' out, dispatch askingStart 0 = some k₀ ∧
    msgCall clzCfg k₀ 0 (.sendReceive ⟨0, 1, 0⟩ 5) = some (k', out) ∧
    (Refused k₀ k' out ↔ k₀.sched.schedThreads 5 ≠ none) := by
  obtain ⟨k₀, k', out, hd, hcall, -⟩ := asking_runs
  exact ⟨k₀, k', out, hd, hcall, msgSendReceive_right_iff hd hcall⟩

/-- The thread that asked is not in a run queue afterwards. -/
theorem not_msgSendReceive_right : Booted clzCfg askingStart.sched ∧ ∃ k₀ k' out,
    dispatch askingStart 0 = some k₀ ∧
    msgCall clzCfg k₀ 0 (.sendReceive ⟨0, 1, 0⟩ 5) = some (k', out) ∧ out = .failed (-1) ∧
    k₀.sched.status 0 = .running ∧ k'.sched.status 0 = .replyBlocked ∧ ¬ Refused k₀ k' out := by
  obtain ⟨k₀, k', out, hd, hcall, hout, -, hbefore, hafter⟩ := asking_runs
  refine ⟨askingStart_booted, k₀, k', out, hd, hcall, hout, hbefore, hafter, fun hright => ?_⟩
  rw [hright hout, hbefore] at hafter
  exact absurd hafter (by decide)

end Riot.Core
