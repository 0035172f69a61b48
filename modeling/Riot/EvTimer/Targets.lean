import Riot.EvTimer.Evtimer

/-!
# Targets of pending events

The list of offsets stands for the pending events with their absolute targets as long
as every call finds the first one not overdue: `_update_head_offset` stops at zero and
moves the base to now, and the handler counts the offsets behind it from when it runs.
A call that leaves no event cannot put one off.
-/

namespace Riot.EvTimer

open Riot.Lib List Prod

variable {α : Type} {w w' : World α} {ev : Evtimer α} {k : α} {now v t : Nat}
  {ds : List (α × Nat)}

/-! ## The list of offsets -/

theorem addEventToList_eq : addEventToList k v ds = insertDelta k v ds := by
  induction ds generalizing v with
  | nil => rfl
  | cons d ds ih =>
    rw [addEventToList, insertDelta]
    by_cases hlt : v < d.2
    · rw [if_pos hlt, if_neg (not_le.mpr hlt)]
    · rw [if_neg hlt, if_pos (not_lt.mp hlt), ih]

theorem sum_insertDelta : ((insertDelta k v ds).map snd).sum = max v (ds.map snd).sum := by
  induction ds generalizing v with
  | nil => simp [insertDelta]
  | cons d ds ih =>
    rw [insertDelta]
    split
    · rw [map_cons, sum_cons, ih, map_cons, sum_cons]
      omega
    · simp only [map_cons, sum_cons]
      omega

theorem keys_insertDelta : ((insertDelta k v ds).map fst).Perm (k :: ds.map fst) := by
  rw [← @keys_targets _ 0 (insertDelta k v ds), targets_insertDelta, ← @keys_targets _ 0 ds]
  exact perm_insertTarget.map fst

/-! ## Bringing the first offset up to date -/

/-- The first event is not overdue. -/
def Evtimer.InTime (ev : Evtimer α) (now : Nat) : Prop := ∀ d ∈ ev.events.head?, now ≤ ev.base + d.2

/-- How far `_update_head_offset` puts the pending events off. -/
def Evtimer.delay (ev : Evtimer α) (now : Nat) : Nat :=
  match (updateHeadOffset now ev).events.head?, ev.events.head? with
  | some d', some d => now + d'.2 - (ev.base + d.2)
  | _, _ => 0

theorem updateHeadOffset_nil (h : ev.events = []) : updateHeadOffset now ev = ev := by
  unfold updateHeadOffset
  rw [h]

theorem updateHeadOffset_cons {d : α × Nat} (h : ev.events = d :: ds) :
    updateHeadOffset now ev = { ev with
      events := (d.1, if d.2 < u32 (u32 now + 2 ^ 32 - u32 ev.base) then 0
        else d.2 - u32 (u32 now + 2 ^ 32 - u32 ev.base)) :: ds
      base := now } := by
  unfold updateHeadOffset
  rw [h]

/-- **All targets are put off by the same delay**, and there is none if the first event is
in time. -/
theorem targets_updateHeadOffset (hbase : ev.base ≤ now) (hsum : (ev.events.map snd).sum < 2 ^ 32) :
    targets (updateHeadOffset now ev).base (updateHeadOffset now ev).events =
        (targets ev.base ev.events).map (fun t => (t.1, t.2 + ev.delay now)) ∧
      (ev.delay now = 0 ↔ ev.InTime now) := by
  unfold Evtimer.delay Evtimer.InTime
  cases hev : ev.events with
  | nil =>
    rw [updateHeadOffset_nil hev, hev]
    exact ⟨rfl, fun _ => by simp, fun _ => rfl⟩
  | cons d ds =>
    rw [hev, map_cons, sum_cons] at hsum
    rw [updateHeadOffset_cons hev]
    generalize hoff : (if d.2 < u32 (u32 now + 2 ^ 32 - u32 ev.base) then 0
      else d.2 - u32 (u32 now + 2 ^ 32 - u32 ev.base)) = off
    have hle : ev.base + d.2 ≤ now + off ∧ (now + off = ev.base + d.2 ↔ now ≤ ev.base + d.2) := by
      unfold u32 at hoff
      split at hoff <;> omega
    dsimp only [head?_cons]
    constructor
    · have hshift : now + off = ev.base + d.2 + (now + off - (ev.base + d.2)) := by omega
      rw [targets, targets, map_cons, hshift, targets_shift, Nat.add_sub_cancel_left]
    · simp only [Option.mem_def, Option.some.injEq, forall_eq']
      omega

theorem keys_updateHeadOffset : (updateHeadOffset now ev).events.map fst = ev.events.map fst := by
  cases hev : ev.events with
  | nil => rw [updateHeadOffset_nil hev, hev]
  | cons d ds => rw [updateHeadOffset_cons hev, map_cons, map_cons]

theorem sum_updateHeadOffset : ((updateHeadOffset now ev).events.map snd).sum ≤ (ev.events.map snd).sum := by
  cases hev : ev.events with
  | nil =>
    have hsame : updateHeadOffset now ev = ev := updateHeadOffset_nil hev
    exact le_of_eq (by rw [hsame, hev])
  | cons d ds =>
    rw [updateHeadOffset_cons hev]
    simp only [map_cons, sum_cons]
    split <;> omega

theorem base_updateHeadOffset (h : ev.events ≠ []) : (updateHeadOffset now ev).base = now := by
  cases hev : ev.events with
  | nil => exact absurd hev h
  | cons d ds => rw [updateHeadOffset_cons hev]

theorem timer_updateHeadOffset : (updateHeadOffset now ev).timer = ev.timer := by
  unfold updateHeadOffset
  split <;> rfl

/-! ## Deletion from the list -/

variable [DecidableEq α]

/-- The sum of the offsets that a removed event leaves to the next one does not wrap. -/
theorem delEventFromList_eq (h : (ds.map snd).sum < 2 ^ 32) : delEventFromList k ds = removeDelta k ds := by
  induction ds with
  | nil => rfl
  | cons d ds ih =>
    rw [map_cons, sum_cons] at h
    rw [delEventFromList, removeDelta]
    by_cases hd : d.1 = k
    · rw [if_pos hd, if_pos hd]
      cases ds with
      | nil => rfl
      | cons d' ds =>
        rw [map_cons, sum_cons] at h
        rw [takeOver, u32, Nat.mod_eq_of_lt (by omega), addHead]
    · rw [if_neg hd, if_neg hd, ih (by omega)]

theorem sum_removeDelta : ((removeDelta k ds).map snd).sum ≤ (ds.map snd).sum := by
  induction ds with
  | nil => exact Nat.le_refl _
  | cons d ds ih =>
    rw [removeDelta, map_cons, sum_cons]
    split
    · cases ds with
      | nil => exact Nat.zero_le _
      | cons d' ds =>
        simp only [addHead, map_cons, sum_cons]
        omega
    · rw [map_cons, sum_cons]
      omega

theorem keys_removeDelta : (removeDelta k ds).map fst = (ds.map fst).erase k := by
  rw [← @keys_targets _ 0 (removeDelta k ds), targets_removeDelta, keys_removeTarget, keys_targets]

end Riot.EvTimer
