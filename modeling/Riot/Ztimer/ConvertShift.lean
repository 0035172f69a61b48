import Riot.Ztimer.Calls

/-!
# Clocks of another frequency (`ztimer/convert_shift.c`)

A clock whose ticks are `2 ^ shift` to one tick of a lower clock. An interval is
rounded down when it is set, so callbacks are on time exactly for clocks that
are only ever set to multiples of `2 ^ shift`.
-/

namespace Riot.Ztimer

open Riot.Lib Function List Nat UInt32

variable {T : Type} [DecidableEq T] [Fintype T] {shift base : Nat} {adjustSet : UInt16} {s s' : Sys T}
  {vts : List (T × Nat)}

def convertShiftUpSet (shift : Nat) (val : UInt32) : UInt32 := UInt32.ofNat (val.toNat >>> shift)

def convertShiftUpNow (shift : Nat) (val : UInt32) : UInt32 := UInt32.ofNat (val.toNat <<< shift)

/-- `_ztimer_convert_shift_ops_up`; the lower layer is the lower clock. -/
def convertShiftUp (shift : Nat) : Ops :=
  { now := convertShiftUpNow shift, set := convertShiftUpSet shift, scale := 2 ^ shift }

/-- No callback was run before the tick its timer was set for. -/
def OnTime (s : Sys T) : Prop := ∀ f ∈ s.fired, f.target ≤ f.tick

omit [DecidableEq T] [Fintype T] in
theorem convertShiftUp_now : s.now (convertShiftUp shift) = ofNat (s.tick (convertShiftUp shift)) := by
  apply UInt32.toNat_inj.mp
  show (UInt32.ofNat ((UInt32.ofNat s.time).toNat <<< shift)).toNat = (UInt32.ofNat (s.time * 2 ^ shift)).toNat
  rw [toNat_ofNat', toNat_ofNat', toNat_ofNat', shiftLeft_eq, mod_mul_mod]

theorem two_pow_dvd_mod {n : Nat} (h : 2 ^ shift ∣ n) : 2 ^ shift ∣ n % 2 ^ 32 := by
  rcases le_total shift 32 with hle | hle
  · exact (Nat.dvd_mod_iff (Nat.pow_dvd_pow 2 hle)).mpr h
  · rw [Nat.mod_eq_zero_of_dvd (Nat.dvd_trans (Nat.pow_dvd_pow 2 hle) h)]
    exact Nat.dvd_zero _

/-- Timers with targets not before those they were set for, all multiples of `2 ^ shift`. -/
def Multiples (shift : Nat) (s : Sys T) (vts : List (T × Nat)) : Prop :=
  ∀ e ∈ vts, s.target e.1 ≤ e.2 ∧ 2 ^ shift ∣ e.2

/-- **The invariant of a clock that is set to multiples only.** -/
structure Shifted (shift : Nat) (adjustSet : UInt16) (s : Sys T) (base : Nat) (vts : List (T × Nat)) : Prop where
  keeps : Keeps s.clock base vts
  adjust : s.clock.adjustSet = adjustSet
  base_le : base ≤ s.tick (convertShiftUp shift)
  base_dvd : 2 ^ shift ∣ base
  multiples : Multiples shift s vts
  /-- the lower clock is set for the first timer or later -/
  idle : s.handling = false → ∀ a, s.alarm = some a → ∃ e ∈ vts.head?, max e.2 base ≤ a * 2 ^ shift
  onTime : OnTime s

theorem Shifted.update (h : Shifted shift adjustSet s base vts) : ∃ vts', vts'.map Prod.fst = vts.map Prod.fst ∧
    Multiples shift s vts' ∧ Keeps (ztimerUpdateHeadOffset s.clock (s.now (convertShiftUp shift)))
      (s.tick (convertShiftUp shift)) vts' := by
  have htick : 2 ^ shift ∣ s.tick (convertShiftUp shift) := Nat.dvd_mul_left _ _
  obtain ⟨x, hx⟩ : ∃ x, x = (s.tick (convertShiftUp shift) - base) % 2 ^ 32 := ⟨_, rfl⟩
  obtain ⟨q, hq⟩ : ∃ q, s.tick (convertShiftUp shift) = base + x + q :=
    ⟨s.tick (convertShiftUp shift) - base - x, by have := h.base_le; omega⟩
  have hxdvd : 2 ^ shift ∣ x := hx ▸ two_pow_dvd_mod (dvd_sub htick h.base_dvd)
  have hsum : 2 ^ shift ∣ base + x := Nat.dvd_add h.base_dvd hxdvd
  have hqdvd : 2 ^ shift ∣ q := (Nat.dvd_add_right hsum).mp (hq ▸ htick)
  have hkeeps := h.keeps.update_late h.base_le hx hq
  rw [← convertShiftUp_now] at hkeeps
  refine ⟨_, ?_, ?_, hkeeps⟩
  · rw [map_map]
    rfl
  · intro e he
    obtain ⟨e', he', rfl⟩ := mem_map.mp he
    obtain ⟨hle, hdvd⟩ := h.multiples e' he'
    refine ⟨?_, Nat.dvd_add ?_ hqdvd⟩
    · dsimp only
      omega
    · rcases Nat.le_total e'.2 (base + x) with hmax | hmax
      · rw [max_eq_right hmax]
        exact hsum
      · rw [max_eq_left hmax]
        exact hdvd

omit [DecidableEq T] [Fintype T] in
theorem Keeps.convertShiftUp_alarm (h : Keeps s.clock base vts) (hm : Multiples shift s vts)
    (hbase : s.tick (convertShiftUp shift) = base) (hupd : ztimerUpdate (convertShiftUp shift) s = s) :
    ∀ a, s.alarm = some a → ∃ e ∈ vts.head?, max e.2 base ≤ a * 2 ^ shift := by
  intro a ha
  rw [← hupd, h.alarm] at ha
  obtain ⟨e, he, rfl⟩ := Option.map_eq_some_iff.mp ha
  refine ⟨e, he, ?_⟩
  have hmem := mem_of_mem_head? he
  have hlt := h.near e hmem
  have hdvd : 2 ^ shift ∣ e.2 - base := Nat.dvd_sub (hm e hmem).2 (hbase ▸ Nat.dvd_mul_left _ _)
  have hset : ((convertShiftUp shift).set (ofNat (e.2 - base))).toNat = (e.2 - base) / 2 ^ shift := by
    show (ofNat ((ofNat (e.2 - base)).toNat >>> shift)).toNat = _
    have hlt' : e.2 - base < 2 ^ 32 := by omega
    rw [toNat_ofNat', toNat_ofNat', Nat.mod_eq_of_lt hlt', Nat.shiftRight_eq_div_pow,
      Nat.mod_eq_of_lt (Nat.lt_of_le_of_lt (Nat.div_le_self _ _) hlt')]
  have hticks : s.time * 2 ^ shift = base := hbase
  rw [hset, Nat.add_mul, hticks, Nat.div_mul_cancel hdvd]
  omega

theorem Shifted.set (h : Shifted shift adjustSet s base vts) {t : T} {val : UInt32}
    (hval : 2 ^ shift ∣ (adjusted adjustSet val).toNat) :
    ∃ base' vts', Shifted shift adjustSet (ztimerSet (convertShiftUp shift) s t val).2 base' vts' := by
  obtain ⟨vts', hkeys, hmult, hupd⟩ := h.update
  obtain ⟨hkeeps, hadj, htarget⟩ := hupd.ztimerSet h.keeps.linked convertShiftUp_now (t := t) (v := val)
  obtain ⟨htime, hhandling, hfired, hlast⟩ := @ztimerSet_frame T _ _ t (convertShiftUp shift) s val
  rw [h.adjust] at hkeeps hadj htarget
  have htick : (ztimerSet (convertShiftUp shift) s t val).2.tick (convertShiftUp shift) =
      s.tick (convertShiftUp shift) := by
    rw [Sys.tick, htime]
    rfl
  have hdvd : 2 ^ shift ∣ s.tick (convertShiftUp shift) := Nat.dvd_mul_left _ _
  have hmult' : Multiples shift (ztimerSet (convertShiftUp shift) s t val).2
      (insertTarget t (s.tick (convertShiftUp shift) + (adjusted adjustSet val).toNat) (removeTarget t vts')) := by
    intro e he
    rw [htarget]
    rcases mem_insertTarget.mp he with rfl | he
    · refine ⟨?_, Nat.dvd_add hdvd hval⟩
      rw [update_self]
    · have hne : e.1 ≠ t := fun heq => hupd.not_mem_remove (heq ▸ mem_map_of_mem he)
      rw [update_of_ne hne]
      exact hmult e (mem_removeTarget he)
  refine ⟨_, _, hkeeps, hadj, le_of_eq htick.symm, hdvd, hmult', fun _ => ?_, ?_⟩
  · exact hkeeps.convertShiftUp_alarm hmult' htick ztimerUpdate_idem
  · unfold OnTime
    rw [hfired]
    exact h.onTime

theorem Shifted.remove (h : Shifted shift adjustSet s base vts) {t : T} :
    ∃ base' vts', Shifted shift adjustSet (ztimerRemove (convertShiftUp shift) s t).2 base' vts' := by
  by_cases hset : isSet s.clock t = true
  · obtain ⟨vts', hkeys, hmult, hupd⟩ := h.update
    obtain ⟨-, hkeeps, hadj⟩ := hupd.ztimerRemove h.keeps.linked ((isSet_iff h.keeps.linked).mp hset) hkeys
    obtain ⟨htime, hhandling, hfired, hlast, htarget⟩ := @ztimerRemove_frame T _ _ t (convertShiftUp shift) s hset
    have htick : (ztimerRemove (convertShiftUp shift) s t).2.tick (convertShiftUp shift) =
        s.tick (convertShiftUp shift) := by
      rw [Sys.tick, htime]
      rfl
    have hmult' : Multiples shift (ztimerRemove (convertShiftUp shift) s t).2 (removeTarget t vts') := by
      intro e he
      rw [htarget]
      exact hmult e (mem_removeTarget he)
    refine ⟨_, _, hkeeps, hadj.trans h.adjust, le_of_eq htick.symm, Nat.dvd_mul_left _ _, hmult', fun _ => ?_, ?_⟩
    · refine hkeeps.convertShiftUp_alarm hmult' htick ?_
      unfold ztimerRemove
      rw [if_pos hset]
      exact ztimerUpdate_idem
    · unfold OnTime
      rw [hfired]
      exact h.onTime
  · refine ⟨base, vts, ?_⟩
    unfold ztimerRemove
    rw [if_neg hset]
    exact h

omit [Fintype T] in
theorem Shifted.trigger {c : Clock T} {e : T × Nat} (hkeeps : Keeps c base (e :: vts))
    (hadj : c.adjustSet = adjustSet) (hdue : e.2 ≤ base) (hle : base ≤ s.tick (convertShiftUp shift))
    (hdvd : 2 ^ shift ∣ base) (hmult : Multiples shift s (e :: vts)) (hfired : OnTime s) :
    (nowNext c).1 = some e.1 ∧
      Shifted shift adjustSet (trigger (convertShiftUp shift) s (nowNext c).2 e.1) base vts := by
  obtain ⟨hfst, hkeeps', hadj'⟩ := hkeeps.take hdue
  refine ⟨hfst, hkeeps', hadj'.trans hadj, hle, hdvd, fun e' he' => hmult e' (mem_cons_of_mem e he'),
    fun h => absurd h (by simp [Riot.Ztimer.trigger]), ?_⟩
  intro f hf
  rcases mem_append.mp hf with hf | hf
  · exact hfired f hf
  · obtain rfl := mem_singleton.mp hf
    exact le_trans (hmult e mem_cons_self).1 (le_trans hdue hle)

omit [Fintype T] in
theorem Shifted.handler (h : Shifted shift adjustSet s base vts) (hidle : s.handling = false)
    (halarm : s.alarm.any (· ≤ s.time) = true) : ∃ base' vts',
    Shifted shift adjustSet (ztimerHandler (convertShiftUp shift) { s with alarm := none }) base' vts' := by
  obtain ⟨a, ha, hle⟩ := (Option.any_eq_true _ _).mp halarm
  obtain ⟨e, he, hmax⟩ := h.idle hidle a ha
  obtain ⟨vts', rfl⟩ := head?_eq_some_iff.mp he
  have hdue : max e.2 base ≤ s.tick (convertShiftUp shift) :=
    le_trans hmax (mul_le_mul_right _ (of_decide_eq_true hle))
  have hadv := h.keeps.expireHead
  have hdvd : 2 ^ shift ∣ max e.2 base := by
    rcases le_total e.2 base with hmax | hmax
    · rw [max_eq_right hmax]
      exact h.base_dvd
    · rw [max_eq_left hmax]
      exact (h.multiples e mem_cons_self).2
  obtain ⟨hfst, hshifted⟩ := Shifted.trigger (s := { s with alarm := none }) hadv h.adjust (le_max_left _ _) hdue
    hdvd h.multiples h.onTime
  refine ⟨max e.2 base, vts', ?_⟩
  rw [ztimerHandler_trigger (s := { s with alarm := none }) h.keeps.linked.seg.1 hfst]
  exact hshifted

theorem Shifted.resume (h : Shifted shift adjustSet s base vts) :
    ∃ base' vts', Shifted shift adjustSet (ztimerHandlerResume (convertShiftUp shift) s) base' vts' := by
  by_cases hdue : ∃ e ∈ vts.head?, e.2 ≤ base
  · obtain ⟨e, he, hdue⟩ := hdue
    obtain ⟨vts', rfl⟩ := head?_eq_some_iff.mp he
    obtain ⟨hfst, hshifted⟩ := Shifted.trigger h.keeps h.adjust hdue h.base_le h.base_dvd h.multiples h.onTime
    refine ⟨base, vts', ?_⟩
    rw [ztimerHandlerResume_trigger hfst]
    exact hshifted
  · have hnone := h.keeps.take_none fun e he => Nat.lt_of_not_le fun hle => hdue ⟨e, he, hle⟩
    obtain ⟨vts', hkeys, hmult, hupd⟩ := h.update
    obtain ⟨-, -, hadj, -⟩ := ztimerUpdateHeadOffset_spec h.keeps.linked (s.now (convertShiftUp shift))
    have hdvd : 2 ^ shift ∣ s.tick (convertShiftUp shift) := Nat.dvd_mul_left _ _
    by_cases hdue' : ∃ e ∈ vts'.head?, e.2 ≤ s.tick (convertShiftUp shift)
    · obtain ⟨e, he, hdue'⟩ := hdue'
      obtain ⟨vts'', rfl⟩ := head?_eq_some_iff.mp he
      obtain ⟨hfst, hshifted⟩ := Shifted.trigger (s := { s with lastRead := s.time }) hupd (hadj.trans h.adjust)
        hdue' le_rfl hdvd hmult h.onTime
      refine ⟨s.tick (convertShiftUp shift), vts'', ?_⟩
      rw [ztimerHandlerResume_late hnone hfst]
      exact hshifted
    · have hnone' := hupd.take_none fun e he => Nat.lt_of_not_le fun hle => hdue' ⟨e, he, hle⟩
      rw [ztimerHandlerResume_end hnone hnone', ztimerUpdate_eq]
      refine ⟨_, vts', hupd, hadj.trans h.adjust, le_refl _, hdvd, hmult, fun _ => ?_, h.onTime⟩
      refine Keeps.convertShiftUp_alarm (s := ztimerUpdate (convertShiftUp shift) _) ?_ ?_ ?_ ztimerUpdate_idem
      · rw [ztimerUpdate_eq]
        exact hupd
      · rw [ztimerUpdate_eq]
        exact hmult
      · rw [ztimerUpdate_eq]
        rfl

/-- **A step keeps the invariant** if it sets no timer to anything but a multiple. -/
theorem Shifted.step (h : Shifted shift adjustSet s base vts) {e : Event T}
    (hval : ∀ t val, e = .set t val → 2 ^ shift ∣ (adjusted adjustSet val).toNat)
    (hstep : Riot.Ztimer.step (convertShiftUp shift) s e = some s') :
    ∃ base' vts', Shifted shift adjustSet s' base' vts' := by
  cases e with
  | set t val =>
    cases hstep
    exact h.set (hval t val rfl)
  | remove t =>
    cases hstep
    exact h.remove
  | advance ticks =>
    cases hstep
    have hle : s.tick (convertShiftUp shift) ≤ (s.time + ticks) * 2 ^ shift :=
      mul_le_mul_right _ (le_add_right _ _)
    exact ⟨base, vts, h.keeps, h.adjust, le_trans h.base_le hle, h.base_dvd, h.multiples, h.idle, h.onTime⟩
  | handler =>
    rw [Riot.Ztimer.step] at hstep
    split at hstep
    · exact absurd hstep (by simp)
    rename_i hidle
    split at hstep
    · rename_i halarm
      cases hstep
      exact h.handler (Bool.eq_false_iff.mpr hidle) halarm
    · exact absurd hstep (by simp)
  | resume =>
    rw [Riot.Ztimer.step] at hstep
    split at hstep
    · cases hstep
      exact h.resume
    · exact absurd hstep (by simp)

/-! ## Runs -/

omit [DecidableEq T] [Fintype T] in
theorem shifted_start (shift : Nat) (adjustSet : UInt16) (time : Nat) :
    Shifted shift adjustSet (start adjustSet time : Sys T) (time * 2 ^ shift) [] where
  keeps := Keeps.start
  adjust := rfl
  base_le := le_refl _
  base_dvd := Nat.dvd_mul_left _ _
  multiples := fun _ h => absurd h not_mem_nil
  idle := fun _ _ h => absurd h (by simp [start])
  onTime := fun _ h => absurd h not_mem_nil

theorem fired_first {ops : Ops} {e : T × Nat} (h : Keeps s.clock base (e :: vts)) (hidle : s.handling = false)
    {a n : Nat} (halarm : s.alarm = some a) (hle : a ≤ s.time + n) :
    ∃ s', step ops { s with time := s.time + n } .handler = some s' ∧ s'.fired = s.fired ++
      [{ timer := e.1, target := s.target e.1, tick := (s.time + n) * ops.scale }] := by
  obtain ⟨hnext, -⟩ := h.expireHead.take (le_max_left _ _)
  refine ⟨ztimerHandler ops { s with time := s.time + n, alarm := none }, ?_, ?_⟩
  · rw [step, if_neg (by rw [hidle]; decide), halarm]
    exact if_pos (decide_eq_true hle)
  · rw [ztimerHandler_trigger (s := { s with time := s.time + n, alarm := none }) h.linked.seg.1 hnext]
    rfl

theorem fired_once (shift : Nat) (adjustSet : UInt16) (t : T) (val : UInt32) : ∃ s,
    run (step (convertShiftUp shift)) (start adjustSet 0) [.set t val, .advance
      (convertShiftUpSet shift (adjusted adjustSet val)).toNat, .handler] = some s ∧
    s.fired = [{ timer := t, target := (adjusted adjustSet val).toNat
                 tick := (convertShiftUpSet shift (adjusted adjustSet val)).toNat * 2 ^ shift }] := by
  have hstart := (shifted_start shift adjustSet 0 : Shifted shift adjustSet (start adjustSet 0 : Sys T) _ _)
  have hadj : (start adjustSet 0 : Sys T).clock.adjustSet = adjustSet := rfl
  have htick : (start adjustSet 0 : Sys T).tick (convertShiftUp shift) = 0 := Nat.zero_mul _
  have hnow : (start adjustSet 0 : Sys T).now (convertShiftUp shift) = ofNat 0 := by
    rw [convertShiftUp_now, htick]
  have hupd := hstart.keeps.update le_rfl (fun h => absurd rfl h)
  rw [Nat.zero_mul, ← hnow] at hupd
  obtain ⟨hkeeps, -, htarget⟩ := hupd.ztimerSet hstart.keeps.linked hnow (t := t) (v := val)
  obtain ⟨htime, hhandling, hfired, -⟩ := @ztimerSet_frame T _ _ t (convertShiftUp shift) (start adjustSet 0) val
  have hone : ∀ v, insertTarget t v (removeTarget t []) = [(t, v)] := fun _ => rfl
  rw [hadj, zero_add, hone] at hkeeps
  rw [hadj, htick, zero_add] at htarget
  -- the lower clock is set, and calls
  have halarm : (ztimerUpdate (convertShiftUp shift) _).alarm = _ := hkeeps.alarm
  rw [ztimerSet_updated, htime] at halarm
  have hset : UInt32.ofNat ((adjusted adjustSet val).toNat - 0) = adjusted adjustSet val := UInt32.ofNat_toNat
  obtain ⟨s, hs, hsfired⟩ := fired_first hkeeps hhandling halarm
    (n := (convertShiftUpSet shift (adjusted adjustSet val)).toNat) (by
      rw [htime]
      dsimp only
      rw [hset]
      exact le_refl _)
  refine ⟨s, ?_, ?_⟩
  · rw [run, step]
    dsimp only
    rw [run, step]
    dsimp only
    rw [run, hs]
    rfl
  · have hzero : (start adjustSet 0 : Sys T).time = 0 := rfl
    rw [hsfired, hfired, htarget, update_self, htime, hzero, zero_add]
    rfl

/-- **Callbacks are on time exactly if timers are set to multiples of a tick of the lower clock**,
whatever the lower clock counts and however late it calls. -/
theorem convertShiftUp_onTime_iff [Inhabited T] (shift : Nat) (adjustSet : UInt16) (V : UInt32 → Prop) :
    (∀ (time : Nat) (es : List (Event T)) (s : Sys T), (∀ t val, .set t val ∈ es → V val) →
      run (step (convertShiftUp shift)) (start adjustSet time) es = some s → OnTime s) ↔
    ∀ val, V val → 2 ^ shift ∣ (adjusted adjustSet val).toNat := by
  constructor
  · intro hontime val hval
    obtain ⟨s, hrun, hfired⟩ := fired_once shift adjustSet (default : T) val
    have hle := hontime 0 _ s (fun t v hmem => by
      simp only [List.mem_cons, Event.set.injEq, reduceCtorEq, List.not_mem_nil, or_false] at hmem
      exact hmem.2 ▸ hval) hrun
    have h := hle _ (hfired ▸ List.mem_singleton_self _)
    dsimp only at h
    have hset : (convertShiftUpSet shift (adjusted adjustSet val)).toNat ≤
        (adjusted adjustSet val).toNat / 2 ^ shift := by
      rw [convertShiftUpSet, UInt32.toNat_ofNat', Nat.shiftRight_eq_div_pow]
      exact Nat.mod_le _ _
    have hle' := Nat.mul_le_mul_right (2 ^ shift) hset
    have hfloor := Nat.div_mul_le_self (adjusted adjustSet val).toNat (2 ^ shift)
    exact ⟨(adjusted adjustSet val).toNat / 2 ^ shift, by rw [Nat.mul_comm]; omega⟩
  · intro hdvd time es s hmem hrun
    obtain ⟨base, vts, h⟩ := run_invariant_mem (I := fun s => ∃ base vts, Shifted shift adjustSet s base vts)
      (fun s e s' ⟨base, vts, h⟩ he hstep => h.step (fun t val heq => hdvd val (hmem t val (heq ▸ he))) hstep)
      ⟨_, _, shifted_start shift adjustSet time⟩ hrun
    exact h.onTime

attribute [local instance] neZero_two

/-- The first timer is due at tick 17, the second one at tick 1000. -/
def earlyEvents : List (Event (Fin 2)) := [.set 0 17, .set 1 1000, .advance 1, .handler, .resume]

/-- The first callback runs at tick 16, and takes the second one with it. -/
theorem not_convertShiftUp_onTime : ∃ s, run (step (convertShiftUp 4)) (start 0 0) earlyEvents = some s ∧
    s.fired.map (fun f => (f.timer, f.target, f.tick)) = [(0, 17, 16), (1, 1000, 16)] ∧ ¬ OnTime s := by
  have hrun : (run (step (convertShiftUp 4)) (start 0 0) earlyEvents).any (fun s =>
      s.fired.map (fun f => (f.timer, f.target, f.tick)) = [(0, 17, 16), (1, 1000, 16)]) = true := by decide
  obtain ⟨s, hs, hfired⟩ := (Option.any_eq_true _ _).mp hrun
  have hfired := of_decide_eq_true hfired
  refine ⟨s, hs, hfired, fun hontime => ?_⟩
  have hall : ∀ x ∈ s.fired.map (fun f => (f.timer, f.target, f.tick)), x.2.1 ≤ x.2.2 := by
    intro x hx
    obtain ⟨f, hf, rfl⟩ := List.mem_map.mp hx
    exact hontime f hf
  rw [hfired] at hall
  exact absurd (hall _ List.mem_cons_self) (by decide)

end Riot.Ztimer
