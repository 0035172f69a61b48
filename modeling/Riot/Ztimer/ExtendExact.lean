import Riot.Ztimer.Extend
import Riot.Ztimer.Calls

/-!
# When an extended clock is exact

`ztimer_handler` takes an interrupt for an intermediate one if the first target is ahead of the
time, as a signed number of 32 bits. Timers are on time exactly if none is set further ahead than
`2 ^ 31` ticks and one slice: the slice has gone by when the handler looks first.

Three times are told apart: `base`, from which the list counts, `armed`, when the lower layer was
set, and `read`, when the clock was read. An intermediate interrupt sets the lower layer again
without moving the base.
-/

namespace Riot.Ztimer.Extend

open Riot.Lib Function List Nat

variable {T : Type} [DecidableEq T] [Fintype T] {w latency : Nat} {s s' : Sys T}

/-- The ticks the lower layer is set for at most. -/
def slice (w : Nat) : Nat := (2 ^ w - 1) / 2

/-! ## Readings -/

theorem two_pow_bounds (hw : w ≤ 31) : 0 < 2 ^ w ∧ 2 ^ w ≤ 2 ^ 31 :=
  ⟨Nat.two_pow_pos w, Nat.pow_le_pow_right (by decide) hw⟩

theorem maxValue_toNat (hw : w ≤ 31) : (maxValue w).toNat = 2 ^ w - 1 := by
  have := two_pow_bounds hw
  rw [maxValue, UInt32.toNat_ofNat']
  omega

theorem slice_toNat (hw : w ≤ 31) : (maxValue w >>> 1).toNat = slice w := by
  show (maxValue w).toNat >>> 1 = slice w
  rw [maxValue_toNat hw, shiftRight_eq_div_pow]
  rfl

theorem addModulo_lapse (hw : w ≤ 31) {a b : Nat} (hle : a ≤ b) (hlt : b < a + 2 ^ w) :
    addModulo (UInt32.ofNat (b % 2 ^ w)) (UInt32.ofNat (a % 2 ^ w)) (maxValue w) = UInt32.ofNat (b - a) := by
  obtain ⟨hpos, hbound⟩ := two_pow_bounds hw
  have ha := mod_lt a hpos
  have hb := mod_lt b hpos
  have hmax := maxValue_toNat hw
  have hsum : b % 2 ^ w = (a % 2 ^ w + (b - a)) % 2 ^ w := by
    rw [Nat.mod_add_mod, Nat.add_sub_cancel' hle]
  generalize 2 ^ w = m at *
  generalize hx : a % m = x at *
  generalize hy : b % m = y at *
  have hxs : (UInt32.ofNat x).toNat = x := by rw [UInt32.toNat_ofNat', mod_eq_of_lt (by omega)]
  have hys : (UInt32.ofNat y).toNat = y := by rw [UInt32.toNat_ofNat', mod_eq_of_lt (by omega)]
  have hds : (UInt32.ofNat (b - a)).toNat = b - a := by rw [UInt32.toNat_ofNat', mod_eq_of_lt (by omega)]
  apply UInt32.toNat_inj.mp
  unfold addModulo
  rcases lt_or_ge (x + (b - a)) m with h | h
  · rw [mod_eq_of_lt h] at hsum
    rw [if_neg (by rw [UInt32.lt_iff_toNat_lt, hxs, hys]; omega), UInt32.toNat_sub, hxs, hys, hds]
    omega
  · -- the counter has gone round
    rw [mod_eq_sub_mod h, mod_eq_of_lt (by omega)] at hsum
    rw [if_pos (by rw [UInt32.lt_iff_toNat_lt, hxs, hys]; omega), UInt32.toNat_sub, UInt32.toNat_add,
      UInt32.toNat_add, hmax, hxs, hys, hds, UInt32.toNat_one]
    omega

/-- The clock was read at the tick `read`, and shows the ticks and `shift`. -/
structure ReadAt (w shift : Nat) (s : Sys T) (read : Nat) : Prop where
  checkpoint : s.checkpoint = UInt32.ofNat (read + shift)
  lowerLast : s.lowerLast = UInt32.ofNat (read % 2 ^ w)

variable {shift read : Nat}

omit [DecidableEq T] [Fintype T] in
/-- **`_ztimer_now_extend`**: no round of the counter is lost if it is read in time. -/
theorem ReadAt.ztimerNow (h : ReadAt w shift s read) (hw : w ≤ 31) (hle : read ≤ s.time)
    (hlt : s.time < read + 2 ^ w) : (ztimerNow w s).1 = UInt32.ofNat (s.time + shift) ∧
      ReadAt w shift (ztimerNow w s).2 s.time := by
  have hsum : s.checkpoint + addModulo (s.lowerNow w) s.lowerLast (maxValue w) = UInt32.ofNat (s.time + shift) := by
    rw [h.checkpoint, h.lowerLast, Sys.lowerNow, addModulo_lapse hw hle hlt, ← UInt32.ofNat_add]
    congr 1
    omega
  exact ⟨hsum, hsum, rfl⟩

/-! ## The invariant -/

/-- When the first timer is due, counted from `base`; without timers, no sooner than a slice. -/
def untilFirst (w base : Nat) (ts : List (T × Nat)) : Nat := ts.head?.elim (slice w) fun e => e.2 - base

/-- **The invariant of an extended clock** with a latency, `shift` being what it shows at the tick 0. -/
structure Slices (w latency shift : Nat) (adjustSet : UInt16) (s : Sys T) (base read : Nat)
    (ts : List (T × Nat)) : Prop where
  keeps : Keeps s.clock base ts
  adjust : s.clock.adjustSet = adjustSet
  readAt : ReadAt w shift s read
  targets : ∀ e ∈ ts, e.2 = s.target e.1 + shift
  near : ∀ e ∈ ts, e.2 < base + (2 ^ 31 + slice w)
  base_le : base ≤ read + shift
  read_le : read ≤ s.time
  alarm_le : s.alarm ≤ read + slice w
  time_le : s.time ≤ s.alarm + latency
  busy : s.handling = true → s.alarm + shift ≤ base + slice w
  /-- Between two calls of the handler the lower layer is set for a slice, or for the first timer. -/
  idle : s.handling = false → ∃ armed, base ≤ armed + shift ∧
    s.alarm = armed + min (untilFirst w (armed + shift) ts) (slice w) ∧
    ∀ e ∈ ts.head?, base = armed + shift ∨ armed + shift < e.2
  onTime : ∀ f ∈ s.fired, f.target ≤ f.tick

/-- The latency is below half of the range of the counter. -/
structure Bounded (w latency : Nat) : Prop where
  pos : 1 ≤ w
  le : w ≤ 31
  latency : 2 * latency < 2 ^ w - 1

theorem Bounded.sum_lt (hb : Bounded w latency) : slice w + latency < 2 ^ w ∧ 2 ^ w ≤ 2 ^ 31 := by
  obtain ⟨-, hbound⟩ := two_pow_bounds hb.le
  have := hb.latency
  unfold slice
  omega

variable {adjustSet : UInt16} {base : Nat} {ts : List (T × Nat)} {t : T} {val : UInt32}

omit [DecidableEq T] [Fintype T] in
theorem Slices.inTime (h : Slices w latency shift adjustSet s base read ts) (hb : Bounded w latency) :
    s.time < read + 2 ^ w := by
  have := hb.sum_lt
  have := h.alarm_le
  have := h.time_le
  omega

omit [DecidableEq T] [Fintype T] in
theorem Slices.inRange (h : Slices w latency shift adjustSet s base read ts) (hb : Bounded w latency)
    (hne : ts ≠ []) : s.time + shift < base + 2 ^ 32 := by
  have hsum := hb.sum_lt
  have htime := h.time_le
  cases hh : s.handling with
  | true =>
    have := h.busy hh
    omega
  | false =>
    obtain ⟨armed, -, halarm, hfirst⟩ := h.idle hh
    obtain ⟨e, ts', rfl⟩ := exists_cons_of_ne_nil hne
    have huntil : untilFirst w (armed + shift) (e :: ts') = e.2 - (armed + shift) := rfl
    have hnear := h.near e mem_cons_self
    rw [huntil] at halarm
    rcases hfirst e rfl with hbase | hbase
    · omega
    · omega

omit [DecidableEq T] [Fintype T] in
theorem Slices.now (h : Slices w latency shift adjustSet s base read ts) (hb : Bounded w latency) :
    (ztimerNow w s).1 = UInt32.ofNat (s.time + shift) ∧ ReadAt w shift (ztimerNow w s).2 s.time :=
  h.readAt.ztimerNow hb.le h.read_le (h.inTime hb)

theorem Slices.update (h : Slices w latency shift adjustSet s base read ts) (hb : Bounded w latency) :
    Keeps (ztimerUpdateHeadOffset s.clock (ztimerNow w s).1) (s.time + shift) ts := by
  have hle := h.base_le
  have hread := h.read_le
  rw [(h.now hb).1]
  exact h.keeps.update (by omega) (h.inRange hb)

/-! ## Setting the lower layer -/

theorem toNat_min {a b : UInt32} : (min a b).toNat = min a.toNat b.toNat := by
  show (if a ≤ b then a else b).toNat = min a.toNat b.toNat
  split
  · rename_i hle
    exact (min_eq_left (UInt32.le_iff_toNat_le.mp hle)).symm
  · rename_i hle
    exact (min_eq_right (Nat.le_of_not_le fun h => hle (UInt32.le_iff_toNat_le.mpr h))).symm

omit [DecidableEq T] [Fintype T] in
theorem ztimerUpdate_eq : ztimerUpdate w s = { s with alarm := (ztimerUpdate w s).alarm } := by
  unfold ztimerUpdate
  split <;> rfl

omit [DecidableEq T] [Fintype T] in
theorem ztimerUpdate_alarm (h : Keeps s.clock base ts) (hw : w ≤ 31) :
    (ztimerUpdate w s).alarm = s.time + min (untilFirst w base ts) (slice w) := by
  unfold ztimerUpdate
  cases ts with
  | nil =>
    rw [seg_nil.mp h.linked.seg]
    show s.time + (maxValue w >>> 1).toNat = s.time + min (slice w) (slice w)
    rw [slice_toNat hw, min_self]
  | cons e ts =>
    obtain ⟨-, ho, -⟩ := h.encodes
    dsimp only at ho
    rw [h.linked.seg.1]
    show s.time + (min (s.clock.offset (.entry e.1)) (maxValue w >>> 1)).toNat = s.time + min (e.2 - base) (slice w)
    rw [toNat_min, slice_toNat hw, ← ho, zero_add]

omit [DecidableEq T] [Fintype T] in
/-- **The lower layer is set** at the time the list counts from. -/
theorem Slices.arm (hkeeps : Keeps s.clock (s.time + shift) ts) (hadj : s.clock.adjustSet = adjustSet)
    (hread : ReadAt w shift s s.time) (htargets : ∀ e ∈ ts, e.2 = s.target e.1 + shift)
    (hnear : ∀ e ∈ ts, e.2 < s.time + shift + (2 ^ 31 + slice w)) (hfired : ∀ f ∈ s.fired, f.target ≤ f.tick)
    (hw : w ≤ 31) : Slices w latency shift adjustSet (ztimerUpdate w s) (s.time + shift) s.time ts := by
  have halarm := ztimerUpdate_alarm hkeeps hw
  have hmin := min_le_right (untilFirst w (s.time + shift) ts) (slice w)
  rw [ztimerUpdate_eq, halarm]
  refine ⟨hkeeps, hadj, ⟨hread.checkpoint, hread.lowerLast⟩, htargets, hnear, le_refl _, le_refl _, ?_, ?_,
    fun _ => ?_, fun _ => ⟨s.time, le_refl _, rfl, fun _ _ => .inl rfl⟩, hfired⟩
  · show s.time + _ ≤ s.time + slice w
    omega
  · show s.time ≤ s.time + _ + latency
    omega
  · show s.time + _ + shift ≤ s.time + shift + slice w
    omega

/-! ## Calls -/

/-- A clock without extension, with the same list, at the same time. -/
def plain (s : Sys T) : Riot.Ztimer.Sys T where
  clock := s.clock
  time := s.time
  alarm := none
  handling := s.handling
  target := s.target
  fired := s.fired
  lastRead := s.time

/-- A lower layer that shows `now`. -/
def plainOps (now : UInt32) : Ops := { now := fun _ => now, set := id, scale := 1 }

theorem ztimerSet_plain {now : UInt32} (hnow : (ztimerNow w s).1 = now) :
    (ztimerSet w s t val).2 = ztimerUpdate w { (ztimerNow w s).2 with
      clock := (Riot.Ztimer.ztimerSet (plainOps now) (plain s) t val).2.clock
      target := (Riot.Ztimer.ztimerSet (plainOps now) (plain s) t val).2.target } := by
  subst hnow
  unfold ztimerSet Riot.Ztimer.ztimerSet
  dsimp only
  rw [Riot.Ztimer.ztimerUpdate_eq, Riot.Ztimer.Sys.tick, plainOps, mul_one]
  rfl

theorem Slices.set (h : Slices w latency shift adjustSet s base read ts) (hb : Bounded w latency)
    (hval : (adjusted adjustSet val).toNat < 2 ^ 31 + slice w) :
    ∃ base' read' ts', Slices w latency shift adjustSet (ztimerSet w s t val).2 base' read' ts' := by
  obtain ⟨hnow, hread⟩ := h.now hb
  have hupd := h.update hb
  rw [hnow] at hupd
  have hplain : (plain s).now (plainOps (UInt32.ofNat (s.time + shift))) = UInt32.ofNat (s.time + shift) := rfl
  obtain ⟨hkeeps, hadj, htarget⟩ := @Keeps.ztimerSet T _ _ t (s.time + shift) ts
    (plainOps (UInt32.ofNat (s.time + shift))) (plain s) val _ h.keeps.linked hplain hupd
  have hclock : (plain s).clock.adjustSet = adjustSet := h.adjust
  have htick : (plain s).tick (plainOps (UInt32.ofNat (s.time + shift))) = s.time := mul_one _
  have hbase := h.base_le
  have hle := h.read_le
  rw [hclock] at hkeeps hadj htarget
  rw [htick] at htarget
  rw [ztimerSet_plain hnow]
  refine ⟨_, _, _, Slices.arm hkeeps hadj ⟨hread.checkpoint, hread.lowerLast⟩ ?_ ?_ h.onTime hb.le⟩
  · intro e he
    show e.2 = (Riot.Ztimer.ztimerSet _ (plain s) t val).2.target e.1 + shift
    rw [htarget]
    rcases mem_insertTarget.mp he with rfl | he
    · rw [update_self]
      omega
    · have hne : e.1 ≠ t := fun heq => hupd.not_mem_remove (heq ▸ mem_map_of_mem he)
      rw [update_of_ne hne]
      exact h.targets e (mem_removeTarget he)
  · intro e he
    show e.2 < s.time + shift + (2 ^ 31 + slice w)
    rcases mem_insertTarget.mp he with rfl | he
    · omega
    · have := h.near e (mem_removeTarget he)
      omega

theorem ztimerRemove_plain {now : UInt32} (hnow : (ztimerNow w s).1 = now) (hset : isSet s.clock t = true) :
    (ztimerRemove w s t).2 = ztimerUpdate w { (ztimerNow w s).2 with
      clock := (Riot.Ztimer.ztimerRemove (plainOps now) (plain s) t).2.clock } := by
  subst hnow
  have hset' : isSet (plain s).clock t = true := hset
  unfold ztimerRemove Riot.Ztimer.ztimerRemove
  rw [if_pos hset, if_pos hset']
  dsimp only
  rw [Riot.Ztimer.ztimerUpdate_eq]
  rfl

theorem Slices.remove (h : Slices w latency shift adjustSet s base read ts) (hb : Bounded w latency) :
    ∃ base' read' ts', Slices w latency shift adjustSet (ztimerRemove w s t).2 base' read' ts' := by
  by_cases hset : isSet s.clock t = true
  · obtain ⟨hnow, hread⟩ := h.now hb
    have hupd := h.update hb
    rw [hnow] at hupd
    have hbase := h.base_le
    have hle := h.read_le
    obtain ⟨-, hkeeps, hadj⟩ := @Keeps.ztimerRemove T _ _ t (s.time + shift) ts
      (plainOps (UInt32.ofNat (s.time + shift))) (plain s) _ h.keeps.linked ((isSet_iff h.keeps.linked).mp hset)
      hupd rfl
    rw [ztimerRemove_plain hnow hset]
    refine ⟨_, _, _, Slices.arm hkeeps (hadj.trans h.adjust)
      ⟨hread.checkpoint, hread.lowerLast⟩ (fun e he => h.targets e (mem_removeTarget he)) (fun e he => ?_) h.onTime hb.le⟩
    have := h.near e (mem_removeTarget he)
    show e.2 < s.time + shift + (2 ^ 31 + slice w)
    omega
  · refine ⟨base, read, ts, ?_⟩
    unfold ztimerRemove
    rw [if_neg hset]
    exact h

/-! ## The handler -/

theorem toInt32_pos_iff {d : UInt32} : 0 < d.toInt32 ↔ 0 < d.toNat ∧ d.toNat < 2 ^ 31 := by
  have hcond : d.toInt32.toInt = if 2 * d.toNat < 2 ^ 32 then (d.toNat : Int) else d.toNat - (2 ^ 32 : Nat) :=
    BitVec.toInt_eq_toNat_cond d.toBitVec
  have hlt := d.toNat_lt
  rw [Int32.lt_iff_toInt_lt, hcond, Int32.toInt_zero]
  split <;> omega

/-- What the handler makes of a target: it is ahead if it is, but by less than half of the range. -/
theorem ahead_iff {a b : Nat} (hlt : a < b + 2 ^ 32) (hgt : b ≤ a + 2 ^ 31) :
    0 < (UInt32.ofNat a - UInt32.ofNat b).toInt32 ↔ b < a ∧ a < b + 2 ^ 31 := by
  rw [toInt32_pos_iff, UInt32.toNat_sub, UInt32.toNat_ofNat', UInt32.toNat_ofNat']
  omega

omit [Fintype T] in
theorem Slices.take {e : T × Nat} (h : Slices w latency shift adjustSet s base read (e :: ts))
    (hh : s.handling = true) (hdue : e.2 ≤ base) : (nowNext s.clock).1 = some e.1 ∧
      Slices w latency shift adjustSet (trigger s (nowNext s.clock).2 e.1) base read ts := by
  obtain ⟨hfst, hkeeps, hadj⟩ := h.keeps.take hdue
  refine ⟨hfst, hkeeps, hadj.trans h.adjust, ⟨h.readAt.checkpoint, h.readAt.lowerLast⟩,
    fun e' he' => h.targets e' (mem_cons_of_mem e he'), fun e' he' => h.near e' (mem_cons_of_mem e he'),
    h.base_le, h.read_le, h.alarm_le, h.time_le, fun _ => h.busy hh, fun hi => absurd hi (by simp [trigger]), ?_⟩
  intro f hf
  rcases mem_append.mp hf with hf | hf
  · exact h.onTime f hf
  · obtain rfl := mem_singleton.mp hf
    have htarget := h.targets e mem_cons_self
    have hbase := h.base_le
    have hle := h.read_le
    dsimp only
    omega

omit [DecidableEq T] [Fintype T] in
theorem Slices.reread (h : Slices w latency shift adjustSet s base read ts) (hb : Bounded w latency) :
    Slices w latency shift adjustSet (ztimerNow w s).2 base s.time ts := by
  have hle := h.read_le
  have hbase := h.base_le
  have halarm := h.alarm_le
  exact ⟨h.keeps, h.adjust, (h.now hb).2, h.targets, h.near, by omega, le_refl _,
    le_trans halarm (by omega), h.time_le, h.busy, h.idle, h.onTime⟩

omit [Fintype T] in
theorem Slices.expire {e : T × Nat} (h : Slices w latency shift adjustSet s base s.time (e :: ts))
    (hidle : s.handling = false) (hdue : e.2 ≤ s.time + shift) :
    Slices w latency shift adjustSet { s with clock := expireHead s.clock e.1, handling := true }
      (max e.2 base) s.time (e :: ts) := by
  obtain ⟨armed, -, halarm, hfirst⟩ := h.idle hidle
  have hbase := h.base_le
  refine ⟨h.keeps.expireHead, h.adjust, ⟨h.readAt.checkpoint, h.readAt.lowerLast⟩, h.targets, fun e' he' => ?_,
    Nat.max_le.mpr ⟨hdue, hbase⟩, le_refl _, h.alarm_le, h.time_le, fun _ => ?_,
    fun hi => absurd hi (by simp), h.onTime⟩
  · have := h.near e' he'
    omega
  · have hmin := min_le_right (untilFirst w (armed + shift) (e :: ts)) (slice w)
    show s.alarm + shift ≤ max e.2 base + slice w
    rcases hfirst e rfl with h | h <;> omega

omit [DecidableEq T] [Fintype T] in
theorem Slices.postpone (h : Slices w latency shift adjustSet s base s.time ts) (hidle : s.handling = false)
    (hlater : ∀ e ∈ ts.head?, s.time + shift < e.2) {ticks : UInt32}
    (hticks : ticks.toNat = min (untilFirst w (s.time + shift) ts) (slice w)) :
    Slices w latency shift adjustSet (s.set ticks) base s.time ts := by
  have hmin := min_le_right (untilFirst w (s.time + shift) ts) (slice w)
  refine ⟨h.keeps, h.adjust, ⟨h.readAt.checkpoint, h.readAt.lowerLast⟩, h.targets, h.near, h.base_le, h.read_le,
    ?_, ?_, fun hh => absurd (hidle.symm.trans hh) (by decide), fun _ => ⟨s.time, h.base_le, ?_, fun e he => .inr (hlater e he)⟩,
    h.onTime⟩
  · show s.time + ticks.toNat ≤ s.time + slice w
    omega
  · show s.time ≤ s.time + ticks.toNat + latency
    omega
  · show s.time + ticks.toNat = _
    rw [hticks]

omit [Fintype T] in
theorem ztimerHandler_empty (hnil : s.clock.next list = .null) :
    ztimerHandler w s = (ztimerNow w s).2.set (maxValue w >>> 1) := by
  have hnil' : (ztimerNow w s).2.clock.next list = .null := hnil
  unfold ztimerHandler
  dsimp only
  rw [hnil']

omit [Fintype T] in
theorem ztimerHandler_ahead {e : T} (hhead : s.clock.next list = .ref e)
    (hahead : 0 < (s.clock.offset list + s.clock.offset (.entry e) - (ztimerNow w s).1).toInt32) :
    ztimerHandler w s = (ztimerNow w s).2.set
      (min (s.clock.offset list + s.clock.offset (.entry e) - (ztimerNow w s).1) (maxValue w >>> 1)) := by
  have hhead' : (ztimerNow w s).2.clock.next list = .ref e := hhead
  unfold ztimerHandler
  dsimp only
  rw [hhead']
  exact if_pos hahead

omit [Fintype T] in
theorem ztimerHandler_trigger {e : T} (hhead : s.clock.next list = .ref e)
    (hdue : ¬ 0 < (s.clock.offset list + s.clock.offset (.entry e) - (ztimerNow w s).1).toInt32)
    (hnext : (nowNext (expireHead s.clock e)).1 = some e) :
    ztimerHandler w s = trigger (ztimerNow w s).2 (nowNext (expireHead s.clock e)).2 e := by
  have hhead' : (ztimerNow w s).2.clock.next list = .ref e := hhead
  have hpair : nowNext (expireHead (ztimerNow w s).2.clock e) = (some e, (nowNext (expireHead s.clock e)).2) :=
    Prod.ext hnext rfl
  unfold ztimerHandler
  dsimp only
  rw [hhead']
  dsimp only
  rw [hpair]
  exact if_neg hdue

omit [Fintype T] in
/-- **The handler** runs the first callback if its time has come, and sets the lower layer again otherwise. -/
theorem Slices.handler (h : Slices w latency shift adjustSet s base read ts) (hb : Bounded w latency)
    (hidle : s.handling = false) (halarm : s.alarm ≤ s.time) :
    ∃ base' read' ts', Slices w latency shift adjustSet (ztimerHandler w s) base' read' ts' := by
  have hread := h.reread hb
  obtain ⟨hnow, -⟩ := h.now hb
  have hsum := hb.sum_lt
  cases ts with
  | nil =>
    refine ⟨base, s.time, [], ?_⟩
    rw [ztimerHandler_empty (seg_nil.mp h.keeps.linked.seg)]
    exact hread.postpone hidle (fun e he => absurd he (by simp)) ((slice_toNat hb.le).trans (min_self _).symm)
  | cons e ts =>
    have hhead := h.keeps.linked.seg.1
    obtain ⟨-, ho, -⟩ := h.keeps.encodes
    have hnear := h.near e mem_cons_self
    have hbase := h.base_le
    have hle := h.read_le
    have htime := h.time_le
    obtain ⟨armed, harmed, halarm', hfirst⟩ := h.idle hidle
    have hfirst := hfirst e rfl
    have huntil : untilFirst w (armed + shift) (e :: ts) = e.2 - (armed + shift) := rfl
    rw [huntil] at halarm'
    -- the target is within half of the range: a slice has gone by, or it has come
    have htarget : s.clock.offset list + s.clock.offset (.entry e.1) = UInt32.ofNat (max e.2 base) := by
      rw [h.keeps.base_eq (cons_ne_nil e ts), ← UInt32.ofNat_toNat (x := s.clock.offset (.entry e.1)),
        ← UInt32.ofNat_add]
      congr 1
      dsimp only at ho
      omega
    have hahead : 0 < (s.clock.offset list + s.clock.offset (.entry e.1) - (ztimerNow w s).1).toInt32 ↔
        s.time + shift < e.2 := by
      rw [htarget, hnow, ahead_iff (by omega) (by omega)]
      omega
    by_cases hlater : s.time + shift < e.2
    · refine ⟨base, s.time, e :: ts, ?_⟩
      rw [ztimerHandler_ahead hhead (hahead.mpr hlater)]
      refine hread.postpone hidle (fun e' he' => ?_) ?_
      · cases he'
        exact hlater
      · rw [toNat_min, slice_toNat hb.le, htarget, hnow, UInt32.toNat_sub, UInt32.toNat_ofNat',
          UInt32.toNat_ofNat']
        show _ = min (e.2 - (s.time + shift)) (slice w)
        omega
    · have hexpire := hread.expire hidle (not_lt.mp hlater)
      obtain ⟨hfst, htake⟩ := hexpire.take rfl (le_max_left _ _)
      refine ⟨max e.2 base, s.time, ts, ?_⟩
      rw [ztimerHandler_trigger hhead (fun hpos => hlater (hahead.mp hpos)) hfst]
      exact htake

theorem ztimerHandlerResume_trigger {e : T} (hnext : (nowNext s.clock).1 = some e) :
    ztimerHandlerResume w s = trigger s (nowNext s.clock).2 e := by
  have hpair : nowNext s.clock = (some e, (nowNext s.clock).2) := Prod.ext hnext rfl
  unfold ztimerHandlerResume
  rw [hpair]

theorem ztimerHandlerResume_reread (hnone : nowNext s.clock = (none, s.clock)) : ztimerHandlerResume w s =
    match nowNext (ztimerUpdateHeadOffset s.clock (ztimerNow w s).1) with
    | (some entry, c) => trigger (ztimerNow w s).2 c entry
    | (none, c) => ztimerUpdate w { (ztimerNow w s).2 with clock := c, handling := false } := by
  unfold ztimerHandlerResume
  generalize nowNext s.clock = p at hnone ⊢
  subst hnone
  rfl

theorem Slices.rebase (h : Slices w latency shift adjustSet s base read ts) (hb : Bounded w latency)
    (hh : s.handling = true) : Slices w latency shift adjustSet
      { (ztimerNow w s).2 with clock := ztimerUpdateHeadOffset s.clock (ztimerNow w s).1 }
      (s.time + shift) s.time ts := by
  obtain ⟨-, -, hadj, -⟩ := ztimerUpdateHeadOffset_spec h.keeps.linked (ztimerNow w s).1
  have hread := h.reread hb
  have hle := hread.base_le
  have hbusy := h.busy hh
  refine ⟨h.update hb, hadj.trans h.adjust, ⟨hread.readAt.checkpoint, hread.readAt.lowerLast⟩, h.targets,
    fun e he => ?_, le_refl _, le_refl _, hread.alarm_le, h.time_le, fun _ => ?_,
    fun hi => absurd (hh.symm.trans hi) (by decide), h.onTime⟩
  · have := h.near e he
    omega
  · show s.alarm + shift ≤ s.time + shift + slice w
    omega

theorem Slices.resume (h : Slices w latency shift adjustSet s base read ts) (hb : Bounded w latency)
    (hh : s.handling = true) :
    ∃ base' read' ts', Slices w latency shift adjustSet (ztimerHandlerResume w s) base' read' ts' := by
  by_cases hdue : ∃ e ∈ ts.head?, e.2 ≤ base
  · obtain ⟨e, he, hdue⟩ := hdue
    obtain ⟨ts', rfl⟩ := head?_eq_some_iff.mp he
    obtain ⟨hfst, htake⟩ := h.take hh hdue
    refine ⟨base, read, ts', ?_⟩
    rw [ztimerHandlerResume_trigger hfst]
    exact htake
  · have hnone := h.keeps.take_none fun e he => not_le.mp fun hle => hdue ⟨e, he, hle⟩
    have hbase := h.rebase hb hh
    rw [ztimerHandlerResume_reread hnone]
    by_cases hdue' : ∃ e ∈ ts.head?, e.2 ≤ s.time + shift
    · obtain ⟨e, he, hdue'⟩ := hdue'
      obtain ⟨ts', rfl⟩ := head?_eq_some_iff.mp he
      obtain ⟨hfst, htake⟩ := hbase.take hh hdue'
      have hpair : nowNext (ztimerUpdateHeadOffset s.clock (ztimerNow w s).1) = (some e.1, _) := Prod.ext hfst rfl
      refine ⟨s.time + shift, s.time, ts', ?_⟩
      rw [hpair]
      exact htake
    · have hnone' := hbase.keeps.take_none fun e he => not_le.mp fun hle => hdue' ⟨e, he, hle⟩
      refine ⟨s.time + shift, s.time, ts, ?_⟩
      rw [hnone']
      exact Slices.arm hbase.keeps hbase.adjust ⟨hbase.readAt.checkpoint, hbase.readAt.lowerLast⟩ h.targets
        hbase.near h.onTime hb.le

/-- **A step keeps the invariant** if it sets no timer further ahead than half of the range and a slice. -/
theorem Slices.step (h : Slices w latency shift adjustSet s base read ts) (hb : Bounded w latency) {e : Event T}
    (hval : ∀ t val, e = .set t val → (adjusted adjustSet val).toNat < 2 ^ 31 + slice w)
    (hstep : Extend.step w latency s e = some s') :
    ∃ base' read' ts', Slices w latency shift adjustSet s' base' read' ts' := by
  cases e with
  | set t val =>
    cases hstep
    exact h.set hb (hval t val rfl)
  | remove t =>
    cases hstep
    exact h.remove hb
  | now =>
    cases hstep
    exact ⟨base, s.time, ts, h.reread hb⟩
  | advance ticks =>
    rw [Extend.step] at hstep
    split at hstep
    · rename_i hlate
      cases hstep
      exact ⟨base, read, ts, h.keeps, h.adjust, ⟨h.readAt.checkpoint, h.readAt.lowerLast⟩, h.targets, h.near,
        h.base_le, le_trans h.read_le (le_add_right _ _), h.alarm_le, hlate, h.busy, h.idle, h.onTime⟩
    · exact absurd hstep (by simp)
  | handler =>
    rw [Extend.step] at hstep
    split at hstep
    · rename_i hcall
      cases hstep
      exact h.handler hb hcall.1 hcall.2
    · exact absurd hstep (by simp)
  | resume =>
    rw [Extend.step] at hstep
    split at hstep
    · rename_i hh
      cases hstep
      exact h.resume hb hh
    · exact absurd hstep (by simp)

/-! ## Runs -/

/-- What a clock shows at the tick 0 that shows `checkpoint` at the tick `time`. -/
def shiftOf (time : Nat) (checkpoint : UInt32) : Nat := (checkpoint - UInt32.ofNat time).toNat

theorem ofNat_shiftOf {time : Nat} {checkpoint : UInt32} (n : Nat) (hle : time ≤ n) :
    UInt32.ofNat (n + shiftOf time checkpoint) = checkpoint + UInt32.ofNat (n - time) := by
  apply UInt32.toNat_inj.mp
  rw [shiftOf, UInt32.toNat_ofNat', UInt32.toNat_sub, UInt32.toNat_add, UInt32.toNat_ofNat', UInt32.toNat_ofNat']
  omega

omit [DecidableEq T] [Fintype T] in
theorem slices_start (hb : Bounded w latency) (adjustSet : UInt16) (time : Nat) (checkpoint : UInt32) :
    Slices w latency (shiftOf time checkpoint) adjustSet (start w adjustSet time checkpoint : Sys T)
      (time + shiftOf time checkpoint) time [] where
  keeps := @Keeps.start T _ adjustSet time
  adjust := rfl
  readAt := by
    refine ⟨?_, rfl⟩
    rw [ofNat_shiftOf time le_rfl, Nat.sub_self]
    exact (UInt32.add_zero checkpoint).symm
  targets := fun _ h => absurd h not_mem_nil
  near := fun _ h => absurd h not_mem_nil
  base_le := le_refl _
  read_le := le_refl _
  alarm_le := le_of_eq (congrArg (time + ·) (slice_toNat hb.le))
  time_le := by
    show time ≤ time + (maxValue w >>> 1).toNat + latency
    omega
  busy := fun h => absurd h (by simp [start])
  idle := fun _ => ⟨time, le_refl _, congrArg (time + ·) ((slice_toNat hb.le).trans (min_self _).symm),
    fun _ h => absurd h (by simp)⟩
  onTime := fun _ h => absurd h not_mem_nil

omit [DecidableEq T] [Fintype T] in
theorem time_le_update {n : Nat} (h : n ≤ s.time) : n ≤ (ztimerUpdate w s).time := by
  rw [ztimerUpdate_eq]
  exact h

theorem time_le_of_step {e : Event T} (hstep : Extend.step w latency s e = some s') : s.time ≤ s'.time := by
  cases e with
  | set t val =>
    cases hstep
    exact time_le_update le_rfl
  | remove t =>
    cases hstep
    unfold ztimerRemove
    split
    · exact time_le_update le_rfl
    · exact le_refl _
  | now =>
    cases hstep
    exact le_refl _
  | advance ticks =>
    rw [Extend.step] at hstep
    split at hstep
    · cases hstep
      exact le_add_right _ _
    · exact absurd hstep (by simp)
  | handler =>
    rw [Extend.step] at hstep
    split at hstep
    · cases hstep
      unfold ztimerHandler
      dsimp only
      split
      · split
        · exact le_refl _
        · split
          · exact le_refl _
          · exact time_le_update le_rfl
      · exact le_refl _
    · exact absurd hstep (by simp)
  | resume =>
    rw [Extend.step] at hstep
    split at hstep
    · cases hstep
      unfold ztimerHandlerResume
      split
      · exact le_refl _
      · dsimp only
        split
        · exact le_refl _
        · exact time_le_update le_rfl
    · exact absurd hstep (by simp)

theorem extend_first_slice (hb : Bounded w latency) (adjustSet : UInt16) (t : T) {val : UInt32}
    (hfar : 2 ^ 31 + slice w ≤ (adjusted adjustSet val).toNat) :
    ∃ s, run (Extend.step w latency) (start w adjustSet 0 0) [.set t val, .advance (slice w), .handler] = some s ∧
      s.fired = [{ timer := t, target := (adjusted adjustSet val).toNat, tick := slice w }] := by
  have hsum := hb.sum_lt
  have hstart := (slices_start hb adjustSet 0 0 : Slices w latency _ adjustSet (start w adjustSet 0 0 : Sys T) _ _ _)
  have hshift : shiftOf 0 0 = 0 := rfl
  rw [hshift] at hstart
  obtain ⟨hnow, hread⟩ := hstart.now hb
  have hupd := hstart.update hb
  have hzero : (start w adjustSet 0 0 : Sys T).time = 0 := rfl
  rw [hzero, zero_add] at hnow hupd
  rw [hnow] at hupd
  have hplain : (plain (start w adjustSet 0 0 : Sys T)).now (plainOps (UInt32.ofNat 0)) = UInt32.ofNat 0 := rfl
  obtain ⟨hkeeps, -, htarget⟩ := @Keeps.ztimerSet T _ _ t 0 [] (plainOps (UInt32.ofNat 0))
    (plain (start w adjustSet 0 0 : Sys T)) val _ hstart.keeps.linked hplain hupd
  have hadj : (plain (start w adjustSet 0 0 : Sys T)).clock.adjustSet = adjustSet := rfl
  have htick : (plain (start w adjustSet 0 0 : Sys T)).tick (plainOps (UInt32.ofNat 0)) = 0 := rfl
  have hone : ∀ v, insertTarget t v (removeTarget t []) = [(t, v)] := fun _ => rfl
  rw [hadj, zero_add, hone] at hkeeps
  rw [hadj, htick, zero_add] at htarget
  -- the lower layer is set for a slice
  obtain ⟨s1, hs1⟩ : ∃ s1, s1 = (ztimerSet w (start w adjustSet 0 0) t val).2 := ⟨_, rfl⟩
  have hset := hs1
  rw [ztimerSet_plain hnow, ztimerUpdate_eq, ztimerUpdate_alarm hkeeps hb.le, htarget] at hset
  have halarm : s1.alarm = slice w := by
    have hmin : untilFirst w 0 [(t, (adjusted adjustSet val).toNat)] = (adjusted adjustSet val).toNat := rfl
    rw [hset, hmin, min_eq_right (by omega)]
    exact zero_add _
  have htime : s1.time = 0 := by rw [hset]; rfl
  have hidle : s1.handling = false := by rw [hset]; rfl
  have hfired : s1.fired = [] := by rw [hset]; rfl
  have htgt : s1.target t = (adjusted adjustSet val).toNat := by
    rw [hset]
    exact update_self _ _ _
  have hkeeps1 : Keeps s1.clock 0 [(t, (adjusted adjustSet val).toNat)] := by
    rw [hset]
    exact hkeeps
  have hread1 : ReadAt w 0 { s1 with time := slice w } 0 := by
    rw [hset]
    exact ⟨hread.checkpoint, hread.lowerLast⟩
  -- it calls, and the target seems to have passed
  obtain ⟨hnow1, -⟩ := hread1.ztimerNow hb.le (zero_le _) (show slice w < 0 + 2 ^ w by omega)
  obtain ⟨hfst, -⟩ := hkeeps1.expireHead.take (le_max_left _ _)
  obtain ⟨-, ho, -⟩ := hkeeps1.encodes
  have hahead : ¬ 0 < (s1.clock.offset list + s1.clock.offset (.entry t) -
      (ztimerNow w { s1 with time := slice w }).1).toInt32 := by
    have hlt := (adjusted adjustSet val).toNat_lt
    have hsum : s1.clock.offset list + s1.clock.offset (.entry t) = UInt32.ofNat (adjusted adjustSet val).toNat := by
      dsimp only at ho
      rw [hkeeps1.base_eq (cons_ne_nil _ _), ← UInt32.ofNat_toNat (x := s1.clock.offset (.entry t)),
        ← UInt32.ofNat_add]
      congr 1
    rw [hsum, hnow1, ahead_iff]
    · dsimp only
      omega
    · omega
    · show slice w + 0 ≤ _
      omega
  refine ⟨ztimerHandler w { s1 with time := slice w }, ?_, ?_⟩
  · rw [run, Extend.step, ← hs1]
    dsimp only
    rw [run, Extend.step, if_pos (by rw [htime, halarm]; omega), htime, zero_add]
    dsimp only
    rw [run, Extend.step, if_pos ⟨hidle, le_of_eq halarm⟩]
    rfl
  · rw [ztimerHandler_trigger (s := { s1 with time := slice w }) hkeeps1.linked.seg.1 hahead hfst]
    show s1.fired ++ [{ timer := t, target := s1.target t, tick := slice w }] = _
    rw [hfired, htgt]
    rfl

/-- **An extended clock is right exactly if timers are set less than `2 ^ 31` ticks and a slice
ahead**, whatever the counter shows at first, and whenever it is read. -/
theorem extend_right_iff [Inhabited T] (hb : Bounded w latency) (adjustSet : UInt16) (V : UInt32 → Prop) :
    (∀ (time : Nat) (checkpoint : UInt32) (es : List (Event T)) (s : Sys T), (∀ t val, .set t val ∈ es → V val) →
      run (Extend.step w latency) (start w adjustSet time checkpoint) es = some s → Right w time checkpoint s) ↔
    ∀ val, V val → (adjusted adjustSet val).toNat < 2 ^ 31 + slice w := by
  constructor
  · intro hright val hval
    apply not_le.mp
    intro hfar
    obtain ⟨s, hrun, hfired⟩ := extend_first_slice hb adjustSet (default : T) hfar
    have hsets : ∀ (t : T) v, .set t v ∈ [Event.set default val, .advance (slice w), .handler] → V v := by
      intro t v hmem
      simp only [List.mem_cons, Event.set.injEq, reduceCtorEq, List.not_mem_nil, or_false] at hmem
      exact hmem.2 ▸ hval
    have hle := (hright 0 0 _ s hsets hrun).onTime _ (hfired ▸ List.mem_singleton_self _)
    dsimp only at hle
    omega
  · intro hnear time checkpoint es s hmem hrun
    obtain ⟨⟨base, read, ts, h⟩, htime⟩ := run_invariant_mem
      (I := fun s => (∃ base read ts, Slices w latency (shiftOf time checkpoint) adjustSet s base read ts) ∧
        time ≤ s.time)
      (fun s e s' ⟨⟨base, read, ts, h⟩, htime⟩ he hstep =>
        ⟨h.step hb (fun t val heq => hnear val (hmem t val (heq ▸ he))) hstep,
          Nat.le_trans htime (time_le_of_step hstep)⟩)
      ⟨⟨_, _, _, slices_start hb adjustSet time checkpoint⟩, Nat.le_refl _⟩ hrun
    refine ⟨?_, h.onTime⟩
    rw [(h.now hb).1, ofNat_shiftOf s.time htime]

/-- A counter of 16 bits whose handler is called at once. -/
theorem extend_right_iff_word : (∀ (time : Nat) (checkpoint : UInt32) (es : List (Event Unit)) (s : Sys Unit),
    (∀ t val, .set t val ∈ es → val = 5) → run (Extend.step 16 0) (start 16 0 time checkpoint) es = some s →
      Right 16 time checkpoint s) ↔ ∀ val : UInt32, val = 5 → (adjusted 0 val).toNat < 2 ^ 31 + slice 16 :=
  extend_right_iff ⟨by decide, by decide, by decide⟩ 0 (· = 5)

/-- A timer is set as far ahead as it can be, and the counter of 16 bits calls after its first slice. -/
def farEvents : List (Event Unit) := [.set () 0xFFFFFFFF, .advance 32767, .handler]

/-- The callback runs there. -/
theorem not_extend_right : ∃ s, run (Extend.step 16 0) (start 16 0 0 0) farEvents = some s ∧
    s.fired.map (fun f => (f.target, f.tick)) = [(4294967295, 32767)] ∧ ¬ Right 16 0 0 s := by
  have hrun : (run (Extend.step 16 0) (start 16 0 0 0) farEvents).any (fun s =>
      s.fired.map (fun f => (f.target, f.tick)) = [(4294967295, 32767)]) = true := by decide
  obtain ⟨s, hs, hfired⟩ := (Option.any_eq_true _ _).mp hrun
  have hfired := of_decide_eq_true hfired
  refine ⟨s, hs, hfired, fun hright => ?_⟩
  have hall : ∀ x ∈ s.fired.map (fun f => (f.target, f.tick)), x.1 ≤ x.2 := by
    intro x hx
    obtain ⟨f, hf, rfl⟩ := List.mem_map.mp hx
    exact hright.onTime f hf
  rw [hfired] at hall
  exact absurd (hall _ List.mem_cons_self) (by decide)

end Riot.Ztimer.Extend
