import Riot.Trickle.Trickle

/-!
# The intervals of a trickle timer

A started timer keeps its bounds for as long as it is only called back. What can go wrong is the
start, with parameters or a first random number for which the arithmetic of `trickle_start`
wraps, and every reset: `trickle_reset_timer` sets the interval to its least length and leaves it
to `trickle_interval`, which doubles it.
-/

namespace Riot.Trickle

open Riot.Lib Option

variable {trickle tr : Trickle} {w w' : World} {p : Params} {rand first offset : Nat}

theorem word_eq {x : Nat} (h : x < 2 ^ 32) : word x = x := Nat.mod_eq_of_lt h

theorem randomUint32Range_eq_none {a b : Nat} : randomUint32Range a b rand = none ↔ b ≤ a := by
  unfold randomUint32Range
  split <;> simp <;> omega

theorem randomUint32Range_some {a b : Nat} (h : a < b) :
    ∃ t, randomUint32Range a b rand = some t ∧ a ≤ t ∧ t < b := by
  have hmod : rand % (b - a) < b - a := Nat.mod_lt _ (by omega)
  exact ⟨_, if_pos h, by omega, by omega⟩

/-- What makes the next interval of a timer a sound one. -/
structure Trickle.Ready (trickle : Trickle) : Prop where
  pos : 0 < trickle.i
  imin_le : trickle.imin ≤ trickle.i
  imin_pos : 0 < trickle.imin
  max_lt : trickle.imin * 2 ^ trickle.imax < 2 ^ 31
  t_le : trickle.t ≤ trickle.i
  diff_lt : trickle.i - trickle.t < 2 ^ 31

theorem imin_le_max : trickle.imin ≤ trickle.imin * 2 ^ trickle.imax :=
  Nat.le_mul_of_pos_right _ (Nat.two_pow_pos _)

/-- **The next interval** is twice as long, or the longest, and begins where the interval before
it ends. -/
theorem trickleInterval_spec (h : trickle.Ready) (hi : trickle.i < 2 ^ 31 ∨
      trickle.i < 2 ^ 32 ∧ trickle.imin * 2 ^ trickle.imax < 2 * trickle.i - 2 ^ 32) :
    ∃ next offset, trickleInterval trickle rand = some (next, offset) ∧ next.Sound ∧
      next.imin = trickle.imin ∧ next.imax = trickle.imax ∧
      next.i = min (2 * trickle.i) (trickle.imin * 2 ^ trickle.imax) ∧
      offset = next.t + (trickle.i - trickle.t) := by
  have hmax := h.max_lt
  have hle := @imin_le_max trickle
  have hge := h.imin_le
  have himin := h.imin_pos
  have ht := h.t_le
  have hdiff : word (trickle.i + 2 ^ 32 - trickle.t) = trickle.i - trickle.t := by
    unfold word
    omega
  unfold trickleInterval
  rw [if_neg (by omega), word_eq (show trickle.imin * 2 ^ trickle.imax < 2 ^ 32 by omega), hdiff]
  dsimp only
  have hdouble : trickle.i < 2 ^ 31 → word (trickle.i * 2) = 2 * trickle.i := by
    intro hlt
    rw [word_eq (by omega), mul_comm]
  by_cases hcap : trickle.imin * 2 ^ trickle.imax < word (trickle.i * 2)
  · -- the longest interval
    rw [if_pos hcap, if_pos hcap]
    obtain ⟨t, hdraw, hlo, hhi⟩ := @randomUint32Range_some rand
      (trickle.imin * 2 ^ trickle.imax / 2) (trickle.imin * 2 ^ trickle.imax) (by omega)
    rw [hdraw]
    refine ⟨_, _, rfl, ⟨hle, le_rfl, hlo, hhi⟩, rfl, rfl, ?_, ?_⟩
    · unfold word at hcap
      dsimp only
      omega
    · have := h.diff_lt
      exact word_eq (by omega)
  · have hlt : trickle.i < 2 ^ 31 := by
      rcases hi with hlt | ⟨hlt, hwrap⟩
      · exact hlt
      · unfold word at hcap
        omega
    rw [if_neg hcap, if_neg hcap, hdouble hlt]
    rw [hdouble hlt] at hcap
    obtain ⟨t, hdraw, hlo, hhi⟩ := @randomUint32Range_some rand trickle.i (2 * trickle.i) (by omega)
    rw [hdraw]
    refine ⟨_, _, rfl, ⟨?_, ?_, ?_, hhi⟩, rfl, rfl, ?_, ?_⟩
    · dsimp only
      omega
    · exact not_lt.mp hcap
    · dsimp only
      omega
    · dsimp only
      omega
    · have := h.diff_lt
      exact word_eq (by omega)

/-! ## Starting -/

/-- The first interval, before `trickle_interval` doubles it. -/
def firstInterval (p : Params) (first : Nat) : Nat := p.imin + first % (word (4 * p.imin) - p.imin)

/-- The timer can be started: the longest interval passes the assertion, the range for the first
interval is not empty, and the first interval can be doubled, or is so long that it is cut. -/
def Startable (p : Params) (first : Nat) : Prop :=
  p.imin * 2 ^ p.imax < 2 ^ 31 - 1 ∧ p.imin < word (4 * p.imin) ∧
    (firstInterval p first < 2 ^ 31 ∨ p.imin * 2 ^ p.imax < 2 * firstInterval p first - 2 ^ 32)

theorem firstInterval_bounds (h : p.imin < word (4 * p.imin)) :
    p.imin ≤ firstInterval p first ∧ firstInterval p first < 2 ^ 32 := by
  have hmod : first % (word (4 * p.imin) - p.imin) < word (4 * p.imin) - p.imin := Nat.mod_lt _ (by omega)
  have hword : word (4 * p.imin) < 2 ^ 32 := Nat.mod_lt _ (by decide)
  unfold firstInterval
  omega

theorem trickleStart_spec (h : Startable p first) :
    ∃ next offset, trickleStart p.imin p.imax p.k first rand = some (next, offset) ∧ next.Sound ∧
      next.imin = p.imin ∧ next.imax = p.imax ∧ offset = next.t := by
  obtain ⟨hmax, hrange, hfirst⟩ := h
  obtain ⟨hlo, hhi⟩ := @firstInterval_bounds p first hrange
  have hpos := p.imin_pos
  have hready : Trickle.Ready ⟨p.k, p.imax, 0, p.imin, firstInterval p first, firstInterval p first⟩ :=
    ⟨by dsimp only; omega, hlo, hpos, p.max_lt, le_rfl, by rw [Nat.sub_self]; decide⟩
  obtain ⟨next, offset, hnext, hsound, himin, himax, -, hoffset⟩ :=
    @trickleInterval_spec _ rand hready (hfirst.imp_right fun hwrap => ⟨hhi, hwrap⟩)
  refine ⟨next, offset, ?_, hsound, himin, himax, by rw [hoffset, Nat.sub_self, add_zero]⟩
  unfold trickleStart randomUint32Range
  rw [if_neg (by omega), word_eq (show p.imin * 2 ^ p.imax < 2 ^ 32 by omega), if_neg (by omega),
    if_pos hrange]
  exact hnext

theorem trickleStart_none (h : ¬ Startable p first) : trickleStart p.imin p.imax p.k first rand = none := by
  have hpos := p.imin_pos
  have hmax := p.max_lt
  unfold trickleStart
  rw [if_neg (by omega), word_eq (show p.imin * 2 ^ p.imax < 2 ^ 32 by omega)]
  by_cases hassert : (2 ^ 32 - 1) / 2 ≤ p.imin * 2 ^ p.imax
  · exact if_pos hassert
  rw [if_neg hassert]
  by_cases hrange : p.imin < word (4 * p.imin)
  case neg => rw [randomUint32Range_eq_none.mpr (not_lt.mp hrange), bind_none]
  -- the doubled interval wraps, and the range for the point in it is empty
  have hlong : ¬ (firstInterval p first < 2 ^ 31 ∨
      p.imin * 2 ^ p.imax < 2 * firstInterval p first - 2 ^ 32) :=
    fun hfirst => h ⟨by omega, hrange, hfirst⟩
  have hdoubled : word (firstInterval p first * 2) = 2 * firstInterval p first - 2 ^ 32 := by
    unfold word
    omega
  have hdraw : randomUint32Range p.imin (word (4 * p.imin)) first = some (firstInterval p first) :=
    if_pos hrange
  rw [hdraw, bind_some]
  unfold trickleInterval
  dsimp only
  rw [if_neg (by omega), word_eq (show p.imin * 2 ^ p.imax < 2 ^ 32 by omega), hdoubled,
    if_neg (fun hlt => hlong (.inr hlt)), if_neg (fun hlt => hlong (.inr hlt)), map_eq_none_iff,
    randomUint32Range_eq_none]
  omega

/-! ## Resetting -/

/-- **The first interval after a reset** is not the least one: it is doubled. -/
theorem trickleResetTimer_spec (h : trickle.Ready) (hi : trickle.i ≤ trickle.imin * 2 ^ trickle.imax)
    {next : Trickle} (hreset : trickleResetTimer trickle rand = some (next, offset)) :
    next.i ≠ trickle.imin := by
  unfold trickleResetTimer at hreset
  split at hreset
  · cases hreset
  · have hmax := h.max_lt
    have hpos := h.imin_pos
    have hready : Trickle.Ready { trickle with i := trickle.imin, t := trickle.imin } :=
      ⟨hpos, le_rfl, hpos, hmax, le_rfl, by rw [Nat.sub_self]; decide⟩
    obtain ⟨next', offset', hnext, -, -, -, hlen, -⟩ :=
      @trickleInterval_spec _ rand hready (.inl (by dsimp only; omega))
    obtain ⟨rfl, rfl⟩ := Prod.mk.inj (some.inj (hnext.symm.trans hreset))
    rw [hlen]
    dsimp only
    omega

/-! ## Runs -/

/-- The events after which the timer is sound: no reset, and no start that fails. -/
def World.Allowed (_ : World) : Event → Prop
  | .start p first _ => Startable p first
  | .resetTimer _ => False
  | _ => True

/-- The invariant of runs of such events. -/
structure World.Inv (w : World) : Prop where
  runs : w.failed = false
  zero : w.timer = none → w.trickle.i = 0
  sound : w.timer ≠ none → w.trickle.Sound
  imin_pos : w.timer ≠ none → 0 < w.trickle.imin
  max_lt : w.timer ≠ none → w.trickle.imin * 2 ^ w.trickle.imax < 2 ^ 31
  begun : ∀ due, w.timer = some due → w.trickle.t ≤ due

theorem inv_init : World.init.Inv :=
  ⟨rfl, fun _ => rfl, fun h => absurd rfl h, fun h => absurd rfl h, fun h => absurd rfl h, nofun⟩

theorem World.Inv.ready (inv : w.Inv) (h : w.timer ≠ none) : w.trickle.Ready := by
  have hmax := inv.max_lt h
  have hsound := inv.sound h
  have hpos := inv.imin_pos h
  have hle := hsound.le_imax
  have hge := hsound.imin_le
  exact ⟨by omega, hge, hpos, hmax, le_of_lt hsound.lt, by omega⟩

theorem World.Inv.arm {next : Trickle} {begins : Nat} (inv : w.Inv) (hsound : next.Sound) (hpos : 0 < next.imin)
    (hmax : next.imin * 2 ^ next.imax < 2 ^ 31) (hbegins : w.now + offset = begins + next.t) :
    (w.arm (some (next, offset))).Inv ∧ (w.arm (some (next, offset))).Begins begins := by
  refine ⟨⟨inv.runs, nofun, fun _ => hsound, fun _ => hpos, fun _ => hmax, ?_⟩, ?_⟩
  · intro due hdue
    cases hdue
    show next.t ≤ w.now + offset
    omega
  · exact congrArg some hbegins

theorem World.Inv.start (inv : w.Inv) (h : Startable p first) :
    ∃ w', w.step (.start p first rand) = some w' ∧ w'.Inv ∧ w.Follows (.start p first rand) w' := by
  obtain ⟨next, offset, hstart, hsound, himin, himax, hoffset⟩ := @trickleStart_spec p rand first h
  have hpos : 0 < next.imin := himin ▸ p.imin_pos
  have hmax : next.imin * 2 ^ next.imax < 2 ^ 31 := by
    rw [himin, himax]
    exact p.max_lt
  obtain ⟨hinv, hbegins⟩ := inv.arm hsound hpos hmax (show w.now + offset = w.now + next.t by rw [hoffset])
  refine ⟨w.arm (some (next, offset)), ?_, hinv, hbegins, himin, himax⟩
  unfold World.step
  rw [inv.runs]
  dsimp only
  rw [hstart]
  rfl

theorem World.Inv.callback (inv : w.Inv) (hstep : w.step (.callback rand) = some w') :
    w'.Inv ∧ w.Follows (.callback rand) w' := by
  unfold World.step at hstep
  rw [if_neg (ne_true_of_eq_false inv.runs)] at hstep
  dsimp only at hstep
  by_cases hdue : w.timer = some w.now
  case neg =>
    rw [if_neg hdue] at hstep
    cases hstep
  rw [if_pos hdue] at hstep
  have hset : w.timer ≠ none := by
    rw [hdue]
    exact some_ne_none _
  have hready := inv.ready hset
  have hle := (inv.sound hset).le_imax
  have hmax := hready.max_lt
  obtain ⟨next, offset, hnext, hsound, himin, himax, hlen, hoffset⟩ :=
    @trickleInterval_spec _ rand hready (.inl (by omega))
  unfold trickleCallback at hstep
  rw [hnext] at hstep
  cases hstep
  have ht := inv.begun w.now hdue
  have hti := hready.t_le
  have hbegan : w.Begins (w.now - w.trickle.t) := by
    unfold World.Begins
    rw [hdue, Nat.sub_add_cancel ht]
  have harmed : w.now + offset = w.now - w.trickle.t + w.trickle.i + next.t := by omega
  have hpos : 0 < next.imin := himin ▸ hready.imin_pos
  have hmax' : next.imin * 2 ^ next.imax < 2 ^ 31 := by
    rw [himin, himax]
    exact hmax
  obtain ⟨hinv, hbegins⟩ := inv.arm hsound hpos hmax' harmed
  exact ⟨⟨hinv.runs, hinv.zero, hinv.sound, hinv.imin_pos, hinv.max_lt, hinv.begun⟩,
    ⟨_, hbegan, hbegins⟩, hlen⟩

theorem World.Inv.incrementCounter (inv : w.Inv) :
    World.Inv { w with trickle := trickleIncrementCounter w.trickle } := by
  refine ⟨inv.runs, inv.zero, fun h => ?_, inv.imin_pos, inv.max_lt, inv.begun⟩
  have hsound := inv.sound h
  exact ⟨hsound.imin_le, hsound.le_imax, hsound.half_le, hsound.lt⟩

theorem World.Inv.step {e : Event} (inv : w.Inv) (hok : w.Allowed e) (hstep : w.step e = some w') :
    w'.Inv ∧ w.Follows e w' := by
  cases e with
  | start p first rand =>
    obtain ⟨w'', hw'', hinv, hfollows⟩ := @World.Inv.start w p rand first inv hok
    obtain rfl := some.inj (hw''.symm.trans hstep)
    exact ⟨hinv, hfollows⟩
  | callback rand => exact inv.callback hstep
  | incrementCounter =>
    unfold World.step at hstep
    rw [if_neg (ne_true_of_eq_false inv.runs)] at hstep
    cases hstep
    exact ⟨inv.incrementCounter, rfl, rfl, rfl⟩
  | resetTimer rand => exact hok.elim
  | sleep d =>
    unfold World.step at hstep
    rw [if_neg (ne_true_of_eq_false inv.runs)] at hstep
    dsimp only at hstep
    split at hstep
    · cases hstep
      exact ⟨⟨inv.runs, inv.zero, inv.sound, inv.imin_pos, inv.max_lt, inv.begun⟩, rfl, rfl, rfl⟩
    · cases hstep

theorem World.Inv.not_good_reset (inv : w.Inv) : ¬ w.Good (.resetTimer rand) := by
  intro hgood
  have hstep : w.step (.resetTimer rand) = some (w.arm (trickleResetTimer w.trickle rand)) := by
    exact if_neg (ne_true_of_eq_false inv.runs)
  obtain ⟨hsound, -, hlen⟩ := hgood _ hstep
  cases hreset : trickleResetTimer w.trickle rand with
  | none =>
    rw [hreset] at hsound
    exact Bool.false_ne_true (hsound.runs.symm)
  | some armed =>
    rw [hreset] at hlen
    have hset : w.timer ≠ none := by
      intro hnone
      -- the interval of a timer that was never started is empty
      unfold trickleResetTimer at hreset
      rw [inv.zero hnone, if_pos (Nat.zero_le _)] at hreset
      cases hreset
    exact trickleResetTimer_spec (inv.ready hset) (inv.sound hset).le_imax hreset hlen

theorem World.Inv.not_good_start (inv : w.Inv) (h : ¬ Startable p first) :
    ¬ w.Good (.start p first rand) := by
  intro hgood
  have hstep : w.step (.start p first rand) = some (w.arm none) := by
    unfold World.step
    rw [if_neg (ne_true_of_eq_false inv.runs)]
    exact congrArg (fun armed => some (w.arm armed)) (trickleStart_none h)
  exact Bool.false_ne_true (hgood _ hstep).1.runs.symm

/-- **The runs of a trickle timer that are sound throughout** are those without a reset, in which
every start is one that `trickle_start` can compute. -/
theorem trickle_sound (es : List Event) :
    Along World.step World.Allowed World.init es ↔ Along World.step World.Good World.init es := by
  refine along_iff_along (fun w e w' inv hstep => ⟨fun hok w'' hstep' => ?_, fun hgood => ?_⟩)
    (fun w e w' inv hok hstep => (inv.step hok hstep).1) es inv_init
  · obtain ⟨hinv, hfollows⟩ := inv.step hok hstep'
    exact ⟨⟨hinv.runs, hinv.sound⟩, hfollows⟩
  · cases e with
    | start p first rand => exact Classical.byContradiction fun hok => inv.not_good_start hok hgood
    | resetTimer rand => exact inv.not_good_reset hgood
    | callback rand => exact True.intro
    | incrementCounter => exact True.intro
    | sleep d => exact True.intro

/-- Intervals of 16 ms up to 16 s. -/
def params : Params := ⟨16, 10, 1, Nat.succ_pos 15, by decide⟩

/-- The first interval after a reset of this timer is 32 ms long. -/
theorem not_trickle_sound : ∃ w w',
    run World.step World.init [.start params 5 3, .sleep 20] = some w ∧
      w.step (.resetTimer 0) = some w' ∧ w'.failed = false ∧ w.trickle.imin = 16 ∧ w'.trickle.i = 32 ∧
      ¬ Along World.step World.Good World.init [.start params 5 3, .sleep 20, .resetTimer 0] := by
  refine ⟨_, _, rfl, rfl, rfl, rfl, rfl, fun hgood => ?_⟩
  have hlast : World.Good _ (.resetTimer 0) :=
    @Along.last _ _ _ _ [.start params 5 3, .sleep 20] _ _ _ hgood rfl rfl
  have hlen := (hlast _ rfl).2.2
  exact absurd hlen (by decide)

end Riot.Trickle
