import Riot.Lib.Runs

/-!
# The trickle timer

`sys/trickle/trickle.c`. Words of 32 bits are numbers, taken modulo `2 ^ 32` where the code
computes with them. `none` as the result of a function is a violated assertion.

`World` runs one trickle timer against a clock. The message of its timer is handled when the
timer expires.
-/

namespace Riot.Trickle

/-- `uint32_t` arithmetic. -/
def word (x : Nat) : Nat := x % 2 ^ 32

/-- `trickle_t`, without the thread, the callback and the message. `i` is the size of the
current interval and `t` the point in it. -/
structure Trickle where
  k : Nat
  imax : Nat
  c : Nat
  imin : Nat
  i : Nat
  t : Nat
  deriving DecidableEq

/-- `random_uint32_range`: a number from `a` on and below `b`, any of which some `rand` yields. -/
def randomUint32Range (a b rand : Nat) : Option Nat :=
  if a < b then some (a + rand % (b - a)) else none

/-- `trickle_interval`: the timer, and the offset for which it is set. -/
def trickleInterval (trickle : Trickle) (rand : Nat) : Option (Trickle × Nat) :=
  if trickle.i = 0 then none
  else
    let maxInterval := word (trickle.imin * 2 ^ trickle.imax)
    let diff := word (trickle.i + 2 ^ 32 - trickle.t)
    let doubled := word (trickle.i * 2)
    let i := if maxInterval < doubled then maxInterval else doubled
    let oldInterval := if maxInterval < doubled then maxInterval / 2 else trickle.i
    (randomUint32Range oldInterval i rand).map fun t =>
      ({ trickle with i := i, c := 0, t := t }, word (t + diff))

/-- `trickle_callback`: whether the callback is called, and what `trickle_interval` does. -/
def trickleCallback (trickle : Trickle) (rand : Nat) : Bool × Option (Trickle × Nat) :=
  (decide (trickle.c < trickle.k) || decide (trickle.k = 0), trickleInterval trickle rand)

/-- `trickle_reset_timer`; the timer is set again or the assertion fails. -/
def trickleResetTimer (trickle : Trickle) (rand : Nat) : Option (Trickle × Nat) :=
  if trickle.i ≤ trickle.imin then none
  else trickleInterval { trickle with i := trickle.imin, t := trickle.imin } rand

/-- `trickle_start`; `first` is the random number for the interval it begins with. -/
def trickleStart (imin imax k first rand : Nat) : Option (Trickle × Nat) :=
  if imin = 0 then none
  else if (2 ^ 32 - 1) / 2 ≤ word (imin * 2 ^ imax) then none
  else
    (randomUint32Range imin (word (4 * imin)) first).bind fun i =>
      trickleInterval { k := k, imax := imax, c := 0, imin := imin, i := i, t := i } rand

def trickleIncrementCounter (trickle : Trickle) : Trickle :=
  { trickle with c := (trickle.c + 1) % 2 ^ 16 }

/-- The parameters of a timer. -/
structure Params where
  imin : Nat
  imax : Nat
  k : Nat
  imin_pos : 0 < imin
  max_lt : imin * 2 ^ imax < 2 ^ 31

/-- A trickle timer and its clock; `timer` is when the ztimer expires, if it was ever set, and
`transmitted` are the times at which the callback was called, the latest first. -/
structure World where
  trickle : Trickle
  timer : Option Nat
  now : Nat
  transmitted : List Nat
  failed : Bool

inductive Event where
  | start (p : Params) (first rand : Nat)
  | callback (rand : Nat)
  | incrementCounter
  | resetTimer (rand : Nat)
  | sleep (d : Nat)

/-- The end of a function that sets the timer. -/
def World.arm (w : World) : Option (Trickle × Nat) → World
  | none => { w with failed := true }
  | some (trickle, offset) => { w with trickle := trickle, timer := some (w.now + offset) }

def World.step (w : World) (e : Event) : Option World :=
  if w.failed then none
  else
    match e with
    | .start p first rand => some (w.arm (trickleStart p.imin p.imax p.k first rand))
    | .callback rand =>
      if w.timer = some w.now then
        let (transmits, armed) := trickleCallback w.trickle rand
        some (({ w with transmitted := if transmits then w.now :: w.transmitted else w.transmitted }).arm armed)
      else none
    | .incrementCounter => some { w with trickle := trickleIncrementCounter w.trickle }
    | .resetTimer rand => some (w.arm (trickleResetTimer w.trickle rand))
    | .sleep d =>
      -- the timer does not expire unnoticed
      if ∀ due ∈ w.timer, w.now + d ≤ due then some { w with now := w.now + d } else none

/-- The timer was never started. -/
def World.init : World where
  trickle := ⟨0, 0, 0, 0, 0, 0⟩
  timer := none
  now := 0
  transmitted := []
  failed := false

/-! ## What is asked of it -/

/-- The interval is within its bounds, and the point in its second half. -/
structure Trickle.Sound (trickle : Trickle) : Prop where
  imin_le : trickle.imin ≤ trickle.i
  le_imax : trickle.i ≤ trickle.imin * 2 ^ trickle.imax
  half_le : trickle.i / 2 ≤ trickle.t
  lt : trickle.t < trickle.i

/-- No assertion has failed, and a timer that was started is sound. -/
structure World.Sound (w : World) : Prop where
  runs : w.failed = false
  started : w.timer ≠ none → w.trickle.Sound

/-- The current interval begins at this time. -/
def World.Begins (w : World) (begins : Nat) : Prop := w.timer = some (begins + w.trickle.t)

/-- How the interval after an event follows the one before: it begins at once where the timer is
started or reset, with the least length after a reset, and where the one before ends, with twice
its length up to the maximum, after the callback. -/
def World.Follows (w : World) (e : Event) (w' : World) : Prop :=
  match e with
  | .start p _ _ => w'.Begins w.now ∧ w'.trickle.imin = p.imin ∧ w'.trickle.imax = p.imax
  | .resetTimer _ => w'.Begins w.now ∧ w'.trickle.i = w.trickle.imin
  | .callback _ =>
    (∃ begins, w.Begins begins ∧ w'.Begins (begins + w.trickle.i)) ∧
      w'.trickle.i = min (2 * w.trickle.i) (w.trickle.imin * 2 ^ w.trickle.imax)
  | .incrementCounter | .sleep _ =>
    w'.timer = w.timer ∧ w'.trickle.i = w.trickle.i ∧ w'.trickle.t = w.trickle.t

/-- After the event the timer is sound, and the intervals follow each other. -/
def World.Good (w : World) (e : Event) : Prop := ∀ w', w.step e = some w' → w'.Sound ∧ w.Follows e w'

end Riot.Trickle
