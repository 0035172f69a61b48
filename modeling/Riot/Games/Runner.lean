import Riot.Lib.Memory
import Riot.Lib.Runs

/-!
# Runner (`runner` of the game collection)

Obstacles come down the screen, at most eight at a time. One step is one round of the main loop, of
the pause menu, or of the loop that waits for a new game. The filter of the accelerometer values is
in floating point, and a parameter. What is drawn and the high scores are left out.
-/

namespace Riot.Games.Runner

open Riot.Lib Function List

def MAX_OBSTACLES : Nat := 8

structure Obstacle where
  lane : Nat
  yStart : Int
  active : Bool
deriving DecidableEq

inductive Pc where
  | playing
  | paused
  /-- "Press button to play again" -/
  | ended
  | returned
deriving DecidableEq

/-- The screen, and the filter. -/
structure Cfg where
  maxScreenX : UInt16
  maxScreenY : UInt16
  /-- `0.6 * x_smooth + 0.4 * (*acc_val).x` as an `int` -/
  smooth : Int → Int16 → Int

/-- The local variables. The array is memory, of which eight cells belong to it, and `accessed` are
the indices it was accessed at. -/
structure State where
  pc : Pc
  obstacles : Memory Obstacle
  accessed : List Nat
  playerPosition : Nat
  xSmooth : Int
  spawnTimer : UInt32
  spawnStart : UInt32
  moveTimer : UInt32
  moveStart : UInt32
  score : Nat
  startScore : UInt32
  dead : Bool
  beginGame : Bool
  speed : Int
  lastButton : Bool
  action : Nat
  lastAction : Nat
  start2 : UInt32

/-- What one round of the main loop reads: of the clock, when it checks a timer and when it starts it
again. -/
structure Frame where
  /-- `lsm6dsxx_read_acc` succeeds -/
  accOk : Bool
  spawnNow : UInt32
  spawnNow' : UInt32
  random : UInt32
  moveNow : UInt32
  moveNow' : UInt32
  scoreNow : UInt32
  scoreNow' : UInt32
  x : Int16
  pressed : Bool
  pauseNow : UInt32

inductive Input where
  | frame (f : Frame)
  | menu (currentButton : Bool) (now now' : UInt32)
  | newGame (pressed : Bool) (scoreNow spawnNow moveNow : UInt32)

variable (cfg : Cfg)

def Cfg.width : Int := cfg.maxScreenX.toNat

def Cfg.height : Int := cfg.maxScreenY.toNat

/-- `lane[i]` -/
def Cfg.lane (i : Nat) : Int := i * cfg.width.tdiv 5

/-! ## Spawning -/

/-- A new obstacle is due. -/
def spawnDue (s : State) (f : Frame) : Bool := decide (s.spawnTimer ≤ f.spawnNow - s.spawnStart) || s.beginGame

/-- Looks for an obstacle that is not active; the index it ends at, and those it looked at. -/
def findIndex (obstacles : Memory Obstacle) : Nat → Nat → Nat × List Nat
  | 0, index => (index, [])
  | fuel + 1, index =>
    if index < MAX_OBSTACLES then
      if (obstacles index).active then
        let r := findIndex obstacles fuel (index + 1)
        (r.1, index :: r.2)
      else (index, [index])
    else (index, [])

def spawn (s : State) (f : Frame) : State :=
  let s := { s with
    beginGame := false
    spawnTimer := if 1500 < s.spawnTimer then s.spawnTimer - 100 else s.spawnTimer }
  let (index, looked) := findIndex s.obstacles (MAX_OBSTACLES + 1) 0
  let s := { s with accessed := s.accessed ++ looked, spawnStart := f.spawnNow' }
  if index ≤ MAX_OBSTACLES then
    { s with
      obstacles := update s.obstacles index
        { lane := f.random.toNat % 5, yStart := 0, active := true }
      accessed := s.accessed ++ [index] }
  else s

/-! ## Moving -/

/-- The player is where the obstacle comes down. -/
def hit (playerPosition lane : Nat) : Bool :=
  playerPosition = lane + 1 || (playerPosition = 6 && (lane = 0 || lane = 1)) ||
    (playerPosition = 7 && (lane = 1 || lane = 2)) || (playerPosition = 8 && (lane = 2 || lane = 3)) ||
    (playerPosition = 9 && (lane = 3 || lane = 4))

/-- Moves an obstacle, and lets it hit the player or leave the screen. -/
def moveObstacle (s : State) (i : Nat) : State :=
  let s := { s with accessed := s.accessed ++ [i] }
  let o := s.obstacles i
  let o := if o.active then { o with yStart := o.yStart + s.speed } else o
  let s := { s with obstacles := update s.obstacles i o }
  let near := o.active && decide (cfg.height - cfg.width.tdiv 10 - 1 ≤ o.yStart + 20) &&
    decide (o.yStart ≤ cfg.height - 2)
  -- continue
  if near && !hit s.playerPosition o.lane then s
  else
    let s := if near then { s with dead := true } else s
    if o.active && decide (cfg.height - 1 ≤ o.yStart) then
      { s with obstacles := update s.obstacles i { o with active := false } }
    else s

def moveObstacles (s : State) : State := (List.range MAX_OBSTACLES).foldl (moveObstacle cfg) s

/-! ## One round -/

/-- The score grows, and with it the speed. -/
def count (s : State) (f : Frame) : State :=
  if 100 ≤ f.scoreNow - s.startScore then
    let s := if s.score < 9999 then { s with score := s.score + 1 } else { s with dead := true }
    let s := if s.score % 250 = 0 then { s with speed := s.speed + 1 } else s
    { s with startScore := f.scoreNow' }
  else s

/-- `player_position`, of a player between `xStart` and `xEnd` -/
def position (old : Nat) (xStart xEnd : Int) : Nat :=
  let lane := cfg.lane
  let tenth := cfg.width.tdiv 10
  if xEnd ≤ lane 2 ∧ lane 1 ≤ xStart then 2
  else if xEnd ≤ lane 3 ∧ lane 2 ≤ xStart then 3
  else if xEnd ≤ lane 4 ∧ lane 3 ≤ xStart then 4
  else if xEnd ≤ cfg.width ∧ lane 4 ≤ xStart then 5
  else if lane 1 - (tenth + 1) ≤ xStart ∧ xStart ≤ lane 1 + (tenth - 1) then 6
  else if lane 2 - (tenth + 1) ≤ xStart ∧ xStart ≤ lane 2 + (tenth - 1) then 7
  else if lane 3 - (tenth + 1) ≤ xStart ∧ xStart ≤ lane 2 + (tenth - 1) then 8
  else if lane 4 - (tenth + 1) ≤ xStart ∧ xStart ≤ lane 2 + (tenth - 1) then 9
  else if xEnd ≤ lane 1 then 1
  else old

/-- The player follows the accelerometer. -/
def follow (s : State) (f : Frame) : State :=
  let xSmooth := max (-700) (min 700 (cfg.smooth s.xSmooth f.x))
  let xStart := UInt16.ofInt (((xSmooth - 700) * -cfg.width).tdiv 1540)
  let xEnd := UInt16.ofInt (xStart.toNat + cfg.width.tdiv 10)
  { s with xSmooth := xSmooth, playerPosition := position cfg s.playerPosition xStart.toNat xEnd.toNat }

/-- The end of a round. -/
def endRound (s : State) : State := { s with pc := if s.dead then .ended else .playing }

/-- One round, up to the button. -/
def play (s : State) (f : Frame) : State :=
  let s := if spawnDue s f then spawn s f else s
  let s :=
    if s.moveTimer ≤ f.moveNow - s.moveStart then { moveObstacles cfg s with moveStart := f.moveNow' } else s
  follow cfg (count s f) f

/-- The button was pressed: the next action of the menu. -/
def press (s : State) (currentButton : Bool) : State :=
  if s.lastButton = true ∧ currentButton = false then
    { s with lastAction := s.action, action := (s.action + 1) % 3, lastButton := currentButton }
  else { s with lastButton := currentButton }

def step (s : State) : Input → Option State
  | .frame f =>
    if s.pc = .playing then
      if f.accOk then
        let s := play cfg s f
        some (
          if f.pressed then
            { s with pc := .paused, lastButton := true, action := 0, lastAction := 0, start2 := f.pauseNow }
          else endRound s)
      else some s
    else none
  | .menu currentButton now now' =>
    if s.pc = .paused then
      let s := press s currentButton
      let s := if s.action ≠ s.lastAction then { s with start2 := now, lastAction := s.action } else s
      some (
        if 1500 ≤ now' - s.start2 ∧ 0 < s.action then
          if s.action = 1 then endRound s else { s with pc := .returned }
        else s)
    else none
  | .newGame pressed scoreNow spawnNow moveNow =>
    if s.pc = .ended then
      some (
        if pressed then
          { s with
            dead := false
            score := 0
            spawnTimer := 3500
            moveTimer := 200
            beginGame := true
            speed := 4
            obstacles := fun i => if i < MAX_OBSTACLES then { s.obstacles i with active := false } else s.obstacles i
            accessed := s.accessed ++ List.range MAX_OBSTACLES
            startScore := scoreNow
            spawnStart := spawnNow
            moveStart := moveNow
            pc := .playing }
        else s)
    else none

/-- The function when it enters its loop. -/
def start (obstacles : Memory Obstacle) (spawnNow moveNow scoreNow : UInt32) : State where
  pc := .playing
  obstacles := fun i => if i < MAX_OBSTACLES then { obstacles i with active := false } else obstacles i
  accessed := List.range MAX_OBSTACLES
  playerPosition := 0
  xSmooth := 0
  spawnTimer := 3500
  spawnStart := spawnNow
  moveTimer := 200
  moveStart := moveNow
  score := 0
  startScore := scoreNow
  dead := false
  beginGame := true
  speed := 4
  lastButton := true
  action := 0
  lastAction := 0
  start2 := 0

/-- **What the game relies on**: the array was accessed within its bounds only. -/
def InBounds (s : State) : Prop := ∀ i ∈ s.accessed, i < MAX_OBSTACLES

/-- No obstacle is spawned while all are active. -/
def RoomToSpawn (s : State) : Input → Prop
  | .frame f => s.pc = .playing → f.accOk = true → spawnDue s f = true →
    ∃ i < MAX_OBSTACLES, (s.obstacles i).active = false
  | _ => True

variable {cfg} {s s' : State} {obstacles : Memory Obstacle}

/-! ## Where the search ends -/

/-- The search looks at obstacles of the array only, and ends behind it exactly if all are active. -/
theorem findIndex_spec {fuel index : Nat} (hfuel : MAX_OBSTACLES < fuel + index) (hle : index ≤ MAX_OBSTACLES) :
    (findIndex obstacles fuel index).1 ≤ MAX_OBSTACLES ∧
      (∀ i ∈ (findIndex obstacles fuel index).2, i < MAX_OBSTACLES) ∧
      ((findIndex obstacles fuel index).1 < MAX_OBSTACLES ↔
        ∃ i, index ≤ i ∧ i < MAX_OBSTACLES ∧ (obstacles i).active = false) := by
  induction fuel generalizing index with
  | zero => omega
  | succ fuel ih =>
    unfold findIndex
    by_cases hlt : index < MAX_OBSTACLES
    · rw [if_pos hlt]
      by_cases hact : (obstacles index).active = true
      · obtain ⟨hend, hlooked, hiff⟩ := @ih (index + 1) (by omega) hlt
        rw [if_pos hact]
        refine ⟨hend, fun i hi => ?_, hiff.trans ⟨?_, ?_⟩⟩
        · rcases mem_cons.mp hi with rfl | hi
          · exact hlt
          · exact hlooked i hi
        · rintro ⟨i, hle, hi, hfree⟩
          exact ⟨i, Nat.le_of_succ_le hle, hi, hfree⟩
        · rintro ⟨i, hle, hi, hfree⟩
          refine ⟨i, Nat.lt_of_le_of_ne hle fun heq => ?_, hi, hfree⟩
          rw [heq, hfree] at hact
          exact absurd hact (by decide)
      · rw [if_neg hact]
        refine ⟨hle, fun i hi => ?_, fun _ => ⟨index, Nat.le_refl _, hlt, Bool.eq_false_iff.mpr hact⟩, fun _ => hlt⟩
        rw [mem_singleton.mp hi]
        exact hlt
    · rw [if_neg hlt]
      refine ⟨hle, fun i hi => absurd hi not_mem_nil, fun h => absurd h hlt, ?_⟩
      rintro ⟨i, hle, hi, -⟩
      omega

/-- **A spawn step writes behind the array exactly if all obstacles are active.** -/
theorem spawn_inBounds_iff (f : Frame) (h : InBounds s) :
    InBounds (spawn s f) ↔ ∃ i < MAX_OBSTACLES, (s.obstacles i).active = false := by
  obtain ⟨hend, hlooked, hiff⟩ := @findIndex_spec s.obstacles (MAX_OBSTACLES + 1) 0 (by omega) (Nat.zero_le _)
  have hfree : (∃ i, 0 ≤ i ∧ i < MAX_OBSTACLES ∧ (s.obstacles i).active = false) ↔
      ∃ i < MAX_OBSTACLES, (s.obstacles i).active = false :=
    exists_congr fun i => ⟨fun h => h.2, fun h => ⟨Nat.zero_le i, h⟩⟩
  have haccessed : (spawn s f).accessed = s.accessed ++ (findIndex s.obstacles (MAX_OBSTACLES + 1) 0).2 ++
      [(findIndex s.obstacles (MAX_OBSTACLES + 1) 0).1] := by
    unfold spawn
    dsimp only
    rw [if_pos hend]
  unfold InBounds
  rw [← hfree, ← hiff, haccessed]
  constructor
  · intro hall
    exact hall _ (mem_append_right _ (mem_singleton_self _))
  · intro hlt i hi
    rcases mem_append.mp hi with hi | hi
    · rcases mem_append.mp hi with hi | hi
      · exact h i hi
      · exact hlooked i hi
    · rw [mem_singleton.mp hi]
      exact hlt

/-! ## What a round accesses -/

theorem InBounds.of_accessed (h : InBounds s) (heq : s'.accessed = s.accessed) : InBounds s' := by
  intro i hi
  rw [heq] at hi
  exact h i hi

theorem moveObstacle_accessed (i : Nat) : (moveObstacle cfg s i).accessed = s.accessed ++ [i] := by
  unfold moveObstacle
  dsimp only
  split_ifs <;> rfl

theorem foldl_moveObstacle_accessed (is : List Nat) :
    (is.foldl (moveObstacle cfg) s).accessed = s.accessed ++ is := by
  induction is generalizing s with
  | nil => exact (append_nil _).symm
  | cons i is ih => rw [foldl_cons, ih, moveObstacle_accessed, append_assoc, singleton_append]

theorem moveObstacles_inBounds_iff : InBounds (moveObstacles cfg s) ↔ InBounds s := by
  have haccessed : (moveObstacles cfg s).accessed = s.accessed ++ range MAX_OBSTACLES :=
    foldl_moveObstacle_accessed _
  unfold InBounds
  rw [haccessed]
  constructor
  · intro hall i hi
    exact hall i (mem_append_left _ hi)
  · intro hall i hi
    rcases mem_append.mp hi with hi | hi
    · exact hall i hi
    · exact mem_range.mp hi

theorem count_accessed (f : Frame) : (count s f).accessed = s.accessed := by
  unfold count
  dsimp only
  split
  · split <;> split <;> rfl
  · rfl

/-- **A round stays within the array exactly if it spawns no obstacle while all are active**: moving
the obstacles looks at those of the array only, and the rest of the round at none. -/
theorem play_inBounds_iff (f : Frame) (h : InBounds s) : InBounds (play cfg s f) ↔
      (spawnDue s f = true → ∃ i < MAX_OBSTACLES, (s.obstacles i).active = false) := by
  -- moving, counting and following change nothing about it
  have hrest (t : State) : InBounds (follow cfg (count
      (if t.moveTimer ≤ f.moveNow - t.moveStart then { moveObstacles cfg t with moveStart := f.moveNow' } else t)
      f) f) ↔ InBounds t := by
    show (∀ i ∈ (count _ f).accessed, i < MAX_OBSTACLES) ↔ _
    rw [count_accessed]
    split
    · exact moveObstacles_inBounds_iff
    · exact Iff.rfl
  unfold play
  rw [hrest]
  by_cases hdue : spawnDue s f = true
  · rw [if_pos hdue, spawn_inBounds_iff f h]
    exact ⟨fun hfree _ => hfree, fun hfree => hfree hdue⟩
  · rw [if_neg hdue]
    exact ⟨fun _ hd => absurd hd hdue, fun _ => h⟩

theorem step_inBounds_iff {e : Input} (h : InBounds s) (hs : step cfg s e = some s') :
    RoomToSpawn s e ↔ InBounds s' := by
  cases e with
  | frame f =>
    simp only [step] at hs
    split at hs
    case isFalse => cases hs
    case isTrue hpc =>
      split at hs
      case isFalse hacc =>
        cases hs
        exact ⟨fun _ => h, fun _ _ hok => absurd hok hacc⟩
      case isTrue hacc =>
        injection hs with hs
        subst hs
        have hplay : InBounds (play cfg s f) ↔ RoomToSpawn s (.frame f) :=
          (play_inBounds_iff f h).trans ⟨fun hfree _ _ => hfree, fun hfree => hfree hpc hacc⟩
        rw [← hplay]
        split
        · exact Iff.rfl
        · exact Iff.rfl
  | menu currentButton now now' =>
    simp only [step] at hs
    split at hs
    case isFalse => cases hs
    case isTrue =>
      injection hs with hs
      subst hs
      have hpress : (press s currentButton).accessed = s.accessed := by
        unfold press
        split <;> rfl
      refine ⟨fun _ => h.of_accessed ?_, fun _ => trivial⟩
      split_ifs <;> exact hpress
  | newGame pressed scoreNow spawnNow moveNow =>
    simp only [step] at hs
    split at hs
    case isFalse => cases hs
    case isTrue =>
      injection hs with hs
      subst hs
      refine ⟨fun _ => ?_, fun _ => trivial⟩
      split
      · intro i hi
        rcases mem_append.mp hi with hi | hi
        · exact h i hi
        · exact mem_range.mp hi
      · exact h

theorem start_inBounds (spawnNow moveNow scoreNow : UInt32) : InBounds (start obstacles spawnNow moveNow scoreNow) :=
  fun _ hi => mem_range.mp hi

/-- **Exactly when the game stays within its array.** Whatever the clock, the accelerometer and the
button read, and whenever the game is paused: it does until it spawns an obstacle while all are
active. -/
theorem runner_inBounds_iff (cfg : Cfg) (obstacles : Memory Obstacle) (spawnNow moveNow scoreNow : UInt32)
    (es : List Input) :
    Along (step cfg) RoomToSpawn (start obstacles spawnNow moveNow scoreNow) es ↔
      Always (step cfg) InBounds (start obstacles spawnNow moveNow scoreNow) es :=
  along_iff_always (I := fun _ => True) (fun _ _ _ _ h hs => step_inBounds_iff h hs)
    (fun _ _ _ _ _ _ _ => trivial) es trivial (start_inBounds _ _ _)

/-! ## Nine pauses -/

/-- A round, and a pause of four seconds after it, that goes on with the game. -/
def pausedRound (t : UInt32) : List Input :=
  [.frame { accOk := true, spawnNow := t, spawnNow' := t, random := 0, moveNow := t, moveNow' := t,
            scoreNow := t, scoreNow' := t, x := 0, pressed := true, pauseNow := t },
   .menu false t t, .menu true (t + 4000) (t + 4000)]

/-- Nine rounds of a game. -/
def pausedRounds : List Input := (List.range 9).flatMap fun k => pausedRound (4000 * UInt32.ofNat k)

/-- A screen of 128 lines, and a filter that keeps the player where it is. -/
def screen : Cfg where
  maxScreenX := 160
  maxScreenY := 128
  smooth := fun xSmooth _ => xSmooth

/-- **The search for a free obstacle ends behind the array when all are active, and what it found is
written.** In each round one obstacle is spawned, and each comes down by a few lines only: the ninth
is written behind the array. -/
theorem not_runner_inBounds : ∃ s, run (step screen) (start (fun _ => ⟨0, 0, false⟩) 0 0 0) pausedRounds = some s ∧
    MAX_OBSTACLES ∈ s.accessed ∧
    ¬ Always (step screen) InBounds (start (fun _ => ⟨0, 0, false⟩) 0 0 0) pausedRounds := by
  have hrun : (run (step screen) (start (fun _ => ⟨0, 0, false⟩) 0 0 0) pausedRounds).any
      (fun s => decide (MAX_OBSTACLES ∈ s.accessed)) = true := by decide +kernel
  obtain ⟨s, hs, hmem⟩ := (Option.any_eq_true _ _).mp hrun
  have hmem := of_decide_eq_true hmem
  refine ⟨s, hs, hmem, fun hall => ?_⟩
  have hlt := (hall.last hs) _ hmem
  exact absurd hlt (Nat.lt_irrefl _)

end Riot.Games.Runner
