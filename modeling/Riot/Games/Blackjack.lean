import Riot.Lib.Memory
import Riot.Lib.Runs
import Mathlib

/-!
# Blackjack (`blackjack` of the game collection)

Eleven cards lie on one pile, and both players keep theirs in arrays of six. The loops are cut
where they take an input: a button, a random number or the clock. What is drawn on the display is
left out.
-/

namespace Riot.Games.Blackjack

open Riot.Lib Riot.Lib.Memory Function List Nat

/-- Where the function is. -/
inductive Pc where
  /-- at the top of the loop -/
  | top
  /-- in the menu at the end of a round -/
  | ended
  /-- in the loop that draws a card for the opponent -/
  | drawOpp
  /-- in the loop that draws a card for the player -/
  | drawPlayer
  /-- before the chosen action is carried out -/
  | actions
  | returned
deriving DecidableEq

/-- The local variables. The arrays are memory, of which six cells belong to each. -/
structure State where
  pc : Pc
  cardsAvailable : Fin 11 → Bool
  posPlayer : Nat
  posOpp : Nat
  cardsPlayer : Memory Nat
  cardsOpp : Memory Nat
  sumOpp : Nat
  sumPlayer : Nat
  action : Nat
  lastAction : Nat
  lastButton : Bool
  drawCard : Bool
  choseAction : Bool
  start : UInt32

/-- What a step reads. -/
inductive Input where
  | button (currentButton : Bool)
  | random (r : UInt32)
  | clock (now now' : UInt32)
  | menu (currentButton : Bool) (now now' : UInt32)

/-- `random_uint32() % 11` -/
def card (r : UInt32) : Fin 11 := ⟨r.toNat % 11, Nat.mod_lt _ (by decide)⟩

/-- The button was pressed: the next of `n` actions. -/
def press (s : State) (currentButton : Bool) (n : Nat) : State :=
  if s.lastButton = true ∧ currentButton = false then
    { s with lastAction := s.action, action := (s.action + 1) % n, lastButton := currentButton }
  else { s with lastButton := currentButton }

/-- The round has come to its end. -/
def roundOver (s : State) : Bool :=
  decide (21 < s.sumOpp) || decide (21 < s.sumPlayer) ||
    (decide (17 ≤ s.sumOpp) && !s.drawCard && s.choseAction)

/-- All cards are put back. -/
def newRound (s : State) : State :=
  { s with
    cardsAvailable := fun _ => true
    sumOpp := 0
    sumPlayer := 0
    choseAction := true
    posOpp := 0
    posPlayer := 0
    drawCard := true
    pc := .ended }

def afterOpp (s : State) : State := { s with pc := if s.drawCard then .drawPlayer else .actions }

def afterTop (s : State) : State :=
  if s.sumOpp < 17 ∧ s.choseAction = true then { s with pc := .drawOpp } else afterOpp s

/-- The opponent gets a card. -/
def dealOpp (s : State) (k : Fin 11) : State :=
  { s with
    cardsAvailable := update s.cardsAvailable k false
    posOpp := s.posOpp + 1
    cardsOpp := update s.cardsOpp s.posOpp (k.val + 1)
    sumOpp := s.sumOpp + (k.val + 1) }

/-- The player gets a card. -/
def dealPlayer (s : State) (j : Fin 11) : State :=
  { s with
    cardsAvailable := update s.cardsAvailable j false
    posPlayer := s.posPlayer + 1
    cardsPlayer := update s.cardsPlayer s.posPlayer (j.val + 1)
    sumPlayer := s.sumPlayer + (j.val + 1)
    drawCard := false
    choseAction := false
    pc := .actions }

/-- `if (action != last_action) start = ztimer_now(ZTIMER_MSEC)` -/
def restart (s : State) (now : UInt32) : State :=
  if s.action ≠ s.lastAction then { s with start := now, lastAction := s.action } else s

/-- The action has been shown for long enough. -/
def chosen (s : State) (now' : UInt32) : Bool := decide (1500 ≤ now' - s.start) && decide (0 < s.action)

def step (s : State) : Input → Option State
  | .button currentButton =>
    if s.pc = .top then
      let s := press s currentButton 4
      some (if roundOver s then newRound s else afterTop s)
    else none
  | .random r =>
    match s.pc with
    | .drawOpp => some (if s.cardsAvailable (card r) then afterOpp (dealOpp s (card r)) else s)
    | .drawPlayer => some (if s.cardsAvailable (card r) then dealPlayer s (card r) else s)
    | _ => none
  | .clock now now' =>
    if s.pc = .actions then
      let s := restart s now
      some (
        if chosen s now' then
          if s.action = 3 then { s with pc := .returned }
          else if s.action = 1 then { s with drawCard := false, choseAction := true, action := 0, pc := .top }
          else if s.action = 2 then { s with drawCard := true, choseAction := true, action := 0, pc := .top }
          else { s with action := 0, pc := .top }
        else { s with pc := .top })
    else none
  | .menu currentButton now now' =>
    if s.pc = .ended then
      let s := restart (press s currentButton 3) now
      some (
        if chosen s now' then
          if s.action = 1 then afterTop { s with action := 0 }
          else if s.action = 2 then { s with action := 0, pc := .returned }
          else s
        else s)
    else none

/-- The function when it enters its loop; the arrays are not initialised. -/
def start (cardsPlayer cardsOpp : Memory Nat) (now : UInt32) : State where
  pc := .top
  cardsAvailable := fun _ => true
  posPlayer := 0
  posOpp := 0
  cardsPlayer := cardsPlayer
  cardsOpp := cardsOpp
  sumOpp := 0
  sumPlayer := 0
  action := 0
  lastAction := 0
  lastButton := true
  drawCard := true
  choseAction := true
  start := now

/-- The cards of the player. -/
def State.hand (s : State) : List Nat := slice s.cardsPlayer 0 s.posPlayer

def State.handOpp (s : State) : List Nat := slice s.cardsOpp 0 s.posOpp

/-- **What the game relies on.** Cards were stored within the arrays only, no card was dealt twice,
and a drawing loop finds a card. -/
structure Sound (s : State) : Prop where
  within : s.posPlayer ≤ 6 ∧ s.posOpp ≤ 6
  distinct : (s.hand ++ s.handOpp).Nodup
  available : s.pc = .drawOpp ∨ s.pc = .drawPlayer → ∃ k, s.cardsAvailable k = true

/-- The player holds the cards from 1 to 6. -/
def HoldsSix (s : State) : Prop := ∀ v, 1 ≤ v → v ≤ 6 → v ∈ s.hand

/-- No card is dealt to a player who holds the cards from 1 to 6. -/
def NoSeventh (s : State) (e : Input) : Prop :=
  ∀ r, e = .random r → s.pc = .drawPlayer → s.cardsAvailable (card r) = true → ¬ HoldsSix s

/-! ## Distinct cards -/

theorem card_sum_le (t : Finset Nat) (hpos : ∀ v ∈ t, 1 ≤ v) : t.card * (t.card + 1) ≤ 2 * ∑ v ∈ t, v := by
  induction t using Finset.induction_on_max with
  | empty => simp
  | insert a t hmax ih =>
    have hnot : a ∉ t := fun ha => lt_irrefl _ (hmax a ha)
    -- all others lie between 1 and the largest
    have hsub : t ⊆ Finset.Ico 1 a := by
      intro v hv
      exact Finset.mem_Ico.mpr ⟨hpos v (Finset.mem_insert_of_mem hv), hmax v hv⟩
    have hcard := Finset.card_le_card hsub
    have hone := hpos a (Finset.mem_insert_self a t)
    have ih := ih fun v hv => hpos v (Finset.mem_insert_of_mem hv)
    rw [card_Ico] at hcard
    rw [Finset.card_insert_of_notMem hnot, Finset.sum_insert hnot]
    have hexp : (t.card + 1) * (t.card + 1 + 1) = t.card * (t.card + 1) + 2 * (t.card + 1) := by ring
    omega

theorem length_sum_le {l : List Nat} (hl : l.Nodup) (hpos : ∀ v ∈ l, 1 ≤ v) :
    l.length * (l.length + 1) ≤ 2 * l.sum := by
  have h := card_sum_le l.toFinset fun v hv => hpos v (mem_toFinset.mp hv)
  rw [toFinset_card_of_nodup hl, sum_toFinset _ hl, map_id'] at h
  exact h

theorem length_le_five {l : List Nat} (hl : l.Nodup) (hpos : ∀ v ∈ l, 1 ≤ v) (hsum : l.sum ≤ 16) :
    l.length ≤ 5 := by
  have h := length_sum_le hl hpos
  apply Nat.le_of_not_lt
  intro hlt
  have hmul : 6 * 7 ≤ l.length * (l.length + 1) := Nat.mul_le_mul hlt (Nat.succ_le_succ hlt)
  omega

theorem six_cards_iff {l : List Nat} (hl : l.Nodup) (hpos : ∀ v ∈ l, 1 ≤ v) (hsum : l.sum ≤ 21) :
    l.length ≤ 6 ∧ (l.length = 6 ↔ ∀ v, 1 ≤ v → v ≤ 6 → v ∈ l) := by
  have h := length_sum_le hl hpos
  have hle : l.length ≤ 6 := by
    apply Nat.le_of_not_lt
    intro hlt
    have hmul : 7 * 8 ≤ l.length * (l.length + 1) := Nat.mul_le_mul hlt (Nat.succ_le_succ hlt)
    omega
  refine ⟨hle, fun hlen v h1 h6 => ?_, fun hall => Nat.le_antisymm hle ?_⟩
  · -- a card that is missing would be a seventh
    apply Classical.byContradiction
    intro hnot
    have hmore := length_sum_le (nodup_cons.mpr ⟨hnot, hl⟩) (fun x hx => by
      rcases mem_cons.mp hx with rfl | hx
      · exact h1
      · exact hpos x hx)
    rw [length_cons, sum_cons, hlen] at hmore
    omega
  · have hsub : Finset.Icc 1 6 ⊆ l.toFinset := by
      intro v hv
      obtain ⟨h1, h6⟩ := Finset.mem_Icc.mp hv
      exact mem_toFinset.mpr (hall v h1 h6)
    have hcard := Finset.card_le_card hsub
    rw [Nat.card_Icc, toFinset_card_of_nodup hl] at hcard
    omega

theorem exists_card {l : List Nat} (hl : l.Nodup) (hsum : l.sum < 66) : ∃ k : Fin 11, k.val + 1 ∉ l := by
  apply Classical.byContradiction
  intro hnone
  have hsub : Finset.Icc 1 11 ⊆ l.toFinset := by
    intro v hv
    obtain ⟨h1, h11⟩ := Finset.mem_Icc.mp hv
    apply Classical.byContradiction
    intro hnot
    refine hnone ⟨⟨v - 1, by omega⟩, fun hmem => hnot (mem_toFinset.mpr ?_)⟩
    have hv : v - 1 + 1 = v := by omega
    rw [← hv]
    exact hmem
  have hle := Finset.sum_le_sum_of_subset (f := fun v => v) hsub
  have hall : ∑ v ∈ Finset.Icc 1 11, v = 66 := by decide
  rw [hall, sum_toFinset _ hl, map_id'] at hle
  omega

/-! ## The invariant -/

variable {s s' : State}

/-- What is known of the cards wherever the function is. -/
structure Cards (s : State) : Prop where
  sumPlayer : s.sumPlayer = s.hand.sum
  sumOpp : s.sumOpp = s.handOpp.sum
  positive : ∀ v ∈ s.hand ++ s.handOpp, 1 ≤ v
  nodup : (s.hand ++ s.handOpp).Nodup
  available : ∀ k, s.cardsAvailable k = true ↔ k.val + 1 ∉ s.hand ++ s.handOpp
  posOpp : s.posOpp ≤ 6

/-- **The invariant.** The sums were looked at when a card is drawn. -/
structure Inv (s : State) : Prop where
  cards : Cards s
  drawOpp : s.pc = .drawOpp → s.sumOpp ≤ 16 ∧ s.sumPlayer ≤ 21
  drawPlayer : s.pc = .drawPlayer → s.sumOpp ≤ 27 ∧ s.sumPlayer ≤ 21
  ended : s.pc = .ended → s.sumOpp = 0 ∧ s.sumPlayer = 0

theorem length_hand : s.hand.length = s.posPlayer := length_slice

theorem length_handOpp : s.handOpp.length = s.posOpp := length_slice

theorem slice_update {m : Memory Nat} {n x : Nat} : slice (update m n x) 0 (n + 1) = slice m 0 n ++ [x] := by
  have hholds : Holds (update m n x) 0 (slice m 0 n ++ [x]) := by
    rw [holds_append, length_slice, zero_add]
    refine ⟨holds_slice.congr fun i _ hi => update_of_ne ?_ _ _, ?_, holds_nil⟩
    · rw [length_slice] at hi
      omega
    · exact update_self n x m
  have := hholds.slice_eq
  rwa [length_append, length_slice] at this

theorem Cards.of_eq (h : Cards s) (havail : s'.cardsAvailable = s.cardsAvailable) (hhand : s'.hand = s.hand)
    (hopp : s'.handOpp = s.handOpp) (hsumPlayer : s'.sumPlayer = s.sumPlayer) (hsumOpp : s'.sumOpp = s.sumOpp) :
    Cards s' where
  sumPlayer := by rw [hsumPlayer, hhand]; exact h.sumPlayer
  sumOpp := by rw [hsumOpp, hopp]; exact h.sumOpp
  positive := by rw [hhand, hopp]; exact h.positive
  nodup := by rw [hhand, hopp]; exact h.nodup
  available := by rw [havail, hhand, hopp]; exact h.available
  posOpp := by rw [← length_handOpp, hopp, length_handOpp]; exact h.posOpp

theorem Inv.exists_available (h : Inv s) (hpc : s.pc = .drawOpp ∨ s.pc = .drawPlayer) :
    ∃ k, s.cardsAvailable k = true := by
  have hsum : (s.hand ++ s.handOpp).sum < 66 := by
    rw [sum_append, ← h.cards.sumPlayer, ← h.cards.sumOpp]
    rcases hpc with hpc | hpc
    · have := h.drawOpp hpc
      omega
    · have := h.drawPlayer hpc
      omega
  obtain ⟨k, hk⟩ := exists_card h.cards.nodup hsum
  exact ⟨k, (h.cards.available k).mpr hk⟩

theorem Inv.sound_iff (h : Inv s) : Sound s ↔ s.posPlayer ≤ 6 :=
  ⟨fun hs => hs.within.1, fun hpos => ⟨⟨hpos, h.cards.posOpp⟩, h.cards.nodup, h.exists_available⟩⟩

/-! ## Dealing -/

theorem Cards.dealOpp (h : Cards s) (hsum : s.sumOpp ≤ 16) {k : Fin 11} (hk : s.cardsAvailable k = true) :
    Cards (dealOpp s k) := by
  have hnot := (h.available k).mp hk
  have hopp : (Blackjack.dealOpp s k).handOpp = s.handOpp ++ [k.val + 1] := slice_update
  have hhand : (Blackjack.dealOpp s k).hand = s.hand := rfl
  have hlen : s.handOpp.length ≤ 5 := length_le_five (nodup_append.mp h.nodup).2.1
    (fun v hv => h.positive v (mem_append_right _ hv)) (h.sumOpp ▸ hsum)
  rw [length_handOpp] at hlen
  refine ⟨h.sumPlayer, ?_, ?_, ?_, fun i => ?_, succ_le_succ hlen⟩
  · rw [hopp, sum_append, sum_singleton, ← h.sumOpp]
    rfl
  · rw [hhand, hopp, ← append_assoc]
    intro v hv
    rcases mem_append.mp hv with hv | hv
    · exact h.positive v hv
    · rw [mem_singleton.mp hv]
      exact succ_pos _
  · rw [hhand, hopp, ← append_assoc]
    exact nodup_append.mpr ⟨h.nodup, nodup_singleton _, fun v hv x hx hvx =>
      hnot (by rw [← mem_singleton.mp hx, ← hvx]; exact hv)⟩
  · rw [hhand, hopp, ← append_assoc, mem_append, not_or, ← h.available i, mem_singleton]
    show update s.cardsAvailable k false i = true ↔ _
    by_cases hik : i = k
    · subst hik
      simp
    · rw [update_of_ne hik]
      refine ⟨fun hi => ⟨hi, fun heq => hik (Fin.ext (succ.inj heq))⟩, fun hi => hi.1⟩

theorem Cards.dealPlayer (h : Cards s) {j : Fin 11} (hj : s.cardsAvailable j = true) : Cards (dealPlayer s j) := by
  have hnot := (h.available j).mp hj
  have hhand : (Blackjack.dealPlayer s j).hand = s.hand ++ [j.val + 1] := slice_update
  have hopp : (Blackjack.dealPlayer s j).handOpp = s.handOpp := rfl
  have hperm : ((s.hand ++ [j.val + 1]) ++ s.handOpp).Perm ((j.val + 1) :: (s.hand ++ s.handOpp)) := by
    rw [append_assoc]
    exact perm_middle
  refine ⟨?_, h.sumOpp, ?_, ?_, fun i => ?_, h.posOpp⟩
  · rw [hhand, sum_append, sum_singleton, ← h.sumPlayer]
    rfl
  · rw [hhand, hopp]
    intro v hv
    rcases mem_cons.mp (hperm.mem_iff.mp hv) with rfl | hv
    · exact succ_pos _
    · exact h.positive v hv
  · rw [hhand, hopp, hperm.nodup_iff]
    exact nodup_cons.mpr ⟨hnot, h.nodup⟩
  · rw [hhand, hopp, hperm.mem_iff, mem_cons, not_or, ← h.available i]
    show update s.cardsAvailable j false i = true ↔ _
    by_cases hij : i = j
    · subst hij
      simp
    · rw [update_of_ne hij]
      refine ⟨fun hi => ⟨fun heq => hij (Fin.ext (succ.inj heq)), hi⟩, fun hi => hi.2⟩

/-! ## Steps -/

theorem press_frame (s : State) (b : Bool) (n : Nat) : (press s b n).pc = s.pc ∧ (press s b n).sumOpp = s.sumOpp ∧
    (press s b n).sumPlayer = s.sumPlayer ∧ (press s b n).posPlayer = s.posPlayer := by
  unfold press
  split <;> exact ⟨rfl, rfl, rfl, rfl⟩

theorem restart_frame (s : State) (now : UInt32) : (restart s now).pc = s.pc ∧ (restart s now).sumOpp = s.sumOpp ∧
    (restart s now).sumPlayer = s.sumPlayer ∧ (restart s now).posPlayer = s.posPlayer := by
  unfold restart
  split <;> exact ⟨rfl, rfl, rfl, rfl⟩

theorem Cards.press (h : Cards s) (b : Bool) (n : Nat) : Cards (press s b n) := by
  unfold Blackjack.press
  split
  · exact h.of_eq rfl rfl rfl rfl rfl
  · exact h.of_eq rfl rfl rfl rfl rfl

theorem Cards.restart (h : Cards s) (now : UInt32) : Cards (restart s now) := by
  unfold Blackjack.restart
  split
  · exact h.of_eq rfl rfl rfl rfl rfl
  · exact h

theorem inv_newRound : Inv (newRound s) where
  cards := {
    sumPlayer := rfl
    sumOpp := rfl
    positive := fun _ hv => absurd hv not_mem_nil
    nodup := nodup_nil
    available := fun _ => ⟨fun _ => not_mem_nil, fun _ => rfl⟩
    posOpp := zero_le _ }
  drawOpp := fun h => absurd h (by decide : Pc.ended ≠ .drawOpp)
  drawPlayer := fun h => absurd h (by decide : Pc.ended ≠ .drawPlayer)
  ended := fun _ => ⟨rfl, rfl⟩

theorem Cards.afterOpp (h : Cards s) (hsums : s.sumOpp ≤ 27 ∧ s.sumPlayer ≤ 21) : Inv (afterOpp s) := by
  have hpc : (Blackjack.afterOpp s).pc = .drawPlayer ∨ (Blackjack.afterOpp s).pc = .actions := by
    unfold Blackjack.afterOpp
    cases s.drawCard
    · exact .inr rfl
    · exact .inl rfl
  refine ⟨h.of_eq rfl rfl rfl rfl rfl, fun hdraw => ?_, fun _ => hsums, fun hover => ?_⟩
  · rcases hpc with hpc | hpc <;> exact absurd (hpc.symm.trans hdraw) (by decide)
  · rcases hpc with hpc | hpc <;> exact absurd (hpc.symm.trans hover) (by decide)

theorem Cards.afterTop (h : Cards s) (hsums : s.sumOpp ≤ 21 ∧ s.sumPlayer ≤ 21) : Inv (afterTop s) := by
  unfold Blackjack.afterTop
  split
  · rename_i hdraw
    exact ⟨h.of_eq rfl rfl rfl rfl rfl, fun _ => ⟨le_of_lt_succ hdraw.1, hsums.2⟩,
      fun hpc => absurd hpc (by decide : Pc.drawOpp ≠ .drawPlayer),
      fun hpc => absurd hpc (by decide : Pc.drawOpp ≠ .ended)⟩
  · exact h.afterOpp ⟨by omega, hsums.2⟩

theorem Cards.inv (h : Cards s) (havail : s'.cardsAvailable = s.cardsAvailable) (hhand : s'.hand = s.hand)
    (hopp : s'.handOpp = s.handOpp) (hsumPlayer : s'.sumPlayer = s.sumPlayer) (hsumOpp : s'.sumOpp = s.sumOpp)
    (hpc : s'.pc = .actions ∨ s'.pc = .top ∨ s'.pc = .returned) : Inv s' := by
  refine ⟨h.of_eq havail hhand hopp hsumPlayer hsumOpp, fun h' => ?_, fun h' => ?_, fun h' => ?_⟩
  all_goals
    rcases hpc with hpc | hpc | hpc
    all_goals exact absurd (hpc.symm.trans h') (by decide)

theorem sums_of_not_roundOver (h : roundOver s = false) : s.sumOpp ≤ 21 ∧ s.sumPlayer ≤ 21 := by
  simp only [roundOver, Bool.or_eq_false_iff, decide_eq_false_iff_not, not_lt] at h
  exact h.1

/-- **Every step keeps the invariant.** -/
theorem Inv.step {e : Input} (h : Inv s) (hs : step s e = some s') : Inv s' := by
  cases e with
  | button b =>
    simp only [Blackjack.step, Option.ite_none_right_eq_some, Option.some.injEq] at hs
    obtain ⟨-, rfl⟩ := hs
    have hcards := h.cards.press b 4
    split
    · exact inv_newRound
    · rename_i hover
      exact hcards.afterTop (sums_of_not_roundOver (Bool.eq_false_iff.mpr hover))
  | random r =>
    rw [Blackjack.step] at hs
    split at hs
    · rename_i hpc
      cases hs
      have hsums := h.drawOpp hpc
      split
      · rename_i hk
        refine (h.cards.dealOpp hsums.1 hk).afterOpp ⟨?_, hsums.2⟩
        show s.sumOpp + ((card r).val + 1) ≤ 27
        omega
      · exact h
    · cases hs
      split
      · rename_i hj
        exact (h.cards.dealPlayer hj).inv rfl rfl rfl rfl rfl (.inl rfl)
      · exact h
    · exact absurd hs (by simp)
  | clock now now' =>
    simp only [Blackjack.step, Option.ite_none_right_eq_some, Option.some.injEq] at hs
    obtain ⟨-, rfl⟩ := hs
    have hcards := h.cards.restart now
    split
    · split
      · exact hcards.inv rfl rfl rfl rfl rfl (.inr (.inr rfl))
      · split
        · exact hcards.inv rfl rfl rfl rfl rfl (.inr (.inl rfl))
        · split
          · exact hcards.inv rfl rfl rfl rfl rfl (.inr (.inl rfl))
          · exact hcards.inv rfl rfl rfl rfl rfl (.inr (.inl rfl))
    · exact hcards.inv rfl rfl rfl rfl rfl (.inr (.inl rfl))
  | menu b now now' =>
    simp only [Blackjack.step, Option.ite_none_right_eq_some, Option.some.injEq] at hs
    obtain ⟨hpc, rfl⟩ := hs
    have hcards := (h.cards.press b 3).restart now
    obtain ⟨hpc1, hopp1, hplayer1, -⟩ := press_frame s b 3
    obtain ⟨hpc2, hopp2, hplayer2, -⟩ := restart_frame (press s b 3) now
    have hsums : (restart (press s b 3) now).sumOpp = 0 ∧ (restart (press s b 3) now).sumPlayer = 0 := by
      rw [hopp2, hopp1, hplayer2, hplayer1]
      exact h.ended hpc
    have hpc' : (restart (press s b 3) now).pc = .ended := hpc2.trans (hpc1.trans hpc)
    have hstay : Inv (restart (press s b 3) now) :=
      ⟨hcards, fun h' => absurd (hpc'.symm.trans h') (by decide), fun h' => absurd (hpc'.symm.trans h') (by decide),
        fun _ => hsums⟩
    split
    · split
      · -- the next round begins
        refine Cards.afterTop (hcards.of_eq rfl rfl rfl rfl rfl) ⟨?_, ?_⟩
        · rw [hsums.1]
          exact zero_le _
        · rw [hsums.2]
          exact zero_le _
      · split
        · exact hcards.inv rfl rfl rfl rfl rfl (.inr (.inr rfl))
        · exact hstay
    · exact hstay

/-! ## The seventh card -/

@[simp] theorem afterTop_posPlayer : (afterTop s).posPlayer = s.posPlayer := by
  unfold afterTop
  split <;> rfl

/-- **A card is stored behind the array exactly if it is the player's seventh**, and it is the
seventh exactly if he holds the cards from 1 to 6. -/
theorem Inv.posPlayer_iff {e : Input} (h : Inv s) (hpos : s.posPlayer ≤ 6) (hs : Blackjack.step s e = some s') :
    NoSeventh s e ↔ s'.posPlayer ≤ 6 := by
  cases e with
  | button b =>
    simp only [Blackjack.step, Option.ite_none_right_eq_some, Option.some.injEq] at hs
    obtain ⟨-, rfl⟩ := hs
    refine ⟨fun _ => ?_, fun _ r hr => absurd hr (by simp)⟩
    split
    · exact zero_le _
    · rw [afterTop_posPlayer, (press_frame s b 4).2.2.2]
      exact hpos
  | random r =>
    rw [Blackjack.step] at hs
    split at hs
    · rename_i hpc
      cases hs
      refine ⟨fun _ => ?_, fun _ _ _ hpc' => absurd (hpc.symm.trans hpc') (by decide)⟩
      split
      · exact hpos
      · exact hpos
    · rename_i hpc
      cases hs
      have hhand := (nodup_append.mp h.cards.nodup).1
      obtain ⟨-, hsix⟩ := six_cards_iff hhand (fun v hv => h.cards.positive v (mem_append_left _ hv))
        (h.cards.sumPlayer ▸ (h.drawPlayer hpc).2)
      rw [length_hand] at hsix
      by_cases hj : s.cardsAvailable (card r) = true
      · rw [if_pos hj]
        have hmeets : NoSeventh s (.random r) ↔ ¬ HoldsSix s := by
          constructor
          · intro hno
            exact hno r rfl hpc hj
          · intro hnot r' hr' _ _
            exact hnot
        rw [hmeets, HoldsSix, ← hsix]
        show ¬ s.posPlayer = 6 ↔ s.posPlayer + 1 ≤ 6
        omega
      · rw [if_neg hj]
        refine ⟨fun _ => hpos, fun _ r' hr' _ hj' => ?_⟩
        obtain rfl := Input.random.inj hr'
        exact absurd hj' hj
    · exact absurd hs (by simp)
  | clock now now' =>
    simp only [Blackjack.step, Option.ite_none_right_eq_some, Option.some.injEq] at hs
    obtain ⟨-, rfl⟩ := hs
    refine ⟨fun _ => ?_, fun _ r hr => absurd hr (by simp)⟩
    have hpos' : (restart s now).posPlayer ≤ 6 := by
      rw [(restart_frame s now).2.2.2]
      exact hpos
    split
    · split
      · exact hpos'
      · split
        · exact hpos'
        · split <;> exact hpos'
    · exact hpos'
  | menu b now now' =>
    simp only [Blackjack.step, Option.ite_none_right_eq_some, Option.some.injEq] at hs
    obtain ⟨-, rfl⟩ := hs
    refine ⟨fun _ => ?_, fun _ r hr => absurd hr (by simp)⟩
    have hpos' : (restart (press s b 3) now).posPlayer ≤ 6 := by
      rw [(restart_frame _ now).2.2.2, (press_frame s b 3).2.2.2]
      exact hpos
    split
    · split
      · rw [afterTop_posPlayer]
        exact hpos'
      · split <;> exact hpos'
    · exact hpos'

/-! ## Runs -/

theorem inv_start (cardsPlayer cardsOpp : Memory Nat) (now : UInt32) : Inv (start cardsPlayer cardsOpp now) where
  cards := {
    sumPlayer := rfl
    sumOpp := rfl
    positive := fun _ hv => absurd hv not_mem_nil
    nodup := nodup_nil
    available := fun _ => ⟨fun _ => not_mem_nil, fun _ => rfl⟩
    posOpp := zero_le _ }
  drawOpp := fun h => absurd h (by decide : Pc.top ≠ .drawOpp)
  drawPlayer := fun h => absurd h (by decide : Pc.top ≠ .drawPlayer)
  ended := fun h => absurd h (by decide : Pc.top ≠ .ended)

/-- **The game is sound in every round exactly as long as no card is dealt to a player who holds the
cards from 1 to 6**, whatever the arrays held, the buttons and the random numbers are. -/
theorem blackjack_sound_iff (cardsPlayer cardsOpp : Memory Nat) (now : UInt32) (es : List Input) :
    Along step NoSeventh (start cardsPlayer cardsOpp now) es ↔
      Always step Sound (start cardsPlayer cardsOpp now) es := by
  have hinv := inv_start cardsPlayer cardsOpp now
  refine along_iff_always (I := Inv) ?_ (fun s e s' h _ _ hs => h.step hs) es hinv
    (hinv.sound_iff.mpr (Nat.zero_le _))
  intro s e s' h hsound hs
  rw [(h.step hs).sound_iff]
  exact h.posPlayer_iff hsound.within.1 hs

/-- The player asks for a card: two presses of the button, and the time it takes. -/
def ask : List Input :=
  [.clock 0 0, .button false, .clock 0 0, .button true, .clock 0 0, .button false, .clock 0 1500, .button true]

/-- The opponent gets the cards 11 and 7, the player those from 1 to 6, and asks for another one. -/
def sevenCards : List Input :=
  [.button true, .random 10, .random 0] ++ ask ++ [.random 6, .random 1] ++ ask ++ [.random 2] ++ ask ++
    [.random 3] ++ ask ++ [.random 4] ++ ask ++ [.random 5] ++ ask ++ [.random 7]

/-- His seventh card is stored behind the array. -/
theorem not_blackjack_sound : ∃ s, run step (start (fun _ => 0) (fun _ => 0) 0) sevenCards = some s ∧
    s.hand = [1, 2, 3, 4, 5, 6, 8] ∧ ¬ Always step Sound (start (fun _ => 0) (fun _ => 0) 0) sevenCards := by
  have hrun : (run step (start (fun _ => 0) (fun _ => 0) 0) sevenCards).any
      (fun s => s.hand = [1, 2, 3, 4, 5, 6, 8]) = true := by decide +kernel
  obtain ⟨s, hs, hhand⟩ := (Option.any_eq_true _ _).mp hrun
  have hhand := of_decide_eq_true hhand
  refine ⟨s, hs, hhand, fun hsound => ?_⟩
  have hle := (hsound.last hs).within.1
  rw [← length_hand, hhand] at hle
  exact absurd hle (by decide)

end Riot.Games.Blackjack
