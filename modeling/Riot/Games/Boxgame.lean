import Riot.Lib.Decimal
import Riot.Lib.Runs

/-!
# The high scores of the box game

`boxgame` of the game collection loads three high scores from a file when it starts, and stores them
there with `_tee` at the end of every game. The buffer that the file is read into is not initialised,
and `sscanf` reads on behind what was read. The file is opened without truncation: what is written
replaces the start of what there was.
-/

namespace Riot.Games.Boxgame

open Riot.Lib List Option Nat Int

def INT_MAX : Int := 2 ^ 31 - 1

def INT_MIN : Int := -2 ^ 31

structure Highscores where
  highscore1 : Int
  highscore2 : Int
  highscore3 : Int
deriving DecidableEq

/-! ## `sprintf` and `sscanf` -/

/-- What `%d` writes. -/
def formatInt (i : Int) : List Char :=
  if i < 0 then '-' :: Nat.toDigits 10 i.natAbs else Nat.toDigits 10 i.natAbs

/-- `sprintf(output_str, "%d-%d-%d", highscore_1, highscore_2, highscore_3)` -/
def outputStr (h : Highscores) : List Char :=
  formatInt h.highscore1 ++ '-' :: (formatInt h.highscore2 ++ '-' :: formatInt h.highscore3)

def isSpace (c : Char) : Bool := c.toNat = 32 || (9 ≤ c.toNat && c.toNat ≤ 13)

/-- What `%d` reads. -/
inductive Scan where
  /-- It goes on behind the buffer, or the number does not fit. -/
  | undefined
  /-- There is no number. -/
  | failure
  | value (i : Int) (rest : List Char)

def scanInt (bytes : List Char) : Scan :=
  match bytes.dropWhile isSpace with
  | [] => .undefined
  | c :: cs =>
    let number := if c = '-' ∨ c = '+' then cs else c :: cs
    let digits := number.takeWhile Char.isDigit
    let rest := number.dropWhile Char.isDigit
    let n : Int := Nat.ofDigitChars 10 digits 0
    let i := if c = '-' then -n else n
    if rest = [] then .undefined
    else if digits = [] then .failure
    else if INT_MIN ≤ i ∧ i ≤ INT_MAX then .value i rest
    else .undefined

/-- `sscanf(buffer, "%d-%d-%d", &highscore_1, &highscore_2, &highscore_3)` -/
def scanHighscores (bytes : List Char) (h : Highscores) : Option Highscores :=
  match scanInt bytes with
  | .undefined => none
  | .failure => some h
  | .value highscore1 bytes =>
    let h := { h with highscore1 := highscore1 }
    if bytes.head? = some '-' then
      match scanInt bytes.tail with
      | .undefined => none
      | .failure => some h
      | .value highscore2 bytes =>
        let h := { h with highscore2 := highscore2 }
        if bytes.head? = some '-' then
          match scanInt bytes.tail with
          | .undefined => none
          | .failure => some h
          | .value highscore3 _ => some { h with highscore3 := highscore3 }
        else some h
    else some h

/-! ## The game -/

/-- The start of `boxgame`. The file may be missing, and `buffer` is not initialised. -/
def load (file : Option (List Char)) (buffer : List Char) : Option Highscores :=
  match file with
  | none => some ⟨0, 0, 0⟩
  | some file =>
    let bytesRead := file.take buffer.length
    if bytesRead.length > 0 then
      scanHighscores (bytesRead ++ buffer.drop bytesRead.length) ⟨0, 0, 0⟩
    else some ⟨0, 0, 0⟩

/-- What `boxgame` does with the score of a finished game. -/
def insert (h : Highscores) (potHighscore : Int) : Highscores :=
  if potHighscore > h.highscore1 then ⟨potHighscore, h.highscore1, h.highscore2⟩
  else if potHighscore > h.highscore2 then ⟨h.highscore1, potHighscore, h.highscore2⟩
  else if potHighscore > h.highscore3 then ⟨h.highscore1, h.highscore2, potHighscore⟩
  else h

def tee (file : Option (List Char)) (str : List Char) : List Char := str ++ (file.getD []).drop str.length

/-- The file, the variables of `boxgame`, unless they have no defined values, and the scores of the games
that were finished so far. -/
structure World where
  file : Option (List Char)
  highscores : Option Highscores
  scores : List Int
deriving DecidableEq

/-- The first start of the game, without a file. -/
def World.init : World := ⟨none, some ⟨0, 0, 0⟩, []⟩

inductive Event where
  | start (buffer : List Char)
  | finish (score : Int)
deriving DecidableEq

def step (w : World) : Event → Option World
  | .start buffer => if buffer.length = 40 then some { w with highscores := load w.file buffer } else none
  | .finish score =>
    if 0 ≤ score ∧ score ≤ INT_MAX then
      some
        { file := w.highscores.elim w.file fun h => some (tee w.file (outputStr (insert h score)))
          highscores := w.highscores.map fun h => insert h score
          scores := score :: w.scores }
    else none

/-! ## What should hold -/

/-- The three largest of the scores, in descending order. -/
def topThree (scores : List Int) : Highscores :=
  match scores.insertionSort (· ≥ ·) with
  | [] => ⟨0, 0, 0⟩
  | [a] => ⟨a, 0, 0⟩
  | [a, b] => ⟨a, b, 0⟩
  | a :: b :: c :: _ => ⟨a, b, c⟩

/-- The game has the three largest scores so far, and they are what is stored. -/
structure Persistent (w : World) : Prop where
  highscores : w.highscores = some (topThree w.scores)
  file : w.file = if w.scores = [] then none else some (outputStr (topThree w.scores))

/-- The bytes of the buffer behind the text. -/
def behind (w : World) (buffer : List Char) : List Char := buffer.drop (w.file.getD []).length

/-- What is behind the text does not go on with the last number: the next byte is no digit, or the
last number is 0 and only zeros follow, and there is a byte in the buffer that is no digit. -/
def EndsText (w : World) : Event → Prop
  | .start buffer =>
    w.scores = [] ∨
      (behind w buffer).dropWhile Char.isDigit ≠ [] ∧
        ∀ c ∈ (behind w buffer).takeWhile Char.isDigit, (topThree w.scores).highscore3 = 0 ∧ c = '0'
  | .finish _ => True

variable {n : Nat} {a b c x : Int} {h h' : Highscores} {w w' : World} {rest tail digits : List Char} {scores : List Int}

/-! ## Numbers as text -/

theorem isDigit_toNat {d : Char} : d.isDigit = true ↔ 48 ≤ d.toNat ∧ d.toNat ≤ 57 := Char.isDigit_iff_toNat

theorem isDigit_plain {d : Char} (hd : d.isDigit = true) : isSpace d = false ∧ d ≠ '-' ∧ d ≠ '+' := by
  rw [isDigit_toNat] at hd
  refine ⟨?_, ?_, ?_⟩
  · unfold isSpace
    rw [Bool.or_eq_false_iff, Bool.and_eq_false_iff]
    refine ⟨decide_eq_false (by omega), .inr (decide_eq_false (by omega))⟩
  · rintro rfl
    exact absurd hd (by decide)
  · rintro rfl
    exact absurd hd (by decide)

theorem scanInt_toDigits (n : Nat) (rest : List Char) : scanInt (toDigits 10 n ++ rest) =
      if rest.dropWhile Char.isDigit = [] then .undefined
      else if ((ofDigitChars 10 (rest.takeWhile Char.isDigit) n : Nat) : Int) ≤ INT_MAX then
        .value (ofDigitChars 10 (rest.takeWhile Char.isDigit) n : Nat) (rest.dropWhile Char.isDigit)
      else .undefined := by
  have hall := isDigit_toDigits (n := n)
  have htake := @takeWhile_append_of_pos _ _ _ rest hall
  have hdrop := @dropWhile_append_of_pos _ _ _ rest hall
  have hvalue : ofDigitChars 10 (toDigits 10 n ++ rest.takeWhile Char.isDigit) 0 =
      ofDigitChars 10 (rest.takeWhile Char.isDigit) n := by
    rw [ofDigitChars_append, ofDigitChars_ten_toDigits]
  obtain ⟨d, ds, hds⟩ := exists_cons_of_ne_nil (toDigits_ne_nil (n := n) (b := 10))
  obtain ⟨hspace, hminus, hplus⟩ := isDigit_plain (hall d (by rw [hds]; simp))
  rw [hds] at htake hdrop hvalue ⊢
  unfold scanInt
  rw [cons_append, dropWhile_cons, if_neg (by rw [hspace]; simp)]
  dsimp only
  have hsign : ¬ (d = '-' ∨ d = '+') := by simp [hminus, hplus]
  rw [if_neg hsign, ← cons_append, htake, hdrop, hvalue, if_neg hminus]
  by_cases hrest : rest.dropWhile Char.isDigit = []
  · rw [if_pos hrest, if_pos hrest]
  · rw [if_neg hrest, if_neg hrest, if_neg (by simp)]
    have hmin : INT_MIN ≤ ((ofDigitChars 10 (rest.takeWhile Char.isDigit) n : Nat) : Int) := by
      unfold INT_MIN
      omega
    by_cases hmax : ((ofDigitChars 10 (rest.takeWhile Char.isDigit) n : Nat) : Int) ≤ INT_MAX
    · rw [if_pos ⟨hmin, hmax⟩, if_pos hmax]
    · rw [if_neg fun h => hmax h.2, if_neg hmax]

theorem formatInt_of_nonneg (h : 0 ≤ a) : ∃ n : Nat, a = n ∧ formatInt a = toDigits 10 n := by
  refine ⟨a.natAbs, by omega, ?_⟩
  unfold formatInt
  rw [if_neg (by omega)]

theorem scanInt_dash (h0 : 0 ≤ a) (hmax : a ≤ INT_MAX) : scanInt (formatInt a ++ '-' :: rest) = .value a ('-' :: rest) := by
  obtain ⟨n, rfl, hn⟩ := formatInt_of_nonneg h0
  have hdrop : ('-' :: rest).dropWhile Char.isDigit = '-' :: rest := rfl
  have htake : ('-' :: rest).takeWhile Char.isDigit = [] := rfl
  rw [hn, scanInt_toDigits, hdrop, htake, if_neg (by simp), ofDigitChars_nil, if_pos hmax]

theorem ofDigitChars_eq_iff (hdigits : ∀ d ∈ digits, d.isDigit = true) :
    ofDigitChars 10 digits n = n ↔ ∀ d ∈ digits, n = 0 ∧ d = '0' := by
  have hzero : ∀ ds : List Char, (∀ d ∈ ds, d.isDigit = true) →
      (ofDigitChars 10 ds 0 = 0 ↔ ∀ d ∈ ds, d = '0') := by
    intro ds
    induction ds with
    | nil => simp
    | cons d ds ih =>
      intro hds
      have hd := isDigit_toNat.mp (hds d (by simp))
      have hchar : d.toNat - '0'.toNat = 0 ↔ d = '0' := by
        constructor
        · intro h
          have h48 : d.toNat = '0'.toNat := by
            change d.toNat - 48 = 0 at h
            change d.toNat = 48
            omega
          exact Char.toNat_inj.mp h48
        · rintro rfl
          rfl
      rw [ofDigitChars_cons, ofDigitChars_eq_ofDigitChars_zero, mul_zero, zero_add, forall_mem_cons,
        ← ih fun e he => hds e (by simp [he]), ← hchar, Nat.add_eq_zero_iff]
      have hpos : 0 < 10 ^ ds.length := Nat.pow_pos (by omega)
      rw [Nat.mul_eq_zero]
      constructor
      · rintro ⟨h | h, h'⟩
        · omega
        · exact ⟨h, h'⟩
      · rintro ⟨h, h'⟩
        exact ⟨.inr h, h'⟩
  rcases digits with - | ⟨d, ds⟩
  · simp
  · rw [ofDigitChars_eq_ofDigitChars_zero]
    have hpow : 10 ≤ 10 ^ (d :: ds).length := by
      rw [length_cons, pow_succ]
      have hpos : 0 < 10 ^ ds.length := Nat.pow_pos (by omega)
      omega
    constructor
    · intro heq
      have hn : n = 0 := by
        by_contra hn
        have hmul : 10 * n ≤ 10 ^ (d :: ds).length * n := mul_le_mul_right n hpow
        omega
      rw [hn, mul_zero, zero_add] at heq
      exact fun e he => ⟨hn, (hzero _ hdigits).mp heq e he⟩
    · intro hall
      have hn := (hall d (by simp)).1
      rw [hn, mul_zero, zero_add]
      exact (hzero _ hdigits).mpr fun e he => (hall e he).2

/-- An `int` that is not negative. -/
def Fits (i : Int) : Prop := 0 ≤ i ∧ i ≤ INT_MAX

structure AllFit (h : Highscores) : Prop where
  first : Fits h.highscore1
  second : Fits h.highscore2
  third : Fits h.highscore3

theorem outputStr_append (h : Highscores) (tail : List Char) : outputStr h ++ tail =
      formatInt h.highscore1 ++ '-' :: (formatInt h.highscore2 ++ '-' :: (formatInt h.highscore3 ++ tail)) := by
  unfold outputStr
  rw [append_assoc, cons_append, append_assoc, cons_append]

/-- **What is read back**: the same numbers, if what is behind the text leaves the last one alone. -/
theorem scanHighscores_iff (hfit : AllFit h) : scanHighscores (outputStr h ++ tail) h' = some h ↔
    tail.dropWhile Char.isDigit ≠ [] ∧ ∀ d ∈ tail.takeWhile Char.isDigit, h.highscore3 = 0 ∧ d = '0' := by
  obtain ⟨⟨h1, hmax1⟩, ⟨h2, hmax2⟩, ⟨h3, hmax3⟩⟩ := hfit
  rw [outputStr_append]
  unfold scanHighscores
  rw [scanInt_dash h1 hmax1]
  dsimp only
  rw [head?_cons, if_pos rfl, tail_cons, scanInt_dash h2 hmax2]
  dsimp only
  rw [head?_cons, if_pos rfl, tail_cons]
  obtain ⟨n, hn, htext⟩ := formatInt_of_nonneg h3
  rw [htext, scanInt_toDigits, hn]
  rw [hn] at hmax3
  have hdigits : ∀ d ∈ tail.takeWhile Char.isDigit, d.isDigit = true := all_eq_true.mp all_takeWhile
  have hvalue := ofDigitChars_eq_iff (n := n) hdigits
  by_cases hrest : tail.dropWhile Char.isDigit = []
  · rw [if_pos hrest]
    exact iff_of_false (by simp) fun hh => hh.1 hrest
  · rw [if_neg hrest]
    have hcast : (∀ d ∈ tail.takeWhile Char.isDigit, (n : Int) = 0 ∧ d = '0') ↔
        ∀ d ∈ tail.takeWhile Char.isDigit, n = 0 ∧ d = '0' := by
      simp only [natCast_eq_zero]
    rw [hcast, ← hvalue]
    by_cases hmax : ((ofDigitChars 10 (tail.takeWhile Char.isDigit) n : Nat) : Int) ≤ INT_MAX
    · rw [if_pos hmax]
      constructor
      · intro heq
        have hthird := congrArg Highscores.highscore3 (some.inj heq)
        rw [hn] at hthird
        exact ⟨hrest, ofNat_inj.mp hthird⟩
      · rintro ⟨-, heq⟩
        rw [heq, ← hn]
    · rw [if_neg hmax]
      refine iff_of_false (by simp) fun hh => hmax ?_
      rw [hh.2]
      exact hmax3

/-! ## Lengths -/

theorem length_formatInt_mono (ha : 0 ≤ a) (hab : a ≤ b) : (formatInt a).length ≤ (formatInt b).length := by
  obtain ⟨m, rfl, hm⟩ := formatInt_of_nonneg ha
  obtain ⟨n, rfl, hn⟩ := formatInt_of_nonneg (le_trans ha hab)
  rw [hm, hn, length_toDigits_le_iff (by omega) length_toDigits_pos]
  have hlt := (length_toDigits_le_iff (n := n) (b := 10) (by omega) length_toDigits_pos).mp le_rfl
  omega

theorem length_formatInt_le (ha : Fits a) : (formatInt a).length ≤ 10 := by
  obtain ⟨n, rfl, hn⟩ := formatInt_of_nonneg ha.1
  have hmax := ha.2
  rw [hn, length_toDigits_le_iff (by omega) (by omega)]
  unfold INT_MAX at hmax
  omega

theorem length_outputStr (h : Highscores) : (outputStr h).length =
    (formatInt h.highscore1).length + (formatInt h.highscore2).length + (formatInt h.highscore3).length + 2 := by
  unfold outputStr
  rw [length_append, length_cons, length_append, length_cons]
  omega

theorem length_outputStr_lt (hfit : AllFit h) : (outputStr h).length < 40 := by
  have h1 := length_formatInt_le hfit.first
  have h2 := length_formatInt_le hfit.second
  have h3 := length_formatInt_le hfit.third
  rw [length_outputStr]
  omega

/-! ## The three largest scores -/

theorem insert_of_sorted (hab : a ≥ b) (hbc : b ≥ c) : insert ⟨a, b, c⟩ x =
    if a ≤ x then ⟨x, a, b⟩ else if b ≤ x then ⟨a, x, b⟩ else if c ≤ x then ⟨a, b, x⟩ else ⟨a, b, c⟩ := by
  unfold insert
  dsimp only
  split_ifs <;> rw [Highscores.mk.injEq] <;> omega

theorem topThree_cons (hx : 0 ≤ x) (hscores : ∀ y ∈ scores, 0 ≤ y) :
    topThree (x :: scores) = insert (topThree scores) x := by
  unfold topThree
  rw [insertionSort_cons]
  have hsorted : (scores.insertionSort (· ≥ ·)).Pairwise (· ≥ ·) := pairwise_insertionSort _ _
  have hnonneg : ∀ y ∈ scores.insertionSort (· ≥ ·), 0 ≤ y := fun y hy => hscores y (mem_insertionSort _ |>.mp hy)
  generalize scores.insertionSort (· ≥ ·) = best at hsorted hnonneg ⊢
  match best, hsorted, hnonneg with
  | [], _, _ =>
    rw [insert_of_sorted (by omega) (by omega), if_pos hx]
    rfl
  | [a], _, hnonneg =>
    rw [insert_of_sorted (hnonneg a (by simp)) (by omega), if_pos hx]
    by_cases hax : x ≥ a
    · rw [if_pos hax, orderedInsert_cons_of_le _ _ hax]
    · rw [if_neg hax, orderedInsert_of_not_le _ _ hax]
      rfl
  | [a, b], hsorted, hnonneg =>
    rw [insert_of_sorted (rel_of_pairwise_cons hsorted (by simp)) (hnonneg b (by simp)), if_pos hx]
    by_cases hax : x ≥ a
    · rw [if_pos hax, orderedInsert_cons_of_le _ _ hax]
    · rw [if_neg hax, orderedInsert_of_not_le _ _ hax]
      by_cases hbx : x ≥ b
      · rw [if_pos hbx, orderedInsert_cons_of_le _ _ hbx]
      · rw [if_neg hbx, orderedInsert_of_not_le _ _ hbx]
        rfl
  | a :: b :: c :: best, hsorted, hnonneg =>
    rw [insert_of_sorted (rel_of_pairwise_cons hsorted (by simp))
      (rel_of_pairwise_cons (pairwise_cons.mp hsorted).2 (by simp))]
    by_cases hax : x ≥ a
    · rw [if_pos hax, orderedInsert_cons_of_le _ _ hax]
    · rw [if_neg hax, orderedInsert_of_not_le _ _ hax]
      by_cases hbx : x ≥ b
      · rw [if_pos hbx, orderedInsert_cons_of_le _ _ hbx]
      · rw [if_neg hbx, orderedInsert_of_not_le _ _ hbx]
        by_cases hcx : x ≥ c
        · rw [if_pos hcx, orderedInsert_cons_of_le _ _ hcx]
        · rw [if_neg hcx, orderedInsert_of_not_le _ _ hcx]

theorem topThree_of_forall {P : Int → Prop} (h0 : P 0) (hscores : ∀ y ∈ scores, P y) :
    P (topThree scores).highscore1 ∧ P (topThree scores).highscore2 ∧ P (topThree scores).highscore3 := by
  unfold topThree
  have hbest : ∀ y ∈ scores.insertionSort (· ≥ ·), P y := fun y hy => hscores y (mem_insertionSort _ |>.mp hy)
  generalize scores.insertionSort (· ≥ ·) = best at hbest ⊢
  match best, hbest with
  | [], _ => exact ⟨h0, h0, h0⟩
  | [a], hbest => exact ⟨hbest a (by simp), h0, h0⟩
  | [a, b], hbest => exact ⟨hbest a (by simp), hbest b (by simp), h0⟩
  | a :: b :: c :: best, hbest => exact ⟨hbest a (by simp), hbest b (by simp), hbest c (by simp)⟩

theorem allFit_topThree (hscores : ∀ y ∈ scores, Fits y) : AllFit (topThree scores) := by
  obtain ⟨h1, h2, h3⟩ := topThree_of_forall (P := Fits) ⟨le_refl 0, by decide⟩ hscores
  exact ⟨h1, h2, h3⟩

theorem length_outputStr_insert (hfit : AllFit h) (hab : h.highscore1 ≥ h.highscore2) (hbc : h.highscore2 ≥ h.highscore3) :
    (outputStr h).length ≤ (outputStr (insert h x)).length := by
  have hmono : h.highscore1 ≤ (insert h x).highscore1 ∧ h.highscore2 ≤ (insert h x).highscore2 ∧
      h.highscore3 ≤ (insert h x).highscore3 := by
    unfold insert
    split_ifs <;> refine ⟨?_, ?_, ?_⟩ <;> first | exact le_refl _ | (dsimp only; omega)
  have h1 := length_formatInt_mono hfit.first.1 hmono.1
  have h2 := length_formatInt_mono hfit.second.1 hmono.2.1
  have h3 := length_formatInt_mono hfit.third.1 hmono.2.2
  rw [length_outputStr, length_outputStr]
  omega

theorem topThree_sorted (hscores : ∀ y ∈ scores, 0 ≤ y) :
    (topThree scores).highscore1 ≥ (topThree scores).highscore2 ∧
      (topThree scores).highscore2 ≥ (topThree scores).highscore3 := by
  unfold topThree
  have hsorted : (scores.insertionSort (· ≥ ·)).Pairwise (· ≥ ·) := pairwise_insertionSort _ _
  have hnonneg : ∀ y ∈ scores.insertionSort (· ≥ ·), 0 ≤ y := fun y hy => hscores y (mem_insertionSort _ |>.mp hy)
  generalize scores.insertionSort (· ≥ ·) = best at hsorted hnonneg ⊢
  match best, hsorted, hnonneg with
  | [], _, _ => exact ⟨le_refl 0, le_refl 0⟩
  | [a], _, hnonneg => exact ⟨hnonneg a (by simp), le_refl 0⟩
  | [a, b], hsorted, hnonneg => exact ⟨rel_of_pairwise_cons hsorted (by simp), hnonneg b (by simp)⟩
  | a :: b :: c :: best, hsorted, _ =>
    exact ⟨rel_of_pairwise_cons hsorted (by simp),
      rel_of_pairwise_cons (pairwise_cons.mp hsorted).2 (by simp)⟩

/-! ## Starts and games -/

/-- The scores that a run has seen. -/
def ScoresFit (w : World) : Prop := ∀ y ∈ w.scores, Fits y

theorem step_scoresFit {e : Event} (hw : ScoresFit w) (hs : step w e = some w') : ScoresFit w' := by
  cases e with
  | start buffer =>
    obtain ⟨-, hs⟩ := ite_none_right_eq_some.mp hs
    cases hs
    exact hw
  | finish score =>
    obtain ⟨hscore, hs⟩ := ite_none_right_eq_some.mp hs
    cases hs
    intro y hy
    rcases mem_cons.mp hy with rfl | hy
    · exact hscore
    · exact hw y hy

/-- **Storing**: the old text is never longer than the new one. -/
theorem tee_eq (hw : ScoresFit w) (hp : Persistent w) : tee w.file (outputStr (insert (topThree w.scores) x)) =
    outputStr (insert (topThree w.scores) x) := by
  have hnonneg : ∀ y ∈ w.scores, 0 ≤ y := fun y hy => (hw y hy).1
  obtain ⟨hab, hbc⟩ := topThree_sorted hnonneg
  unfold tee
  rw [hp.file]
  by_cases hnil : w.scores = []
  · rw [if_pos hnil, getD_none, drop_nil, append_nil]
  · rw [if_neg hnil, getD_some,
      drop_eq_nil_of_le (length_outputStr_insert (allFit_topThree hw) hab hbc), append_nil]

/-- **Loading**: the text, and the buffer behind it. -/
theorem load_eq (hw : ScoresFit w) (hp : Persistent w) (hne : w.scores ≠ []) {buffer : List Char}
    (hlength : buffer.length = 40) :
    load w.file buffer = scanHighscores (outputStr (topThree w.scores) ++ behind w buffer) ⟨0, 0, 0⟩ := by
  have hlt := length_outputStr_lt (allFit_topThree hw)
  have hpos : 0 < (outputStr (topThree w.scores)).length := by
    rw [length_outputStr]
    omega
  have hfile := hp.file
  rw [if_neg hne] at hfile
  unfold load behind
  rw [hfile]
  dsimp only
  rw [take_of_length_le (by omega), if_pos hpos, getD_some]

/-- **One step, exactly.** -/
theorem step_persistent_iff {e : Event} (hw : ScoresFit w) (hp : Persistent w) (hs : step w e = some w') :
    EndsText w e ↔ Persistent w' := by
  have hnonneg : ∀ y ∈ w.scores, 0 ≤ y := fun y hy => (hw y hy).1
  cases e with
  | start buffer =>
    obtain ⟨hlength, hs⟩ := ite_none_right_eq_some.mp hs
    cases hs
    have hload : Persistent { w with highscores := load w.file buffer } ↔ load w.file buffer = some (topThree w.scores) :=
      ⟨fun h => h.highscores, fun h => ⟨h, hp.file⟩⟩
    rw [hload]
    by_cases hnil : w.scores = []
    · have hfile := hp.file
      refine iff_of_true (.inl hnil) ?_
      rw [hfile, hnil]
      rfl
    · rw [load_eq hw hp hnil hlength, scanHighscores_iff (allFit_topThree hw)]
      exact or_iff_right hnil
  | finish score =>
    obtain ⟨hscore, hs⟩ := ite_none_right_eq_some.mp hs
    cases hs
    refine iff_of_true trivial ⟨?_, ?_⟩
    · rw [hp.highscores, map_some, topThree_cons hscore.1 hnonneg]
    · rw [hp.highscores, elim_some, if_neg (by simp), topThree_cons hscore.1 hnonneg, tee_eq hw hp]

/-- **The high scores last, exactly** when the bytes that happen to be in the buffer do not go on with the
last number, at every start. -/
theorem persistent_iff (es : List Event) : Along step EndsText World.init es ↔ Always step Persistent World.init es :=
  along_iff_always (I := ScoresFit) (fun _ _ _ hw hp hs => step_persistent_iff hw hp hs)
    (fun _ _ _ hw _ _ hs => step_scoresFit hw hs) es (fun _ hy => absurd hy (by simp [World.init])) ⟨rfl, rfl⟩

/-- A buffer with the digit 9 where the text ends. -/
def leftover : List Char := List.replicate 6 'x' ++ '9' :: List.replicate 33 'x'

/-- After one game with the score 12 the third high score is 9. -/
theorem not_persistent : ∃ w, run step World.init [.start leftover, .finish 12, .start leftover] = some w ∧
    w.file = some (outputStr ⟨12, 0, 0⟩) ∧ w.highscores = some ⟨12, 0, 9⟩ ∧
    ¬ Always step Persistent World.init [.start leftover, .finish 12, .start leftover] := by
  have hrun : run step World.init [.start leftover, .finish 12, .start leftover] =
      some ⟨some (outputStr ⟨12, 0, 0⟩), some ⟨12, 0, 9⟩, [12]⟩ := by decide +kernel
  refine ⟨_, hrun, rfl, rfl, fun hall => ?_⟩
  have hlast := (hall.last hrun).highscores
  exact absurd hlast (by decide)

end Riot.Games.Boxgame
