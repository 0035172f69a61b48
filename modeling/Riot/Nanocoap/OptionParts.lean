import Riot.Lib.Memory

/-!
# Strings in parts (`nanocoap.c`)

`coap_opt_put_string_with_len` and `coap_opt_add_chars` cut a string at a separator by the
same two loops, which differ in where a part stops. The first stops at a terminator wherever
it is; only the second knows where the string ends. Both count a separator in front of the
string as no character, so each looks at the character behind the string then.
-/

namespace Riot.Nanocoap

open Riot.Lib Memory List

/-- `'/'` -/
def slash : UInt8 := 47

/-- `if (*uripos == separator) uripos++` -/
def skipSeparator (chars : Memory UInt8) (separator : UInt8) (uripos : Nat) : Nat :=
  if chars uripos = separator then uripos + 1 else uripos

/-- The inner loop of both functions: where a part ends, and how many characters are left. -/
def scanPart (stop : Nat → Bool) : Nat → Nat → Nat × Nat
  | 0, uripos => (uripos, 0)
  | len + 1, uripos => if stop uripos then (uripos, len) else scanPart stop len (uripos + 1)

/-- Where the inner loop of `coap_opt_put_string_with_len` stops. -/
def putStop (string : Memory UInt8) (separator : UInt8) (uripos : Nat) : Bool :=
  string uripos = separator || string uripos = 0

/-- Where the inner loop of `coap_opt_add_chars` stops. -/
def addStop (chars : Memory UInt8) (separator : UInt8) (endpos uripos : Nat) : Bool :=
  chars uripos = separator || uripos = endpos

/-- The parts that the outer loop comes to in at most `fuel` rounds, empty ones included. -/
def partsFrom (stop : Nat → Bool) (chars : Memory UInt8) (separator : UInt8) :
    Nat → Nat → Nat → List (List UInt8)
  | 0, _, _ => []
  | fuel + 1, uripos, len =>
    if len = 0 then []
    else
      let start := skipSeparator chars separator uripos
      let (uripos, len) := scanPart stop len start
      slice chars start (uripos - start) :: partsFrom stop chars separator fuel uripos len

/-- The parts that become options: a part that is empty only behind another one, and only
between slashes. -/
def emitted (separator : UInt8) : Bool → List (List UInt8) → List (List UInt8)
  | _, [] => []
  | started, part :: parts =>
    if part ≠ [] ∨ separator = slash ∧ started = true then part :: emitted separator true parts
    else emitted separator started parts

variable {stop stop' : Nat → Bool} {chars : Memory UInt8} {separator x : UInt8} {started : Bool}
  {part : List UInt8} {parts : List (List UInt8)} {fuel uripos len n p q l m : Nat}

/-! ## One part -/

theorem skipSeparator_eq (h : chars p = separator) : skipSeparator chars separator p = p + 1 := if_pos h

theorem skipSeparator_ne (h : chars p ≠ separator) : skipSeparator chars separator p = p := if_neg h

/-- The inner loop runs out of characters, or stops with at least one of them counted. -/
theorem scanPart_cases (stop : Nat → Bool) (len p : Nat) :
    p ≤ (scanPart stop len p).1 ∧ (∀ i, p ≤ i → i < (scanPart stop len p).1 → stop i = false) ∧
      (scanPart stop len p = (p + len, 0) ∨ stop (scanPart stop len p).1 = true ∧
          (scanPart stop len p).1 + 1 + (scanPart stop len p).2 = p + len) := by
  induction len generalizing p with
  | zero => exact ⟨le_rfl, fun i hi hlt => absurd hlt (not_lt.mpr hi), .inl rfl⟩
  | succ len ih =>
    unfold scanPart
    by_cases hp : stop p = true
    · rw [if_pos hp]
      exact ⟨le_rfl, fun i hi hlt => absurd hlt (not_lt.mpr hi), .inr ⟨hp, by dsimp only; omega⟩⟩
    · rw [if_neg hp]
      obtain ⟨hle, hbefore, hend⟩ := ih (p + 1)
      refine ⟨by omega, ?_, ?_⟩
      · intro i hi hlt
        rcases Nat.eq_or_lt_of_le hi with rfl | hi
        · exact Bool.eq_false_iff.mpr hp
        · exact hbefore i hi hlt
      · rcases hend with hend | ⟨hstop, hend⟩
        · exact .inl (by rw [hend, add_assoc, add_comm 1])
        · exact .inr ⟨hstop, by omega⟩

theorem scanPart_le (hlen : 0 < len) : (scanPart stop len p).2 < len := by
  obtain ⟨hle, -, hend | ⟨-, hend⟩⟩ := scanPart_cases stop len p
  · rw [hend]
    exact hlen
  · omega

theorem scanPart_congr (h : ∀ i, p ≤ i → i < p + len → stop i = stop' i) :
    scanPart stop len p = scanPart stop' len p := by
  induction len generalizing p with
  | zero => rfl
  | succ len ih =>
    unfold scanPart
    rw [h p le_rfl (by omega), ih fun i hi hlt => h i (by omega) (by omega)]

/-! ## All parts -/

theorem partsFrom_zero : partsFrom stop chars separator fuel uripos 0 = [] := by
  cases fuel with
  | zero => rfl
  | succ fuel => exact if_pos rfl

theorem partsFrom_succ (hlen : len ≠ 0) : partsFrom stop chars separator (fuel + 1) p len =
      slice chars (skipSeparator chars separator p)
          ((scanPart stop len (skipSeparator chars separator p)).1 - skipSeparator chars separator p) ::
        partsFrom stop chars separator fuel (scanPart stop len (skipSeparator chars separator p)).1
          (scanPart stop len (skipSeparator chars separator p)).2 :=
  if_neg hlen

theorem skipSeparator_le : skipSeparator chars separator p ≤ p + 1 := by
  unfold skipSeparator
  split <;> omega

theorem partsFrom_congr (h : ∀ i < n, stop i = stop' i) (hn : skipSeparator chars separator p + len ≤ n) :
    partsFrom stop chars separator fuel p len = partsFrom stop' chars separator fuel p len := by
  induction fuel generalizing p len with
  | zero => rfl
  | succ fuel ih =>
    by_cases hlen : len = 0
    · rw [hlen, partsFrom_zero, partsFrom_zero]
    rw [partsFrom_succ hlen, partsFrom_succ hlen, ← scanPart_congr fun i _ hlt => h i (by omega)]
    congr 1
    obtain ⟨-, -, hend | ⟨-, hend⟩⟩ := scanPart_cases stop len (skipSeparator chars separator p)
    · rw [hend]
      exact partsFrom_zero.trans partsFrom_zero.symm
    · refine ih ?_
      have hskip : skipSeparator chars separator (scanPart stop len (skipSeparator chars separator p)).1 ≤ _ :=
        skipSeparator_le
      omega

theorem not_mem_flatten_partsFrom (h : ∀ i, chars i = x → stop i = true) :
    x ∉ (partsFrom stop chars separator fuel p len).flatten := by
  induction fuel generalizing p len with
  | zero => exact not_mem_nil
  | succ fuel ih =>
    by_cases hlen : len = 0
    · rw [hlen, partsFrom_zero]
      exact not_mem_nil
    rw [partsFrom_succ hlen, flatten_cons, mem_append]
    rintro (hmem | hmem)
    · obtain ⟨i, hi, hx⟩ := getElem_of_mem hmem
      rw [getElem_slice] at hx
      rw [length_slice] at hi
      have hno := (scanPart_cases stop len (skipSeparator chars separator p)).2.1 _ (Nat.le_add_right _ i) (by omega)
      rw [h _ hx] at hno
      cases hno
    · exact ih hmem

theorem filter_slice_self (h : ∀ i, p ≤ i → i < p + n → chars i ≠ separator) :
    (slice chars p n).filter (· ≠ separator) = slice chars p n := by
  refine filter_eq_self.mpr fun y hy => ?_
  obtain ⟨i, hi, rfl⟩ := getElem_of_mem hy
  rw [getElem_slice]
  rw [length_slice] at hi
  exact decide_eq_true (h _ (Nat.le_add_right _ _) (by omega))

theorem filter_slice_skip (hle : skipSeparator chars separator p ≤ n) :
    (slice chars p (n - p)).filter (· ≠ separator) =
      (slice chars (skipSeparator chars separator p) (n - skipSeparator chars separator p)).filter
        (· ≠ separator) := by
  by_cases hp : chars p = separator
  · rw [skipSeparator_eq hp] at hle ⊢
    rw [show n - p = 1 + (n - (p + 1)) by omega, slice_add, filter_append]
    have hnone : (slice chars p 1).filter (· ≠ separator) = [] := by simp [slice, hp]
    rw [hnone, nil_append]
  · rw [skipSeparator_ne hp]

/-- What the parts hold together: the characters in front of `n` but the separators. The loop
runs out of characters at `n`, or stops there when a separator at the front was not counted. -/
theorem flatten_partsFrom (hstop : ∀ i < n, stop i = true ↔ chars i = separator)
    (hle : skipSeparator chars separator p ≤ n)
    (hend : skipSeparator chars separator p + len = n ∨ skipSeparator chars separator p + len = n + 1 ∧ stop n = true)
    (hfuel : len < fuel) :
    (partsFrom stop chars separator fuel p len).flatten = (slice chars p (n - p)).filter (· ≠ separator) := by
  induction fuel generalizing p len with
  | zero => exact absurd hfuel (Nat.not_lt_zero _)
  | succ fuel ih =>
    rw [filter_slice_skip hle]
    by_cases hlen : len = 0
    · rw [hlen, partsFrom_zero, show n - skipSeparator chars separator p = 0 by omega]
      rfl
    rw [partsFrom_succ hlen]
    generalize skipSeparator chars separator p = start at *
    obtain ⟨hge, hbefore, hstops⟩ := scanPart_cases stop len start
    have hless := @scanPart_le stop len start (Nat.pos_of_ne_zero hlen)
    generalize scanPart stop len start = r at *
    obtain ⟨q, l⟩ := r
    -- the part ends at a separator in front of the end, or at the end
    have hcases : q = n ∧ l = 0 ∨ q < n ∧ stop q = true ∧ q + 1 + l = start + len := by
      rcases hstops with hall | ⟨hq, hcount⟩
      · cases hall
        rcases hend with hend | ⟨hend, hn⟩
        · exact .inl ⟨hend, rfl⟩
        · rw [hbefore n hle (by omega)] at hn
          cases hn
      · rcases Nat.lt_trichotomy q n with hlt | heq | hgt
        · exact .inr ⟨hlt, hq, hcount⟩
        · exact .inl ⟨heq, by omega⟩
        · omega
    have hpart : q ≤ n → (slice chars start (q - start)).filter (· ≠ separator) = slice chars start (q - start) := by
      intro hqn
      refine filter_slice_self fun i hi hlt hsep => ?_
      have hno := hbefore i hi (by omega)
      rw [(hstop i (by omega)).mpr hsep] at hno
      cases hno
    rcases hcases with ⟨rfl, rfl⟩ | ⟨hlt, hq, hcount⟩
    · rw [partsFrom_zero, flatten_cons, flatten_nil, append_nil, hpart le_rfl]
    · have hskip := skipSeparator_eq ((hstop q hlt).mp hq)
      have hrest := @ih l q (by rw [hskip]; exact hlt) (by rw [hskip, hcount]; exact hend) (by omega)
      rw [flatten_cons, hrest, show n - start = (q - start) + (n - q) by omega, slice_add, filter_append,
        hpart (le_of_lt hlt), show start + (q - start) = q by omega]

/-! ## What becomes an option -/

theorem flatten_emitted : (emitted separator started parts).flatten = parts.flatten := by
  induction parts generalizing started with
  | nil => rfl
  | cons part parts ih =>
    unfold emitted
    by_cases h : part ≠ [] ∨ separator = slash ∧ started = true
    · rw [if_pos h, flatten_cons, flatten_cons, ih]
    · rw [if_neg h, ih, flatten_cons, not_not.mp (not_or.mp h).1, nil_append]

theorem length_emitted_le : (emitted separator false parts).length ≤ (emitted separator true parts).length := by
  induction parts with
  | nil => exact le_rfl
  | cons part parts ih =>
    unfold emitted
    by_cases hpart : part = []
    · by_cases hsep : separator = slash
      · rw [if_neg (by simp [hpart]), if_pos (.inr ⟨hsep, rfl⟩), length_cons]
        omega
      · rw [if_neg (by simp [hpart]), if_neg (by simp [hpart, hsep])]
        exact ih
    · refine le_of_eq ?_
      rw [if_pos (.inl hpart), if_pos (.inl hpart)]

theorem emitted_of_ne (hsep : separator ≠ slash) :
    emitted separator true parts = emitted separator false parts := by
  induction parts with
  | nil => rfl
  | cons part parts ih =>
    unfold emitted
    by_cases hpart : part = []
    · rw [if_neg (by simp [hpart, hsep]), if_neg (by simp [hpart])]
      exact ih
    · rw [if_pos (.inl hpart), if_pos (.inl hpart)]

/-- An option in front makes a difference only to a string between slashes that begins with
an empty part. -/
theorem emitted_started_iff : emitted separator true parts = emitted separator false parts ↔
      ¬ (separator = slash ∧ parts.head? = some []) := by
  by_cases hsep : separator = slash
  swap
  · exact iff_of_true (emitted_of_ne hsep) fun h => hsep h.1
  cases parts with
  | nil => simp [emitted]
  | cons part parts =>
    rw [head?_cons, Option.some_inj]
    unfold emitted
    by_cases hpart : part = []
    · rw [if_pos (.inr ⟨hsep, rfl⟩), if_neg (by simp [hpart])]
      refine iff_of_false (fun heq => ?_) (not_not.mpr ⟨hsep, hpart⟩)
      have hlen := congrArg length heq
      have hle := @length_emitted_le separator parts
      rw [length_cons] at hlen
      omega
    · rw [if_pos (.inl hpart), if_pos (.inl hpart)]
      exact iff_of_true rfl fun h => hpart h.2

/-! ## The two loops -/

/-- Both loops take a string apart in the same way, into the same options. -/
def SplitsAlike (inFront : Prop) (chars : Memory UInt8) (len : Nat) (separator : UInt8) : Prop :=
  len = 0 ∨
    ((separator = 0 ∨ ∀ i < len, chars i ≠ 0) ∧
      (chars 0 = separator → chars len = separator ∨ chars len = 0) ∧
      ¬ (separator = slash ∧ inFront ∧ chars 0 = separator ∧ (len = 1 ∨ chars 1 = separator)))

instance {inFront : Prop} [Decidable inFront] : Decidable (SplitsAlike inFront chars len separator) :=
  inferInstanceAs (Decidable (_ ∨ _))

theorem putStop_iff : putStop chars separator p = true ↔ chars p = separator ∨ chars p = 0 := by
  simp [putStop]

theorem addStop_iff : addStop chars separator n p = true ↔ chars p = separator ∨ p = n := by
  simp [addStop]

theorem flatten_addParts (hlen : 0 < len) (hfuel : len < fuel) :
    (partsFrom (addStop chars separator len) chars separator fuel 0 len).flatten =
      (slice chars 0 len).filter (· ≠ separator) := by
  refine flatten_partsFrom (fun i hi => ?_) ?_ ?_ hfuel
  · rw [addStop_iff, or_iff_left (Nat.ne_of_lt hi)]
  · exact le_trans skipSeparator_le hlen
  · by_cases h0 : chars 0 = separator
    · rw [skipSeparator_eq h0]
      exact .inr ⟨by omega, addStop_iff.mpr (.inr rfl)⟩
    · rw [skipSeparator_ne h0]
      exact .inl (by omega)

/-- Where the parts of `coap_opt_put_string_with_len` end if there is no terminator. -/
def putEnd (chars : Memory UInt8) (separator : UInt8) (len : Nat) : Nat :=
  if chars 0 = separator ∧ ¬ (chars len = separator ∨ chars len = 0) then len + 1 else len

theorem flatten_putParts (hchars : separator = 0 ∨ ∀ i < len, chars i ≠ 0) (hlen : 0 < len) (hfuel : len < fuel) :
    (partsFrom (putStop chars separator) chars separator fuel 0 len).flatten =
      (slice chars 0 (putEnd chars separator len)).filter (· ≠ separator) := by
  have hinside : ∀ i < len, putStop chars separator i = true ↔ chars i = separator := by
    intro i hi
    rw [putStop_iff]
    rcases hchars with rfl | hchars
    · exact or_self_iff
    · exact or_iff_left (hchars i hi)
  unfold putEnd
  by_cases h0 : chars 0 = separator
  · have hskip := skipSeparator_eq h0
    by_cases hbehind : chars len = separator ∨ chars len = 0
    · rw [if_neg (by simp [hbehind])]
      refine flatten_partsFrom hinside (by omega) (.inr ⟨by omega, putStop_iff.mpr hbehind⟩) hfuel
    · rw [if_pos ⟨h0, hbehind⟩]
      have hcount : skipSeparator chars separator 0 + len = len + 1 := by rw [hskip, zero_add, add_comm]
      refine flatten_partsFrom (fun i hi => ?_) (by omega) (.inl hcount) hfuel
      rcases Nat.lt_or_eq_of_le (Nat.lt_succ_iff.mp hi) with hi | rfl
      · exact hinside i hi
      · rw [putStop_iff]
        exact iff_of_false hbehind fun h => hbehind (.inl h)
  · have hskip := skipSeparator_ne h0
    rw [if_neg (by simp [h0])]
    exact flatten_partsFrom hinside (by omega) (.inl (by omega)) hfuel

theorem part_eq_nil_iff (hlen : 0 < len) :
    slice chars p ((scanPart stop len p).1 - p) = [] ↔ stop p = true := by
  obtain ⟨len, rfl⟩ : ∃ k, len = k + 1 := ⟨len - 1, by omega⟩
  rw [← length_eq_zero_iff, length_slice]
  unfold scanPart
  by_cases hp : stop p = true
  · rw [if_pos hp]
    exact iff_of_true (Nat.sub_self p) hp
  · rw [if_neg hp]
    refine iff_of_false (fun h => ?_) hp
    have hle := (scanPart_cases stop len (p + 1)).1
    omega

theorem head_addParts (hlen : 0 < len) (hfuel : len < fuel) :
    (partsFrom (addStop chars separator len) chars separator fuel 0 len).head? = some [] ↔
      chars 0 = separator ∧ (len = 1 ∨ chars 1 = separator) := by
  obtain ⟨fuel, rfl⟩ : ∃ k, fuel = k + 1 := ⟨fuel - 1, by omega⟩
  rw [partsFrom_succ (Nat.ne_of_gt hlen), head?_cons, Option.some_inj, part_eq_nil_iff hlen, addStop_iff]
  by_cases h0 : chars 0 = separator
  · rw [skipSeparator_eq h0, and_iff_right h0, or_comm, eq_comm]
  · rw [skipSeparator_ne h0]
    refine iff_of_false ?_ fun h => h0 h.1
    rintro (h | h)
    · exact h0 h
    · exact absurd h (Nat.ne_of_lt hlen)

/-- Without a terminator inside, and one or a separator behind the string if one is in front of it,
both functions come to the same parts. -/
theorem putParts_eq_addParts (hchars : separator = 0 ∨ ∀ i < len, chars i ≠ 0)
    (hbehind : chars 0 = separator → chars len = separator ∨ chars len = 0) :
    partsFrom (putStop chars separator) chars separator fuel 0 len =
      partsFrom (addStop chars separator len) chars separator fuel 0 len := by
  refine partsFrom_congr (fun i hi => ?_) le_rfl
  rw [Bool.eq_iff_iff, putStop_iff, addStop_iff]
  have hle : skipSeparator chars separator 0 ≤ 0 + 1 := skipSeparator_le
  rcases Nat.lt_or_eq_of_le (show i ≤ len by omega) with hlt | rfl
  · rw [or_iff_left (Nat.ne_of_lt hlt)]
    rcases hchars with rfl | hchars
    · exact or_self_iff
    · exact or_iff_left (hchars i hlt)
  · have h0 : chars 0 = separator := by
      by_contra h0
      rw [skipSeparator_ne h0] at hi
      omega
    exact iff_of_true (hbehind h0) (.inr rfl)

/-- **The same options** come out of both functions exactly if they take the string apart in the
same way. -/
theorem emitted_eq_iff (hlen : 0 < len) (hfuel : len < fuel) :
    emitted separator started (partsFrom (putStop chars separator) chars separator fuel 0 len) =
        emitted separator false (partsFrom (addStop chars separator len) chars separator fuel 0 len) ↔
      SplitsAlike (started = true) chars len separator := by
  unfold SplitsAlike
  rw [or_iff_right (Nat.ne_of_gt hlen)]
  by_cases hchars : separator = 0 ∨ ∀ i < len, chars i ≠ 0
  swap
  · -- a part of the second function has the terminator, and none of the first has it
    refine iff_of_false (fun heq => hchars ?_) fun h => hchars h.1
    by_contra hno
    obtain ⟨hsep, hall⟩ := not_or.mp hno
    obtain ⟨i, hi, hzero⟩ : ∃ i < len, chars i = 0 := by
      by_contra h
      exact hall fun i hi h0 => h ⟨i, hi, h0⟩
    have hflat := congrArg flatten heq
    rw [flatten_emitted, flatten_emitted, flatten_addParts hlen hfuel] at hflat
    have hnot : (0 : UInt8) ∉ (partsFrom (putStop chars separator) chars separator fuel 0 len).flatten :=
      not_mem_flatten_partsFrom fun i h => putStop_iff.mpr (.inr h)
    rw [hflat] at hnot
    refine hnot (mem_filter.mpr ⟨?_, decide_eq_true fun h => hsep h.symm⟩)
    have hget := @getElem_slice _ chars 0 len i (by rw [length_slice]; exact hi)
    rw [zero_add, hzero] at hget
    rw [← hget]
    exact getElem_mem _
  rw [and_iff_right hchars]
  by_cases hbehind : chars 0 = separator → chars len = separator ∨ chars len = 0
  swap
  · -- the first function takes the character behind the string
    refine iff_of_false (fun heq => ?_) fun h => hbehind h.1
    obtain ⟨h0, hmore⟩ := Classical.not_imp.mp hbehind
    have hflat := congrArg flatten heq
    rw [flatten_emitted, flatten_emitted, flatten_addParts hlen hfuel, flatten_putParts hchars hlen hfuel, putEnd,
      if_pos ⟨h0, hmore⟩, slice_add, filter_append] at hflat
    have hone : (slice chars (0 + len) 1).filter (· ≠ separator) = [chars len] := by
      rw [zero_add]
      exact filter_cons_of_pos (decide_eq_true fun h => hmore (.inl h))
    rw [hone] at hflat
    cases append_cancel_left (hflat.trans (append_nil _).symm)
  rw [and_iff_right hbehind, putParts_eq_addParts hchars hbehind]
  cases started with
  | false => exact iff_of_true rfl fun h => Bool.false_ne_true h.2.1
  | true =>
    rw [emitted_started_iff, head_addParts hlen hfuel, and_iff_right rfl]

end Riot.Nanocoap
