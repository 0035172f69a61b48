import Mathlib.Data.List.Chain

/-!
# Delta-encoded options

A sequence of numbered options, each encoded as a head byte, an extended delta,
an extended length and the value. The head holds two nibbles: the difference of
the option's number to the number before it and the length of its value. A
nibble below 13 is the field itself, 13 and 14 announce an extension of one and
of two bytes, 15 is reserved for the byte `0xff` that ends the sequence.

Every option has exactly one encoding, so decoding and encoding are inverse to
each other in both directions.
-/

namespace Riot.Lib

open List UInt8

/-- An option: its number and the bytes of its value. -/
abbrev NumberedOption := Nat × List UInt8

/-- The byte that separates the options from what follows. -/
def optionMarker : UInt8 := 0xff

/-- The largest value of a delta or a length field. -/
def fieldMax : Nat := 14 + 0xff + 0xffff

/-- The nibble of a field. -/
def fieldNibble (v : Nat) : Nat := if v < 13 then v else if v < 269 then 13 else 14

/-- The bytes that extend the nibble of a field, most significant first. -/
def fieldExt (v : Nat) : List UInt8 :=
  if v < 13 then []
  else if v < 269 then [UInt8.ofNat (v - 13)]
  else [UInt8.ofNat ((v - 269) / 256), UInt8.ofNat (v - 269)]

/-- The number of bytes that a nibble announces. -/
def nibbleWidth (nib : Nat) : Nat := if nib < 13 then 0 else if nib = 13 then 1 else 2

/-- Decodes a field from its nibble and the bytes behind it. -/
def decodeField (nib : Nat) (bs : List UInt8) : Option (Nat × List UInt8) :=
  if nib < 13 then some (nib, bs)
  else if nib = 13 then
    match bs with
    | b :: bs => some (13 + b.toNat, bs)
    | _ => none
  else if nib = 14 then
    match bs with
    | b :: c :: bs => some (269 + 256 * b.toNat + c.toNat, bs)
    | _ => none
  else none

/-- The head byte of two nibbles. -/
def optionHead (deltaNibble lengthNibble : Nat) : UInt8 := UInt8.ofNat (16 * deltaNibble + lengthNibble)

/-- The encoding of one option, `delta` above the number before it. -/
def encodeOption (delta : Nat) (value : List UInt8) : List UInt8 :=
  optionHead (fieldNibble delta) (fieldNibble value.length) ::
    (fieldExt delta ++ (fieldExt value.length ++ value))

/-- The encoding of options above `prev`. -/
def encodeOptions : Nat → List NumberedOption → List UInt8
  | _, [] => []
  | prev, o :: os => encodeOption (o.1 - prev) o.2 ++ encodeOptions o.1 os

/-- Decodes one option into its delta, its value and the bytes behind it. -/
def decodeOption : List UInt8 → Option (Nat × List UInt8 × List UInt8)
  | [] => none
  | head :: bs => do
    let (delta, bs) ← decodeField (head.toNat / 16) bs
    let (len, bs) ← decodeField (head.toNat % 16) bs
    if len ≤ bs.length then some (delta, bs.take len, bs.drop len) else none

/-- Decodes a sequence of options above `prev`; each takes at least a byte of fuel. -/
def decodeOptionsFrom : Nat → Nat → List UInt8 → Option (List NumberedOption)
  | _, _, [] => some []
  | 0, _, _ => none
  | fuel + 1, prev, bs => do
    let (delta, value, rest) ← decodeOption bs
    let os ← decodeOptionsFrom fuel (prev + delta) rest
    some ((prev + delta, value) :: os)

/-- Decodes a sequence of options. -/
def decodeOptions (bs : List UInt8) : Option (List NumberedOption) :=
  decodeOptionsFrom bs.length 0 bs

variable {v nib delta prev : Nat} {bs value : List UInt8} {o : NumberedOption} {os : List NumberedOption}

/-! ## Fields -/

theorem fieldNibble_le : fieldNibble v ≤ 14 := by
  unfold fieldNibble
  split_ifs <;> omega

@[simp] theorem length_fieldExt : (fieldExt v).length = nibbleWidth (fieldNibble v) := by
  unfold fieldExt fieldNibble nibbleWidth
  split
  · simp [*]
  · split <;> simp

theorem length_fieldExt_mono {w : Nat} (h : v ≤ w) : (fieldExt v).length ≤ (fieldExt w).length := by
  unfold fieldExt
  split_ifs <;> simp <;> omega

theorem length_fieldExt_le : (fieldExt v).length ≤ 2 := by
  unfold fieldExt
  split_ifs <;> simp

/-- Two parts of a field are together at most one byte of extension short of it. -/
theorem length_fieldExt_add {w : Nat} :
    (fieldExt (v + w)).length ≤ (fieldExt v).length + (fieldExt w).length + 1 := by
  unfold fieldExt
  split_ifs <;> simp
  omega

theorem decodeField_encode (h : v ≤ fieldMax) :
    decodeField (fieldNibble v) (fieldExt v ++ bs) = some (v, bs) := by
  have hmax : fieldMax = 65804 := rfl
  unfold fieldNibble fieldExt decodeField
  by_cases h13 : v < 13
  · simp [h13]
  by_cases h269 : v < 269
  · have e : 13 + (v - 13) % 256 = v := by omega
    simp [h13, h269, e]
  · have e : 269 + 256 * ((v - 269) / 256 % 256) + (v - 269) % 256 = v := by omega
    simp [h13, h269, e]

theorem decodeField_eq_some {rest : List UInt8} (h : decodeField nib bs = some (v, rest)) :
    v ≤ fieldMax ∧ nib = fieldNibble v ∧ bs = fieldExt v ++ rest := by
  have hmax : fieldMax = 65804 := rfl
  unfold decodeField at h
  split at h
  · rename_i hn
    obtain ⟨rfl, rfl⟩ := h
    refine ⟨by omega, ?_, ?_⟩
    · rw [fieldNibble, if_pos hn]
    · rw [fieldExt, if_pos hn, nil_append]
  split at h
  · rename_i h13
    split at h
    · rename_i b bs
      obtain ⟨rfl, rfl⟩ := h
      have hb := b.toNat_lt
      refine ⟨by omega, ?_, ?_⟩
      · rw [fieldNibble, if_neg (by omega), if_pos (by omega), h13]
      · rw [fieldExt, if_neg (by omega), if_pos (by omega), Nat.add_sub_cancel_left]
        simp
    · exact absurd h (by simp)
  split at h
  · rename_i h14
    split at h
    · rename_i b c bs
      obtain ⟨rfl, rfl⟩ := h
      have hb := b.toNat_lt
      have hc := c.toNat_lt
      refine ⟨by omega, ?_, ?_⟩
      · rw [fieldNibble, if_neg (by omega), if_neg (by omega), h14]
      · have e : 269 + 256 * b.toNat + c.toNat - 269 = 256 * b.toNat + c.toNat := by omega
        have e1 : ofNat ((256 * b.toNat + c.toNat) / 256) = b := by
          apply UInt8.toNat_inj.mp
          rw [UInt8.toNat_ofNat']
          omega
        have e2 : ofNat (256 * b.toNat + c.toNat) = c := by
          apply UInt8.toNat_inj.mp
          rw [UInt8.toNat_ofNat']
          omega
        rw [fieldExt, if_neg (by omega), if_neg (by omega), e, e1, e2]
        rfl
    · exact absurd h (by simp)
  · exact absurd h (by simp)

/-! ## Heads -/

variable {os' : List NumberedOption} {t t' : List UInt8} {d l : Nat}

theorem optionHead_toNat (hd : d ≤ 14) (hl : l ≤ 14) : (optionHead d l).toNat = 16 * d + l := by
  rw [optionHead, toNat_ofNat']
  omega

theorem optionHead_div (hd : d ≤ 14) (hl : l ≤ 14) : (optionHead d l).toNat / 16 = d := by
  rw [optionHead_toNat hd hl]
  omega

theorem optionHead_mod (hd : d ≤ 14) (hl : l ≤ 14) : (optionHead d l).toNat % 16 = l := by
  rw [optionHead_toNat hd hl]
  omega

theorem optionHead_ne_marker (hd : d ≤ 14) (hl : l ≤ 14) : optionHead d l ≠ optionMarker := by
  intro h
  have := congrArg toNat h
  rw [optionHead_toNat hd hl] at this
  have hm : optionMarker.toNat = 255 := rfl
  omega

theorem optionHead_self (b : UInt8) : optionHead (b.toNat / 16) (b.toNat % 16) = b := by
  apply UInt8.toNat_inj.mp
  rw [optionHead, UInt8.toNat_ofNat']
  have := b.toNat_lt
  omega

theorem optionHead_or (hd : d ≤ 14) (hl : l ≤ 14) : optionHead d 0 ||| ofNat l = optionHead d l := by
  have h : ∀ d l : Fin 15, optionHead d.val 0 ||| ofNat l.val = optionHead d.val l.val := by
    decide
  exact h ⟨d, by omega⟩ ⟨l, by omega⟩

/-! ## One option -/

theorem length_encodeOption : (encodeOption delta value).length =
    1 + (fieldExt delta).length + (fieldExt value.length).length + value.length := by
  simp only [encodeOption, length_cons, length_append]
  omega

theorem length_encodeOption_pos : 0 < (encodeOption delta value).length := by
  rw [length_encodeOption]
  omega

theorem decodeOption_encode (hd : delta ≤ fieldMax) (hv : value.length ≤ fieldMax) :
    decodeOption (encodeOption delta value ++ bs) = some (delta, value, bs) := by
  rw [encodeOption, cons_append, decodeOption,
    optionHead_div fieldNibble_le fieldNibble_le, optionHead_mod fieldNibble_le fieldNibble_le,
    append_assoc, decodeField_encode hd]
  simp only [Option.bind_eq_bind, Option.bind_some]
  rw [append_assoc, decodeField_encode hv]
  simp

/-! ## Sequences of options -/

/-- The number of the last option, or `prev` when there is none. -/
def lastNumber : Nat → List NumberedOption → Nat
  | prev, [] => prev
  | _, o :: os => lastNumber o.1 os

/-- Options in order above `prev`, each of encodable delta and length. -/
def OptionsEncodable : Nat → List NumberedOption → Prop
  | _, [] => True
  | prev, o :: os =>
    prev ≤ o.1 ∧ o.1 - prev ≤ fieldMax ∧ o.2.length ≤ fieldMax ∧ OptionsEncodable o.1 os

@[simp] theorem encodeOptions_nil : encodeOptions prev [] = [] := rfl

@[simp] theorem encodeOptions_cons :
    encodeOptions prev (o :: os) = encodeOption (o.1 - prev) o.2 ++ encodeOptions o.1 os := rfl

@[simp] theorem encodable_nil : OptionsEncodable prev [] := trivial

@[simp] theorem encodable_cons : OptionsEncodable prev (o :: os) ↔
    prev ≤ o.1 ∧ o.1 - prev ≤ fieldMax ∧ o.2.length ≤ fieldMax ∧ OptionsEncodable o.1 os := Iff.rfl

@[simp] theorem lastNumber_nil : lastNumber prev [] = prev := rfl

@[simp] theorem lastNumber_cons : lastNumber prev (o :: os) = lastNumber o.1 os := rfl

theorem lastNumber_append : lastNumber prev (os ++ os') = lastNumber (lastNumber prev os) os' := by
  induction os generalizing prev with
  | nil => rfl
  | cons o os ih => exact ih

theorem encodeOptions_append : encodeOptions prev (os ++ os') =
      encodeOptions prev os ++ encodeOptions (lastNumber prev os) os' := by
  induction os generalizing prev with
  | nil => rfl
  | cons o os ih => simp [ih]

theorem encodable_append :
    OptionsEncodable prev (os ++ os') ↔ OptionsEncodable prev os ∧ OptionsEncodable (lastNumber prev os) os' := by
  induction os generalizing prev with
  | nil => simp
  | cons o os ih => simp [ih, and_assoc]

theorem OptionsEncodable.le (h : OptionsEncodable prev os) : ∀ o ∈ os, prev ≤ o.1 := by
  induction os generalizing prev with
  | nil => simp
  | cons o os ih =>
    intro o' ho'
    obtain rfl | ho' := mem_cons.mp ho'
    · exact h.1
    · exact le_trans h.1 (ih h.2.2.2 o' ho')

/-- Options of small numbers are encodable if they are in order and their values
are not too long. -/
theorem optionsEncodable_iff (hmax : ∀ o ∈ os, o.1 ≤ fieldMax) : OptionsEncodable prev os ↔
      (prev :: os.map Prod.fst).Pairwise (· ≤ ·) ∧ ∀ o ∈ os, o.2.length ≤ fieldMax := by
  induction os generalizing prev with
  | nil => simp
  | cons o os ih =>
    have ih := @ih o.1 fun o ho => hmax o (by simp [ho])
    have ho := hmax o (by simp)
    constructor
    · intro h
      have hle := h.le
      obtain ⟨-, -, hv, hos⟩ := h
      obtain ⟨hp, hvs⟩ := ih.mp hos
      refine ⟨?_, forall_mem_cons.mpr ⟨hv, hvs⟩⟩
      rw [map_cons, pairwise_cons]
      refine ⟨?_, hp⟩
      intro k hk
      obtain ⟨o', ho', rfl⟩ := mem_map.mp (map_cons ▸ hk)
      exact hle o' ho'
    · intro ⟨hp, hvs⟩
      rw [map_cons, pairwise_cons] at hp
      obtain ⟨hv, hvs⟩ := forall_mem_cons.mp hvs
      have hle := hp.1 o.1 (by simp)
      exact ⟨hle, by omega, hv, ih.mpr ⟨hp.2, hvs⟩⟩

theorem decodeOptionsFrom_encode : ∀ {fuel : Nat} {os : List NumberedOption} {prev : Nat},
    OptionsEncodable prev os → (encodeOptions prev os).length ≤ fuel →
    decodeOptionsFrom fuel prev (encodeOptions prev os) = some os := by
  intro fuel os
  induction os generalizing fuel with
  | nil =>
    intro prev _ _
    cases fuel <;> rfl
  | cons o os ih =>
    intro prev h hf
    obtain ⟨hle, hd, hv, hos⟩ := h
    have hpos := @length_encodeOption_pos (o.1 - prev) o.2
    rw [encodeOptions_cons, length_append] at hf
    cases fuel with
    | zero => omega
    | succ fuel =>
      have hne : encodeOption (o.1 - prev) o.2 ++ encodeOptions o.1 os ≠ [] := by
        simp [encodeOption]
      rw [encodeOptions_cons, decodeOptionsFrom]
      · rw [decodeOption_encode hd hv]
        have hsum : prev + (o.1 - prev) = o.1 := by omega
        simp only [Option.bind_eq_bind, Option.bind_some, hsum]
        rw [ih hos (by omega)]
        rfl
      · exact hne

theorem head_of_append_eq {o' : NumberedOption}
    (hle : prev ≤ o.1) (hle' : prev ≤ o'.1) (hd : o.1 - prev ≤ fieldMax) (hd' : o'.1 - prev ≤ fieldMax)
    (hv : o.2.length ≤ fieldMax) (hv' : o'.2.length ≤ fieldMax)
    (heq : encodeOptions prev (o :: os) ++ t = encodeOptions prev (o' :: os') ++ t') :
    o = o' ∧ encodeOptions o.1 os ++ t = encodeOptions o.1 os' ++ t' := by
  have hdec := congrArg decodeOption heq
  rw [encodeOptions_cons, encodeOptions_cons, append_assoc, append_assoc,
    decodeOption_encode hd hv, decodeOption_encode hd' hv'] at hdec
  obtain ⟨hdelta, hval⟩ := Prod.mk.inj (Option.some.inj hdec)
  obtain ⟨hval, hrest⟩ := Prod.mk.inj hval
  have ho : o = o' := Prod.ext (by omega) hval
  subst ho
  exact ⟨rfl, hrest⟩

/-- Bytes split in one way only into options and an end: nothing, or the marker
and more. -/
theorem encodeOptions_unique (h : OptionsEncodable prev os) (h' : OptionsEncodable prev os')
    (ht : t = [] ∨ ∃ s, t = optionMarker :: s) (ht' : t' = [] ∨ ∃ s, t' = optionMarker :: s)
    (heq : encodeOptions prev os ++ t = encodeOptions prev os' ++ t') : os = os' ∧ t = t' := by
  -- an end is no option
  have hno : ∀ {s s' : List UInt8} {d : Nat} {v : List UInt8}, (s = [] ∨ ∃ r, s = optionMarker :: r) →
      s ≠ encodeOption d v ++ s' := by
    intro s s' d v hs heq
    rw [encodeOption, cons_append] at heq
    obtain rfl | ⟨r, rfl⟩ := hs
    · simp at heq
    · exact optionHead_ne_marker fieldNibble_le fieldNibble_le (cons.inj heq).1.symm
  induction os generalizing prev os' with
  | nil =>
    cases os' with
    | nil => exact ⟨rfl, heq⟩
    | cons o' os' =>
      rw [encodeOptions_nil, nil_append, encodeOptions_cons, append_assoc] at heq
      exact absurd heq (hno ht)
  | cons o os ih =>
    cases os' with
    | nil =>
      rw [encodeOptions_nil, nil_append, encodeOptions_cons, append_assoc] at heq
      exact absurd heq.symm (hno ht')
    | cons o' os' =>
      obtain ⟨hle, hd, hv, hos⟩ := h
      obtain ⟨hle', hd', hv', hos'⟩ := h'
      obtain ⟨rfl, hrest⟩ := head_of_append_eq hle hle' hd hd' hv hv' heq
      obtain ⟨rfl, rfl⟩ := ih hos hos' hrest
      exact ⟨rfl, rfl⟩

theorem encodeOptions_cancel (h : OptionsEncodable prev os) (h' : OptionsEncodable prev os') (hlen : os.length = os'.length)
    (heq : encodeOptions prev os ++ t = encodeOptions prev os' ++ t') : os = os' ∧ t = t' := by
  induction os generalizing prev os' with
  | nil =>
    obtain rfl := eq_nil_of_length_eq_zero hlen.symm
    exact ⟨rfl, heq⟩
  | cons o os ih =>
    cases os' with
    | nil => exact absurd hlen (Nat.succ_ne_zero _)
    | cons o' os' =>
      obtain ⟨hle, hd, hv, hos⟩ := h
      obtain ⟨hle', hd', hv', hos'⟩ := h'
      obtain ⟨rfl, hrest⟩ := head_of_append_eq hle hle' hd hd' hv hv' heq
      obtain ⟨rfl, rfl⟩ := ih hos hos' (Nat.succ.inj hlen) hrest
      exact ⟨rfl, rfl⟩

/-- **Decoding inverts encoding.** -/
theorem decodeOptions_encode (h : OptionsEncodable 0 os) : decodeOptions (encodeOptions 0 os) = some os :=
  decodeOptionsFrom_encode h le_rfl

/-! ## The options of one number -/

variable {n : Nat} {pre rem post : List NumberedOption}

theorem lastNumber_eq (hrem : ∀ o ∈ rem, o.1 = n) (hne : rem ≠ []) : lastNumber prev rem = n := by
  induction rem generalizing prev with
  | nil => exact absurd rfl hne
  | cons o rem ih =>
    cases rem with
    | nil => exact hrem o (by simp)
    | cons o' rem => exact @ih o.1 (fun o ho => hrem o (by simp [ho])) (by simp)

/-- The options of a number, in options in order that are at least that number. -/
theorem exists_run (h : OptionsEncodable prev os) (hn : n ≤ prev) :
    ∃ rem post, os = rem ++ post ∧ (∀ o ∈ rem, o.1 = n) ∧ (∀ o ∈ post, n < o.1) := by
  induction os generalizing prev with
  | nil => exact ⟨[], [], rfl, by simp, by simp⟩
  | cons o os ih =>
    by_cases ho : o.1 = n
    · obtain ⟨rem, post, rfl, hrem, hpost⟩ := ih h.2.2.2 (by omega)
      refine ⟨o :: rem, post, rfl, ?_, hpost⟩
      intro o' ho'
      obtain rfl | ho' := mem_cons.mp ho'
      · exact ho
      · exact hrem o' ho'
    · refine ⟨[], o :: os, rfl, by simp, ?_⟩
      have hle := h.1
      intro o' ho'
      obtain rfl | ho' := mem_cons.mp ho'
      · omega
      · have := h.2.2.2.le o' ho'
        omega

theorem filter_number (hpre : ∀ o ∈ pre, o.1 < n) (hrem : ∀ o ∈ rem, o.1 = n) (hpost : ∀ o ∈ post, n < o.1) :
    (pre ++ (rem ++ post)).filter (fun o => o.1 ≠ n) = pre ++ post := by
  have h1 : pre.filter (fun o => o.1 ≠ n) = pre :=
    filter_eq_self.mpr fun o ho => by simpa using ne_of_lt (hpre o ho)
  have h2 : rem.filter (fun o => o.1 ≠ n) = [] :=
    filter_eq_nil_iff.mpr fun o ho => by simpa using hrem o ho
  have h3 : post.filter (fun o => o.1 ≠ n) = post :=
    filter_eq_self.mpr fun o ho => by simpa using ne_of_gt (hpost o ho)
  rw [filter_append, filter_append, h1, h2, h3, nil_append]

end Riot.Lib
