import Riot.Nanocoap.Parse

/-!
# What the getters return

The getters decode option heads again, from positions that the parser recorded or
that an earlier call returned. Positions and numbers are kept in 16 bits, so this
finds the options of the message only as long as these fit.
-/

namespace Riot.Nanocoap

open Riot.Lib Memory List Option Nat Prod

/-! ## Sequences of calls -/

/-- The calls of `coap_opt_get_next` up to the first that returns `-ENOENT`: number,
start of the value and result of each. -/
def nextOptions (cfg : Cfg) (mem : Memory UInt8) (pkt : Pkt) : Nat → Option OptPos → List (Nat × Nat × Int)
  | 0, _ => []
  | fuel + 1, opt =>
    match coapOptGetNext cfg mem pkt opt with
    | (len, opt, value) =>
      if len = -ENOENT then [] else (opt.optNum, value, len) :: nextOptions cfg mem pkt fuel (some opt)

/-- The calls of `coap_iterate_option` up to the first that returns `NULL`: start and
length of each value. -/
def iterateOptions (mem : Memory UInt8) (pkt : Pkt) (optNum : Nat) : Nat → Nat → List (Nat × Int)
  | 0, _ => []
  | fuel + 1, optPos =>
    match coapIterateOption mem pkt optNum optPos with
    | (value, len, optPos) =>
      if value = 0 then [] else (value, len) :: iterateOptions mem pkt optNum fuel optPos

/-- Number, start of the value and length of options above `prev` from `a` on. -/
def optionValues : Nat → Nat → List NumberedOption → List (Nat × Nat × Int)
  | _, _, [] => []
  | a, prev, o :: os =>
    (o.1, a + headLength (o.1 - prev) o.2.length, (o.2.length : Int)) ::
      optionValues (a + (encodeOption (o.1 - prev) o.2).length) o.1 os

/-- `a` and `n` are start and length of the value of one of the options, which start
at `start`; its number is `num`. -/
def IsValue (mem : Memory UInt8) (start : Nat) (os : List NumberedOption) (num a : Nat) (n : Int) : Prop :=
  ∃ pre value post, os = pre ++ (num, value) :: post ∧ n = value.length ∧ Holds mem a value ∧
    a + value.length = start + (encodeOptions 0 (pre ++ [(num, value)])).length

variable {cfg : Cfg} {mem : Memory UInt8} {pkt : Pkt} {start pos delta num : Nat} {value : List UInt8}
  {o : NumberedOption} {os pre post : List NumberedOption}

/-! ## One option -/

theorem parseOption_encode (hd : delta ≤ fieldMax) (hv : value.length ≤ fieldMax)
    (hm : Holds mem pos (encodeOption delta value)) (hle : pos + (encodeOption delta value).length ≤ pkt.payload) :
    parseOption mem pkt pos =
      some (pos + headLength delta value.length, delta % 2 ^ 16, (value.length : Int)) := by
  have hsize := @length_encodeOption_eq delta value
  have hpos := @length_encodeOption_pos delta value
  have hne := (parts_of_holds hm).1
  obtain ⟨hdelta, hlen⟩ := decode_option readable_some hd hv hm (show _ ≤ pkt.payload by omega)
  unfold parseOption
  dsimp only
  rw [if_neg (fun h => h.elim (fun h => absurd h (by omega)) fun h => hne h.2), hdelta, bind_some, hlen,
    map_some]
  rfl

theorem parseOption_payload (h : pkt.payload ≤ pos ∨ pos + 1 = pkt.payload ∧ mem pos = coapPayloadMarker) :
    parseOption mem pkt pos = none := if_pos h

theorem decodeValue_ne {rd : Nat → Option UInt8} {nib pktEnd p : Nat} {r : Int}
    (h : decodeValue rd nib pos pktEnd = some (r, p)) : r ≠ -ENOENT := by
  unfold decodeValue at h
  have hno : ENOENT = 2 := rfl
  split_ifs at h
  · simp only [some.injEq, mk.injEq] at h
    rw [← h.1]
    decide
  · simp only [map_eq_some_iff, mk.injEq] at h
    obtain ⟨b, -, rfl, -⟩ := h
    omega
  · simp only [some.injEq, mk.injEq] at h
    rw [← h.1]
    decide
  · simp only [bind_eq_some_iff, map_eq_some_iff, mk.injEq] at h
    omega
  · simp only [some.injEq, mk.injEq] at h
    rw [← h.1]
    decide
  · simp only [some.injEq, mk.injEq] at h
    omega

theorem decodeValue_total {nib pktEnd : Nat} :
    ∃ r p, decodeValue (fun a => some (mem a)) nib pos pktEnd = some (r, p) := by
  unfold decodeValue
  split_ifs <;> exact ⟨_, _, rfl⟩

/-! ## `coap_opt_get_next` -/

theorem payload_of_next {opt : OptPos} (h : (coapOptGetNext cfg mem pkt (some opt)).1 = -ENOENT) :
    pkt.payload ≤ pkt.buf + opt.offset ∨
      pkt.buf + opt.offset + 1 = pkt.payload ∧ mem (pkt.buf + opt.offset) = coapPayloadMarker := by
  unfold coapOptGetNext at h
  dsimp only [getD_some] at h
  by_contra hno
  unfold parseOption at h
  dsimp only at h
  obtain ⟨d, p, hdelta⟩ := @decodeValue_total mem (pkt.buf + opt.offset + 1)
    (deltaNibble (mem (pkt.buf + opt.offset))) pkt.payload
  obtain ⟨l, p', hlen⟩ := @decodeValue_total mem p (lengthNibble (mem (pkt.buf + opt.offset))) pkt.payload
  rw [if_neg hno, hdelta, bind_some, hlen, map_some] at h
  exact decodeValue_ne hlen h

theorem offset_of_next {opt opt' : OptPos} {len : Int} {a : Nat}
    (h : coapOptGetNext cfg mem pkt (some opt) = (len, opt', a)) (hlen : len ≠ -ENOENT) :
    opt'.offset = (((a : Int) + len - pkt.buf) % 2 ^ 16).toNat := by
  unfold coapOptGetNext at h
  dsimp only at h
  split at h
  · exact absurd (mk.inj h).1.symm hlen
  · obtain ⟨rfl, rfl, rfl⟩ := h
    rfl

variable {offset prev : Nat}

theorem coapOptGetNext_option (hd : delta ≤ fieldMax) (hv : value.length ≤ fieldMax)
    (hpos : pkt.buf + offset = pos) (hm : Holds mem pos (encodeOption delta value))
    (hle : pos + (encodeOption delta value).length ≤ pkt.payload) :
    coapOptGetNext cfg mem pkt (some ⟨prev, offset⟩) = ((value.length : Int),
        ⟨(prev + delta % 2 ^ 16) % 2 ^ 16, (offset + (encodeOption delta value).length) % 2 ^ 16⟩,
        pos + headLength delta value.length) := by
  unfold coapOptGetNext
  dsimp only [getD_some]
  rw [hpos, parseOption_encode hd hv hm hle, length_encodeOption_eq]
  dsimp only
  congr 3
  omega

/-- The options `os` above `prev` are at `pos`, in front of the payload. -/
structure OptionsAt (mem : Memory UInt8) (pkt : Pkt) (pos prev : Nat) (os : List NumberedOption) : Prop where
  holds : Holds mem pos (encodeOptions prev os)
  encodable : OptionsEncodable prev os
  payload : pkt.payload = pos + (encodeOptions prev os).length ∨
    pkt.payload = pos + (encodeOptions prev os).length + 1 ∧
      mem (pos + (encodeOptions prev os).length) = coapPayloadMarker

theorem OptionsAt.tail (h : OptionsAt mem pkt pos prev (o :: os)) :
    OptionsAt mem pkt (pos + (encodeOption (o.1 - prev) o.2).length) o.1 os := by
  have hp := h.payload
  rw [encodeOptions_cons, length_append, ← add_assoc] at hp
  exact ⟨(holds_append.mp h.holds).2, h.encodable.2.2.2, hp⟩

theorem OptionsAt.parseOption_head (h : OptionsAt mem pkt pos prev (o :: os)) : parseOption mem pkt pos =
      some (pos + headLength (o.1 - prev) o.2.length, (o.1 - prev) % 2 ^ 16, (o.2.length : Int)) := by
  have hp := h.payload
  rw [encodeOptions_cons, length_append] at hp
  exact parseOption_encode h.encodable.2.1 h.encodable.2.2.1 (holds_append.mp h.holds).1 (by omega)

theorem OptionsAt.parseOption_nil (h : OptionsAt mem pkt pos prev []) : parseOption mem pkt pos = none := by
  have hp := h.payload
  rw [encodeOptions_nil, length_nil, add_zero] at hp
  exact parseOption_payload (hp.imp (fun hp => by omega) fun hp => ⟨hp.1.symm, hp.2⟩)

/-- The options are enumerated one after the other if their positions fit, with their
numbers in 16 bits. -/
theorem nextOptions_encode : ∀ {os : List NumberedOption} {fuel pos prev offset : Nat},
    OptionsAt mem pkt pos prev os → pkt.buf + offset = pos →
    offset + (encodeOptions prev os).length < 2 ^ 16 → os.length < fuel →
    nextOptions cfg mem pkt fuel (some ⟨prev % 2 ^ 16, offset⟩) =
      (optionValues pos prev os).map fun x => (x.1 % 2 ^ 16, x.2) := by
  intro os
  induction os with
  | nil =>
    intro fuel pos prev offset h hpos _ hf
    cases fuel with
    | zero => exact absurd hf (not_lt_zero _)
    | succ fuel =>
      rw [nextOptions, coapOptGetNext]
      dsimp only [getD_some]
      rw [hpos, h.parseOption_nil]
      rfl
  | cons o os ih =>
    intro fuel pos prev offset h hpos hfit hf
    have hle := h.encodable.1
    rw [encodeOptions_cons, length_append] at hfit
    rw [length_cons] at hf
    cases fuel with
    | zero => exact absurd hf (not_lt_zero _)
    | succ fuel =>
      have hsum : (prev % 2 ^ 16 + (o.1 - prev) % 2 ^ 16) % 2 ^ 16 = o.1 % 2 ^ 16 := by omega
      have hoffset : (offset + (encodeOption (o.1 - prev) o.2).length) % 2 ^ 16 =
          offset + (encodeOption (o.1 - prev) o.2).length := mod_eq_of_lt (by omega)
      have hp := h.payload
      rw [encodeOptions_cons, length_append] at hp
      rw [nextOptions, coapOptGetNext_option h.encodable.2.1 h.encodable.2.2.1 hpos
        (holds_append.mp h.holds).1 (by omega), hsum, hoffset]
      dsimp only
      rw [if_neg (by have : ENOENT = 2 := rfl; omega), optionValues, map_cons,
        ih h.tail (by omega) (by omega) (by omega)]

theorem optionValues_mod (hnum : ∀ o ∈ os, o.1 < 2 ^ 16) :
    ((optionValues pos prev os).map fun x => (x.1 % 2 ^ 16, x.2)) = optionValues pos prev os := by
  induction os generalizing pos prev with
  | nil => rfl
  | cons o os ih =>
    obtain ⟨ho, hnum⟩ := forall_mem_cons.mp hnum
    rw [optionValues, map_cons, ih hnum, mod_eq_of_lt ho]

theorem length_optionValues : (optionValues pos prev os).length = os.length := by
  induction os generalizing pos prev with
  | nil => rfl
  | cons o os ih => rw [optionValues, length_cons, length_cons, ih]

theorem optionValues_read (h : Holds mem pos (encodeOptions prev os)) :
    ((optionValues pos prev os).map fun x => (x.1, slice mem x.2.1 x.2.2.toNat)) = os := by
  induction os generalizing pos prev with
  | nil => rfl
  | cons o os ih =>
    obtain ⟨ho, hos⟩ := holds_append.mp h
    have hval := (parts_of_holds ho).2.2.2.2.2
    rw [add_assoc, add_assoc, ← add_assoc 1] at hval
    rw [optionValues, map_cons, ih hos]
    rw [Int.toNat_natCast, headLength, hval.slice_eq]

/-- If the options are enumerated as they are, then the position behind them fits. -/
theorem fits_of_nextOptions : ∀ {os : List NumberedOption} {pos prev offset num : Nat},
    OptionsAt mem pkt pos prev os → pkt.buf + offset = pos →
    nextOptions cfg mem pkt (os.length + 1) (some ⟨num, offset % 2 ^ 16⟩) = optionValues pos prev os →
    offset + (encodeOptions prev os).length < 2 ^ 16 := by
  intro os
  induction os with
  | nil =>
    intro pos prev offset num h hpos heq
    rw [encodeOptions_nil, length_nil]
    rw [nextOptions] at heq
    have hp := h.payload
    have hnone : (coapOptGetNext cfg mem pkt (some ⟨num, offset % 2 ^ 16⟩)).1 = -ENOENT := by
      by_contra hne
      dsimp only at heq
      rw [if_neg hne] at heq
      exact absurd heq (cons_ne_nil _ _)
    have hbehind := payload_of_next hnone
    dsimp only at hbehind
    omega
  | cons o os ih =>
    intro pos prev offset num h hpos heq
    have hsize := @length_encodeOption_eq (o.1 - prev) o.2
    rw [encodeOptions_cons, length_append, ← add_assoc]
    rw [length_cons, nextOptions] at heq
    rcases hnext : coapOptGetNext cfg mem pkt (some ⟨num, offset % 2 ^ 16⟩) with ⟨len, opt', a⟩
    rw [hnext] at heq
    dsimp only at heq
    have hne : len ≠ -ENOENT := by
      rintro rfl
      rw [if_pos rfl] at heq
      exact absurd heq.symm (cons_ne_nil _ _)
    rw [if_neg hne, optionValues] at heq
    obtain ⟨hhead, hrest⟩ := cons.inj heq
    obtain ⟨-, hval⟩ := mk.inj hhead
    cases hval
    -- the position is right modulo 2 ^ 16, whatever the number is
    have hoffset : opt' = ⟨opt'.optNum, (offset + (encodeOption (o.1 - prev) o.2).length) % 2 ^ 16⟩ := by
      have := offset_of_next hnext hne
      rw [OptPos.mk.injEq]
      refine ⟨rfl, ?_⟩
      omega
    rw [hoffset] at hrest
    exact ih h.tail (by omega) hrest

/-! ## Single options -/

theorem OptionsAt.drop (h : OptionsAt mem pkt pos prev (pre ++ os)) :
    OptionsAt mem pkt (pos + (encodeOptions prev pre).length) (lastNumber prev pre) os := by
  induction pre generalizing pos prev with
  | nil => exact h
  | cons o pre ih =>
    rw [encodeOptions_cons, length_append, ← add_assoc]
    exact ih h.tail

theorem OptionsAt.parseOption_at (h : OptionsAt mem pkt start 0 (pre ++ (num, value) :: post)) :
    ∃ a, parseOption mem pkt (start + (encodeOptions 0 pre).length) =
        some (a, (num - lastNumber 0 pre) % 2 ^ 16, (value.length : Int)) ∧
      a + value.length = start + (encodeOptions 0 (pre ++ [(num, value)])).length ∧
      IsValue mem start (pre ++ (num, value) :: post) num a value.length := by
  have hd := h.drop
  have hsum : start + (encodeOptions 0 pre).length + headLength (num - lastNumber 0 pre) value.length +
      value.length = start + (encodeOptions 0 (pre ++ [(num, value)])).length := by
    rw [encodeOptions_append, length_append, encodeOptions_cons, encodeOptions_nil, append_nil,
      length_encodeOption_eq]
    dsimp only
    omega
  have hval := (parts_of_holds (holds_append.mp hd.holds).1).2.2.2.2.2
  refine ⟨_, hd.parseOption_head, hsum, pre, value, post, rfl, rfl, ?_, hsum⟩
  unfold headLength
  rw [← add_assoc, ← add_assoc]
  exact hval

theorem mem_entriesFrom {e : OptPos} (h : e ∈ entriesFrom offset prev os) :
    ∃ pre value post, os = pre ++ (e.optNum, value) :: post ∧
      e.offset = offset + (encodeOptions prev pre).length := by
  induction os generalizing offset prev with
  | nil => exact absurd h not_mem_nil
  | cons o os ih =>
    have hlater : e ∈ entriesFrom (offset + (encodeOption (o.1 - prev) o.2).length) o.1 os →
        ∃ pre value post, o :: os = pre ++ (e.optNum, value) :: post ∧
          e.offset = offset + (encodeOptions prev pre).length := by
      intro h
      obtain ⟨pre, value, post, rfl, hoff⟩ := ih h
      refine ⟨o :: pre, value, post, rfl, ?_⟩
      rw [encodeOptions_cons, length_append, hoff, add_assoc]
    simp only [entriesFrom] at h
    split at h
    · exact hlater h
    · obtain rfl | h := mem_cons.mp h
      · exact ⟨[], o.2, os, rfl, rfl⟩
      · exact hlater h

theorem findOptionFrom_spec {options : Memory OptPos} : ∀ {n i j : Nat},
    findOptionFrom options num i n = some j → i ≤ j ∧ j < i + n ∧ (options j).optNum = num := by
  intro n
  induction n with
  | zero =>
    intro i j h
    exact absurd h (by simp [findOptionFrom])
  | succ n ih =>
    intro i j h
    rw [findOptionFrom] at h
    split at h
    · rename_i hi
      cases h
      exact ⟨le_refl _, by omega, hi⟩
    · obtain ⟨h1, h2, h3⟩ := ih h
      exact ⟨by omega, by omega, h3⟩

/-- The context holds an entry for each option whose number is not the one before. -/
structure HasEntries (pkt : Pkt) (offset : Nat) (os : List NumberedOption) : Prop where
  count : pkt.optionsLen = (entriesFrom offset 0 os).length
  entries : Holds pkt.options 0 (entriesFrom offset 0 os)

theorem HasEntries.find (h : HasEntries pkt offset os) (hfind : (coapFindOption pkt num).1 ≠ 0) :
    ∃ pre value post, os = pre ++ (num, value) :: post ∧
      (coapFindOption pkt num).1 = pkt.buf + offset + (encodeOptions 0 pre).length := by
  unfold coapFindOption at hfind ⊢
  cases hj : findOptionFrom pkt.options num 0 pkt.optionsLen with
  | none =>
    rw [hj] at hfind
    exact absurd rfl hfind
  | some j =>
    obtain ⟨-, hlt, hnum⟩ := findOptionFrom_spec hj
    rw [h.count, zero_add] at hlt
    have hent := holds_iff.mp h.entries j hlt
    rw [zero_add] at hent
    obtain ⟨pre, value, post, heq, hoff⟩ := mem_entriesFrom (getElem_mem hlt)
    rw [← hent] at heq hoff
    rw [hnum] at heq
    refine ⟨pre, value, post, heq, ?_⟩
    dsimp only
    rw [hoff, add_assoc]

/-- **`coap_opt_get_opaque` returns values of options with the number asked for.** -/
theorem OptionsAt.getOpaque {r : Int} {a : Nat} (h : OptionsAt mem pkt (pkt.buf + offset) 0 os)
    (he : HasEntries pkt offset os) (hget : coapOptGetOpaque mem pkt num = (r, a)) :
    r < 0 ∨ IsValue mem (pkt.buf + offset) os num a r := by
  unfold coapOptGetOpaque at hget
  dsimp only at hget
  split at hget
  · obtain rfl := (mk.inj hget).1
    exact .inl (by decide)
  · rename_i hne
    obtain ⟨pre, value, post, rfl, hfind⟩ := he.find hne
    obtain ⟨a', hparse, -, hval⟩ := h.parseOption_at
    rw [hfind, hparse] at hget
    obtain ⟨rfl, rfl⟩ := hget
    exact .inr hval

/-- The positions that `coap_iterate_option` comes to: none yet, or behind an option with
the number asked for. -/
def IteratePos (start : Nat) (os : List NumberedOption) (num optPos : Nat) : Prop :=
  optPos = 0 ∨ ∃ pre value post, os = pre ++ (num, value) :: post ∧
    optPos = start + (encodeOptions 0 (pre ++ [(num, value)])).length

theorem OptionsAt.iterate_call {optPos : Nat} (h : OptionsAt mem pkt (pkt.buf + offset) 0 os)
    (he : HasEntries pkt offset os) (hnum : ∀ o ∈ os, o.1 < 2 ^ 16)
    (hpos : IteratePos (pkt.buf + offset) os num optPos) :
    (coapIterateOption mem pkt num optPos).1 = 0 ∨ ∃ a n optPos',
      coapIterateOption mem pkt num optPos = (a, n, optPos') ∧
      IsValue mem (pkt.buf + offset) os num a n ∧ IteratePos (pkt.buf + offset) os num optPos' := by
  unfold coapIterateOption
  by_cases h0 : optPos = 0
  · rw [if_pos h0]
    by_cases hfind : (coapFindOption pkt num).1 = 0
    · rw [if_pos hfind]
      exact .inl rfl
    · obtain ⟨pre, value, post, rfl, hstart⟩ := he.find hfind
      obtain ⟨a, hparse, hsum, hval⟩ := h.parseOption_at
      rw [if_neg hfind, hstart, hparse]
      dsimp only
      rw [if_pos (.inl h0)]
      refine .inr ⟨_, _, _, rfl, hval, .inr ⟨pre, value, post, rfl, ?_⟩⟩
      rw [← hsum]
      rfl
  · obtain ⟨pre, value, post, rfl, rfl⟩ := hpos.resolve_left h0
    rw [if_neg h0, if_neg h0]
    have h' : OptionsAt mem pkt (pkt.buf + offset) 0 ((pre ++ [(num, value)]) ++ post) := by
      rw [append_assoc]
      exact h
    cases post with
    | nil =>
      rw [h'.drop.parseOption_nil]
      exact .inl rfl
    | cons o post =>
      obtain ⟨k, v⟩ := o
      obtain ⟨a, hparse, hsum, hval⟩ := h'.parseOption_at
      have hlast : lastNumber 0 (pre ++ [(num, value)]) = num := by
        rw [lastNumber_append]
        rfl
      have hle := h'.drop.encodable.1
      have hlt := hnum (k, v) (by simp)
      rw [hparse, hlast]
      dsimp only at hle hlt ⊢
      by_cases hdelta : (k - num) % 2 ^ 16 = 0
      · rw [if_pos (.inr hdelta)]
        obtain rfl : num = k := by omega
        rw [← append_cons] at hval
        refine .inr ⟨_, _, _, rfl, hval, .inr ⟨pre ++ [(num, value)], v, post, ?_, ?_⟩⟩
        · rw [← append_cons]
        · rw [← hsum]
          rfl
      · rw [if_neg (not_or.mpr ⟨h0, hdelta⟩)]
        exact .inl rfl

/-- **`coap_iterate_option` returns values of options with the number asked for**, if
numbers fit. -/
theorem OptionsAt.iterate (h : OptionsAt mem pkt (pkt.buf + offset) 0 os)
    (he : HasEntries pkt offset os) (hnum : ∀ o ∈ os, o.1 < 2 ^ 16) : ∀ {fuel optPos : Nat},
    IteratePos (pkt.buf + offset) os num optPos →
    ∀ x ∈ iterateOptions mem pkt num fuel optPos, IsValue mem (pkt.buf + offset) os num x.1 x.2 := by
  intro fuel
  induction fuel with
  | zero =>
    intro optPos _ x hx
    exact absurd hx not_mem_nil
  | succ fuel ih =>
    intro optPos hpos x hx
    rw [iterateOptions] at hx
    obtain hnull | ⟨a, n, optPos', hcall, hval, hpos'⟩ := h.iterate_call he hnum hpos
    · dsimp only at hx
      rw [if_pos hnull] at hx
      exact absurd hx not_mem_nil
    · rw [hcall] at hx
      dsimp only at hx
      split at hx
      · exact absurd hx not_mem_nil
      · obtain rfl | hx := mem_cons.mp hx
        · exact hval
        · exact ih hpos' x hx

end Riot.Nanocoap
