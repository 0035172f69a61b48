import Riot.Unicoap.Lookup
import Riot.Lib.BigEndian

/-!
# Options with unsigned values

A number is stored in as few bytes as possible: the writer counts them, and zero takes none. The
reader switches on the length of the value, and there is no case for an empty one.
-/

namespace Riot.Unicoap

open Riot.Lib Memory List Option Nat Prod
open UInt8 hiding size

/-! ## Writing and reading a number -/

/-- The loop of `_encode_variable_uint` that counts the used bytes. -/
def usedBytes : Nat → UInt32 → Nat
  | 0, _ => 0
  | fuel + 1, tmp => if tmp = 0 then 0 else usedBytes fuel (tmp >>> 8) + 1

/-- `htonl`, as bytes -/
def htonl (value : UInt32) : List UInt8 :=
  [(value >>> 24).toUInt8, (value >>> 16).toUInt8, (value >>> 8).toUInt8, value.toUInt8]

/-- `_encode_variable_uint`: the bytes of the value, from the first one that is used on. -/
def encodeVariableUint (value : UInt32) : List UInt8 := (htonl value).drop (4 - usedBytes 5 value)

def unicoapOptionsSetUint (cfg : Cfg) (s : Store) (number : Nat) (value : UInt32) : Option (Int × Store) :=
  unicoapOptionsSet cfg s number (encodeVariableUint value)

def unicoapOptionsAddUint (cfg : Cfg) (s : Store) (number : Nat) (value : UInt32) : Option (Int × Store) :=
  unicoapOptionsAdd cfg s number (encodeVariableUint value)

/-- `_ntoh_variable`; there is no result where it reaches `UNREACHABLE`. -/
def ntohVariable (mem : Memory UInt8) (src : Nat) : Nat → Option Nat
  | 1 => some (mem src).toNat
  | 2 => some (bebuftohs (mem src) (mem (src + 1)))
  | 3 => some (bebuftohs (mem src) (mem (src + 1)) <<< 8 ||| (mem (src + 2)).toNat)
  | 4 => some ((mem src).toNat <<< 24 ||| (mem (src + 1)).toNat <<< 16 ||| (mem (src + 2)).toNat <<< 8 |||
      (mem (src + 3)).toNat)
  | _ => none

/-- `_unicoap_options_get_variable_uint`: the number and the size of the option, or an error. There
is no result where the assertion is violated or `UNREACHABLE` is reached. -/
def unicoapOptionsGetVariableUint (s : Store) (number maxSize : Nat) : Option (Except Int (Nat × Nat)) :=
  if maxSize ≤ 4 then
    match unicoapOptionsGet s number with
    | .error e => some (.error e)
    | .ok (src, size) =>
      if maxSize < size then some (.error (-EBADOPT))
      else (ntohVariable s.mem src size).map fun uint => .ok (uint, size)
  else none

variable {mem : Memory UInt8} {a src size delta : Nat} {v : UInt32} {value bs cs : List UInt8}

/-! ## The bytes of a number -/

theorem ntohVariable_eq (h0 : 0 < size) (h4 : size ≤ 4) :
    ntohVariable mem src size = some (ofBytes (slice mem src size)) := by
  have hor (x k : Nat) (b : Nat) (hb : b < 2 ^ k) : x <<< k ||| b = 2 ^ k * x + b := by
    rw [shiftLeft_eq, mul_comm, two_pow_add_eq_or_of_lt hb]
  have hlt (b : UInt8) : b.toNat < 2 ^ 8 := b.toNat_lt
  have h1 := hlt (mem (src + 1))
  have h2 := hlt (mem (src + 2))
  have h3 := hlt (mem (src + 3))
  obtain rfl | rfl | rfl | rfl : size = 1 ∨ size = 2 ∨ size = 3 ∨ size = 4 := by omega
  · have hs : ofBytes (slice mem src 1) = 256 * 0 + (mem src).toNat := rfl
    rw [ntohVariable, hs, Nat.mul_zero, Nat.zero_add]
  · have hs : ofBytes (slice mem src 2) = 256 * (256 * 0 + (mem src).toNat) + (mem (src + 1)).toNat := rfl
    rw [ntohVariable, hs, bebuftohs, Nat.mul_zero, Nat.zero_add]
  · have hs : ofBytes (slice mem src 3) =
        256 * (256 * (256 * 0 + (mem src).toNat) + (mem (src + 1)).toNat) + (mem (src + 2)).toNat := rfl
    rw [ntohVariable, hor _ 8 _ h2, hs, bebuftohs]
    congr 1
    omega
  · have hs : ofBytes (slice mem src 4) =
        256 * (256 * (256 * (256 * 0 + (mem src).toNat) + (mem (src + 1)).toNat) + (mem (src + 2)).toNat) +
          (mem (src + 3)).toNat := rfl
    rw [ntohVariable, Nat.or_assoc, Nat.or_assoc, hor _ 8 _ h3, hor _ 16 _ (by omega), hor _ 24 _ (by omega), hs]
    congr 1
    omega

theorem usedBytes_eq (fuel : Nat) : usedBytes fuel v = byteCount fuel v.toNat := by
  induction fuel generalizing v with
  | zero => rfl
  | succ fuel ih =>
    have hshift : (v >>> 8).toNat = v.toNat / 256 := by
      exact shiftRight_eq_div_pow _ 8
    have hzero : v = 0 ↔ v.toNat = 0 := (UInt32.toNat_inj (b := 0)).symm
    rw [usedBytes, byteCount, ih, hshift]
    simp only [hzero]

theorem htonl_eq : htonl v = toBytes 4 v.toNat := by
  have hbyte (k : UInt32) : (v >>> k).toUInt8 = ofNat (v.toNat / 2 ^ (k.toNat % 32)) := by
    rw [← UInt8.toNat_inj, UInt32.toNat_toUInt8, UInt32.toNat_shiftRight, Nat.shiftRight_eq_div_pow]
    rfl
  show [_, _, _, _] = [ofNat (v.toNat / 256 / 256 / 256), ofNat (v.toNat / 256 / 256),
    ofNat (v.toNat / 256), ofNat v.toNat]
  rw [hbyte, hbyte, hbyte, Nat.div_div_eq_div_mul, Nat.div_div_eq_div_mul, Nat.div_div_eq_div_mul]
  rfl

theorem encodeVariableUint_eq : encodeVariableUint v = toBytes (byteCount 5 v.toNat) v.toNat := by
  have hle : byteCount 5 v.toNat ≤ 4 := byteCount_le_of_lt v.toNat_lt
  have hdrop := @drop_toBytes (4 - byteCount 5 v.toNat) (byteCount 5 v.toNat) v.toNat
  rw [Nat.sub_add_cancel hle] at hdrop
  rw [encodeVariableUint, usedBytes_eq, htonl_eq, hdrop]

/-! ## Reading an option back -/

/-- What the reader makes of an option: behind a delta extended by two bytes it takes one byte too
early. -/
def readUint (delta : Nat) (value : List UInt8) : Option (Except Int (Nat × Nat)) :=
  if 4 < value.length then some (.error (-EBADOPT))
  else if value = [] then none
  else
    let bytes := if delta < 269 then value else (UInt8.ofNat (delta - 269) :: value).take value.length
    some (.ok (ofBytes bytes, value.length))

theorem readOption_uint (hv : value.length ≤ fieldMax) (hm : Holds mem a (encodeOption delta value)) :
    ∃ p size, readOption mem a = .ok (p, size) ∧ (4 < value.length → 4 < size) ∧
      (value.length ≤ 4 → size = value.length ∧ slice mem p size =
        if delta < 269 then value else (ofNat (delta - 269) :: value).take value.length) := by
  by_cases h269 : delta < 269
  · obtain ⟨p, size, hread, hslice⟩ := (readOption_iff hv hm).mpr (.inl h269)
    have hsize : size = value.length := by rw [← hslice, length_slice]
    refine ⟨p, size, hread, fun h => hsize ▸ h, fun _ => ⟨hsize, ?_⟩⟩
    rw [if_pos h269, hslice]
  · obtain ⟨hread, hb⟩ := readOption_wide (Nat.le_of_not_lt h269) hm
    rw [hread, if_neg h269]
    by_cases h13 : value.length < 13
    · have hnib : fieldNibble value.length = value.length := by rw [fieldNibble, if_pos h13]
      rw [fieldExt, if_pos h13, nil_append] at hb
      rw [hnib, uintRead, if_pos h13]
      refine ⟨a + 1 + 1, value.length, rfl, id, fun _ => ⟨rfl, ?_⟩⟩
      have htake : Holds mem (a + 1 + 1) ((ofNat (delta - 269) :: value).take value.length) := by
        rw [← take_append_drop value.length (ofNat (delta - 269) :: value), holds_append] at hb
        exact hb.1
      have hs := htake.slice_eq
      rwa [length_take, length_cons, min_eq_left (le_succ _)] at hs
    · -- a length of 13 or more is read as one of 13 or more
      have hlong : ¬ value.length ≤ 4 := by omega
      have hnib : fieldNibble value.length = 13 ∨ fieldNibble value.length = 14 := by
        rw [fieldNibble, if_neg h13]
        split
        · exact .inl rfl
        · exact .inr rfl
      rcases hnib with hnib | hnib
      · rw [hnib]
        exact ⟨_, _, rfl, fun _ => lt_of_lt_of_le (by decide) (le_add_right 13 _), fun h => absurd h hlong⟩
      · rw [hnib]
        exact ⟨_, _, rfl, fun _ => lt_of_lt_of_le (by decide) (le_add_right (14 + 0xff) _),
          fun h => absurd h hlong⟩

theorem length_encodeVariableUint_le : (encodeVariableUint v).length ≤ 4 := by
  unfold encodeVariableUint
  rw [length_drop]
  exact sub_le _ _

theorem ofBytes_encodeVariableUint : ofBytes (encodeVariableUint v) = v.toNat := by
  rw [encodeVariableUint_eq, ofBytes_toBytes (lt_pow_byteCount (lt_trans v.toNat_lt (by decide)))]

section

variable {cfg : Cfg} {base n : Nat} {s st : Store} {o : NumberedOption} {os pre post : List NumberedOption}

theorem Stored.readUint_eq (h : Stored cfg base st (pre ++ o :: post)) (hpre : ∀ o ∈ pre, o.1 < n)
    (ho : o.1 = n) : unicoapOptionsGetVariableUint st n 4 = readUint (n - lastNumber 0 pre) o.2 := by
  subst ho
  obtain ⟨-, -, hv, -⟩ := h.encodable_at
  have hm := h.option_mem
  rw [holds_append] at hm
  obtain ⟨p, size, hread, hlong, hshort⟩ := readOption_uint hv hm.1
  unfold unicoapOptionsGetVariableUint readUint
  rw [if_pos (le_refl 4), unicoapOptionsGet, h.findOptionIndex_eq hpre rfl]
  dsimp only
  rw [h.entry, hread]
  dsimp only
  by_cases h4 : 4 < o.2.length
  · rw [if_pos h4, if_pos (hlong h4)]
  · obtain ⟨rfl, hslice⟩ := hshort (Nat.le_of_not_lt h4)
    by_cases hnil : o.2 = []
    · rw [if_pos hnil, hnil]
      rfl
    · rw [if_neg hnil, ntohVariable_eq (length_pos_of_ne_nil hnil) (Nat.le_of_not_lt h4), hslice]
      rfl

/-! ## Calls on an object with room -/

/-- The options after the call are few and small enough for the object. -/
def HasRoom (cfg : Cfg) (s : Store) (os : List NumberedOption) (c : OptionsCall) : Prop :=
  (c.apply os).length ≤ cfg.optionsMax ∧ (encodeOptions 0 (c.apply os)).length ≤ s.options.storageCapacity

instance (c : OptionsCall) : Decidable (HasRoom cfg s os c) := inferInstanceAs (Decidable (_ ∧ _))

theorem small_append {prev b : Nat} (hpre : ∀ e ∈ entriesOf a prev pre, e.size < 2 ^ 16)
    (hpost : ∀ e ∈ entriesOf b (lastNumber prev pre) post, e.size < 2 ^ 16) :
    ∀ e ∈ entriesOf a prev (pre ++ post), e.size < 2 ^ 16 := by
  intro e he
  rw [entriesOf_append, mem_append] at he
  rcases he with he | he
  · exact hpre e he
  · obtain ⟨e', he', hsize⟩ := size_of_mem_entriesOf (b := b) he
    exact hsize ▸ hpost e' he'

/-- A short value in front of options that fit: the delta of the first of them gets smaller. -/
theorem Fits.small_insert (h : Fits (pre ++ post)) (hv : value.length ≤ 4) (hle : lastNumber 0 pre ≤ n) :
    Small (pre ++ (n, value) :: post) := by
  have hsize := h.size
  rw [entriesOf_append] at hsize
  have hpre : ∀ e ∈ entriesOf 0 0 pre, e.size < 2 ^ 16 := fun e he => hsize e (mem_append_left _ he)
  have hpost : ∀ e ∈ entriesOf (0 + (encodeOptions 0 pre).length) (lastNumber 0 pre) post, e.size < 2 ^ 16 :=
    fun e he => hsize e (mem_append_right _ he)
  refine small_append (b := 0) hpre fun e he => ?_
  rw [entriesOf_cons, mem_cons] at he
  rcases he with rfl | he
  · have hd := @length_fieldExt_le (n - lastNumber 0 pre)
    have hl := @length_fieldExt_le value.length
    show (encodeOption (n - lastNumber 0 pre) value).length < 2 ^ 16
    rw [length_encodeOption]
    omega
  · cases post with
    | nil => exact absurd he not_mem_nil
    | cons o post =>
      rw [entriesOf_cons, mem_cons] at he
      rw [entriesOf_cons, forall_mem_cons] at hpost
      rcases he with rfl | he
      · have hmono := @length_fieldExt_mono (o.1 - n) (o.1 - lastNumber 0 pre) (by omega)
        have ho : (encodeOption (o.1 - lastNumber 0 pre) o.2).length < 2 ^ 16 := hpost.1
        show (encodeOption (o.1 - n) o.2).length < 2 ^ 16
        rw [length_encodeOption] at ho ⊢
        omega
      · obtain ⟨e', he', hsize⟩ := size_of_mem_entriesOf he
        exact hsize ▸ hpost.2 e' he'

theorem Fits.small_replace (h : Fits (pre ++ o :: post)) (hv : value.length ≤ 4) (ho : o.1 = n) :
    Small (pre ++ (n, value) :: post) := by
  subst ho
  have hsize := h.size
  rw [entriesOf_append, entriesOf_cons] at hsize
  refine small_append (b := 0) (fun e he => hsize e (mem_append_left _ he)) fun e he => ?_
  rw [entriesOf_cons, mem_cons] at he
  rcases he with rfl | he
  · have hd := @length_fieldExt_le (o.1 - lastNumber 0 pre)
    have hl := @length_fieldExt_le value.length
    show (encodeOption (o.1 - lastNumber 0 pre) value).length < 2 ^ 16
    rw [length_encodeOption]
    omega
  · obtain ⟨e', he', heq⟩ := size_of_mem_entriesOf he
    rw [← heq]
    exact hsize e' (mem_append_right _ (mem_cons_of_mem _ he'))

theorem Stored.add_room (h : Stored cfg base s os) (hn : n < 2 ^ 16) (hv : value.length ≤ 4)
    (hmax : (insertOption n value os).length ≤ cfg.optionsMax)
    (hcap : (encodeOptions 0 (insertOption n value os)).length ≤ s.options.storageCapacity)
    (hroom : (∃ o ∈ os, n < o.1) → s.options.storageSize < s.options.storageCapacity) :
    ∃ s', unicoapOptionsAdd cfg s n value = some (0, s') ∧ Stored cfg base s' (insertOption n value os) := by
  have hvmax : value.length ≤ uintMax := le_trans hv (by decide)
  obtain ⟨pre, post, rfl, hpre, hpost⟩ := exists_split n os
  rw [insertOption_eq hpre hpost] at hmax hcap ⊢
  rw [length_append, length_cons] at hmax
  have hfits := h.fits.insert hpre hpost hn hvmax (h.fits.small_insert hv (lastNumber_le hpre (zero_le n)))
  cases post with
  | nil =>
    rw [append_nil] at h
    obtain ⟨s', hs', hstep⟩ := (h.add_last hpre hn hvmax (by rw [length_nil] at hmax; omega)).2 hfits hcap
    exact ⟨s', hs', hstep.stored⟩
  | cons o post =>
    have hlt : n < o.1 := hpost o post rfl
    obtain ⟨s', hs', hstep⟩ := (h.add_before hpre hlt hvmax
      (by rw [length_append]; omega)).2 hfits hcap (hroom ⟨o, by simp, hlt⟩)
    exact ⟨s', hs', hstep.stored⟩

theorem Stored.set_room (h : Stored cfg base s os) (hn : n < 2 ^ 16) (hv : value.length ≤ 4)
    (hmax : (setOption n value os).length ≤ cfg.optionsMax)
    (hcap : (encodeOptions 0 (setOption n value os)).length ≤ s.options.storageCapacity)
    (hroom : (if ∃ o ∈ os, o.1 = n then 1 < (os.dropWhile fun o => o.1 ≠ n).length else ∃ o ∈ os, n < o.1) →
      s.options.storageSize < s.options.storageCapacity) :
    ∃ s', unicoapOptionsSet cfg s n value = some (0, s') ∧ Stored cfg base s' (setOption n value os) := by
  have hvmax : value.length ≤ uintMax := le_trans hv (by decide)
  unfold setOption at hmax hcap ⊢
  by_cases hex : ∃ o ∈ os, o.1 = n
  · rw [if_pos hex] at hmax hcap hroom ⊢
    obtain ⟨pre, o, post, rfl, hpre, ho⟩ := exists_first h.fits.encodable hex
    rw [dropWhile_eq hpre ho, length_cons] at hroom
    rw [replaceOption_eq hpre ho] at hcap ⊢
    have hfits := h.fits.replace ho hvmax (h.fits.small_replace hv ho)
    obtain ⟨s', hs', hstep⟩ := (h.set_replace hpre ho hvmax).2 hfits hcap fun hne =>
      hroom (succ_lt_succ (length_pos_of_ne_nil hne))
    exact ⟨s', hs', hstep.stored⟩
  · rw [if_neg hex] at hmax hcap hroom ⊢
    have e : unicoapOptionsSet cfg s n value = unicoapOptionsAdd cfg s n value := by
      unfold unicoapOptionsSet
      rw [if_neg (by rw [h.data]; simp [hvmax, h.base_ne]),
        h.findOptionIndex_eq_none fun o ho heq => hex ⟨o, ho, heq⟩]
    rw [e]
    exact h.add_room hn hv hmax hcap hroom

/-! ## Calls on a full object -/

theorem shiftOptions_full {i : Nat} {d : Int} (hfull : s.options.storageCapacity ≤ s.options.storageSize)
    (hi : i < s.options.optionCount) (hdata : (s.options.entries 0).data ≤ (s.options.entries i).data) :
    shiftOptions s i d = none ∨ shiftOptions s i d = some (-ENOBUFS, s) := by
  have hmove (dest : Nat) : moveOptionsInStorageBuffer s dest (s.options.entries i).data = none := by
    unfold moveOptionsInStorageBuffer
    rw [if_neg (by omega)]
  unfold shiftOptions
  dsimp only
  split
  · exact .inr rfl
  · rw [hmove]
    exact .inl rfl

theorem Stored.data_le (h : Stored cfg base s os) {i : Nat} (hi : i < s.options.optionCount) :
    (s.options.entries 0).data ≤ (s.options.entries i).data := by
  rw [h.count] at hi
  obtain ⟨pre, o, post, rfl, rfl⟩ : ∃ pre o post, os = pre ++ o :: post ∧ pre.length = i :=
    ⟨os.take i, os[i], os.drop (i + 1), by simp, by simp; omega⟩
  rw [h.entry, h.data]
  exact le_add_right _ _

theorem Stored.add_full (h : Stored cfg base s os) (hfull : s.options.storageCapacity ≤ s.options.storageSize)
    (hmoves : ∃ o ∈ os, n < o.1) (s' : Store) : unicoapOptionsAdd cfg s n value ≠ some (0, s') := by
  obtain ⟨pre, post, rfl, hpre, hpost⟩ := exists_split n os
  cases post with
  | nil =>
    obtain ⟨o, ho, hlt⟩ := hmoves
    rw [append_nil] at ho
    have := hpre o ho
    omega
  | cons o post =>
    have hi : pre.length < s.options.optionCount := by
      rw [h.count, length_append, length_cons]
      omega
    unfold unicoapOptionsAdd
    dsimp only
    rw [h.skip_le hpre hpost]
    intro heq
    split at heq
    · cases heq
    · split at heq
      · exact absurd (mk.inj (some.inj heq)).1 (by decide)
      · rw [if_neg (Nat.ne_of_lt hi)] at heq
        rcases shiftOptions_full hfull hi (h.data_le hi) with hshift | hshift
        · rw [hshift] at heq
          cases heq
        · rw [hshift] at heq
          exact absurd (mk.inj (some.inj heq)).1 (by decide)

theorem Stored.set_full (h : Stored cfg base s os) (hfull : s.options.storageCapacity ≤ s.options.storageSize)
    (hmoves : if ∃ o ∈ os, o.1 = n then 1 < (os.dropWhile fun o => o.1 ≠ n).length else ∃ o ∈ os, n < o.1)
    (s' : Store) : unicoapOptionsSet cfg s n value ≠ some (0, s') := by
  intro heq
  unfold unicoapOptionsSet at heq
  dsimp only at heq
  split at heq
  · cases heq
  by_cases hex : ∃ o ∈ os, o.1 = n
  · rw [if_pos hex] at hmoves
    obtain ⟨pre, o, post, rfl, hpre, ho⟩ := exists_first h.fits.encodable hex
    rw [dropWhile_eq hpre ho, length_cons] at hmoves
    have hi : pre.length + 1 < s.options.optionCount := by
      rw [h.count, length_append, length_cons]
      omega
    rw [h.findOptionIndex_eq hpre ho] at heq
    dsimp only at heq
    rcases shiftOptions_full hfull hi (h.data_le hi) with hshift | hshift
    · rw [hshift] at heq
      cases heq
    · rw [hshift] at heq
      exact absurd (mk.inj (some.inj heq)).1 (by decide)
  · rw [if_neg hex] at hmoves
    rw [h.findOptionIndex_eq_none fun o ho heq => hex ⟨o, ho, heq⟩] at heq
    exact h.add_full hfull hmoves s' heq

/-! ## Round trips -/

/-- Reading the option with a maximum of four bytes gives the value. -/
def ReadsBack (s : Store) (n : Nat) (v : UInt32) : Prop :=
  ∃ size, unicoapOptionsGetVariableUint s n 4 = some (.ok (v.toNat, size))

/-- The call succeeds, and the value can be read back. -/
def RoundTrips (res : Option (Int × Store)) (n : Nat) (v : UInt32) : Prop :=
  ∃ s', res = some (0, s') ∧ ReadsBack s' n v

/-- The value is not empty, and the reader gets it from behind the options of smaller numbers. -/
def UintReads (os : List NumberedOption) (n : Nat) (value : List UInt8) : Prop :=
  value ≠ [] ∧ ReadsRight (n - lastNumber 0 (os.takeWhile fun o => o.1 < n)) value

instance : Decidable (UintReads os n value) := inferInstanceAs (Decidable (_ ∧ _))

/-- Setting: nothing is moved in a full storage, and the reader gets the bytes of the value. -/
def SetUintReads (s : Store) (os : List NumberedOption) (n : UInt16) (v : UInt32) : Prop :=
  ((OptionsCall.set n (encodeVariableUint v)).Moves os → s.options.storageSize < s.options.storageCapacity) ∧
    UintReads os n.toNat (encodeVariableUint v)

/-- Adding: the same; but where the number is there already its first option is read, which is read
as the value before. -/
def AddUintReads (s : Store) (os : List NumberedOption) (n : UInt16) (v : UInt32) : Prop :=
  ((OptionsCall.add n (encodeVariableUint v)).Moves os → s.options.storageSize < s.options.storageCapacity) ∧
    if ∃ o ∈ os, o.1 = n.toNat then ReadsBack s n.toNat v else UintReads os n.toNat (encodeVariableUint v)

theorem take_cons_eq_iff {b : UInt8} : (b :: value).take value.length = value ↔ ∀ x ∈ value, x = b := by
  induction value generalizing b with
  | nil => exact ⟨fun _ x hx => absurd hx not_mem_nil, fun _ => rfl⟩
  | cons c value ih =>
    rw [length_cons, take_succ_cons, cons.injEq, ih, forall_mem_cons]
    constructor
    · rintro ⟨rfl, h⟩
      exact ⟨rfl, h⟩
    · rintro ⟨rfl, h⟩
      exact ⟨rfl, h⟩

/-- What the reader makes of a short option is its value exactly if it is not empty and read right. -/
theorem readUint_iff (h4 : value.length ≤ 4) :
    readUint delta value = some (.ok (ofBytes value, value.length)) ↔ value ≠ [] ∧ ReadsRight delta value := by
  unfold readUint ReadsRight
  rw [if_neg (not_lt.mpr h4), fieldExt, if_pos (lt_of_le_of_lt h4 (by decide)), nil_append]
  by_cases hnil : value = []
  · rw [if_pos hnil]
    exact ⟨fun h => absurd h (by simp), fun h => absurd hnil h.1⟩
  rw [if_neg hnil, and_iff_right hnil]
  by_cases h269 : delta < 269
  · rw [if_pos h269]
    exact ⟨fun _ => .inl h269, fun _ => rfl⟩
  · rw [if_neg h269, or_iff_right h269, ← take_cons_eq_iff]
    constructor
    · intro h
      have hbytes := (mk.inj (Except.ok.inj (some.inj h))).1
      refine ofBytes_inj ?_ hbytes
      rw [length_take, length_cons]
      exact min_eq_left (le_succ _)
    · intro h
      rw [h]

theorem readUint_size {x : Nat} (h : readUint delta value = some (.ok (x, size))) : size = value.length := by
  unfold readUint at h
  split at h
  · cases h
  · split at h
    · cases h
    · exact ((mk.inj (Except.ok.inj (some.inj h))).2).symm

theorem takeWhile_eq (hpre : ∀ o ∈ pre, o.1 < n) (hpost : ∀ o post', post = o :: post' → n ≤ o.1) :
    (pre ++ post).takeWhile (fun o => o.1 < n) = pre := by
  rw [takeWhile_append_of_pos (by simpa using hpre)]
  cases post with
  | nil => exact append_nil _
  | cons o post =>
    rw [takeWhile_cons_of_neg (by simpa using hpost o post rfl), append_nil]

/-- The value written last is read back exactly if it is not empty and read right. -/
theorem Stored.readsBack_iff (h : Stored cfg base st (pre ++ (n, encodeVariableUint v) :: post))
    (hpre : ∀ o ∈ pre, o.1 < n) : ReadsBack st n v ↔
      encodeVariableUint v ≠ [] ∧ ReadsRight (n - lastNumber 0 pre) (encodeVariableUint v) := by
  rw [ReadsBack, h.readUint_eq hpre rfl, ← readUint_iff length_encodeVariableUint_le, ofBytes_encodeVariableUint]
  constructor
  · rintro ⟨size, hread⟩
    rw [← readUint_size hread]
    exact hread
  · intro hread
    exact ⟨_, hread⟩

theorem exists_setOption (h : OptionsEncodable 0 os) : ∃ pre post,
    setOption n value os = pre ++ (n, value) :: post ∧ (∀ o ∈ pre, o.1 < n) ∧
      os.takeWhile (fun o => o.1 < n) = pre := by
  unfold setOption
  by_cases hex : ∃ o ∈ os, o.1 = n
  · obtain ⟨pre, o, post, rfl, hpre, ho⟩ := exists_first h hex
    rw [if_pos hex, replaceOption_eq hpre ho]
    refine ⟨pre, post, rfl, hpre, takeWhile_eq hpre fun o' post' heq => ?_⟩
    cases heq
    exact le_of_eq ho.symm
  · rw [if_neg hex]
    obtain ⟨pre, post, rfl, hpre, hpost⟩ := exists_split n os
    have hpre' : ∀ o ∈ pre, o.1 < n := by
      intro o ho
      have hne : o.1 ≠ n := fun heq => hex ⟨o, mem_append_left _ ho, heq⟩
      have hle := hpre o ho
      omega
    rw [insertOption_eq hpre hpost]
    exact ⟨pre, post, rfl, hpre', takeWhile_eq hpre' fun o post' heq => le_of_lt (hpost o post' heq)⟩

theorem insertOption_behind (hpre : ∀ o ∈ pre, o.1 < n) (ho : o.1 = n) :
    insertOption n value (pre ++ o :: post) = pre ++ o :: insertOption n value post := by
  induction pre with
  | nil => rw [nil_append, insertOption, if_pos (le_of_eq ho), nil_append]
  | cons o' pre ih =>
    have hle := hpre o' (by simp)
    rw [cons_append, insertOption, if_pos (le_of_lt hle), ih fun o ho => hpre o (by simp [ho]),
      cons_append]

/-- **Setting a number.** -/
theorem Stored.set_uint_iff {n : UInt16} (h : Stored cfg base s os)
    (hroom : HasRoom cfg s os (.set n (encodeVariableUint v))) :
    RoundTrips (unicoapOptionsSetUint cfg s n.toNat v) n.toNat v ↔ SetUintReads s os n v := by
  by_cases hmoves : (OptionsCall.set n (encodeVariableUint v)).Moves os →
      s.options.storageSize < s.options.storageCapacity
  · obtain ⟨s', hs', hstored⟩ := h.set_room n.toNat_lt length_encodeVariableUint_le hroom.1 hroom.2 hmoves
    obtain ⟨pre, post, heq, hpre, htake⟩ :=
      @exists_setOption (encodeVariableUint v) n.toNat os h.fits.encodable
    rw [heq] at hstored
    rw [SetUintReads, and_iff_right hmoves, UintReads, htake, ← hstored.readsBack_iff hpre]
    constructor
    · rintro ⟨s'', hs'', hread⟩
      obtain ⟨-, rfl⟩ := mk.inj (some.inj (hs'.symm.trans hs''))
      exact hread
    · intro hread
      exact ⟨s', hs', hread⟩
  · constructor
    · rintro ⟨s', hs', -⟩
      obtain ⟨hm, hfull⟩ := Classical.not_imp.mp hmoves
      exact absurd hs' (h.set_full (Nat.le_of_not_lt hfull) hm s')
    · intro hreads
      exact absurd hreads.1 hmoves

/-- **Adding a number.** -/
theorem Stored.add_uint_iff {n : UInt16} (h : Stored cfg base s os)
    (hroom : HasRoom cfg s os (.add n (encodeVariableUint v))) :
    RoundTrips (unicoapOptionsAddUint cfg s n.toNat v) n.toNat v ↔ AddUintReads s os n v := by
  by_cases hmoves : (OptionsCall.add n (encodeVariableUint v)).Moves os →
      s.options.storageSize < s.options.storageCapacity
  · obtain ⟨s', hs', hstored⟩ := h.add_room n.toNat_lt length_encodeVariableUint_le hroom.1 hroom.2 hmoves
    have hback : RoundTrips (unicoapOptionsAddUint cfg s n.toNat v) n.toNat v ↔ ReadsBack s' n.toNat v := by
      constructor
      · rintro ⟨s'', hs'', hread⟩
        obtain ⟨-, rfl⟩ := mk.inj (some.inj (hs'.symm.trans hs''))
        exact hread
      · intro hread
        exact ⟨s', hs', hread⟩
    rw [hback, AddUintReads, and_iff_right hmoves]
    by_cases hex : ∃ o ∈ os, o.1 = n.toNat
    · -- the first option of the number is the one that was there
      obtain ⟨pre, o, post, rfl, hpre, ho⟩ := exists_first h.fits.encodable hex
      rw [insertOption_behind hpre ho] at hstored
      rw [if_pos hex, ReadsBack, ReadsBack, hstored.readUint_eq hpre ho, h.readUint_eq hpre ho]
    · obtain ⟨pre, post, heq, hpre, htake⟩ :=
        @exists_setOption (encodeVariableUint v) n.toNat os h.fits.encodable
      rw [setOption, if_neg hex] at heq
      rw [heq] at hstored
      rw [if_neg hex, UintReads, htake, hstored.readsBack_iff hpre]
  · constructor
    · rintro ⟨s', hs', -⟩
      obtain ⟨hm, hfull⟩ := Classical.not_imp.mp hmoves
      exact absurd hs' (h.add_full (Nat.le_of_not_lt hfull) hm s')
    · intro hreads
      exact absurd hreads.1 hmoves

/-- **Reading an option of at most four bytes.** -/
theorem Stored.get_uint_iff (h : Stored cfg base s os) (hfind : os.find? (fun o => o.1 = n) = some o)
    (h4 : o.2.length ≤ 4) : unicoapOptionsGetVariableUint s n 4 = some (.ok (ofBytes o.2, o.2.length)) ↔
      UintReads os n o.2 := by
  have hex : ∃ o ∈ os, o.1 = n := ⟨o, mem_of_find?_eq_some hfind, by simpa using find?_some hfind⟩
  obtain ⟨pre, o', post, rfl, hpre, ho⟩ := exists_first h.fits.encodable hex
  have hfirst : (pre ++ o' :: post).find? (fun o => o.1 = n) = some o' := by
    rw [find?_append, find?_eq_none.mpr, find?_cons_of_pos (by simpa using ho)]
    · rfl
    · intro o1 ho1
      simpa using Nat.ne_of_lt (hpre o1 ho1)
  obtain rfl : o' = o := some.inj (hfirst.symm.trans hfind)
  have htake : (pre ++ o' :: post).takeWhile (fun o => o.1 < n) = pre := by
    refine takeWhile_eq hpre fun o1 post' heq => ?_
    cases heq
    exact le_of_eq ho.symm
  rw [h.readUint_eq hpre ho, readUint_iff h4, UintReads, htake]

end

/-- **Numbers written to an object and read back.** The object is one that parsing or initialization
and admissible calls produced. A number that there is room for can be read back, and an option of at
most four bytes is read as the number its bytes stand for, exactly if the option is not empty and the
reader gets it right. -/
theorem uint_right_iff (cfg : Cfg) (base : Nat) (σ : Session) (cs : List OptionsCall) (s : Store)
    (os : List NumberedOption) (hbase : base ≠ 0) (horigin : Origin cfg base σ)
    (hok : Along (sessionStep cfg) (Admissible cfg) σ cs)
    (hrun : run (sessionStep cfg) σ cs = some (.running s os)) :
    (∀ (n : UInt16) (v : UInt32), HasRoom cfg s os (.set n (encodeVariableUint v)) →
      (RoundTrips (unicoapOptionsSetUint cfg s n.toNat v) n.toNat v ↔ SetUintReads s os n v)) ∧
    (∀ (n : UInt16) (v : UInt32), HasRoom cfg s os (.add n (encodeVariableUint v)) →
      (RoundTrips (unicoapOptionsAddUint cfg s n.toNat v) n.toNat v ↔ AddUintReads s os n v)) ∧
    ∀ n o, os.find? (fun o => o.1 = n) = some o → o.2.length ≤ 4 →
      (unicoapOptionsGetVariableUint s n 4 = some (.ok (ofBytes o.2, o.2.length)) ↔ UintReads os n o.2) := by
  obtain ⟨capacity, hinv⟩ := horigin.inv hbase
  obtain ⟨s', os', heq, h, -⟩ := run_invariant (I := SessionInv cfg base capacity)
    (fun σ c σ' hinv hok hstep => (hinv.step hok hstep).2) cs hinv hok hrun
  obtain ⟨rfl, rfl⟩ := Session.running.inj heq
  exact ⟨fun n v hroom => h.set_uint_iff hroom, fun n v hroom => h.add_uint_iff hroom,
    fun n o hfind h4 => h.get_uint_iff hfind h4⟩

/-- A number of two bytes, replaced by one of three, with an option behind it. -/
theorem uint_right_iff_calls : ∃ s os,
    run (sessionStep ⟨16⟩) (emptySession 64) [.add 14 [1, 2], .add 27 [3]] = some (.running s os) ∧
      RoundTrips (unicoapOptionsSetUint ⟨16⟩ s 14 70000) 14 70000 := by
  have hend : (run (sessionStep ⟨16⟩) (emptySession 64) [.add 14 [1, 2], .add 27 [3]]).any (fun
      | .running s os => decide (HasRoom ⟨16⟩ s os (.set 14 (encodeVariableUint 70000)) ∧
          s.options.storageSize < s.options.storageCapacity ∧ UintReads os 14 (encodeVariableUint 70000))
      | .crashed => false) = true := by decide +kernel
  obtain ⟨σ, hσ, hread⟩ := (Option.any_eq_true _ _).mp hend
  cases σ with
  | crashed => exact absurd hread (by decide)
  | running s os =>
    obtain ⟨hroom, hlt, hreads⟩ := of_decide_eq_true hread
    exact ⟨s, os, hσ, ((uint_right_iff ⟨16⟩ 1 (emptySession 64) [.add 14 [1, 2], .add 27 [3]] s os (by decide)
      (.init _ _ _) (by decide +kernel) hσ).1 14 70000 hroom).mpr ⟨fun _ => hlt, hreads⟩⟩

/-- **Zero is written as an empty value, which the reader has no case for.** -/
theorem not_uint_right : ∃ s s',
    emptySession 64 = .running s [] ∧ HasRoom ⟨16⟩ s [] (.set 14 (encodeVariableUint 0)) ∧
    unicoapOptionsSetUint ⟨16⟩ s 14 0 = some (0, s') ∧ unicoapOptionsGetVariableUint s' 14 4 = none := by
  have hset : (unicoapOptionsSetUint ⟨16⟩ ⟨fun _ => 0, unicoapOptionsInit (fun _ => ⟨0, 0, 0⟩) 1 64⟩ 14 0).any
      (fun r => decide (r.1 = 0 ∧ (unicoapOptionsGetVariableUint r.2 14 4).isNone)) = true := by decide
  obtain ⟨⟨r, s'⟩, hs', hr⟩ := (Option.any_eq_true _ _).mp hset
  obtain ⟨rfl, hnone⟩ := of_decide_eq_true hr
  exact ⟨_, s', rfl, by decide, hs', Option.isNone_iff_eq_none.mp hnone⟩

end Riot.Unicoap
