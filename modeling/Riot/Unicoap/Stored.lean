import Riot.Unicoap.Encoding

/-!
# What an options object stores

`Stored` relates an options object to the list of options it stands for: the
storage holds their encoding and the lookup array an entry for each.
-/

namespace Riot.Unicoap

open Riot.Lib Memory List

/-! ## The lookup array -/

/-- The entries of options above `prev`, encoded from `a` on. -/
def entriesOf : Nat → Nat → List NumberedOption → List OptionEntry
  | _, _, [] => []
  | a, prev, o :: os =>
    ⟨a, (encodeOption (o.1 - prev) o.2).length, o.1⟩ ::
      entriesOf (a + (encodeOption (o.1 - prev) o.2).length) o.1 os

variable {a prev : Nat} {o : NumberedOption} {os pre post : List NumberedOption}

@[simp] theorem entriesOf_nil : entriesOf a prev [] = [] := rfl

@[simp] theorem entriesOf_cons : entriesOf a prev (o :: os) =
    ⟨a, (encodeOption (o.1 - prev) o.2).length, o.1⟩ ::
      entriesOf (a + (encodeOption (o.1 - prev) o.2).length) o.1 os := rfl

@[simp] theorem length_entriesOf : (entriesOf a prev os).length = os.length := by
  induction os generalizing a prev with
  | nil => rfl
  | cons o os ih => simp [ih]

theorem entriesOf_append : entriesOf a prev (os ++ post) = entriesOf a prev os ++
      entriesOf (a + (encodeOptions prev os).length) (lastNumber prev os) post := by
  induction os generalizing a prev with
  | nil => rfl
  | cons o os ih => simp [ih, add_assoc]

theorem data_of_entries {f : Memory OptionEntry} (h : Holds f 0 (entriesOf a prev os)) (hne : os ≠ []) :
    (f 0).data = a := by
  cases os with
  | nil => exact absurd rfl hne
  | cons o os =>
    rw [h.1]

/-! ## The object -/

/-- Options that 16 bit numbers and 16 bit sizes can describe. -/
structure Fits (os : List NumberedOption) : Prop where
  encodable : OptionsEncodable 0 os
  number : ∀ o ∈ os, o.1 < 2 ^ 16
  size : ∀ e ∈ entriesOf 0 0 os, e.size < 2 ^ 16

/-- The object stands for `os`, stored from `base` on. -/
structure Stored (cfg : Cfg) (base : Nat) (s : Store) (os : List NumberedOption) : Prop where
  base_ne : base ≠ 0
  data : (s.options.entries 0).data = base
  count : s.options.optionCount = os.length
  count_le : os.length ≤ cfg.optionsMax
  size : s.options.storageSize = (encodeOptions 0 os).length
  size_le : s.options.storageSize ≤ s.options.storageCapacity
  entries : Holds s.options.entries 0 (entriesOf base 0 os)
  mem : Holds s.mem base (encodeOptions 0 os)
  fits : Fits os

variable {cfg : Cfg} {d : Int} {base i n : Nat} {op : Options} {s : Store}

theorem Stored.init {entries : Memory OptionEntry} {mem : Memory UInt8}
    {storage capacity : Nat} (h : storage ≠ 0) :
    Stored cfg storage ⟨mem, unicoapOptionsInit entries storage capacity⟩ [] where
  base_ne := h
  data := by simp [unicoapOptionsInit]
  count := rfl
  count_le := Nat.zero_le _
  size := rfl
  size_le := Nat.zero_le _
  entries := holds_nil
  mem := holds_nil
  fits := ⟨encodable_nil, by simp, by simp⟩

theorem lastNumber_le (h : ∀ o ∈ os, o.1 ≤ n) (hp : prev ≤ n) : lastNumber prev os ≤ n := by
  induction os generalizing prev with
  | nil => exact hp
  | cons o os ih => exact ih (fun o ho => h o (by simp [ho])) (h o (by simp))

theorem size_of_mem_entriesOf {b : Nat} {e : OptionEntry} (h : e ∈ entriesOf a prev os) :
    ∃ e' ∈ entriesOf b prev os, e'.size = e.size := by
  induction os generalizing a b prev with
  | nil => simp at h
  | cons o os ih =>
    rw [entriesOf_cons, mem_cons] at h
    obtain rfl | h := h
    · exact ⟨⟨b, (encodeOption (o.1 - prev) o.2).length, o.1⟩, mem_cons_self .., rfl⟩
    · obtain ⟨e', he', hs⟩ := ih h
      exact ⟨e', mem_cons_of_mem _ he', hs⟩

section

variable {cfg : Cfg} {base : Nat} {s : Store}

theorem Stored.entry (h : Stored cfg base s (pre ++ o :: post)) :
    s.options.entries pre.length = ⟨base + (encodeOptions 0 pre).length,
      (encodeOption (o.1 - lastNumber 0 pre) o.2).length, o.1⟩ := by
  have he := h.entries
  rw [entriesOf_append, entriesOf_cons, holds_append, holds_cons, length_entriesOf, zero_add] at he
  exact he.2.1

theorem Stored.option_mem (h : Stored cfg base s (pre ++ o :: post)) :
    Holds s.mem (base + (encodeOptions 0 pre).length)
      (encodeOption (o.1 - lastNumber 0 pre) o.2 ++ encodeOptions o.1 post) := by
  have hm := h.mem
  rw [encodeOptions_append, encodeOptions_cons, holds_append] at hm
  exact hm.2

theorem Stored.encodable_at (h : Stored cfg base s (pre ++ o :: post)) :
    lastNumber 0 pre ≤ o.1 ∧ o.1 - lastNumber 0 pre ≤ fieldMax ∧ o.2.length ≤ fieldMax ∧
      OptionsEncodable o.1 post := by
  have he := h.fits.encodable
  rw [encodable_append, encodable_cons] at he
  exact he.2

theorem Fits.size_at (h : Fits (pre ++ o :: post)) :
    (encodeOption (o.1 - lastNumber 0 pre) o.2).length < 2 ^ 16 := by
  have hs := h.size
  rw [entriesOf_append, entriesOf_cons] at hs
  exact hs ⟨_, _, _⟩ (mem_append_right _ (mem_cons_self ..))

theorem Fits.size16_at (h : Fits (pre ++ o :: post)) :
    size16 ((encodeOption (o.1 - lastNumber 0 pre) o.2).length : Int) =
      (encodeOption (o.1 - lastNumber 0 pre) o.2).length := by
  have := h.size_at
  rw [size16]
  omega

theorem Stored.number_at (h : Stored cfg base s (pre ++ o :: post)) : o.1 < 2 ^ 16 :=
  h.fits.number o (by simp)

theorem Stored.previous (h : Stored cfg base s (pre ++ post)) {n : Nat} (hpos : 0 < pre.length) :
    (s.options.entries (pre.length - 1)).number = lastNumber n pre := by
  obtain ⟨pre', o, rfl⟩ := eq_nil_or_concat pre |>.resolve_left (by rintro rfl; simp at hpos)
  rw [concat_eq_append] at h hpos ⊢
  rw [append_assoc, singleton_append] at h
  have := h.entry
  simp [this, lastNumber_append]

theorem Stored.delta (h : Stored cfg base s (pre ++ post)) {n : Nat} (hle : lastNumber 0 pre ≤ n)
    (hn : n < 2 ^ 16) :
    (if 0 < pre.length then sub16 n (s.options.entries (pre.length - 1)).number else n) =
      n - lastNumber 0 pre := by
  split
  · rename_i hpos
    rw [h.previous (n := 0) hpos, sub16]
    omega
  · obtain rfl : pre = [] := eq_nil_of_length_eq_zero (by omega)
    rfl

theorem Stored.nibbles (h : Stored cfg base s (pre ++ o :: post)) :
    decodeDeltaNibble (s.mem (base + (encodeOptions 0 pre).length)) = fieldNibble (o.1 - lastNumber 0 pre) ∧
      decodeLengthNibble (s.mem (base + (encodeOptions 0 pre).length)) = fieldNibble o.2.length := by
  have hm := h.option_mem
  rw [hm.1, decodeDeltaNibble_eq, decodeLengthNibble_eq, optionHead_div fieldNibble_le fieldNibble_le,
    optionHead_mod fieldNibble_le fieldNibble_le]
  exact ⟨rfl, rfl⟩

end

/-! ## Searching the lookup array -/

theorem skipEntries_eq {p : OptionEntry → Bool} {entries : Memory OptionEntry}
    {s t : List OptionEntry} (h : Holds entries i (s ++ t)) (hs : ∀ e ∈ s, p e = true)
    (ht : ∀ e t', t = e :: t' → p e = false) :
    skipEntries p entries i (s ++ t).length = i + s.length := by
  induction s generalizing i with
  | nil =>
    cases t with
    | nil => rfl
    | cons e t =>
      rw [nil_append, length_cons, skipEntries, h.1, ht e t rfl]
      rfl
  | cons e s ih =>
    rw [cons_append, length_cons, skipEntries, h.1, hs e (by simp), if_pos rfl,
      ih h.2 (fun e he => hs e (by simp [he])), length_cons]
    omega

theorem mem_number_of_entriesOf {e : OptionEntry} (h : e ∈ entriesOf a prev os) :
    ∃ o ∈ os, e.number = o.1 := by
  induction os generalizing a prev with
  | nil => simp at h
  | cons o os ih =>
    rw [entriesOf_cons, mem_cons] at h
    obtain rfl | h := h
    · exact ⟨o, by simp, rfl⟩
    · obtain ⟨o', ho', he⟩ := ih h
      exact ⟨o', by simp [ho'], he⟩

theorem findOptionIndexFrom_eq (ha : a ≠ 0)
    (h : Holds op.entries i (entriesOf a prev (pre ++ o :: post))) (hpre : ∀ o ∈ pre, o.1 < n)
    (ho : o.1 = n) :
    findOptionIndexFrom op n i (pre ++ o :: post).length = some (i + pre.length) := by
  induction pre generalizing a prev i with
  | nil =>
    rw [nil_append, length_cons, findOptionIndexFrom, h.1]
    simp [ho, ha]
  | cons o' pre ih =>
    have hlt := hpre o' (by simp)
    rw [cons_append, length_cons, findOptionIndexFrom, h.1]
    dsimp only
    rw [if_neg (by omega), if_neg (by omega), ih (by omega) h.2 (fun o ho => hpre o (by simp [ho])),
      length_cons]
    congr 1
    omega

theorem findOptionIndexFrom_eq_none (h : Holds op.entries i (entriesOf a prev os)) (hos : ∀ o ∈ os, o.1 ≠ n) :
    findOptionIndexFrom op n i os.length = none := by
  induction os generalizing a prev i with
  | nil => rfl
  | cons o os ih =>
    rw [length_cons, findOptionIndexFrom, h.1]
    split
    · rfl
    · rw [if_neg (hos o (by simp)), ih h.2 fun o ho => hos o (by simp [ho])]

theorem Stored.findOptionIndex_eq (h : Stored cfg base s (pre ++ o :: post)) (hpre : ∀ o ∈ pre, o.1 < n) (ho : o.1 = n) :
    findOptionIndex s.options n = some pre.length := by
  rw [findOptionIndex, h.count, findOptionIndexFrom_eq h.base_ne h.entries hpre ho, zero_add]

theorem Stored.findOptionIndex_eq_none (h : Stored cfg base s os) (hos : ∀ o ∈ os, o.1 ≠ n) : findOptionIndex s.options n = none := by
  rw [findOptionIndex, h.count]
  exact findOptionIndexFrom_eq_none h.entries hos

/-! ## Moving entries -/

theorem holds_updateEntries {lo a' : Nat} (h : Holds op.entries i (entriesOf a prev os)) (hlo : lo ≤ i)
    (hc : i + os.length ≤ op.optionCount) (ha : (a' : Int) = a + d) :
    Holds (updateOptionEntriesWithStorageDiff op lo d).entries i (entriesOf a' prev os) := by
  induction os generalizing a prev i a' with
  | nil => exact holds_nil
  | cons o os ih =>
    rw [length_cons] at hc
    refine ⟨?_, ih h.2 (by omega) (by omega) (by push_cast; omega)⟩
    have e : ((a : Int) + d).toNat = a' := by omega
    simp only [updateOptionEntriesWithStorageDiff]
    rw [if_pos (by omega), h.1, e]

theorem updateEntries_of_lt {j : Nat} (h : j < i) :
    (updateOptionEntriesWithStorageDiff op i d).entries j = op.entries j := by
  rw [updateOptionEntriesWithStorageDiff]
  dsimp only
  rw [if_neg (by omega)]

theorem shiftOptions_eq {a' : Nat}
    (hbase : (s.options.entries 0).data = base) (hi : i < s.options.optionCount)
    (hdata : (s.options.entries i).data = a) (hlo : base ≤ a) (hhi : a < base + s.options.storageSize)
    (ha : (a' : Int) = a + d) (hlo' : base ≤ a')
    (hnew : ((s.options.storageSize : Int) + d).toNat ≤ s.options.storageCapacity)
    (hroom : s.options.storageSize < s.options.storageCapacity) :
    shiftOptions s i d = some (0,
      { mem := move s.mem a' a (s.options.storageSize - (a - base))
        options := { updateOptionEntriesWithStorageDiff s.options i d with
          storageSize := ((s.options.storageSize : Int) + d).toNat } }) := by
  have e : ((a : Int) + d).toNat = a' := by omega
  unfold shiftOptions moveOptionsInStorageBuffer
  dsimp only
  rw [if_neg (by omega), if_pos hi, hdata, hbase, e, if_pos (by omega)]

theorem Stored.shift {b : Nat} (h : Stored cfg base s (pre ++ o :: post))
    (hb : (b : Int) = base + (encodeOptions 0 pre).length + d) (hlo : base ≤ b)
    (hnew : s.options.storageSize + d ≤ s.options.storageCapacity)
    (hroom : s.options.storageSize < s.options.storageCapacity) :
    ∃ f, shiftOptions s pre.length d = some (0,
        { mem := move s.mem b (base + (encodeOptions 0 pre).length)
            (encodeOptions (lastNumber 0 pre) (o :: post)).length
          options :=
            { storageSize := ((s.options.storageSize : Int) + d).toNat
              storageCapacity := s.options.storageCapacity
              entries := f
              optionCount := s.options.optionCount } }) ∧
      Holds f 0 (entriesOf base 0 pre) ∧
      Holds f pre.length (entriesOf b (lastNumber 0 pre) (o :: post)) := by
  have hsize := h.size
  have hcount := h.count
  have hentries := h.entries
  have hpos : 0 < (encodeOptions (lastNumber 0 pre) (o :: post)).length := by
    rw [encodeOptions_cons, length_append]
    have := @length_encodeOption_pos (o.1 - lastNumber 0 pre) o.2
    omega
  rw [encodeOptions_append, length_append] at hsize
  rw [length_append, length_cons] at hcount
  rw [entriesOf_append, holds_append, length_entriesOf, zero_add] at hentries
  have hrem : s.options.storageSize - (base + (encodeOptions 0 pre).length - base) =
      (encodeOptions (lastNumber 0 pre) (o :: post)).length := by omega
  refine ⟨(updateOptionEntriesWithStorageDiff s.options pre.length d).entries, ?_, ?_, ?_⟩
  · rw [shiftOptions_eq (a := base + (encodeOptions 0 pre).length) h.data (by omega)
      (by rw [h.entry]) (by omega) (by omega) (by push_cast; exact hb) hlo (by omega) hroom, hrem]
    rfl
  · refine hentries.1.congr fun j _ hj => ?_
    rw [length_entriesOf] at hj
    exact updateEntries_of_lt (by omega)
  · refine holds_updateEntries hentries.2 le_rfl ?_ (by push_cast; exact hb)
    rw [length_cons]
    omega

theorem shiftOptions_end (hi : s.options.optionCount ≤ i)
    (hnew : ((s.options.storageSize : Int) + d).toNat ≤ s.options.storageCapacity) :
    shiftOptions s i d = some (0,
      { s with options := { s.options with
          storageSize := ((s.options.storageSize : Int) + d).toNat } }) := by
  unfold shiftOptions
  rw [if_neg (by omega), if_neg (by omega)]

theorem shiftOptions_nobufs (hnew : s.options.storageCapacity < ((s.options.storageSize : Int) + d).toNat) :
    shiftOptions s i d = some (-ENOBUFS, s) := by
  unfold shiftOptions
  rw [if_pos hnew]

end Riot.Unicoap
