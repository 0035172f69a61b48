import Riot.Unicoap.Stored

/-!
# Adding an option

An option is put behind those of at most its number. When options follow, they
are moved, and the delta of the first of them becomes the rest of what it was.
-/

namespace Riot.Unicoap

open Riot.Lib Memory Function List

/-- Puts an option behind those of at most its number. -/
def insertOption (n : Nat) (v : List UInt8) : List NumberedOption → List NumberedOption
  | [] => [(n, v)]
  | o :: os => if o.1 ≤ n then o :: insertOption n v os else (n, v) :: o :: os

variable {cfg : Cfg} {base n : Nat} {v : List UInt8} {s s' : Store} {o : NumberedOption}
  {os os' pre post : List NumberedOption}

/-- What a successful call does to an object that stands for some options. -/
structure Step (cfg : Cfg) (base : Nat) (s s' : Store) (os : List NumberedOption) : Prop where
  stored : Stored cfg base s' os
  capacity : s'.options.storageCapacity = s.options.storageCapacity
  frame : ∀ a, a < base ∨ base + s'.options.storageSize ≤ a → s'.mem a = s.mem a

theorem exists_split (n : Nat) (os : List NumberedOption) :
    ∃ pre post, os = pre ++ post ∧ (∀ o ∈ pre, o.1 ≤ n) ∧ (∀ o post', post = o :: post' → n < o.1) := by
  induction os with
  | nil => exact ⟨[], [], rfl, by simp, by simp⟩
  | cons o os ih =>
    by_cases ho : o.1 ≤ n
    · obtain ⟨pre, post, rfl, hpre, hpost⟩ := ih
      refine ⟨o :: pre, post, rfl, ?_, hpost⟩
      intro o' ho'
      obtain rfl | ho' := mem_cons.mp ho'
      · exact ho
      · exact hpre o' ho'
    · refine ⟨[], o :: os, rfl, by simp, ?_⟩
      intro o' post' h
      cases h
      omega

theorem insertOption_eq (hpre : ∀ o ∈ pre, o.1 ≤ n) (hpost : ∀ o post', post = o :: post' → n < o.1) :
    insertOption n v (pre ++ post) = pre ++ (n, v) :: post := by
  induction pre with
  | nil =>
    cases post with
    | nil => rfl
    | cons o post =>
      have := hpost o post rfl
      rw [nil_append, insertOption, if_neg (by omega)]
      rfl
  | cons o pre ih =>
    rw [cons_append, insertOption, if_pos (hpre o (by simp)),
      ih fun o ho => hpre o (by simp [ho])]
    rfl

theorem Stored.skip_le (h : Stored cfg base s (pre ++ post)) (hpre : ∀ o ∈ pre, o.1 ≤ n)
    (hpost : ∀ o post', post = o :: post' → n < o.1) :
    skipEntries (fun e => e.number ≤ n) s.options.entries 0 s.options.optionCount = pre.length := by
  have he := h.entries
  rw [entriesOf_append] at he
  have hlen : (entriesOf base 0 pre ++ entriesOf (base + (encodeOptions 0 pre).length)
      (lastNumber 0 pre) post).length = s.options.optionCount := by simp [h.count]
  rw [← hlen, skipEntries_eq he]
  · simp
  · intro e hmem
    obtain ⟨o, ho, heq⟩ := mem_number_of_entriesOf hmem
    simpa [heq] using hpre o ho
  · intro e t ht
    cases post with
    | nil => simp at ht
    | cons o post =>
      cases ht
      simpa using hpost o post rfl

theorem Stored.add_last (h : Stored cfg base s pre) (hpre : ∀ o ∈ pre, o.1 ≤ n) (hn : n < 2 ^ 16)
    (hv : v.length ≤ uintMax) (hmax : pre.length < cfg.optionsMax) :
    (s.options.storageCapacity < (encodeOptions 0 (pre ++ [(n, v)])).length →
      unicoapOptionsAdd cfg s n v = some (-ENOBUFS, s)) ∧
    (Fits (pre ++ [(n, v)]) → (encodeOptions 0 (pre ++ [(n, v)])).length ≤ s.options.storageCapacity →
      ∃ s', unicoapOptionsAdd cfg s n v = some (0, s') ∧ Step cfg base s s' (pre ++ [(n, v)])) := by
  have h' : Stored cfg base s (pre ++ []) := by rwa [append_nil]
  have hle : lastNumber 0 pre ≤ n := lastNumber_le hpre (Nat.zero_le n)
  have hd : n - lastNumber 0 pre ≤ fieldMax := by
    have : fieldMax = 65804 := rfl
    omega
  rw [encodeOptions_append, length_append, encodeOptions_cons, encodeOptions_nil, append_nil, ← h.size]
  unfold unicoapOptionsAdd
  dsimp only
  rw [if_neg (by rw [h.data]; simp [hv, h.base_ne]), if_neg (by rw [h.count]; omega),
    h'.skip_le hpre (by simp), if_pos h.count.symm, h'.delta hle hn, optionSize_eq hd hv]
  refine ⟨fun hcap => if_pos (by omega), fun hfits hcap => ?_⟩
  have hsize : size16 ((encodeOption (n - lastNumber 0 pre) v).length : Int) =
      (encodeOption (n - lastNumber 0 pre) v).length := hfits.size16_at
  rw [if_neg (by omega), writeOption_eq hd hv]
  refine ⟨_, rfl, ?_⟩
  refine ⟨⟨h.base_ne, ?_, ?_, ?_, ?_, ?_, ?_, ?_, hfits⟩, rfl, ?_⟩
  · -- the first entry is new only when it was empty
    dsimp only
    rw [update_apply]
    split
    · rename_i h0
      obtain rfl : pre = [] := eq_nil_of_length_eq_zero h0.symm
      simp [h.data, h.size]
    · exact h.data
  · simp [h.count]
  · simp only [length_append, length_singleton]
    omega
  · rw [encodeOptions_append, length_append, encodeOptions_cons, encodeOptions_nil, append_nil, h.size]
    rfl
  · dsimp only
    omega
  · rw [entriesOf_append, holds_append, length_entriesOf, zero_add, update_eq_store, h.data, hsize, h.size]
    exact ⟨h.entries.store (by simp), holds_store⟩
  · rw [encodeOptions_append, holds_append, h.data, h.size, encodeOptions_cons, encodeOptions_nil, append_nil]
    exact ⟨h.mem.store (by omega), holds_store⟩
  · intro a ha
    dsimp only at ha ⊢
    rw [store_outside]
    rw [h.data]
    omega

/-- The part of an encoding that does not depend on the first delta. -/
def encodeTail (o : NumberedOption) (post : List NumberedOption) : List UInt8 :=
  fieldExt o.2.length ++ o.2 ++ encodeOptions o.1 post

theorem encodeOptions_cons_eq {prev : Nat} : encodeOptions prev (o :: post) =
    encodeHead (o.1 - prev) o.2.length ++ encodeTail o post := by
  rw [encodeOptions_cons, encodeOption_eq, encodeTail, append_assoc]

/-- The lookup array after an option was put in front of others: the entries of
those move by one, and the first of them is adjusted. -/
theorem shiftOptionEntries_one {op : Options} {i : Nat} {e e' : OptionEntry} {r t : List OptionEntry}
    (hi : i = r.length) (hr : Holds op.entries 0 r) (ht : Holds op.entries (i + 1) t)
    (hcount : op.optionCount = i + 1 + t.length) (hmax : op.optionCount < cfg.optionsMax) :
    ∃ f, shiftOptionEntries cfg { op with entries := update op.entries i e' } i 1 =
        some { op with entries := f, optionCount := op.optionCount + 1 } ∧
      Holds (update f i e) 0 (r ++ e :: e' :: t) := by
  subst hi
  have hr' : Holds (update op.entries r.length e') 0 r := by
    rw [update_eq_store]
    exact hr.store (by simp)
  have ht' : Holds (update op.entries r.length e') (r.length + 0) (e' :: t) := by
    rw [update_eq_store, add_zero, holds_cons]
    exact ⟨(holds_store (s := [e'])).1, ht.store (by simp)⟩
  refine ⟨move (update op.entries r.length e') (r.length + 1) r.length (op.optionCount - r.length), ?_, ?_⟩
  · unfold shiftOptionEntries
    rw [if_pos (by omega)]
    rfl
  · rw [update_eq_store]
    have h := @Holds.splice _ _ 0 (op.optionCount - r.length) 0 _ r [e] (r.length + 1) r.length hr' ht'
      (by rw [length_cons]; omega) (by omega) (by simp)
    rwa [zero_add] at h

theorem Stored.add_before (h : Stored cfg base s (pre ++ o :: post)) (hpre : ∀ o ∈ pre, o.1 ≤ n)
    (ho : n < o.1) (hv : v.length ≤ uintMax) (hmax : (pre ++ o :: post).length < cfg.optionsMax) :
    (s.options.storageCapacity < (encodeOptions 0 (pre ++ (n, v) :: o :: post)).length →
      unicoapOptionsAdd cfg s n v = some (-ENOBUFS, s)) ∧
    (Fits (pre ++ (n, v) :: o :: post) →
      (encodeOptions 0 (pre ++ (n, v) :: o :: post)).length ≤ s.options.storageCapacity →
      s.options.storageSize < s.options.storageCapacity →
      ∃ s', unicoapOptionsAdd cfg s n v = some (0, s') ∧
        Step cfg base s s' (pre ++ (n, v) :: o :: post)) := by
  have hfm : fieldMax = 65804 := rfl
  have hon : o.1 < 2 ^ 16 := h.number_at
  have hn : n < 2 ^ 16 := by omega
  have hle : lastNumber 0 pre ≤ n := lastNumber_le hpre (Nat.zero_le n)
  have hdn : n - lastNumber 0 pre ≤ fieldMax := by omega
  have hdo : o.1 - n ≤ fieldMax := by omega
  have hsub : sub16 o.1 n = o.1 - n := by
    rw [sub16]
    omega
  have hskip : skipEntries (fun e => e.number ≤ n) s.options.entries 0 s.options.optionCount =
      pre.length := by
    refine h.skip_le hpre ?_
    intro o' post' heq
    cases heq
    exact ho
  have hdata : (s.options.entries pre.length).data = base + (encodeOptions 0 pre).length := by
    rw [h.entry]
  have hnumber : (s.options.entries pre.length).number = o.1 := by
    rw [h.entry]
  have hcount := h.count
  rw [length_append, length_cons] at hcount
  unfold unicoapOptionsAdd
  dsimp only
  rw [if_neg (by rw [h.data]; simp [hv, h.base_ne]), if_neg (by rw [h.count]; omega), hskip,
    if_neg (by omega), h.delta hle hn, optionSize_eq hdn hv, hdata, hnumber, h.nibbles.1, h.nibbles.2,
    hsub, optionSizeDiff_eq hdo]
  obtain ⟨d, hd⟩ : ∃ d : Int, d = ((encodeOption (n - lastNumber 0 pre) v).length : Int) +
      ((fieldExt (o.1 - n)).length - (fieldExt (o.1 - lastNumber 0 pre)).length) := ⟨_, rfl⟩
  rw [← hd]
  have hd0 : 0 ≤ d := by
    have := @length_fieldExt_add (n - lastNumber 0 pre) (o.1 - n)
    rw [show n - lastNumber 0 pre + (o.1 - n) = o.1 - lastNumber 0 pre by omega] at this
    rw [length_encodeOption] at hd
    omega
  have hsize := h.size
  have hmem := h.mem
  have hnew : encodeOptions 0 (pre ++ (n, v) :: o :: post) =
      encodeOptions 0 pre ++ ((encodeOption (n - lastNumber 0 pre) v ++
        encodeHead (o.1 - n) o.2.length) ++ encodeTail o post) := by
    rw [encodeOptions_append, encodeOptions_cons, encodeOptions_cons_eq, append_assoc]
  rw [encodeOptions_append, encodeOptions_cons_eq, length_append, length_append, length_encodeHead] at hsize
  rw [encodeOptions_append, encodeOptions_cons_eq, holds_append, holds_append, length_encodeHead] at hmem
  have hlen := congrArg length hnew
  simp only [length_append, length_encodeHead] at hlen
  constructor
  · intro hcap
    rw [shiftOptions_nobufs (by omega)]
    rfl
  intro hfits hcap hroom
  obtain ⟨f, hshift, hfpre, hfpost⟩ := h.shift (d := d)
    (b := base + (encodeOptions 0 pre).length + d.toNat) (by omega) (by omega) (by omega) hroom
  rw [hshift]
  dsimp only
  rw [if_neg (by decide)]
  rw [entriesOf_cons, holds_cons] at hfpost
  rw [hfpost.1]
  have hsz1 : size16 ((encodeOption (n - lastNumber 0 pre) v).length : Int) =
      (encodeOption (n - lastNumber 0 pre) v).length := hfits.size16_at
  have hsz2 : size16 (((encodeOption (o.1 - lastNumber 0 pre) o.2).length : Int) +
      ((fieldExt (o.1 - n)).length - (fieldExt (o.1 - lastNumber 0 pre)).length)) =
      (encodeOption (o.1 - n) o.2).length := by
    have e : ((encodeOption (o.1 - lastNumber 0 pre) o.2).length : Int) +
        ((fieldExt (o.1 - n)).length - (fieldExt (o.1 - lastNumber 0 pre)).length) =
        (encodeOption (o.1 - n) o.2).length := by
      rw [length_encodeOption, length_encodeOption]
      omega
    rw [append_cons] at hfits
    have := hfits.size16_at
    rw [lastNumber_append] at this
    rw [e]
    exact this
  have haddr : (((base + (encodeOptions 0 pre).length + d.toNat : Nat) : Int) -
      ((fieldExt (o.1 - n)).length - (fieldExt (o.1 - lastNumber 0 pre)).length)).toNat =
      base + (encodeOptions 0 pre).length + (encodeOption (n - lastNumber 0 pre) v).length := by
    omega
  have hrest : base + (encodeOptions 0 pre).length + d.toNat +
      (encodeOption (o.1 - lastNumber 0 pre) o.2).length =
      base + (encodeOptions 0 pre).length + (encodeOption (n - lastNumber 0 pre) v).length +
        (encodeOption (o.1 - n) o.2).length := by
    simp only [length_encodeOption] at hd ⊢
    omega
  rw [haddr, hsz1, hsz2]
  obtain ⟨f', hf', hentries⟩ := @shiftOptionEntries_one cfg
    { storageSize := (s.options.storageSize + d).toNat, storageCapacity := s.options.storageCapacity,
      entries := f, optionCount := s.options.optionCount } pre.length
    ⟨base + (encodeOptions 0 pre).length, (encodeOption (n - lastNumber 0 pre) v).length, n⟩
    ⟨base + (encodeOptions 0 pre).length + (encodeOption (n - lastNumber 0 pre) v).length,
      (encodeOption (o.1 - n) o.2).length, o.1⟩ _ _ (by rw [length_entriesOf]) hfpre hfpost.2
    (by dsimp only; rw [length_entriesOf]; omega) (by rw [← h.count] at hmax; exact hmax)
  rw [hf']
  dsimp only
  rw [writeOption_eq hdn hv]
  dsimp only
  rw [writeHeadPartial_eq hdo, store_append]
  have hentries' : Holds (update f' pre.length ⟨base + (encodeOptions 0 pre).length,
      (encodeOption (n - lastNumber 0 pre) v).length, n⟩) 0
      (entriesOf base 0 (pre ++ (n, v) :: o :: post)) := by
    rw [entriesOf_append, entriesOf_cons, entriesOf_cons]
    dsimp only
    rw [← hrest]
    exact hentries
  refine ⟨_, rfl, ⟨h.base_ne, data_of_entries hentries' (by simp), ?_, ?_, ?_, ?_, hentries', ?_, hfits⟩,
    rfl, ?_⟩
  · simp only [length_append, length_cons]
    omega
  · simp only [length_append, length_cons] at hmax ⊢
    omega
  · dsimp only
    omega
  · dsimp only
    omega
  · dsimp only
    rw [hnew]
    refine hmem.1.splice hmem.2.2 ?_ (by omega) ?_
    · rw [encodeOptions_cons_eq, length_append, length_encodeHead]
    · rw [length_append, length_encodeHead]
      omega
  · intro a ha
    dsimp only at ha ⊢
    have hlen : (encodeOptions (lastNumber 0 pre) (o :: post)).length =
        1 + (fieldExt (o.1 - lastNumber 0 pre)).length + (encodeTail o post).length := by
      rw [encodeOptions_cons_eq, length_append, length_encodeHead]
    rw [store_outside, move_outside]
    · omega
    · rw [length_append, length_encodeHead]
      omega

end Riot.Unicoap
