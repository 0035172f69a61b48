import Riot.Unicoap.StoreSet

/-!
# Removing the options of a number

The options of one number are neighbours. When others follow, those are moved
over them, and the delta of the first of these grows by what was removed; when
none follow, only the sizes change.
-/

namespace Riot.Unicoap

open Riot.Lib Memory Function List Nat

/-- Removes the options of a number. -/
def removeOptions (n : Nat) (os : List NumberedOption) : List NumberedOption :=
  os.filter fun o => o.1 ≠ n

variable {cfg : Cfg} {base a n prev : Nat} {s : Store} {o : NumberedOption}
  {os pre rem post : List NumberedOption}

theorem removeOptions_eq (hpre : ∀ o ∈ pre, o.1 < n) (hrem : ∀ o ∈ rem, o.1 = n)
    (hpost : ∀ o ∈ post, n < o.1) : removeOptions n (pre ++ (rem ++ post)) = pre ++ post :=
  filter_number hpre hrem hpost

/-- The sizes of the entries of options add up to the length of their encoding. -/
theorem entrySizes_eq {entries : Memory OptionEntry} {i : Nat} (h : Holds entries i (entriesOf a prev os)) :
    entrySizes entries i os.length = (encodeOptions prev os).length := by
  induction os generalizing a prev i with
  | nil => rfl
  | cons o os ih =>
    rw [length_cons, entrySizes, h.1, ih h.2, encodeOptions_cons, length_append]

theorem Stored.skip_eq (h : Stored cfg base s (pre ++ (o :: rem ++ post))) (hrem : ∀ o ∈ rem, o.1 = n)
    (hpost : ∀ o ∈ post, n < o.1) :
    skipEntries (fun e => e.number = n) s.options.entries (pre.length + 1)
      (s.options.optionCount - (pre.length + 1)) = pre.length + (rem.length + 1) := by
  have he := h.entries
  rw [entriesOf_append, holds_append, length_entriesOf, zero_add, cons_append, entriesOf_cons,
    holds_cons, entriesOf_append] at he
  have hlen := h.count
  simp only [length_append, length_cons] at hlen
  have := skipEntries_eq (p := fun e => e.number = n) he.2.2 ?_ ?_
  · rw [length_append, length_entriesOf, length_entriesOf] at this
    rw [show s.options.optionCount - (pre.length + 1) = rem.length + post.length by omega, this]
    omega
  · intro e hmem
    obtain ⟨o', ho', heq⟩ := mem_number_of_entriesOf hmem
    simpa [heq] using hrem o' ho'
  · intro e t ht
    cases post with
    | nil => simp at ht
    | cons o' post =>
      cases ht
      simpa using ne_of_gt (hpost o' (by simp))

theorem Stored.remove_none (h : Stored cfg base s os) (hos : ∀ o ∈ os, o.1 ≠ n) :
    unicoapOptionsRemoveAll cfg s n = some (0, s) := by
  unfold unicoapOptionsRemoveAll
  dsimp only
  rw [h.findOptionIndex_eq_none hos]

theorem Stored.remove_last (h : Stored cfg base s (pre ++ [o])) (hpre : ∀ o ∈ pre, o.1 < n)
    (ho : o.1 = n) (hfits : Fits pre) :
    ∃ s', unicoapOptionsRemoveAll cfg s n = some (0, s') ∧ Step cfg base s s' pre := by
  have hskip := @Stored.skip_eq _ _ n _ o pre [] [] h (by simp) (by simp)
  have hcount := h.count
  have hstorage := h.size
  rw [length_append, length_singleton] at hcount
  rw [encodeOptions_append, length_append, encodeOptions_cons, encodeOptions_nil, append_nil] at hstorage
  have hsize : (s.options.entries pre.length).size = (encodeOption (o.1 - lastNumber 0 pre) o.2).length := by
    rw [h.entry]
  unfold unicoapOptionsRemoveAll
  dsimp only
  rw [h.findOptionIndex_eq hpre ho]
  dsimp only
  rw [hskip, if_pos (by rw [hcount]; rfl), hsize]
  have hentries := h.entries
  have hmem := h.mem
  rw [entriesOf_append, holds_append] at hentries
  rw [encodeOptions_append, holds_append] at hmem
  refine ⟨_, rfl, ⟨h.base_ne, h.data, ?_, ?_, ?_, ?_, hentries.1, hmem.1, hfits⟩, rfl, ?_⟩
  · dsimp only
    rw [hcount, length_nil]
    omega
  · have := h.count_le
    rw [length_append] at this
    omega
  · dsimp only
    omega
  · have := h.size_le
    dsimp only
    omega
  · intro a _
    rfl

theorem Stored.sub16_previous {n : Nat} (h : Stored cfg base s (pre ++ post)) (hle : lastNumber 0 pre ≤ n)
    (hn : n < 2 ^ 16) :
    sub16 n (if 0 < pre.length then (s.options.entries (pre.length - 1)).number else 0) =
      n - lastNumber 0 pre := by
  have := h.delta hle hn
  split at this
  · rename_i hpos
    rw [if_pos hpos, this]
  · rename_i hpos
    rw [if_neg hpos, sub16]
    omega

/-- The lookup array after options were removed in front of others: the entries
of those move over the removed ones. -/
theorem shiftOptionEntries_back {op : Options} {i k : Nat} {e : OptionEntry} {r t : List OptionEntry}
    (hi : i = r.length) (hr : Holds op.entries 0 r) (ht : Holds op.entries (i + k + 1) t)
    (hcount : op.optionCount = i + k + 1 + t.length) (hmax : op.optionCount ≤ cfg.optionsMax) :
    ∃ f, shiftOptionEntries cfg { op with entries := update op.entries (i + k) e } (i + k)
        (-(k : Int)) = some { op with entries := f, optionCount := i + 1 + t.length } ∧
      Holds f 0 (r ++ e :: t) := by
  subst hi
  have hr' : Holds (update op.entries (r.length + k) e) 0 r := by
    rw [update_eq_store]
    exact hr.store (.inl (by omega))
  have ht' : Holds (update op.entries (r.length + k) e) (r.length + k + 0) (e :: t) := by
    rw [update_eq_store, add_zero, holds_cons]
    exact ⟨(holds_store (s := [e])).1, ht.store (by simp)⟩
  have hdest : (((r.length + k : Nat) : Int) + -(k : Int)).toNat = r.length := by omega
  have hcount' : ((op.optionCount : Int) + -(k : Int)).toNat = r.length + 1 + t.length := by omega
  refine ⟨move (update op.entries (r.length + k) e) r.length (r.length + k)
    (op.optionCount - (r.length + k)), ?_, ?_⟩
  · unfold shiftOptionEntries
    rw [hdest, hcount', if_pos (by omega)]
  · have h := @Holds.splice _ _ 0 (op.optionCount - (r.length + k)) 0 _ r [] r.length (r.length + k)
      hr' ht' (by rw [length_cons]; omega) (by omega) (by simp)
    rwa [store_nil, nil_append] at h

theorem Stored.remove_before {o' : NumberedOption} (h : Stored cfg base s (pre ++ (o :: rem ++ o' :: post)))
    (hpre : ∀ o ∈ pre, o.1 < n) (ho : o.1 = n) (hrem : ∀ o ∈ rem, o.1 = n) (ho' : n < o'.1)
    (hpost : ∀ o ∈ post, n < o.1) (hfits : Fits (pre ++ o' :: post)) :
    ∃ s', unicoapOptionsRemoveAll cfg s n = some (0, s') ∧ Step cfg base s s' (pre ++ o' :: post) := by
  have hfm : fieldMax = 65804 := rfl
  have hlast : lastNumber (lastNumber 0 pre) (o :: rem) = n :=
    lastNumber_eq (forall_mem_cons.mpr ⟨ho, hrem⟩) (by simp)
  have h' : Stored cfg base s ((pre ++ o :: rem) ++ o' :: post) := by rwa [append_assoc]
  have hentry := h'.entry
  have hnib := h'.nibbles
  obtain ⟨hle', -, -, -⟩ := h'.encodable_at
  rw [lastNumber_append, hlast] at hentry hnib hle'
  rw [length_append, length_cons, encodeOptions_append, length_append] at hentry
  rw [encodeOptions_append, length_append] at hnib
  have hle : lastNumber 0 pre ≤ o'.1 := by
    have := lastNumber_le (fun o ho => le_of_lt (hpre o ho)) (zero_le n)
    omega
  have hon : o'.1 < 2 ^ 16 := hfits.number o' (by simp)
  have hskip := h.skip_eq hrem (forall_mem_cons.mpr ⟨ho', hpost⟩)
  have hcount := h.count
  have hstorage := h.size
  have hentries := h.entries
  have hmem := h.mem
  simp only [length_append, length_cons] at hcount
  rw [encodeOptions_append, length_append, encodeOptions_append, length_append, hlast,
    encodeOptions_cons_eq (o := o'), length_append, length_encodeHead] at hstorage
  rw [entriesOf_append, holds_append, length_entriesOf, zero_add, entriesOf_append, holds_append, hlast,
    length_entriesOf, length_cons, entriesOf_cons (o := o'), holds_cons] at hentries
  rw [encodeOptions_append, holds_append, encodeOptions_append, holds_append, hlast,
    encodeOptions_cons_eq (o := o'), holds_append, length_encodeHead] at hmem
  have hsizes := entrySizes_eq hentries.2.1
  rw [length_cons] at hsizes
  obtain ⟨r, hr⟩ : ∃ r, (encodeOptions (lastNumber 0 pre) (o :: rem)).length = r := ⟨_, rfl⟩
  rw [hr] at hentry hnib hstorage hentries hmem hsizes
  have hdata : (s.options.entries (pre.length + (rem.length + 1))).data =
      base + ((encodeOptions 0 pre).length + r) := by
    rw [hentry]
  have hsize : (s.options.entries (pre.length + (rem.length + 1))).size =
      (encodeOption (o'.1 - n) o'.2).length := by
    rw [hentry]
  have hnumber : (s.options.entries (pre.length + (rem.length + 1))).number = o'.1 := by
    rw [hentry]
  have hremoved : (s.options.entries pre.length).data = base + (encodeOptions 0 pre).length := by
    rw [h.entry]
  have hoff : pre.length + (rem.length + 1) - pre.length = rem.length + 1 := by omega
  have hd1 : o'.1 - lastNumber 0 pre ≤ fieldMax := by omega
  -- what the delta grows by, the removed options gave up
  have hgrow : (fieldExt (o'.1 - lastNumber 0 pre)).length ≤ (fieldExt (o'.1 - n)).length + r := by
    have hn := @length_fieldExt_add (n - lastNumber 0 pre) (o'.1 - n)
    rw [encodeOptions_cons, length_append, length_encodeOption, ho] at hr
    rw [show n - lastNumber 0 pre + (o'.1 - n) = o'.1 - lastNumber 0 pre by
      have := lastNumber_le (fun o ho => le_of_lt (hpre o ho)) (zero_le n)
      omega] at hn
    omega
  have hcap := h.size_le
  unfold unicoapOptionsRemoveAll
  dsimp only
  rw [h.findOptionIndex_eq hpre ho]
  dsimp only
  rw [hskip, if_neg (by omega), hoff, hsizes, hdata, hnib.1, hnib.2, hnumber, h.sub16_previous hle hon,
    optionSizeDiff_eq hd1, uintExtendedSizeFromNibble_eq, Int.toNat_natCast, hsize, hremoved,
    if_neg (by omega)]
  have hnew : encodeOptions 0 (pre ++ o' :: post) = encodeOptions 0 pre ++
      (encodeHead (o'.1 - lastNumber 0 pre) o'.2.length ++ encodeTail o' post) := by
    rw [encodeOptions_append, encodeOptions_cons_eq]
  have hsz : size16 (((encodeOption (o'.1 - n) o'.2).length : Int) +
      ((fieldExt (o'.1 - lastNumber 0 pre)).length - (fieldExt (o'.1 - n)).length)) =
      (encodeOption (o'.1 - lastNumber 0 pre) o'.2).length := by
    have e : ((encodeOption (o'.1 - n) o'.2).length : Int) +
        ((fieldExt (o'.1 - lastNumber 0 pre)).length - (fieldExt (o'.1 - n)).length) =
        (encodeOption (o'.1 - lastNumber 0 pre) o'.2).length := by
      rw [length_encodeOption, length_encodeOption]
      omega
    rw [e]
    exact hfits.size16_at
  obtain ⟨f, hf, hfe⟩ := @shiftOptionEntries_back cfg
    { s.options with storageSize := (s.options.storageSize + (((fieldExt (o'.1 - lastNumber 0 pre)).length -
      (fieldExt (o'.1 - n)).length : Int) - r)).toNat } pre.length (rem.length + 1)
    ⟨base + (encodeOptions 0 pre).length, (encodeOption (o'.1 - lastNumber 0 pre) o'.2).length, o'.1⟩
    _ _ length_entriesOf.symm hentries.1 hentries.2.2.2
    (by dsimp only; rw [length_entriesOf]; omega) (by dsimp only; have := h.count_le; rw [h.count]; exact this)
  have hdst : (((base + ((encodeOptions 0 pre).length + r) + 1 + (fieldExt (o'.1 - n)).length : Nat) : Int) +
      (((fieldExt (o'.1 - lastNumber 0 pre)).length - (fieldExt (o'.1 - n)).length : Int) - r)).toNat =
      base + (encodeOptions 0 pre).length + (1 + (fieldExt (o'.1 - lastNumber 0 pre)).length) := by
    omega
  have hremainder : s.options.storageSize - (base + ((encodeOptions 0 pre).length + r) + 1 +
      (fieldExt (o'.1 - n)).length - base) = (encodeTail o' post).length := by
    omega
  rw [hsz, hf, update_of_ne (by omega), h.data, hdst, hremainder]
  rw [writeHeadPartial_eq hd1]
  rw [holds_append, holds_cons, length_entriesOf, zero_add] at hfe
  have hentries' : Holds (updateOptionEntriesWithStorageDiff
      { storageSize := (s.options.storageSize + (((fieldExt (o'.1 - lastNumber 0 pre)).length -
          (fieldExt (o'.1 - n)).length : Int) - r)).toNat
        storageCapacity := s.options.storageCapacity, entries := f
        optionCount := pre.length + 1 + (entriesOf (base + (encodeOptions 0 pre).length + r +
          (encodeOption (o'.1 - n) o'.2).length) o'.1 post).length } (pre.length + 1)
      (((fieldExt (o'.1 - lastNumber 0 pre)).length - (fieldExt (o'.1 - n)).length : Int) - r)).entries 0
      (entriesOf base 0 (pre ++ o' :: post)) := by
    rw [entriesOf_append, entriesOf_cons, holds_append, holds_cons, length_entriesOf, length_entriesOf,
      zero_add]
    refine ⟨hfe.1.congr fun j _ hj => ?_, ?_, ?_⟩
    · rw [length_entriesOf] at hj
      exact updateEntries_of_lt (by omega)
    · rw [updateEntries_of_lt (by omega)]
      exact hfe.2.1
    · refine holds_updateEntries hfe.2.2 le_rfl (by simp) ?_
      rw [length_encodeOption, length_encodeOption]
      omega
  refine ⟨_, rfl, ⟨h.base_ne, data_of_entries hentries' (by simp), ?_, ?_, ?_, ?_, hentries', ?_, hfits⟩,
    rfl, ?_⟩
  · simp only [updateOptionEntriesWithStorageDiff]
    rw [length_entriesOf, length_append, length_cons]
    omega
  · have := h.count_le
    rw [h.count.symm] at this
    rw [length_append, length_cons]
    omega
  · simp only [updateOptionEntriesWithStorageDiff]
    rw [hnew, length_append, length_append, length_encodeHead]
    omega
  · simp only [updateOptionEntriesWithStorageDiff]
    omega
  · dsimp only
    rw [hnew]
    have ht : Holds s.mem (base + ((encodeOptions 0 pre).length + r) + 1 + (fieldExt (o'.1 - n)).length + 0)
        (encodeTail o' post) := by
      rw [add_zero, add_assoc _ 1, ← add_assoc base]
      exact hmem.2.2.2
    exact hmem.1.splice ht (by omega) (by omega) (by rw [length_encodeHead, add_zero])
  · intro a ha
    simp only [updateOptionEntriesWithStorageDiff] at ha ⊢
    rw [store_outside, move_outside (by omega)]
    rw [length_encodeHead]
    omega

end Riot.Unicoap
