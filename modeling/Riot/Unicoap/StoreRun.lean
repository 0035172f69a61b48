import Riot.Unicoap.StoreRemove
import Riot.Lib.Runs

/-!
# Sequences of calls on an options object

A session is an options object and the options it stands for according to the
calls that succeeded so far. A call is right when it returns, either with an
error and the object unchanged, or with an object that stands for the options
after the call.
-/

namespace Riot.Unicoap

open Riot.Lib Memory List

/-! ## Calls -/

/-- A call of the interface that changes the object. -/
inductive OptionsCall
  | add (number : UInt16) (value : List UInt8)
  | set (number : UInt16) (value : List UInt8)
  | removeAll (number : UInt16)

namespace OptionsCall

/-- The call, executed. -/
def exec (cfg : Cfg) (s : Store) : OptionsCall → Option (Int × Store)
  | add number value => unicoapOptionsAdd cfg s number.toNat value
  | set number value => unicoapOptionsSet cfg s number.toNat value
  | removeAll number => unicoapOptionsRemoveAll cfg s number.toNat

/-- What the call does to a sequence of options. -/
def apply (os : List NumberedOption) : OptionsCall → List NumberedOption
  | add number value => insertOption number.toNat value os
  | set number value => setOption number.toNat value os
  | removeAll number => removeOptions number.toNat os

/-- The call has to move options behind the one it writes. -/
def Moves (os : List NumberedOption) : OptionsCall → Prop
  | add number _ => ∃ o ∈ os, number.toNat < o.1
  | set number _ =>
    if ∃ o ∈ os, o.1 = number.toNat then 1 < (os.dropWhile fun o => o.1 ≠ number.toNat).length
    else ∃ o ∈ os, number.toNat < o.1
  | removeAll _ => False

end OptionsCall

/-- Every option is encoded in less than 2 ^ 16 bytes. -/
def Small (os : List NumberedOption) : Prop := ∀ e ∈ entriesOf 0 0 os, e.size < 2 ^ 16

/-! ## Sessions -/

/-- An object and the options it stands for, or a violated assertion. -/
inductive Session
  | crashed
  | running (s : Store) (os : List NumberedOption)

/-- A call takes effect on the options when it returns no error. -/
def sessionStep (cfg : Cfg) : Session → OptionsCall → Option Session
  | .crashed, _ => none
  | .running s os, c =>
    match c.exec cfg s with
    | none => some .crashed
    | some (r, s') => some (.running s' (if r < 0 then os else c.apply os))

/-- The storage decodes to `os`, and the lookup array describes it. -/
structure Decodes (s : Store) (base : Nat) (os : List NumberedOption) : Prop where
  decode : decodeOptions (slice s.mem base s.options.storageSize) = some os
  count : s.options.optionCount = os.length
  size : s.options.storageSize = entrySizes s.options.entries 0 s.options.optionCount
  entry : ∀ i (h : i < os.length), (s.options.entries i).number = os[i].1 ∧
    decodeOption (slice s.mem (s.options.entries i).data (s.options.entries i).size) =
      some (os[i].1 - lastNumber 0 (os.take i), os[i].2, [])
  capacity : s.options.storageSize ≤ s.options.storageCapacity

/-- The call returns; it fails and changes nothing, or the storage decodes to
the options after it. No byte outside the storage is written. -/
def CallRight (cfg : Cfg) (base capacity : Nat) : Session → OptionsCall → Prop
  | .crashed, _ => False
  | .running s os, c => ∃ r s', c.exec cfg s = some (r, s') ∧
      (r < 0 ∧ s' = s ∨ r = 0 ∧ Decodes s' base (c.apply os)) ∧
      s'.options.storageCapacity = capacity ∧
      ∀ a, a < base ∨ base + capacity ≤ a → s'.mem a = s.mem a

/-- When the options after the call are few and small enough for the object, then
each of them is encoded in less than 2 ^ 16 bytes, and options are moved only
while the storage is not full. -/
def Roomy (cfg : Cfg) (s : Store) (os : List NumberedOption) (c : OptionsCall) : Prop :=
  (c.apply os).length ≤ cfg.optionsMax →
    (encodeOptions 0 (c.apply os)).length ≤ s.options.storageCapacity →
      Small (c.apply os) ∧ (c.Moves os → s.options.storageSize < s.options.storageCapacity)

/-- The condition on a call: a value that the interface admits and that is
`Roomy`; and of the options removed at most one, unless others follow them. -/
def Admissible (cfg : Cfg) : Session → OptionsCall → Prop
  | .crashed, _ => True
  | .running s os, .add number value => value.length ≤ uintMax ∧ Roomy cfg s os (.add number value)
  | .running s os, .set number value => value.length ≤ uintMax ∧ Roomy cfg s os (.set number value)
  | .running _ os, .removeAll number =>
    Small (removeOptions number.toNat os) ∧
      ((∃ o ∈ os, number.toNat < o.1) ∨ (os.filter fun o => o.1 = number.toNat).length ≤ 1)

instance (os : List NumberedOption) : Decidable (Small os) :=
  inferInstanceAs (Decidable (∀ e ∈ entriesOf 0 0 os, e.size < 2 ^ 16))

instance (os : List NumberedOption) : ∀ c : OptionsCall, Decidable (c.Moves os)
  | .add number _ => inferInstanceAs (Decidable (∃ o ∈ os, number.toNat < o.1))
  | .set number _ => inferInstanceAs (Decidable (if ∃ o ∈ os, o.1 = number.toNat then
      1 < (os.dropWhile fun o => o.1 ≠ number.toNat).length else ∃ o ∈ os, number.toNat < o.1))
  | .removeAll _ => inferInstanceAs (Decidable False)

instance (cfg : Cfg) (s : Store) (os : List NumberedOption) (c : OptionsCall) :
    Decidable (Roomy cfg s os c) :=
  inferInstanceAs (Decidable (_ → _ → _))

instance (cfg : Cfg) : ∀ σ c, Decidable (Admissible cfg σ c)
  | .crashed, _ => inferInstanceAs (Decidable True)
  | .running _ _, .add _ _ => inferInstanceAs (Decidable (_ ∧ _))
  | .running _ _, .set _ _ => inferInstanceAs (Decidable (_ ∧ _))
  | .running _ _, .removeAll _ => inferInstanceAs (Decidable (_ ∧ _))

variable {cfg : Cfg} {base n : Nat} {v : List UInt8} {s s' : Store} {o : NumberedOption}
  {os pre rem post : List NumberedOption}

/-! ## The options after a call -/

theorem Fits.pairwise (h : Fits os) : (0 :: os.map Prod.fst).Pairwise (· ≤ ·) ∧
    ∀ o ∈ os, o.2.length ≤ fieldMax := by
  refine (optionsEncodable_iff fun o ho => ?_).mp h.encodable
  have := h.number o ho
  have hmax : fieldMax = 65804 := rfl
  omega

theorem fits_of_pairwise (hp : (os.map Prod.fst).Pairwise (· ≤ ·)) (hv : ∀ o ∈ os, o.2.length ≤ fieldMax)
    (hn : ∀ o ∈ os, o.1 < 2 ^ 16) (hs : Small os) : Fits os := by
  refine ⟨(optionsEncodable_iff fun o ho => ?_).mpr ⟨?_, hv⟩, hn, hs⟩
  · have := hn o ho
    have hmax : fieldMax = 65804 := rfl
    omega
  · rw [pairwise_cons]
    exact ⟨fun _ _ => Nat.zero_le _, hp⟩

theorem Fits.insert (h : Fits (pre ++ post)) (hpre : ∀ o ∈ pre, o.1 ≤ n)
    (hpost : ∀ o post', post = o :: post' → n < o.1) (hn : n < 2 ^ 16) (hv : v.length ≤ fieldMax)
    (hs : Small (pre ++ (n, v) :: post)) : Fits (pre ++ (n, v) :: post) := by
  obtain ⟨hp, hvs⟩ := h.pairwise
  rw [pairwise_cons, map_append, pairwise_append] at hp
  obtain ⟨-, hp1, hp2, hp3⟩ := hp
  have hpost' : ∀ k ∈ post.map Prod.fst, n ≤ k := by
    cases post with
    | nil => simp
    | cons o post =>
      have ho := hpost o post rfl
      rw [map_cons, pairwise_cons] at hp2
      intro k hk
      obtain rfl | hk := mem_cons.mp (map_cons ▸ hk)
      · omega
      · exact le_trans (le_of_lt ho) (hp2.1 k hk)
  have hmem : ∀ o ∈ pre ++ (n, v) :: post, o = (n, v) ∨ o ∈ pre ++ post := by
    intro o ho
    simp only [mem_append, mem_cons] at ho ⊢
    grind
  refine fits_of_pairwise ?_ ?_ ?_ hs
  · rw [map_append, map_cons, pairwise_append, pairwise_cons]
    refine ⟨hp1, ⟨hpost', hp2⟩, fun a ha b hb => ?_⟩
    obtain rfl | hb := mem_cons.mp hb
    · obtain ⟨o, ho, rfl⟩ := mem_map.mp ha
      exact hpre o ho
    · exact hp3 a ha b hb
  · intro o ho
    obtain rfl | ho := hmem o ho
    · exact hv
    · exact hvs o ho
  · intro o ho
    obtain rfl | ho := hmem o ho
    · exact hn
    · exact h.number o ho

theorem Fits.replace (h : Fits (pre ++ o :: post)) (ho : o.1 = n) (hv : v.length ≤ fieldMax)
    (hs : Small (pre ++ (n, v) :: post)) : Fits (pre ++ (n, v) :: post) := by
  obtain ⟨hp, hvs⟩ := h.pairwise
  have hmem : ∀ o' ∈ pre ++ (n, v) :: post, o' = (n, v) ∨ o' ∈ pre ++ o :: post := by
    intro o' ho'
    grind
  refine fits_of_pairwise ?_ ?_ ?_ hs
  · rw [pairwise_cons] at hp
    simpa [ho] using hp.2
  · intro o' ho'
    obtain rfl | ho' := hmem o' ho'
    · exact hv
    · exact hvs o' ho'
  · intro o' ho'
    obtain rfl | ho' := hmem o' ho'
    · exact ho ▸ h.number o (by simp)
    · exact h.number o' ho'

theorem Fits.remove (h : Fits os) (hs : Small (removeOptions n os)) : Fits (removeOptions n os) := by
  obtain ⟨hp, hvs⟩ := h.pairwise
  have hsub : (removeOptions n os).Sublist os := filter_sublist
  exact fits_of_pairwise ((pairwise_cons.mp hp).2.sublist (hsub.map Prod.fst))
    (fun o ho => hvs o (hsub.subset ho)) (fun o ho => h.number o (hsub.subset ho)) hs

/-! ## The object after a call -/

theorem decodeOption_slice {mem : Memory UInt8} {a delta : Nat} {value : List UInt8}
    (h : Holds mem a (encodeOption delta value)) (hd : delta ≤ fieldMax) (hv : value.length ≤ fieldMax) :
    decodeOption (slice mem a (encodeOption delta value).length) = some (delta, value, []) := by
  have := @decodeOption_encode delta [] value hd hv
  rw [append_nil] at this
  rw [h.slice_eq, this]

theorem Stored.decodes (h : Stored cfg base s os) : Decodes s base os where
  decode := by
    rw [h.size, h.mem.slice_eq]
    exact decodeOptions_encode h.fits.encodable
  count := h.count
  size := by rw [h.count, entrySizes_eq h.entries, h.size]
  entry := by
    intro i hi
    obtain ⟨pre, o, post, rfl, rfl⟩ : ∃ pre o post, os = pre ++ o :: post ∧ pre.length = i :=
      ⟨os.take i, os[i], os.drop (i + 1), by simp, by simp; omega⟩
    have hm := h.option_mem
    obtain ⟨-, hd, hv, -⟩ := h.encodable_at
    rw [holds_append] at hm
    rw [h.entry]
    simp [decodeOption_slice hm.1 hd hv]
  capacity := h.size_le

/-! ## One call -/

/-- A call that fails leaves the object as it is; one that succeeds does to it
what it does to the options. -/
def Outcome (cfg : Cfg) (base : Nat) (s : Store) (os : List NumberedOption)
    (res : Option (Int × Store)) : Prop :=
  ∃ r s', res = some (r, s') ∧ (r < 0 ∧ s' = s ∨ r = 0 ∧ Step cfg base s s' os)

theorem Outcome.fail {r : Int} (hr : r < 0) : Outcome cfg base s os (some (r, s)) :=
  ⟨r, s, rfl, .inl ⟨hr, rfl⟩⟩

theorem Outcome.success {res : Option (Int × Store)}
    (h : ∃ s', res = some (0, s') ∧ Step cfg base s s' os) : Outcome cfg base s os res := by
  obtain ⟨s', rfl, hs⟩ := h
  exact ⟨0, s', rfl, .inr ⟨rfl, hs⟩⟩

theorem Stored.add_outcome (h : Stored cfg base s os) (hn : n < 2 ^ 16) (hv : v.length ≤ uintMax)
    (hok : (insertOption n v os).length ≤ cfg.optionsMax →
      (encodeOptions 0 (insertOption n v os)).length ≤ s.options.storageCapacity →
      Small (insertOption n v os) ∧
        ((∃ o ∈ os, n < o.1) → s.options.storageSize < s.options.storageCapacity)) :
    Outcome cfg base s (insertOption n v os) (unicoapOptionsAdd cfg s n v) := by
  obtain ⟨pre, post, rfl, hpre, hpost⟩ := exists_split n os
  rw [insertOption_eq hpre hpost] at hok ⊢
  by_cases hmax : cfg.optionsMax ≤ (pre ++ post).length
  · -- the lookup array is full
    have e : unicoapOptionsAdd cfg s n v = some (-ENOBUFS, s) := by
      unfold unicoapOptionsAdd
      rw [if_neg (by rw [h.data]; simp [hv, h.base_ne]), h.count, if_pos hmax]
    rw [e]
    exact .fail (by decide)
  have hlen : (pre ++ (n, v) :: post).length ≤ cfg.optionsMax := by
    rw [length_append] at hmax
    rw [length_append, length_cons]
    omega
  cases post with
  | nil =>
    rw [append_nil] at h hmax
    obtain ⟨hfull, hadd⟩ := h.add_last hpre hn hv (by omega)
    by_cases hcap : (encodeOptions 0 (pre ++ [(n, v)])).length ≤ s.options.storageCapacity
    · have h' : Fits (pre ++ []) := by
        rw [append_nil]
        exact h.fits
      exact .success (hadd (h'.insert hpre (by simp) hn hv (hok hlen hcap).1) hcap)
    · rw [hfull (by omega)]
      exact .fail (by decide)
  | cons o post =>
    obtain ⟨hfull, hadd⟩ := h.add_before hpre (hpost o post rfl) hv (by omega)
    by_cases hcap : (encodeOptions 0 (pre ++ (n, v) :: o :: post)).length ≤ s.options.storageCapacity
    · obtain ⟨hsmall, hroom⟩ := hok hlen hcap
      exact .success (hadd (h.fits.insert hpre hpost hn hv hsmall) hcap
        (hroom ⟨o, by simp, hpost o post rfl⟩))
    · rw [hfull (by omega)]
      exact .fail (by decide)

theorem dropWhile_eq (hpre : ∀ o ∈ pre, o.1 < n) (ho : o.1 = n) :
    (pre ++ o :: post).dropWhile (fun o => o.1 ≠ n) = o :: post := by
  induction pre with
  | nil => simp [ho]
  | cons o' pre ih =>
    have := hpre o' (by simp)
    rw [cons_append, dropWhile_cons_of_pos (by simp; omega),
      ih fun o ho => hpre o (by simp [ho])]

theorem Stored.set_outcome (h : Stored cfg base s os) (hn : n < 2 ^ 16) (hv : v.length ≤ uintMax)
    (hok : (setOption n v os).length ≤ cfg.optionsMax →
      (encodeOptions 0 (setOption n v os)).length ≤ s.options.storageCapacity →
      Small (setOption n v os) ∧ ((if ∃ o ∈ os, o.1 = n then 1 < (os.dropWhile fun o => o.1 ≠ n).length
          else ∃ o ∈ os, n < o.1) → s.options.storageSize < s.options.storageCapacity)) :
    Outcome cfg base s (setOption n v os) (unicoapOptionsSet cfg s n v) := by
  unfold setOption at hok ⊢
  by_cases hex : ∃ o ∈ os, o.1 = n
  · rw [if_pos hex, if_pos hex] at hok
    rw [if_pos hex]
    obtain ⟨pre, o, post, rfl, hpre, ho⟩ := exists_first h.fits.encodable hex
    rw [replaceOption_eq hpre ho, dropWhile_eq hpre ho] at hok
    rw [replaceOption_eq hpre ho]
    obtain ⟨hfull, hset⟩ := h.set_replace (v := v) hpre ho hv
    by_cases hcap : (encodeOptions 0 (pre ++ (n, v) :: post)).length ≤ s.options.storageCapacity
    · have hmax := h.count_le
      rw [length_append, length_cons] at hmax
      obtain ⟨hsmall, hroom⟩ := hok (by rw [length_append, length_cons]; exact hmax) hcap
      refine .success (hset (h.fits.replace ho hv hsmall) hcap fun hne => hroom ?_)
      rw [length_cons]
      have := length_pos_of_ne_nil hne
      omega
    · rw [hfull (by omega)]
      exact .fail (by decide)
  · rw [if_neg hex, if_neg hex] at hok
    rw [if_neg hex]
    have e : unicoapOptionsSet cfg s n v = unicoapOptionsAdd cfg s n v := by
      unfold unicoapOptionsSet
      rw [if_neg (by rw [h.data]; simp [hv, h.base_ne]),
        h.findOptionIndex_eq_none fun o ho heq => hex ⟨o, ho, heq⟩]
    rw [e]
    exact h.add_outcome hn hv hok

theorem Stored.remove_outcome (h : Stored cfg base s os) (hsmall : Small (removeOptions n os))
    (hlast : (∃ o ∈ os, n < o.1) ∨ (os.filter fun o => o.1 = n).length ≤ 1) :
    Outcome cfg base s (removeOptions n os) (unicoapOptionsRemoveAll cfg s n) := by
  have hfits := h.fits.remove hsmall
  by_cases hex : ∃ o ∈ os, o.1 = n
  · obtain ⟨pre, o, tail, rfl, hpre, ho⟩ := exists_first h.fits.encodable hex
    obtain ⟨-, -, -, henc⟩ := h.encodable_at
    obtain ⟨rem, post, rfl, hrem, hpost⟩ := exists_run henc (le_of_eq ho.symm)
    have hrem' : ∀ o' ∈ o :: rem, o'.1 = n := forall_mem_cons.mpr ⟨ho, hrem⟩
    rw [← cons_append] at h hfits hlast ⊢
    rw [removeOptions_eq hpre hrem' hpost] at hfits ⊢
    cases post with
    | nil =>
      -- nothing follows, so only one option may be removed
      have hrem0 : rem = [] := by
        obtain ⟨o', ho', hlt⟩ | hle := hlast
        · simp only [append_nil, mem_append] at ho'
          obtain ho' | ho' := ho'
          · have := hpre o' ho'
            omega
          · have := hrem' o' ho'
            omega
        · have hfilter : ((o :: rem).filter fun o => o.1 = n) = o :: rem :=
            filter_eq_self.mpr fun o' ho' => by simpa using hrem' o' ho'
          rw [append_nil, filter_append, hfilter, length_append, length_cons] at hle
          exact eq_nil_of_length_eq_zero (by omega)
      subst hrem0
      rw [append_nil] at h hfits ⊢
      exact .success (h.remove_last hpre ho hfits)
    | cons o' post =>
      exact .success (h.remove_before hpre ho hrem (hpost o' (by simp))
        (fun o ho => hpost o (by simp [ho])) hfits)
  · have hne : ∀ o ∈ os, o.1 ≠ n := fun o ho heq => hex ⟨o, ho, heq⟩
    have e : removeOptions n os = os := filter_eq_self.mpr fun o ho => by simpa using hne o ho
    rw [h.remove_none hne, e]
    exact .success ⟨s, rfl, h, rfl, fun _ _ => rfl⟩

/-- **Every admissible call is right.** -/
theorem Stored.outcome (h : Stored cfg base s os) {c : OptionsCall}
    (hok : Admissible cfg (.running s os) c) : Outcome cfg base s (c.apply os) (c.exec cfg s) := by
  cases c with
  | add number value => exact h.add_outcome number.toNat_lt hok.1 hok.2
  | set number value => exact h.set_outcome number.toNat_lt hok.1 hok.2
  | removeAll number => exact h.remove_outcome hok.1 hok.2

/-! ## Runs of calls -/

/-- The session has not crashed, and its object stands for its options. -/
def SessionInv (cfg : Cfg) (base capacity : Nat) (σ : Session) : Prop :=
  ∃ s os, σ = .running s os ∧ Stored cfg base s os ∧ s.options.storageCapacity = capacity

theorem SessionInv.step {capacity : Nat} {σ σ' : Session} {c : OptionsCall}
    (hinv : SessionInv cfg base capacity σ) (hok : Admissible cfg σ c)
    (hstep : sessionStep cfg σ c = some σ') :
    CallRight cfg base capacity σ c ∧ SessionInv cfg base capacity σ' := by
  obtain ⟨s, os, rfl, h, rfl⟩ := hinv
  obtain ⟨r, s', hexec, hres⟩ := h.outcome hok
  simp only [sessionStep, hexec, Option.some.injEq] at hstep
  subst hstep
  obtain ⟨hr, rfl⟩ | ⟨rfl, hs⟩ := hres
  · rw [if_pos hr]
    exact ⟨⟨r, s', hexec, .inl ⟨hr, rfl⟩, rfl, fun _ _ => rfl⟩, s', os, rfl, h, rfl⟩
  · have hle := hs.stored.size_le
    rw [hs.capacity] at hle
    refine ⟨⟨0, s', hexec, .inr ⟨rfl, hs.stored.decodes⟩, hs.capacity, fun a ha => ?_⟩,
      s', c.apply os, rfl, hs.stored, hs.capacity⟩
    exact hs.frame a (by omega)

/-- A session on an object that was just initialized. -/
def newSession (entries : Memory OptionEntry) (mem : Memory UInt8) (storage capacity : Nat) : Session :=
  .running ⟨mem, unicoapOptionsInit entries storage capacity⟩ []

/-- **The options store.** In every run of admissible calls on an empty object,
each call fails and leaves the object as it was, or leaves a storage that decodes
to the options the calls so far make up. -/
theorem options_store (cfg : Cfg) (entries : Memory OptionEntry) (mem : Memory UInt8)
    (storage capacity : Nat) (cs : List OptionsCall) (hstorage : storage ≠ 0)
    (hok : Along (sessionStep cfg) (Admissible cfg) (newSession entries mem storage capacity) cs) :
    Along (sessionStep cfg) (CallRight cfg storage capacity)
      (newSession entries mem storage capacity) cs := by
  refine along_of_along (I := SessionInv cfg storage capacity) ?_ ?_ cs ?_ hok
  · intro σ c σ' hinv hok hstep
    exact (hinv.step hok hstep).1
  · intro σ c σ' hinv hok hstep
    exact (hinv.step hok hstep).2
  · exact ⟨_, _, rfl, .init hstorage, rfl⟩

/-- A repeated option, replaced and removed, with others behind it. -/
def repeatedCalls : List OptionsCall :=
  [.add 5 [1], .add 300 [], .add 5 [2, 3], .set 5 [], .removeAll 5, .removeAll 300]

/-- An empty object of sixteen options. -/
def emptySession (capacity : Nat) : Session := newSession (fun _ => ⟨0, 0, 0⟩) (fun _ => 0) 1 capacity

theorem options_store_repeated :
    Along (sessionStep ⟨16⟩) (Admissible ⟨16⟩) (emptySession 64) repeatedCalls ∧
    Along (sessionStep ⟨16⟩) (CallRight ⟨16⟩ 1 64) (emptySession 64) repeatedCalls := by
  have hok : Along (sessionStep ⟨16⟩) (Admissible ⟨16⟩) (emptySession 64) repeatedCalls := by decide
  exact ⟨hok, options_store ⟨16⟩ (fun _ => ⟨0, 0, 0⟩) (fun _ => 0) 1 64 repeatedCalls (by decide) hok⟩

/-- Removing two options that none follow gives back the bytes of one. Setting
an option in a full storage violates an assertion. -/
theorem not_options_store :
    ¬ Along (sessionStep ⟨16⟩) (CallRight ⟨16⟩ 1 64) (emptySession 64)
        ([.add 5 [], .add 5 []] ++ [.removeAll 5]) ∧
    ¬ Along (sessionStep ⟨16⟩) (CallRight ⟨16⟩ 1 3) (emptySession 3)
        ([.add 1 [7], .add 2 []] ++ [.set 1 [8]]) := by
  constructor
  · intro h
    have hrun : (run (sessionStep ⟨16⟩) (emptySession 64) [.add 5 [], .add 5 []]).any (fun
        | .running s _ => (unicoapOptionsRemoveAll ⟨16⟩ s 5).any fun (r, s') =>
            decide (r = 0 ∧ s'.options.storageSize = 1 ∧ s'.options.optionCount = 0)
        | .crashed => false) = true := by decide
    obtain ⟨σ, hσ, hbad⟩ := (Option.any_eq_true _ _).mp hrun
    cases σ with
    | crashed => exact absurd hbad (by decide)
    | running s os =>
      obtain ⟨⟨r, s'⟩, hexec, hbad⟩ := (Option.any_eq_true _ _).mp hbad
      obtain ⟨hr, hsize, hcount⟩ := of_decide_eq_true hbad
      have hexec : (OptionsCall.removeAll 5).exec ⟨16⟩ s = some (r, s') := hexec
      obtain ⟨r', s'', hexec', hres, -⟩ := h.last hσ (by simp [sessionStep, hexec])
      obtain ⟨rfl, rfl⟩ := Prod.mk.inj (Option.some.inj (hexec.symm.trans hexec'))
      obtain ⟨hlt, -⟩ | ⟨-, hdec⟩ := hres
      · omega
      · have := hdec.size
        rw [hsize, hcount] at this
        exact absurd this (by simp [entrySizes])
  · intro h
    have hrun : (run (sessionStep ⟨16⟩) (emptySession 3) [.add 1 [7], .add 2 []]).any (fun
        | .running s _ => (unicoapOptionsSet ⟨16⟩ s 1 [8]).isNone
        | .crashed => false) = true := by decide
    obtain ⟨σ, hσ, hbad⟩ := (Option.any_eq_true _ _).mp hrun
    cases σ with
    | crashed => exact absurd hbad (by decide)
    | running s os =>
      have hexec : (OptionsCall.set 1 [8]).exec ⟨16⟩ s = none := Option.isNone_iff_eq_none.mp hbad
      obtain ⟨r', s'', hexec', -⟩ := h.last hσ (by simp [sessionStep, hexec])
      rw [hexec] at hexec'
      exact absurd hexec' (by simp)

end Riot.Unicoap
