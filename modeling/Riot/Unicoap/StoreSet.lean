import Riot.Unicoap.StoreAdd

/-!
# Setting an option

Setting replaces the value of the first option of a number, and moves the
options behind it; when there is none, the option is added.
-/

namespace Riot.Unicoap

open Riot.Lib Memory List

/-- Replaces the first option of a number. -/
def replaceOption (n : Nat) (v : List UInt8) : List NumberedOption → List NumberedOption
  | [] => []
  | o :: os => if o.1 = n then (n, v) :: os else o :: replaceOption n v os

/-- Replaces the first option of a number, or adds the option. -/
def setOption (n : Nat) (v : List UInt8) (os : List NumberedOption) : List NumberedOption :=
  if ∃ o ∈ os, o.1 = n then replaceOption n v os else insertOption n v os

variable {cfg : Cfg} {base n : Nat} {v : List UInt8} {s : Store} {o : NumberedOption}
  {os pre post : List NumberedOption}

theorem replaceOption_eq (hpre : ∀ o ∈ pre, o.1 < n) (ho : o.1 = n) :
    replaceOption n v (pre ++ o :: post) = pre ++ (n, v) :: post := by
  induction pre with
  | nil => rw [nil_append, replaceOption, if_pos ho, nil_append]
  | cons o' pre ih =>
    have := hpre o' (by simp)
    rw [cons_append, replaceOption, if_neg (by omega), ih fun o ho => hpre o (by simp [ho])]
    rfl

theorem exists_first {prev : Nat} (h : OptionsEncodable prev os) (hex : ∃ o ∈ os, o.1 = n) :
    ∃ pre o post, os = pre ++ o :: post ∧ (∀ o ∈ pre, o.1 < n) ∧ o.1 = n := by
  induction os generalizing prev with
  | nil => simp at hex
  | cons o os ih =>
    by_cases ho : o.1 = n
    · exact ⟨[], o, os, rfl, by simp, ho⟩
    · have hex' : ∃ o ∈ os, o.1 = n := by
        obtain ⟨o', ho', hn⟩ := hex
        obtain rfl | ho' := mem_cons.mp ho'
        · exact absurd hn ho
        · exact ⟨o', ho', hn⟩
      obtain ⟨pre, o1, post, rfl, hpre, ho1⟩ := ih h.2.2.2 hex'
      refine ⟨o :: pre, o1, post, rfl, ?_, ho1⟩
      -- `o` is at most the option found, and not of its number
      have hle : o.1 ≤ n := by
        have henc := h.2.2.2
        cases pre with
        | nil => exact ho1 ▸ henc.1
        | cons o2 pre => exact le_trans henc.1 (le_of_lt (hpre o2 (by simp)))
      intro o' ho'
      obtain rfl | ho' := mem_cons.mp ho'
      · omega
      · exact hpre o' ho'

theorem Stored.shift_behind {b : Nat} {d : Int} (h : Stored cfg base s (pre ++ o :: post))
    (hb : (b : Int) = base + (encodeOptions 0 (pre ++ [o])).length + d) (hlo : base ≤ b)
    (hnew : s.options.storageSize + d ≤ s.options.storageCapacity)
    (hroom : post ≠ [] → s.options.storageSize < s.options.storageCapacity) :
    ∃ f, shiftOptions s (pre.length + 1) d = some (0,
        { mem := move s.mem b (base + (encodeOptions 0 (pre ++ [o])).length) (encodeOptions o.1 post).length
          options :=
            { storageSize := ((s.options.storageSize : Int) + d).toNat
              storageCapacity := s.options.storageCapacity
              entries := f
              optionCount := s.options.optionCount } }) ∧
      Holds f 0 (entriesOf base 0 (pre ++ [o])) ∧
      Holds f (pre.length + 1) (entriesOf b o.1 post) := by
  have hcount := h.count
  rw [length_append, length_cons] at hcount
  cases post with
  | nil =>
    rw [length_nil] at hcount
    refine ⟨s.options.entries, ?_, h.entries, holds_nil⟩
    rw [shiftOptions_end (by omega) (by omega)]
    simp
  | cons o' post =>
    rw [append_cons] at h
    obtain ⟨f, hf, hpre, hpost⟩ := h.shift hb hlo hnew (hroom (by simp))
    rw [lastNumber_append, length_append] at hf hpost
    exact ⟨f, hf, hpre, hpost⟩

theorem Stored.set_replace (h : Stored cfg base s (pre ++ o :: post)) (hpre : ∀ o ∈ pre, o.1 < n)
    (ho : o.1 = n) (hv : v.length ≤ uintMax) :
    (s.options.storageCapacity < (encodeOptions 0 (pre ++ (n, v) :: post)).length →
      unicoapOptionsSet cfg s n v = some (-ENOBUFS, s)) ∧
    (Fits (pre ++ (n, v) :: post) →
      (encodeOptions 0 (pre ++ (n, v) :: post)).length ≤ s.options.storageCapacity →
      (post ≠ [] → s.options.storageSize < s.options.storageCapacity) →
      ∃ s', unicoapOptionsSet cfg s n v = some (0, s') ∧ Step cfg base s s' (pre ++ (n, v) :: post)) := by
  subst ho
  have hn : o.1 < 2 ^ 16 := h.number_at
  obtain ⟨hle, hdn, hvo, -⟩ := h.encodable_at
  have hsize : (s.options.entries pre.length).size = (encodeOption (o.1 - lastNumber 0 pre) o.2).length := by
    rw [h.entry]
  have hold : (encodeOptions 0 (pre ++ [o])).length =
      (encodeOptions 0 pre).length + (encodeOption (o.1 - lastNumber 0 pre) o.2).length := by
    rw [encodeOptions_append, length_append, encodeOptions_cons, encodeOptions_nil, append_nil]
  have hnew : encodeOptions 0 (pre ++ (o.1, v) :: post) =
      encodeOptions 0 pre ++ (encodeOption (o.1 - lastNumber 0 pre) v ++ encodeOptions o.1 post) := by
    rw [encodeOptions_append, encodeOptions_cons]
  have hstorage := h.size
  have hmem := h.mem
  rw [encodeOptions_append, encodeOptions_cons, length_append, length_append] at hstorage
  rw [encodeOptions_append, encodeOptions_cons, holds_append, holds_append] at hmem
  have hlen := congrArg length hnew
  rw [length_append, length_append] at hlen
  obtain ⟨d, hd⟩ : ∃ d : Int, d = ((encodeOption (o.1 - lastNumber 0 pre) v).length : Int) -
      (encodeOption (o.1 - lastNumber 0 pre) o.2).length := ⟨_, rfl⟩
  unfold unicoapOptionsSet
  rw [if_neg (by rw [h.data]; simp [hv, h.base_ne]), h.findOptionIndex_eq hpre rfl]
  dsimp only
  rw [h.delta hle hn, optionSize_eq hdn hv, hsize, ← hd]
  constructor
  · intro hcap
    rw [shiftOptions_nobufs (by omega)]
    rfl
  intro hfits hcap hroom
  have hsz : size16 ((encodeOption (o.1 - lastNumber 0 pre) v).length : Int) =
      (encodeOption (o.1 - lastNumber 0 pre) v).length := hfits.size16_at
  obtain ⟨f, hshift, hfpre, hfpost⟩ := h.shift_behind (d := d)
    (b := base + (encodeOptions 0 pre).length + (encodeOption (o.1 - lastNumber 0 pre) v).length)
    (by omega) (by omega) (by omega) hroom
  rw [entriesOf_append, holds_append, length_entriesOf, zero_add, entriesOf_cons, holds_cons] at hfpre
  have hdata : (f pre.length).data = base + (encodeOptions 0 pre).length := by
    rw [hfpre.2.1]
  have hnumber : (f pre.length).number = o.1 := by
    rw [hfpre.2.1]
  rw [hshift]
  dsimp only
  rw [if_neg (by decide), writeOption_eq hdn hv, hdata, hnumber, hsz]
  -- only the size in the entry of the option changes
  have hentries : Holds (Function.update f pre.length ⟨base + (encodeOptions 0 pre).length,
      (encodeOption (o.1 - lastNumber 0 pre) v).length, o.1⟩) 0
      (entriesOf base 0 (pre ++ (o.1, v) :: post)) := by
    rw [entriesOf_append, entriesOf_cons, update_eq_store, holds_append, holds_cons, length_entriesOf,
      zero_add]
    exact ⟨hfpre.1.store (by simp), (holds_store (s := [_])).1, hfpost.store (by simp)⟩
  refine ⟨_, rfl, ⟨h.base_ne, data_of_entries hentries (by simp), ?_, ?_, ?_, ?_, hentries, ?_, hfits⟩,
    rfl, ?_⟩
  · rw [length_append, length_cons]
    have := h.count
    rwa [length_append, length_cons] at this
  · have := h.count_le
    rwa [length_append, length_cons] at this ⊢
  · dsimp only
    omega
  · dsimp only
    omega
  · rw [hnew, hold]
    have ht : Holds s.mem (base + ((encodeOptions 0 pre).length +
        (encodeOption (o.1 - lastNumber 0 pre) o.2).length) + 0) (encodeOptions o.1 post) := by
      rw [add_zero, ← add_assoc]
      exact hmem.2.2
    exact hmem.1.splice ht (by omega) (by omega) (by omega)
  · intro a ha
    dsimp only at ha ⊢
    rw [store_outside (by omega), move_outside (by omega)]

end Riot.Unicoap
