import Riot.Unicoap.Options
import Riot.Lib.OptionFormat

/-!
# What the option reader and writer compute

The functions on single options, in terms of the option format: the writer
stores the encoding of an option, and what it computes beforehand about sizes
is the length of that encoding.
-/

namespace Riot.Unicoap

open Riot.Lib Memory

variable {mem : Memory UInt8} {v delta cursor : Nat} {value : List UInt8}

/-! ## Fields -/

theorem uintExtendedSize_eq (h : v ≤ fieldMax) : uintExtendedSize v = (fieldExt v).length := by
  have hmax : fieldMax = 65804 := rfl
  unfold uintExtendedSize fieldExt
  split_ifs <;> first | rfl | omega

@[simp] theorem uintExtendedSizeFromNibble_eq :
    uintExtendedSizeFromNibble (fieldNibble v) = (fieldExt v).length := by
  unfold uintExtendedSizeFromNibble fieldNibble fieldExt
  split_ifs <;> first | rfl | omega

theorem uintWrite_eq (h : v ≤ fieldMax) : uintWrite mem v cursor =
      ((fieldNibble v : Int), store mem cursor (fieldExt v), cursor + (fieldExt v).length) := by
  have hmax : fieldMax = 65804 := rfl
  unfold uintWrite fieldNibble fieldExt
  by_cases h13 : v < 13
  · simp [h13, show v ≤ 12 by omega]
  by_cases h269 : v < 269
  · simp [h13, h269, show ¬ v ≤ 12 by omega, show v ≤ 268 by omega]
  · simp [h13, h269, show ¬ v ≤ 12 by omega, show ¬ v ≤ 268 by omega, show v ≤ 65804 by omega]

theorem uintRead_eq (h : v ≤ fieldMax) (hm : Holds mem cursor (fieldExt v)) :
    uintRead mem (fieldNibble v) cursor = some (v, cursor + (fieldExt v).length) := by
  have hmax : fieldMax = 65804 := rfl
  unfold fieldExt at hm
  unfold uintRead fieldNibble fieldExt
  by_cases h13 : v < 13
  · simp [h13]
  by_cases h269 : v < 269
  · simp only [h13, h269, if_false, if_true, holds_cons] at hm
    have e : 13 + (v - 13) % 256 = v := by omega
    simp [h13, h269, hm.1, e]
  · simp only [h13, h269, if_false, holds_cons] at hm
    have e : 269 + (256 * ((v - 269) / 256 % 256) + (v - 269) % 256) = v := by omega
    simp [h13, h269, hm.1, hm.2.1, bebuftohs, e]

/-! ## Heads -/

theorem decodeDeltaNibble_eq (b : UInt8) : decodeDeltaNibble b = b.toNat / 16 := by
  exact Nat.shiftRight_eq_div_pow ..

theorem decodeLengthNibble_eq (b : UInt8) : decodeLengthNibble b = b.toNat % 16 := by
  exact Nat.and_two_pow_sub_one_eq_mod b.toNat 4

theorem ofInt_shift {d : Nat} (hd : d ≤ 14) : UInt8.ofInt ((d : Int) * 16) = optionHead d 0 := by
  have h : ∀ d : Fin 15, UInt8.ofInt ((d.val : Int) * 16) = optionHead d.val 0 := by decide
  exact h ⟨d, by omega⟩

theorem ofInt_natCast (l : Nat) : UInt8.ofInt (l : Int) = UInt8.ofNat l := by
  apply UInt8.toNat_inj.mp
  simp only [UInt8.ofInt, UInt8.toNat_ofNat']
  omega

/-! ## Options -/

/-- Head byte and extended delta: the part of an option that depends on its delta. -/
def encodeHead (delta len : Nat) : List UInt8 :=
  optionHead (fieldNibble delta) (fieldNibble len) :: fieldExt delta

theorem encodeOption_eq : encodeOption delta value =
    encodeHead delta value.length ++ (fieldExt value.length ++ value) := rfl

@[simp] theorem length_encodeHead {len : Nat} :
    (encodeHead delta len).length = 1 + (fieldExt delta).length := by
  rw [encodeHead, List.length_cons, add_comm]

theorem optionSize_eq (hd : delta ≤ fieldMax) (hv : value.length ≤ fieldMax) :
    optionSize delta value.length = (encodeOption delta value).length := by
  rw [optionSize, uintExtendedSize_eq hd, uintExtendedSize_eq hv, if_neg (by omega),
    if_neg (by omega), length_encodeOption]
  push_cast
  rfl

theorem optionSizeDiff_eq {delta' : Nat} (hd : delta' ≤ fieldMax) :
    optionSizeDiff delta' (fieldNibble delta) =
      ((fieldExt delta').length : Int) - (fieldExt delta).length := by
  rw [optionSizeDiff, uintExtendedSize_eq hd, uintExtendedSizeFromNibble_eq]

/-- **Writing an option stores its encoding.** -/
theorem writeOption_eq (hd : delta ≤ fieldMax) (hv : value.length ≤ fieldMax) :
    writeOption mem cursor delta value = (store mem cursor (encodeOption delta value),
        cursor + (encodeOption delta value).length) := by
  have hhead : store (store (store mem (cursor + 1) (fieldExt delta)) cursor
        [UInt8.ofInt ((fieldNibble delta : Int) * 16)]) (cursor + 1 + (fieldExt delta).length)
        (fieldExt value.length) cursor = optionHead (fieldNibble delta) 0 := by
    rw [store_of_lt (by omega), ofInt_shift fieldNibble_le]
    exact (holds_store (s := [_])).1
  unfold writeOption
  rw [uintWrite_eq hd]
  dsimp only
  rw [uintWrite_eq hv]
  dsimp only
  rw [hhead, ofInt_natCast, optionHead_or fieldNibble_le fieldNibble_le, encodeOption]
  refine Prod.ext ?_ ?_
  · -- the final head hides the first one, then the blocks are adjacent
    rw [store_comm (s := fieldExt value.length) (by simp), store_store (by simp), store_cons]
    have e : cursor + 1 + (fieldExt delta).length =
        cursor + (optionHead (fieldNibble delta) (fieldNibble value.length) :: fieldExt delta).length := by
      rw [List.length_cons]
      omega
    rw [e, store_append, store_append]
    rfl
  · simp only [List.length_cons, List.length_append]
    omega

/-- Rewriting the head of an option stores the part that depends on its delta. -/
theorem writeHeadPartial_eq {len : Nat} (hd : delta ≤ fieldMax) :
    writeHeadPartial mem cursor delta (fieldNibble len) = store mem cursor (encodeHead delta len) := by
  unfold writeHeadPartial
  rw [uintWrite_eq hd]
  dsimp only
  rw [ofInt_shift fieldNibble_le, optionHead_or fieldNibble_le fieldNibble_le, store_cons]
  rfl

end Riot.Unicoap
