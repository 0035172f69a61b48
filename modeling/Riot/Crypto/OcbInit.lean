import Riot.Crypto.Ocb

/-!
# The variables of the offset codebook mode

The doubling, the nonce block and the start of the offsets are the strings of bits that RFC 7253
names, but for a nonce of 15 bytes, which takes the place of the tag length.
-/

namespace Riot.Crypto

open Riot.Lib List Block

variable {c : Cipher} {nonce : List UInt8} {sz n i j : Nat} {s x : Block16} {a : UInt8} {p : OcbParams}
  {enc : Block16 → Block16}

/-! ## Doubling -/

theorem getMsbD_shiftLeft_one (hj : j < 8) : (a <<< 1).toBitVec.getMsbD j = (j < 7 && a.toBitVec.getMsbD (j + 1)) := by
  have hshift : (a <<< 1).toBitVec = a.toBitVec <<< 1 := rfl
  rw [hshift, BitVec.getMsbD_shiftLeft]
  by_cases h7 : j < 7
  · rw [decide_eq_true h7, Bool.true_and]
  · rw [decide_eq_false h7, Bool.false_and, BitVec.getMsbD_of_ge _ _ (by omega)]

theorem getMsbD_shiftRight_seven (hj : j < 8) : (a >>> 7).toBitVec.getMsbD j = (j = 7 && a.toBitVec.getMsbD 0) := by
  have hshift : (a >>> 7).toBitVec = a.toBitVec >>> 7 := rfl
  by_cases h7 : j = 7
  · subst h7
    simp
  · have hlt : j < 7 := by omega
    simp [hlt, h7]

theorem getElem?_shifted {l : List Bool} : (l.drop 1 ++ [false])[n]?.getD false = l[n + 1]?.getD false := by
  by_cases hlt : n < l.length - 1
  · rw [getElem?_append_left (by rw [length_drop]; exact hlt), getElem?_drop, add_comm]
  · rw [getElem?_append_right (by rw [length_drop]; omega), getElem?_eq_none (l := l) (by omega),
      Option.getD_none]
    cases n - (l.drop 1).length with
    | zero => rfl
    | succ k => rfl

theorem getElem?_bits_block (hi : i < 16) (hj : j < 8) :
    (bits s.toList)[8 * i + j]?.getD false = s[i].toBitVec.getMsbD j := by
  rw [getElem?_bits hj, getElem?_eq_getElem (by rw [Vector.length_toList]; exact hi), Vector.getElem_toList]
  rfl

theorem getElem?_bits_succ (hi : i < 16) (hj : j < 8) : (bits s.toList)[8 * i + j + 1]?.getD false =
    if h : j < 7 then s[i].toBitVec.getMsbD (j + 1)
    else if h : i < 15 then s[i + 1].toBitVec.getMsbD 0 else false := by
  by_cases h7 : j < 7
  · rw [dif_pos h7, add_assoc, getElem?_bits_block hi (by omega)]
  · rw [dif_neg h7]
    by_cases h15 : i < 15
    · have hpos : 8 * i + j + 1 = 8 * (i + 1) + 0 := by omega
      rw [dif_pos h15, hpos, getElem?_bits_block (by omega) (by decide)]
    · rw [dif_neg h15, getElem?_eq_none (by rw [length_bits, Vector.length_toList]; omega)]
      rfl

theorem length_ocbPolynomial : ocbPolynomial.length = 128 := by
  rfl

theorem getElem?_ocbPolynomial (hi : i < 16) (hj : j < 8) : ocbPolynomial[8 * i + j]?.getD false =
    (i = 15 && (0x87 : UInt8).toBitVec.getMsbD j) := by
  have h : ∀ i : Fin 16, ∀ j : Fin 8, ocbPolynomial[8 * i.val + j.val]?.getD false =
      (decide (i.val = 15) && (0x87 : UInt8).toBitVec.getMsbD j) := by decide
  exact h ⟨i, hi⟩ ⟨j, hj⟩

theorem getElem?_xorBits {l1 l2 : List Bool} (h : l1.length = l2.length) :
    (xorBits l1 l2)[n]?.getD false = (l1[n]?.getD false ^^ l2[n]?.getD false) := by
  unfold xorBits
  rw [getElem?_zipWith]
  by_cases hlt : n < l1.length
  · rw [getElem?_eq_getElem hlt, getElem?_eq_getElem (h ▸ hlt)]
    rfl
  · rw [getElem?_eq_none (l := l1) (by omega), getElem?_eq_none (l := l2) (by omega)]
    rfl

theorem msb_eq : a >>> 7 = if a.toBitVec.getMsbD 0 then 1 else 0 := by
  refine byte_ext fun j hj => ?_
  rw [getMsbD_shiftRight_seven hj]
  cases a.toBitVec.getMsbD 0 with
  | false =>
    simp
  | true =>
    have h : ∀ j : Fin 8, (decide (j.val = 7) && true) = (1 : UInt8).toBitVec.getMsbD j := by decide
    exact h ⟨j, hj⟩

/-- **`double_block` doubles.** -/
theorem doubleBlock_eq : doubleBlock s = ocbDouble s := by
  refine eq_ofBits fun i j hi hj => ?_
  have hhead : (bits s.toList)[0]? = some (s[0].toBitVec.getMsbD 0) := by
    have := @getElem?_bits 0 _ s.toList (show 0 < 8 by decide)
    rw [this, getElem?_eq_getElem (by rw [Vector.length_toList]; decide), Vector.getElem_toList]
    rfl
  have hlen : ((bits s.toList).drop 1 ++ [false]).length = ocbPolynomial.length := by
    rw [length_append, length_drop, length_bits, Vector.length_toList, length_ocbPolynomial]
    rfl
  have hshift : ((bits s.toList).drop 1 ++ [false])[8 * i + j]?.getD false =
      if h : j < 7 then s[i].toBitVec.getMsbD (j + 1)
      else if h : i < 15 then s[i + 1].toBitVec.getMsbD 0 else false := by
    rw [getElem?_shifted, getElem?_bits_succ hi hj]
  have hright : (if (bits s.toList)[0]? = some true then
        xorBits ((bits s.toList).drop 1 ++ [false]) ocbPolynomial else (bits s.toList).drop 1 ++ [false])[8 * i + j]?.getD
        false = (((bits s.toList).drop 1 ++ [false])[8 * i + j]?.getD false ^^
          (s[0].toBitVec.getMsbD 0 && (i = 15 && (0x87 : UInt8).toBitVec.getMsbD j))) := by
    rw [hhead]
    cases s[0].toBitVec.getMsbD 0 with
    | false => rw [if_neg (by decide), Bool.false_and, Bool.xor_false]
    | true => rw [if_pos rfl, getElem?_xorBits hlen, getElem?_ocbPolynomial hi hj, Bool.true_and]
  rw [hright, hshift]
  unfold doubleBlock
  rw [Vector.getElem_ofFn]
  by_cases h15 : i < 15
  · have hne : decide (i = 15) = false := decide_eq_false (by omega)
    rw [dif_pos h15, UInt8.toBitVec_or, BitVec.getMsbD_or, hne, Bool.false_and, Bool.and_false, Bool.xor_false,
      dif_pos h15, getMsbD_shiftLeft_one hj, getMsbD_shiftRight_seven hj]
    by_cases h7 : j < 7
    · have hne7 : decide (j = 7) = false := decide_eq_false (by omega)
      rw [dif_pos h7, decide_eq_true h7, hne7, Bool.true_and, Bool.false_and, Bool.or_false]
      rfl
    · have h7' : decide (j = 7) = true := decide_eq_true (by omega)
      rw [dif_neg h7, decide_eq_false h7, h7', Bool.true_and, Bool.false_and, Bool.false_or]
  · obtain rfl : i = 15 := by omega
    rw [dif_neg h15, UInt8.toBitVec_xor, BitVec.getMsbD_xor, getMsbD_shiftLeft_one hj, msb_eq, decide_eq_true rfl,
      Bool.true_and]
    have hlast : (decide (j < 7) && s[15].toBitVec.getMsbD (j + 1)) =
        if h : j < 7 then s[15].toBitVec.getMsbD (j + 1) else false := by
      by_cases h7 : j < 7
      · rw [dif_pos h7, decide_eq_true h7, Bool.true_and]
      · rw [dif_neg h7, decide_eq_false h7, Bool.false_and]
    rw [hlast, dif_neg (show ¬ 15 < 15 by decide)]
    cases s[0].toBitVec.getMsbD 0 with
    | false =>
      simp
    | true =>
      rw [if_pos rfl, UInt8.mul_one, Bool.true_and]

/-! ## The offsets -/

theorem ntzLoop_eq : ∀ {fuel n : Nat}, 0 < n → n ≤ fuel → ntzLoop fuel n = padicValNat 2 n := by
  intro fuel
  induction fuel with
  | zero =>
    intro n hpos hle
    omega
  | succ fuel ih =>
    intro n hpos hle
    rw [ntzLoop]
    by_cases heven : n % 2 = 0
    · obtain ⟨k, rfl⟩ := Nat.dvd_of_mod_eq_zero heven
      have hk : k ≠ 0 := by omega
      rw [if_pos heven, Nat.mul_div_cancel_left k (by decide), ih (by omega) (by omega),
        padicValNat.mul (by decide) hk, padicValNat_self, add_comm]
    · rw [if_neg heven, padicValNat.eq_zero_of_not_dvd (fun h => heven (Nat.mod_eq_zero_of_dvd h))]

theorem ntz_succ : ntz sz (n + 1) = padicValNat 2 (n + 1) := by
  unfold ntz
  rw [if_neg (Nat.succ_ne_zero n), ntzLoop_eq (Nat.succ_pos n) le_rfl]

theorem calculateLI_ocbL : calculateLI (ocbL enc 0) i = ocbL enc i := by
  induction i with
  | zero => rfl
  | succ i ih =>
    rw [calculateLI, ih, doubleBlock_eq]
    rfl

/-! ## The nonce block -/

/-- The nonce block as the code puts it together. -/
def OcbParams.noncePadded (p : OcbParams) : Block16 :=
  (((Block.zero 16).copy 0 [UInt8.ofNat ((p.tagLen * 8) <<< 1)]).copy (15 - p.nonce.length) [0x01]).copy
    (16 - p.nonce.length) p.nonce

/-- The tag length is in the nonce block: it is not overwritten, or it is zero. -/
def OcbParams.Bound (p : OcbParams) : Prop := p.nonce.length = 15 → p.tagLen = 16

theorem byteBits_tagLen {t : Nat} (h : t ≤ 16) : byteBits (UInt8.ofNat ((t * 8) <<< 1)) = numBits 7 (8 * t % 128) ++ [false] := by
  have : ∀ t : Fin 17, byteBits (UInt8.ofNat ((t.val * 8) <<< 1)) = numBits 7 (8 * t.val % 128) ++ [false] := by
    decide +kernel
  exact this ⟨t, by omega⟩

theorem copy_nonce {t : UInt8} (h : nonce.length ≤ 14) :
    ((((zero 16).copy 0 [t]).copy (15 - nonce.length) [1]).copy (16 - nonce.length) nonce).toList =
      [t] ++ replicate (14 - nonce.length) 0 ++ [1] ++ nonce := by
  have hpad : (zero 16).copy 0 [t] = ofList 16 ([t] ++ replicate (14 - nonce.length) 0) := by
    rw [copy_zero, ofList_append_zeros]
  have h1 : ([t] ++ replicate (14 - nonce.length) 0).length = 15 - nonce.length := by
    rw [length_append, length_replicate, length_singleton]
    omega
  have h2 : ([t] ++ replicate (14 - nonce.length) 0 ++ [1]).length = 16 - nonce.length := by
    rw [length_append, h1, length_singleton]
    omega
  have h3 : ([t] ++ replicate (14 - nonce.length) 0 ++ [1] ++ nonce).length = 16 := by
    rw [length_append, h2]
    omega
  rw [hpad, ← h1, copy_ofList, ← h2, copy_ofList, toList_ofList h3]

theorem copy_nonce_long {t : UInt8} (h : nonce.length = 15) :
    ((((zero 16).copy 0 [t]).copy 0 [1]).copy 1 nonce).toList = [1] ++ nonce := by
  have hfirst : (ofList 16 [t]).copy 0 [1] = ofList 16 [1] := @copy_middle _ [] [] _ _
  have hsecond : (ofList 16 [1]).copy 1 nonce = ofList 16 ([1] ++ nonce) := copy_ofList
  rw [copy_zero, hfirst, hsecond, toList_ofList (by rw [length_append, h]; rfl)]

theorem byteBits_one : byteBits 1 = replicate 7 false ++ [true] := rfl

/-- **The nonce block is the standard's**, if the tag length is in it. -/
theorem OcbParams.bits_noncePadded (h : p.Bound) : bits p.noncePadded.toList = p.nonceBits := by
  have hle := p.nonce_le
  unfold OcbParams.noncePadded OcbParams.nonceBits
  by_cases h15 : p.nonce.length = 15
  · have hnum : numBits 7 (8 * 16 % 128) = replicate 7 false := by decide
    rw [h15, Nat.sub_self, copy_nonce_long h15, h h15, bits_append, bits_cons, bits_nil, append_nil, byteBits_one,
      hnum, append_assoc]
    rfl
  · rw [copy_nonce (by omega), bits_append, bits_append, bits_append, bits_cons, bits_nil, append_nil,
      byteBits_tagLen p.tagLen_le, bits_replicate_zero, bits_cons, bits_nil, append_nil, byteBits_one]
    have hzeros : [false] ++ (replicate (8 * (14 - p.nonce.length)) false ++ replicate 7 false) =
        replicate (120 - 8 * p.nonce.length) false := by
      rw [replicate_append_replicate, show [false] = replicate 1 false from rfl, replicate_append_replicate]
      congr 1
      omega
    rw [← hzeros]
    simp only [append_assoc, cons_append, nil_append]

/-! ## The start of the offsets -/

theorem bitsNum_last : bitsNum ((bits x.toList).drop 122) = (getElem x 15 (Nat.lt_succ_self 15) &&& 0x3f).toNat := by
  have hbyte : ∀ n : Fin 256, bitsNum ((byteBits (UInt8.ofNat n)).drop 2) = (UInt8.ofNat n &&& 0x3f).toNat := by
    decide +kernel
  have hlast : x.toList.drop 15 = [x[15]] := by
    rw [drop_eq_getElem_cons (by rw [Vector.length_toList]; decide), Vector.getElem_toList,
      drop_eq_nil_of_le (by rw [Vector.length_toList])]
  have hdrop : (bits x.toList).drop 122 = (byteBits x[15]).drop 2 := by
    rw [show 122 = 8 * 15 + 2 from rfl, ← drop_drop, ← bits_drop, hlast, bits_cons, bits_nil, append_nil]
  have := hbyte ⟨x[15].toNat, x[15].toNat_lt⟩
  rwa [UInt8.ofNat_toNat, ← hdrop] at this

theorem ofBits_top : ofBits 16 ((bits x.toList).take 122 ++ replicate 6 false) =
    x.copy 15 [getElem x 15 (Nat.lt_succ_self 15) &&& 0xc0] := by
  refine (eq_ofBits fun i j hi hj => ?_).symm
  have hlen : ((bits x.toList).take 122).length = 122 := by
    rw [length_take, length_bits, Vector.length_toList]
    rfl
  rw [getElem_copy]
  by_cases h15 : i = 15
  · subst h15
    have hmask : ∀ j : Fin 8, (0xc0 : UInt8).toBitVec.getMsbD j = decide (j.val < 2) := by decide
    rw [if_pos (le_refl 15), Nat.sub_self, getElem?_cons_zero, Option.getD_some, UInt8.toBitVec_and,
      BitVec.getMsbD_and, hmask ⟨j, hj⟩]
    by_cases h2 : j < 2
    · rw [getElem?_append_left (by omega), getElem?_take_of_lt (by omega), getElem?_bits_block (by decide) hj,
        decide_eq_true h2, Bool.and_true]
    · rw [getElem?_append_right (by omega), decide_eq_false h2, Bool.and_false, getElem?_replicate]
      split <;> rfl
  · rw [if_neg (by omega), getElem?_append_left (by omega), getElem?_take_of_lt (by omega),
      getElem?_bits_block hi hj]

theorem getMsbD_offsetByte {l : List UInt8} {start bit : Nat} (hbit : bit < 8) (hj : j < 8) :
    (offsetByte l start bit i).toBitVec.getMsbD j = (bits l)[8 * start + bit + (8 * i + j)]?.getD false := by
  have hgetD : ∀ q r : Nat, r < 8 → (bits l)[8 * q + r]?.getD false = (l[q]?.getD 0).toBitVec.getMsbD r := by
    intro q r hr
    rw [getElem?_bits hr]
    cases l[q]? with
    | none =>
      have hzero : (0 : UInt8).toBitVec.getMsbD r = false := BitVec.getMsbD_zero
      exact hzero.symm
    | some b => rfl
  unfold offsetByte
  rw [BitVec.getMsbD_or, BitVec.getMsbD_shiftLeft, BitVec.getMsbD_ushiftRight]
  by_cases hlt : j + bit < 8
  · have hpos : 8 * start + bit + (8 * i + j) = 8 * (start + i) + (j + bit) := by omega
    have hfirst : ¬ 8 - bit ≤ j := by omega
    rw [hpos, hgetD _ _ hlt]
    simp [hfirst]
  · have hpos : 8 * start + bit + (8 * i + j) = 8 * (start + i + 1) + (j - (8 - bit)) := by omega
    rw [hpos, hgetD _ _ (by omega), BitVec.getMsbD_of_ge _ _ (by omega), Bool.false_or]
    simp [hj, show 8 - bit ≤ j by omega]

/-- **The offsets start in the stretch**, behind as many bits as the nonce says. -/
theorem ofFn_offsetByte {l : List UInt8} {bottom : Nat} :
    (Vector.ofFn fun i : Fin 16 => offsetByte l (bottom / 8) (bottom - bottom / 8 * 8) i) =
      ofBits 16 (((bits l).drop bottom).take 128) := by
  refine eq_ofBits fun i j hi hj => ?_
  have hpos : 8 * (bottom / 8) + (bottom - bottom / 8 * 8) + (8 * i + j) = bottom + (8 * i + j) := by omega
  rw [Vector.getElem_ofFn, getMsbD_offsetByte (by omega) hj, hpos, getElem?_take_of_lt (by omega),
    getElem?_drop]

theorem bits_stretch {k : Block16} : bits (k.toList ++ xorBytes (k.toList.take 8) ((k.toList.drop 1).take 8)) =
    bits k.toList ++ xorBits ((bits k.toList).take 64) (((bits k.toList).drop 8).take 64) := by
  rw [bits_append, bits_xorBytes, bits_take, bits_take, bits_drop]

/-- **`init_ocb` computes the variables of the key and of the nonce**, if the tag length is bound. -/
theorem OcbParams.initOcb_eq (h : p.Bound) : initOcb c p.tagLen p.nonce =
    { lStar := ocbLStar c.encrypt, lZero := ocbL c.encrypt 0, lDollar := ocbLDollar c.encrypt,
      checksum := zero 16, offset := p.offset c.encrypt 0 } := by
  have hbits := p.bits_noncePadded h
  have hbottom : (p.noncePadded[15] &&& 0x3f).toNat = p.bottom := by
    rw [← bitsNum_last, hbits]
    rfl
  have hktop : p.noncePadded.copy 15 [p.noncePadded[15] &&& 0xc0] =
      ofBits 16 (p.nonceBits.take 122 ++ replicate 6 false) := by
    rw [← ofBits_top, hbits]
  have hinit : initOcb c p.tagLen p.nonce =
      { lStar := c.encrypt (zero 16), lZero := doubleBlock (doubleBlock (c.encrypt (zero 16))),
        lDollar := doubleBlock (c.encrypt (zero 16)), checksum := zero 16,
        offset := .ofFn fun i => offsetByte ((c.encrypt (p.noncePadded.copy 15 [p.noncePadded[15] &&& 0xc0])).toList ++
          xorBytes ((c.encrypt (p.noncePadded.copy 15 [p.noncePadded[15] &&& 0xc0])).toList.take 8)
            (((c.encrypt (p.noncePadded.copy 15 [p.noncePadded[15] &&& 0xc0])).toList.drop 1).take 8))
          ((p.noncePadded[15] &&& 0x3f).toNat / 8)
          ((p.noncePadded[15] &&& 0x3f).toNat - (p.noncePadded[15] &&& 0x3f).toNat / 8 * 8) i } := rfl
  rw [hinit, ofFn_offsetByte, bits_stretch, hbottom, hktop, doubleBlock_eq, doubleBlock_eq]
  rfl

end Riot.Crypto
