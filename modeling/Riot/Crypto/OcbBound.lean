import Riot.Crypto.OcbConforms

/-!
# The tag length in the nonce block

A nonce of 15 bytes leaves no room for the tag length in `init_ocb`. Whatever the message, there is
a cipher for which the tag is not the standard's: one that changes two bits of its blocks for each
other, and so brings a bit of the nonce block to the tag.
-/

namespace Riot.Crypto

open Riot.Lib List OcbParams Block

variable {c : Cipher} {input output nonce m : List UInt8} {sz i : Nat} {x y : Block16} {p : OcbParams}
  {enc : Block16 → Block16}

/-! ## Where it fails -/

/-- A bit of a block. -/
def bitAt (x : Block16) (i : Nat) : Bool := (bits x.toList)[i]?.getD false

theorem bitAt_ext (h : ∀ i < 128, bitAt x i = bitAt y i) : x = y := by
  refine Vector.ext fun i hi => byte_ext fun j hj => ?_
  rw [← getElem?_bits_block hi hj, ← getElem?_bits_block hi hj]
  exact h (8 * i + j) (by omega)

theorem bitAt_ofBits {l : List Bool} (h : i < 128) : bitAt (ofBits 16 l) i = l[i]?.getD false := by
  obtain ⟨q, r, hr, rfl⟩ : ∃ q r, r < 8 ∧ i = 8 * q + r := ⟨i / 8, i % 8, Nat.mod_lt _ (by decide), by omega⟩
  rw [bitAt, getElem?_bits_block (by omega) hr, getMsbD_ofBits (by omega) hr]

theorem bitAt_xor (h : i < 128) : bitAt (x.xor y) i = (bitAt x i ^^ bitAt y i) := by
  obtain ⟨q, r, hr, rfl⟩ : ∃ q r, r < 8 ∧ i = 8 * q + r := ⟨i / 8, i % 8, Nat.mod_lt _ (by decide), by omega⟩
  unfold bitAt
  rw [getElem?_bits_block (by omega) hr, getElem?_bits_block (by omega) hr, getElem?_bits_block (by omega) hr,
    getElem_xor, UInt8.toBitVec_xor, BitVec.getMsbD_xor]

theorem bitAt_zero : bitAt (zero 16) i = false := by
  have hzero : (zero 16).toList = replicate 16 0 := rfl
  unfold bitAt
  rw [hzero, bits_replicate_zero, getElem?_replicate]
  split <;> rfl

/-- Two places changed for each other. -/
def swapped (a b i : Nat) : Nat := if i = a then b else if i = b then a else i

theorem swapped_swapped {a b : Nat} : swapped a b (swapped a b i) = i := by
  unfold swapped
  grind

/-- The cipher that changes two bits of its blocks for each other. -/
def swapBits (a b : Nat) : Cipher where
  blockSize := 16
  encrypt x := Block.ofBits 16 ((List.range 128).map fun i => bitAt x (swapped a b i))
  decrypt x := Block.ofBits 16 ((List.range 128).map fun i => bitAt x (swapped a b i))

theorem swapped_lt {a b : Nat} (ha : a < 128) (hb : b < 128) (h : i < 128) : swapped a b i < 128 := by
  unfold swapped
  split
  · exact hb
  · split
    · exact ha
    · exact h

theorem bitAt_swapBits {a b : Nat} (h : i < 128) : bitAt ((swapBits a b).encrypt x) i = bitAt x (swapped a b i) := by
  rw [swapBits, bitAt_ofBits h, getElem?_map, getElem?_range h]
  rfl

theorem swapBits_invertible {a b : Nat} (ha : a < 128) (hb : b < 128) : (swapBits a b).Invertible := by
  have h : ∀ x, (swapBits a b).encrypt ((swapBits a b).encrypt x) = x := by
    intro x
    refine bitAt_ext fun i hi => ?_
    rw [bitAt_swapBits hi, bitAt_swapBits (swapped_lt ha hb hi), swapped_swapped]
  exact ⟨rfl, h, h⟩

theorem swapBits_zero {a b : Nat} : (swapBits a b).encrypt (zero 16) = zero 16 := by
  refine bitAt_ext fun i hi => ?_
  rw [bitAt_swapBits hi, bitAt_zero, bitAt_zero]

theorem ocbDouble_zero : ocbDouble (zero 16) = zero 16 := by decide +kernel

theorem ocbL_zero (h : enc (zero 16) = zero 16) : ocbL enc i = zero 16 := by
  induction i with
  | zero => rw [ocbL, ocbLDollar, ocbLStar, h, ocbDouble_zero, ocbDouble_zero]
  | succ i ih => rw [ocbL, ih, ocbDouble_zero]

theorem ocbOffset_zero (h : enc (zero 16) = zero 16) : ocbOffset enc x i = x := by
  induction i with
  | zero => rfl
  | succ i ih => rw [ocbOffset, ih, ocbL_zero h, xor_zero]

/-- With a cipher that leaves the zeros as they are, the offsets are all the first. -/
theorem OcbParams.tag_zero (h : enc (zero 16) = zero 16) : ∃ checksum : Block16, ∀ q : OcbParams,
    q.adata = p.adata → q.tag enc m = (enc (checksum.xor (q.offset enc 0))).xor (ocbHash enc p.adata) := by
  have hoffset : ∀ (q : OcbParams) k, q.offset enc k = q.offset enc 0 := by
    intro q k
    unfold offset
    rw [ocbOffset_zero h, ocbOffset_zero h]
  have hstar : ocbLStar enc = zero 16 := h
  have hdollar : ocbLDollar enc = zero 16 := by rw [ocbLDollar, hstar, ocbDouble_zero]
  by_cases h0 : ocbRest m = []
  · refine ⟨ocbSum (ocbBlock m) (m.length / 16), fun q hq => ?_⟩
    unfold tag
    dsimp only
    rw [if_pos h0, hoffset, hdollar, xor_zero, hq]
  · refine ⟨(ocbSum (ocbBlock m) (m.length / 16)).xor (ocbPadded (ocbRest m)), fun q hq => ?_⟩
    unfold tag
    dsimp only
    rw [if_neg h0, hoffset, hdollar, hstar, xor_zero, xor_zero, hq]

/-- A nonce of 15 bytes, as the code takes it: for a tag of 16 bytes. -/
def OcbParams.unbound (p : OcbParams) : OcbParams :=
  { p with tagLen := 16, tagLen_pos := Nat.two_pow_pos 4, tagLen_le := Nat.le_refl 16 }

theorem initOcb_unbound {t t' : Nat} (h : nonce.length = 15) : initOcb c t nonce = initOcb c t' nonce := by
  have hfirst : ∀ b, ((zero 16).copy 0 [b]).copy 0 [1] = ofList 16 [1] := by
    intro b
    rw [copy_zero]
    exact @copy_middle _ [] [] _ _
  unfold initOcb
  dsimp only
  rw [h, Nat.sub_self, hfirst, hfirst]

/-- Where the tags differ: a bit of the tag length that the cipher brings to the first offset. -/
def OcbParams.boundBit (p : OcbParams) : Nat :=
  if 8 ≤ p.tagLen then 0 else if 4 ≤ p.tagLen then 1 else if 2 ≤ p.tagLen then 2 else 3

theorem OcbParams.nonceBits_long (h : p.nonce.length = 15) :
    p.nonceBits = numBits 7 (8 * p.tagLen % 128) ++ (true :: bits p.nonce) := by
  unfold nonceBits
  rw [h]
  rfl

theorem OcbParams.boundBit_spec (hlt : p.tagLen < 16) (h15 : p.nonce.length = 15) :
    p.boundBit < 4 ∧ p.nonceBits[p.boundBit]?.getD false = true ∧
      p.unbound.nonceBits[p.boundBit]?.getD false = false := by
  have hpos := p.tagLen_pos
  have hbits : ∀ t : Fin 16, 0 < t.val →
      let k := if 8 ≤ t.val then 0 else if 4 ≤ t.val then 1 else if 2 ≤ t.val then 2 else 3
      k < 4 ∧ (numBits 7 (8 * t.val % 128))[k]?.getD false = true ∧
        (numBits 7 (8 * 16 % 128))[k]?.getD false = false := by decide
  obtain ⟨h1, h2, h3⟩ := hbits ⟨p.tagLen, hlt⟩ hpos
  have hlen : ∀ v, (numBits 7 v).length = 7 := fun v => by rw [numBits, length_map, length_range]
  refine ⟨h1, ?_, ?_⟩
  · rw [nonceBits_long h15, getElem?_append_left (by rw [hlen]; exact lt_trans h1 (by decide))]
    exact h2
  · rw [nonceBits_long (p := p.unbound) h15,
      getElem?_append_left (by rw [hlen]; exact lt_trans h1 (by decide))]
    exact h3

theorem OcbParams.length_nonceBits : p.nonceBits.length = 128 := by
  have hle := p.nonce_le
  unfold nonceBits
  rw [length_append, length_append, length_cons, length_bits, length_replicate, numBits,
    length_map, length_range]
  omega

theorem OcbParams.bottom_lt : p.bottom < 64 := by
  have := bitsNum_lt (s := p.nonceBits.drop 122)
  rwa [length_drop, length_nonceBits] at this

theorem OcbParams.bottom_unbound (h15 : p.nonce.length = 15) : p.unbound.bottom = p.bottom := by
  have hlen : ∀ v, (numBits 7 v).length = 7 := fun v => by rw [numBits, length_map, length_range]
  have hdrop : ∀ v, (numBits 7 v ++ (true :: bits p.nonce)).drop 122 = (true :: bits p.nonce).drop 115 := by
    intro v
    rw [drop_append, hlen, drop_eq_nil_of_le (by rw [hlen]; decide), nil_append]
  unfold bottom
  rw [nonceBits_long h15, nonceBits_long (p := p.unbound) h15, hdrop]
  exact congrArg bitsNum (hdrop _)

/-- The cipher brings the bit of the nonce block to the first bit of the offset. -/
theorem OcbParams.bitAt_offset {a : Nat} (ha : a < 4) :
    bitAt (p.offset (swapBits a p.bottom).encrypt 0) 0 = p.nonceBits[a]?.getD false := by
  have hbottom := p.bottom_lt
  have hswap : swapped a p.bottom p.bottom = a := by
    unfold swapped
    rw [if_pos rfl]
    split
    · assumption
    · rfl
  have hktop : (p.ktop (swapBits a p.bottom).encrypt).length = 128 := by
    rw [ktop, length_bits, Vector.length_toList]
  have hbit : (p.ktop (swapBits a p.bottom).encrypt)[p.bottom]?.getD false = p.nonceBits[a]?.getD false := by
    have hlen : (p.nonceBits.take 122).length = 122 := by
      rw [length_take, length_nonceBits]
      rfl
    unfold ktop
    rw [← bitAt, bitAt_swapBits (by omega), hswap, bitAt_ofBits (by omega), getElem?_append_left (by omega),
      getElem?_take_of_lt (by omega)]
  unfold offset
  rw [ocbOffset, bitAt_ofBits (by decide), getElem?_take_of_lt (by decide), getElem?_drop, add_zero,
    stretch, getElem?_append_left (by omega), hbit]

/-- **Without the tag length in the nonce block there is a cipher that tells the tags apart.** -/
theorem OcbParams.tag_unbound (h15 : p.nonce.length = 15) (hlt : p.tagLen < 16) : ∃ c : Cipher, c.Invertible ∧
    ∀ m, (p.unbound.tag c.encrypt m).toList.take p.tagLen ≠ (p.tag c.encrypt m).toList.take p.tagLen := by
  obtain ⟨ha, hbit, hbit'⟩ := boundBit_spec hlt h15
  have hbottom := p.bottom_lt
  have hpos := p.tagLen_pos
  refine ⟨swapBits p.boundBit p.bottom, swapBits_invertible (by omega) (by omega), fun m hsame => ?_⟩
  obtain ⟨checksum, htag⟩ := tag_zero (p := p) (m := m) (swapBits_zero (a := p.boundBit) (b := p.bottom))
  -- the place where the first bit of the offset is in the tag
  have hplace : swapped p.boundBit p.bottom 0 < 8 * p.tagLen := by
    have hzero : p.boundBit = 0 → 8 ≤ p.tagLen := by
      unfold boundBit
      split
      · exact fun _ => by assumption
      · split
        · exact fun h0 => by cases h0
        · split <;> exact fun h0 => by cases h0
    unfold swapped
    split
    · omega
    · split <;> omega
  have hat : ∀ q : OcbParams, q.adata = p.adata → (((q.tag (swapBits p.boundBit p.bottom).encrypt m).toList.take
      p.tagLen |> bits)[swapped p.boundBit p.bottom 0]?.getD false) =
      ((bitAt checksum 0 ^^ bitAt (q.offset (swapBits p.boundBit p.bottom).encrypt 0) 0) ^^
        bitAt (ocbHash (swapBits p.boundBit p.bottom).encrypt p.adata) (swapped p.boundBit p.bottom 0)) := by
    intro q hq
    have hlt' : swapped p.boundBit p.bottom 0 < 128 := swapped_lt (by omega) (by omega) (by decide)
    rw [bits_take, getElem?_take_of_lt hplace, ← bitAt, htag q hq, bitAt_xor hlt', bitAt_swapBits hlt',
      swapped_swapped, bitAt_xor (by decide)]
  have hcontra := (hat p.unbound rfl).symm.trans ((congrArg (fun l => (bits l)[swapped p.boundBit p.bottom 0]?.getD false)
    hsame).trans (hat p rfl))
  have hoffset := bitAt_offset (p := p) ha
  have hoffset' := bitAt_offset (p := p.unbound) ha
  rw [bottom_unbound h15] at hoffset'
  rw [hoffset, hoffset', hbit, hbit'] at hcontra
  revert hcontra
  cases bitAt checksum 0 <;>
    cases bitAt (ocbHash (swapBits p.boundBit p.bottom).encrypt p.adata) (swapped p.boundBit p.bottom 0) <;> decide

theorem OcbParams.holds_of_right (hsz : 4 ≤ sz) (hadata : p.adata.length < 2 ^ 32) (h : OcbRight sz p m input) :
    OcbHolds p m input := by
  have hle := p.tagLen_le
  have hid : Cipher.Invertible ⟨16, id, id⟩ := ⟨rfl, fun _ => rfl, fun _ => rfl⟩
  have hout : (replicate (m.length + p.tagLen) (0 : UInt8)).length = m.length + p.tagLen := length_replicate
  have hmsg : m.length + p.tagLen < 2 ^ 31 := by
    refine not_le.mp fun hge => ?_
    have henc := h.encrypts _ hid _ hout
    unfold cipherEncryptOcb at henc
    rw [if_pos (by omega)] at henc
    have := (Prod.mk.inj (Except.ok.inj henc)).1
    unfold ocbErrInvalidDataLength at this
    omega
  refine ⟨fun h15 => ?_, hadata, hmsg, ?_⟩
  · refine le_antisymm hle (not_lt.mp fun hlt => ?_)
    obtain ⟨c, hc, hne⟩ := tag_unbound h15 hlt
    have hcode := @cipherEncryptOcb_of _ _ m sz p p.unbound (fun _ => rfl) rfl rfl
      (initOcb_unbound h15) hadata hc.blockSize hmsg hout
    have hsame := (Prod.mk.inj (Except.ok.inj (hcode.symm.trans (h.encrypts c hc _ hout)))).2
    have hbody : ∀ q : OcbParams, (q.body c.encrypt m).length = m.length :=
      fun q => @length_out _ _ .encrypt _
    exact hne m (append_inj hsame ((hbody p.unbound).trans (hbody p).symm)).2
  · refine not_lt.mp fun hshort => ?_
    obtain ⟨r, out, hdec, -⟩ := h.authentic _ hid (replicate (input.length - p.tagLen) 0) length_replicate
    rw [cipherDecryptOcb_short rfl hsz hshort] at hdec
    cases hdec

/-- **When the mode is right**, as far as the associated data has a length of 32 bits; for longer
data the other three conditions and this one are enough. -/
theorem ocbRight_iff (sz : Nat) (p : OcbParams) (m input : List UInt8) (hsz : sz = 4 ∨ sz = 8) :
    OcbRight sz p m input ∧ p.adata.length < 2 ^ 32 ↔ OcbHolds p m input := by
  constructor
  · intro ⟨h, hadata⟩
    exact OcbParams.holds_of_right (by omega) hadata h
  · intro h
    exact ⟨OcbParams.right_of_holds (by omega) h, h.adata⟩

/-- A tag of 16 bytes, a nonce of 12 and no associated data. -/
def shortNonceParams : OcbParams where
  tagLen := 16
  nonce := List.replicate 12 0
  adata := []
  tagLen_pos := Nat.two_pow_pos 4
  tagLen_le := by decide
  nonce_pos := by decide
  nonce_le := by decide

theorem ocbRight_iff_short : OcbRight 4 shortNonceParams [1, 2, 3] (List.replicate 20 0) ∧
    shortNonceParams.adata.length < 2 ^ 32 ↔ OcbHolds shortNonceParams [1, 2, 3] (List.replicate 20 0) :=
  ocbRight_iff 4 shortNonceParams _ _ (.inl rfl)

/-- **A tag of 8 bytes with a nonce of 15 is not the standard's.** -/
theorem not_ocbRight : ¬ ∀ sz p m input, sz = 4 ∨ sz = 8 → OcbRight sz p m input := by
  intro h
  have hright := h 4 ⟨8, List.replicate 15 0, [], by decide, by decide, by decide, by decide⟩ [] [] (.inl rfl)
  have hholds := OcbParams.holds_of_right (by decide) (by decide) hright
  exact absurd (hholds.bound rfl) (by decide)

end Riot.Crypto
