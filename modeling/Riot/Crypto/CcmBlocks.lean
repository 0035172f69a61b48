import Riot.Crypto.Ccm

/-!
# The blocks of the counter mode with CBC-MAC

Each helper builds what RFC 3610 names: the loops the chain of blocks and the key stream, as long
as an offset of 32 bits can count the bytes, the others the counter blocks and `B_0`. There the
length of the associated data is an eight-bit number, and with it the flag that it is there.
-/

namespace Riot.Crypto

open Riot.Lib List UInt8 Block

variable {c : Cipher} {input output post : List UInt8} {n length : Nat} {mac x : Block16} {p : CcmParams}

/-! ## The loops -/

theorem xorInto_take (h : n = min 16 input.length) : xorInto mac (input.take n) = mac.xor (.ofList 16 input) := by
  ext i hi
  rw [getElem_xor, getElem_ofList, xorInto, Vector.getElem_ofFn]
  by_cases hlt : i < input.length
  · have hlt' : i < (input.take n).length := by
      rw [length_take]
      omega
    rw [dif_pos hlt', getElem_take, getElem?_eq_getElem hlt]
    rfl
  · have hge : ¬ i < (input.take n).length := by
      rw [length_take]
      omega
    rw [dif_neg hge, getElem?_eq_none (by omega), Option.getD_none, UInt8.xor_zero]
    rfl

/-- **The blocks are chained**, if there are not too many bytes for the offset. -/
theorem cbcMacLoop_eq (hc : c.blockSize = 16) (hlen : input.length < 2 ^ 32) :
    ∀ {fuel offset : Nat} {mac : Block16}, offset < input.length → input.length - offset ≤ fuel →
    cbcMacLoop c input input.length fuel offset mac =
      .ok (input.length, chain c.encrypt mac (blocks 16 (input.drop offset))) := by
  intro fuel
  induction fuel with
  | zero =>
    intro offset mac hlt hfuel
    omega
  | succ fuel ih =>
    intro offset mac hlt hfuel
    have hn : (if input.length - offset > c.blockSize then c.blockSize else input.length - offset) =
        min 16 (input.drop offset).length := by
      rw [hc, length_drop]
      split <;> omega
    have hread : read input offset (min 16 (input.drop offset).length) =
        .ok ((input.drop offset).take (min 16 (input.drop offset).length)) := by
      unfold read
      rw [if_pos (by rw [length_drop]; omega)]
    have hne : input.drop offset ≠ [] := by
      intro h0
      have := congrArg length h0
      rw [length_drop, length_nil] at this
      omega
    rw [cbcMacLoop, hn, hread, Except.bind, xorInto_take rfl, blocks_of_ne (by decide) hne, drop_drop]
    rw [length_drop, Nat.mod_eq_of_lt (show offset + min 16 (input.length - offset) < 2 ^ 32 by omega)]
    by_cases hgo : offset + min 16 (input.length - offset) < input.length
    · have h16 : min 16 (input.length - offset) = 16 := by omega
      rw [h16] at hgo ⊢
      rw [if_pos hgo, ih hgo (by omega)]
      rfl
    · have hend : offset + min 16 (input.length - offset) = input.length := by omega
      have hnil : input.drop (offset + 16) = [] := drop_eq_nil_of_le (by omega)
      rw [if_neg hgo, hend, hnil, blocks_nil (by decide)]
      rfl

theorem cbcMacLoop_endless (hc : c.blockSize = 16) (hlen : 2 ^ 32 ≤ input.length) :
    ∀ {fuel offset : Nat} {mac : Block16}, offset < 2 ^ 32 →
    cbcMacLoop c input input.length fuel offset mac = .error .endless := by
  intro fuel
  induction fuel with
  | zero => exact fun _ => rfl
  | succ fuel ih =>
    intro offset mac hlt
    have hmod := Nat.mod_lt (offset + (if input.length - offset > 16 then 16 else input.length - offset))
      (show 0 < 2 ^ 32 by decide)
    rw [cbcMacLoop, hc, read, if_pos (by split <;> omega), Except.bind]
    rw [if_pos (by omega)]
    exact ih hmod

theorem ccmComputeCbcMac_eq (hc : c.blockSize = 16) (hlen : input.length < 2 ^ 32) :
    ccmComputeCbcMac c x input input.length =
      .ok (toInt input.length, chain c.encrypt x (blocks 16 input)) := by
  unfold ccmComputeCbcMac
  by_cases h0 : input.length = 0
  · obtain rfl := length_eq_zero_iff.mp h0
    rfl
  · rw [if_neg h0, cbcMacLoop_eq hc hlen (by omega) (by omega)]
    rfl

theorem ccmComputeCbcMac_endless (hc : c.blockSize = 16) (hlen : 2 ^ 32 ≤ input.length) :
    ccmComputeCbcMac c x input input.length = .error .endless := by
  unfold ccmComputeCbcMac
  rw [if_neg (by omega), cbcMacLoop_endless hc hlen (by decide)]
  rfl

/-- **The key stream is added**: what is written behind `pre`, from the counter of the number `i` on. -/
theorem ctrLoop_eq {s : Nat → Block16} (hc : c.blockSize = 16) (hlen : length ≤ input.length) :
    ∀ {fuel i : Nat} {pre todo : List UInt8}, pre.length + todo.length = length → todo.length < fuel →
    (todo = [] → length = 0) →
    (∀ j, i ≤ j → j ≤ i + blockCount 16 todo.length → cryptoBlockIncCtr (s j) (16 - n) = s (j + 1)) →
    ctrLoop c n input length fuel pre.length (s i) (pre ++ (todo ++ post)) =
      .ok (length, s (i + max 1 (blockCount 16 todo.length)),
        pre ++ (xorBytes ((input.take length).drop pre.length)
          (keyStream (fun j => c.encrypt (s j)) i (blockCount 16 todo.length)) ++ post)) := by
  intro fuel
  induction fuel with
  | zero =>
    intro i pre todo _ hfuel
    omega
  | succ fuel ih =>
    intro i pre todo hpre hfuel hempty hinc
    have hn : (if length - pre.length > c.blockSize then c.blockSize else length - pre.length) =
        min 16 todo.length := by
      rw [hc]
      split <;> omega
    have hread : read input pre.length (min 16 todo.length) =
        .ok ((input.drop pre.length).take (min 16 todo.length)) := by
      unfold read
      rw [if_pos (by omega)]
    have hbs : ((input.drop pre.length).take (min 16 todo.length)).length = min 16 todo.length := by
      rw [length_take, length_drop]
      omega
    have hxor : (xorBytes ((input.drop pre.length).take (min 16 todo.length)) (c.encrypt (s i)).toList).length =
        min 16 todo.length := by
      rw [length_xorBytes (by rw [Vector.length_toList]; omega), hbs]
    have hwrite : write (pre ++ (todo ++ post)) pre.length
        (xorBytes ((input.drop pre.length).take (min 16 todo.length)) (c.encrypt (s i)).toList) =
        .ok (pre ++ (xorBytes ((input.drop pre.length).take (min 16 todo.length)) (c.encrypt (s i)).toList ++
          (todo.drop (min 16 todo.length) ++ post))) := by
      rw [← @write_append (todo.take (min 16 todo.length)) _ _ _ (by rw [hxor, length_take]; omega),
        ← append_assoc (take _ todo), take_append_drop]
    have hcounter : cryptoBlockIncCtr (s i) (c.blockSize - n) = s (i + 1) := by
      rw [hc, hinc i (Nat.le_refl _) (Nat.le_add_right _ _)]
    rw [ctrLoop, hn, hread, Except.bind, hwrite, Except.bind, hcounter]
    by_cases hgo : pre.length + min 16 todo.length < length
    · have h16 : min 16 todo.length = 16 := by omega
      have hpos : 0 < todo.length := by omega
      rw [h16] at hgo hxor hbs ⊢
      rw [if_pos hgo, ← append_assoc]
      have hpre' : (pre ++ xorBytes ((input.drop pre.length).take 16) (c.encrypt (s i)).toList).length =
          pre.length + 16 := by rw [length_append, hxor]
      have hcount : blockCount 16 todo.length = blockCount 16 (todo.drop 16).length + 1 := by
        rw [length_drop]
        exact blockCount_of_pos (by decide) hpos
      have htodo : (todo.drop 16).length = todo.length - 16 := length_drop
      have hmore : 0 < blockCount 16 (todo.drop 16).length := by
        rw [blockCount_of_pos (by decide) (by omega)]
        exact Nat.succ_pos _
      have hgoes := @ih (i + 1)
        (pre ++ xorBytes ((input.drop pre.length).take 16) (c.encrypt (s i)).toList) (todo.drop 16)
        (by omega) (by omega) (fun h0 => by rw [h0, length_nil] at htodo; omega)
        (fun j h1 h2 => hinc j (by omega) (by omega))
      have hlast : i + 1 + max 1 (blockCount 16 (todo.drop 16).length) =
          i + max 1 (blockCount 16 (todo.drop 16).length + 1) := by omega
      rw [hpre', hlast] at hgoes
      rw [hgoes]
      have hsplit : (input.take length).drop pre.length =
          (input.drop pre.length).take 16 ++ (input.take length).drop (pre.length + 16) := by
        have htake : (take (length - pre.length) (input.drop pre.length)).take 16 =
            (input.drop pre.length).take 16 := by rw [take_take, min_eq_left (by omega)]
        rw [← drop_drop, drop_take, ← htake, take_append_drop]
      rw [hcount, keyStream_succ, hsplit, xorBytes_append (by rw [hbs, Vector.length_toList]), append_assoc,
        append_assoc]
    · have hend : pre.length + min 16 todo.length = length := by omega
      have hle : min 16 todo.length = todo.length := by omega
      have hlast : max 1 (blockCount 16 todo.length) = 1 := by
        by_cases h0 : todo.length = 0
        · rw [h0, blockCount_zero (by decide)]
          rfl
        · rw [blockCount_of_pos (by decide) (Nat.pos_of_ne_zero h0), show todo.length - 16 = 0 by omega,
            blockCount_zero (by decide)]
          rfl
      rw [if_neg hgo, hend, hlast]
      have htake : (input.take length).drop pre.length = (input.drop pre.length).take todo.length := by
        rw [drop_take]
        congr 1
        omega
      rw [hle, drop_length, nil_append, htake]
      congr 5
      by_cases h0 : todo.length = 0
      · rw [h0, take_zero]
        rfl
      · rw [blockCount_of_pos (by decide) (Nat.pos_of_ne_zero h0),
          show todo.length - 16 = 0 by omega, blockCount_zero (by decide), keyStream_succ]
        unfold keyStream
        rw [range_zero, flatMap_nil, append_nil]

theorem cipherEncryptCtr_eq {s : Nat → Block16} {i : Nat} (hc : c.blockSize = 16) (hlen : length ≤ input.length)
    (hout : output.length = length)
    (hinc : ∀ j, i ≤ j → j ≤ i + blockCount 16 length → cryptoBlockIncCtr (s j) (16 - n) = s (j + 1)) :
    cipherEncryptCtr c (s i) n input length (output ++ post) =
      .ok (toInt length, s (i + max 1 (blockCount 16 length)),
        xorBytes (input.take length) (keyStream (fun j => c.encrypt (s j)) i (blockCount 16 length)) ++ post) := by
  have hloop := @ctrLoop_eq _ _ post _ _ _ hc hlen (length + 1) _ [] output
    (by rw [length_nil, hout, zero_add]) (by omega) (fun h0 => by rw [← hout, h0]; rfl)
    (by rw [hout]; exact hinc)
  rw [nil_append, nil_append, length_nil, drop_zero, hout] at hloop
  unfold cipherEncryptCtr
  rw [hloop]
  rfl

/-! ## Counters -/

/-- **The counter is incremented**, behind whatever is in front of it. -/
theorem incCtrLoop_eq : ∀ {k n v pos : Nat} {pre post : List UInt8}, pre.length + k = pos + 1 → pos < 16 → k ≤ n →
    v + 1 < 256 ^ k →
    incCtrLoop n pos (ofList 16 (pre ++ (toBytes k v ++ post))) =
      ofList 16 (pre ++ (toBytes k (v + 1) ++ post)) := by
  intro k
  induction k with
  | zero =>
    intro n v pos pre post _ _ _ hv
    omega
  | succ k ih =>
    intro n v pos pre post hpos h16 hn hv
    obtain ⟨n, rfl⟩ := Nat.exists_eq_succ_of_ne_zero (show n ≠ 0 by omega)
    have hblock : pre ++ (toBytes (k + 1) v ++ post) = (pre ++ toBytes k (v / 256)) ++ ofNat v :: post := by
      rw [toBytes, append_assoc, append_assoc]
      rfl
    have hlen : (pre ++ toBytes k (v / 256)).length = pos := by
      rw [length_append, length_toBytes]
      omega
    have hbyte : ((ofList 16 ((pre ++ toBytes k (v / 256)) ++ ofNat v :: post))[pos]?).getD 0 = ofNat v := by
      rw [Vector.getElem?_eq_getElem h16, getElem_ofList, getElem?_append_right (by omega), hlen,
        Nat.sub_self]
      rfl
    have hnext : ofNat v + 1 = ofNat (v + 1) := by
      rw [ofNat_add]
      rfl
    rw [hblock, incCtrLoop, hbyte, hnext]
    have hset : (ofList 16 ((pre ++ toBytes k (v / 256)) ++ ofNat v :: post)).copy pos
        [ofNat (v + 1)] = ofList 16 ((pre ++ toBytes k (v / 256)) ++ ofNat (v + 1) :: post) := by
      rw [← hlen]
      exact copy_middle
    rw [hset, append_assoc]
    have hzero : ofNat (v + 1) = 0 ↔ (v + 1) % 256 = 0 := by
      rw [← UInt8.toNat_inj, UInt8.toNat_ofNat']
      rfl
    split
    next hne =>
      have hdiv : (v + 1) / 256 = v / 256 := by
        have := mt hzero.mpr hne
        omega
      rw [toBytes, hdiv, append_assoc]
      rfl
    next h0 =>
      -- the carry
      have hmod := hzero.mp (not_not.mp h0)
      have hdiv : (v + 1) / 256 = v / 256 + 1 := by omega
      have hk : k ≠ 0 := by
        rintro rfl
        omega
      rw [ih (by omega) (by omega) (by omega) (by omega), toBytes, hdiv, append_assoc]
      rfl

/-- The block that is encrypted to `S_i`. -/
def CcmParams.counter (p : CcmParams) (i : Nat) : Block16 :=
  Block.ofList 16 (UInt8.ofNat (p.L - 1) :: (p.nonce ++ toBytes p.L i))

theorem CcmParams.inc_counter {i : Nat} (h : i + 1 < 256 ^ p.L) :
    cryptoBlockIncCtr (p.counter i) (16 - p.nonce.length) = p.counter (i + 1) := by
  have hnonce := p.length_nonce
  have h2 := p.le_eight
  have hinc := @incCtrLoop_eq _ (16 - p.nonce.length) _ 15 (ofNat (p.L - 1) :: p.nonce) []
    (by rw [length_cons]; omega) (by decide) (by omega) h
  rw [append_nil, append_nil] at hinc
  exact hinc

theorem CcmParams.firstCounter_eq : firstCounter p.L p.nonce p.nonce.length = .ok (p.counter 0) := by
  have hnonce := p.length_nonce
  have hread : read p.nonce 0 (min p.nonce.length (15 - p.L)) = .ok p.nonce := by
    rw [← hnonce, Nat.min_self, read, if_pos (le_of_eq (zero_add _)), drop_zero, take_length]
  unfold firstCounter
  rw [hread, Except.bind, copy_zero]
  generalize hfirst : ofNat (p.L - 1) = first
  rw [show 1 = [first].length from rfl, copy_ofList]
  unfold CcmParams.counter
  rw [toBytes_zero, ← cons_append, ofList_append_zeros, hfirst]
  rfl

/-! ## The first block -/

/-- `B_0`, with the flag for associated data. -/
def CcmParams.b0With (p : CcmParams) (flag len : Nat) : Block16 :=
  Block.ofList 16 (UInt8.ofNat (64 * flag + 8 * ((p.M - 2) / 2) + (p.L - 1)) :: (p.nonce ++ toBytes p.L len))

/-- The flag as the code sets it. -/
def CcmParams.flag (p : CcmParams) : Nat := if p.adata.length % 256 > 0 then 1 else 0

theorem CcmParams.ccmCreateMacIv_eq {len : Nat} :
    ccmCreateMacIv c p.adata.length p.M p.L p.nonce p.nonce.length len =
      .ok (if len < 256 ^ p.L then some (c.encrypt (p.b0With p.flag len)) else none) := by
  have hnonce := p.length_nonce
  have h2 := p.le_eight
  have hread : read p.nonce 0 (min (p.nonce.length % 256) (15 - p.L)) = .ok p.nonce := by
    rw [← hnonce, Nat.mod_eq_of_lt (by omega), Nat.min_self, read, if_pos (le_of_eq (zero_add _)),
      drop_zero, take_length]
  unfold ccmCreateMacIv
  dsimp only
  rw [hread, Except.bind, copy_zero]
  generalize hfirst : ofNat _ = first
  have hcopy : ((ofList 16 [first]).copy 1 p.nonce).copy (16 - p.L) (toBytes p.L len) =
      p.b0With p.flag len := by
    rw [show 1 = [first].length from rfl, copy_ofList,
      show 16 - p.L = ([first] ++ p.nonce).length by rw [length_append, hnonce]; simp; omega, copy_ofList,
      ← hfirst]
    rfl
  rw [hcopy]
  by_cases hlt : len < 256 ^ p.L
  · rw [if_neg (by rw [Nat.div_eq_of_lt hlt]; omega), if_pos hlt]
  · rw [if_pos (Nat.div_pos (not_lt.mp hlt) (Nat.pow_pos (by decide))), if_neg hlt]

/-! ## The associated data -/

theorem CcmParams.ccmComputeAdataMac_eq (hc : c.blockSize = 16) :
    ccmComputeAdataMac c p.adata p.adata.length x = .ok (some (chain c.encrypt x p.adataBlocks)) := by
  have hadata := p.length_adata
  unfold ccmComputeAdataMac CcmParams.adataBlocks
  by_cases h0 : p.adata = []
  · rw [h0, if_pos rfl, if_neg (by decide)]
    rfl
  have hpos := length_pos_of_ne_nil h0
  have hn : (if p.adata.length ≥ ccmBlockSize - 2 then ccmBlockSize - 2 else p.adata.length) =
      min 14 p.adata.length := by
    unfold ccmBlockSize
    split <;> omega
  have hread : read p.adata 0 (min 14 p.adata.length) = .ok (p.adata.take (min 14 p.adata.length)) := by
    unfold read
    rw [if_pos (by omega), drop_zero]
  rw [if_pos hpos, if_pos hadata, if_neg h0]
  dsimp only
  rw [hn, hread, Except.bind]
  generalize hfirst : ofNat (p.adata.length / 256) :: ofNat p.adata.length ::
    p.adata.take (min 14 p.adata.length) = first
  have hlen : first.length = min 14 p.adata.length + 2 := by
    rw [← hfirst, length_cons, length_cons, length_take]
    omega
  have hne : toBytes 2 p.adata.length ++ p.adata ≠ [] := append_ne_nil_of_right_ne_nil _ h0
  have hblock : blocks 16 first = [ofList 16 (toBytes 2 p.adata.length ++ p.adata)] := by
    rw [blocks_of_ne (by decide) (by rw [← hfirst]; exact cons_ne_nil _ _),
      drop_eq_nil_of_le (by omega), blocks_nil (by decide), ← hfirst, ← ofList_take (Nat.le_refl 16),
      ← @ofList_take _ _ (toBytes 2 p.adata.length ++ p.adata) (Nat.le_refl 16)]
    have htake : p.adata.take (min 14 p.adata.length) = p.adata.take 14 := by
      rw [← take_take, take_length]
    rw [htake]
    congr 2
    rw [take_succ_cons, take_succ_cons, take_take]
    rfl
  have hrest : blocks 16 (toBytes 2 p.adata.length ++ p.adata) =
      ofList 16 (toBytes 2 p.adata.length ++ p.adata) :: blocks 16 (p.adata.drop 14) :=
    blocks_of_ne (by decide) hne
  rw [← hlen, ccmComputeCbcMac_eq hc (by omega), Except.bind, hblock, hrest]
  rw [toInt_of_lt (by omega), if_neg (by omega)]
  by_cases hmore : min 14 p.adata.length < p.adata.length
  · have h14 : min 14 p.adata.length = 14 := by omega
    have hdrop : p.adata.length - 14 = (p.adata.drop 14).length := length_drop.symm
    rw [h14] at hmore ⊢
    rw [if_pos hmore, hdrop, ccmComputeCbcMac_eq hc (by omega), Except.bind]
    rw [toInt_of_lt (by omega), if_neg (by omega)]
    rfl
  · rw [if_neg hmore, drop_eq_nil_of_le (by omega), blocks_nil (by decide)]

end Riot.Crypto
