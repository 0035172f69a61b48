import Riot.Crypto.OcbInit

/-!
# The offset codebook mode, against RFC 7253

The loops are inductions on the number of the block. Both directions go through `run_ocb`; what one
of them writes the other turns back, and the tag is made of the plaintext in both.
-/

namespace Riot.Crypto

open Riot.Lib List Nat OcbParams Block

variable {c : Cipher} {input output pre post nonce m : List UInt8} {sz n i : Nat} {p : OcbParams}
  {enc : Block16 → Block16}

/-! ## The hash -/

theorem read_block (h : 16 * i + 16 ≤ input.length) :
    ∃ bs, read input (16 * i) 16 = .ok bs ∧ ofList 16 bs = ocbBlock input (i + 1) := by
  refine ⟨(input.drop (16 * i)).take 16, ?_, ?_⟩
  · unfold read
    rw [if_pos h]
  · rw [ofList_take (le_refl 16)]
    rfl

theorem padded_eq : ((zero 16).copy 0 pre).copy pre.length [0x80] = ocbPadded pre := by
  have hone : bits [0x80] = [true] ++ replicate 7 false := rfl
  rw [copy_zero, copy_ofList, ofList_eq_ofBits, bits_append, hone, ← append_assoc, ofBits_append_false]
  rfl

theorem hashLoop_eq : ∀ {n i : Nat}, 16 * (i + n) ≤ input.length →
    hashLoop sz c (ocbL c.encrypt 0) input n i (ocbOffset c.encrypt (zero 16) i)
      (ocbSum (fun i => c.encrypt ((ocbBlock input i).xor (ocbOffset c.encrypt (zero 16) i))) i) =
    .ok (ocbOffset c.encrypt (zero 16) (i + n),
      ocbSum (fun i => c.encrypt ((ocbBlock input i).xor (ocbOffset c.encrypt (zero 16) i))) (i + n)) := by
  intro n
  induction n with
  | zero => exact fun _ => rfl
  | succ n ih =>
    intro i hle
    obtain ⟨bs, hread, hblock⟩ := @read_block input i (by omega)
    have hoffset : (ocbOffset c.encrypt (zero 16) i).xor (calculateLI (ocbL c.encrypt 0) (ntz sz (i + 1))) =
        ocbOffset c.encrypt (zero 16) (i + 1) := by
      rw [ntz_succ, calculateLI_ocbL]
      rfl
    rw [hashLoop, hread, Except.bind, hblock, hoffset, show i + (n + 1) = i + 1 + n by omega]
    exact ih (by omega)

/-- **The associated data is hashed** as the standard says. -/
theorem hash_eq {state : OcbState} (hz : state.lZero = ocbL c.encrypt 0) (hs : state.lStar = ocbLStar c.encrypt) :
    hash sz c state input input.length = .ok (ocbHash c.encrypt input) := by
  have hm : (input.length - input.length % 16) / 16 = input.length / 16 := by omega
  have hloop := @hashLoop_eq c input sz (input.length / 16) 0 (by omega)
  rw [zero_add] at hloop
  unfold hash
  dsimp only
  rw [hm, hz]
  rw [show (hashLoop sz c (ocbL c.encrypt 0) input (input.length / 16) 0 (zero 16) (zero 16)) = _ from hloop,
    Except.bind]
  have hrest : (ocbRest input).length = input.length - input.length / 16 * 16 := by
    rw [ocbRest, length_drop, mul_comm]
  unfold ocbHash
  by_cases h0 : ocbRest input = []
  · have hzero : input.length - input.length / 16 * 16 = 0 := by rw [← hrest, h0]; rfl
    rw [if_pos h0, if_neg (by omega)]
  · have hpos := length_pos_of_ne_nil h0
    have hread : read input (16 * (input.length / 16)) (input.length - input.length / 16 * 16) = .ok (ocbRest input) := by
      unfold read
      rw [if_pos (by omega), ← hrest, ocbRest, take_length]
    rw [if_neg h0, if_pos (by omega), hread, Except.bind, ← hrest, padded_eq, hs]

/-! ## The blocks -/

/-- What a direction does to a block between two offsets. -/
def OcbMode.apply (mode : OcbMode) (c : Cipher) : Block16 → Block16 :=
  match mode with
  | .encrypt => c.encrypt
  | .decrypt => c.decrypt

/-- The block of a number that is written. -/
def OcbParams.outBlock (p : OcbParams) (mode : OcbMode) (c : Cipher) (s : List UInt8) (i : Nat) : Block16 :=
  (p.offset c.encrypt i).xor (mode.apply c ((ocbBlock s i).xor (p.offset c.encrypt i)))

/-- What is written: the full blocks, and what is left of the partial one. -/
def OcbParams.out (p : OcbParams) (mode : OcbMode) (c : Cipher) (s : List UInt8) : List UInt8 :=
  keyStream (p.outBlock mode c s) 1 (s.length / 16) ++
    xorBytes (ocbRest s) (c.encrypt ((p.offset c.encrypt (s.length / 16)).xor (ocbLStar c.encrypt))).toList

/-- The plaintext, which the checksum is of. -/
def OcbMode.plain (mode : OcbMode) {α : Type} (input output : α) : α :=
  match mode with
  | .encrypt => input
  | .decrypt => output

/-- The state at a block. -/
def OcbParams.stateAt (p : OcbParams) (mode : OcbMode) (c : Cipher) (s : List UInt8) (i : Nat) : OcbState where
  lStar := ocbLStar c.encrypt
  lZero := ocbL c.encrypt 0
  lDollar := ocbLDollar c.encrypt
  checksum := ocbSum (fun i => mode.plain (ocbBlock s i) (p.outBlock mode c s i)) i
  offset := p.offset c.encrypt i

variable {mode : OcbMode} {len : Nat}

theorem OcbParams.processBlock_eq {t : List UInt8} : processBlock sz c (p.stateAt mode c t i) i (ocbBlock t (i + 1)) mode =
    (p.stateAt mode c t (i + 1), p.outBlock mode c t (i + 1)) := by
  have hoffset : (p.offset c.encrypt i).xor (calculateLI (ocbL c.encrypt 0) (ntz sz (i + 1))) =
      p.offset c.encrypt (i + 1) := by
    rw [ntz_succ, calculateLI_ocbL]
    rfl
  unfold processBlock stateAt
  rw [hoffset]
  cases mode with
  | encrypt => rfl
  | decrypt => rfl

/-- **The full blocks are processed**, and written behind `pre`. -/
theorem OcbParams.blocksLoop_eq (hlen : len ≤ input.length) : ∀ {n i : Nat} {pre todo : List UInt8},
    16 * (i + n) ≤ len → pre.length = 16 * i → todo.length = 16 * n →
    blocksLoop sz c mode input n i (p.stateAt mode c (input.take len) i) (pre ++ (todo ++ post)) =
      .ok (p.stateAt mode c (input.take len) (i + n),
        pre ++ (keyStream (p.outBlock mode c (input.take len)) (i + 1) n ++ post)) := by
  intro n
  induction n with
  | zero =>
    intro i pre todo _ _ htodo
    obtain rfl := length_eq_zero_iff.mp htodo
    rfl
  | succ n ih =>
    intro i pre todo hle hpre htodo
    have hread : read input (16 * i) 16 = .ok ((input.drop (16 * i)).take 16) := by
      unfold read
      rw [if_pos (by omega)]
    have hblock : ofList 16 ((input.drop (16 * i)).take 16) = ocbBlock (input.take len) (i + 1) := by
      have htake : (input.drop (16 * i)).take 16 = ((input.take len).drop (16 * i)).take 16 := by
        rw [drop_take, take_take, min_eq_left (by omega)]
      rw [htake, ofList_take (le_refl 16)]
      rfl
    have hwrite : write (pre ++ (todo ++ post)) (16 * i) (p.outBlock mode c (input.take len) (i + 1)).toList =
        .ok (pre ++ ((p.outBlock mode c (input.take len) (i + 1)).toList ++ (todo.drop 16 ++ post))) := by
      rw [← hpre, ← @write_append (todo.take 16) _ _ _ (by rw [length_take, Vector.length_toList]; omega),
        ← append_assoc (take _ todo), take_append_drop]
    rw [blocksLoop, hread, Except.bind, hblock, processBlock_eq]
    dsimp only
    rw [hwrite, Except.bind, ← append_assoc, ih (by omega)
      (by rw [length_append, Vector.length_toList]; omega) (by rw [length_drop]; omega), keyStream_succ,
      show i + (n + 1) = i + 1 + n by omega, append_assoc, append_assoc]

theorem length_ocbRest : (ocbRest input).length = input.length % 16 := by
  rw [ocbRest, length_drop]
  omega

/-- The tag of a plaintext, from its blocks and its rest. -/
def OcbParams.tagOf (p : OcbParams) (c : Cipher) (offset checksum : Block16) (rest : List UInt8) : Block16 :=
  let data := if rest = [] then checksum.xor offset
    else (checksum.xor (ocbPadded rest)).xor (offset.xor (ocbLStar c.encrypt))
  (c.encrypt (data.xor (ocbLDollar c.encrypt))).xor (ocbHash c.encrypt p.adata)

theorem OcbMode.plain_xorBytes {rest pad : List UInt8} (hlen : rest.length ≤ pad.length) :
    (mode.plain rest (xorBytes rest pad)).length = rest.length := by
  cases mode with
  | encrypt => rfl
  | decrypt => exact length_xorBytes hlen

/-- The partial block, if there is one: what is written, and what the tag is made of. -/
theorem finalBlock_eq {state : OcbState} {rest todo : List UInt8} (hrest : rest.length < 16)
    (hread : read input pre.length rest.length = .ok rest) (htodo : todo.length = rest.length)
    (hs : state.lStar = ocbLStar c.encrypt) :
    ∃ state', finalBlock c mode input pre.length rest.length state (pre ++ (todo ++ post)) =
      .ok (state', pre ++ (xorBytes rest (c.encrypt (state.offset.xor (ocbLStar c.encrypt))).toList ++ post)) ∧
      state'.lZero = state.lZero ∧ state'.lStar = state.lStar ∧ state'.lDollar = state.lDollar ∧
      state'.checksum.xor state'.offset =
        if mode.plain rest (xorBytes rest (c.encrypt (state.offset.xor (ocbLStar c.encrypt))).toList) = [] then
          state.checksum.xor state.offset
        else (state.checksum.xor (ocbPadded (mode.plain rest
          (xorBytes rest (c.encrypt (state.offset.xor (ocbLStar c.encrypt))).toList)))).xor
            (state.offset.xor (ocbLStar c.encrypt)) := by
  have hpad : rest.length ≤ (c.encrypt (state.offset.xor (ocbLStar c.encrypt))).toList.length := by
    rw [Vector.length_toList]
    omega
  have hplain := @OcbMode.plain_xorBytes mode _ _ hpad
  unfold finalBlock
  by_cases h0 : rest = []
  · subst h0
    obtain rfl := length_eq_zero_iff.mp htodo
    have hnil := length_eq_zero_iff.mp hplain
    rw [if_neg (show ¬ ([] : List UInt8).length > 0 from lt_irrefl 0), if_pos hnil]
    exact ⟨state, rfl, rfl, rfl, rfl, rfl⟩
  · have hpos := length_pos_of_ne_nil h0
    have hne : mode.plain rest (xorBytes rest (c.encrypt (state.offset.xor (ocbLStar c.encrypt))).toList) ≠ [] := by
      refine ne_nil_of_length_pos ?_
      rw [hplain]
      exact hpos
    rw [if_pos hpos, hs]
    dsimp only
    rw [hread, Except.bind, xorBytes_take, write_append (by rw [htodo, length_xorBytes hpad]), Except.bind, if_neg hne]
    refine ⟨_, rfl, rfl, rfl, rfl, ?_⟩
    rw [← padded_eq, hplain]
    cases mode with
    | encrypt => rfl
    | decrypt => rfl

theorem keyStream_ocbBlock : keyStream (ocbBlock m) 1 (m.length / 16) = m.take (16 * (m.length / 16)) := by
  have h : ∀ n i, 16 * (i + n) ≤ m.length → keyStream (ocbBlock m) (i + 1) n = (m.drop (16 * i)).take (16 * n) := by
    intro n
    induction n with
    | zero => exact fun _ _ => rfl
    | succ n ih =>
      intro i hle
      have hblock : (ocbBlock m (i + 1)).toList = (m.drop (16 * i)).take 16 := by
        unfold ocbBlock
        rw [Nat.add_sub_cancel, ← ofList_take (Nat.le_refl 16), toList_ofList]
        rw [length_take, length_drop]
        omega
      rw [keyStream_succ, hblock, ih (i + 1) (by omega), mul_succ 16 n, add_comm (16 * n), take_add,
        drop_drop, mul_succ]
  have := h (m.length / 16) 0 (by omega)
  rwa [mul_zero, drop_zero] at this

/-- **`run_ocb`**, in either direction, on the first bytes of the input. -/
theorem OcbParams.runOcb_eq (hbound : p.Bound) (hadata : p.adata.length < 2 ^ 32) (hc : c.blockSize = 16)
    (hlen : len ≤ input.length) (hout : output.length = len) :
    runOcb sz c p.adata (p.adata.length % 2 ^ 32) p.tagLen p.nonce input len (output ++ post) mode =
      .ok (toInt len, p.tagOf c (p.offset c.encrypt (len / 16))
        (ocbSum (fun i => mode.plain (ocbBlock (input.take len) i) (p.outBlock mode c (input.take len) i)) (len / 16))
        (mode.plain (ocbRest (input.take len)) (xorBytes (ocbRest (input.take len))
            (c.encrypt ((p.offset c.encrypt (len / 16)).xor (ocbLStar c.encrypt))).toList)),
        p.out mode c (input.take len) ++ post) := by
  have htag := p.tagLen_pos
  have htag' := p.tagLen_le
  have hnonce := p.nonce_pos
  have hnonce' := p.nonce_le
  have hm : (len - len % 16) / 16 = len / 16 := by omega
  have htake : (input.take len).length = len := by
    rw [length_take]
    omega
  have hrest : (ocbRest (input.take len)).length = len - len / 16 * 16 := by
    rw [length_ocbRest, htake]
    omega
  have hloop := @blocksLoop_eq c _ (output.drop (16 * (len / 16)) ++ post) sz p mode _ hlen (len / 16) 0
    [] (output.take (16 * (len / 16))) (by omega) rfl
    (by rw [length_take]; omega)
  rw [nil_append, nil_append, ← append_assoc, take_append_drop, zero_add] at hloop
  have hpre : (keyStream (p.outBlock mode c (input.take len)) 1 (len / 16)).length = 16 * (len / 16) := by
    rw [length_keyStream, mul_comm]
  have hread : read input (16 * (len / 16)) (ocbRest (input.take len)).length = .ok (ocbRest (input.take len)) := by
    unfold read
    rw [if_pos (by omega), ocbRest, htake, drop_take, length_take, length_drop]
    congr 2
    omega
  obtain ⟨state, hfinal, hz, hs, hd, hsum⟩ := @finalBlock_eq _ _ (keyStream (p.outBlock mode c (input.take len)) 1 (len / 16))
    post mode (p.stateAt mode c (input.take len) (len / 16)) (ocbRest (input.take len)) (output.drop (16 * (len / 16)))
    (by omega) (by rw [hpre]; exact hread) (by rw [length_drop]; omega) rfl
  rw [hpre, hrest] at hfinal
  unfold runOcb
  rw [if_neg (by rw [hc]; decide), if_neg (by omega), if_neg (by omega)]
  dsimp only
  have hstart : initOcb c p.tagLen p.nonce = p.stateAt mode c (input.take len) 0 := initOcb_eq hbound
  rw [hm, hstart, hloop, Except.bind]
  rw [hfinal, Except.bind]
  rw [mod_eq_of_lt hadata, hash_eq hz hs, Except.bind, hsum, hd]
  have hend : 16 * (len / 16) + (len - len / 16 * 16) = len := by omega
  unfold out
  rw [hend, htake, append_assoc]
  rfl

/-! ## Both directions -/

theorem OcbParams.length_out {s : List UInt8} : (p.out mode c s).length = s.length := by
  unfold out
  rw [length_append, length_keyStream, length_xorBytes, length_ocbRest]
  · omega
  · rw [length_ocbRest, Vector.length_toList]
    omega

theorem OcbParams.ocbBlock_out {s : List UInt8} (h1 : 1 ≤ i) (h2 : i ≤ s.length / 16) :
    ocbBlock (p.out mode c s) i = p.outBlock mode c s i := by
  obtain ⟨j, rfl⟩ := exists_eq_succ_of_ne_zero (ne_of_gt h1)
  obtain ⟨n, hn⟩ := exists_eq_succ_of_ne_zero (show s.length / 16 - j ≠ 0 by omega)
  unfold ocbBlock out
  rw [succ_sub_one, drop_keyStream (by omega), hn, keyStream_succ, append_assoc, ofList_append,
    succ_eq_add_one, add_comm 1 j]

theorem OcbParams.ocbRest_out {s : List UInt8} : ocbRest (p.out mode c s) =
    xorBytes (ocbRest s) (c.encrypt ((p.offset c.encrypt (s.length / 16)).xor (ocbLStar c.encrypt))).toList := by
  have hlen : (keyStream (p.outBlock mode c s) 1 (s.length / 16)).length = 16 * (s.length / 16) := by
    rw [length_keyStream, mul_comm]
  rw [ocbRest, length_out, out, ← hlen, drop_left]

/-- **One direction undoes the other.** -/
theorem OcbParams.out_out {mode' : OcbMode} {s : List UInt8} (h : ∀ b, mode'.apply c (mode.apply c b) = b) :
    p.out mode' c (p.out mode c s) = s := by
  have hblocks : keyStream (p.outBlock mode' c (p.out mode c s)) 1 (s.length / 16) =
      keyStream (ocbBlock s) 1 (s.length / 16) := by
    refine keyStream_congr fun i h1 h2 => ?_
    unfold outBlock
    rw [ocbBlock_out h1 (by omega), outBlock, xor_comm (b := mode.apply c _),
      Block.xor_xor_cancel, h, Block.xor_comm, Block.xor_xor_cancel]
  have hrest : (ocbRest s).length ≤
      (c.encrypt ((p.offset c.encrypt (s.length / 16)).xor (ocbLStar c.encrypt))).toList.length := by
    rw [length_ocbRest, Vector.length_toList]
    omega
  have hout : p.out mode' c (p.out mode c s) = keyStream (p.outBlock mode' c (p.out mode c s)) 1 (s.length / 16) ++
      xorBytes (ocbRest (p.out mode c s))
        (c.encrypt ((p.offset c.encrypt (s.length / 16)).xor (ocbLStar c.encrypt))).toList := by
    rw [out, length_out]
  rw [hout, hblocks, ocbRest_out, xorBytes_cancel hrest, keyStream_ocbBlock, ocbRest, take_append_drop]

theorem ocbSum_congr {f g : Nat → Block16} (h : ∀ i, 1 ≤ i → i ≤ n → f i = g i) : ocbSum f n = ocbSum g n := by
  induction n with
  | zero => rfl
  | succ n ih =>
    rw [ocbSum, ocbSum, ih fun i h1 h2 => h i h1 (by omega), h (n + 1) (by omega) le_rfl]

theorem OcbParams.tagOf_plain {s : List UInt8} : p.tagOf c (p.offset c.encrypt (s.length / 16))
      (ocbSum (fun i => mode.plain (ocbBlock s i) (p.outBlock mode c s i)) (s.length / 16))
      (mode.plain (ocbRest s)
        (xorBytes (ocbRest s) (c.encrypt ((p.offset c.encrypt (s.length / 16)).xor (ocbLStar c.encrypt))).toList)) =
      p.tag c.encrypt (mode.plain s (p.out mode c s)) := by
  cases mode with
  | encrypt => rfl
  | decrypt =>
    have hsum : ocbSum (fun i => p.outBlock .decrypt c s i) (s.length / 16) =
        ocbSum (ocbBlock (p.out .decrypt c s)) (s.length / 16) :=
      ocbSum_congr fun i h1 h2 => (ocbBlock_out h1 h2).symm
    unfold OcbMode.plain tag
    rw [hsum, ← ocbRest_out, length_out]
    rfl

/-- What the two sides need: the tag length is in the nonce block, lengths fit in what they are
handed on as, and an input has the length of a tag at least. -/
structure OcbHolds (p : OcbParams) (m input : List UInt8) : Prop where
  bound : p.Bound
  adata : p.adata.length < 2 ^ 32
  message : m.length + p.tagLen < 2 ^ 31
  input : p.tagLen ≤ input.length

theorem runOcb_tagLen {t t' : Nat} {adata : List UInt8} {adataLen : Nat} (ht : 0 < t ∧ t ≤ 16) (ht' : 0 < t' ∧ t' ≤ 16)
    (hinit : initOcb c t nonce = initOcb c t' nonce) :
    runOcb sz c adata adataLen t nonce input len output mode =
      runOcb sz c adata adataLen t' nonce input len output mode := by
  unfold runOcb
  rw [hinit, if_neg (show ¬ (t > 16 ∨ t = 0) by omega), if_neg (show ¬ (t' > 16 ∨ t' = 0) by omega)]

/-- **The message is encrypted** as the standard says for the parameters that the nonce block is of. -/
theorem OcbParams.cipherEncryptOcb_of {q : OcbParams} (hbound : q.Bound) (hnonce : q.nonce = p.nonce)
    (hq : q.adata = p.adata) (hinit : initOcb c p.tagLen p.nonce = initOcb c q.tagLen p.nonce)
    (hadata : p.adata.length < 2 ^ 32) (hc : c.blockSize = 16) (hm : m.length + p.tagLen < 2 ^ 31)
    (hout : output.length = m.length + p.tagLen) :
    cipherEncryptOcb sz c p.adata p.tagLen p.nonce m output =
      .ok (↑(m.length + p.tagLen), q.body c.encrypt m ++ (q.tag c.encrypt m).toList.take p.tagLen) := by
  have hle := p.tagLen_le
  have hrun := @runOcb_eq _ _ (output.take m.length) (output.drop m.length) sz q .encrypt _
    hbound (by rw [hq]; exact hadata) hc (le_refl m.length)
    (by rw [length_take]; omega)
  rw [take_append_drop, take_length, tagOf_plain, hnonce, hq] at hrun
  have htag : ((q.tag c.encrypt m).toList.take p.tagLen).length = p.tagLen := by
    rw [length_take, Vector.length_toList]
    omega
  have hwrite : write (q.out .encrypt c m ++ output.drop m.length) m.length ((q.tag c.encrypt m).toList.take p.tagLen) =
      .ok (q.body c.encrypt m ++ (q.tag c.encrypt m).toList.take p.tagLen) := by
    have hdrop : (output.drop m.length).length = p.tagLen := by
      rw [length_drop]
      omega
    have := @write_append _ _ (q.out .encrypt c m) [] (hdrop.trans htag.symm)
    rw [append_nil, append_nil, length_out] at this
    exact this
  have htag_eq : q.tag c.encrypt (OcbMode.encrypt.plain m (q.out .encrypt c m)) = q.tag c.encrypt m := rfl
  unfold cipherEncryptOcb
  rw [if_neg (by omega), runOcb_tagLen ⟨p.tagLen_pos, p.tagLen_le⟩ ⟨q.tagLen_pos, q.tagLen_le⟩ hinit, hrun, Except.bind]
  dsimp only
  rw [toInt_of_lt (by omega), if_neg (by omega), Int.toNat_natCast, htag_eq, hwrite, Except.bind, Int.natCast_add]

theorem OcbParams.cipherEncryptOcb_eq (hbound : p.Bound) (hadata : p.adata.length < 2 ^ 32) (hc : c.blockSize = 16)
    (hm : m.length + p.tagLen < 2 ^ 31) (hout : output.length = m.length + p.tagLen) :
    cipherEncryptOcb sz c p.adata p.tagLen p.nonce m output =
      .ok (↑(m.length + p.tagLen), p.encrypt c.encrypt m) :=
  cipherEncryptOcb_of hbound rfl rfl rfl hadata hc hm hout

variable {plain : List UInt8}

/-- The plaintext of an input, whether or not the tag is right. -/
def OcbParams.plainOf (p : OcbParams) (c : Cipher) (input : List UInt8) : List UInt8 :=
  p.out .decrypt c (input.take (input.length - p.tagLen))

theorem OcbParams.length_plainOf : (p.plainOf c input).length = input.length - p.tagLen := by
  unfold plainOf
  rw [length_out, length_take]
  omega

theorem OcbParams.length_encrypt : (p.encrypt enc m).length = m.length + p.tagLen := by
  have hle := p.tagLen_le
  have hbody : (p.body enc m).length = m.length := @length_out ⟨16, enc, enc⟩ _ .encrypt _
  rw [encrypt, length_append, hbody, length_take, Vector.length_toList, min_eq_left hle]

theorem OcbParams.accepted_iff (hc : c.Invertible) :
    (p.tag c.encrypt (p.plainOf c input)).toList.take p.tagLen = input.drop (input.length - p.tagLen) ↔
      input = p.encrypt c.encrypt (p.plainOf c input) := by
  have hbody : p.body c.encrypt (p.plainOf c input) = input.take (input.length - p.tagLen) :=
    @out_out _ _ .decrypt .encrypt _ hc.encrypt_decrypt
  unfold encrypt
  rw [hbody]
  constructor
  · intro h
    rw [h, take_append_drop]
  · intro h
    exact ((append_inj ((take_append_drop (input.length - p.tagLen) input).trans h) rfl).2).symm

theorem OcbParams.plainOf_encrypt (hc : c.Invertible) : p.plainOf c (p.encrypt c.encrypt m) = m := by
  have hbody : (p.body c.encrypt m).length = m.length := @length_out _ _ .encrypt _
  unfold plainOf
  rw [length_encrypt, Nat.add_sub_cancel, encrypt, take_left' hbody]
  exact @out_out _ _ .encrypt .decrypt _ hc.decrypt_encrypt

theorem OcbParams.plainLen_eq (hsz : 4 ≤ sz) (hlong : p.tagLen ≤ input.length)
    (hlt : input.length - p.tagLen < 2 ^ 31) :
    (input.length + 2 ^ (8 * sz) - p.tagLen) % 2 ^ (8 * sz) = input.length - p.tagLen := by
  have hbig : 2 ^ 32 ≤ 2 ^ (8 * sz) := Nat.pow_le_pow_right (by decide) (by omega)
  rw [show input.length + 2 ^ (8 * sz) - p.tagLen = input.length - p.tagLen + 2 ^ (8 * sz) by omega, add_mod_right,
    mod_eq_of_lt (by omega)]

/-- **The tag decides**; what is not accepted is wiped. -/
theorem OcbParams.cipherDecryptOcb_eq (hbound : p.Bound) (hadata : p.adata.length < 2 ^ 32) (hc : c.Invertible)
    (hsz : 4 ≤ sz) (hlong : p.tagLen ≤ input.length) (hlt : input.length - p.tagLen < 2 ^ 31)
    (hplain : plain.length = input.length - p.tagLen) :
    cipherDecryptOcb sz c p.adata p.tagLen p.nonce input plain =
      if input = p.encrypt c.encrypt (p.plainOf c input) then .ok (↑(input.length - p.tagLen), p.plainOf c input)
      else .ok (ocbErrInvalidTag, replicate plain.length 0) := by
  have hrun := @runOcb_eq _ input plain [] sz _ .decrypt _
    hbound hadata hc.blockSize (show input.length - p.tagLen ≤ input.length by omega) hplain
  have htake : (input.take (input.length - p.tagLen)).length = input.length - p.tagLen := by
    rw [length_take]
    omega
  have htag := @tagOf_plain c p .decrypt (input.take (input.length - p.tagLen))
  rw [htake] at htag
  rw [append_nil, append_nil, htag] at hrun
  have hread : read input (input.length - p.tagLen) p.tagLen = .ok (input.drop (input.length - p.tagLen)) := by
    unfold read
    rw [if_pos (by omega), take_of_length_le (by rw [length_drop]; omega)]
  have hwrite : write (p.plainOf c input) 0 (replicate (input.length - p.tagLen) 0) =
      .ok (replicate (input.length - p.tagLen) 0) := by
    have hlen : (p.plainOf c input).length = (replicate (input.length - p.tagLen) (0 : UInt8)).length := by
      rw [length_plainOf, length_replicate]
    have := @write_append _ _ [] [] hlen
    rwa [append_nil, append_nil, nil_append, nil_append] at this
  unfold cipherDecryptOcb
  rw [if_neg (by omega)]
  dsimp only
  rw [plainLen_eq hsz hlong hlt, hrun, Except.bind]
  rw [toInt_of_lt hlt, if_neg (by omega), hread, Except.bind]
  rw [show OcbMode.decrypt.plain (input.take (input.length - p.tagLen)) (p.out .decrypt c
    (input.take (input.length - p.tagLen))) = p.plainOf c input from rfl, ← plainOf, hwrite, hplain]
  by_cases hacc : input = p.encrypt c.encrypt (p.plainOf c input)
  · rw [if_pos hacc, if_pos ((accepted_iff hc).mpr hacc)]
  · rw [if_neg hacc, if_neg (fun h => hacc ((accepted_iff hc).mp h))]
    rfl

theorem OcbParams.cipherDecryptOcb_short (hc : c.blockSize = 16) (hsz : 4 ≤ sz) (hshort : input.length < p.tagLen) :
    cipherDecryptOcb sz c p.adata p.tagLen p.nonce input plain = .error .outOfBounds := by
  have htag := p.tagLen_le
  have hnonce := p.nonce_pos
  have hnonce' := p.nonce_le
  have hbig : 2 ^ 32 ≤ 2 ^ (8 * sz) := Nat.pow_le_pow_right (by decide) (by omega)
  have hlen : 16 ≤ (input.length + 2 ^ (8 * sz) - p.tagLen) % 2 ^ (8 * sz) := by
    rw [mod_eq_of_lt (by omega)]
    omega
  unfold cipherDecryptOcb
  rw [if_neg (by omega)]
  dsimp only
  generalize (input.length + 2 ^ (8 * sz) - p.tagLen) % 2 ^ (8 * sz) = len at *
  obtain ⟨n, hn⟩ := exists_eq_succ_of_ne_zero (show (len - len % 16) / 16 ≠ 0 by omega)
  unfold runOcb
  rw [if_neg (by rw [hc]; decide), if_neg (by omega), if_neg (by omega)]
  dsimp only
  rw [hn, blocksLoop, read_of_lt (by omega)]
  rfl

theorem OcbParams.right_of_holds (hsz : 4 ≤ sz) (h : OcbHolds p m input) : OcbRight sz p m input := by
  have hlong := h.input
  have hmsg := h.message
  refine ⟨fun c hc output hout => ?_, fun c hc plain hplain => ?_, fun c hc plain hplain => ?_⟩
  · exact cipherEncryptOcb_eq h.bound h.adata hc.blockSize hmsg hout
  · have hlen := @length_encrypt m p c.encrypt
    have hback := plainOf_encrypt (p := p) (m := m) hc
    rw [cipherDecryptOcb_eq h.bound h.adata hc hsz (by omega) (by omega) (by omega), hback, if_pos rfl, hlen,
      Nat.add_sub_cancel]
  · by_cases hlt : input.length - p.tagLen < 2 ^ 31
    · rw [cipherDecryptOcb_eq h.bound h.adata hc hsz hlong hlt hplain]
      split
      next hacc => exact ⟨_, _, rfl, .inr ⟨by rw [length_plainOf], hacc⟩⟩
      next => exact ⟨_, _, rfl, .inl ⟨by decide, .inr rfl⟩⟩
    · refine ⟨ocbErrInvalidDataLength, plain, ?_, .inl ⟨by decide, .inl rfl⟩⟩
      unfold cipherDecryptOcb
      rw [if_pos (by omega)]

end Riot.Crypto
