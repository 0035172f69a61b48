import Riot.Crypto.CcmBlocks

/-!
# The counter mode with CBC-MAC, against RFC 3610

Both sides put the blocks together in the same way, so that what is encrypted is decrypted, and
what is accepted is an encryption; the two take the length limit of different numbers.
-/

namespace Riot.Crypto

open Riot.Lib List CcmParams Block

variable {c : Cipher} {input output post m : List UInt8} {sz k v length : Nat} {x : Block16} {p : CcmParams}

/-! ## Encryption -/

theorem fitsInNbytes_iff (hsz : 0 < sz) (hk : 0 < k) : fitsInNbytes sz v k = true ↔ v < 256 ^ min sz k := by
  have hpow : 256 ^ min sz k = 2 * 2 ^ (8 * min sz k - 1) := by
    rw [← Nat.pow_succ', show (8 * min sz k - 1).succ = 8 * min sz k by omega, Nat.pow_mul]
  unfold fitsInNbytes
  rw [decide_eq_true_iff, Nat.shiftRight_eq_div_pow, hpow, ← Nat.div_lt_iff_lt_mul (Nat.pow_pos (by decide))]
  exact Nat.lt_succ_iff.symm

/-- The tag, with a flag for associated data. -/
def CcmParams.tagWith (p : CcmParams) (flag : Nat) (enc : Block16 → Block16) (m : List UInt8) : List UInt8 :=
  (chain enc (enc (p.b0With flag m.length)) (p.adataBlocks ++ blocks 16 m)).toList.take p.M

/-- The key stream for a message of `len` bytes. -/
def CcmParams.keys (p : CcmParams) (enc : Block16 → Block16) (len : Nat) : List UInt8 :=
  keyStream (p.stream enc) 1 (blockCount 16 len)

def CcmParams.encryptWith (p : CcmParams) (flag : Nat) (enc : Block16 → Block16) (m : List UInt8) : List UInt8 :=
  xorBytes m (p.keys enc m.length) ++ xorBytes (p.tagWith flag enc m) (p.stream enc 0).toList

variable {enc : Block16 → Block16} {len : Nat}

theorem CcmParams.encrypt_eq : p.encrypt enc m = p.encryptWith (if p.adata = [] then 0 else 1) enc m := rfl

theorem CcmParams.length_keys : len ≤ (p.keys enc len).length := by
  unfold keys
  rw [length_keyStream]
  unfold blockCount
  omega

theorem CcmParams.length_tagWith {flag : Nat} : (p.tagWith flag enc m).length = p.M := by
  have := p.le_sixteen
  unfold tagWith
  rw [length_take, Vector.length_toList]
  omega

theorem CcmParams.length_encrypt {enc : Block16 → Block16} : (p.encrypt enc m).length = m.length + p.M := by
  have := p.le_sixteen
  rw [encrypt_eq, encryptWith, length_append, length_xorBytes length_keys,
    length_xorBytes (by rw [length_tagWith, Vector.length_toList]; exact this), length_tagWith]

theorem CcmParams.blockCount_lt (h : len < 256 ^ p.L) : 1 + blockCount 16 len + 1 < 256 ^ p.L := by
  have hpow : 256 ^ 2 ≤ 256 ^ p.L := Nat.pow_le_pow_right (by decide) p.two_le
  unfold blockCount
  omega

theorem CcmParams.streamBlock_eq (hc : c.blockSize = 16) :
    cipherEncryptCtr c (p.counter 0) c.blockSize (zero 16).toList c.blockSize (zero 16).toList =
      .ok (16, p.counter 0, (p.stream c.encrypt 0).toList) := by
  have hctr := @cipherEncryptCtr_eq c ((zero 16).toList) ((zero 16).toList) [] 16 16 (fun _ => p.counter 0) 0 hc
    (le_of_eq (by rw [Vector.length_toList])) (by rw [Vector.length_toList]) (fun _ _ _ => rfl)
  rw [append_nil, append_nil] at hctr
  have hzero : xorBytes ((zero 16).toList.take 16) (keyStream (fun _ => c.encrypt (p.counter 0)) 0
      (blockCount 16 16)) = (p.stream c.encrypt 0).toList := by
    rw [show blockCount 16 16 = 0 + 1 from rfl, keyStream_succ, keyStream, range_zero, flatMap_nil,
      append_nil, take_of_length_le (le_of_eq Vector.length_toList),
      xorBytes_zero (le_of_eq Vector.length_toList)]
    rfl
  rw [hc]
  exact hctr.trans (by rw [hzero]; rfl)

/-- The message in counter mode; as long as its length fits in `L` bytes, the counter does not run over. -/
theorem CcmParams.body_eq (hc : c.blockSize = 16) (hlen : length ≤ input.length) (hout : output.length = length)
    (hfits : length < 256 ^ p.L) :
    ∃ counter, cipherEncryptCtr c (cryptoBlockIncCtr (p.counter 0) (c.blockSize - p.nonce.length)) p.nonce.length
      input length (output ++ post) =
        .ok (toInt length, counter, xorBytes (input.take length) (p.keys c.encrypt length) ++ post) := by
  have hmax := blockCount_lt hfits
  rw [hc, inc_counter (by omega)]
  exact ⟨_, cipherEncryptCtr_eq hc hlen hout fun j _ hj => inc_counter (by omega)⟩

/-- **The message is encrypted** as RFC 3610 says, but for the flag. -/
theorem CcmParams.cipherEncryptCcm_eq (hsz : 4 ≤ sz) (hm : p.Message m) (hc : c.blockSize = 16)
    (hout : output.length = m.length + p.M) :
    cipherEncryptCcm sz c p.adata p.M p.L p.nonce m output =
      .ok (↑(m.length + p.M), p.encryptWith p.flag c.encrypt m) := by
  obtain ⟨hfits, hlt⟩ := hm
  have h1 := p.even
  have h2 := p.four_le
  have h3 := p.le_sixteen
  have h4 := p.two_le
  have h5 := p.le_eight
  have hfit : fitsInNbytes sz m.length p.L = true := by
    rw [fitsInNbytes_iff (by omega) (by omega)]
    rcases Nat.le_total sz p.L with hle | hle
    · rw [min_eq_left hle]
      have : 256 ^ 4 ≤ 256 ^ sz := Nat.pow_le_pow_right (by decide) hsz
      omega
    · rwa [min_eq_right hle]
  obtain ⟨counter, hbody⟩ := @body_eq _ m (output.take m.length) (output.drop m.length) _ p
    hc (Nat.le_refl _) (by rw [length_take]; omega) hfits
  rw [take_append_drop, take_length] at hbody
  have htag : (xorBytes (p.tagWith p.flag c.encrypt m) (p.stream c.encrypt 0).toList).length = p.M := by
    rw [length_xorBytes (by rw [length_tagWith, Vector.length_toList]; exact h3), length_tagWith]
  have hwrite : write (xorBytes m (p.keys c.encrypt m.length) ++ output.drop m.length) m.length
      (xorBytes (p.tagWith p.flag c.encrypt m) (p.stream c.encrypt 0).toList) =
      .ok (p.encryptWith p.flag c.encrypt m) := by
    have hlen : (xorBytes m (p.keys c.encrypt m.length)).length = m.length := length_xorBytes length_keys
    have hdrop : (output.drop m.length).length = p.M := by
      rw [length_drop]
      omega
    have := @write_append _ _ (xorBytes m (p.keys c.encrypt m.length)) [] (hdrop.trans htag.symm)
    rw [append_nil, append_nil, hlen] at this
    exact this
  unfold cipherEncryptCcm
  rw [if_neg (by omega), if_neg (by rw [hfit]; simp; omega), if_neg (by rw [hc]; decide), ccmCreateMacIv_eq,
    Except.bind, if_pos hfits]
  dsimp only
  rw [ccmComputeAdataMac_eq hc, Except.bind]
  dsimp only
  rw [ccmComputeCbcMac_eq hc (by omega), Except.bind]
  rw [toInt_of_lt (by omega), if_neg (by omega), firstCounter_eq, Except.bind, streamBlock_eq hc,
    Except.bind]
  dsimp only
  rw [if_neg (by decide), hbody, Except.bind]
  rw [toInt_of_lt (by omega), if_neg (by omega), Int.toNat_natCast, chain_append]
  have hwrite' := hwrite
  unfold tagWith at hwrite'
  rw [hwrite', Except.bind, Int.natCast_add]

/-! ## Decryption -/

/-- The plaintext of an input, whether or not the tag is right. -/
def CcmParams.plainOf (p : CcmParams) (enc : Block16 → Block16) (input : List UInt8) : List UInt8 :=
  xorBytes (input.take (input.length - p.M)) (p.keys enc (input.length - p.M))

theorem CcmParams.length_plainOf : (p.plainOf enc input).length = input.length - p.M := by
  have htake : (input.take (input.length - p.M)).length = input.length - p.M := by
    rw [length_take]
    omega
  unfold plainOf
  rw [length_xorBytes (by rw [htake]; exact length_keys), htake]

variable {plain : List UInt8}

theorem CcmParams.cipherDecryptCcm_unfit (hfit : ¬ input.length < 256 ^ min sz p.L) (hsz : 4 ≤ sz) :
    cipherDecryptCcm sz c p.adata p.M p.L p.nonce input plain = .ok (ccmErrInvalidLengthEncoding, plain) := by
  have h1 := p.even
  have h2 := p.four_le
  have h3 := p.le_sixteen
  have h4 := p.two_le
  have hfit' : fitsInNbytes sz input.length p.L = false := by
    rw [Bool.eq_false_iff]
    exact fun h => hfit ((fitsInNbytes_iff (by omega) (by omega)).mp h)
  unfold cipherDecryptCcm
  rw [if_neg (by omega), if_pos (by rw [hfit']; simp)]

theorem CcmParams.cipherDecryptCcm_begin (hfit : input.length < 256 ^ min sz p.L) (hsz : 4 ≤ sz)
    (hc : c.blockSize = 16) : cipherDecryptCcm sz c p.adata p.M p.L p.nonce input plain =
      (cipherEncryptCtr c (cryptoBlockIncCtr (p.counter 0) (c.blockSize - p.nonce.length)) p.nonce.length input
        ((input.length + 2 ^ (8 * sz) - p.M) % 2 ^ (8 * sz)) plain).bind fun (len, _, plain) =>
      if len < 0 then .ok (len, plain)
      else
        (ccmCreateMacIv c p.adata.length p.M p.L p.nonce p.nonce.length
          ((input.length + 2 ^ (8 * sz) - p.M) % 2 ^ (8 * sz))).bind fun
        | none => .ok (ccmErrInvalidDataLength, plain)
        | some macIv =>
          (ccmComputeAdataMac c p.adata p.adata.length macIv).bind fun
          | none => .ok (-1, plain)
          | some macIv =>
            (ccmComputeCbcMac c macIv plain ((input.length + 2 ^ (8 * sz) - p.M) % 2 ^ (8 * sz))).bind fun (len', mac) =>
            if len' < 0 then .ok (len', plain)
            else
              (read input len'.toNat p.M).bind fun recv =>
                if cryptoEquals (xorBytes recv (p.stream c.encrypt 0).toList) (mac.toList.take p.M) = 0 then
                  .ok (ccmErrInvalidCbcMac, plain)
                else .ok (toInt ((input.length + 2 ^ (8 * sz) - p.M) % 2 ^ (8 * sz)), plain) := by
  have h1 := p.even
  have h2 := p.four_le
  have h3 := p.le_sixteen
  have h4 := p.two_le
  have h5 := p.le_eight
  have hfit' : fitsInNbytes sz input.length p.L = true := (fitsInNbytes_iff (by omega) (by omega)).mpr hfit
  unfold cipherDecryptCcm
  rw [if_neg (by omega), if_neg (by rw [hfit']; simp; omega), if_neg (by rw [hc]; decide), firstCounter_eq,
    Except.bind, streamBlock_eq hc, Except.bind]
  exact (if_neg (by decide)).trans rfl

theorem CcmParams.cipherDecryptCcm_short (hshort : input.length < p.M) (hsz : 4 ≤ sz) (hc : c.blockSize = 16) :
    cipherDecryptCcm sz c p.adata p.M p.L p.nonce input plain = .error .outOfBounds := by
  have h3 := p.le_sixteen
  have h4 := p.two_le
  have hfit : input.length < 256 ^ min sz p.L := by
    have : 256 ^ 2 ≤ 256 ^ min sz p.L := Nat.pow_le_pow_right (by decide) (by omega)
    omega
  have hbig : 2 ^ 32 ≤ 2 ^ (8 * sz) := Nat.pow_le_pow_right (by decide) (by omega)
  have hlen : 16 < (input.length + 2 ^ (8 * sz) - p.M) % 2 ^ (8 * sz) := by
    rw [Nat.mod_eq_of_lt (by omega)]
    omega
  rw [cipherDecryptCcm_begin hfit hsz hc, cipherEncryptCtr, ctrLoop, hc]
  rw [if_pos (by omega), read_of_lt (by omega)]
  rfl

/-- **What is decrypted**, of an input that has the length of a tag at least. -/
theorem CcmParams.cipherDecryptCcm_body (hfit : input.length < 256 ^ min sz p.L) (hsz : 4 ≤ sz)
    (hc : c.blockSize = 16) (hlong : p.M ≤ input.length) (hplain : plain.length = input.length - p.M) :
    cipherDecryptCcm sz c p.adata p.M p.L p.nonce input plain =
      if toInt (input.length - p.M) < 0 then .ok (toInt (input.length - p.M), p.plainOf c.encrypt input)
      else
        (ccmComputeCbcMac c (chain c.encrypt (c.encrypt (p.b0With p.flag (input.length - p.M))) p.adataBlocks)
          (p.plainOf c.encrypt input) (p.plainOf c.encrypt input).length).bind fun (len', mac) =>
          if len' < 0 then .ok (len', p.plainOf c.encrypt input)
          else
            (read input len'.toNat p.M).bind fun recv =>
              if cryptoEquals (xorBytes recv (p.stream c.encrypt 0).toList) (mac.toList.take p.M) = 0 then
                .ok (ccmErrInvalidCbcMac, p.plainOf c.encrypt input)
              else .ok (toInt (input.length - p.M), p.plainOf c.encrypt input) := by
  have hsize : 256 ^ min sz p.L ≤ 2 ^ (8 * sz) := by
    rw [Nat.pow_mul]
    exact Nat.pow_le_pow_right (by decide) (Nat.min_le_left _ _)
  have hfitL : input.length - p.M < 256 ^ p.L := by
    have : 256 ^ min sz p.L ≤ 256 ^ p.L := Nat.pow_le_pow_right (by decide) (Nat.min_le_right _ _)
    omega
  have hlen : (input.length + 2 ^ (8 * sz) - p.M) % 2 ^ (8 * sz) = input.length - p.M := by
    rw [show input.length + 2 ^ (8 * sz) - p.M = input.length - p.M + 2 ^ (8 * sz) by omega, Nat.add_mod_right,
      Nat.mod_eq_of_lt (by omega)]
  obtain ⟨counter, hbody⟩ := @body_eq _ input _ [] _ p hc
    (show input.length - p.M ≤ input.length by omega) hplain hfitL
  rw [append_nil, append_nil] at hbody
  rw [cipherDecryptCcm_begin hfit hsz hc, hlen, hbody, Except.bind, ← plainOf]
  dsimp only
  rw [ccmCreateMacIv_eq, Except.bind, if_pos hfitL]
  dsimp only
  rw [ccmComputeAdataMac_eq hc, Except.bind]
  rw [length_plainOf]

theorem CcmParams.accepted_iff {flag : Nat} {enc : Block16 → Block16} (hlong : p.M ≤ input.length) :
    input = p.encryptWith flag enc (p.plainOf enc input) ↔
      xorBytes (input.drop (input.length - p.M)) (p.stream enc 0).toList =
        p.tagWith flag enc (p.plainOf enc input) := by
  have h3 := p.le_sixteen
  have htake : (input.take (input.length - p.M)).length = input.length - p.M := by
    rw [length_take]
    omega
  have hbody : xorBytes (p.plainOf enc input) (p.keys enc (input.length - p.M)) =
      input.take (input.length - p.M) := by
    exact xorBytes_cancel (by rw [htake]; exact length_keys)
  have hdrop : (input.drop (input.length - p.M)).length ≤ (p.stream enc 0).toList.length := by
    rw [length_drop, Vector.length_toList]
    omega
  have htag : (p.tagWith flag enc (p.plainOf enc input)).length ≤ (p.stream enc 0).toList.length := by
    rw [length_tagWith, Vector.length_toList]
    exact h3
  unfold encryptWith
  rw [length_plainOf, hbody]
  constructor
  · intro h
    have hrecv := (append_inj ((take_append_drop (input.length - p.M) input).trans h) rfl).2
    rw [hrecv, xorBytes_cancel htag]
  · intro h
    rw [← h, xorBytes_cancel hdrop, take_append_drop]

theorem CcmParams.cipherDecryptCcm_eq (hfit : input.length < 256 ^ min sz p.L) (hsz : 4 ≤ sz)
    (hc : c.blockSize = 16) (hlong : p.M ≤ input.length) (hplain : plain.length = input.length - p.M)
    (hlt : input.length - p.M < 2 ^ 31) : cipherDecryptCcm sz c p.adata p.M p.L p.nonce input plain =
      .ok (if input = p.encryptWith p.flag c.encrypt (p.plainOf c.encrypt input) then ↑(input.length - p.M) else
        ccmErrInvalidCbcMac, p.plainOf c.encrypt input) := by
  have h3 := p.le_sixteen
  have hread : read input (input.length - p.M) p.M = .ok (input.drop (input.length - p.M)) := by
    unfold read
    rw [if_pos (by omega), take_of_length_le (by rw [length_drop]; omega)]
  have hdrop : (input.drop (input.length - p.M)).length = p.M := by
    rw [length_drop]
    omega
  have hxor : (xorBytes (input.drop (input.length - p.M)) (p.stream c.encrypt 0).toList).length =
      (p.tagWith p.flag c.encrypt (p.plainOf c.encrypt input)).length := by
    rw [length_xorBytes (by rw [hdrop, Vector.length_toList]; exact h3), hdrop, length_tagWith]
  have htag : (chain c.encrypt (c.encrypt (p.b0With p.flag (input.length - p.M)))
      (p.adataBlocks ++ blocks 16 (p.plainOf c.encrypt input))).toList.take p.M =
      p.tagWith p.flag c.encrypt (p.plainOf c.encrypt input) := by
    unfold tagWith
    rw [length_plainOf]
  rw [cipherDecryptCcm_body hfit hsz hc hlong hplain, toInt_of_lt hlt, if_neg (by omega),
    ccmComputeCbcMac_eq hc (by rw [length_plainOf]; omega), Except.bind]
  dsimp only
  rw [length_plainOf, toInt_of_lt hlt, if_neg (by omega), Int.toNat_natCast, hread, Except.bind, chain_append,
    htag, cryptoEquals_eq hxor]
  have hiff := @accepted_iff _ p p.flag c.encrypt hlong
  by_cases hacc : input = p.encryptWith p.flag c.encrypt (p.plainOf c.encrypt input)
  · rw [if_pos (hiff.mp hacc), if_neg (by decide), if_pos hacc]
  · rw [if_neg (fun h => hacc (hiff.mpr h)), if_pos rfl, if_neg hacc]

theorem CcmParams.cipherDecryptCcm_endless (hfit : input.length < 256 ^ min sz p.L) (hsz : 4 ≤ sz)
    (hc : c.blockSize = 16) (hlong : p.M ≤ input.length) (hplain : plain.length = input.length - p.M)
    (hge : 2 ^ 32 ≤ input.length - p.M) (hint : ¬ 2 ^ 31 ≤ (input.length - p.M) % 2 ^ 32) :
    cipherDecryptCcm sz c p.adata p.M p.L p.nonce input plain = .error .endless := by
  rw [cipherDecryptCcm_body hfit hsz hc hlong hplain, if_neg (fun h => hint (toInt_neg_iff.mp h)),
    ccmComputeCbcMac_endless hc (by rw [length_plainOf]; exact hge)]
  rfl

/-! ## Both sides -/

/-- What the two sides need: the flag is right, the tag fits with the message, and an input whose
length is allowed has the length of a tag at least, and no plaintext that the offset runs over. -/
structure CcmHolds (sz : Nat) (p : CcmParams) (m input : List UInt8) : Prop where
  adata : p.adata ≠ [] → p.adata.length % 256 ≠ 0
  message : m.length + p.M < 256 ^ p.L
  input : input.length < 256 ^ min sz p.L →
    p.M ≤ input.length ∧ (input.length - p.M < 2 ^ 32 ∨ 2 ^ 31 ≤ (input.length - p.M) % 2 ^ 32)

theorem CcmParams.flag_eq (h : p.adata ≠ [] → p.adata.length % 256 ≠ 0) :
    p.flag = if p.adata = [] then 0 else 1 := by
  unfold flag
  by_cases h0 : p.adata = []
  · rw [if_pos h0, h0]
    rfl
  · rw [if_neg h0, if_pos (Nat.pos_of_ne_zero (h h0))]

/-- Lengths below that of what is returned fit in four bytes, and so in a `size_t`. -/
theorem CcmParams.fits_size (hsz : 4 ≤ sz) (hlt : len < 2 ^ 31) (hfits : len < 256 ^ p.L) :
    len < 256 ^ min sz p.L := by
  rcases Nat.le_total sz p.L with hle | hle
  · rw [min_eq_left hle]
    have : 256 ^ 4 ≤ 256 ^ sz := Nat.pow_le_pow_right (by decide) hsz
    omega
  · rwa [min_eq_right hle]

theorem CcmParams.plainOf_encryptWith {flag : Nat} : p.plainOf enc (p.encryptWith flag enc m) = m := by
  have hlen : (xorBytes m (p.keys enc m.length)).length = m.length := length_xorBytes length_keys
  have htag : (xorBytes (p.tagWith flag enc m) (p.stream enc 0).toList).length = p.M := by
    rw [length_xorBytes (by rw [length_tagWith, Vector.length_toList]; exact p.le_sixteen),
      length_tagWith]
  have htotal : (p.encryptWith flag enc m).length - p.M = m.length := by
    rw [encryptWith, length_append, htag, hlen, Nat.add_sub_cancel]
  have htake : (p.encryptWith flag enc m).take m.length = xorBytes m (p.keys enc m.length) := by
    exact take_left' hlen
  unfold plainOf
  rw [htotal, htake, xorBytes_cancel length_keys]

theorem CcmParams.right_of_holds (hsz : 4 ≤ sz) (h : CcmHolds sz p m input) : CcmRight sz p m input := by
  have hflag := flag_eq h.adata
  refine ⟨fun hm c hc output hout => ?_, fun hm c hc plain hplain => ?_, fun c hc plain hplain => ?_⟩
  · rw [cipherEncryptCcm_eq hsz hm hc hout, hflag]
    rfl
  · have h3 := p.le_sixteen
    have hlen := @length_encrypt m p c.encrypt
    have hlt := hm.2
    have hback : p.plainOf c.encrypt (p.encrypt c.encrypt m) = m := plainOf_encryptWith
    have hmsg : (p.encrypt c.encrypt m).length - p.M = m.length := by omega
    rw [cipherDecryptCcm_eq (by rw [hlen]; exact fits_size hsz (by omega) h.message) hsz hc
      (by omega) (by omega) (by omega), hback, hmsg, hflag, if_pos encrypt_eq]
  · by_cases hfit : input.length < 256 ^ min sz p.L
    · obtain ⟨hlong, hoffset⟩ := h.input hfit
      by_cases hint : 2 ^ 31 ≤ (input.length - p.M) % 2 ^ 32
      · refine ⟨_, p.plainOf c.encrypt input, ?_, .inl (toInt_neg_iff.mpr hint)⟩
        rw [cipherDecryptCcm_body hfit hsz hc hlong hplain, if_pos (toInt_neg_iff.mpr hint)]
      · have hlt : input.length - p.M < 2 ^ 31 := by omega
        refine ⟨_, _, cipherDecryptCcm_eq hfit hsz hc hlong hplain hlt, ?_⟩
        by_cases hacc : input = p.encryptWith p.flag c.encrypt (p.plainOf c.encrypt input)
        · rw [if_pos hacc]
          refine .inr ⟨by rw [length_plainOf], ?_⟩
          rw [encrypt_eq, ← hflag]
          exact hacc
        · rw [if_neg hacc]
          exact .inl (by decide)
    · exact ⟨_, _, cipherDecryptCcm_unfit hfit hsz, .inl (by decide)⟩

/-! ## Where it fails -/

/-- The cipher that leaves its blocks as they are. -/
def idle : Cipher := ⟨16, id, id⟩

theorem chain_id {xs : List Block16} : chain id x xs = x.xor (chain id (zero 16) xs) := by
  induction xs generalizing x with
  | nil => exact xor_zero.symm
  | cons b xs ih =>
    have hcons : ∀ y : Block16, chain id y (b :: xs) = chain id (y.xor b) xs := fun _ => rfl
    rw [hcons, hcons, zero_xor, ih, ih (x := b), xor_assoc]

theorem CcmParams.flag_of_encryptWith {f g : Nat} (hf : f ≤ 1) (hg : g ≤ 1)
    (h : p.encryptWith f id m = p.encryptWith g id m) : f = g := by
  have h1 := p.four_le
  have h2 := p.le_sixteen
  have htag : ∀ k, (p.tagWith k id m).length ≤ (p.stream id 0).toList.length := by
    intro k
    rw [length_tagWith, Vector.length_toList]
    exact h2
  have hsame : p.tagWith f id m = p.tagWith g id m := by
    have := (append_inj h rfl).2
    rw [← xorBytes_cancel (htag f), this, xorBytes_cancel (htag g)]
  have hhead : ∀ k, (p.tagWith k id m)[0]? = some (UInt8.ofNat (64 * k + 8 * ((p.M - 2) / 2) + (p.L - 1)) ^^^
      (chain id (zero 16) (p.adataBlocks ++ blocks 16 m))[0]) := by
    intro k
    unfold tagWith
    rw [getElem?_take_of_lt (by omega), chain_id, getElem?_eq_getElem (by rw [Vector.length_toList]; decide),
      Vector.getElem_toList, getElem_xor]
    rfl
  have hbyte := (hhead f).symm.trans ((congrArg (fun l => l[0]?) hsame).trans (hhead g))
  have hfirst := congrArg UInt8.toNat ((UInt8.xor_left_inj _).mp (Option.some.inj hbyte))
  rw [UInt8.toNat_ofNat', UInt8.toNat_ofNat'] at hfirst
  omega

theorem CcmParams.holds_of_right (hsz : 4 ≤ sz) (hm : p.Message m) (h : CcmRight sz p m input) :
    CcmHolds sz p m input := by
  have hlt := hm.2
  refine ⟨fun hne h0 => ?_, ?_, fun hfit => ?_⟩
  · have hout : (replicate (m.length + p.M) (0 : UInt8)).length = m.length + p.M := length_replicate
    have henc := (cipherEncryptCcm_eq hsz hm (c := idle) rfl hout).symm.trans (h.encrypts hm idle rfl _ hout)
    have hflags := flag_of_encryptWith (f := p.flag) (g := if p.adata = [] then 0 else 1)
      (by unfold flag; split <;> decide) (by split <;> decide) (Prod.mk.inj (Except.ok.inj henc)).2
    unfold flag at hflags
    rw [if_neg (by omega), if_neg hne] at hflags
    cases hflags
  · refine Nat.lt_of_not_le fun hge => ?_
    have hplain : (replicate m.length (0 : UInt8)).length = m.length := length_replicate
    have hdec := h.decrypts hm idle rfl _ hplain
    rw [cipherDecryptCcm_unfit ?_ hsz] at hdec
    · have := (Prod.mk.inj (Except.ok.inj hdec)).1
      unfold ccmErrInvalidLengthEncoding at this
      omega
    · rw [length_encrypt]
      have : 256 ^ min sz p.L ≤ 256 ^ p.L := Nat.pow_le_pow_right (by decide) (Nat.min_le_right _ _)
      omega
  · have hplain : (replicate (input.length - p.M) (0 : UInt8)).length = input.length - p.M := length_replicate
    obtain ⟨r, out, hdec, -⟩ := h.authentic idle rfl _ hplain
    have hlong : p.M ≤ input.length := by
      refine Nat.le_of_not_lt fun hshort => ?_
      rw [cipherDecryptCcm_short hshort hsz rfl] at hdec
      cases hdec
    refine ⟨hlong, ?_⟩
    by_cases hge : 2 ^ 32 ≤ input.length - p.M
    · refine .inr (Classical.byContradiction fun hint => ?_)
      rw [cipherDecryptCcm_endless hfit hsz rfl hlong hplain hge hint] at hdec
      cases hdec
    · exact .inl (by omega)

/-- **When the mode is right**: both directions. -/
theorem ccmRight_iff (sz : Nat) (p : CcmParams) (m input : List UInt8) (hsz : sz = 4 ∨ sz = 8)
    (hm : p.Message m) : CcmRight sz p m input ↔ CcmHolds sz p m input :=
  ⟨CcmParams.holds_of_right (by omega) hm, CcmParams.right_of_holds (by omega)⟩

/-- A tag of four bytes, lengths of two, and no associated data. -/
def plainParams : CcmParams where
  M := 4
  L := 2
  nonce := List.replicate 13 0
  adata := []
  even := rfl
  four_le := by decide
  le_sixteen := by decide
  two_le := by decide
  le_eight := by decide
  length_nonce := rfl
  length_adata := by decide

theorem ccmRight_iff_plain :
    CcmRight 4 plainParams [1, 2, 3] [1, 2, 3, 4, 5] ↔ CcmHolds 4 plainParams [1, 2, 3] [1, 2, 3, 4, 5] :=
  ccmRight_iff 4 plainParams _ _ (.inl rfl) ⟨by decide, by decide⟩

/-- **An input that is shorter than the tag is read behind its end.** -/
theorem not_ccmRight : ¬ ∀ sz p m input, sz = 4 ∨ sz = 8 → CcmParams.Message p m → CcmRight sz p m input := by
  intro h
  have hright := h 4 plainParams [] [] (.inl rfl) ⟨by decide, by decide⟩
  obtain ⟨r, out, hdec, -⟩ := hright.authentic idle rfl [] rfl
  have hfault : cipherDecryptCcm 4 idle [] 4 2 (List.replicate 13 0) [] [] = .error .outOfBounds := by decide +kernel
  cases hfault.symm.trans hdec

end Riot.Crypto
