import Mathlib.Data.Vector.Defs
import Riot.Lib.BlockCipher
import Riot.Ieee802154.Security

/-!
# Secured frames, against the standard

The loops of `_comp_mic` and `_ctr` are the chain and the key stream of the standard, so that the
payload comes out right and what was secured is restored. The flags of `B_0` do not, with a MIC:
`_ccm_flag` leaves `(M - 2) / 2` in the lowest bits. Chains from two different first blocks come out
differently with some block cipher.
-/

namespace Riot.Ieee802154

open Riot.Lib Riot.Crypto Nat UInt8 Block
open List hiding Vector

variable {encrypt : Block16 → Block16} {ctx : SecContext} {header payload frame a c m mic : List UInt8}
  {src : Vector UInt8 8} {level : SecLevel} {mode : KeyMode} {fc : UInt32} {headerSize : Nat}

/-! ## The loops -/

theorem compMicLoop_eq : ∀ {fuel : Nat} {x : Block16} {rest : List UInt8}, rest.length ≤ fuel →
    compMicLoop encrypt fuel x rest = chain encrypt x (blocks 16 rest) := by
  intro fuel
  induction fuel with
  | zero =>
    intro x rest hle
    obtain rfl := length_eq_zero_iff.mp (le_zero.mp hle)
    rfl
  | succ fuel ih =>
    intro x rest hle
    rw [compMicLoop]
    by_cases hnil : rest = []
    · rw [if_pos hnil, hnil, blocks_nil (by decide)]
      rfl
    · rw [if_neg hnil, blocks_of_ne (by decide) hnil, ih (by rw [length_drop]; omega), cbcNext,
        ofList_take le_rfl]
      rfl

theorem compMic_eq {B0 : CcmBlock} : compMic encrypt B0 a m =
    chain encrypt (encrypt B0.bytes) (blocks 16 (toBytes 2 a.length ++ a) ++ blocks 16 m) := by
  have hlen : (toBytes 2 a.length).length = 2 := length_toBytes
  have hne : toBytes 2 a.length ++ a ≠ [] := by
    intro h
    have := congrArg length h
    rw [length_append, hlen, length_nil] at this
    omega
  have hfirst : cbcNext encrypt (zero 16) B0.bytes.toList = encrypt B0.bytes := by
    rw [cbcNext, Block.ofList_take le_rfl, Block.ofList_toList, Block.zero_xor]
  have htake : toBytes 2 a.length ++ a.take 14 = (toBytes 2 a.length ++ a).take 16 := by
    rw [take_append, hlen, take_of_length_le (show (toBytes 2 a.length).length ≤ 16 by omega)]
  have hdrop : (toBytes 2 a.length ++ a).drop 16 = a.drop 14 := by
    rw [drop_append, hlen, drop_eq_nil_of_le (show (toBytes 2 a.length).length ≤ 16 by omega)]
    rfl
  unfold compMic
  rw [compMicLoop_eq le_rfl, compMicLoop_eq (by rw [length_drop]; omega), hfirst, ← chain_append,
    blocks_of_ne (by decide) hne, hdrop, htake, cbcNext, take_take, min_self,
    ofList_take le_rfl]
  rfl

variable {A : CcmBlock}

theorem ecb_eq {data : List UInt8} :
    ecb encrypt data A = xorBytes (data.take 16) (encrypt A.bytes).toList := by
  unfold ecb xorBytes
  apply ext_getElem
  · rw [length_take, Vector.length_toList, length_zipWith, length_take, Vector.length_toList]
  · intro i hi hi'
    have hlt : i < data.length ∧ i < 16 := by
      rw [length_take, Vector.length_toList] at hi
      omega
    rw [getElem_take, Vector.getElem_toList, getElem_xor, getElem_zipWith, Vector.getElem_toList,
      getElem_ofList hlt.2, getElem?_take_of_lt hlt.2, getElem?_eq_getElem hlt.1, getElem_take]
    rfl

theorem ctrMic_eq (h : mic.length ≤ 16) : ctrMic encrypt A mic = xorBytes mic (encrypt A.bytes).toList := by
  rw [ctrMic, ecb_eq, take_of_length_le h]

theorem ctrFrom_eq {A : CcmBlock} : ∀ {fuel j : Nat} {rest : List UInt8}, rest.length ≤ fuel →
    ctrFrom encrypt fuel { A with counter := UInt16.ofNat j } rest =
      xorBytes rest (keyStream (fun i => encrypt { A with counter := UInt16.ofNat i }.bytes) (j + 1)
        (blockCount 16 rest.length)) := by
  intro fuel
  induction fuel with
  | zero =>
    intro j rest hle
    obtain rfl := length_eq_zero_iff.mp (le_zero.mp hle)
    rfl
  | succ fuel ih =>
    intro j rest hle
    rw [ctrFrom]
    by_cases hnil : rest = []
    · rw [if_pos hnil, hnil]
      rfl
    · have hpos := length_pos_of_ne_nil hnil
      have hnext : advanceCtrAi { A with counter := UInt16.ofNat j } = { A with counter := UInt16.ofNat (j + 1) } := by
        rw [UInt16.ofNat_add]
        rfl
      rw [if_neg hnil, hnext, ih (by rw [length_drop]; omega), blockCount_of_pos (by decide) hpos, keyStream_succ,
        ecb_eq, length_drop]
      by_cases hfull : 16 ≤ rest.length
      · have htake : (rest.take 16).length = (encrypt { A with counter := UInt16.ofNat (j + 1) }.bytes).toList.length := by
          rw [length_take, Vector.length_toList]
          omega
        conv_rhs => rw [← take_append_drop 16 rest]
        rw [xorBytes_append htake, take_append_drop]
      · have hnone : rest.length - 16 = 0 := by omega
        rw [hnone, blockCount_zero (by decide), drop_eq_nil_of_le (by omega), take_of_length_le (by omega)]
        unfold xorBytes
        rw [zipWith_nil_left, append_nil]
        exact congrArg _ (append_nil _).symm

theorem ctr_eq (hA : A.counter = 0) : ctr encrypt A m =
    xorBytes m (keyStream (fun i => encrypt { A with counter := UInt16.ofNat i }.bytes) 1 (blockCount 16 m.length)) := by
  have h := @ctrFrom_eq encrypt A m.length 0 m le_rfl
  have h0 : { A with counter := UInt16.ofNat 0 } = A := by
    cases A
    subst hA
    rfl
  rw [h0] at h
  exact h

theorem length_ctr (hA : A.counter = 0) : (ctr encrypt A m).length = m.length := by
  rw [ctr_eq hA, length_xorBytes]
  rw [length_keyStream]
  unfold blockCount
  omega

theorem ctr_ctr (hA : A.counter = 0) : ctr encrypt A (ctr encrypt A m) = m := by
  rw [ctr_eq hA, length_ctr hA, ctr_eq hA, xorBytes_cancel]
  rw [length_keyStream]
  unfold blockCount
  omega

theorem ctrMic_ctrMic (h : mic.length ≤ 16) : ctrMic encrypt A (ctrMic encrypt A mic) = mic := by
  have hle : mic.length ≤ (encrypt A.bytes).toList.length := by
    rw [Vector.length_toList]
    exact h
  rw [ctrMic_eq h, ctrMic_eq (by rw [length_xorBytes hle]; exact h), xorBytes_cancel hle]

theorem length_ctrMic (h : mic.length ≤ 16) : (ctrMic encrypt A mic).length = mic.length := by
  rw [ctrMic_eq h, length_xorBytes]
  rw [Vector.length_toList]
  exact h

/-! ## The headers -/

theorem getSecLevel_scf : getSecLevel (scf level mode) = level := by
  cases level <;> cases mode <;> rfl

theorem getKeyIdMode_scf : getKeyIdMode (scf level mode) = mode := by
  cases level <;> cases mode <;> rfl

theorem macSize_le : macSize level ≤ 16 := by
  cases level <;> decide

theorem getAuxHdrSize_le : getAuxHdrSize level mode ≤ 14 := by
  cases level <;> cases mode <;> decide

theorem le_getAuxHdrSize (h : level ≠ .none) : 5 ≤ getAuxHdrSize level mode := by
  unfold getAuxHdrSize
  rw [if_neg h]
  cases mode <;> decide

theorem length_littleEndian {v : UInt32} : (littleEndian v).length = 4 := by
  rw [littleEndian, length_reverse, length_toBytes]

theorem length_setAuxHdr (h : ctx.securityLevel ≠ .none) :
    (setAuxHdr ctx).length = getAuxHdrSize ctx.securityLevel ctx.keyIdMode := by
  unfold setAuxHdr getAuxHdrSize
  rw [if_neg h, length_cons, length_append, length_littleEndian]
  cases ctx.keyIdMode with
  | implicit => rfl
  | index => rfl
  | shortIndex =>
    rw [length_append, length_take, Vector.length_toList]
    rfl
  | hwIndex =>
    rw [length_append, Vector.length_toList]
    rfl

theorem scfOf_setAuxHdr {rest : List UInt8} :
    scfOf (header ++ (setAuxHdr ctx ++ rest)) header.length = scf ctx.securityLevel ctx.keyIdMode := by
  rw [scfOf, drop_left]
  rfl

theorem frameCounterOf_setAuxHdr {rest : List UInt8} :
    frameCounterOf (header ++ (setAuxHdr ctx ++ rest)) header.length = ctx.frameCounter := by
  have hlt : ctx.frameCounter.toNat < 256 ^ 4 := ctx.frameCounter.toNat_lt
  have hdrop : (header ++ (setAuxHdr ctx ++ rest)).drop (header.length + 1) =
      (setAuxHdr ctx ++ rest).drop 1 := by
    rw [← drop_drop, drop_left]
  unfold frameCounterOf
  rw [hdrop, setAuxHdr, cons_append, drop_succ_cons, drop_zero, append_assoc,
    take_left' length_littleEndian, littleEndian, reverse_reverse, ofBytes_toBytes hlt, UInt32.ofNat_toNat]

/-! ## Encryption -/

/-- The mandatory bit of data frames, in the first byte. -/
def IsData (frame : List UInt8) : Prop := frame ≠ [] ∧ frame.headD 0 &&& 0x01 ≠ 0

theorem secEncryptFrame_eq (hdata : IsData header) (hlevel : ctx.securityLevel ≠ .none)
    (hfc : ctx.frameCounter ≠ 0xFFFFFFFF) : secEncryptFrame encrypt ctx header payload src = .ok (.ok {
      header := header ++ setAuxHdr ctx
      headerSize := ofNat (header ++ setAuxHdr ctx).length
      payload :=
        if reqEncryption ctx.securityLevel then
          ctr encrypt (initCtrA0 ctx.frameCounter ctx.securityLevel src) payload
        else payload
      mic :=
        if reqMac ctx.securityLevel then
          micOf encrypt ctx.securityLevel ctx.frameCounter src (header ++ setAuxHdr ctx) payload
        else []
      ctx := { ctx with frameCounter := ctx.frameCounter + 1 } }) := by
  obtain ⟨hne, hbit⟩ := hdata
  obtain ⟨fcf, rest, rfl⟩ := exists_cons_of_ne_nil hne
  change fcf &&& 0x01 ≠ 0 at hbit
  unfold secEncryptFrame
  dsimp only
  rw [if_neg hbit, if_neg hlevel, if_neg hfc, length_append, length_setAuxHdr hlevel]
  rfl

theorem bytes_initCtrA0 {i : Nat} (hi : i < 2 ^ 16) :
    encrypt { initCtrA0 ctx.frameCounter ctx.securityLevel src with counter := UInt16.ofNat i }.bytes =
      stdStream encrypt ctx src i := by
  unfold CcmBlock.bytes stdStream stdNonce initCtrA0
  rw [UInt16.toNat_ofNat_of_lt' hi]
  rfl

/-- **The payload is encrypted** as the standard says. -/
theorem ctr_eq_std (hlen : payload.length < 2 ^ 16) :
    ctr encrypt (initCtrA0 ctx.frameCounter ctx.securityLevel src) payload =
      xorBytes payload (keyStream (stdStream encrypt ctx src) 1 (blockCount 16 payload.length)) := by
  rw [ctr_eq rfl]
  refine congrArg _ (keyStream_congr fun i _ hi => bytes_initCtrA0 ?_)
  unfold blockCount at hi
  omega

theorem micOf_eq : micOf encrypt level fc src a m = xorBytes ((chain encrypt
      (encrypt (initCbcB0 fc level (UInt16.ofNat m.length) (ofNat (macSize level)) src).bytes)
      (blocks 16 (toBytes 2 a.length ++ a) ++ blocks 16 m)).toList.take (macSize level))
    (encrypt (initCtrA0 fc level src).bytes).toList := by
  rw [micOf, ctrMic_eq, compMic_eq]
  rw [length_take, Vector.length_toList]
  omega

/-! ## Decryption -/

/-- The payload that comes out. -/
def plainOf (encrypt : Block16 → Block16) (level : SecLevel) (fc : UInt32) (src : Vector UInt8 8) (c : List UInt8) :
    List UInt8 :=
  if reqEncryption level then ctr encrypt (initCtrA0 fc level src) c else c

theorem length_plainOf : (plainOf encrypt level fc src c).length = c.length := by
  unfold plainOf
  split
  · exact length_ctr rfl
  · rfl

theorem plainOf_plainOf : plainOf encrypt level fc src (plainOf encrypt level fc src c) = c := by
  unfold plainOf
  split
  · exact ctr_ctr rfl
  · rfl

theorem tail_take_drop {l : List UInt8} {i n : Nat} : ((l.drop i).take (n + 1)).tail = (l.drop (i + 1)).take n := by
  rw [← drop_drop]
  cases l.drop i with
  | nil =>
    rw [drop_nil, take_nil, take_nil]
    rfl
  | cons b bs => rfl

theorem secDecryptFrame_begin (hdata : IsData frame) (haux : headerSize + 5 ≤ frame.length) :
    secDecryptFrame encrypt frame headerSize src = decryptSecured encrypt frame headerSize src
      (getSecLevel (scfOf frame headerSize)) (auxSizeOf frame headerSize) (frameCounterOf frame headerSize) := by
  have hfirst : read frame 0 1 = .ok (frame.take 1) := if_pos (by omega)
  have hread : read frame headerSize 5 = .ok ((frame.drop headerSize).take 5) := if_pos haux
  have hhead : (frame.take 1).headD 0 = frame.headD 0 := by
    cases frame <;> rfl
  have hscf : ((frame.drop headerSize).take 5).headD 0 = scfOf frame headerSize := by
    unfold scfOf
    cases frame.drop headerSize <;> rfl
  unfold secDecryptFrame
  rw [hfirst, Except.bind, hhead, if_neg hdata.2, hread, Except.bind, hscf, tail_take_drop]
  rfl

/-- **What is decrypted**, of a frame that is complete. -/
theorem decryptSecured_eq {auxSize : Nat} {mac : List UInt8} (hlevel : level ≠ .none)
    (ha : a.length = headerSize + auxSize) (hmac : mac.length = macSize level)
    (hlt : (a ++ (c ++ mac)).length < 2 ^ 16) :
    decryptSecured encrypt (a ++ (c ++ mac)) headerSize src level auxSize fc =
      if reqMac level = true ∧ mac ≠ micOf encrypt level fc src a (plainOf encrypt level fc src c) then
        .ok (.error .macCheckFailure)
      else .ok (.ok ⟨a ++ (plainOf encrypt level fc src c ++ ctrMic encrypt (initCtrA0 fc level src) mac),
        a.length, c.length, macSize level, ofNat a.length⟩) := by
  have hle : mac.length ≤ 16 := by
    rw [hmac]
    exact macSize_le
  have hmic : (ctrMic encrypt (initCtrA0 fc level src) mac).length = mac.length := length_ctrMic hle
  have hplain : (plainOf encrypt level fc src c).length = c.length := length_plainOf
  have hlen : (a ++ (c ++ mac)).length = a.length + (c.length + mac.length) := by
    rw [length_append, length_append]
  have hlen' : (a ++ (plainOf encrypt level fc src c ++ ctrMic encrypt (initCtrA0 fc level src) mac)).length =
      a.length + (c.length + mac.length) := by
    rw [length_append, length_append, hplain, hmic]
  have hsize : (a.length + (c.length + mac.length) + 2 ^ 16 - (a.length + mac.length)) % 2 ^ 16 = c.length := by
    omega
  have hat : ∀ {b : List UInt8}, b.length = c.length → (a ++ b).length = a.length + (c.length + mac.length) - mac.length := by
    intro b hb
    rw [length_append, hb]
    omega
  have hread : read (a ++ (c ++ mac)) (a.length + (c.length + mac.length) - mac.length) mac.length = .ok mac := by
    have := @read_append mac (a ++ c) [] mac.length rfl
    rwa [append_nil, append_assoc, hat rfl] at this
  have hwrite : write (a ++ (c ++ mac)) (a.length + (c.length + mac.length) - mac.length)
      (ctrMic encrypt (initCtrA0 fc level src) mac) =
      .ok (a ++ (c ++ ctrMic encrypt (initCtrA0 fc level src) mac)) := by
    have := @write_append mac _ (a ++ c) [] hmic.symm
    rwa [append_nil, append_nil, append_assoc, append_assoc, hat rfl] at this
  have hread' : read (a ++ (plainOf encrypt level fc src c ++ ctrMic encrypt (initCtrA0 fc level src) mac))
      (a.length + (c.length + mac.length) - mac.length) mac.length =
        .ok (ctrMic encrypt (initCtrA0 fc level src) mac) := by
    have := @read_append _ (a ++ plainOf encrypt level fc src c) [] _ hmic
    rwa [append_nil, append_assoc, hat hplain] at this
  have hfirst : read (a ++ (plainOf encrypt level fc src c ++ ctrMic encrypt (initCtrA0 fc level src) mac)) 0 a.length =
      .ok a := @read_append _ [] _ _ rfl
  have hbody : read (a ++ (c ++ ctrMic encrypt (initCtrA0 fc level src) mac)) a.length c.length = .ok c :=
    read_append rfl
  have hstore : write (a ++ (c ++ ctrMic encrypt (initCtrA0 fc level src) mac)) a.length (plainOf encrypt level fc src c) =
      .ok (a ++ (plainOf encrypt level fc src c ++ ctrMic encrypt (initCtrA0 fc level src) mac)) :=
    write_append hplain.symm
  have hback : read (a ++ (plainOf encrypt level fc src c ++ ctrMic encrypt (initCtrA0 fc level src) mac)) a.length
      c.length = .ok (plainOf encrypt level fc src c) := read_append hplain
  -- Both MICs are the encryption of what is compared.
  have hcheck : ctrMic encrypt (initCtrA0 fc level src) mac =
      (compMic encrypt (initCbcB0 fc level (UInt16.ofNat c.length) (ofNat (macSize level)) src) a
        (plainOf encrypt level fc src c)).toList.take (macSize level) ↔
      mac = micOf encrypt level fc src a (plainOf encrypt level fc src c) := by
    unfold micOf
    rw [hplain]
    constructor
    · intro h
      rw [← h, ctrMic_ctrMic hle]
    · intro h
      rw [h, ctrMic_ctrMic]
      rw [length_take, Vector.length_toList]
      omega
  unfold decryptSecured
  dsimp only
  rw [if_neg hlevel, hlen, ← ha, ← hmac, hsize, if_neg (by omega), hread, Except.bind, hwrite, Except.bind, hbody,
    Except.bind, ← plainOf, hstore, Except.bind]
  by_cases hreq : reqMac level = true
  · rw [if_pos hreq, hfirst, Except.bind, hback, Except.bind, hlen', hread', Except.bind, hmac]
    by_cases heq : mac = micOf encrypt level fc src a (plainOf encrypt level fc src c)
    · rw [if_neg (not_not.mpr (hcheck.mpr heq)), if_neg (fun h => h.2 heq)]
    · rw [if_pos (fun h => heq (hcheck.mp h)), if_pos ⟨hreq, heq⟩]
  · rw [if_neg hreq, if_neg (fun h => hreq h.1)]

/-- A frame that is too short for its headers and its MIC is left: `payload_size` wraps. -/
theorem decryptSecured_short {auxSize : Nat} (hlevel : level ≠ .none) (hheader : headerSize < 256)
    (haux : auxSize ≤ 14) (hlt : frame.length < 2 ^ 16)
    (hshort : frame.length < headerSize + auxSize + macSize level) :
    decryptSecured encrypt frame headerSize src level auxSize fc = .error .outOfBounds := by
  have hmac := @macSize_le level
  unfold decryptSecured
  rw [if_neg hlevel]
  by_cases htiny : frame.length < macSize level
  · rw [if_pos htiny]
  · have hread : read frame (frame.length - macSize level) (macSize level) =
        .ok (frame.drop (frame.length - macSize level)) := by
      unfold Crypto.read
      rw [if_pos (by omega), take_of_length_le]
      rw [length_drop]
      omega
    have hlen : (ctrMic encrypt (initCtrA0 fc level src) (frame.drop (frame.length - macSize level))).length =
        macSize level := by
      rw [length_ctrMic] <;> rw [length_drop] <;> omega
    have hwrite : write frame (frame.length - macSize level)
        (ctrMic encrypt (initCtrA0 fc level src) (frame.drop (frame.length - macSize level))) =
        .ok (frame.take (frame.length - macSize level) ++
          (ctrMic encrypt (initCtrA0 fc level src) (frame.drop (frame.length - macSize level)) ++
            frame.drop (frame.length - macSize level + macSize level))) := by
      unfold write
      rw [hlen, if_pos (by omega)]
    rw [if_neg htiny, hread, Except.bind, hwrite, Except.bind, read_of_lt]
    · rfl
    · rw [length_append, length_append, length_take, hlen, length_drop]
      omega

/-- **What was secured is restored.** -/
theorem secDecryptFrame_secured (hdata : IsData header) (hlevel : ctx.securityLevel ≠ .none) {c mac : List UInt8}
    (hc : c = plainOf encrypt ctx.securityLevel ctx.frameCounter src payload)
    (hmac : mac = if reqMac ctx.securityLevel then
      micOf encrypt ctx.securityLevel ctx.frameCounter src (header ++ setAuxHdr ctx) payload else [])
    (hlt : (header ++ setAuxHdr ctx ++ c ++ mac).length < 2 ^ 16) :
    ∃ d, secDecryptFrame encrypt (header ++ setAuxHdr ctx ++ c ++ mac) header.length src = .ok (.ok d) ∧
      (d.frame.drop d.payload).take d.payloadSize = payload := by
  obtain ⟨hne, hbit⟩ := hdata
  have hscf := @scfOf_setAuxHdr ctx header (c ++ mac)
  have hfc := @frameCounterOf_setAuxHdr ctx header (c ++ mac)
  have hlen : mac.length = macSize ctx.securityLevel := by
    rw [hmac]
    cases hreq : reqMac ctx.securityLevel with
    | true =>
      have htag : ∀ l : Block16, (l.toList.take (macSize ctx.securityLevel)).length = macSize ctx.securityLevel := by
        intro l
        have := @macSize_le ctx.securityLevel
        rw [length_take, Vector.length_toList]
        omega
      rw [if_pos rfl, micOf, length_ctrMic (by rw [htag]; exact macSize_le), htag]
    | false =>
      generalize ctx.securityLevel = level at *
      cases level <;> first | rfl | cases hreq
  have hplain : plainOf encrypt ctx.securityLevel ctx.frameCounter src c = payload := by
    rw [hc, plainOf_plainOf]
  have hframe : header ++ setAuxHdr ctx ++ c ++ mac = header ++ (setAuxHdr ctx ++ (c ++ mac)) := by
    rw [append_assoc, append_assoc]
  have hdata' : IsData (header ++ (setAuxHdr ctx ++ (c ++ mac))) := by
    obtain ⟨fcf, rest, rfl⟩ := exists_cons_of_ne_nil hne
    exact ⟨cons_ne_nil _ _, hbit⟩
  have hsize := @length_setAuxHdr ctx hlevel
  have hfive := @le_getAuxHdrSize _ ctx.keyIdMode hlevel
  have haux : auxSizeOf (header ++ (setAuxHdr ctx ++ (c ++ mac))) header.length =
      getAuxHdrSize ctx.securityLevel ctx.keyIdMode := by
    rw [auxSizeOf, hscf, getSecLevel_scf, getKeyIdMode_scf]
  rw [hframe, secDecryptFrame_begin hdata' (by rw [length_append, length_append]; omega), haux, hscf, hfc,
    getSecLevel_scf, ← hframe]
  rw [append_assoc] at hlt ⊢
  rw [decryptSecured_eq hlevel (by rw [length_append, hsize]) hlen hlt, hplain, if_neg]
  · refine ⟨_, rfl, ?_⟩
    rw [drop_left, take_left']
    rw [hc, length_plainOf]
  · rintro ⟨hreq, hne⟩
    rw [hmac, if_pos hreq] at hne
    exact hne rfl

/-! ## Exactly when it is right -/

theorem frame_split {n k : Nat} (h : n + k ≤ frame.length) :
    frame = frame.take n ++ ((frame.drop n).take (frame.length - k - n) ++ frame.drop (frame.length - k)) := by
  have hdrop : frame.drop (frame.length - k) = (frame.drop n).drop (frame.length - k - n) := by
    rw [drop_drop]
    congr 1
    omega
  rw [hdrop, take_append_drop, take_append_drop]

theorem secDecryptFrame_other (hne : frame ≠ []) (hbit : frame.headD 0 &&& 0x01 = 0) :
    secDecryptFrame encrypt frame headerSize src = .error .assertion := by
  obtain ⟨b, bs, rfl⟩ := exists_cons_of_ne_nil hne
  have hfirst : read (b :: bs) 0 1 = .ok [b] := if_pos (le_add_left _ _)
  unfold secDecryptFrame
  exact if_pos hbit

theorem secDecryptFrame_complete (hlt : frame.length < 2 ^ 16) (h : Complete frame headerSize)
    (hbit : frame.headD 0 &&& 0x01 ≠ 0) (hlevel : getSecLevel (scfOf frame headerSize) ≠ .none) :
    ∃ c, secDecryptFrame encrypt frame headerSize src =
      if reqMac (getSecLevel (scfOf frame headerSize)) = true ∧
          frame.drop (frame.length - macSize (getSecLevel (scfOf frame headerSize))) ≠
            micOf encrypt (getSecLevel (scfOf frame headerSize)) (frameCounterOf frame headerSize) src
              (frame.take (headerSize + auxSizeOf frame headerSize))
              (plainOf encrypt (getSecLevel (scfOf frame headerSize)) (frameCounterOf frame headerSize) src c) then
        .ok (.error .macCheckFailure)
      else .ok (.ok ⟨frame.take (headerSize + auxSizeOf frame headerSize) ++
          (plainOf encrypt (getSecLevel (scfOf frame headerSize)) (frameCounterOf frame headerSize) src c ++
            ctrMic encrypt (initCtrA0 (frameCounterOf frame headerSize) (getSecLevel (scfOf frame headerSize)) src)
              (frame.drop (frame.length - macSize (getSecLevel (scfOf frame headerSize))))),
        (frame.take (headerSize + auxSizeOf frame headerSize)).length, c.length,
        macSize (getSecLevel (scfOf frame headerSize)),
        ofNat (frame.take (headerSize + auxSizeOf frame headerSize)).length⟩) := by
  obtain ⟨haux, hrest⟩ := h.2 hbit
  have hle := hrest hlevel
  have hsplit := frame_split hle
  have ha : (frame.take (headerSize + auxSizeOf frame headerSize)).length =
      headerSize + auxSizeOf frame headerSize := by
    rw [length_take]
    omega
  have hmac : (frame.drop (frame.length - macSize (getSecLevel (scfOf frame headerSize)))).length =
      macSize (getSecLevel (scfOf frame headerSize)) := by
    rw [length_drop]
    omega
  have heq := @decryptSecured_eq encrypt _ _ src (getSecLevel (scfOf frame headerSize))
    (frameCounterOf frame headerSize) headerSize _ _ hlevel ha hmac (by rw [← hsplit]; exact hlt)
  rw [← hsplit] at heq
  exact ⟨_, (secDecryptFrame_begin ⟨h.1, hbit⟩ haux).trans heq⟩

theorem inside_iff (hlt : frame.length < 2 ^ 16) (hheader : headerSize < 256) :
    secDecryptFrame encrypt frame headerSize src ≠ .error .outOfBounds ↔ Complete frame headerSize := by
  constructor
  · intro h
    have hne : frame ≠ [] := by
      rintro rfl
      exact h rfl
    refine ⟨hne, fun hbit => ?_⟩
    have hfirst : read frame 0 1 = .ok (frame.take 1) := if_pos (length_pos_of_ne_nil hne)
    have hhead : (frame.take 1).headD 0 = frame.headD 0 := by
      cases frame <;> rfl
    have haux : headerSize + 5 ≤ frame.length := by
      refine Nat.le_of_not_lt fun hshort => h ?_
      unfold secDecryptFrame
      rw [hfirst, Except.bind, hhead, if_neg hbit, read_of_lt hshort]
      rfl
    refine ⟨haux, fun hlevel => Nat.le_of_not_lt fun hshort => h ?_⟩
    rw [secDecryptFrame_begin ⟨hne, hbit⟩ haux]
    exact decryptSecured_short hlevel hheader getAuxHdrSize_le hlt hshort
  · intro h hfault
    by_cases hbit : frame.headD 0 &&& 0x01 = 0
    · rw [secDecryptFrame_other h.1 hbit] at hfault
      cases hfault
    · by_cases hlevel : getSecLevel (scfOf frame headerSize) = .none
      · rw [secDecryptFrame_begin ⟨h.1, hbit⟩ (h.2 hbit).1, decryptSecured, if_pos hlevel] at hfault
        cases hfault
      · obtain ⟨c, heq⟩ := @secDecryptFrame_complete encrypt _ src _ hlt h hbit hlevel
        rw [heq] at hfault
        split_ifs at hfault

theorem authentic_of_complete {d : Decrypted} (hlt : frame.length < 2 ^ 16) (h : Complete frame headerSize)
    (hd : secDecryptFrame encrypt frame headerSize src = .ok (.ok d))
    (hreq : reqMac (getSecLevel (scfOf frame headerSize)) = true) :
    frame.drop (frame.length - macSize (getSecLevel (scfOf frame headerSize))) =
      micOf encrypt (getSecLevel (scfOf frame headerSize)) (frameCounterOf frame headerSize) src
        (frame.take (headerSize + auxSizeOf frame headerSize)) ((d.frame.drop d.payload).take d.payloadSize) := by
  have hlevel : getSecLevel (scfOf frame headerSize) ≠ .none := by
    intro h0
    rw [h0] at hreq
    cases hreq
  have hbit : ¬ frame.headD 0 &&& 0x01 = 0 := by
    intro hbit
    rw [secDecryptFrame_other h.1 hbit] at hd
    cases hd
  obtain ⟨c, heq⟩ := @secDecryptFrame_complete encrypt _ src _ hlt h hbit hlevel
  rw [heq] at hd
  split at hd
  · cases hd
  next hwrong =>
    obtain rfl := Except.ok.inj (Except.ok.inj hd)
    rw [drop_left, take_left' length_plainOf]
    exact Classical.byContradiction fun hne => hwrong ⟨hreq, hne⟩

theorem ccmFlag_ne (h : reqMac level = true) : ccmFlag (ofNat (macSize level)) 2 ≠ stdFlags (macSize level) := by
  revert h
  cases level <;> decide

theorem stdB0_ne {len : UInt16} {n : Nat} (h : reqMac ctx.securityLevel = true) :
    (initCbcB0 ctx.frameCounter ctx.securityLevel len (ofNat (macSize ctx.securityLevel)) src).bytes ≠
      stdB0 ctx src n := by
  intro heq
  have hbyte := congrArg (fun b : Block16 => b[0]) heq
  unfold CcmBlock.bytes stdB0 at hbyte
  rw [getElem_ofList, getElem_ofList] at hbyte
  exact ccmFlag_ne h hbyte

theorem length_blocks {bs : List UInt8} : (blocks 16 bs).length = blockCount 16 bs.length := by
  rw [blocks, length_map, length_range]

/-- **With a MIC some block cipher gives another one** than the standard. -/
theorem exists_mic_ne (hreq : reqMac ctx.securityLevel = true) (ha : a.length < 2 ^ 16) (hm : m.length < 2 ^ 16) :
    ∃ cipher : Equiv.Perm Block16, micOf cipher ctx.securityLevel ctx.frameCounter src a m ≠ stdMic cipher ctx src a m := by
  -- The data and the message of the standard, and their first block.
  obtain ⟨a', m', ha', hm', hstd⟩ : ∃ a' m' : List UInt8, a'.length < 2 ^ 17 ∧ m'.length < 2 ^ 16 ∧
      ∀ enc : Block16 → Block16, stdMic enc ctx src a m =
        xorBytes (stdTag enc ctx src a' m') (stdStream enc ctx src 0).toList := by
    cases henc : reqEncryption ctx.securityLevel with
    | true =>
      refine ⟨a, m, by omega, hm, fun enc => ?_⟩
      rw [stdMic, if_pos henc]
    | false =>
      refine ⟨a ++ m, [], by rw [length_append]; omega, by decide, fun enc => ?_⟩
      rw [stdMic, if_neg (by rw [henc]; decide)]
  have hmac : 0 < macSize ctx.securityLevel := by
    revert hreq
    cases ctx.securityLevel <;> decide
  have hsmall : 2 * ((blocks 16 (toBytes 2 a.length ++ a) ++ blocks 16 m).length +
      (blocks 16 (stdLength a'.length ++ a') ++ blocks 16 m').length) + 4 < 256 ^ 15 := by
    have hprefix : (stdLength a'.length).length ≤ 6 := by
      unfold stdLength
      split
      · rw [length_toBytes]
        decide
      · rw [length_cons, length_cons, length_toBytes]
    rw [length_append, length_append, length_blocks, length_blocks, length_blocks, length_blocks,
      length_append, length_append, length_toBytes]
    unfold blockCount
    omega
  obtain ⟨cipher, hne⟩ := exists_chain_ne (@stdB0_ne ctx src (UInt16.ofNat m.length) m'.length hreq) hsmall
  refine ⟨cipher, fun heq => hne ?_⟩
  have hcounter : (initCtrA0 ctx.frameCounter ctx.securityLevel src).bytes =
      { initCtrA0 ctx.frameCounter ctx.securityLevel src with counter := UInt16.ofNat 0 }.bytes := rfl
  rw [micOf_eq, hstd, hcounter, @bytes_initCtrA0 cipher ctx src 0 (by decide)] at heq
  have htake : ∀ b : Block16, (b.toList.take (macSize ctx.securityLevel)).length ≤
      (stdStream cipher ctx src 0).toList.length := by
    intro b
    rw [length_take, Vector.length_toList, Vector.length_toList]
    omega
  have htag := congrArg (fun l => xorBytes l (stdStream cipher ctx src 0).toList) heq
  rw [xorBytes_cancel (htake _), stdTag, xorBytes_cancel (htake _)] at htag
  have hbyte := congrArg (fun l => l[0]?) htag
  rw [getElem?_take_of_lt hmac, getElem?_take_of_lt hmac, getElem?_eq_getElem (by
      rw [Vector.length_toList]; decide), getElem?_eq_getElem (by rw [Vector.length_toList]; decide)] at hbyte
  exact Option.some.inj hbyte

/-- **Exactly when frames are secured right:** there is no MIC to be sent, and the frame that comes in
has in it what its security control field announces. -/
theorem sec_right_iff (hdata : IsData header) (hlevel : ctx.securityLevel ≠ .none)
    (hfc : ctx.frameCounter ≠ 0xFFFFFFFF) (hheader : header.length < 256) (hpayload : payload.length < 2 ^ 16)
    (hlt : frame.length < 2 ^ 16) (hsize : headerSize < 256) :
    SecRight ctx header payload src frame headerSize ↔
      reqMac ctx.securityLevel = false ∧ Complete frame headerSize := by
  constructor
  · intro h
    refine ⟨?_, (@inside_iff (Equiv.refl Block16) frame src headerSize hlt hsize).mp (h.inside (Equiv.refl _))⟩
    rw [← Bool.not_eq_true]
    intro hreq
    have ha : (header ++ setAuxHdr ctx).length < 2 ^ 16 := by
      have := @getAuxHdrSize_le ctx.securityLevel ctx.keyIdMode
      rw [List.length_append, length_setAuxHdr hlevel]
      omega
    obtain ⟨cipher, hne⟩ := @exists_mic_ne ctx _ _ src hreq ha hpayload
    have heq := (@secEncryptFrame_eq cipher ctx header payload src hdata hlevel hfc).symm.trans (h.encrypts cipher)
    have hmic := congrArg Encrypted.mic (Except.ok.inj (Except.ok.inj heq))
    rw [if_pos hreq] at hmic
    exact hne hmic
  · rintro ⟨hreq, hcomplete⟩
    refine ⟨fun cipher => ?_, fun cipher e he hshort => ?_, fun cipher => (inside_iff hlt hsize).mpr hcomplete,
      fun cipher d hd => authentic_of_complete hlt hcomplete hd⟩
    · have henc : reqEncryption ctx.securityLevel = true := by
        revert hreq hlevel
        cases ctx.securityLevel <;> decide
      have hmac : macSize ctx.securityLevel = 0 := by
        revert hreq
        cases ctx.securityLevel <;> decide
      have hnone : stdMic cipher ctx src (header ++ setAuxHdr ctx) payload = [] := by
        rw [stdMic, if_pos henc, stdTag, hmac, List.take_zero]
        rfl
      rw [secEncryptFrame_eq hdata hlevel hfc, if_pos henc, if_neg (by rw [hreq]; decide), hnone, stdPayload, if_pos henc,
        ctr_eq_std hpayload]
    · rw [secEncryptFrame_eq hdata hlevel hfc] at he
      obtain rfl := Except.ok.inj (Except.ok.inj he)
      exact secDecryptFrame_secured hdata hlevel rfl rfl hshort

/-- A frame that is encrypted and has no MIC, and one that comes in. -/
theorem sec_right_iff_encrypted : SecRight ⟨.enc, .implicit, 0, .replicate 8 0, 0⟩ [0x41] [0x2a] (.replicate 8 0)
    [0x41, 0x05, 0x00, 0x00, 0x00, 0x00, 0x2a, 0x00, 0x00, 0x00, 0x00] 1 :=
  (sec_right_iff ⟨by decide, by decide⟩ (by decide) (by decide) (by decide) (by decide) (by decide) (by decide)).mpr
    ⟨rfl, by decide, fun _ => ⟨by decide, fun _ => by decide⟩⟩

/-- The default context, with `ENC_MIC64`. -/
theorem not_sec_right : ¬ SecRight ⟨.encMic64, .implicit, 0, .replicate 8 0, 0⟩ [0x41] [0x2a] (.replicate 8 0)
    [0x41, 0x05, 0x00, 0x00, 0x00, 0x00, 0x2a, 0x00, 0x00, 0x00, 0x00] 1 := by
  intro h
  obtain ⟨cipher, hne⟩ := @exists_mic_ne ⟨.encMic64, .implicit, 0, .replicate 8 0, 0⟩
    ([0x41] ++ setAuxHdr ⟨.encMic64, .implicit, 0, .replicate 8 0, 0⟩) [0x2a] (.replicate 8 0) rfl (by decide) (by decide)
  have heq := (@secEncryptFrame_eq cipher _ [0x41] [0x2a] _ ⟨by decide, by decide⟩ (by decide) (by decide)).symm.trans
    (h.encrypts cipher)
  exact hne (congrArg Encrypted.mic (Except.ok.inj (Except.ok.inj heq)))

end Riot.Ieee802154
