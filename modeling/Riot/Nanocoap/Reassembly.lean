import Riot.Nanocoap.Blockwise

/-!
# Bodies served in blocks

The payloads of consecutive blocks are the windows of the body, and put together
they are the body, as long as no block ends beyond the largest `size_t`.
-/

namespace Riot.Nanocoap

open Riot.Lib Memory List Nat Option Prod
open Riot.Core (LsbImpl bitarithmLsb)

variable {impl : LsbImpl} {w e b blksize : Nat} {s s' : BuildState} {os : List NumberedOption}
  {cs : List Chunk} {body : List UInt8} {served : Served} {slicer : BlockSlicer} {more : Bool}

/-! ## One block -/

theorem payloadMarker_frame (hsize : s.builder.size ≤ uint16Max)
    (h : coapBuilderAddPayload w s [] = (0, s')) :
    s'.builder.buf = s.builder.buf ∧ s'.builder.size = s.builder.size ∧ s.builder.pos ≤ s'.builder.pos ∧
      ∀ i < s.builder.buf + s.builder.pos, s'.mem i = s.mem i := by
  have hno : (-EOVERFLOW : Int) ≠ 0 := by decide
  unfold coapBuilderAddPayload at h
  rcases ha : coapBuilderAllocatePayload w s ([] : List UInt8).length with ⟨dest, s1⟩
  rw [ha] at h
  dsimp only at h
  split at h
  · exact absurd (mk.inj h).1 hno
  rename_i hdest
  rw [← (mk.inj h).2, store_nil]
  unfold coapBuilderAllocatePayload at ha
  dsimp only at ha
  split at ha
  · exact absurd (mk.inj ha).1.symm hdest
  rename_i builder hadv
  obtain ⟨rfl, -⟩ := builderAdvancePos_true hsize hadv
  split at ha
  · rw [← (mk.inj ha).2]
    exact ⟨rfl, rfl, le_add_right _ _, fun i hi => store_of_lt hi⟩
  · rw [← (mk.inj ha).2]
    exact ⟨rfl, rfl, le_add_right _ _, fun _ _ => rfl⟩

theorem serveBlock_cases (h : serveBlock impl w s blksize os cs b = some served) :
    ∃ val s1 s2 s3 s4 slicer mem, slicer2blkopt impl w (coapBlockSlicerInit w b blksize) true = some val ∧
      coapOptPut w s coapOptBlock2 (encodeUint val) = some (0, s1) ∧ putOptions w s1 os = some s2 ∧
      coapBuilderAddPayload w s2 [] = (0, s3) ∧
      putChunks w s3 { coapBlockSlicerInit w b blksize with
        optValue := s1.builder.buf + s1.builder.pos - (encodeUint val).length } cs = some (s4, slicer) ∧
      coapBlockFinish impl w s4.mem slicer = some (served.more, mem) ∧
      served.payload = slice mem (s3.builder.buf + s3.builder.pos) (s4.builder.pos - s3.builder.pos) ∧
      served.blockopt = slice mem slicer.optValue (s1.builder.buf + s1.builder.pos - slicer.optValue) := by
  unfold serveBlock at h
  split at h
  case h_2 => exact absurd h (by simp)
  rename_i s1 slicer1 hput
  simp only [coapOptPutBlock, bind_eq_some_iff, map_eq_some_iff] at hput
  obtain ⟨val, hval, ⟨err, s0⟩, hopt, hput⟩ := hput
  split at hput
  · rename_i herr
    exact absurd (mk.inj hput).1 herr
  rename_i herr
  rw [not_not] at herr
  subst herr
  obtain ⟨-, hput⟩ := mk.inj hput
  cases hput
  split at h
  · exact absurd h (by simp)
  rename_i s2 hos
  split at h
  case h_2 => exact absurd h (by simp)
  rename_i s3 hmark
  split at h
  · exact absurd h (by simp)
  rename_i s4 slicer hchunks
  obtain ⟨⟨more, mem⟩, hfin, rfl⟩ := map_eq_some_iff.mp h
  exact ⟨val, s0, s2, s3, s4, slicer, mem, hval, hopt, hos, hmark, hchunks, hfin, rfl, rfl⟩

theorem serveBlock_more (hbody : content cs = body) (hlt : body.length < 2 ^ w)
    (h : serveBlock impl w s blksize os cs b = some served) :
    served.more = decide ((coapBlockSlicerInit w b blksize).stop < body.length) := by
  obtain ⟨val, s1, s2, s3, s4, slicer, mem, -, -, -, -, hchunks, hfin, -, -⟩ := serveBlock_cases h
  have hcur : (coapBlockSlicerInit w b blksize).cur = 0 := rfl
  have hslicer := putChunks_slicer (by dsimp only; rw [hbody, hcur]; omega) hchunks
  unfold coapBlockFinish at hfin
  split at hfin
  · exact absurd hfin (by simp)
  obtain ⟨blk, -, hmore⟩ := map_eq_some_iff.mp hfin
  rw [← (mk.inj hmore).1, hslicer]
  rw [hcur, zero_add, hbody]

theorem coapBlockSlicerInit_eq (hlt : (b + 1) * blksize < 2 ^ w) :
    (coapBlockSlicerInit w b blksize).start = b * blksize ∧
      (coapBlockSlicerInit w b blksize).stop = (b + 1) * blksize := by
  rw [succ_mul] at hlt ⊢
  unfold coapBlockSlicerInit
  dsimp only
  rw [mod_eq_of_lt (show b * blksize < 2 ^ w by omega), mod_eq_of_lt hlt]
  exact ⟨rfl, rfl⟩

/-- **A block that does not wrap around is the window of the body**, and its option says so. -/
theorem serveBlock_spec (h1 : 4 ≤ e) (h2 : e ≤ 10) (hb : b < 2 ^ 28) (hlt : (b + 1) * 2 ^ e < 2 ^ w)
    (hbody : content cs = body) (hlen : body.length < 2 ^ w) (hsize : s.builder.size ≤ uint16Max)
    (hnum : ∀ o ∈ os, o.1 ≤ uint16Max) (h : serveBlock impl w s (2 ^ e) os cs b = some served) :
    served.payload = window (b * 2 ^ e) ((b + 1) * 2 ^ e) 0 body ∧
      decodeBlockopt served.blockopt = some (b, e - 4, served.more) := by
  obtain ⟨val, s1, s2, s3, s4, slicer, mem, hval, hopt, hos, hmark, hchunks, hfin, hpay, hblk⟩ :=
    serveBlock_cases h
  obtain ⟨hstart, hstop⟩ := coapBlockSlicerInit_eq hlt
  have hcur : (coapBlockSlicerInit w b (2 ^ e)).cur = 0 := rfl
  rw [slicer2blkopt_eq h1 h2 hb hlt hstart hstop] at hval
  cases hval
  -- the builder only moves on
  obtain ⟨-, -, hfit, hs1⟩ := @coapOptPut_spec w s s1 (coapOptBlock2, encodeUint (blkopt b (e - 4) true))
    (show coapOptBlock2 ≤ uint16Max by decide) hsize hopt
  have hsize1 : s1.builder.size ≤ uint16Max := by
    rw [hs1]
    exact hsize
  have hpos1 : (encodeUint (blkopt b (e - 4) true)).length ≤ s1.builder.pos ∧
      s1.builder.pos ≤ s1.builder.size := by
    rw [hs1]
    dsimp only at hfit ⊢
    rw [length_encodeOption] at hfit ⊢
    omega
  obtain ⟨-, hfit2, hs2⟩ := putOptions_spec hnum hsize1 hpos1.2 hos
  have hs2' : s2.builder.buf = s1.builder.buf ∧ s1.builder.pos ≤ s2.builder.pos ∧
      s2.builder.size = s1.builder.size := by
    rw [hs2]
    exact ⟨rfl, le_add_right _ _, rfl⟩
  obtain ⟨hbuf3, hsize3, hpos3, -⟩ := payloadMarker_frame (by rw [hs2'.2.2]; exact hsize1) hmark
  have hcur' : slicer = { coapBlockSlicerInit w b (2 ^ e) with
      cur := body.length
      optValue := s1.builder.buf + s1.builder.pos - (encodeUint (blkopt b (e - 4) true)).length } := by
    have hslicer := putChunks_slicer (by dsimp only; rw [hbody, hcur]; omega) hchunks
    rw [hslicer]
    rw [hcur, zero_add, hbody]
  have hs4 := putChunks_spec (by dsimp only; rw [hbody, hcur]; omega)
    (by dsimp only; rw [hstart, hstop, succ_mul]; exact le_add_right _ _)
    (by dsimp only; rw [hstop]; exact hlt)
    (by rw [hsize3, hs2'.2.2]; exact hsize1) hchunks
  rw [hbody, hcur, hstart, hstop] at hs4
  -- the final value of the option replaces the first one
  unfold coapBlockFinish at hfin
  split at hfin
  · exact absurd hfin (by simp)
  obtain ⟨blk, hblkopt, hmem⟩ := map_eq_some_iff.mp hfin
  obtain ⟨hmore, rfl⟩ := mk.inj hmem
  rw [hmore, slicer2blkopt_eq h1 h2 hb hlt (by rw [hcur']; exact hstart) (by rw [hcur']; exact hstop)] at hblkopt
  cases hblkopt
  have hvlen := @length_encodeUint_blkopt b (e - 4) served.more (by omega)
  have hopt : slicer.optValue + (encodeUint (blkopt b (e - 4) true)).length =
      s1.builder.buf + s1.builder.pos := by
    rw [hcur']
    dsimp only
    omega
  constructor
  · rw [hpay, hs4]
    unfold BuildState.appended
    rw [Nat.add_sub_cancel_left]
    refine Holds.slice_eq (Holds.store holds_store (.inr ?_))
    omega
  · have hlen' : s1.builder.buf + s1.builder.pos - slicer.optValue =
        (if encodeUint (blkopt b (e - 4) served.more) = [] then [0]
          else encodeUint (blkopt b (e - 4) served.more)).length := by
      omega
    rw [hblk, hlen', Holds.slice_eq holds_store]
    exact decodeBlockopt_encode hb (by omega)

/-! ## All blocks -/

variable {st : Nat → BuildState} {opts : Nat → List NumberedOption} {chunks : Nat → List Chunk}
  {blocks : Nat → Served}

theorem coapBlockSlicerInit_cases (he : e ≤ w) (b : Nat) : ∃ k,
    (coapBlockSlicerInit w b (2 ^ e)).start = k * 2 ^ e ∧
      ((k + 1) * 2 ^ e < 2 ^ w ∧ (coapBlockSlicerInit w b (2 ^ e)).stop = (k + 1) * 2 ^ e ∨
        (k + 1) * 2 ^ e = 2 ^ w ∧ (coapBlockSlicerInit w b (2 ^ e)).stop = 0) := by
  obtain ⟨d, rfl⟩ := Nat.exists_eq_add_of_le he
  have hpow : 2 ^ (e + d) = 2 ^ d * 2 ^ e := by rw [pow_add, mul_comm]
  have hk : b % 2 ^ d + 1 ≤ 2 ^ d := Nat.mod_lt b (Nat.two_pow_pos d)
  have hstart : (coapBlockSlicerInit (e + d) b (2 ^ e)).start = b % 2 ^ d * 2 ^ e := by
    show b * 2 ^ e % 2 ^ (e + d) = _
    rw [hpow, mul_mod_mul_right]
  have hstop : (coapBlockSlicerInit (e + d) b (2 ^ e)).stop = (b % 2 ^ d + 1) * 2 ^ e % 2 ^ (e + d) := by
    rw [succ_mul, ← hstart]
    rfl
  refine ⟨b % 2 ^ d, hstart, ?_⟩
  rw [hstop]
  rcases lt_or_eq_of_le hk with hlt | heq
  · have hlt' : (b % 2 ^ d + 1) * 2 ^ e < 2 ^ (e + d) := by
      rw [hpow]
      exact Nat.mul_lt_mul_of_pos_right hlt (Nat.two_pow_pos e)
    exact .inl ⟨hlt', mod_eq_of_lt hlt'⟩
  · rw [heq, ← hpow, mod_self]
    exact .inr ⟨rfl, rfl⟩

theorem serveBlock_more_of_long (he : e ≤ w) (hlong : 2 ^ w - 2 ^ e < body.length) (hbody : content cs = body)
    (hlen : body.length < 2 ^ w) (h : serveBlock impl w s (2 ^ e) os cs b = some served) :
    served.more = true := by
  rw [serveBlock_more hbody hlen h]
  refine decide_eq_true (lt_of_le_of_lt ?_ hlong)
  obtain ⟨k, -, ⟨hlt, hstop⟩ | ⟨-, hstop⟩⟩ := coapBlockSlicerInit_cases he b
  · rw [hstop]
    obtain ⟨d, rfl⟩ := Nat.exists_eq_add_of_le he
    rw [pow_add, mul_comm] at hlt
    have hk := lt_of_mul_lt_mul_left hlt
    rw [pow_add, mul_comm, ← mul_sub_one]
    exact mul_le_mul_left _ (by omega)
  · rw [hstop]
    exact zero_le _

/-- **The blocks of a body put together are the body**, and the last one is the block
that holds its last byte. -/
theorem reassembled_of_short (h1 : 4 ≤ e) (h2 : e ≤ 10) (hw : 32 ≤ w) (hbody : ∀ b, content (chunks b) = body)
    (hlen : body.length < 2 ^ 32) (hshort : body.length ≤ 2 ^ w - 2 ^ e)
    (hsize : ∀ b, (st b).builder.size ≤ uint16Max) (hnum : ∀ b, ∀ o ∈ opts b, o.1 ≤ uint16Max)
    (h : ∀ b, (∀ b' < b, (blocks b').more = true) →
      serveBlock impl w (st b) (2 ^ e) (opts b) (chunks b) b = some (blocks b)) :
    Reassembled blocks (e - 4) body := by
  have hpos : 0 < 2 ^ e := Nat.two_pow_pos e
  have hw32 : 2 ^ 32 ≤ 2 ^ w := Nat.pow_le_pow_right (by decide) hw
  have h16 : 2 ^ 4 ≤ 2 ^ e := Nat.pow_le_pow_right (by decide) h1
  -- the last block that is not empty, or the first one
  let n := (body.length - 1) / 2 ^ e
  have hn : n * 2 ^ e ≤ body.length - 1 := div_mul_le_self _ _
  have hn' : body.length ≤ (n + 1) * 2 ^ e := by
    have hlt : body.length - 1 < (n + 1) * 2 ^ e := (div_lt_iff_lt_mul hpos).mp (lt_succ_self n)
    omega
  have hn28 : n < 2 ^ 28 := (div_lt_iff_lt_mul hpos).mpr (by omega)
  have h1024 : 2 ^ e ≤ 2 ^ 10 := Nat.pow_le_pow_right (by decide) h2
  have hstop : ∀ b ≤ n, (b + 1) * 2 ^ e < 2 ^ w := by
    intro b hb
    have hle : (b + 1) * 2 ^ e ≤ n * 2 ^ e + 2 ^ e := by
      rw [← succ_mul]
      exact mul_le_mul_right _ (succ_le_succ hb)
    by_cases h0 : body.length = 0
    · omega
    · omega
  have hmore : ∀ b ≤ n, serveBlock impl w (st b) (2 ^ e) (opts b) (chunks b) b = some (blocks b) →
      (blocks b).more = decide (b < n) := by
    intro b hb hserve
    rw [serveBlock_more (hbody b) (by omega) hserve, (coapBlockSlicerInit_eq (hstop b hb)).2]
    by_cases hlt : b < n
    · have hle : (b + 1) * 2 ^ e ≤ n * 2 ^ e := mul_le_mul_right _ hlt
      have h0 : 0 < (b + 1) * 2 ^ e := mul_pos (succ_pos b) hpos
      rw [decide_eq_true hlt]
      exact decide_eq_true (by omega)
    · obtain rfl : b = n := by omega
      rw [decide_eq_false hlt, decide_eq_false (by omega)]
  have hserved : ∀ b ≤ n, serveBlock impl w (st b) (2 ^ e) (opts b) (chunks b) b = some (blocks b) := by
    intro b
    induction b using Nat.strong_induction_on with
    | _ b ih =>
      intro hb
      refine h b fun b' hlt => ?_
      rw [hmore b' (by omega) (ih b' hlt (by omega))]
      exact decide_eq_true (by omega)
  have hspec : ∀ b ≤ n, (blocks b).payload = window (b * 2 ^ e) ((b + 1) * 2 ^ e) 0 body ∧
      decodeBlockopt (blocks b).blockopt = some (b, e - 4, (blocks b).more) := by
    intro b hb
    exact serveBlock_spec h1 h2 (by omega) (hstop b hb) (hbody b) (by omega) (hsize b) (hnum b)
      (hserved b hb)
  refine ⟨n, ?_, ?_, ?_, fun b hb => (hspec b hb).2⟩
  · intro b hb
    rw [hmore b (by omega) (hserved b (by omega))]
    exact decide_eq_true hb
  · rw [hmore n (by omega) (hserved n (by omega))]
    exact decide_eq_false (by omega)
  · have hwindows : ((range (n + 1)).map fun b => (blocks b).payload) =
        (range (n + 1)).map fun b => window (b * 2 ^ e) ((b + 1) * 2 ^ e) 0 body := by
      refine map_congr_left fun b hb => (hspec b ?_).1
      have := mem_range.mp hb
      omega
    rw [hwindows, flatten_windows, take_of_length_le hn']

/-! ## Blocks for which there is room -/

theorem builderAdvancePos_eq {builder : Builder} {size : Nat} (hw : 32 ≤ w) (hsize : builder.size ≤ uint16Max)
    (hfit : builder.pos + size ≤ builder.size) :
    builderAdvancePos w builder size = (true, { builder with pos := builder.pos + size }) := by
  have hmax : uint16Max = 65535 := rfl
  have hw32 : 2 ^ 32 ≤ 2 ^ w := Nat.pow_le_pow_right (by decide) hw
  simp only [builderAdvancePos]
  rw [if_neg (by omega), if_neg (by omega), mod_eq_of_lt (by omega), add_comm]

theorem coapOptPut_isSome {onum : Nat} {odata : List UInt8} (hw : 32 ≤ w) (hsize : s.builder.size ≤ uint16Max)
    (hlast : s.builder.lastOptNum ≤ onum) (hroom : s.builder.pos + 5 + odata.length ≤ s.builder.size) :
    ∃ s', coapOptPut w s onum odata = some (0, s') := by
  have hdelta := @length_fieldExt_le ((onum - s.builder.lastOptNum) % 2 ^ 16)
  have hvalue := @length_fieldExt_le odata.length
  rw [← optHeaderExtraSize_eq] at hdelta hvalue
  have hadv := @builderAdvancePos_eq w { s.builder with lastOptNum := onum }
    (1 + optHeaderExtraSize ((onum - s.builder.lastOptNum) % 2 ^ 16) + optHeaderExtraSize odata.length +
      odata.length) hw hsize (by dsimp only; omega)
  unfold coapOptPut
  rw [if_neg (by omega), if_neg (by omega)]
  dsimp only
  rw [hadv]
  exact ⟨_, rfl⟩

theorem slicer2blkopt_isSome (h1 : 4 ≤ e) (h2 : e ≤ 10) (hw : 32 ≤ w) (hw' : w < 32 + e)
    (hstart : slicer.start = (coapBlockSlicerInit w b (2 ^ e)).start)
    (hstop : slicer.stop = (coapBlockSlicerInit w b (2 ^ e)).stop) :
    ∃ val, slicer2blkopt impl w slicer more = some val := by
  have hpos : 0 < 2 ^ e := Nat.two_pow_pos e
  have hlt : 2 ^ e < 2 ^ w := Nat.pow_lt_pow_right (by decide) (by omega)
  obtain ⟨k, hk, hcases⟩ := coapBlockSlicerInit_cases (show e ≤ w by omega) b
  rw [succ_mul] at hcases
  have hsize : (slicer.stop + 2 ^ w - slicer.start) % 2 ^ w = 2 ^ e := by
    rw [hstart, hstop, hk]
    rcases hcases with ⟨-, hstop⟩ | ⟨heq, hstop⟩
    · have hsub : k * 2 ^ e + 2 ^ e + 2 ^ w - k * 2 ^ e = 2 ^ e + 2 ^ w := by omega
      rw [hstop, hsub, add_mod_right, mod_eq_of_lt hlt]
    · have hsub : 0 + 2 ^ w - k * 2 ^ e = 2 ^ e := by omega
      rw [hstop, hsub, mod_eq_of_lt hlt]
  have hk32 : k < 2 ^ 32 := by
    have hle : k * 2 ^ e < 2 ^ 32 * 2 ^ e := by
      rw [← pow_add]
      have := Nat.pow_lt_pow_right (show 1 < 2 by decide) hw'
      omega
    exact Nat.lt_of_mul_lt_mul_right hle
  have hkw : 2 ^ 32 ≤ 2 ^ w := Nat.pow_le_pow_right (by decide) hw
  unfold slicer2blkopt
  dsimp only
  rw [hsize, hstart, hk, countBlocks_mul hpos (by omega) (by omega) (by omega), bind_some,
    size2szx_two_pow h1 h2]
  exact ⟨_, rfl⟩

theorem blockwisePutBytes_le {n : Nat} (he : e ≤ w)
    (hstart : slicer.start = (coapBlockSlicerInit w b (2 ^ e)).start)
    (hstop : slicer.stop = (coapBlockSlicerInit w b (2 ^ e)).stop) (hcur : slicer.cur = 0) (hn : n < 2 ^ w) :
    (blockwisePutBytes w slicer n).2.1 ≤ 2 ^ e := by
  have hoffset : (if slicer.cur < slicer.start then slicer.start - slicer.cur else 0) = slicer.start := by
    split <;> omega
  have hpos : 0 < 2 ^ e := Nat.two_pow_pos e
  obtain ⟨k, hk, hcases⟩ := coapBlockSlicerInit_cases he b
  rw [succ_mul] at hcases
  unfold blockwisePutBytes
  dsimp only
  rw [hoffset, hcur, zero_add, zero_add, mod_eq_of_lt hn, hstart, hstop, hk]
  rcases hcases with ⟨hlt, hstop⟩ | ⟨-, hstop⟩
  · have hsub : k * 2 ^ e + 2 ^ e + 2 ^ w - k * 2 ^ e = 2 ^ e + 2 ^ w := by omega
    rw [hstop, mod_eq_of_lt (show k * 2 ^ e < 2 ^ w by omega), hsub, add_mod_right,
      mod_eq_of_lt (show 2 ^ e < 2 ^ w by omega)]
    split_ifs
    · exact zero_le _
    · exact le_refl _
    · dsimp only
      omega
  · rw [hstop, if_pos (.inl le_rfl)]
    exact zero_le _

theorem coapBuilderAddPayload_marker (hw : 32 ≤ w) (hsize : s.builder.size ≤ uint16Max)
    (hlast : s.builder.lastOptNum < uint16Max) (hroom : s.builder.pos + 1 ≤ s.builder.size) :
    ∃ s', coapBuilderAddPayload w s [] = (0, s') ∧ s'.builder.size = s.builder.size ∧
      s'.builder.pos = s.builder.pos + 1 := by
  have hw32 : 2 ^ 32 ≤ 2 ^ w := Nat.pow_le_pow_right (by decide) hw
  have halloc : coapBuilderAllocatePayload w s ([] : List UInt8).length = (s.builder.buf + s.builder.pos + 1,
        { mem := store s.mem (s.builder.buf + s.builder.pos) [coapPayloadMarker]
          builder := { s.builder with pos := s.builder.pos + 1, lastOptNum := uint16Max } }) := by
    unfold coapBuilderAllocatePayload
    dsimp only
    rw [if_pos (Nat.ne_of_lt hlast), length_nil, Nat.mod_eq_of_lt (by omega),
      builderAdvancePos_eq hw hsize hroom]
    dsimp only
    rw [if_pos (Nat.ne_of_lt hlast)]
  unfold coapBuilderAddPayload
  rw [halloc]
  dsimp only
  exact ⟨_, rfl, rfl, rfl⟩

theorem coapBlockwisePutBytes_isSome {xs : List UInt8} (hw : 32 ≤ w) (hsize : s.builder.size ≤ uint16Max)
    (hroom : s.builder.pos + (blockwisePutBytes w slicer xs.length).2.1 ≤ s.builder.size) :
    ∃ s' slicer', coapBlockwisePutBytes w s slicer xs = (0, s', slicer') := by
  unfold coapBlockwisePutBytes
  rcases hput : blockwisePutBytes w slicer xs.length with ⟨copyOffset, len, slicer'⟩
  rw [hput] at hroom
  dsimp only at hroom ⊢
  by_cases h0 : len = 0
  · rw [if_pos h0]
    exact ⟨_, _, rfl⟩
  · rw [if_neg h0, builderAdvancePos_eq hw hsize hroom]
    exact ⟨_, _, rfl⟩

/-- **A block is served if there is room for it.** -/
theorem serveBlock_isSome (h1 : 4 ≤ e) (h2 : e ≤ 10) (hw : 32 ≤ w) (hw' : w < 32 + e)
    (hlast : s.builder.lastOptNum ≤ coapOptBlock2) (hsize : s.builder.size ≤ uint16Max) (hbuf : 0 < s.builder.buf)
    (hroom : s.builder.pos + 10 + 2 ^ e ≤ s.builder.size) (hlen : body.length < 2 ^ w) (b : Nat) :
    ∃ served, serveBlock impl w s (2 ^ e) [] [.bytes body] b = some served := by
  have hpos : 0 < 2 ^ e := Nat.two_pow_pos e
  obtain ⟨val, hval⟩ := @slicer2blkopt_isSome impl w e b (coapBlockSlicerInit w b (2 ^ e)) true h1 h2 hw hw' rfl rfl
  have hvlen : (encodeUint val).length ≤ 4 := encodeUint_length_le
  have hblock2 : coapOptBlock2 < uint16Max := by decide
  obtain ⟨s1, hopt⟩ := @coapOptPut_isSome w s coapOptBlock2 (encodeUint val) hw hsize hlast (by omega)
  obtain ⟨-, -, -, hs1⟩ := @coapOptPut_spec w s s1 (coapOptBlock2, encodeUint val) (le_of_lt hblock2) hsize hopt
  have hs1' : s1.builder.buf = s.builder.buf ∧ s1.builder.size = s.builder.size ∧
      s1.builder.lastOptNum = coapOptBlock2 ∧ s1.builder.pos ≤ s.builder.pos + 9 ∧
      (encodeUint val).length ≤ s1.builder.pos := by
    have hdelta := @length_fieldExt_le (coapOptBlock2 - s.builder.lastOptNum)
    have hvalue := @length_fieldExt_le (encodeUint val).length
    rw [hs1]
    dsimp only
    rw [length_encodeOption]
    exact ⟨rfl, rfl, rfl, by omega, by omega⟩
  obtain ⟨s3, hmark, hsize3, hpos3⟩ := @coapBuilderAddPayload_marker w s1 hw (by omega) (by omega) (by omega)
  -- the body
  let slicer : BlockSlicer := { coapBlockSlicerInit w b (2 ^ e) with
    optValue := s1.builder.buf + s1.builder.pos - (encodeUint val).length }
  have hle : (blockwisePutBytes w slicer body.length).2.1 ≤ 2 ^ e :=
    blockwisePutBytes_le (by omega) rfl rfl rfl hlen
  obtain ⟨s4, slicer', hput⟩ := @coapBlockwisePutBytes_isSome w s3 slicer body hw (by omega) (by omega)
  have hslicer' := @putChunk_slicer w s3 s4 slicer slicer' (.bytes body) 0 hput
  have hchunks : putChunks w s3 slicer [.bytes body] = some (s4, slicer') := by
    rw [putChunks, putChunk, hput]
    rfl
  obtain ⟨blk, hblk⟩ := @slicer2blkopt_isSome impl w e b slicer' (decide (slicer'.stop < slicer'.cur))
    h1 h2 hw hw' (by rw [hslicer']) (by rw [hslicer'])
  have hfin : ∃ r, coapBlockFinish impl w s4.mem slicer' = some r := by
    have h0 : slicer'.optValue ≠ 0 := by
      rw [hslicer']
      show s1.builder.buf + s1.builder.pos - (encodeUint val).length ≠ 0
      omega
    unfold coapBlockFinish
    rw [if_neg h0]
    dsimp only
    rw [hblk]
    exact ⟨_, rfl⟩
  obtain ⟨⟨more, mem⟩, hfin⟩ := hfin
  have hputBlock : coapOptPutBlock impl w s (coapBlockSlicerInit w b (2 ^ e)) coapOptBlock2 =
      some (0, s1, slicer) := by
    rw [coapOptPutBlock, hval, bind_some, hopt]
    rfl
  simp only [serveBlock, hputBlock, putOptions, hmark, hchunks, hfin, map_some]
  exact ⟨_, rfl⟩

/-! ## Reassembly -/

/-- **Blocks of a body.** The blocks served until there are no more are the body, and have
the options they should have, exactly if no block of it ends beyond the largest `size_t`. -/
theorem blocks_reassembled_iff (impl : LsbImpl) (w e : Nat) (st : Nat → BuildState)
    (opts : Nat → List NumberedOption) (chunks : Nat → List Chunk) (blocks : Nat → Served) (body : List UInt8)
    (hw : 32 ≤ w) (h₁ : 4 ≤ e) (h₂ : e ≤ 10) (hlen : body.length < 2 ^ 32) (hbody : ∀ b, content (chunks b) = body)
    (hsize : ∀ b, (st b).builder.size ≤ uint16Max) (hnum : ∀ b, ∀ o ∈ opts b, o.1 ≤ uint16Max)
    (h : ∀ b, (∀ b' < b, (blocks b').more = true) →
      serveBlock impl w (st b) (2 ^ e) (opts b) (chunks b) b = some (blocks b)) :
    Reassembled blocks (e - 4) body ↔ body.length ≤ 2 ^ w - 2 ^ e := by
  constructor
  · rintro ⟨n, hmore, hlast, -, -⟩
    by_contra hlong
    have hw32 : 2 ^ 32 ≤ 2 ^ w := Nat.pow_le_pow_right (by decide) hw
    rw [serveBlock_more_of_long (by omega) (by omega) (hbody n) (by omega) (h n hmore)] at hlast
    exact absurd hlast (by decide)
  · exact fun hshort => reassembled_of_short h₁ h₂ hw hbody hlen hshort hsize hnum h

/-- An empty buffer at address 1. -/
def emptyBuild : BuildState := { mem := fun _ => 0, builder := { buf := 1, size := 64, pos := 0, lastOptNum := 0 } }

theorem serveBlock_emptyBuild (hlen : body.length < 2 ^ 32) (b : Nat) :
    ∃ served, serveBlock .builtin 32 emptyBuild (2 ^ 4) [] [.bytes body] b = some served :=
  serveBlock_isSome (by decide) (by decide) (by decide) (by decide) (by decide) (by decide) (by decide)
    (by decide) hlen b

/-- Twenty bytes in blocks of 16. -/
theorem blocks_reassembled_twenty : ∃ blocks : Nat → Served,
    (∀ b, serveBlock .builtin 32 emptyBuild (2 ^ 4) [] [.bytes (List.replicate 20 1)] b = some (blocks b)) ∧
      Reassembled blocks 0 (List.replicate 20 1) := by
  have hlen : (List.replicate 20 (1 : UInt8)).length < 2 ^ 32 := by decide
  choose blocks hblocks using serveBlock_emptyBuild hlen
  exact ⟨blocks, hblocks, (blocks_reassembled_iff .builtin 32 4 (fun _ => emptyBuild) (fun _ => [])
    (fun _ => [.bytes (List.replicate 20 1)]) blocks (List.replicate 20 1) (by decide) (by decide) (by decide) hlen
    (fun _ => rfl) (fun _ => by decide) (fun _ => by decide) (fun b _ => hblocks b)).mpr (by decide)⟩

/-- The last block of `2 ^ 32 - 1` bytes ends at 0, so there are always more. -/
theorem not_blocks_reassembled : ∃ blocks : Nat → Served,
    (∀ b, serveBlock .builtin 32 emptyBuild (2 ^ 4) [] [.bytes (List.replicate (2 ^ 32 - 1) 1)] b = some (blocks b)) ∧
      ¬ Reassembled blocks 0 (List.replicate (2 ^ 32 - 1) 1) := by
  have hlength : (List.replicate (2 ^ 32 - 1) (1 : UInt8)).length = 2 ^ 32 - 1 := List.length_replicate
  have hlen : (List.replicate (2 ^ 32 - 1) (1 : UInt8)).length < 2 ^ 32 := by omega
  choose blocks hblocks using serveBlock_emptyBuild hlen
  refine ⟨blocks, hblocks, ?_⟩
  rintro ⟨n, -, hlast, -, -⟩
  rw [serveBlock_more_of_long (by decide) (by omega) (List.append_nil _) hlen (hblocks n)] at hlast
  exact absurd hlast (by decide)

end Riot.Nanocoap
