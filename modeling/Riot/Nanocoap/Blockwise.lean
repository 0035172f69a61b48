import Riot.Nanocoap.Builder
import Riot.Core.Bitarithm
import Riot.Lib.Window

/-!
# Block-wise transfers (`nanocoap.c`)

A handler produces the whole body for each block that is asked for; the slicer
keeps the part that lies in the block. `size_t` is `w` bits wide, `unsigned` 32.
A violated assertion, and a loop that never ends, have no result.
-/

namespace Riot.Nanocoap

open Riot.Lib Memory List Nat Prod
open Riot.Core (LsbImpl bitarithmLsb)

def coapOptBlock2 : Nat := 23

/-- `coap_block_slicer_t` -/
structure BlockSlicer where
  start : Nat
  stop : Nat
  cur : Nat
  optValue : Nat

/-! ## The option value -/

def encodeUint (val : Nat) : List UInt8 := toBytes (byteCount 4 val) val

/-- `_size2szx`; the size is converted to `unsigned`. -/
def size2szx (impl : LsbImpl) (size : Nat) : Option Nat :=
  if 1024 < size then none
  else
    let szx := bitarithmLsb impl (BitVec.ofNat 32 size)
    if szx < 4 then none else some (szx - 4)

/-- The loop of `_slicer2blkopt`: one that has not ended after `2 ^ w` rounds never does. -/
def countBlocks (w blksize : Nat) : Nat → Nat → Nat → Option Nat
  | 0, start, blknum => if start = 0 then some blknum else none
  | fuel + 1, start, blknum =>
    if start = 0 then some blknum
    else countBlocks w blksize fuel ((start + 2 ^ w - blksize) % 2 ^ w) ((blknum + 1) % 2 ^ 32)

def slicer2blkopt (impl : LsbImpl) (w : Nat) (slicer : BlockSlicer) (more : Bool) : Option Nat :=
  let blksize := (slicer.stop + 2 ^ w - slicer.start) % 2 ^ w
  (countBlocks w blksize (2 ^ w) slicer.start 0).bind fun blknum =>
    (size2szx impl blksize).map fun szx => blknum <<< 4 % 2 ^ 32 ||| szx ||| if more then 8 else 0

/-- What `coap_get_blockopt` makes of an option value: block number, size exponent and
whether there are more blocks. -/
def decodeBlockopt (value : List UInt8) : Option (Nat × Nat × Bool) :=
  if 4 < value.length then none
  else
    let blkopt := decodeUint value
    some (blkopt >>> 4, blkopt &&& 0x07, decide (blkopt &&& 0x8 ≠ 0))

/-! ## The slicer -/

def coapBlockSlicerInit (w blknum blksize : Nat) : BlockSlicer :=
  let start := blknum * blksize % 2 ^ w
  { start := start, stop := (start + blksize) % 2 ^ w, cur := 0, optValue := 0 }

/-- `coap_opt_put_block`: the option is put as if there were more blocks. -/
def coapOptPutBlock (impl : LsbImpl) (w : Nat) (s : BuildState) (slicer : BlockSlicer) (option : Nat) :
    Option (Int × BuildState × BlockSlicer) :=
  (slicer2blkopt impl w slicer true).bind fun val =>
    (coapOptPut w s option (encodeUint val)).map fun (err, s) =>
      if err ≠ 0 then (err, s, slicer)
      else
        (0, s, { slicer with optValue := s.builder.buf + s.builder.pos - (encodeUint val).length })

/-- `coap_block_finish`: whether there are more blocks. -/
def coapBlockFinish (impl : LsbImpl) (w : Nat) (mem : Memory UInt8) (slicer : BlockSlicer) :
    Option (Bool × Memory UInt8) :=
  if slicer.optValue = 0 then none
  else
    let more := decide (slicer.stop < slicer.cur)
    (slicer2blkopt impl w slicer more).map fun blkopt =>
      -- the value that was put before is overwritten by one byte at least
      let value := if encodeUint blkopt = [] then [0] else encodeUint blkopt
      (more, store mem slicer.optValue value)

def coapBlockwisePutChar (w : Nat) (s : BuildState) (slicer : BlockSlicer) (c : UInt8) :
    Int × BuildState × BlockSlicer :=
  let oldCur := slicer.cur
  let slicer := { slicer with cur := (oldCur + 1) % 2 ^ w }
  if slicer.start ≤ oldCur ∧ oldCur < slicer.stop then
    let dest := s.builder.buf + s.builder.pos
    match builderAdvancePos w s.builder 1 with
    | (false, builder) => (-EOVERFLOW, { s with builder := builder }, slicer)
    | (true, builder) => (0, { mem := store s.mem dest [c], builder := builder }, slicer)
  else (0, s, slicer)

/-- `_blockwise_put_bytes`: how many bytes to skip and how many to copy. -/
def blockwisePutBytes (w : Nat) (slicer : BlockSlicer) (dataLen : Nat) : Nat × Nat × BlockSlicer :=
  let copyOffset := if slicer.cur < slicer.start then slicer.start - slicer.cur else 0
  let cur := (slicer.cur + dataLen) % 2 ^ w
  if slicer.stop ≤ slicer.cur ∨ dataLen < copyOffset then (0, 0, { slicer with cur := cur })
  else
    let copyLen :=
      if slicer.stop ≤ cur then (slicer.stop + 2 ^ w - (slicer.cur + copyOffset) % 2 ^ w) % 2 ^ w
      else dataLen - copyOffset
    (copyOffset, copyLen, { slicer with cur := cur })

def coapBlockwisePutBytes (w : Nat) (s : BuildState) (slicer : BlockSlicer) (c : List UInt8) :
    Int × BuildState × BlockSlicer :=
  match blockwisePutBytes w slicer c.length with
  | (copyOffset, len, slicer) =>
    if len = 0 then (0, s, slicer)
    else
      let dest := s.builder.buf + s.builder.pos
      match builderAdvancePos w s.builder len with
      | (false, builder) => (-EOVERFLOW, { s with builder := builder }, slicer)
      | (true, builder) =>
        (0, { mem := store s.mem dest ((c.drop copyOffset).take len), builder := builder }, slicer)

/-! ## Serving blocks -/

/-- A piece of the body. -/
inductive Chunk where
  | bytes (c : List UInt8)
  | char (c : UInt8)

def Chunk.content : Chunk → List UInt8
  | .bytes c => c
  | .char c => [c]

def putChunk (w : Nat) (s : BuildState) (slicer : BlockSlicer) : Chunk → Int × BuildState × BlockSlicer
  | .bytes c => coapBlockwisePutBytes w s slicer c
  | .char c => coapBlockwisePutChar w s slicer c

/-- Puts chunks one after the other; only if every call succeeds there is a result. -/
def putChunks (w : Nat) : BuildState → BlockSlicer → List Chunk → Option (BuildState × BlockSlicer)
  | s, slicer, [] => some (s, slicer)
  | s, slicer, c :: cs =>
    match putChunk w s slicer c with
    | (0, s, slicer) => putChunks w s slicer cs
    | _ => none

/-- A served block: what `coap_block_finish` returned, the payload, and the value of
the Block2 option. -/
structure Served where
  more : Bool
  payload : List UInt8
  blockopt : List UInt8

/-- Serves a block: the Block2 option, further options `os`, the payload marker, and the
body in chunks. Only if every call succeeds there is a result. -/
def serveBlock (impl : LsbImpl) (w : Nat) (s : BuildState) (blksize : Nat) (os : List NumberedOption)
    (cs : List Chunk) (blknum : Nat) : Option Served :=
  match coapOptPutBlock impl w s (coapBlockSlicerInit w blknum blksize) coapOptBlock2 with
  | some (0, s₁, slicer) =>
    match putOptions w s₁ os with
    | none => none
    | some s₂ =>
      -- `coap_builder_add_payload_marker`
      match coapBuilderAddPayload w s₂ [] with
      | (0, s₃) =>
        match putChunks w s₃ slicer cs with
        | none => none
        | some (s₄, slicer) =>
          (coapBlockFinish impl w s₄.mem slicer).map fun (more, mem) =>
            { more := more
              payload := slice mem (s₃.builder.buf + s₃.builder.pos) (s₄.builder.pos - s₃.builder.pos)
              blockopt := slice mem slicer.optValue (s₁.builder.buf + s₁.builder.pos - slicer.optValue) }
      | _ => none
  | _ => none

/-- Blocks were served until there were no more: their payloads are the body, and their
options say which blocks they are. -/
def Reassembled (served : Nat → Served) (szx : Nat) (body : List UInt8) : Prop :=
  ∃ n, (∀ b < n, (served b).more = true) ∧ (served n).more = false ∧
    ((List.range (n + 1)).map fun b => (served b).payload).flatten = body ∧
    ∀ b ≤ n, decodeBlockopt (served b).blockopt = some (b, szx, (served b).more)

variable {impl : LsbImpl} {w e b szx : Nat} {s s' : BuildState} {slicer slicer' : BlockSlicer}
  {c : Chunk} {cs : List Chunk} {body : List UInt8} {more : Bool}

/-! ## Option values -/

theorem size2szx_two_pow (h1 : 4 ≤ e) (h2 : e ≤ 10) : size2szx impl (2 ^ e) = some (e - 4) := by
  have h : ∀ i : Fin 7, ∀ impl, size2szx impl (2 ^ (i.val + 4)) = some i.val := by
    intro i impl
    cases impl <;> revert i <;> decide
  obtain ⟨i, rfl⟩ : ∃ i, e = i + 4 := ⟨e - 4, by omega⟩
  exact h ⟨i, by omega⟩ impl

theorem countBlocks_mul {blksize n : Nat} (hpos : 0 < blksize) : ∀ {fuel k : Nat},
    k ≤ fuel → k * blksize < 2 ^ w → n + k < 2 ^ 32 →
    countBlocks w blksize fuel (k * blksize) n = some (n + k) := by
  intro fuel
  induction fuel generalizing n with
  | zero =>
    intro k hk _ _
    obtain rfl : k = 0 := by omega
    rw [zero_mul, countBlocks, if_pos rfl]
    rfl
  | succ fuel ih =>
    intro k hk hlt hn
    cases k with
    | zero =>
      rw [zero_mul, countBlocks, if_pos rfl]
      rfl
    | succ k =>
      rw [succ_mul] at hlt ⊢
      have hsub : (k * blksize + blksize + 2 ^ w - blksize) % 2 ^ w = k * blksize := by
        have e : k * blksize + blksize + 2 ^ w - blksize = k * blksize + 2 ^ w := by omega
        rw [e, add_mod_right, mod_eq_of_lt (by omega)]
      rw [countBlocks, if_neg (by omega), hsub, mod_eq_of_lt (by omega),
        ih (by omega) (by omega) (by omega)]
      congr 1
      omega

/-- The value of a Block option. -/
def blkopt (b szx : Nat) (more : Bool) : Nat := 16 * b + (szx + if more then 8 else 0)

theorem slicer2blkopt_eq (h1 : 4 ≤ e) (h2 : e ≤ 10) (hb : b < 2 ^ 28) (hlt : (b + 1) * 2 ^ e < 2 ^ w)
    (hstart : slicer.start = b * 2 ^ e) (hstop : slicer.stop = (b + 1) * 2 ^ e) :
    slicer2blkopt impl w slicer more = some (blkopt b (e - 4) more) := by
  have hpos : 0 < 2 ^ e := Nat.two_pow_pos e
  rw [succ_mul] at hlt hstop
  have hsize : (slicer.stop + 2 ^ w - slicer.start) % 2 ^ w = 2 ^ e := by
    have hsub : slicer.stop + 2 ^ w - slicer.start = 2 ^ e + 2 ^ w := by omega
    rw [hsub, add_mod_right, mod_eq_of_lt (by omega)]
  have hle : b ≤ 2 ^ w := by
    have := Nat.le_mul_of_pos_right b hpos
    omega
  unfold slicer2blkopt
  dsimp only
  rw [hsize, hstart, countBlocks_mul hpos hle (by omega) (by omega), Option.bind_some, size2szx_two_pow h1 h2,
    Option.map_some, Nat.zero_add, Nat.mod_eq_of_lt (by rw [Nat.shiftLeft_eq]; omega), Nat.or_assoc]
  have hor : ∀ k : Fin 8, ∀ m : Bool, (k.val ||| if m then 8 else 0) = k.val + if m then 8 else 0 := by decide
  have hor' := hor ⟨e - 4, by omega⟩ more
  rw [hor', ← shiftLeft_add_eq_or_of_lt (by split <;> omega), shiftLeft_eq, mul_comm, blkopt]

theorem encodeUint_length_le {v : Nat} : (encodeUint v).length ≤ 4 := by
  rw [encodeUint, length_toBytes]
  exact byteCount_le

/-- **The value of an option is decoded to what it was made of.** -/
theorem decodeBlockopt_encode (hb : b < 2 ^ 28) (hszx : szx < 8) :
    decodeBlockopt (if encodeUint (blkopt b szx more) = [] then [0] else encodeUint (blkopt b szx more)) =
      some (b, szx, more) := by
  have hlt : blkopt b szx more < 2 ^ 32 := by
    unfold blkopt
    split <;> omega
  have hval : decodeUint (if encodeUint (blkopt b szx more) = [] then [0]
      else encodeUint (blkopt b szx more)) = blkopt b szx more := by
    have henc : ofBytes (encodeUint (blkopt b szx more)) = blkopt b szx more :=
      ofBytes_toBytes (lt_pow_byteCount (by simpa using hlt))
    split
    · rename_i h0
      rw [h0] at henc
      exact henc
    · exact henc
  have hlen : ¬ 4 < (if encodeUint (blkopt b szx more) = [] then [0]
      else encodeUint (blkopt b szx more)).length := by
    have := @encodeUint_length_le (blkopt b szx more)
    split
    · simp
    · omega
  have hand7 : blkopt b szx more &&& 0x07 = blkopt b szx more % 8 :=
    and_two_pow_sub_one_eq_mod (blkopt b szx more) 3
  have hand8 : blkopt b szx more &&& 0x8 = blkopt b szx more / 8 % 2 * 8 := by
    have := and_two_pow (blkopt b szx more) 3
    rwa [toNat_testBit] at this
  have hdiv : blkopt b szx more / 2 ^ 4 = b := by
    unfold blkopt
    split <;> omega
  have hmod : blkopt b szx more % 8 = szx := by
    unfold blkopt
    split <;> omega
  have hmore : decide (blkopt b szx more / 8 % 2 * 8 ≠ 0) = more := by
    unfold blkopt
    cases more
    · rw [if_neg Bool.false_ne_true]
      exact decide_eq_false (by omega)
    · rw [if_pos rfl]
      exact decide_eq_true (by omega)
  unfold decodeBlockopt
  dsimp only
  rw [if_neg hlen, hval, hand7, hand8, shiftRight_eq_div_pow, hdiv, hmod, hmore]

theorem length_encodeUint_blkopt (hszx : szx < 8) :
    (if encodeUint (blkopt b szx more) = [] then [0] else encodeUint (blkopt b szx more)).length =
      (encodeUint (blkopt b szx true)).length := by
  have hcount : byteCount 4 (blkopt b szx true) = max 1 (byteCount 4 (blkopt b szx more)) := by
    refine byteCount_eq ?_ ?_
    · unfold blkopt
      rw [if_pos rfl]
      split <;> omega
    · unfold blkopt
      simp
  have hlen : ∀ v, (encodeUint v).length = byteCount 4 v := fun v => length_toBytes
  rw [hlen, hcount]
  split
  · rename_i h0
    rw [← hlen, h0]
    rfl
  · rename_i h0
    have := length_pos_of_ne_nil h0
    rw [hlen] at this ⊢
    omega

/-! ## Chunks -/

/-- The state once the bytes `xs` are appended. -/
def BuildState.appended (s : BuildState) (xs : List UInt8) : BuildState :=
  { mem := store s.mem (s.builder.buf + s.builder.pos) xs
    builder := { s.builder with pos := s.builder.pos + xs.length } }

@[simp] theorem appended_nil : s.appended [] = s := by
  rw [BuildState.appended, store_nil]
  rfl

theorem appended_append {xs ys : List UInt8} : (s.appended xs).appended ys = s.appended (xs ++ ys) := by
  unfold BuildState.appended
  rw [← add_assoc, store_append, length_append, add_assoc]

theorem putChunk_slicer {r : Int} (h : putChunk w s slicer c = (r, s', slicer')) :
    slicer' = { slicer with cur := (slicer.cur + c.content.length) % 2 ^ w } := by
  cases c with
  | bytes c =>
    simp only [putChunk, coapBlockwisePutBytes, blockwisePutBytes] at h
    split_ifs at h <;> (try split at h) <;> exact (mk.inj (mk.inj h).2).2.symm
  | char c =>
    simp only [putChunk, coapBlockwisePutChar] at h
    split_ifs at h
    · split at h <;> exact (mk.inj (mk.inj h).2).2.symm
    · exact (mk.inj (mk.inj h).2).2.symm

theorem coapBlockwisePutBytes_spec {xs : List UInt8} (hcur : slicer.cur + xs.length < 2 ^ w)
    (hle : slicer.start ≤ slicer.stop) (hstop : slicer.stop < 2 ^ w) (hsize : s.builder.size ≤ uint16Max)
    (h : coapBlockwisePutBytes w s slicer xs = (0, s', slicer')) :
    s' = s.appended (window slicer.start slicer.stop slicer.cur xs) := by
  have hskip : window slicer.start slicer.stop slicer.cur xs = [] → s' = s →
      s' = s.appended (window slicer.start slicer.stop slicer.cur xs) := by
    intro hw hs
    rw [hw, hs, appended_nil]
  have hoffset : (if slicer.cur < slicer.start then slicer.start - slicer.cur else 0) =
      slicer.start - slicer.cur := by
    split <;> omega
  simp only [coapBlockwisePutBytes, blockwisePutBytes, hoffset, mod_eq_of_lt hcur] at h
  by_cases hout : slicer.stop ≤ slicer.cur ∨ xs.length < slicer.start - slicer.cur
  · rw [if_pos hout] at h
    refine hskip ?_ (mk.inj (mk.inj h).2).1.symm
    apply eq_nil_of_length_eq_zero
    rw [window, length_drop, length_take]
    omega
  rw [if_neg hout] at h
  -- the bytes copied are those of the window
  have hcopy : (xs.drop (slicer.start - slicer.cur)).take
      (if slicer.stop ≤ slicer.cur + xs.length then
        (slicer.stop + 2 ^ w - (slicer.cur + (slicer.start - slicer.cur)) % 2 ^ w) % 2 ^ w
      else xs.length - (slicer.start - slicer.cur)) = window slicer.start slicer.stop slicer.cur xs ∧
      (if slicer.stop ≤ slicer.cur + xs.length then
        (slicer.stop + 2 ^ w - (slicer.cur + (slicer.start - slicer.cur)) % 2 ^ w) % 2 ^ w
      else xs.length - (slicer.start - slicer.cur)) =
        (window slicer.start slicer.stop slicer.cur xs).length := by
    rw [window, drop_take, length_take, length_drop]
    by_cases hend : slicer.stop ≤ slicer.cur + xs.length
    · have hsub : (slicer.stop + 2 ^ w - (slicer.cur + (slicer.start - slicer.cur)) % 2 ^ w) % 2 ^ w =
          slicer.stop - slicer.cur - (slicer.start - slicer.cur) := by
        rw [mod_eq_of_lt (show slicer.cur + (slicer.start - slicer.cur) < 2 ^ w by omega)]
        have e : slicer.stop + 2 ^ w - (slicer.cur + (slicer.start - slicer.cur)) =
            slicer.stop - slicer.cur - (slicer.start - slicer.cur) + 2 ^ w := by omega
        rw [e, add_mod_right, mod_eq_of_lt (by omega)]
      rw [if_pos hend, hsub]
      exact ⟨rfl, by omega⟩
    · rw [if_neg hend]
      refine ⟨?_, by omega⟩
      rw [take_of_length_le (by rw [length_drop]), take_of_length_le (by
        rw [length_drop]
        omega)]
  rw [hcopy.1, hcopy.2] at h
  split at h
  · rename_i h0
    exact hskip (eq_nil_of_length_eq_zero h0) (mk.inj (mk.inj h).2).1.symm
  · split at h
    · exact absurd (mk.inj h).1 (by decide)
    · rename_i builder hadv
      obtain ⟨rfl, -⟩ := builderAdvancePos_true hsize hadv
      exact (mk.inj (mk.inj h).2).1.symm

theorem coapBlockwisePutChar_spec {x : UInt8} (hsize : s.builder.size ≤ uint16Max)
    (h : coapBlockwisePutChar w s slicer x = (0, s', slicer')) :
    s' = s.appended (window slicer.start slicer.stop slicer.cur [x]) := by
  simp only [coapBlockwisePutChar] at h
  by_cases hin : slicer.start ≤ slicer.cur ∧ slicer.cur < slicer.stop
  · have hw : window slicer.start slicer.stop slicer.cur [x] = [x] := by
      have h0 : slicer.start - slicer.cur = 0 := by omega
      rw [window, h0, drop_zero, take_of_length_le (by rw [length_singleton]; omega)]
    rw [if_pos hin] at h
    rw [hw]
    split at h
    · exact absurd (mk.inj h).1 (by decide)
    · rename_i builder hadv
      obtain ⟨rfl, -⟩ := builderAdvancePos_true hsize hadv
      exact (mk.inj (mk.inj h).2).1.symm
  · have hw : window slicer.start slicer.stop slicer.cur [x] = [] := by
      apply eq_nil_of_length_eq_zero
      rw [window, length_drop, length_take, length_singleton]
      omega
    rw [if_neg hin] at h
    rw [hw, appended_nil]
    exact (mk.inj (mk.inj h).2).1.symm

/-- The content of chunks. -/
def content (cs : List Chunk) : List UInt8 := (cs.map Chunk.content).flatten

theorem putChunks_slicer (hcur : slicer.cur + (content cs).length < 2 ^ w)
    (h : putChunks w s slicer cs = some (s', slicer')) :
    slicer' = { slicer with cur := slicer.cur + (content cs).length } := by
  induction cs generalizing s slicer with
  | nil =>
    cases h
    rfl
  | cons c cs ih =>
    have hlen : (content (c :: cs)).length = c.content.length + (content cs).length := by
      rw [content, map_cons, flatten_cons, length_append]
      rfl
    rw [hlen] at hcur ⊢
    rw [putChunks] at h
    split at h
    case h_2 => exact absurd h (by simp)
    rename_i s1 slicer1 hput
    have hslicer := putChunk_slicer hput
    rw [mod_eq_of_lt (by omega)] at hslicer
    subst hslicer
    rw [ih (by dsimp only; omega) h]
    rw [add_assoc]

/-- **What lies in the block is copied**, one chunk after the other. -/
theorem putChunks_spec (hcur : slicer.cur + (content cs).length < 2 ^ w) (hle : slicer.start ≤ slicer.stop)
    (hstop : slicer.stop < 2 ^ w) (hsize : s.builder.size ≤ uint16Max)
    (h : putChunks w s slicer cs = some (s', slicer')) :
    s' = s.appended (window slicer.start slicer.stop slicer.cur (content cs)) := by
  induction cs generalizing s slicer with
  | nil =>
    obtain ⟨rfl, -⟩ := mk.inj (Option.some.inj h)
    have hw : window slicer.start slicer.stop slicer.cur (content []) = [] := by
      simp [window, content]
    rw [hw, appended_nil]
  | cons c cs ih =>
    have hcontent : content (c :: cs) = c.content ++ content cs := by
      rfl
    rw [hcontent, length_append] at hcur
    rw [putChunks] at h
    split at h
    case h_2 => exact absurd h (by simp)
    rename_i s1 slicer1 hput
    have hslicer := putChunk_slicer hput
    rw [mod_eq_of_lt (by omega)] at hslicer
    have hs1 : s1 = s.appended (window slicer.start slicer.stop slicer.cur c.content) := by
      cases c with
      | bytes xs =>
        have hxs : slicer.cur + xs.length < 2 ^ w := by
          have hlen : (Chunk.bytes xs).content.length = xs.length := rfl
          omega
        exact coapBlockwisePutBytes_spec hxs hle hstop hsize hput
      | char x => exact coapBlockwisePutChar_spec hsize hput
    have hsize1 : s1.builder.size ≤ uint16Max := by
      rw [hs1]
      exact hsize
    have hrest := @ih s1 slicer1 (by rw [hslicer]; dsimp only; omega) (by rw [hslicer]; exact hle)
      (by rw [hslicer]; exact hstop) hsize1 h
    rw [hrest, hslicer, hs1, hcontent, window_append, appended_append]

end Riot.Nanocoap
