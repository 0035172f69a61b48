import Riot.Nanocoap.Blockwise
import Riot.Nanocoap.Entries

/-!
# Block2 negotiation (`nanocoap.c`)

A request asks for a block by its number and the size of blocks. The server has a maximum size of its own;
it takes the smaller one, and the number as it is.
-/

namespace Riot.Nanocoap

open Riot.Lib Memory Nat

/-- `coap_get_blockopt`: the result, the targets and the context. The assertion on the length in
`_decode_uint` fails for an option with a length that cannot be decoded. -/
def coapGetBlockopt (mem : Memory UInt8) (pkt : Pkt) (option blknum szx : Nat) : Option (Int × Nat × Nat × Pkt) :=
  match coapFindOption pkt option with
  | (optpos, pkt) =>
    if optpos = 0 then some (-1, blknum, szx, pkt)
    else
      match parseOption mem pkt optpos with
      | none => some (-1, blknum, szx, pkt)
      | some (dataStart, _, optionLen) =>
        if 4 < optionLen then some (-1, blknum, szx, pkt)
        else if optionLen < 0 then none
        else
          let blkopt := decodeUint (slice mem dataStart optionLen.toNat)
          some (if blkopt &&& 0x8 ≠ 0 then 1 else 0, blkopt >>> 4, blkopt &&& 0x07, pkt)

def coapSzx2size (szx : Nat) : Nat := 1 <<< (szx + 4)

/-- `coap_block2_init`; `szxMax` is `CONFIG_NANOCOAP_BLOCK_SIZE_EXP_MAX - 4`, and `size_t` is `w` bits wide. -/
def coapBlock2Init (szxMax w : Nat) (mem : Memory UInt8) (pkt : Pkt) : Option (BlockSlicer × Pkt) :=
  (coapGetBlockopt mem pkt coapOptBlock2 0 szxMax).map fun (ret, blknum, szx, pkt) =>
    let szx := if 0 ≤ ret ∧ szxMax < szx then szxMax else szx
    (coapBlockSlicerInit w blknum (coapSzx2size szx), pkt)

variable {cfg : Cfg} {mem : Memory UInt8} {buf len h num szx szxMax w : Nat} {pkt : Pkt}
  {options : Memory OptPos} {pre post os : List NumberedOption} {tail value : List UInt8} {more : Bool}

theorem decodeBlockopt_parts (h : decodeBlockopt value = some (num, szx, more)) :
    value.length ≤ 4 ∧ decodeUint value >>> 4 = num ∧ decodeUint value &&& 0x07 = szx := by
  unfold decodeBlockopt at h
  split at h
  · cases h
  · simp only [Option.some.injEq, Prod.mk.injEq] at h
    exact ⟨by omega, h.1, h.2.1⟩

theorem PacketRight.getBlockopt {option : Nat} {tail : List UInt8} (p : PacketRight cfg mem buf len pkt h os tail)
    (hat : OptionsAt mem pkt (buf + h) 0 os) (hbuf : pkt.buf = buf) (hos : os = pre ++ (option, value) :: post)
    (hfirst : ∀ o ∈ pre, o.1 ≠ option) (hoption : option ≠ 0) (hval : decodeBlockopt value = some (num, szx, more))
    (blknum szx' : Nat) : ∃ ret pkt', 0 ≤ ret ∧ coapGetBlockopt mem pkt option blknum szx' = some (ret, num, szx, pkt') := by
  subst hos
  obtain ⟨hlen, rfl, rfl⟩ := decodeBlockopt_parts hval
  obtain ⟨hfind, hpkt⟩ := p.entries.find_first p.message.encodable hfirst hoption
  have hpos : pkt.buf + h + (encodeOptions 0 pre).length ≠ 0 := by
    have hhdr := p.message.header.2.1
    have hsize : udpHdrSize = 4 := rfl
    omega
  rw [hbuf] at hfind hpos
  obtain ⟨a, hparse, hend, hvalue⟩ := hat.parseOption_at
  have hslice : slice mem a value.length = value := by
    have hheld := hat.drop.holds
    have hparts := (parts_of_holds (holds_append.mp hheld).1).2.2.2.2.2
    have ha : a = buf + h + (encodeOptions 0 pre).length + 1 +
        (fieldExt (option - lastNumber 0 pre)).length + (fieldExt value.length).length := by
      rw [encodeOptions_append, List.length_append, encodeOptions_cons, encodeOptions_nil, List.append_nil,
        length_encodeOption] at hend
      dsimp only at hend
      omega
    rw [ha]
    exact hparts.slice_eq
  refine ⟨if decodeUint value &&& 0x8 ≠ 0 then 1 else 0, (coapFindOption pkt option).2, ?_, ?_⟩
  · split <;> decide
  · unfold coapGetBlockopt
    dsimp only
    rw [hfind, if_neg hpos, hpkt]
    have hparse' : parseOption mem { pkt with optCrit := Function.update pkt.optCrit (entriesFrom h 0 pre).length false }
        (buf + h + (encodeOptions 0 pre).length) = some (a, (option - lastNumber 0 pre) % 2 ^ 16, (value.length : Int)) := hparse
    rw [hparse']
    dsimp only
    rw [if_neg (by omega), if_neg (by omega), Int.toNat_natCast, hslice]

theorem coapSzx2size_eq (e : Nat) : coapSzx2size e = 2 ^ (e + 4) := by
  unfold coapSzx2size
  rw [one_shiftLeft]

theorem block2_start (m : IsMessage cfg mem buf len h (pre ++ (coapOptBlock2, value) :: post) tail)
    (hfits : Fits h (pre ++ (coapOptBlock2, value) :: post) tail) (hfirst : ∀ o ∈ pre, o.1 ≠ coapOptBlock2)
    (hval : decodeBlockopt value = some (num, szx, more)) :
    ∃ pkt', coapBlock2Init szxMax w mem (parsedPkt buf h options (pre ++ (coapOptBlock2, value) :: post) tail) =
      some (coapBlockSlicerInit w num (2 ^ (min szx szxMax + 4)), pkt') := by
  have hright := @IsMessage.right cfg mem buf len h options _ tail m hfits
  have hbuf := (@parsedPkt_spec buf h options (pre ++ (coapOptBlock2, value) :: post) tail m.tail).1
  obtain ⟨ret, pkt', hret, hget⟩ := hright.getBlockopt m.optionsAt hbuf rfl hfirst (by decide) hval 0 szxMax
  refine ⟨pkt', ?_⟩
  unfold coapBlock2Init
  rw [hget, Option.map_some]
  dsimp only
  rw [coapSzx2size_eq]
  by_cases hclamp : szxMax < szx
  · rw [if_pos ⟨hret, hclamp⟩, min_eq_right (le_of_lt hclamp)]
  · rw [if_neg (fun hboth => hclamp hboth.2), min_eq_left (not_lt.mp hclamp)]

theorem start_eq_iff : num * 2 ^ (min szx szxMax + 4) % 2 ^ w = num * 2 ^ (szx + 4) ↔
    num = 0 ∨ szx ≤ szxMax ∧ num * 2 ^ (szx + 4) < 2 ^ w := by
  rcases Nat.eq_zero_or_pos num with rfl | hpos
  · rw [zero_mul, zero_mul, zero_mod]
    exact ⟨fun _ => .inl rfl, fun _ => rfl⟩
  constructor
  · intro heq
    right
    have hlt : num * 2 ^ (min szx szxMax + 4) % 2 ^ w < 2 ^ w := Nat.mod_lt _ (Nat.two_pow_pos w)
    refine ⟨?_, heq ▸ hlt⟩
    by_contra hclamp
    have hle : num * 2 ^ (min szx szxMax + 4) % 2 ^ w ≤ num * 2 ^ (min szx szxMax + 4) := mod_le _ _
    have hpow : 2 ^ (min szx szxMax + 4) < 2 ^ (szx + 4) := Nat.pow_lt_pow_right (by decide) (by omega)
    have hmul := mul_lt_mul_of_pos_left hpow hpos
    omega
  · rintro (rfl | ⟨hle, hlt⟩)
    · exact absurd hpos (lt_irrefl 0)
    · rw [min_eq_left hle, mod_eq_of_lt hlt]

/-- **Block2 negotiation.** For a request whose first Block2 option asks for the block `num` of the size
`2 ^ (szx + 4)`, the window starts where that block starts exactly if it is the first one, or the server
does not take a smaller size and the position fits `size_t`. -/
theorem block2_window_iff (cfg : Cfg) (mem : Memory UInt8) (buf len h : Nat) (options : Memory OptPos)
    (pre post : List NumberedOption) (value tail : List UInt8) (num szx szxMax w : Nat) (more : Bool)
    (m : IsMessage cfg mem buf len h (pre ++ (coapOptBlock2, value) :: post) tail)
    (hfits : Fits h (pre ++ (coapOptBlock2, value) :: post) tail) (hfirst : ∀ o ∈ pre, o.1 ≠ coapOptBlock2)
    (hval : decodeBlockopt value = some (num, szx, more)) :
    (∃ pkt slicer pkt', coapParseUdp cfg mem buf len options = some ((len : Int), pkt) ∧
      coapBlock2Init szxMax w mem pkt = some (slicer, pkt') ∧ slicer.start = num * 2 ^ (szx + 4)) ↔
    num = 0 ∨ szx ≤ szxMax ∧ num * 2 ^ (szx + 4) < 2 ^ w := by
  have hparse := @coapParseUdp_eq cfg mem buf len h options _ tail m
  obtain ⟨pkt', hinit⟩ := @block2_start cfg mem buf len h num szx szxMax w options pre post tail value more m hfits hfirst hval
  rw [← start_eq_iff]
  constructor
  · rintro ⟨pkt, slicer, pkt'', hparse', hinit', hstart⟩
    obtain rfl := (Prod.mk.inj (Option.some.inj (hparse.symm.trans hparse'))).2
    obtain ⟨rfl, -⟩ := Prod.mk.inj (Option.some.inj (hinit.symm.trans hinit'))
    exact hstart
  · intro hstart
    exact ⟨_, _, pkt', hparse, hinit, hstart⟩

/-- A GET request without a path for the block 3 of 32 bytes. -/
def blockRequest : List UInt8 := [0x40, 0x01, 0x00, 0x01, 0xD1, 0x0A, 0x31]

theorem block2_window_iff_three : ∃ pkt slicer pkt',
    coapParseUdp ⟨16, false⟩ (packetAt blockRequest) 1 7 (fun _ => ⟨0, 0⟩) = some (7, pkt) ∧
      coapBlock2Init 2 32 (packetAt blockRequest) pkt = some (slicer, pkt') ∧ slicer.start = 3 * 2 ^ (1 + 4) :=
  (block2_window_iff ⟨16, false⟩ (packetAt blockRequest) 1 7 4 (fun _ => ⟨0, 0⟩) [] [] [0x31] [] 3 1 2 32 false
    ⟨by decide, by decide, by decide, by simp [fieldMax, coapOptBlock2], .inl rfl, by decide, by decide⟩
    ⟨by decide, by decide, by decide⟩ nofun (by decide)).mpr (.inr ⟨by decide, by decide⟩)

/-- The block 1 of 1024 bytes: with a maximum of 64 the window starts at 64. -/
def largeRequest : List UInt8 := [0x40, 0x01, 0x00, 0x01, 0xD1, 0x0A, 0x16]

theorem not_block2_window : ¬ ∀ (mem : Memory UInt8) (buf len : Nat) (value : List UInt8) (num szx : Nat) (more : Bool) (h : Nat),
    IsMessage ⟨16, false⟩ mem buf len h [(coapOptBlock2, value)] [] → decodeBlockopt value = some (num, szx, more) → szx ≤ 6 →
    ∃ pkt slicer pkt', coapParseUdp ⟨16, false⟩ mem buf len (fun _ => ⟨0, 0⟩) = some ((len : Int), pkt) ∧
      coapBlock2Init 2 32 mem pkt = some (slicer, pkt') ∧ slicer.start = num * 2 ^ (szx + 4) := by
  intro hall
  have m : IsMessage ⟨16, false⟩ (packetAt largeRequest) 1 7 4 [(coapOptBlock2, [0x16])] [] :=
    ⟨by decide, by decide, by decide, by simp [fieldMax, coapOptBlock2], .inl rfl, by decide, by decide⟩
  obtain ⟨pkt, slicer, pkt', hparse, hinit, hstart⟩ :=
    hall (packetAt largeRequest) 1 7 [0x16] 1 6 false 4 m (by decide) (by decide)
  have hbad : (coapParseUdp ⟨16, false⟩ (packetAt largeRequest) 1 7 (fun _ => ⟨0, 0⟩)).any
      (fun r => ((coapBlock2Init 2 32 (packetAt largeRequest) r.2).any fun r => r.1.start = 64)) = true := by decide
  rw [hparse, Option.any_some, hinit, Option.any_some, hstart] at hbad
  exact absurd hbad (by decide)

end Riot.Nanocoap
