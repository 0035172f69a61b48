import Riot.Nanocoap.Getters

/-!
# Parsed packets

What `coap_parse_udp` accepts is a message, and the getters find its options and
nothing else, unless a number, a position or the length of the payload does not
fit the 16 bits it is stored in.
-/

namespace Riot.Nanocoap

open Riot.Lib Memory Function Nat List Option

/-- The packet is what the bytes say: entries have the sums of the deltas as their
numbers and the starts of their options as offsets, getters return values of the
options with the numbers asked for, and the payload is what follows the marker. -/
structure PacketRight (cfg : Cfg) (mem : Memory UInt8) (buf len : Nat) (pkt : Pkt) (h : Nat)
    (os : List NumberedOption) (tail : List UInt8) : Prop where
  message : IsMessage cfg mem buf len h os tail
  entries : HasEntries pkt h os
  payload : pkt.payload + (tail.drop 1).length = buf + len
  payloadLen : pkt.payloadLen = (tail.drop 1).length
  getOpaque : ∀ num r a, coapOptGetOpaque mem pkt num = (r, a) → r < 0 ∨ IsValue mem (buf + h) os num a r
  iterate : ∀ num fuel, ∀ x ∈ iterateOptions mem pkt num fuel 0, IsValue mem (buf + h) os num x.1 x.2
  next : ∀ fuel, os.length < fuel → nextOptions cfg mem pkt fuel none = optionValues (buf + h) 0 os

/-- The parser stays within the buffer, and rejects it or yields the right packet. -/
def ParseRight (cfg : Cfg) (mem : Memory UInt8) (buf len : Nat) (options : Memory OptPos) : Prop :=
  ∃ r pkt, coapParseUdp cfg mem buf len options = some (r, pkt) ∧
    (r < 0 ∨ r = len ∧ ∃ h os tail, PacketRight cfg mem buf len pkt h os tail)

/-- Numbers, positions and the length of the payload fit 16 bits. -/
structure Fits (h : Nat) (os : List NumberedOption) (tail : List UInt8) : Prop where
  number : ∀ o ∈ os, o.1 < 2 ^ 16
  position : h + (encodeOptions 0 os).length < 2 ^ 16
  payload : (tail.drop 1).length < 2 ^ 16

variable {cfg : Cfg} {mem : Memory UInt8} {buf len h count offset prev : Nat} {pkt : Pkt}
  {options : Memory OptPos} {os : List NumberedOption} {tail : List UInt8} {es : List OptPos}

/-! ## The context of a message -/

theorem recordOption_options {i n o : Nat} : (recordOption pkt i n o).options =
    update pkt.options i ⟨n % 2 ^ 16, o % 2 ^ 16⟩ := rfl

theorem recordAll_spec : (recordAll pkt count es).buf = pkt.buf ∧ (recordAll pkt count es).payload = pkt.payload ∧
    (recordAll pkt count es).payloadLen = pkt.payloadLen ∧
    Holds (recordAll pkt count es).options count (es.map OptPos.truncate) ∧
    ∀ j < count, (recordAll pkt count es).options j = pkt.options j := by
  induction es generalizing pkt count with
  | nil => exact ⟨rfl, rfl, rfl, holds_nil, fun _ _ => rfl⟩
  | cons e es ih =>
    obtain ⟨hbuf, hpay, hlen, hent, hframe⟩ := @ih (count + 1)
      (recordOption pkt count (e.optNum % 2 ^ 32) e.offset)
    refine ⟨hbuf, hpay, hlen, ⟨?_, hent⟩, ?_⟩
    · have hnum : e.optNum % 2 ^ 32 % 2 ^ 16 = e.optNum % 2 ^ 16 := by omega
      rw [recordAll, hframe count (by omega), recordOption_options, update_self, hnum]
      rfl
    · intro j hj
      rw [recordAll, hframe j (by omega), recordOption_options, update_of_ne (by omega)]

theorem parsedPkt_spec (ht : IsTail tail) : (parsedPkt buf h options os tail).buf = buf ∧
    (parsedPkt buf h options os tail).payload = buf + h + (encodeOptions 0 os).length + (tail.take 1).length ∧
    (parsedPkt buf h options os tail).payloadLen = (tail.drop 1).length % 2 ^ 16 ∧
    (parsedPkt buf h options os tail).optionsLen = (entriesFrom h 0 os).length % 2 ^ 16 ∧
    Holds (parsedPkt buf h options os tail).options 0 ((entriesFrom h 0 os).map OptPos.truncate) := by
  obtain ⟨hbuf, hpay, hlen, hent, -⟩ := @recordAll_spec 0 ⟨buf, 0, 0, 0, options, fun _ => false⟩
    (entriesFrom h 0 os)
  unfold parsedPkt
  obtain rfl | ⟨payload, rfl⟩ := ht
  · refine ⟨hbuf, ?_, hlen, rfl, hent⟩
    dsimp only [endOptions]
    rw [if_pos hpay]
  · refine ⟨hbuf, ?_, rfl, rfl, hent⟩
    dsimp only [endOptions]
    rfl

theorem length_entriesFrom_le : (entriesFrom offset prev os).length ≤ (encodeOptions prev os).length := by
  induction os generalizing offset prev with
  | nil => exact le_refl _
  | cons o os ih =>
    have hpos := @length_encodeOption_pos (o.1 - prev) o.2
    have := @ih (offset + (encodeOption (o.1 - prev) o.2).length) o.1
    simp only [entriesFrom]
    rw [encodeOptions_cons, length_append]
    split
    · omega
    · rw [length_cons]
      omega

theorem entries_truncate (hn : ∀ o ∈ os, o.1 < 2 ^ 16) (hp : offset + (encodeOptions prev os).length < 2 ^ 16) :
    (entriesFrom offset prev os).map OptPos.truncate = entriesFrom offset prev os := by
  induction os generalizing offset prev with
  | nil => rfl
  | cons o os ih =>
    obtain ⟨ho, hn⟩ := forall_mem_cons.mp hn
    rw [encodeOptions_cons, length_append] at hp
    have ih := @ih (offset + (encodeOption (o.1 - prev) o.2).length) o.1 hn (by omega)
    simp only [entriesFrom]
    split
    · exact ih
    · rw [map_cons, ih, OptPos.truncate]
      dsimp only
      rw [mod_eq_of_lt ho, mod_eq_of_lt (by omega)]

theorem number_lt_of_truncate (henc : OptionsEncodable prev os) (hprev : prev < 2 ^ 16)
    (h : (entriesFrom offset prev os).map OptPos.truncate = entriesFrom offset prev os) :
    ∀ o ∈ os, o.1 < 2 ^ 16 := by
  induction os generalizing offset prev with
  | nil => simp
  | cons o os ih =>
    obtain ⟨hle, -, -, hos⟩ := henc
    simp only [entriesFrom] at h
    split at h
    · have ho : o.1 < 2 ^ 16 := by omega
      exact forall_mem_cons.mpr ⟨ho, ih hos ho h⟩
    · obtain ⟨hhead, hrest⟩ := cons.inj h
      have hnum := congrArg OptPos.optNum hhead
      have ho : o.1 < 2 ^ 16 := by
        dsimp only [OptPos.truncate] at hnum
        omega
      exact forall_mem_cons.mpr ⟨ho, ih hos ho hrest⟩

/-! ## The header of a message -/

theorem coapHdrGetTokenLen_mono {rd rd' : Nat → Option UInt8} {hdr tkl : Nat}
    (hle : ∀ a b, rd a = some b → rd' a = some b) (h : coapHdrGetTokenLen cfg rd hdr = some tkl) :
    coapHdrGetTokenLen cfg rd' hdr = some tkl := by
  simp only [coapHdrGetTokenLen, bind_eq_some_iff] at h ⊢
  obtain ⟨b, hb, ext, hext, h⟩ := h
  refine ⟨b, hle _ _ hb, ext, hext, ?_⟩
  by_cases h0 : ext = 0
  · rw [if_pos h0] at h ⊢
    exact h
  rw [if_neg h0] at h ⊢
  by_cases h1 : ext = 1
  · rw [if_pos h1] at h ⊢
    obtain ⟨c, hc, rfl⟩ := map_eq_some_iff.mp h
    rw [hle _ _ hc]
    rfl
  · rw [if_neg h1] at h ⊢
    obtain ⟨c, hc, h⟩ := bind_eq_some_iff.mp h
    obtain ⟨d, hd, rfl⟩ := map_eq_some_iff.mp h
    rw [hle _ _ hc, bind_some, hle _ _ hd]
    rfl

theorem coapGetTotalHdrLen_mono {rd rd' : Nat → Option UInt8} {hdr : Nat}
    (hle : ∀ a b, rd a = some b → rd' a = some b) (hh : coapGetTotalHdrLen cfg rd hdr = some h) :
    coapGetTotalHdrLen cfg rd' hdr = some h := by
  simp only [coapGetTotalHdrLen, bind_eq_some_iff, map_eq_some_iff] at hh ⊢
  obtain ⟨b, hb, ext, hext, tkl, htkl, rfl⟩ := hh
  exact ⟨b, hle _ _ hb, ext, hext, tkl, coapHdrGetTokenLen_mono hle htkl, rfl⟩

theorem IsMessage.nextOptions_none {fuel : Nat} (m : IsMessage cfg mem buf len h os tail) (hbuf : pkt.buf = buf)
    (hf : 0 < fuel) :
    nextOptions cfg mem pkt fuel none = nextOptions cfg mem pkt fuel (some ⟨0, h % 2 ^ 16⟩) := by
  have hlen := @coapGetTotalHdrLen_mono cfg h _ (fun a => some (mem a)) buf (fun a b hab => by
    rw [load] at hab
    split at hab
    · exact hab
    · exact absurd hab (by simp)) m.hdrLen
  cases fuel with
  | zero => exact absurd hf (lt_irrefl _)
  | succ fuel =>
    rw [nextOptions, nextOptions, coapOptGetNext, coapOptGetNext, hbuf, hlen]
    rfl

/-! ## Soundness -/

theorem IsMessage.optionsAt (m : IsMessage cfg mem buf len h os tail) :
    OptionsAt mem (parsedPkt buf h options os tail) (buf + h) 0 os := by
  obtain ⟨-, hpay, -⟩ := @parsedPkt_spec buf h options os tail m.tail
  obtain ⟨hos, ht⟩ := holds_append.mp m.holds
  refine ⟨hos, m.encodable, ?_⟩
  rw [hpay]
  obtain rfl | ⟨payload, rfl⟩ := m.tail
  · exact .inl rfl
  · exact .inr ⟨rfl, ht.1⟩

theorem IsMessage.right (m : IsMessage cfg mem buf len h os tail) (hf : Fits h os tail) :
    PacketRight cfg mem buf len (parsedPkt buf h options os tail) h os tail := by
  obtain ⟨hbuf, hpay, hplen, hcount, hent⟩ := @parsedPkt_spec buf h options os tail m.tail
  have hat := @IsMessage.optionsAt cfg mem buf len h options os tail m
  have hlen := m.length_eq
  have hle := @length_entriesFrom_le h 0 os
  have hpos := hf.position
  rw [entries_truncate hf.number hf.position] at hent
  rw [mod_eq_of_lt (by omega)] at hcount
  rw [mod_eq_of_lt hf.payload] at hplen
  have he : HasEntries (parsedPkt buf h options os tail) h os := ⟨hcount, hent⟩
  have hat' : OptionsAt mem (parsedPkt buf h options os tail)
      ((parsedPkt buf h options os tail).buf + h) 0 os := by
    rw [hbuf]
    exact hat
  refine ⟨m, he, ?_, hplen, ?_, ?_, ?_⟩
  · have hsplit : tail.length = (tail.take 1).length + (tail.drop 1).length := by
      rw [← length_append, take_append_drop]
    rw [length_append] at hlen
    omega
  · intro num r a hget
    have := hat'.getOpaque he hget
    rwa [hbuf] at this
  · intro num fuel x hx
    have := hat'.iterate he hf.number (.inl rfl) x hx
    rwa [hbuf] at this
  · intro fuel hfuel
    have hnext := @nextOptions_encode cfg mem (parsedPkt buf h options os tail) os fuel (buf + h) 0 h hat
      (by rw [hbuf]) hf.position hfuel
    rw [m.nextOptions_none hbuf (by omega), mod_eq_of_lt (by omega)]
    rwa [optionValues_mod hf.number] at hnext

theorem PacketRight.fits {os' : List NumberedOption} {tail' : List UInt8} {h' : Nat}
    (m : IsMessage cfg mem buf len h os tail)
    (p : PacketRight cfg mem buf len (parsedPkt buf h options os tail) h' os' tail') : Fits h os tail := by
  obtain ⟨rfl, rfl, rfl⟩ := m.unique p.message
  obtain ⟨hbuf, -, hplen, -, hent⟩ := @parsedPkt_spec buf h' options os' tail' m.tail
  refine ⟨?_, ?_, ?_⟩
  · have heq := hent.eq_of_length p.entries.entries (by rw [length_map])
    exact number_lt_of_truncate m.encodable (by decide) heq
  · have hnext := p.next (os'.length + 1) (lt_succ_self _)
    rw [m.nextOptions_none hbuf (succ_pos _)] at hnext
    exact fits_of_nextOptions m.optionsAt (by rw [hbuf]) hnext
  · rw [p.payloadLen] at hplen
    omega

/-- **The parser on arbitrary bytes.** It stays within them and yields the right packet,
exactly if the header can be looked at and, of a message, everything fits. -/
theorem coapParseUdp_right (cfg : Cfg) (mem : Memory UInt8) (buf len : Nat) (options : Memory OptPos) :
    ParseRight cfg mem buf len options ↔ HeaderReadable cfg mem buf len ∧
      ∀ h os tail, IsMessage cfg mem buf len h os tail → Fits h os tail := by
  constructor
  · intro ⟨r, pkt, hparse, hright⟩
    refine ⟨?_, ?_⟩
    · by_contra hh
      rw [coapParseUdp_none hh] at hparse
      exact absurd hparse (by simp)
    · intro h os tail m
      rw [coapParseUdp_eq m, Option.some.injEq, Prod.mk.injEq] at hparse
      obtain ⟨rfl, rfl⟩ := hparse
      obtain hneg | ⟨-, h', os', tail', p⟩ := hright
      · omega
      · exact p.fits m
  · intro ⟨hh, hfits⟩
    obtain ⟨r, pkt, hparse, hneg | ⟨h, os, tail, m⟩⟩ := @coapParseUdp_sound cfg mem buf len options hh
    · exact ⟨r, pkt, hparse, .inl hneg⟩
    · exact ⟨_, _, coapParseUdp_eq m, .inr ⟨rfl, h, os, tail, m.right (hfits h os tail m)⟩⟩

/-- The bytes `s` from address 1 on. -/
def packetAt (s : List UInt8) : Memory UInt8 := store (fun _ => 0) 1 s

/-- The options 65535, empty, and 65547, with a path segment as its value. -/
def masquerade : List UInt8 := [0x40, 0x01, 0x00, 0x01, 0xE0, 0xFE, 0xF2, 0xC1, 0x61]

/-- Option 65547 is taken for option 11, the path of the URI. -/
theorem not_coapParseUdp_right :
    ¬ ParseRight ⟨16, false⟩ (packetAt masquerade) 1 9 (fun _ => ⟨0, 0⟩) := by
  intro ⟨r, pkt, hparse, hright⟩
  have hbad : (coapParseUdp ⟨16, false⟩ (packetAt masquerade) 1 9 (fun _ => ⟨0, 0⟩)).any
      (fun (r, pkt) => r = 9 ∧ (pkt.options 1).optNum = 11) = true := by decide
  rw [hparse] at hbad
  obtain ⟨rfl, hnum⟩ := of_decide_eq_true hbad
  have m : IsMessage ⟨16, false⟩ (packetAt masquerade) 1 9 4 [(65535, []), (65547, [0x61])] [] :=
    ⟨by decide, by decide, by decide, by simp [fieldMax], .inl rfl, by decide, by decide⟩
  obtain hneg | ⟨-, h, os, tail, p⟩ := hright
  · exact absurd hneg (by decide)
  · obtain ⟨rfl, rfl, rfl⟩ := m.unique p.message
    have hent := p.entries.entries
    have h₁ : pkt.options 1 = ⟨65547, 7⟩ := hent.2.1
    rw [h₁] at hnum
    exact absurd hnum (by decide)

end Riot.Nanocoap
