import Riot.Nanocoap.Builder
import Riot.Nanocoap.ParseSound
import Mathlib

/-!
# Packets that are built and then parsed

The builder and the parser agree on the format. What is lost on the way is the
payload behind an option with number 65535, the number by which the builder
knows that it has put the marker.
-/

namespace Riot.Nanocoap

open Riot.Lib Memory List Option Nat

/-- The token, from `coap_get_token` and `coap_get_token_len`. -/
def coapGetToken (cfg : Cfg) (mem : Memory UInt8) (pkt : Pkt) : Option (List UInt8) :=
  (coapHdrDataPtr cfg (fun a => some (mem a)) pkt.buf).bind fun a =>
    (coapHdrGetTokenLen cfg (fun a => some (mem a)) pkt.buf).map fun n => slice mem a n

/-- The message is parsed, and token, options and payload are found in it. -/
def RoundTrip (cfg : Cfg) (mem : Memory UInt8) (buf len : Nat) (options : Memory OptPos)
    (token : List UInt8) (os : List NumberedOption) (payload : List UInt8) : Prop :=
  ∃ pkt, coapParseUdp cfg mem buf len options = some ((len : Int), pkt) ∧
    coapGetToken cfg mem pkt = some token ∧
    (∀ fuel, os.length < fuel →
      ((nextOptions cfg mem pkt fuel none).map fun x => (x.1, slice mem x.2.1 x.2.2.toNat)) = os) ∧
    slice mem pkt.payload pkt.payloadLen = payload

/-- An empty message carries nothing, and there is no payload behind the option 65535. -/
def Survives (code : UInt8) (token : List UInt8) (os : List NumberedOption) (payload : List UInt8) : Prop :=
  (code = 0 → token = [] ∧ os = [] ∧ payload = []) ∧ (payload ≠ [] → lastNumber 0 os ≠ uint16Max)

variable {cfg : Cfg} {buf offset prev : Nat} {code : UInt8} {token payload : List UInt8}
  {os : List NumberedOption} {s : BuildState} {options : Memory OptPos}

/-! ## Distinct numbers -/

theorem entriesFrom_sorted (henc : OptionsEncodable prev os) :
    ((entriesFrom offset prev os).map OptPos.optNum).Pairwise (· < ·) ∧
      ∀ n ∈ (entriesFrom offset prev os).map OptPos.optNum, prev < n ∧ n ∈ os.map Prod.fst := by
  induction os generalizing offset prev with
  | nil => simp [entriesFrom]
  | cons o os ih =>
    obtain ⟨hle, -, -, hos⟩ := henc
    obtain ⟨hsorted, hmem⟩ := @ih (offset + (encodeOption (o.1 - prev) o.2).length) o.1 hos
    simp only [entriesFrom]
    split
    · refine ⟨hsorted, fun n hn => ?_⟩
      obtain ⟨hlt, hn⟩ := hmem n hn
      exact ⟨by omega, mem_cons_of_mem _ hn⟩
    · refine ⟨pairwise_cons.mpr ⟨fun n hn => (hmem n hn).1, hsorted⟩, fun n hn => ?_⟩
      obtain rfl | hn := mem_cons.mp hn
      · exact ⟨by dsimp only; omega, by simp⟩
      · obtain ⟨hlt, hn⟩ := hmem n hn
        exact ⟨by omega, mem_cons_of_mem _ hn⟩

theorem length_entriesFrom_le_dedup (henc : OptionsEncodable prev os) :
    (entriesFrom offset prev os).length ≤ (os.map Prod.fst).dedup.length := by
  obtain ⟨hsorted, hmem⟩ := @entriesFrom_sorted offset prev os henc
  rw [← length_map OptPos.optNum]
  have hnodup : ((entriesFrom offset prev os).map OptPos.optNum).Nodup := hsorted.imp fun h => by omega
  exact (subperm_of_subset hnodup fun n hn => mem_dedup.mpr (hmem n hn).2).length_le

/-! ## The header -/

theorem IsBuilt.header {rd : Nat → Option UInt8} (h : IsBuilt buf code token os payload s)
    (htkl : token.length ≤ coapTokenLengthMax) (hrd : rd buf = some (s.mem buf)) :
    coapHdrDataPtr cfg rd buf = some (buf + udpHdrSize) ∧ coapHdrGetTokenLen cfg rd buf = some token.length ∧
      coapGetTotalHdrLen cfg rd buf = some (udpHdrSize + token.length) := by
  have h8 : coapTokenLengthMax = 8 := rfl
  have hext : coapHdrTklExtLen cfg (s.mem buf) = some 0 := by
    unfold coapHdrTklExtLen
    split
    · rfl
    · rw [h.tkl, if_neg (by omega), if_neg (by omega), if_neg (by omega)]
  have hlen : coapHdrGetTokenLen cfg rd buf = some token.length := by
    rw [coapHdrGetTokenLen, hrd, bind_some, hext, bind_some, if_pos rfl, h.tkl]
  refine ⟨?_, hlen, ?_⟩
  · unfold coapHdrDataPtr
    split
    · rw [hrd, bind_some, hext, map_some, add_zero]
    · rfl
  · rw [coapGetTotalHdrLen, hrd, bind_some, hext, bind_some, hlen, map_some, add_zero]

theorem IsBuilt.inBounds (h : IsBuilt buf code token os payload s) (htkl : token.length ≤ coapTokenLengthMax) :
    coapIsHdrInBounds cfg (load s.mem buf (buf + s.builder.pos)) buf s.builder.pos = some true := by
  have h8 : coapTokenLengthMax = 8 := rfl
  have h4 : udpHdrSize = 4 := rfl
  have hpos := h.pos
  have hrd : load s.mem buf (buf + s.builder.pos) buf = some (s.mem buf) := load_eq le_rfl (by omega)
  obtain ⟨-, hlen, -⟩ := @IsBuilt.header cfg buf code token payload os s _ h htkl hrd
  unfold coapIsHdrInBounds
  rw [if_neg (by omega)]
  split
  · rename_i hx
    have hext : coapHdrTklExtLen cfg (s.mem buf) = some 0 := by
      unfold coapHdrTklExtLen
      rw [if_neg (by simp [hx])]
      rw [h.tkl, if_neg (by omega), if_neg (by omega), if_neg (by omega)]
    rw [hrd, bind_some, if_neg (by rw [h.tkl]; omega), hext, bind_some, if_neg (by omega), hlen,
      map_some, decide_eq_true (by omega)]
  · rw [hlen, map_some, if_neg (by omega), decide_eq_true (by omega)]

/-! ## The round trip -/

/-- What was built is a message, with what the builder put behind the options. -/
theorem IsBuilt.isMessage (h : IsBuilt buf code token os payload s) (htkl : token.length ≤ coapTokenLengthMax)
    (hdistinct : (os.map Prod.fst).dedup.length ≤ cfg.noptsMax) (hs : Survives code token os payload) :
    ∃ tail, tail.drop 1 = payload ∧
      IsMessage cfg s.mem buf s.builder.pos (udpHdrSize + token.length) os tail := by
  have h4 : udpHdrSize = 4 := rfl
  have hpos := h.pos
  have hrd : load s.mem buf (buf + s.builder.pos) buf = some (s.mem buf) := load_eq le_rfl (by omega)
  obtain ⟨-, -, hlen⟩ := @IsBuilt.header cfg buf code token payload os s _ h htkl hrd
  have hbytes : slice s.mem (buf + (udpHdrSize + token.length)) (s.builder.pos - (udpHdrSize + token.length)) =
      encodeOptions 0 os ++ builtTail (lastNumber 0 os) payload := by
    rw [← h.body.slice_eq, ← add_assoc]
    congr 1
    omega
  have htail : IsTail (builtTail (lastNumber 0 os) payload) ∧
      (builtTail (lastNumber 0 os) payload).drop 1 = payload := by
    unfold builtTail
    split
    · rename_i hp
      exact ⟨.inl rfl, hp.symm⟩
    · rename_i hp
      rw [if_neg (hs.2 hp)]
      exact ⟨.inr ⟨payload, rfl⟩, rfl⟩
  refine ⟨_, htail.2, h.inBounds htkl, hlen, hbytes, h.encodable, htail.1, ?_, ?_⟩
  · intro hcode
    obtain ⟨rfl, rfl, rfl⟩ := hs.1 (h.code ▸ hcode)
    rw [hpos]
    exact le_refl _
  · exact le_trans (length_entriesFrom_le_dedup h.encodable) hdistinct

theorem IsBuilt.token_eq {pkt : Pkt} (h : IsBuilt buf code token os payload s)
    (htkl : token.length ≤ coapTokenLengthMax) (hbuf : pkt.buf = buf) :
    coapGetToken cfg s.mem pkt = some token := by
  obtain ⟨hptr, hlen, -⟩ := @IsBuilt.header cfg buf code token payload os s (fun a => some (s.mem a)) h htkl
    rfl
  rw [coapGetToken, hbuf, hptr, bind_some, hlen, map_some, h.token.slice_eq]

/-- **What was built is parsed to what it was built of.** -/
theorem IsBuilt.roundTrip (h : IsBuilt buf code token os payload s) (htkl : token.length ≤ coapTokenLengthMax)
    (hnum : ∀ o ∈ os, o.1 ≤ uint16Max) (hdistinct : (os.map Prod.fst).dedup.length ≤ cfg.noptsMax)
    (hs : Survives code token os payload) :
    RoundTrip cfg s.mem buf s.builder.pos options token os payload := by
  have hmax : uint16Max = 65535 := rfl
  obtain ⟨tail, htail, m⟩ := h.isMessage htkl hdistinct hs
  obtain ⟨hbuf, hpay, -⟩ := @parsedPkt_spec buf (udpHdrSize + token.length) options os tail m.tail
  have hlen := m.length_eq
  have hle := h.pos_le
  have hsplit : tail.length = (tail.take 1).length + (tail.drop 1).length := by
    rw [← length_append, take_append_drop]
  rw [length_append] at hlen
  have hfits : Fits (udpHdrSize + token.length) os tail :=
    ⟨fun o ho => by have := hnum o ho; omega, by omega, by omega⟩
  have p := @IsMessage.right cfg s.mem buf _ _ options os tail m hfits
  refine ⟨_, coapParseUdp_eq m, h.token_eq htkl hbuf, ?_, ?_⟩
  · intro fuel hfuel
    rw [p.next fuel hfuel]
    exact optionValues_read (holds_append.mp m.holds).1
  · rw [hpay, p.payloadLen, htail]
    have hm := (holds_append.mp m.holds).2
    rw [← take_append_drop 1 tail, holds_append, htail] at hm
    exact hm.2.slice_eq

/-- **Otherwise it is not.** -/
theorem IsBuilt.survives (h : IsBuilt buf code token os payload s) (htkl : token.length ≤ coapTokenLengthMax)
    (hrt : RoundTrip cfg s.mem buf s.builder.pos options token os payload) :
    Survives code token os payload := by
  have hmax : uint16Max = 65535 := rfl
  have h4 : udpHdrSize = 4 := rfl
  have hpos := h.pos
  have hle := h.pos_le
  obtain ⟨pkt, hparse, -, hnext, hpayload⟩ := hrt
  -- the parser took the bytes for some message
  have hh : HeaderReadable cfg s.mem buf s.builder.pos := by
    by_contra hh
    rw [coapParseUdp_none hh] at hparse
    exact absurd hparse (by simp)
  obtain ⟨r, pkt', hparse', hres⟩ := @coapParseUdp_sound cfg s.mem buf s.builder.pos options hh
  obtain ⟨hr, -⟩ := Prod.mk.inj (some.inj (hparse'.symm.trans hparse))
  obtain ⟨h', os', tail', m⟩ := hres.resolve_left (by omega)
  rw [coapParseUdp_eq m] at hparse
  obtain rfl := (Prod.mk.inj (some.inj hparse)).2
  obtain ⟨hbuf, hpay, hplen, -, -⟩ := @parsedPkt_spec buf h' options os' tail' m.tail
  have hrd : load s.mem buf (buf + s.builder.pos) buf = some (s.mem buf) := load_eq le_rfl (by omega)
  obtain ⟨-, -, hhdr⟩ := @IsBuilt.header cfg buf code token payload os s _ h htkl hrd
  obtain rfl : udpHdrSize + token.length = h' := some.inj (hhdr.symm.trans m.hdrLen)
  have hlen := m.length_eq
  constructor
  · intro hcode
    have hshort := m.code (h.code.trans hcode)
    rw [length_append] at hpos
    have hos : os = [] := by
      cases os with
      | nil => rfl
      | cons o os =>
        have := @length_encodeOption_pos (o.1 - 0) o.2
        rw [encodeOptions_cons, length_append] at hpos
        omega
    refine ⟨eq_nil_of_length_eq_zero (by omega), hos, ?_⟩
    by_contra hp
    have : (builtTail (lastNumber 0 os) payload).length ≠ 0 := by
      rw [builtTail, if_neg hp]
      split
      · exact fun h0 => hp (eq_nil_of_length_eq_zero h0)
      · exact succ_ne_zero _
    omega
  · intro hp hlast
    -- as many options were found as were put, so they are the same
    have hcount : os'.length = os.length := by
      have hfound := hnext (os.length + os'.length + 1) (by omega)
      have hlist := @nextOptions_encode cfg s.mem (parsedPkt buf (udpHdrSize + token.length) options os' tail')
        os' (os.length + os'.length + 1) _ 0 (udpHdrSize + token.length) m.optionsAt (by rw [hbuf])
        (by rw [length_append] at hlen; omega) (by omega)
      rw [m.nextOptions_none hbuf (by omega), mod_eq_of_lt (by omega)] at hfound
      rw [zero_mod] at hlist
      rw [hlist] at hfound
      rw [← hfound, length_map, length_map, length_optionValues]
    have heq : encodeOptions 0 os' ++ tail' = encodeOptions 0 os ++ payload := by
      have hbody := h.body
      have htail : builtTail (lastNumber 0 os) payload = payload := by
        rw [builtTail, if_neg hp, if_pos hlast]
      rw [htail] at hbody hpos
      rw [add_assoc] at hbody
      exact m.holds.eq_of_length hbody (by omega)
    obtain ⟨-, rfl⟩ := encodeOptions_cancel m.encodable h.encodable hcount heq
    -- and what follows them was put without a marker
    have hdrop := congrArg length hpayload
    rw [length_slice, hplen, length_drop] at hdrop
    have := length_pos_of_ne_nil hp
    omega

/-- **Building and parsing.** A message for which all calls succeed is parsed to the token,
the options and the payload it was built of, exactly if it is not empty by its code only, and
there is no payload behind an option with number 65535. -/
theorem build_parse (cfg : Cfg) (w : Nat) (mem : Memory UInt8) (buf bufLen type token : Nat)
    (bytes : List UInt8) (code : UInt8) (id : Nat) (os : List NumberedOption) (payload : List UInt8)
    (options : Memory OptPos) (s : BuildState) (htkl : bytes.length ≤ coapTokenLengthMax)
    (ht : TokenAt mem buf token bytes) (hnum : ∀ o ∈ os, o.1 ≤ uint16Max)
    (hdistinct : (os.map Prod.fst).dedup.length ≤ cfg.noptsMax) (hw : payload.length + 1 < 2 ^ w)
    (hbuild : buildMessage cfg w mem buf bufLen type token bytes.length code id os payload = some s) :
    RoundTrip cfg s.mem buf s.builder.pos options bytes os payload ↔ Survives code bytes os payload := by
  have h := isBuilt_of_buildMessage htkl ht hnum hw hbuild
  exact ⟨fun hrt => h.survives htkl hrt, fun hs => h.roundTrip htkl hnum hdistinct hs⟩

/-- A token at address 100. -/
def tokenMemory : Memory UInt8 := store (fun _ => 0) 100 [0xAA]

theorem tokenAt_tokenMemory : TokenAt tokenMemory 1 100 [0xAA] := ⟨holds_store, .inr (.inr (by decide))⟩

/-- A request with a path segment and one byte of payload. -/
theorem build_parse_request : ∃ s,
    buildMessage ⟨16, false⟩ 32 tokenMemory 1 32 0 100 1 1 7 [(11, [0x61])] [0x42] = some s ∧
      RoundTrip ⟨16, false⟩ s.mem 1 s.builder.pos (fun _ => ⟨0, 0⟩) [0xAA] [(11, [0x61])] [0x42] := by
  have hsome : (buildMessage ⟨16, false⟩ 32 tokenMemory 1 32 0 100 1 1 7 [(11, [0x61])] [0x42]).isSome =
      true := by decide
  obtain ⟨s, hs⟩ := Option.isSome_iff_exists.mp hsome
  refine ⟨s, hs, (build_parse ⟨16, false⟩ 32 tokenMemory 1 32 0 100 [0xAA] 1 7 [(11, [0x61])] [0x42]
    (fun _ => ⟨0, 0⟩) s (by decide) tokenAt_tokenMemory (by decide) (by decide) (by decide) hs).mpr ?_⟩
  exact ⟨fun h => absurd h (by decide), fun _ => by decide⟩

/-- The marker is missing between option 65535 and the payload. -/
theorem not_build_parse : ∃ s,
    buildMessage ⟨16, false⟩ 32 tokenMemory 1 32 0 100 1 1 7 [(65535, [])] [0x42] = some s ∧
      ¬ RoundTrip ⟨16, false⟩ s.mem 1 s.builder.pos (fun _ => ⟨0, 0⟩) [0xAA] [(65535, [])] [0x42] := by
  have hsome : (buildMessage ⟨16, false⟩ 32 tokenMemory 1 32 0 100 1 1 7 [(65535, [])] [0x42]).isSome =
      true := by decide
  obtain ⟨s, hs⟩ := Option.isSome_iff_exists.mp hsome
  refine ⟨s, hs, fun hrt => ?_⟩
  have h := isBuilt_of_buildMessage (by decide) tokenAt_tokenMemory (by decide) (by decide) hs
  exact (h.survives (by decide) hrt).2 (by decide) rfl

end Riot.Nanocoap
