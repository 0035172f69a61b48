import Riot.Nanocoap.Packet
import Riot.Lib.OptionFormat

/-!
# What `coap_parse_udp` accepts

The loop over the options accepts the encodings of options, followed by nothing
or by the marker and a payload, and records the options whose number differs
from the one before. Which message it was is decided by the bytes alone.
-/

namespace Riot.Nanocoap

open Riot.Lib Memory List Option Nat

/-- `rd` reads the cells from `lo` to `hi`. -/
def Readable (rd : Nat → Option UInt8) (mem : Memory UInt8) (lo hi : Nat) : Prop :=
  ∀ a, lo ≤ a → a < hi → rd a = some (mem a)

/-- The entries for options above `prev` from `offset` on: one for each option whose
number is not the one before. -/
def entriesFrom : Nat → Nat → List NumberedOption → List OptPos
  | _, _, [] => []
  | offset, prev, o :: os =>
    let rest := entriesFrom (offset + (encodeOption (o.1 - prev) o.2).length) o.1 os
    if o.1 - prev = 0 then rest else ⟨o.1, offset⟩ :: rest

/-- An entry as it is stored, in 16 bits each. -/
def OptPos.truncate (e : OptPos) : OptPos := ⟨e.optNum % 2 ^ 16, e.offset % 2 ^ 16⟩

/-- What follows the options: nothing, or the marker and the payload. -/
def IsTail (tail : List UInt8) : Prop := tail = [] ∨ ∃ payload, tail = coapPayloadMarker :: payload

/-- The bytes are a message: a header of length `h`, options and what follows them.
There are not too many options, and an empty message is nothing but its header. -/
structure IsMessage (cfg : Cfg) (mem : Memory UInt8) (buf len h : Nat) (os : List NumberedOption)
    (tail : List UInt8) : Prop where
  inBounds : coapIsHdrInBounds cfg (load mem buf (buf + len)) buf len = some true
  hdrLen : coapGetTotalHdrLen cfg (load mem buf (buf + len)) buf = some h
  bytes : slice mem (buf + h) (len - h) = encodeOptions 0 os ++ tail
  encodable : OptionsEncodable 0 os
  tail : IsTail tail
  code : mem (buf + 1) = 0 → len ≤ udpHdrSize
  count_le : (entriesFrom h 0 os).length ≤ cfg.noptsMax

/-- The header can be looked at before its bounds are checked: the length of the
token is only needed then if tokens can be extended. -/
def HeaderReadable (cfg : Cfg) (mem : Memory UInt8) (buf len : Nat) : Prop :=
  cfg.tokenExt = true → 0 < len ∧ (mem buf &&& 0x0f).toNat ≠ 15

variable {cfg : Cfg} {rd : Nat → Option UInt8} {mem : Memory UInt8} {lo hi pos pktEnd v delta : Nat}
  {value : List UInt8}

/-! ## Reading -/

theorem readable_load : Readable (load mem lo hi) mem lo hi := fun _ h1 h2 => load_eq h1 h2

theorem readable_some : Readable (fun a => some (mem a)) mem lo hi := fun _ _ _ => rfl

theorem Readable.mono {lo' hi' : Nat} (h : Readable rd mem lo hi) (hlo : lo ≤ lo') (hhi : hi' ≤ hi) :
    Readable rd mem lo' hi' := fun a h1 h2 => h a (by omega) (by omega)

theorem deltaNibble_eq (b : UInt8) : deltaNibble b = b.toNat / 16 := by
  exact shiftRight_eq_div_pow ..

theorem lengthNibble_eq (b : UInt8) : lengthNibble b = b.toNat % 16 := by
  exact and_two_pow_sub_one_eq_mod b.toNat 4

/-! ## Fields -/

theorem decodeValue_encode (hr : Readable rd mem pos pktEnd) (hv : v ≤ fieldMax)
    (hm : Holds mem pos (fieldExt v)) (hle : pos + (fieldExt v).length ≤ pktEnd) :
    decodeValue rd (fieldNibble v) pos pktEnd = some ((v : Int), pos + (fieldExt v).length) := by
  have hmax : fieldMax = 65804 := rfl
  unfold decodeValue
  by_cases h13 : v < 13
  · have hn : fieldNibble v = v := if_pos h13
    have hx : fieldExt v = [] := if_pos h13
    rw [hn, hx, if_neg (by omega), if_neg (by omega), if_neg (by omega)]
    rfl
  by_cases h269 : v < 269
  · have hn : fieldNibble v = 13 := by rw [fieldNibble, if_neg h13, if_pos h269]
    have hx : fieldExt v = [UInt8.ofNat (v - 13)] := by rw [fieldExt, if_neg h13, if_pos h269]
    rw [hx] at hm hle
    rw [length_singleton] at hle
    rw [hn, hx, if_pos rfl, if_neg (by omega), hr pos (by omega) (by omega), hm.1]
    simp only [map_some, UInt8.toNat_ofNat', length_singleton]
    have e : (v - 13) % 2 ^ 8 + 13 = v := by omega
    rw [e]
  · have hn : fieldNibble v = 14 := by rw [fieldNibble, if_neg h13, if_neg h269]
    have hx : fieldExt v = [UInt8.ofNat ((v - 269) / 256), UInt8.ofNat (v - 269)] := by
      rw [fieldExt, if_neg h13, if_neg h269]
    rw [hx] at hm hle
    rw [length_cons, length_singleton] at hle
    rw [hn, hx, if_neg (by omega), if_pos rfl, if_neg (by omega), hr pos (by omega) (by omega),
      hr (pos + 1) (by omega) (by omega), hm.1, hm.2.1]
    simp only [bind_some, map_some, UInt8.toNat_ofNat', length_cons, length_nil]
    have e : 256 * ((v - 269) / 256 % 2 ^ 8) + (v - 269) % 2 ^ 8 + 269 = v := by omega
    rw [e]

theorem field_of_decode {nib : Nat} {s : List UInt8} (h : decodeField nib s = some (v, []))
    (hm : Holds mem pos s) : v ≤ fieldMax ∧ nib = fieldNibble v ∧ Holds mem pos (fieldExt v) ∧
      (fieldExt v).length = s.length := by
  obtain ⟨hmax, hnib, hs⟩ := decodeField_eq_some h
  rw [append_nil] at hs
  subst hs
  exact ⟨hmax, hnib, hm, rfl⟩

/-- A nibble and the bytes behind it are a field within the range, or rejected. -/
theorem decodeValue_spec {nib : Nat} (hle : pos ≤ pktEnd) (hnib : nib ≤ 15) :
    (∃ e p, decodeValue rd nib pos pktEnd = some (e, p) ∧ e < 0) ∨
      ∃ v ≤ fieldMax, nib = fieldNibble v ∧ Holds mem pos (fieldExt v) ∧
        pos + (fieldExt v).length ≤ pktEnd := by
  by_cases h13 : nib = 13
  · by_cases hleft : pktEnd - pos < 1
    · exact .inl ⟨_, _, by rw [decodeValue, if_pos h13, if_pos ⟨hle, hleft⟩], by decide⟩
    · obtain ⟨h1, h2, h3, h4⟩ := @field_of_decode mem pos (13 + (mem pos).toNat) nib [mem pos]
        (show decodeField nib [mem pos] = some (13 + (mem pos).toNat, []) by simp [decodeField, h13])
        (by simp)
      exact .inr ⟨_, h1, h2, h3, by rw [h4, length_singleton]; omega⟩
  by_cases h14 : nib = 14
  · by_cases hleft : pktEnd - pos < 2
    · exact .inl ⟨_, _, by rw [decodeValue, if_neg h13, if_pos h14, if_pos ⟨hle, hleft⟩], by decide⟩
    · obtain ⟨h1, h2, h3, h4⟩ := @field_of_decode mem pos
        (269 + 256 * (mem pos).toNat + (mem (pos + 1)).toNat) nib [mem pos, mem (pos + 1)]
        (by simp [decodeField, h14]) (by simp)
      exact .inr ⟨_, h1, h2, h3, by rw [h4, length_cons, length_singleton]; omega⟩
  by_cases h15 : nib = 15
  · exact .inl ⟨_, _, by rw [decodeValue, if_neg h13, if_neg h14, if_pos h15], by decide⟩
  · obtain ⟨h1, h2, h3, h4⟩ := @field_of_decode mem pos nib nib []
      (by simp [decodeField, show nib < 13 by omega]) holds_nil
    exact .inr ⟨_, h1, h2, h3, by rw [h4, length_nil]; omega⟩

/-! ## One option -/

theorem parts_of_holds (h : Holds mem pos (encodeOption delta value)) :
    mem pos ≠ coapPayloadMarker ∧ deltaNibble (mem pos) = fieldNibble delta ∧
      lengthNibble (mem pos) = fieldNibble value.length ∧ Holds mem (pos + 1) (fieldExt delta) ∧
      Holds mem (pos + 1 + (fieldExt delta).length) (fieldExt value.length) ∧
      Holds mem (pos + 1 + (fieldExt delta).length + (fieldExt value.length).length) value := by
  rw [encodeOption, holds_cons, holds_append, holds_append] at h
  obtain ⟨hhead, hd, hl, hv⟩ := h
  rw [hhead]
  refine ⟨optionHead_ne_marker fieldNibble_le fieldNibble_le, ?_, ?_, hd, hl, hv⟩
  · rw [deltaNibble_eq, optionHead_div fieldNibble_le fieldNibble_le]
  · rw [lengthNibble_eq, optionHead_mod fieldNibble_le fieldNibble_le]

/-- The size of an option's head. -/
def headLength (delta len : Nat) : Nat := 1 + (fieldExt delta).length + (fieldExt len).length

theorem length_encodeOption_eq :
    (encodeOption delta value).length = headLength delta value.length + value.length := length_encodeOption

theorem decode_option (hr : Readable rd mem pos pktEnd) (hd : delta ≤ fieldMax)
    (hv : value.length ≤ fieldMax) (hm : Holds mem pos (encodeOption delta value))
    (hle : pos + headLength delta value.length ≤ pktEnd) :
    decodeValue rd (deltaNibble (mem pos)) (pos + 1) pktEnd =
        some ((delta : Int), pos + 1 + (fieldExt delta).length) ∧
      decodeValue rd (lengthNibble (mem pos)) (pos + 1 + (fieldExt delta).length) pktEnd =
        some ((value.length : Int), pos + headLength delta value.length) := by
  obtain ⟨-, hdn, hln, hde, hle', -⟩ := parts_of_holds hm
  unfold headLength at hle ⊢
  rw [hdn, hln, decodeValue_encode (hr.mono (by omega) le_rfl) hd hde (by omega),
    decodeValue_encode (hr.mono (by omega) le_rfl) hv hle' (by omega)]
  refine ⟨rfl, ?_⟩
  rw [← add_assoc, ← add_assoc]

/-! ## The loop -/

/-- The context with the entries `es` recorded from `cnt` on. -/
def recordAll : Pkt → Nat → List OptPos → Pkt
  | pkt, _, [] => pkt
  | pkt, cnt, e :: es => recordAll (recordOption pkt cnt (e.optNum % 2 ^ 32) e.offset) (cnt + 1) es

/-- The context once the loop has ended in front of `tail` at `pos`. -/
def endOptions (pkt : Pkt) (pos : Nat) : List UInt8 → Pkt
  | [] => pkt
  | _ :: payload => { pkt with payload := pos + 1, payloadLen := payload.length % 2 ^ 16 }

theorem parseOptions_option {fuel count nr : Nat} {pkt : Pkt} (hr : Readable rd mem pos pktEnd)
    (hd : delta ≤ fieldMax) (hv : value.length ≤ fieldMax) (hm : Holds mem pos (encodeOption delta value))
    (hle : pos + headLength delta value.length ≤ pktEnd) :
    parseOptions cfg rd pktEnd (fuel + 1) pos count nr pkt =
      if delta = 0 then
        parseOptions cfg rd pktEnd fuel (pos + (encodeOption delta value).length) count
          ((nr + delta) % 2 ^ 32) pkt
      else if cfg.noptsMax ≤ count then some (.error (-ENOMEM))
      else
        parseOptions cfg rd pktEnd fuel (pos + (encodeOption delta value).length) (count + 1)
          ((nr + delta) % 2 ^ 32) (recordOption pkt count ((nr + delta) % 2 ^ 32) (pos - pkt.buf)) := by
  obtain ⟨hdelta, hlen⟩ := decode_option hr hd hv hm hle
  have hlt : pos < pktEnd := by
    unfold headLength at hle
    omega
  have hnext : pos + headLength delta value.length + value.length =
      pos + (encodeOption delta value).length := by
    rw [length_encodeOption_eq]
    omega
  rw [parseOptions, if_pos hlt, hr pos le_rfl hlt]
  dsimp only
  rw [if_neg (parts_of_holds hm).1, hdelta]
  dsimp only
  rw [if_neg (by omega), hlen]
  dsimp only
  rw [if_neg (by omega), Int.toNat_natCast, Int.toNat_natCast, hnext]
  by_cases h0 : delta = 0
  · rw [if_neg (by simp [h0]), if_pos h0]
  · rw [if_pos (by omega), if_neg h0]

theorem parseOptions_end {fuel count nr : Nat} {pkt : Pkt} (h : pktEnd ≤ pos) :
    parseOptions cfg rd pktEnd fuel pos count nr pkt = some (.ok (pos, count, pkt)) := by
  cases fuel <;> rw [parseOptions, if_neg (by omega)]

theorem parseOptions_marker {fuel count nr : Nat} {pkt : Pkt} (hr : Readable rd mem pos pktEnd)
    (hlt : pos < pktEnd) (hm : mem pos = coapPayloadMarker) :
    parseOptions cfg rd pktEnd (fuel + 1) pos count nr pkt = some (.ok (pos + 1, count, { pkt with
      payload := pos + 1
      payloadLen := (pktEnd - (pos + 1)) % 2 ^ 16 })) := by
  rw [parseOptions, if_pos hlt, hr pos le_rfl hlt]
  dsimp only
  rw [if_pos hm]

@[simp] theorem recordOption_buf {pkt : Pkt} {i n o : Nat} : (recordOption pkt i n o).buf = pkt.buf := rfl

/-- **Options and what follows them are accepted**, and recorded as they are. -/
theorem parseOptions_encode {os : List NumberedOption} {tail : List UInt8} (ht : IsTail tail) :
    ∀ {fuel pos prev count nr offset : Nat} {pkt : Pkt}, Readable rd mem pos pktEnd →
      Holds mem pos (encodeOptions prev os ++ tail) →
      pos + (encodeOptions prev os ++ tail).length = pktEnd → OptionsEncodable prev os →
      pktEnd - pos ≤ fuel → nr = prev % 2 ^ 32 → pkt.buf + offset = pos →
      count + (entriesFrom offset prev os).length ≤ cfg.noptsMax →
      parseOptions cfg rd pktEnd fuel pos count nr pkt =
        some (.ok (pos + (encodeOptions prev os).length + (tail.take 1).length,
          count + (entriesFrom offset prev os).length,
          endOptions (recordAll pkt count (entriesFrom offset prev os))
            (pos + (encodeOptions prev os).length) tail)) := by
  induction os with
  | nil =>
    intro fuel pos prev count nr offset pkt hr hm hend _ hf _ _ _
    rw [encodeOptions_nil, nil_append] at hm hend
    obtain rfl | ⟨payload, rfl⟩ := ht
    · rw [length_nil] at hend
      rw [parseOptions_end (by omega)]
      rfl
    · rw [length_cons] at hend
      cases fuel with
      | zero => omega
      | succ fuel =>
        rw [parseOptions_marker hr (by omega) hm.1]
        have hlen : pktEnd - (pos + 1) = payload.length := by omega
        rw [hlen]
        rfl
  | cons o os ih =>
    intro fuel pos prev count nr offset pkt hr hm hend henc hf hnr hoff hcount
    obtain ⟨hle, hd, hv, hos⟩ := henc
    rw [encodeOptions_cons, append_assoc] at hm hend
    obtain ⟨hmo, hms⟩ := holds_append.mp hm
    rw [length_append] at hend
    have hsize := @length_encodeOption_eq (o.1 - prev) o.2
    have hpos := @length_encodeOption_pos (o.1 - prev) o.2
    cases fuel with
    | zero => omega
    | succ fuel =>
      have hnum : (nr + (o.1 - prev)) % 2 ^ 32 = o.1 % 2 ^ 32 := by omega
      have hlen : pos + (encodeOption (o.1 - prev) o.2 ++ encodeOptions o.1 os).length =
          pos + (encodeOption (o.1 - prev) o.2).length + (encodeOptions o.1 os).length := by
        rw [length_append, add_assoc]
      have hr' := hr.mono (show pos ≤ pos + (encodeOption (o.1 - prev) o.2).length by omega)
        le_rfl
      rw [parseOptions_option hr hd hv hmo (by omega), encodeOptions_cons, hlen, hnum]
      simp only [entriesFrom] at hcount ⊢
      by_cases h0 : o.1 - prev = 0
      · rw [if_pos h0] at hcount ⊢
        rw [if_pos h0]
        exact ih hr' hms (by omega) hos (by omega) rfl (by rw [← hoff, add_assoc]) hcount
      · rw [if_neg h0, length_cons] at hcount
        rw [if_neg h0, if_neg h0, if_neg (by omega), length_cons, recordAll,
          ih hr' hms (by omega) hos (by omega) rfl (by rw [recordOption_buf, ← hoff, add_assoc])
            (by omega)]
        have hoffset : pos - pkt.buf = offset := by omega
        have hsum : count + 1 + (entriesFrom (offset + (encodeOption (o.1 - prev) o.2).length) o.1 os).length =
            count + ((entriesFrom (offset + (encodeOption (o.1 - prev) o.2).length) o.1 os).length + 1) := by
          omega
        rw [hoffset, hsum]

/-- **Only options and what follows them are accepted.** -/
theorem parseOptions_sound (cfg : Cfg) : ∀ (fuel : Nat) {pos count nr : Nat} {pkt : Pkt},
    Readable rd mem pos pktEnd → pktEnd - pos ≤ fuel → count ≤ cfg.noptsMax →
    ∃ r, parseOptions cfg rd pktEnd fuel pos count nr pkt = some r ∧ (∀ e, r = .error e → e < 0) ∧
      ∀ res, r = .ok res → pktEnd < res.1 ∨ ∀ prev, ∃ os tail, Holds mem pos (encodeOptions prev os ++ tail) ∧
        pos + (encodeOptions prev os ++ tail).length = pktEnd ∧ OptionsEncodable prev os ∧ IsTail tail ∧
        ∀ offset, count + (entriesFrom offset prev os).length ≤ cfg.noptsMax := by
  intro fuel
  induction fuel with
  | zero =>
    intro pos count nr pkt _ hf hcount
    refine ⟨_, parseOptions_end (by omega), by simp, ?_⟩
    rintro res ⟨rfl⟩
    by_cases hlt : pktEnd < pos
    · exact .inl hlt
    · exact .inr fun prev => ⟨[], [], holds_nil, by simp; omega, trivial, .inl rfl, fun _ => hcount⟩
  | succ fuel ih =>
    intro pos count nr pkt hr hf hcount
    by_cases hend : pktEnd ≤ pos
    · refine ⟨_, parseOptions_end hend, by simp, ?_⟩
      rintro res ⟨rfl⟩
      by_cases hlt : pktEnd < pos
      · exact .inl hlt
      · exact .inr fun prev => ⟨[], [], holds_nil, by simp; omega, trivial, .inl rfl, fun _ => hcount⟩
    have hlt : pos < pktEnd := by omega
    by_cases hmark : mem pos = coapPayloadMarker
    · refine ⟨_, parseOptions_marker hr hlt hmark, by simp, ?_⟩
      intro res _
      refine .inr fun prev => ⟨[], coapPayloadMarker :: slice mem (pos + 1) (pktEnd - (pos + 1)),
        ⟨hmark, holds_slice⟩, ?_, trivial, .inr ⟨_, rfl⟩, fun _ => hcount⟩
      rw [encodeOptions_nil, nil_append, length_cons, length_slice]
      omega
    -- a head byte: both of its fields are decoded, or the packet is rejected
    have hbad : ∀ e : Int, e < 0 → ∃ r, some (Except.error e) = some r ∧ (∀ e, r = .error e → e < 0) ∧
        ∀ res : Nat × Nat × Pkt, r = .ok res → pktEnd < res.1 ∨ ∀ prev, ∃ os tail,
          Holds mem pos (encodeOptions prev os ++ tail) ∧
          pos + (encodeOptions prev os ++ tail).length = pktEnd ∧ OptionsEncodable prev os ∧
          IsTail tail ∧ ∀ offset, count + (entriesFrom offset prev os).length ≤ cfg.noptsMax := by
      intro e he
      refine ⟨_, rfl, ?_, by simp⟩
      rintro e' ⟨rfl⟩
      exact he
    have hb := (mem pos).toNat_lt
    obtain ⟨e, p, hdec, he⟩ | ⟨delta, hd, hdn, hdm, hdle⟩ :=
      @decodeValue_spec rd mem (pos + 1) pktEnd (deltaNibble (mem pos)) (by omega)
        (by rw [deltaNibble_eq]; omega)
    · rw [parseOptions, if_pos hlt, hr pos le_rfl hlt]
      dsimp only
      rw [if_neg hmark, hdec]
      dsimp only
      rw [if_pos he]
      exact hbad _ (by decide)
    obtain ⟨e, p, hdec, he⟩ | ⟨len, hl, hln, hlm, hlle⟩ :=
      @decodeValue_spec rd mem (pos + 1 + (fieldExt delta).length) pktEnd (lengthNibble (mem pos)) hdle
        (by rw [lengthNibble_eq]; omega)
    · rw [parseOptions, if_pos hlt, hr pos le_rfl hlt]
      dsimp only
      rw [if_neg hmark, hdn, decodeValue_encode (hr.mono (by omega) le_rfl) hd hdm hdle]
      dsimp only
      rw [if_neg (by omega), hdec]
      dsimp only
      rw [if_pos he]
      exact hbad _ (by decide)
    -- so the bytes from here on are an option, its value possibly beyond the end
    obtain ⟨value, hval, hv⟩ : ∃ value : List UInt8, value.length = len ∧
        Holds mem (pos + 1 + (fieldExt delta).length + (fieldExt len).length) value :=
      ⟨_, length_slice, holds_slice⟩
    subst hval
    have hopt : Holds mem pos (encodeOption delta value) := by
      rw [encodeOption, holds_cons, holds_append, holds_append]
      refine ⟨?_, hdm, hlm, hv⟩
      rw [← hdn, ← hln, deltaNibble_eq, lengthNibble_eq, optionHead_self]
    have hhead : pos + headLength delta value.length ≤ pktEnd := by
      unfold headLength
      omega
    have hpos := @length_encodeOption_pos delta value
    rw [parseOptions_option hr hd hl hopt hhead]
    -- the rest was parsed, and the option is put in front of it
    have hcons : ∀ {count' : Nat} {res : Nat × Nat × Pkt} (_ : count' = count + if delta = 0 then 0 else 1),
        (pktEnd < res.1 ∨ ∀ prev, ∃ os tail,
          Holds mem (pos + (encodeOption delta value).length) (encodeOptions prev os ++ tail) ∧
          pos + (encodeOption delta value).length + (encodeOptions prev os ++ tail).length = pktEnd ∧
          OptionsEncodable prev os ∧ IsTail tail ∧
          ∀ offset, count' + (entriesFrom offset prev os).length ≤ cfg.noptsMax) →
        pktEnd < res.1 ∨ ∀ prev, ∃ os tail, Holds mem pos (encodeOptions prev os ++ tail) ∧
          pos + (encodeOptions prev os ++ tail).length = pktEnd ∧ OptionsEncodable prev os ∧ IsTail tail ∧
          ∀ offset, count + (entriesFrom offset prev os).length ≤ cfg.noptsMax := by
      intro count' res hc h
      refine h.imp_right fun h prev => ?_
      obtain ⟨os, tail, hm, hlen, henc, htail, hmax⟩ := h (prev + delta)
      have e : prev + delta - prev = delta := by omega
      refine ⟨(prev + delta, value) :: os, tail, ?_, ?_, ?_, htail, ?_⟩
      · rw [encodeOptions_cons, append_assoc, holds_append, e]
        exact ⟨hopt, hm⟩
      · rw [encodeOptions_cons, append_assoc, e, length_append]
        dsimp only
        omega
      · exact ⟨by dsimp only; omega, by rw [e]; exact hd, hl, henc⟩
      · intro offset
        have := hmax (offset + (encodeOption delta value).length)
        simp only [entriesFrom, e]
        split
        · rename_i h0
          omega
        · rename_i h0
          rw [if_neg h0] at hc
          rw [length_cons]
          omega
    have hr' := hr.mono (show pos ≤ pos + (encodeOption delta value).length by omega) le_rfl
    split
    · rename_i h0
      obtain ⟨r, hres, herr, hok⟩ := ih hr' (by omega) hcount
      exact ⟨r, hres, herr, fun res hr => hcons (by rw [if_pos h0, add_zero]) (hok res hr)⟩
    · rename_i h0
      split
      · exact hbad _ (by decide)
      · obtain ⟨r, hres, herr, hok⟩ := ih hr' (by omega) (show count + 1 ≤ cfg.noptsMax by omega)
        exact ⟨r, hres, herr, fun res hr => hcons (by rw [if_neg h0]) (hok res hr)⟩

/-! ## The header -/

theorem coapHdrDataPtr_none {buf len : Nat} :
    coapHdrDataPtr cfg (load mem buf (buf + len)) buf = none ↔ ¬ HeaderReadable cfg mem buf len := by
  unfold coapHdrDataPtr HeaderReadable
  by_cases hx : cfg.tokenExt = true
  · rw [if_pos hx]
    by_cases hlen : 0 < len
    · rw [load_eq le_rfl (by omega), bind_some, coapHdrTklExtLen, if_neg (by simp [hx])]
      dsimp only
      split_ifs <;> simp_all
    · rw [load, if_neg (by omega)]
      simp [hx, hlen]
  · simp [hx]

/-- The bounds of a readable header are checked; one within bounds has a length. -/
theorem coapIsHdrInBounds_spec {buf len : Nat} (hh : HeaderReadable cfg mem buf len) :
    ∃ b, coapIsHdrInBounds cfg (load mem buf (buf + len)) buf len = some b ∧
      (b = true → udpHdrSize ≤ len ∧ ∃ h tkl p, coapHdrDataPtr cfg (load mem buf (buf + len)) buf = some p ∧
        coapHdrGetTokenLen cfg (load mem buf (buf + len)) buf = some tkl ∧ p + tkl = buf + h ∧
        udpHdrSize ≤ h ∧ h ≤ len ∧ coapGetTotalHdrLen cfg (load mem buf (buf + len)) buf = some h) := by
  have hsize : udpHdrSize = 4 := rfl
  unfold coapIsHdrInBounds
  by_cases hlen : len < udpHdrSize
  · exact ⟨false, if_pos hlen, by simp⟩
  rw [if_neg hlen]
  have hb : load mem buf (buf + len) buf = some (mem buf) := load_eq le_rfl (by omega)
  by_cases hx : cfg.tokenExt = true
  · obtain ⟨-, h15⟩ := hh hx
    rw [if_pos hx, hb, bind_some, if_neg h15]
    obtain ⟨ext, hext, hext2⟩ : ∃ ext, coapHdrTklExtLen cfg (mem buf) = some ext ∧ ext ≤ 2 := by
      unfold coapHdrTklExtLen
      dsimp only
      split_ifs
      · exact ⟨1, rfl, by omega⟩
      · exact ⟨2, rfl, by omega⟩
      · exact ⟨0, rfl, by omega⟩
    rw [hext, bind_some]
    by_cases hlen' : len < udpHdrSize + ext
    · exact ⟨false, if_pos hlen', by simp⟩
    rw [if_neg hlen']
    obtain ⟨tkl, htkl⟩ : ∃ tkl, coapHdrGetTokenLen cfg (load mem buf (buf + len)) buf = some tkl := by
      unfold coapHdrGetTokenLen
      rw [hb, bind_some, hext, bind_some]
      split_ifs
      · exact ⟨_, rfl⟩
      · rw [load_eq (by omega) (by omega)]
        exact ⟨_, rfl⟩
      · rw [load_eq (by omega) (by omega), load_eq (by omega) (by omega)]
        exact ⟨_, rfl⟩
    rw [htkl]
    refine ⟨_, rfl, fun hle => ⟨by omega, udpHdrSize + ext + tkl, tkl, buf + udpHdrSize + ext, ?_, rfl,
      by omega, by omega, of_decide_eq_true hle, ?_⟩⟩
    · rw [coapHdrDataPtr, if_pos hx, hb, bind_some, hext, map_some]
    · rw [coapGetTotalHdrLen, hb, bind_some, hext, bind_some, htkl, map_some]
  · rw [if_neg hx]
    have hext : coapHdrTklExtLen cfg (mem buf) = some 0 := if_pos hx
    have htkl : coapHdrGetTokenLen cfg (load mem buf (buf + len)) buf = some (mem buf &&& 0x0f).toNat := by
      rw [coapHdrGetTokenLen, hb, bind_some, hext, bind_some, if_pos rfl]
    rw [htkl, map_some]
    refine ⟨_, rfl, fun hle => ⟨by omega, udpHdrSize + (mem buf &&& 0x0f).toNat, _, buf + udpHdrSize, ?_,
      rfl, by omega, by omega, ?_, ?_⟩⟩
    · rw [coapHdrDataPtr, if_neg hx]
    · split at hle
      · exact absurd hle (by decide)
      · exact of_decide_eq_true hle
    · rw [coapGetTotalHdrLen, hb, bind_some, hext, bind_some, htkl, map_some, add_zero]

/-! ## The packet -/

/-- The context for a message. -/
def parsedPkt (buf h : Nat) (options : Memory OptPos) (os : List NumberedOption) (tail : List UInt8) : Pkt :=
  let entries := entriesFrom h 0 os
  let pkt := endOptions (recordAll
    ⟨buf, 0, 0, 0, options, fun _ => false⟩ 0 entries) (buf + h + (encodeOptions 0 os).length) tail
  { pkt with
    optionsLen := entries.length % 2 ^ 16
    payload :=
      if pkt.payload = 0 then buf + h + (encodeOptions 0 os).length + (tail.take 1).length else pkt.payload }

variable {buf len h : Nat} {options : Memory OptPos} {os : List NumberedOption} {tail : List UInt8}

theorem IsMessage.header (m : IsMessage cfg mem buf len h os tail) :
    HeaderReadable cfg mem buf len ∧ udpHdrSize ≤ h ∧ h ≤ len ∧ ∃ tkl p,
      coapHdrDataPtr cfg (load mem buf (buf + len)) buf = some p ∧
      coapHdrGetTokenLen cfg (load mem buf (buf + len)) buf = some tkl ∧ p + tkl = buf + h := by
  have hh : HeaderReadable cfg mem buf len := by
    intro hx
    have hin := m.inBounds
    have hsize : udpHdrSize = 4 := rfl
    rw [coapIsHdrInBounds, if_pos hx] at hin
    split at hin
    · exact absurd hin (by simp)
    · rw [load_eq le_rfl (by omega), bind_some] at hin
      split at hin
      · exact absurd hin (by simp)
      · rename_i h15
        exact ⟨by omega, h15⟩
  obtain ⟨b, hb, hspec⟩ := coapIsHdrInBounds_spec hh
  obtain ⟨-, h', tkl, p, hp, htkl, hsum, hle, hlen, hh'⟩ := hspec (some.inj (hb.symm.trans m.inBounds))
  obtain rfl : h' = h := some.inj (hh'.symm.trans m.hdrLen)
  exact ⟨hh, hle, hlen, tkl, p, hp, htkl, hsum⟩

theorem IsMessage.length_eq (m : IsMessage cfg mem buf len h os tail) :
    h + (encodeOptions 0 os ++ tail).length = len := by
  have hlen := congrArg length m.bytes
  rw [length_slice] at hlen
  have := m.header.2.2.1
  omega

theorem IsMessage.holds (m : IsMessage cfg mem buf len h os tail) :
    Holds mem (buf + h) (encodeOptions 0 os ++ tail) := m.bytes ▸ holds_slice

/-- **A message is accepted**, and its options recorded. -/
theorem coapParseUdp_eq (m : IsMessage cfg mem buf len h os tail) :
    coapParseUdp cfg mem buf len options = some ((len : Int), parsedPkt buf h options os tail) := by
  obtain ⟨-, hsize, hle, tkl, p, hp, htkl, hsum⟩ := m.header
  have hlen := m.length_eq
  have hsz : udpHdrSize = 4 := rfl
  have htake : (tail.take 1).length ≤ tail.length := by
    rw [length_take]
    omega
  rw [length_append] at hlen
  unfold coapParseUdp
  dsimp only
  rw [hp, m.inBounds]
  rw [load_eq (by omega) (by omega)]
  dsimp only
  rw [if_neg (fun ⟨hc, hl⟩ => absurd (m.code hc) (by omega)), htkl]
  dsimp only
  rw [hsum, parseOptions_encode m.tail (readable_load.mono (by omega) le_rfl) m.holds
    (by rw [length_append]; omega) m.encodable (by omega) (zero_mod _).symm rfl
    (by rw [zero_add]; exact m.count_le)]
  dsimp only
  rw [if_neg (by omega), zero_add]
  rfl

/-- **Only messages are accepted**, and the buffer is not left. -/
theorem coapParseUdp_sound (hh : HeaderReadable cfg mem buf len) :
    ∃ r pkt, coapParseUdp cfg mem buf len options = some (r, pkt) ∧
      (r < 0 ∨ ∃ h os tail, IsMessage cfg mem buf len h os tail) := by
  have hsz : udpHdrSize = 4 := rfl
  obtain ⟨p0, hp0⟩ := ne_none_iff_exists'.mp fun hn => coapHdrDataPtr_none.mp hn hh
  obtain ⟨b, hb, hspec⟩ := coapIsHdrInBounds_spec hh
  unfold coapParseUdp
  dsimp only
  rw [hp0, hb]
  cases b with
  | false => exact ⟨_, _, rfl, .inl (by decide)⟩
  | true =>
    obtain ⟨hlen, h, tkl, p, hp, htkl, hsum, hsize, hle, hhdr⟩ := hspec rfl
    obtain rfl : p0 = p := some.inj (hp0.symm.trans hp)
    rw [load_eq (by omega) (by omega)]
    dsimp only
    split
    · exact ⟨_, _, rfl, .inl (by decide)⟩
    rename_i hcode
    rw [htkl]
    dsimp only
    obtain ⟨r, hr, herr, hok⟩ := @parseOptions_sound (load mem buf (buf + len)) mem (buf + len) cfg len
      (p0 + tkl) 0 0 ⟨buf, 0, 0, 0, options, fun _ => false⟩
      (readable_load.mono (by omega) le_rfl) (by omega) (zero_le _)
    rw [hr]
    cases r with
    | error e => exact ⟨_, _, rfl, .inl (herr e rfl)⟩
    | ok res =>
      dsimp only
      split
      · exact ⟨_, _, rfl, .inl (by decide)⟩
      · rename_i hpos
        refine ⟨_, _, rfl, .inr ?_⟩
        obtain hgt | hmsg := hok _ rfl
        · exact absurd hgt hpos
        obtain ⟨os, tail, hm, hend, henc, htail, hmax⟩ := hmsg 0
        rw [hsum] at hm hend
        refine ⟨h, os, tail, hb, hhdr, ?_, henc, htail, ?_, ?_⟩
        · rw [← hm.slice_eq]
          congr 1
          omega
        · intro hc
          by_contra hlt
          exact hcode ⟨hc, by omega⟩
        · have := hmax h
          omega

theorem coapParseUdp_none (hh : ¬ HeaderReadable cfg mem buf len) :
    coapParseUdp cfg mem buf len options = none := by
  unfold coapParseUdp
  dsimp only
  rw [coapHdrDataPtr_none.mpr hh]

theorem IsMessage.unique {h' : Nat} {os' : List NumberedOption} {tail' : List UInt8}
    (m : IsMessage cfg mem buf len h os tail) (m' : IsMessage cfg mem buf len h' os' tail') :
    h' = h ∧ os' = os ∧ tail' = tail := by
  obtain rfl : h' = h := some.inj (m'.hdrLen.symm.trans m.hdrLen)
  obtain ⟨rfl, rfl⟩ := encodeOptions_unique m'.encodable m.encodable m'.tail m.tail
    (m'.bytes.symm.trans m.bytes)
  exact ⟨rfl, rfl, rfl⟩

end Riot.Nanocoap
