import Riot.Unicoap.Assemble
import Riot.Unicoap.ParseRun

/-!
# PDUs of CoAP over UDP (`unicoap/drivers/rfc7252/common/pdu`)

A header of four bytes, the token, options, and the payload behind a marker.
-/

namespace Riot.Unicoap

open Riot.Lib Memory List

def EBADMSG : Int := 74

/-- `sizeof(unicoap_header_rfc7252_t)` -/
def headerSize : Nat := 4

/-- `unicoap_message_properties_t`; the token's length is 4 bits wide, the type 3, the id 16. -/
structure Properties where
  token : Nat
  tokenLength : Nat
  type : Nat
  id : Nat

/-- What `unicoap_pdu_parse_rfc7252` writes. -/
structure ParserResult where
  code : UInt8
  message : Message
  properties : Properties

def getVersion (head : UInt8) : Nat := (head >>> 6).toNat

def getType (head : UInt8) : Nat := ((head &&& 0x30) >>> 4).toNat

def getTokenLength (head : UInt8) : Nat := (head &&& 0xf).toNat

/-- `unicoap_pdu_parse_rfc7252`; tokens have at most `tokenMax` bytes. -/
def unicoapPduParseRfc7252 (cfg : Cfg) (tokenMax : Nat) (mem : Memory UInt8) (pdu size : Nat) (m : ParserResult) :
    Option (Int × ParserResult) :=
  if size < headerSize then some (-EBADMSG, m)
  else if getVersion (mem pdu) ≠ 1 then some (-EBADMSG, m)
  else if mem (pdu + 1) = 0 ∧ headerSize < size then some (-EBADMSG, m)
  else
    let tokenLength := getTokenLength (mem pdu)
    let m := { m with
      code := mem (pdu + 1)
      properties :=
        { token := pdu + headerSize
          tokenLength := tokenLength
          type := getType (mem pdu)
          id := bebuftohs (mem (pdu + 2)) (mem (pdu + 3)) } }
    if tokenMax < tokenLength then some (-EBADMSG, m)
    else if pdu + size < pdu + headerSize + tokenLength then some (-EBADMSG, m)
    else
      (unicoapPduParseOptionsAndPayload cfg mem (pdu + headerSize + tokenLength) (pdu + size) m.message).map
        fun (r, message) => (r, { m with message := message })

/-- The first byte of a header of version 1. -/
def headByte (type tokenLength : Nat) : UInt8 := UInt8.ofNat (1 <<< 6 ||| type <<< 4 ||| tokenLength)

/-- `unicoap_pdu_build_header_rfc7252`; a violated assertion, and a token that overlaps
its copy, have no result. -/
def unicoapPduBuildHeaderRfc7252 (mem : Memory UInt8) (header capacity : Nat) (code : UInt8) (p : Properties) :
    Option (Int × Memory UInt8) :=
  if 15 < p.tokenLength then none
  else if capacity < headerSize + p.tokenLength then some (-ENOBUFS, mem)
  else if 3 < p.type then none
  else
    let mem := store mem header [headByte p.type p.tokenLength, code, UInt8.ofNat (p.id / 256), UInt8.ofNat p.id]
    if p.token < header + headerSize + p.tokenLength ∧ header + headerSize < p.token + p.tokenLength then none
    else some (headerSize + p.tokenLength, store mem (header + headerSize) (slice mem p.token p.tokenLength))

def unicoapPduBuildRfc7252 {w : Nat} (mem : Memory UInt8) (pdu capacity : Nat) (code : UInt8) (message : PduMessage w)
    (p : Properties) : Option (Int × Memory UInt8) :=
  (unicoapPduBuildHeaderRfc7252 mem pdu capacity code p).map fun (res, mem) =>
    if res < 0 then (res, mem)
    else
      match pduBuildOptionsAndPayload mem (pdu + res.toNat) (capacity - res.toNat) message with
      | (n, mem) => (n + res, mem)

/-! ## What a PDU says -/

/-- A PDU of version 1. -/
structure Pdu where
  type : Nat
  code : UInt8
  id : Nat
  token : List UInt8
  options : List NumberedOption
  /-- Nothing, or the marker and the payload. -/
  tail : List UInt8
  type_le : type ≤ 3
  id_lt : id < 2 ^ 16
  token_le : token.length ≤ 15
  encodable : OptionsEncodable 0 options
  tail_end : tail = [] ∨ ∃ payload, tail = payloadMarker :: payload

namespace Pdu

def header (p : Pdu) : List UInt8 :=
  [headByte p.type p.token.length, p.code, UInt8.ofNat (p.id / 256), UInt8.ofNat p.id]

def bytes (p : Pdu) : List UInt8 := p.header ++ (p.token ++ (encodeOptions 0 p.options ++ p.tail))

/-- The parser takes the PDU: an empty message is nothing but its header, and neither
the token nor the options are too many. -/
structure Taken (cfg : Cfg) (tokenMax : Nat) (p : Pdu) : Prop where
  empty : p.code = 0 → p.bytes.length = headerSize
  token : p.token.length ≤ tokenMax
  options : p.options.length ≤ cfg.optionsMax

/-- Numbers and sizes of the options fit 16 bits. -/
def Fits16 (p : Pdu) : Prop := (∀ o ∈ p.options, o.1 < 2 ^ 16) ∧ Small p.options

/-- The PDU is what the parser found. -/
structure Found (cfg : Cfg) (mem : Memory UInt8) (m : ParserResult) (p : Pdu) : Prop where
  code : m.code = p.code
  type : m.properties.type = p.type
  id : m.properties.id = p.id
  token : slice mem m.properties.token m.properties.tokenLength = p.token
  options : Stored cfg (m.properties.token + m.properties.tokenLength) ⟨mem, m.message.options⟩ p.options
  payload : slice mem m.message.payload m.message.payloadSize = p.tail.drop 1

end Pdu

/-! ## Options are accepted -/

variable {cfg : Cfg} {mem : Memory UInt8} {start last cursor v delta prev tokenMax pdu size : Nat} {value tail : List UInt8}
  {os : List NumberedOption} {m : ParserResult} {p : Pdu}

theorem uintReadInRange_encode (hv : v ≤ fieldMax) (hm : Holds mem cursor (fieldExt v)) (hs : start ≤ cursor)
    (hl : cursor + (fieldExt v).length ≤ last) :
    uintReadInRange mem start last (fieldNibble v) cursor = some (some (v, cursor + (fieldExt v).length)) := by
  have hmax : fieldMax = 65804 := rfl
  unfold fieldExt at hm hl
  unfold uintReadInRange fieldNibble fieldExt
  by_cases h13 : v < 13
  · simp [h13]
  by_cases h269 : v < 269
  · simp only [h13, h269, if_false, if_true, holds_cons, length_singleton] at hm hl
    have e : 13 + (v - 13) % 256 = v := by omega
    simp [h13, h269, not_lt.mpr hl, load_eq hs (show cursor < last by omega), hm.1, e]
  · simp only [h13, h269, if_false, holds_cons, length_cons, length_nil] at hm hl
    have e : 269 + (256 * ((v - 269) / 256 % 256) + (v - 269) % 256) = v := by omega
    simp [h13, h269, show ¬ last < cursor + 2 by omega, load_eq hs (show cursor < last by omega),
      load_eq (show start ≤ cursor + 1 by omega) (show cursor + 1 < last by omega), hm.1, hm.2.1, bebuftohs, e]

theorem readOptionInRange_encode (hd : delta ≤ fieldMax) (hv : value.length ≤ fieldMax)
    (hm : Holds mem cursor (encodeOption delta value)) (hs : start ≤ cursor)
    (hl : cursor + (encodeOption delta value).length ≤ last) :
    readOptionInRange mem start last cursor =
      some (.option (delta % 2 ^ 16) (cursor + (encodeOption delta value).length)) := by
  rw [length_encodeOption] at hl
  rw [encodeOption, holds_cons, holds_append, holds_append] at hm
  obtain ⟨hhead, hde, hle, -⟩ := hm
  unfold readOptionInRange
  rw [load_eq hs (by omega), hhead]
  dsimp only
  rw [if_neg (show ¬ _ = payloadMarker from optionHead_ne_marker fieldNibble_le fieldNibble_le), decodeDeltaNibble_eq,
    decodeLengthNibble_eq, optionHead_div fieldNibble_le fieldNibble_le, optionHead_mod fieldNibble_le fieldNibble_le,
    uintReadInRange_encode hd hde (by omega) (by omega)]
  dsimp only
  rw [uintReadInRange_encode hv hle (by omega) (by omega)]
  dsimp only
  rw [if_neg (by omega), length_encodeOption, ← add_assoc, ← add_assoc, ← add_assoc]

/-- The loop takes options and what follows them, unless they are too many. -/
theorem parseLoop_encode (ht : tail = [] ∨ ∃ payload, tail = payloadMarker :: payload) :
    ∀ {fuel cursor num prev : Nat} {message : Message}, start ≤ cursor → last - cursor ≤ fuel →
      Holds mem cursor (encodeOptions prev os ++ tail) → cursor + (encodeOptions prev os ++ tail).length = last →
      OptionsEncodable prev os → message.options.optionCount ≤ cfg.optionsMax →
      ∃ message', parseLoop cfg mem start last fuel cursor num message =
        some (if cfg.optionsMax < message.options.optionCount + os.length then -ENOBUFS else 0, message') := by
  induction os with
  | nil =>
    intro fuel cursor num prev message hs hf hm hend _ hc
    rw [encodeOptions_nil, nil_append] at hm hend
    rw [length_nil, add_zero, if_neg (not_lt.mpr hc)]
    obtain rfl | ⟨payload, rfl⟩ := ht
    · have hge : ¬ cursor < last := by simpa using le_of_eq hend.symm
      cases fuel <;> exact ⟨_, by rw [parseLoop, if_neg hge]⟩
    · rw [length_cons] at hend
      cases fuel with
      | zero => omega
      | succ fuel =>
        rw [parseLoop, if_pos (by omega), readOptionInRange, load_eq hs (by omega)]
        dsimp only
        rw [if_pos hm.1]
        exact ⟨_, rfl⟩
  | cons o os ih =>
    intro fuel cursor num prev message hs hf hm hend henc hc
    obtain ⟨-, hd, hv, hos⟩ := henc
    have hpos := @length_encodeOption_pos (o.1 - prev) o.2
    rw [encodeOptions_cons, append_assoc] at hm hend
    obtain ⟨hmo, hms⟩ := holds_append.mp hm
    rw [length_append] at hend
    cases fuel with
    | zero => omega
    | succ fuel =>
      rw [parseLoop, if_pos (by omega), readOptionInRange_encode hd hv hmo hs (by omega)]
      dsimp only
      by_cases hfull : cfg.optionsMax ≤ message.options.optionCount
      · rw [if_pos hfull, if_pos (by rw [length_cons]; omega)]
        exact ⟨_, rfl⟩
      · rw [if_neg hfull, length_cons, add_comm os.length, ← add_assoc]
        exact ih (by omega) (by omega) hms (by omega) hos (not_le.mp hfull)

/-! ## Headers -/

theorem headByte_get {type n : Nat} (ht : type ≤ 3) (hn : n ≤ 15) : getVersion (headByte type n) = 1 ∧
    getType (headByte type n) = type ∧ getTokenLength (headByte type n) = n := by
  have h : ∀ t : Fin 4, ∀ n : Fin 16, getVersion (headByte t n) = 1 ∧ getType (headByte t n) = t ∧
      getTokenLength (headByte t n) = n := by decide
  exact h ⟨type, by omega⟩ ⟨n, by omega⟩

/-! ## The parser -/

theorem length_bytes : p.bytes.length = headerSize + p.token.length + (encodeOptions 0 p.options ++ p.tail).length := by
  rw [Pdu.bytes, length_append, length_append, add_assoc]
  rfl

theorem Tail.payload_eq {message message' : Message} (h : Tail start cursor message message' tail)
    (hm : Holds mem cursor tail) (h0 : message.payloadSize = 0) :
    slice mem message'.payload message'.payloadSize = tail.drop 1 := by
  cases h with
  | none _ _ hs => rw [hs, h0]; rfl
  | payload bytes hs hp _ =>
    rw [hs, hp]
    cases bytes with
    | nil => rfl
    | cons b bytes => exact hm.2.slice_eq

/-- What the options' parser makes of the options of a PDU. -/
theorem parse_options (hm : Holds mem start (encodeOptions 0 p.options ++ p.tail))
    (hl : start + (encodeOptions 0 p.options ++ p.tail).length = last) (message : Message) :
    ∃ r message', unicoapPduParseOptionsAndPayload cfg mem start last message = some (r, message') ∧
      (r = 0 ↔ p.options.length ≤ cfg.optionsMax) ∧
      (r = 0 → Parsed cfg mem start last message message' p.options p.tail) := by
  obtain ⟨message', hr⟩ := @parseLoop_encode cfg mem start last p.tail p.options p.tail_end (last - start) start 0 0
    (emptyMessage start last message) le_rfl le_rfl hm hl p.encodable (Nat.zero_le _)
  obtain ⟨r, message1, hspec, hres⟩ := parse_spec cfg mem message (show start ≤ last by omega)
  obtain ⟨rfl, rfl⟩ := Prod.mk.inj (Option.some.inj (hspec.symm.trans hr))
  refine ⟨_, _, hr, ?_, fun h0 => ?_⟩
  · rw [show (emptyMessage start last message).options.optionCount + p.options.length = _ from zero_add _]
    split
    · exact ⟨fun h0 => absurd h0 (by decide), fun hle => absurd hle (not_le.mpr ‹_›)⟩
    · exact ⟨fun _ => not_lt.mp ‹_›, fun _ => rfl⟩
  · obtain hneg | ⟨-, os, tail, h⟩ := hres
    · exact absurd h0 (Int.ne_of_lt hneg)
    · have heq : encodeOptions 0 os ++ tail = encodeOptions 0 p.options ++ p.tail :=
        h.mem.eq_of_length hm (by have := h.last_eq; omega)
      obtain ⟨rfl, rfl⟩ := encodeOptions_unique h.encodable p.encodable h.tail.end_or_marker p.tail_end heq
      exact h

theorem parse_bytes (hm : Holds mem pdu p.bytes) (m : ParserResult) :
    ∃ r m', unicoapPduParseRfc7252 cfg tokenMax mem pdu p.bytes.length m = some (r, m') ∧
      (r = 0 ↔ p.Taken cfg tokenMax) ∧
      (r = 0 → m.message.payloadSize = 0 → p.Fits16 → p.Found cfg mem m') := by
  have h4 : headerSize = 4 := rfl
  have hlen := @length_bytes p
  have hno : ¬ (-EBADMSG : Int) = 0 := by decide
  obtain ⟨hv, ht, hk⟩ := headByte_get p.type_le p.token_le
  rw [Pdu.bytes, holds_append, holds_append] at hm
  obtain ⟨⟨hhead, hcode, hhi, hlo, -⟩, htoken, hbody⟩ := hm
  have hid : bebuftohs (mem (pdu + 2)) (mem (pdu + 3)) = p.id := by
    have := p.id_lt
    rw [hhi, hlo, bebuftohs, UInt8.toNat_ofNat', UInt8.toNat_ofNat']
    omega
  unfold unicoapPduParseRfc7252
  rw [if_neg (by omega), hhead, hv, if_neg (by decide), hcode, ht, hk, hid]
  by_cases hempty : p.code = 0 ∧ headerSize < p.bytes.length
  · rw [if_pos hempty]
    refine ⟨_, _, rfl, ⟨fun h => absurd h hno, fun h => ?_⟩, fun h => absurd h hno⟩
    have := h.empty hempty.1
    omega
  rw [if_neg hempty]
  dsimp only
  by_cases hlong : tokenMax < p.token.length
  · rw [if_pos hlong]
    exact ⟨_, _, rfl, ⟨fun h => absurd h hno, fun h => absurd h.token (not_le.mpr hlong)⟩, fun h => absurd h hno⟩
  rw [if_neg hlong, if_neg (by omega)]
  obtain ⟨r, message', hr, htaken, hparsed⟩ := @parse_options cfg mem _ (pdu + p.bytes.length) p
    (show Holds mem (pdu + headerSize + p.token.length) _ from hbody) (by omega) m.message
  rw [hr]
  refine ⟨_, _, rfl, htaken.trans ⟨fun h => ⟨fun h0 => ?_, by omega, h⟩, fun h => h.options⟩, fun h0 hp hfits => ?_⟩
  · by_contra hne
    exact hempty ⟨h0, by omega⟩
  · have h := hparsed h0
    have htail := (holds_append.mp h.mem).2
    exact ⟨rfl, rfl, rfl, htoken.slice_eq, h.stored (by omega) hfits.1 hfits.2, h.tail.payload_eq htail hp⟩

/-! ## Building -/

/-- The message and its properties are what the PDU says; the token is not where it is copied to. -/
structure Pdu.Of {w : Nat} (mem : Memory UInt8) (pdu : Nat) (message : PduMessage w) (q : Properties) (p : Pdu) : Prop where
  type : q.type = p.type
  id : q.id = p.id
  tokenLength : q.tokenLength = p.token.length
  token : Holds mem q.token p.token
  apart : q.token + p.token.length ≤ pdu ∨ pdu + headerSize + p.token.length ≤ q.token
  body : pduBytes message = encodeOptions 0 p.options ++ p.tail

theorem build_bytes {w capacity : Nat} {message : PduMessage w} {q : Properties} (h : p.Of mem pdu message q)
    (hcap : capacity < 2 ^ (w - 1)) (hfits : p.bytes.length ≤ capacity) :
    unicoapPduBuildRfc7252 mem pdu capacity p.code message q = some ((p.bytes.length : Int), store mem pdu p.bytes) := by
  have h4 : headerSize = 4 := rfl
  have hlen := @length_bytes p
  have hneeded : neededSize message = (encodeOptions 0 p.options ++ p.tail).length := by
    rw [← length_pduBytes, h.body]
  have hw : 2 ^ (w - 1) ≤ 2 ^ w := Nat.pow_le_pow_right (by decide) (Nat.sub_le w 1)
  have hheader : unicoapPduBuildHeaderRfc7252 mem pdu capacity p.code q =
      some ((headerSize : Int) + p.token.length, store mem pdu (p.header ++ p.token)) := by
    have htoken : slice (store mem pdu p.header) q.token p.token.length = p.token :=
      (h.token.store (by have := h.apart; rw [show p.header.length = 4 from rfl]; omega)).slice_eq
    have htype := p.type_le
    have hle := p.token_le
    have hapart := h.apart
    unfold unicoapPduBuildHeaderRfc7252
    rw [h.type, h.id, h.tokenLength, if_neg (by omega), if_neg (by omega), if_neg (by omega)]
    dsimp only
    rw [if_neg (by omega), ← Pdu.header, htoken, ← store_append]
    rfl
  obtain ⟨hmem, hret⟩ := @build_fits w message (store mem pdu (p.header ++ p.token)) (pdu + (headerSize + p.token.length))
    (capacity - (headerSize + p.token.length)) (by omega) (by omega)
  rw [toSsize_eq (by omega)] at hret
  have hret := hret.resolve_right fun hbig => hbig.2 (by omega)
  unfold unicoapPduBuildRfc7252
  rw [hheader, Option.map_some]
  dsimp only
  rw [if_neg (by omega), show (((headerSize : Int) + p.token.length).toNat) = headerSize + p.token.length by omega, hmem, hret,
    hneeded, h.body, hlen]
  have hstore : store (store mem pdu (p.header ++ p.token)) (pdu + (headerSize + p.token.length))
      (encodeOptions 0 p.options ++ p.tail) = store mem pdu p.bytes := by
    have e : headerSize + p.token.length = (p.header ++ p.token).length :=
      (@length_append _ p.header p.token).symm
    rw [Pdu.bytes, ← append_assoc p.header, e, store_append]
  rw [hstore]
  congr 2
  omega

/-- **What is built is parsed**, unless it is an empty message with more than a header, or has too long
a token or too many options; and then the parser finds what it was built of. -/
theorem rfc7252_roundTrip {w : Nat} (cfg : Cfg) (tokenMax : Nat) (mem : Memory UInt8) (pdu capacity : Nat)
    (message : PduMessage w) (q : Properties) (p : Pdu) (m : ParserResult) (h : p.Of mem pdu message q)
    (hcap : capacity < 2 ^ (w - 1)) (hfits : p.bytes.length ≤ capacity) :
    unicoapPduBuildRfc7252 mem pdu capacity p.code message q = some ((p.bytes.length : Int), store mem pdu p.bytes) ∧
      ∃ r m', unicoapPduParseRfc7252 cfg tokenMax (store mem pdu p.bytes) pdu p.bytes.length m = some (r, m') ∧
        (r = 0 ↔ p.Taken cfg tokenMax) ∧
        (r = 0 → m.message.payloadSize = 0 → p.Fits16 → p.Found cfg (store mem pdu p.bytes) m') :=
  ⟨build_bytes h hcap hfits, parse_bytes holds_store m⟩

/-- A request with a token, the option 11 and three bytes of payload. -/
def request : Pdu where
  type := 0
  code := 1
  id := 7
  token := [0xAA]
  options := [(11, [0x61])]
  tail := [payloadMarker, 1, 2, 3]
  type_le := by decide
  id_lt := by decide
  token_le := by decide
  encodable := by simp [fieldMax]
  tail_end := .inr ⟨_, rfl⟩

theorem rfc7252_roundTrip_request : ∃ mem m', unicoapPduBuildRfc7252 (store (fun _ => 0) 100 [0xAA]) 1 32 1 chunked
      ⟨100, 1, 0, 7⟩ = some (11, mem) ∧
    unicoapPduParseRfc7252 ⟨16⟩ 8 mem 1 11 ⟨0, freshMessage, ⟨0, 0, 0, 0⟩⟩ = some (0, m') ∧
    request.Found ⟨16⟩ mem m' := by
  obtain ⟨hbuild, r, m', hparse, htaken, hfound⟩ := rfc7252_roundTrip ⟨16⟩ 8 (store (fun _ => 0) 100 [0xAA]) 1 32
    chunked ⟨100, 1, 0, 7⟩ request ⟨0, freshMessage, ⟨0, 0, 0, 0⟩⟩
    ⟨rfl, rfl, rfl, holds_store, .inr (by decide), by decide⟩ (by decide) (by decide)
  obtain rfl := htaken.mpr ⟨by decide, by decide, by decide⟩
  exact ⟨_, m', hbuild, hparse, hfound rfl rfl ⟨by decide, by decide⟩⟩

end Riot.Unicoap
