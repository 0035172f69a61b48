import Riot.Nanocoap.Packet
import Riot.Lib.OptionFormat

/-!
# Building CoAP packets (`nanocoap.c`)

The builder appends options and the payload to a header in a buffer. A violated
assertion has no result. Values and payloads are given as the bytes that the
pointers point to; the token is copied unless it is in place already.
-/

namespace Riot.Nanocoap

open Riot.Lib Memory Nat List Option Prod

def EOVERFLOW : Int := 75

def uint16Max : Nat := 0xffff

/-- `coap_builder_t`; all fields but `buf` are 16 bits wide. -/
structure Builder where
  buf : Nat
  size : Nat
  pos : Nat
  lastOptNum : Nat

/-- A builder and the memory it builds in. -/
structure BuildState where
  mem : Memory UInt8
  builder : Builder

/-! ## The header -/

/-- The extension of the token length in `coap_build_udp_hdr`, least significant byte
last, and the nibble that announces it. -/
def tokenLength (cfg : Cfg) (tokenLen : Nat) : List UInt8 × Nat :=
  if 268 < tokenLen ∧ cfg.tokenExt then
    ([UInt8.ofNat ((tokenLen - 269) / 256), UInt8.ofNat (tokenLen - 269)], 14)
  else if 12 < tokenLen ∧ cfg.tokenExt then ([UInt8.ofNat (tokenLen - 13)], 13)
  else ([], tokenLen)

/-- `coap_build_udp_hdr`: the length of the header or an error. The token is not
copied if it is where it belongs. -/
def coapBuildUdpHdr (cfg : Cfg) (mem : Memory UInt8) (buf bufLen type token tokenLen : Nat) (code : UInt8)
    (id : Nat) : Option (Int × Memory UInt8) :=
  if 3 < type then none
  else
    let (tklExt, tkl) := tokenLength cfg tokenLen
    let hdrLen := udpHdrSize + tokenLen + tklExt.length
    if bufLen < hdrLen then some (-EOVERFLOW, mem)
    else
      let verTTkl := UInt8.ofNat (1 <<< 6 ||| type <<< 4 ||| tkl)
      let mem := store mem buf [verTTkl, code, UInt8.ofNat (id / 256), UInt8.ofNat id]
      let mem := store mem (buf + udpHdrSize) tklExt
      (coapHdrDataPtr cfg (fun a => some (mem a)) buf).map fun tokenDest =>
        (hdrLen, if tokenDest ≠ token then move mem tokenDest token tokenLen else mem)

/-! ## The builder -/

def coapBuilderInit (state : Builder) (buf bufLen headerLen : Nat) : Option (Int × Builder) :=
  if buf = 0 then none
  else if uint16Max < bufLen then none
  else if uint16Max < headerLen then none
  else if bufLen < headerLen then some (-EOVERFLOW, state)
  else some (0, { buf := buf, size := bufLen, pos := headerLen, lastOptNum := 0 })

/-- `_builder_advance_pos`; sizes are `w` bits wide. -/
def builderAdvancePos (w : Nat) (state : Builder) (size : Nat) : Bool × Builder :=
  let newPos := size + state.pos
  if 2 ^ w ≤ newPos then (false, { state with size := 0 })
  else if state.size < newPos then (false, { state with size := 0 })
  else (true, { state with pos := newPos % 2 ^ 16 })

/-- `coap_builder_allocate_payload`: where the payload goes, or `NULL`. A payload is
known to have begun by the number 65535 of the last option. -/
def coapBuilderAllocatePayload (w : Nat) (s : BuildState) (pldLen : Nat) : Nat × BuildState :=
  let dest := s.builder.buf + s.builder.pos
  let minLen := if s.builder.lastOptNum ≠ uint16Max then (pldLen + 1) % 2 ^ w else pldLen
  match builderAdvancePos w s.builder minLen with
  | (false, builder) => (0, { s with builder := builder })
  | (true, builder) =>
    if s.builder.lastOptNum ≠ uint16Max then
      (dest + 1, { mem := store s.mem dest [coapPayloadMarker]
                   builder := { builder with lastOptNum := uint16Max } })
    else (dest, { s with builder := builder })

def coapBuilderAddPayload (w : Nat) (s : BuildState) (pld : List UInt8) : Int × BuildState :=
  match coapBuilderAllocatePayload w s pld.length with
  | (dest, s) => if dest = 0 then (-EOVERFLOW, s) else (0, { s with mem := store s.mem dest pld })

/-- `_opt_header_extra_size_for_num_or_len` -/
def optHeaderExtraSize (value : Nat) : Nat := if value < 13 then 0 else if value < 269 then 1 else 2

/-- `_put_delta_optlen`: the memory and the offset behind what was written. -/
def putDeltaOptlen (mem : Memory UInt8) (buf offset shift val : Nat) : Memory UInt8 × Nat :=
  if val < 13 then (store mem buf [mem buf ||| UInt8.ofNat (val <<< shift)], offset)
  else if val < 256 + 13 then
    (store (store mem buf [mem buf ||| UInt8.ofNat (13 <<< shift)]) (buf + offset) [UInt8.ofNat (val - 13)],
      offset + 1)
  else
    (store (store mem buf [mem buf ||| UInt8.ofNat (14 <<< shift)]) (buf + offset)
      [UInt8.ofNat ((val - 269) / 256), UInt8.ofNat (val - 269)], offset + 2)

/-- `coap_opt_put`; options must be put in order. -/
def coapOptPut (w : Nat) (s : BuildState) (onum : Nat) (odata : List UInt8) : Option (Int × BuildState) :=
  if onum < s.builder.lastOptNum then none
  else if uint16Max < odata.length then none
  else
    let delta := (onum - s.builder.lastOptNum) % 2 ^ 16
    let optionSize := 1 + optHeaderExtraSize delta + optHeaderExtraSize odata.length + odata.length
    let optHeader := s.builder.buf + s.builder.pos
    match builderAdvancePos w { s.builder with lastOptNum := onum } optionSize with
    | (false, builder) => some (-EOVERFLOW, { s with builder := builder })
    | (true, builder) =>
      let mem := store s.mem optHeader [0]
      match putDeltaOptlen mem optHeader 1 4 delta with
      | (mem, n) =>
        match putDeltaOptlen mem optHeader n 0 odata.length with
        | (mem, n) => some (0, { mem := store mem (optHeader + n) odata, builder := builder })

/-- Puts options one after the other; only if every call succeeds there is a result. -/
def putOptions (w : Nat) : BuildState → List NumberedOption → Option BuildState
  | s, [] => some s
  | s, o :: os =>
    match coapOptPut w s o.1 o.2 with
    | some (0, s) => putOptions w s os
    | _ => none

/-- Builds a message: the header, options, and the payload unless it is empty. Only if
every call succeeds there is a result. -/
def buildMessage (cfg : Cfg) (w : Nat) (mem : Memory UInt8) (buf bufLen type token tokenLen : Nat)
    (code : UInt8) (id : Nat) (os : List NumberedOption) (payload : List UInt8) : Option BuildState :=
  match coapBuildUdpHdr cfg mem buf bufLen type token tokenLen code id with
  | none => none
  | some (hdrLen, mem) =>
    if hdrLen < 0 then none
    else
      match coapBuilderInit ⟨0, 0, 0, 0⟩ buf bufLen hdrLen.toNat with
      | some (0, builder) =>
        match putOptions w ⟨mem, builder⟩ os with
        | none => none
        | some s =>
          if payload = [] then some s
          else
            match coapBuilderAddPayload w s payload with
            | (0, s) => some s
            | _ => none
      | _ => none

/-! ## Writing -/

variable {mem : Memory UInt8} {p val w : Nat} {s s' : BuildState} {o : NumberedOption}
  {os : List NumberedOption} {x y : UInt8} {t : List UInt8}

theorem putDeltaOptlen_eq {offset shift : Nat} : putDeltaOptlen mem p offset shift val =
    (store (store mem p [mem p ||| UInt8.ofNat (fieldNibble val <<< shift)]) (p + offset) (fieldExt val),
      offset + (fieldExt val).length) := by
  unfold putDeltaOptlen fieldNibble fieldExt
  split
  · simp
  · split <;> rfl

theorem optHeaderExtraSize_eq : optHeaderExtraSize val = (fieldExt val).length := by
  unfold optHeaderExtraSize fieldExt
  split
  · rfl
  · split <;> rfl

theorem store_head : store (store mem p (x :: t)) p [y] = store mem p (y :: t) := by
  rw [← @store_cons _ mem p x t, store_store (by simp), store_cons]

/-- The head of an option: its byte and the extensions. -/
def headBytes (delta len : Nat) : List UInt8 :=
  optionHead (fieldNibble delta) (fieldNibble len) :: (fieldExt delta ++ fieldExt len)

theorem encodeOption_eq_head {delta : Nat} {value : List UInt8} :
    encodeOption delta value = headBytes delta value.length ++ value := by
  rw [headBytes, encodeOption, cons_append, append_assoc]

theorem store_headBytes {delta len : Nat} :
    (match putDeltaOptlen (store mem p [0]) p 1 4 delta with
      | (mem, n) => putDeltaOptlen mem p n 0 len) =
      (store mem p (headBytes delta len), (headBytes delta len).length) := by
  have h1 : store mem p [0] p = 0 := (holds_store (s := [0])).1
  have hd : UInt8.ofNat (fieldNibble delta <<< 4) = optionHead (fieldNibble delta) 0 := by
    rw [optionHead, shiftLeft_eq, mul_comm, add_zero]
  rw [putDeltaOptlen_eq]
  dsimp only
  rw [putDeltaOptlen_eq, h1, store_store (by simp), UInt8.zero_or, hd]
  have h2 : store (store mem p [optionHead (fieldNibble delta) 0]) (p + 1) (fieldExt delta) =
      store mem p (optionHead (fieldNibble delta) 0 :: fieldExt delta) := store_append
  have h3 : store mem p (optionHead (fieldNibble delta) 0 :: fieldExt delta) p =
      optionHead (fieldNibble delta) 0 := (holds_cons.mp holds_store).1
  rw [h2, h3, store_head, shiftLeft_zero, optionHead_or fieldNibble_le fieldNibble_le]
  have h4 : store (store mem p (optionHead (fieldNibble delta) (fieldNibble len) :: fieldExt delta))
      (p + (1 + (fieldExt delta).length)) (fieldExt len) = store mem p (headBytes delta len) := by
    rw [add_comm 1]
    exact store_append
  rw [h4, headBytes, length_cons, length_append]
  congr 1
  omega

theorem store_option {delta : Nat} {value : List UInt8} :
    (match putDeltaOptlen (store mem p [0]) p 1 4 delta with
      | (mem, n) =>
        match putDeltaOptlen mem p n 0 value.length with
        | (mem, n) => store mem (p + n) value) = store mem p (encodeOption delta value) := by
  have hhead := @store_headBytes mem p delta value.length
  dsimp only at hhead ⊢
  rw [hhead, encodeOption_eq_head]
  exact store_append

/-! ## What successful calls write -/

theorem builderAdvancePos_true {b b' : Builder} {size : Nat} (hsize : b.size ≤ uint16Max)
    (h : builderAdvancePos w b size = (true, b')) :
    b' = { b with pos := b.pos + size } ∧ b.pos + size ≤ b.size := by
  have hmax : uint16Max = 65535 := rfl
  simp only [builderAdvancePos] at h
  split at h
  · exact absurd (mk.inj h).1 (by decide)
  split at h
  · exact absurd (mk.inj h).1 (by decide)
  refine ⟨?_, by omega⟩
  rw [← (mk.inj h).2, mod_eq_of_lt (by omega), add_comm]

theorem coapOptPut_spec (hnum : o.1 ≤ uint16Max) (hsize : s.builder.size ≤ uint16Max)
    (h : coapOptPut w s o.1 o.2 = some (0, s')) :
    s.builder.lastOptNum ≤ o.1 ∧ o.2.length ≤ uint16Max ∧
      s.builder.pos + (encodeOption (o.1 - s.builder.lastOptNum) o.2).length ≤ s.builder.size ∧
      s' = { mem := store s.mem (s.builder.buf + s.builder.pos)
               (encodeOption (o.1 - s.builder.lastOptNum) o.2)
             builder := { s.builder with
               pos := s.builder.pos + (encodeOption (o.1 - s.builder.lastOptNum) o.2).length
               lastOptNum := o.1 } } := by
  have hmax : uint16Max = 65535 := rfl
  unfold coapOptPut at h
  split at h
  · exact absurd h (by simp)
  split at h
  · exact absurd h (by simp)
  rename_i hv
  have hdelta : (o.1 - s.builder.lastOptNum) % 2 ^ 16 = o.1 - s.builder.lastOptNum := mod_eq_of_lt (by omega)
  dsimp only at h
  rw [hdelta, optHeaderExtraSize_eq, optHeaderExtraSize_eq, ← length_encodeOption] at h
  split at h
  · exact absurd (mk.inj (some.inj h)).1 (by decide)
  · rename_i b hb
    obtain ⟨rfl, hfit⟩ := @builderAdvancePos_true w { s.builder with lastOptNum := o.1 } b _ hsize hb
    refine ⟨by omega, by omega, hfit, ?_⟩
    rw [← (mk.inj (some.inj h)).2]
    congr 1
    exact store_option

theorem putOptions_spec (hnum : ∀ o ∈ os, o.1 ≤ uint16Max) (hsize : s.builder.size ≤ uint16Max)
    (hpos : s.builder.pos ≤ s.builder.size) (h : putOptions w s os = some s') :
    OptionsEncodable s.builder.lastOptNum os ∧
      s.builder.pos + (encodeOptions s.builder.lastOptNum os).length ≤ s.builder.size ∧
      s' = { mem := store s.mem (s.builder.buf + s.builder.pos) (encodeOptions s.builder.lastOptNum os)
             builder := { s.builder with
               pos := s.builder.pos + (encodeOptions s.builder.lastOptNum os).length
               lastOptNum := lastNumber s.builder.lastOptNum os } } := by
  induction os generalizing s with
  | nil =>
    cases h
    refine ⟨trivial, hpos, ?_⟩
    rw [encodeOptions_nil, store_nil]
    rfl
  | cons o os ih =>
    have hfield : uint16Max ≤ fieldMax := by decide
    obtain ⟨ho, hnum⟩ := forall_mem_cons.mp hnum
    rw [putOptions] at h
    split at h
    · rename_i s1 hput
      obtain ⟨hle, hv, hfit, hs1⟩ := coapOptPut_spec ho hsize hput
      have hrest := @ih s1 hnum (by rw [hs1]; exact hsize) (by rw [hs1]; exact hfit) h
      rw [hs1] at hrest
      obtain ⟨henc, hfit', rfl⟩ := hrest
      dsimp only at henc hfit' ⊢
      refine ⟨⟨hle, by omega, by omega, henc⟩, ?_, ?_⟩
      · rw [encodeOptions_cons, length_append]
        omega
      · rw [← add_assoc, store_append, encodeOptions_cons, length_append, lastNumber_cons,
          add_assoc s.builder.pos]
    · exact absurd h (by simp)

/-- What the builder puts behind the options. -/
def builtTail (lastOptNum : Nat) (payload : List UInt8) : List UInt8 :=
  if payload = [] then [] else if lastOptNum = uint16Max then payload else coapPayloadMarker :: payload

theorem coapBuilderAddPayload_spec {pld : List UInt8} (hne : pld ≠ []) (hw : pld.length + 1 < 2 ^ w)
    (hsize : s.builder.size ≤ uint16Max) (h : coapBuilderAddPayload w s pld = (0, s')) :
    s.builder.pos + (builtTail s.builder.lastOptNum pld).length ≤ s.builder.size ∧
      s'.mem = store s.mem (s.builder.buf + s.builder.pos) (builtTail s.builder.lastOptNum pld) ∧
      s'.builder.pos = s.builder.pos + (builtTail s.builder.lastOptNum pld).length := by
  have hno : (-EOVERFLOW : Int) ≠ 0 := by decide
  unfold coapBuilderAddPayload at h
  rcases ha : coapBuilderAllocatePayload w s pld.length with ⟨dest, s1⟩
  rw [ha] at h
  dsimp only at h
  split at h
  · exact absurd (mk.inj h).1 hno
  rename_i hdest
  rw [← (mk.inj h).2]
  unfold coapBuilderAllocatePayload at ha
  dsimp only at ha
  split at ha
  · exact absurd (mk.inj ha).1.symm hdest
  rename_i b hb
  obtain ⟨rfl, hfit⟩ := builderAdvancePos_true hsize hb
  by_cases hlast : s.builder.lastOptNum = uint16Max
  · rw [if_neg (not_not.mpr hlast)] at ha hfit
    cases ha
    rw [builtTail, if_neg hne, if_pos hlast]
    exact ⟨hfit, rfl, by rw [if_neg (not_not.mpr hlast)]⟩
  · rw [if_pos hlast] at ha hfit
    rw [mod_eq_of_lt hw] at hfit
    cases ha
    rw [builtTail, if_neg hne, if_neg hlast]
    refine ⟨hfit, ?_, ?_⟩
    · exact store_append (s := [coapPayloadMarker])
    · rw [if_pos hlast, mod_eq_of_lt hw]
      rfl

/-- The token is in place, or apart from the header. -/
def TokenAt (mem : Memory UInt8) (buf token : Nat) (bytes : List UInt8) : Prop :=
  Holds mem token bytes ∧ (token = buf + udpHdrSize ∨ token + bytes.length ≤ buf ∨
    buf + udpHdrSize + bytes.length ≤ token)

theorem verTTkl_and {type tkl : Nat} (ht : type ≤ 3) (hk : tkl ≤ 15) :
    (UInt8.ofNat (1 <<< 6 ||| type <<< 4 ||| tkl) &&& 0x0f).toNat = tkl := by
  have h : ∀ t : Fin 4, ∀ k : Fin 16,
      (UInt8.ofNat (1 <<< 6 ||| t.val <<< 4 ||| k.val) &&& 0x0f).toNat = k.val := by decide
  exact h ⟨type, by omega⟩ ⟨tkl, by omega⟩

/-- A header with a short token: its length, the nibble, the code and the token. -/
theorem coapBuildUdpHdr_spec {cfg : Cfg} {mem' : Memory UInt8} {buf bufLen type token id : Nat} {code : UInt8}
    {r : Int} {bytes : List UInt8} (htkl : bytes.length ≤ coapTokenLengthMax) (ht : TokenAt mem buf token bytes)
    (hr : 0 ≤ r) (h : coapBuildUdpHdr cfg mem buf bufLen type token bytes.length code id = some (r, mem')) :
    r = (udpHdrSize + bytes.length : Nat) ∧ udpHdrSize + bytes.length ≤ bufLen ∧
      (mem' buf &&& 0x0f).toNat = bytes.length ∧ mem' (buf + 1) = code ∧
      Holds mem' (buf + udpHdrSize) bytes := by
  have h8 : coapTokenLengthMax = 8 := rfl
  have h4 : udpHdrSize = 4 := rfl
  unfold coapBuildUdpHdr at h
  split at h
  · exact absurd h (by simp)
  have hlen : tokenLength cfg bytes.length = ([], bytes.length) := by
    rw [tokenLength, if_neg (by omega), if_neg (by omega)]
  rw [hlen] at h
  dsimp only at h
  rw [length_nil, add_zero, store_nil] at h
  split at h
  · obtain rfl := (mk.inj (some.inj h)).1
    exact absurd hr (by decide)
  obtain ⟨hb0, hb1, -⟩ := @holds_store _ mem buf
    [UInt8.ofNat (1 <<< 6 ||| type <<< 4 ||| bytes.length), code, UInt8.ofNat (id / 256), UInt8.ofNat id]
  have hnib : (UInt8.ofNat (1 <<< 6 ||| type <<< 4 ||| bytes.length) &&& 0x0f).toNat = bytes.length :=
    verTTkl_and (by omega) (by omega)
  -- the token follows the header, whether tokens can be extended or not
  have hext : coapHdrTklExtLen cfg (UInt8.ofNat (1 <<< 6 ||| type <<< 4 ||| bytes.length)) = some 0 := by
    unfold coapHdrTklExtLen
    split
    · rfl
    · rw [hnib, if_neg (by omega), if_neg (by omega), if_neg (by omega)]
  have hdest : ∀ {m : Memory UInt8}, m buf = UInt8.ofNat (1 <<< 6 ||| type <<< 4 ||| bytes.length) →
      coapHdrDataPtr cfg (fun a => some (m a)) buf = some (buf + udpHdrSize) := by
    intro m hm
    unfold coapHdrDataPtr
    split
    · rw [bind_some, hm, hext, map_some, add_zero]
    · rfl
  rw [hdest hb0, map_some, some.injEq, mk.injEq] at h
  obtain ⟨hr, rfl⟩ := h
  obtain ⟨htok, hapart⟩ := ht
  have htok' : Holds (store mem buf [UInt8.ofNat (1 <<< 6 ||| type <<< 4 ||| bytes.length), code,
      UInt8.ofNat (id / 256), UInt8.ofNat id]) token bytes := htok.store (by simp; omega)
  refine ⟨hr.symm, by omega, ?_, ?_, ?_⟩
  · split
    · rw [move_outside (by omega), hb0, hnib]
    · rw [hb0, hnib]
  · split
    · rw [move_outside (by omega), hb1]
    · exact hb1
  · split
    · exact htok'.move (k := 0) (le_of_eq (zero_add _))
    · rename_i hin
      rw [not_not.mp hin]
      exact htok'

/-! ## The message -/

/-- What was built: a header with the token, options, and the payload behind them. -/
structure IsBuilt (buf : Nat) (code : UInt8) (bytes : List UInt8) (os : List NumberedOption)
    (payload : List UInt8) (s : BuildState) : Prop where
  tkl : (s.mem buf &&& 0x0f).toNat = bytes.length
  code : s.mem (buf + 1) = code
  token : Holds s.mem (buf + udpHdrSize) bytes
  body : Holds s.mem (buf + udpHdrSize + bytes.length)
    (encodeOptions 0 os ++ builtTail (lastNumber 0 os) payload)
  pos : s.builder.pos =
    udpHdrSize + bytes.length + (encodeOptions 0 os ++ builtTail (lastNumber 0 os) payload).length
  pos_le : s.builder.pos ≤ uint16Max
  encodable : OptionsEncodable 0 os

/-- **If all calls succeed, the message is built.** -/
theorem isBuilt_of_buildMessage {cfg : Cfg} {buf bufLen type token id : Nat} {code : UInt8}
    {bytes payload : List UInt8} (htkl : bytes.length ≤ coapTokenLengthMax) (ht : TokenAt mem buf token bytes)
    (hnum : ∀ o ∈ os, o.1 ≤ uint16Max) (hw : payload.length + 1 < 2 ^ w)
    (h : buildMessage cfg w mem buf bufLen type token bytes.length code id os payload = some s) :
    IsBuilt buf code bytes os payload s := by
  unfold buildMessage at h
  split at h
  · exact absurd h (by simp)
  rename_i r mem1 hhdr
  split at h
  · exact absurd h (by simp)
  obtain ⟨rfl, hfit, htkl', hcode, htoken⟩ := coapBuildUdpHdr_spec htkl ht (by omega) hhdr
  rw [Int.toNat_natCast] at h
  split at h
  case h_2 => exact absurd h (by simp)
  rename_i b hinit
  unfold coapBuilderInit at hinit
  split at hinit
  · exact absurd hinit (by simp)
  split at hinit
  · exact absurd hinit (by simp)
  split at hinit
  · exact absurd hinit (by simp)
  rw [if_neg (by omega)] at hinit
  obtain rfl := (mk.inj (some.inj hinit)).2
  split at h
  · exact absurd h (by simp)
  rename_i s1 hput
  obtain ⟨henc, hfit1, rfl⟩ := putOptions_spec hnum (by dsimp only; omega) hfit hput
  dsimp only at henc hfit1 h
  have h4 : udpHdrSize = 4 := rfl
  have hmem : ∀ {t : List UInt8}, s.mem = store mem1 (buf + (udpHdrSize + bytes.length))
      (encodeOptions 0 os ++ t) → (s.mem buf &&& 0x0f).toNat = bytes.length ∧ s.mem (buf + 1) = code ∧
      Holds s.mem (buf + udpHdrSize) bytes ∧
      Holds s.mem (buf + udpHdrSize + bytes.length) (encodeOptions 0 os ++ t) := by
    intro t ht
    rw [ht, store_of_lt (by omega), store_of_lt (by omega)]
    refine ⟨htkl', hcode, htoken.store (.inl (by omega)), ?_⟩
    rw [add_assoc]
    exact holds_store
  by_cases hp : payload = []
  · rw [if_pos hp] at h
    cases h
    have htail : builtTail (lastNumber 0 os) payload = [] := if_pos hp
    obtain ⟨h1, h2, h3, h₄⟩ := @hmem [] (by rw [append_nil])
    rw [← htail] at h₄
    refine ⟨h1, h2, h3, h₄, ?_, by dsimp only; omega, henc⟩
    rw [htail, append_nil]
  · rw [if_neg hp] at h
    split at h
    case h_2 => exact absurd h (by simp)
    rename_i s2 hadd
    cases h
    obtain ⟨hfit2, hmem2, hpos2⟩ := coapBuilderAddPayload_spec hp hw (by dsimp only; omega) hadd
    dsimp only at hfit2 hmem2 hpos2
    obtain ⟨h1, h2, h3, h₄⟩ := @hmem (builtTail (lastNumber 0 os) payload) (by
      rw [hmem2, ← add_assoc buf (udpHdrSize + bytes.length), store_append])
    refine ⟨h1, h2, h3, h₄, ?_, by omega, henc⟩
    rw [hpos2, length_append, add_assoc _ (encodeOptions 0 os).length]

end Riot.Nanocoap
