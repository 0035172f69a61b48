import Riot.Unicoap.StoreRun

/-!
# Parsing options and payload (`unicoap_pdu_parse_options_and_payload`)

The parser reads the bytes from `start` to `last`. A read outside of them has no
result, so that the parser has one says that it never does.
-/

namespace Riot.Unicoap

open Riot.Lib Memory Function List

/-! ## The parser -/

/-- `unicoap_message_t`, as far as the parser writes it. -/
structure Message where
  options : Options
  payload : Nat
  payloadSize : Nat

/-- `_uint_read_in_range`: value and cursor, or `none` for `-EBADOPT`. -/
def uintReadInRange (mem : Memory UInt8) (start last nibble cursor : Nat) : Option (Option (Nat × Nat)) :=
  if nibble < 13 then some (some (nibble, cursor))
  else if nibble = 13 then
    if last < cursor + 1 then some none
    else (load mem start last cursor).map fun b => some (13 + b.toNat, cursor + 1)
  else if nibble = 14 then
    if last < cursor + 2 then some none
    else
      (load mem start last cursor).bind fun b =>
        (load mem start last (cursor + 1)).map fun c =>
          some (14 + 0xff + bebuftohs b c, cursor + 2)
  else some none

/-- What reading an option returns: its delta, 16 bits wide, and the cursor behind
it, or the cursor behind the payload marker, or `-EBADOPT`. -/
inductive OptionRead
  | option (delta cursor : Nat)
  | payload (cursor : Nat)
  | badOption

def readOptionInRange (mem : Memory UInt8) (start last cursor : Nat) : Option OptionRead :=
  match load mem start last cursor with
  | none => none
  | some head =>
    if head = payloadMarker then some (.payload (cursor + 1))
    else
      match uintReadInRange mem start last (decodeDeltaNibble head) (cursor + 1) with
      | none => none
      | some none => some .badOption
      | some (some (d, cursor)) =>
        match uintReadInRange mem start last (decodeLengthNibble head) cursor with
        | none => none
        | some none => some .badOption
        | some (some (valueSize, cursor)) =>
          if last < cursor + valueSize then some .badOption
          else some (.option (d % 2 ^ 16) (cursor + valueSize))

/-- The loop of the parser, for at most `fuel` rounds. -/
def parseLoop (cfg : Cfg) (mem : Memory UInt8) (start last : Nat) :
    Nat → Nat → Nat → Message → Option (Int × Message)
  | 0, cursor, _, message => if cursor < last then none else some (0, message)
  | fuel + 1, cursor, optionNumber, message =>
    if cursor < last then
      match readOptionInRange mem start last cursor with
      | none => none
      | some .badOption => some (-EBADOPT, message)
      | some (.payload behind) =>
        some (0, { message with
          payloadSize := last - behind
          payload := if 0 < last - behind then behind else 0
          options := { message.options with storageCapacity := behind - start } })
      | some (.option delta behind) =>
        let o := message.options
        if cfg.optionsMax ≤ o.optionCount then some (-ENOBUFS, message)
        else
          let number := (optionNumber + delta) % 2 ^ 16
          let size := (behind - cursor) % 2 ^ 16
          parseLoop cfg mem start last fuel behind number { message with
            options := { o with
              entries := update o.entries o.optionCount ⟨cursor, size, number⟩
              storageSize := o.storageSize + size
              optionCount := o.optionCount + 1 } }
    else some (0, message)

def unicoapPduParseOptionsAndPayload (cfg : Cfg) (mem : Memory UInt8) (start last : Nat)
    (message : Message) : Option (Int × Message) :=
  parseLoop cfg mem start last (last - start) start 0 { message with
    options :=
      { optionCount := 0
        entries := update message.options.entries 0
          { message.options.entries 0 with data := start }
        storageSize := 0
        storageCapacity := last - start } }

/-! ## Reading in range -/

variable {mem : Memory UInt8} {start last nibble cursor v : Nat} {s : List UInt8}

theorem field_of_decode (h : decodeField nibble s = some (v, [])) (hm : Holds mem cursor s) :
    v ≤ fieldMax ∧ nibble = fieldNibble v ∧ Holds mem cursor (fieldExt v) ∧
      cursor + s.length = cursor + (fieldExt v).length := by
  obtain ⟨hmax, hnib, hs⟩ := decodeField_eq_some h
  rw [append_nil] at hs
  subst hs
  exact ⟨hmax, hnib, hm, rfl⟩

theorem uintReadInRange_spec (hs : start ≤ cursor) :
    ∃ r, uintReadInRange mem start last nibble cursor = some r ∧
      ∀ v behind, r = some (v, behind) → v ≤ fieldMax ∧ nibble = fieldNibble v ∧
        Holds mem cursor (fieldExt v) ∧ behind = cursor + (fieldExt v).length := by
  unfold uintReadInRange
  split
  · rename_i h
    refine ⟨_, rfl, ?_⟩
    rintro v behind ⟨rfl, rfl⟩
    exact field_of_decode (show decodeField nibble [] = _ by simp [decodeField, h]) holds_nil
  split
  · rename_i h
    split
    · exact ⟨none, rfl, by simp⟩
    · rw [load_eq hs (by omega)]
      refine ⟨_, rfl, ?_⟩
      rintro v behind ⟨rfl, rfl⟩
      exact field_of_decode (show decodeField nibble [mem cursor] = _ by simp [decodeField, h]) (by simp)
  split
  · rename_i h
    split
    · exact ⟨none, rfl, by simp⟩
    · rw [load_eq hs (by omega), load_eq (by omega) (by omega)]
      refine ⟨_, rfl, ?_⟩
      rintro v behind ⟨rfl, rfl⟩
      exact field_of_decode (show decodeField nibble [mem cursor, mem (cursor + 1)] = _ by
        simp [decodeField, h, bebuftohs, add_assoc]) (by simp)
  · exact ⟨none, rfl, by simp⟩

/-- What an option read returns is what the range holds. -/
def OptionRead.Sound (mem : Memory UInt8) (last cursor : Nat) : OptionRead → Prop
  | .option d behind => ∃ delta value, delta ≤ fieldMax ∧ value.length ≤ fieldMax ∧ d = delta % 2 ^ 16 ∧
      Holds mem cursor (encodeOption delta value) ∧
      behind = cursor + (encodeOption delta value).length ∧ behind ≤ last
  | .payload behind => mem cursor = payloadMarker ∧ behind = cursor + 1
  | .badOption => True

theorem readOptionInRange_spec (hs : start ≤ cursor) (hl : cursor < last) :
    ∃ r, readOptionInRange mem start last cursor = some r ∧ r.Sound mem last cursor := by
  unfold readOptionInRange
  rw [load_eq hs hl]
  dsimp only
  split
  · rename_i hm
    exact ⟨_, rfl, hm, rfl⟩
  obtain ⟨rd, hrd, hdelta⟩ := @uintReadInRange_spec mem start last (decodeDeltaNibble (mem cursor))
    (cursor + 1) (by omega)
  rw [hrd]
  cases rd with
  | none => exact ⟨_, rfl, trivial⟩
  | some rd =>
    obtain ⟨delta, behind⟩ := rd
    obtain ⟨hd, hdn, hdm, rfl⟩ := hdelta delta behind rfl
    dsimp only
    obtain ⟨rl, hrl, hlen⟩ := @uintReadInRange_spec mem start last (decodeLengthNibble (mem cursor))
      (cursor + 1 + (fieldExt delta).length) (by omega)
    rw [hrl]
    cases rl with
    | none => exact ⟨_, rfl, trivial⟩
    | some rl =>
      obtain ⟨len, behind⟩ := rl
      obtain ⟨hl', hln, hlm, rfl⟩ := hlen len behind rfl
      dsimp only
      split
      · exact ⟨_, rfl, trivial⟩
      · refine ⟨_, rfl, delta, slice mem (cursor + 1 + (fieldExt delta).length + (fieldExt len).length) len,
          hd, by rw [length_slice]; exact hl', rfl, ?_, ?_, by omega⟩
        · rw [encodeOption, length_slice, holds_cons, holds_append, holds_append]
          refine ⟨?_, hdm, hlm, holds_slice⟩
          rw [← hdn, ← hln, decodeDeltaNibble_eq, decodeLengthNibble_eq, optionHead_self]
        · rw [length_encodeOption, length_slice]
          omega

/-! ## The loop -/

/-- The entries that the parser writes for options above `prev`. -/
def parsedEntries : Nat → Nat → List NumberedOption → List OptionEntry
  | _, _, [] => []
  | a, prev, o :: os =>
    ⟨a, (encodeOption (o.1 - prev) o.2).length % 2 ^ 16, o.1 % 2 ^ 16⟩ ::
      parsedEntries (a + (encodeOption (o.1 - prev) o.2).length) o.1 os

/-- What follows the options: nothing, or the marker and the payload. -/
inductive Tail (start cursor : Nat) (message message' : Message) : List UInt8 → Prop
  | none (h : message'.options.storageCapacity = message.options.storageCapacity)
      (hp : message'.payload = message.payload) (hs : message'.payloadSize = message.payloadSize) :
      Tail start cursor message message' []
  | payload (bytes : List UInt8) (hs : message'.payloadSize = bytes.length)
      (hp : message'.payload = if 0 < bytes.length then cursor + 1 else 0)
      (hc : message'.options.storageCapacity = cursor + 1 - start) :
      Tail start cursor message message' (payloadMarker :: bytes)

/-- The rest of the input, from `cursor` on, was parsed into options above `prev`
and what follows them. -/
structure ParsedRest (cfg : Cfg) (mem : Memory UInt8) (start last cursor prev : Nat)
    (message message' : Message) (os : List NumberedOption) (tail : List UInt8) : Prop where
  mem : Holds mem cursor (encodeOptions prev os ++ tail)
  last_eq : cursor + (encodeOptions prev os ++ tail).length = last
  encodable : OptionsEncodable prev os
  count : message'.options.optionCount = message.options.optionCount + os.length
  count_le : os ≠ [] → message'.options.optionCount ≤ cfg.optionsMax
  entries : Holds message'.options.entries message.options.optionCount (parsedEntries cursor prev os)
  frame : ∀ j < message.options.optionCount, message'.options.entries j = message.options.entries j
  empty : os = [] → message'.options.entries = message.options.entries
  size : message'.options.storageSize = message.options.storageSize +
    ((parsedEntries cursor prev os).map OptionEntry.size).sum
  tail : Tail start (cursor + (encodeOptions prev os).length) message message' tail

theorem parseLoop_spec (cfg : Cfg) : ∀ (fuel : Nat) {cursor num : Nat} {message : Message},
    start ≤ cursor → cursor ≤ last → last - cursor ≤ fuel →
    ∃ r message', parseLoop cfg mem start last fuel cursor num message = some (r, message') ∧
      (r < 0 ∨ r = 0 ∧ ∀ prev, num = prev % 2 ^ 16 →
        ∃ os tail, ParsedRest cfg mem start last cursor prev message message' os tail) := by
  have hend : ∀ {cursor : Nat} (num : Nat) (message : Message), cursor = last → ∀ prev, num = prev % 2 ^ 16 →
        ∃ os tail, ParsedRest cfg mem start last cursor prev message message os tail := by
    intro cursor num message hc prev _
    exact ⟨[], [], holds_nil, by simpa using hc, trivial, rfl, by simp, holds_nil, fun _ _ => rfl,
      fun _ => rfl, rfl, .none rfl rfl rfl⟩
  intro fuel
  induction fuel with
  | zero =>
    intro cursor num message hs hl hf
    refine ⟨0, message, ?_, .inr ⟨rfl, hend num message (by omega)⟩⟩
    rw [parseLoop, if_neg (by omega)]
  | succ fuel ih =>
    intro cursor num message hs hl hf
    rw [parseLoop]
    split
    case isFalse hge => exact ⟨0, message, rfl, .inr ⟨rfl, hend num message (by omega)⟩⟩
    case isTrue hlt =>
      obtain ⟨rd, hrd, hsound⟩ := @readOptionInRange_spec mem start last cursor hs hlt
      rw [hrd]
      cases rd with
      | badOption => exact ⟨_, _, rfl, .inl (by decide)⟩
      | payload behind =>
        obtain ⟨hm, rfl⟩ := hsound
        refine ⟨_, _, rfl, .inr ⟨rfl, fun prev _ => ⟨[], payloadMarker :: slice mem (cursor + 1)
          (last - (cursor + 1)), ?_, ?_, trivial, rfl, by simp, holds_nil, fun _ _ => rfl, fun _ => rfl,
          rfl, ?_⟩⟩⟩
        · exact ⟨hm, holds_slice⟩
        · simp only [encodeOptions_nil, nil_append, length_cons, length_slice]
          omega
        · exact .payload _ (by simp) (by simp) (by simp)
      | option d behind =>
        obtain ⟨delta, value, hd, hv, rfl, hm, rfl, hle⟩ := hsound
        have hpos := @length_encodeOption_pos delta value
        dsimp only
        split
        · exact ⟨_, _, rfl, .inl (by decide)⟩
        obtain ⟨r, message', hr, hres⟩ := @ih (cursor + (encodeOption delta value).length)
          ((num + delta % 2 ^ 16) % 2 ^ 16) _ (by omega) hle (by omega)
        refine ⟨r, message', hr, hres.imp_right fun ⟨hr0, hrest⟩ => ⟨hr0, fun prev hprev => ?_⟩⟩
        obtain ⟨os, tail, h⟩ := hrest (prev + delta) (by omega)
        have e : prev + delta - prev = delta := by omega
        have hsize : cursor + (encodeOption delta value).length - cursor =
            (encodeOption delta value).length := by omega
        have hnum : (num + delta % 2 ^ 16) % 2 ^ 16 = (prev + delta) % 2 ^ 16 := by omega
        have hcount := h.count
        have hentries := h.entries
        have hframe := h.frame
        have htotal := h.size
        dsimp only at hcount hentries hframe htotal
        rw [hsize] at htotal
        rw [hsize, hnum] at hframe
        refine ⟨(prev + delta, value) :: os, tail, ?_, ?_, ?_, ?_, ?_, ?_, ?_, by simp, ?_, ?_⟩
        · rw [encodeOptions_cons, append_assoc, holds_append, e]
          exact ⟨hm, h.mem⟩
        · have := h.last_eq
          rw [length_append] at this
          rw [encodeOptions_cons, append_assoc, e, length_append, length_append]
          dsimp only
          omega
        · exact ⟨by dsimp only; omega, by rw [e]; exact hd, hv, h.encodable⟩
        · rw [length_cons]
          omega
        · intro _
          by_cases hos : os = []
          · rw [hos, length_nil] at hcount
            omega
          · exact h.count_le hos
        · rw [parsedEntries, holds_cons, e]
          refine ⟨?_, hentries⟩
          rw [hframe _ (by omega), update_self]
        · intro j hj
          rw [hframe j (by omega), update_of_ne (by omega)]
        · rw [parsedEntries, map_cons, sum_cons, e]
          dsimp only
          omega
        · rw [encodeOptions_cons, length_append, e]
          have htail := h.tail
          rw [add_assoc] at htail
          cases htail with
          | none h1 h2 h3 => exact .none h1 h2 h3
          | payload bytes h1 h2 h3 => exact .payload bytes h1 h2 h3

end Riot.Unicoap
