import Riot.Nanocoap.Builder
import Riot.Nanocoap.OptionParts
import Riot.Lib.Runs

/-!
# Two ways to append options (`nanocoap.c`)

The builder and the functions on packets each append options to a message, and each keeps its
own record of the last option's number and of the space that is left. The messages are in
memories of their own. A run makes the same calls of both as long as they succeed.
-/

namespace Riot.Nanocoap

open Riot.Lib Memory List Nat Prod

/-! ## The packet -/

/-- A packet and the memory it is in. -/
structure PktState where
  mem : Memory UInt8
  pkt : Pkt

def coapPktInit (buf len headerLen : Nat) : Pkt :=
  { buf := buf
    payload := buf + headerLen
    payloadLen := (len % 2 ^ 16 + 2 ^ 16 - headerLen % 2 ^ 16) % 2 ^ 16
    optionsLen := 0
    options := fun _ => ⟨0, 0⟩
    optCrit := fun _ => false }

/-- `lastonum` of `_add_opt_pkt` -/
def lastonum (pkt : Pkt) : Nat :=
  if pkt.optionsLen ≠ 0 then (pkt.options (pkt.optionsLen - 1)).optNum else 0

def addOptPkt (cfg : Cfg) (s : PktState) (optnum : Nat) (val : List UInt8) : Option (Int × PktState) :=
  if cfg.noptsMax ≤ s.pkt.optionsLen then some (-ENOSPC, s)
  else if optnum < lastonum s.pkt then none
  else
    let delta := (optnum - lastonum s.pkt) % 2 ^ 16
    let optlen := 1 + optHeaderExtraSize delta + optHeaderExtraSize val.length + val.length
    if s.pkt.payloadLen < optlen then some (-ENOSPC, s)
    else
      let payload := s.pkt.payload
      let mem := store s.mem payload [0]
      match putDeltaOptlen mem payload 1 4 delta with
      | (mem, n) =>
        match putDeltaOptlen mem payload n 0 val.length with
        | (mem, n) =>
          some (optlen,
            { mem := store mem (payload + n) val
              pkt := { s.pkt with
                options := Function.update s.pkt.options s.pkt.optionsLen ⟨optnum, (payload - s.pkt.buf) % 2 ^ 16⟩
                optionsLen := (s.pkt.optionsLen + 1) % 2 ^ 16
                payload := payload + optlen
                payloadLen := s.pkt.payloadLen - optlen } })

def coapOptAddOpaque (cfg : Cfg) (s : PktState) (optnum : Nat) (val : List UInt8) : Option (Int × PktState) :=
  addOptPkt cfg s optnum val

/-- The outer loop of `coap_opt_add_chars`, for at most `fuel` rounds. -/
def addCharsLoop (cfg : Cfg) (chars : Memory UInt8) (endpos : Nat) (separator : UInt8) (optnum : Nat) :
    Nat → PktState → Nat → Nat → Nat → Option (Int × PktState)
  | 0, _, _, _, _ => none
  | fuel + 1, s, uripos, charsLen, writeLen =>
    if charsLen = 0 then some (writeLen, s)
    else
      let start := skipSeparator chars separator uripos
      let (uripos, charsLen) := scanPart (addStop chars separator endpos) charsLen start
      let part := slice chars start (uripos - start)
      if part ≠ [] ∨ separator = slash ∧ writeLen ≠ 0 then
        match addOptPkt cfg s optnum part with
        | none => none
        | some (optlen, s) =>
          if optlen < 0 then some (optlen, s)
          else addCharsLoop cfg chars endpos separator optnum fuel s uripos charsLen (writeLen + optlen.toNat)
      else addCharsLoop cfg chars endpos separator optnum fuel s uripos charsLen writeLen

/-- `coap_opt_add_chars`; `chars` is read from 0 on. -/
def coapOptAddChars (cfg : Cfg) (s : PktState) (optnum : Nat) (chars : Memory UInt8) (charsLen : Nat)
    (separator : UInt8) : Option (Int × PktState) :=
  if charsLen = 0 then some (0, s)
  else addCharsLoop cfg chars charsLen separator optnum (charsLen + 1) s 0 charsLen 0

/-! ## The builder -/

/-- The outer loop of `coap_opt_put_string_with_len`, for at most `fuel` rounds. -/
def putStringLoop (w : Nat) (string : Memory UInt8) (separator : UInt8) (optnum : Nat) :
    Nat → BuildState → Nat → Nat → Option (Int × BuildState)
  | 0, _, _, _ => none
  | fuel + 1, s, uripos, len =>
    if len = 0 then some (0, s)
    else
      let start := skipSeparator string separator uripos
      let (uripos, len) := scanPart (putStop string separator) len start
      let part := slice string start (uripos - start)
      if part ≠ [] ∨ separator = slash ∧ s.builder.lastOptNum = optnum then
        match coapOptPut w s optnum part with
        | none => none
        | some (err, s) =>
          if err ≠ 0 then some (err, s)
          else putStringLoop w string separator optnum fuel s uripos len
      else putStringLoop w string separator optnum fuel s uripos len

/-- `coap_opt_put_string_with_len`; `string` is read from 0 on. -/
def coapOptPutStringWithLen (w : Nat) (s : BuildState) (optnum : Nat) (string : Memory UInt8) (len : Nat)
    (separator : UInt8) : Option (Int × BuildState) :=
  if len = 0 then some (0, s) else putStringLoop w string separator optnum (len + 1) s 0 len

/-! ## Runs -/

/-- A call of the function that appends one value, or of the one that appends a string in parts. -/
inductive OptionCall where
  | value (optnum : UInt16) (val : List UInt8)
  | parts (optnum : UInt16) (chars : Memory UInt8) (len : Nat) (separator : UInt8)

/-- The call of the builder's function. -/
def OptionCall.put (w : Nat) (s : BuildState) : OptionCall → Option (Int × BuildState)
  | value optnum val => coapOptPut w s optnum.toNat val
  | parts optnum string len separator => coapOptPutStringWithLen w s optnum.toNat string len separator

/-- The call of the function on packets. -/
def OptionCall.add (cfg : Cfg) (s : PktState) : OptionCall → Option (Int × PktState)
  | value optnum val => coapOptAddOpaque cfg s optnum.toNat val
  | parts optnum chars len separator => coapOptAddChars cfg s optnum.toNat chars len separator

/-- Both messages. -/
structure Encoders where
  built : BuildState
  packet : PktState

/-- Makes a call of both functions; each has to succeed. -/
def encodeStep (cfg : Cfg) (w : Nat) (s : Encoders) (c : OptionCall) : Option Encoders :=
  match c.put w s.built, c.add cfg s.packet with
  | some (err, built), some (optlen, packet) => if err = 0 ∧ 0 ≤ optlen then some ⟨built, packet⟩ else none
  | _, _ => none

/-- What the builder has built. -/
def BuildState.message (s : BuildState) : List UInt8 := slice s.mem s.builder.buf s.builder.pos

/-- What is in front of the payload of a packet. -/
def PktState.message (s : PktState) : List UInt8 := slice s.mem s.pkt.buf (s.pkt.payload - s.pkt.buf)

/-- Both functions have written the same bytes. -/
def Encoders.Agree (s : Encoders) : Prop := s.built.message = s.packet.message

/-- Both functions make the same options of what they are called with. -/
def Encoders.Alike (s : Encoders) : OptionCall → Prop
  | .value .. => True
  | .parts optnum chars len separator =>
    SplitsAlike (s.built.builder.lastOptNum = optnum.toNat) chars len separator

instance (s : Encoders) : (c : OptionCall) → Decidable (s.Alike c)
  | .value .. => inferInstanceAs (Decidable True)
  | .parts .. => inferInstanceAs (Decidable (SplitsAlike ..))

/-! ## Options one after the other -/

/-- Puts options until a call fails. -/
def putAll (w : Nat) : BuildState → List NumberedOption → Option (Int × BuildState)
  | s, [] => some (0, s)
  | s, o :: os =>
    match coapOptPut w s o.1 o.2 with
    | none => none
    | some (err, s) => if err ≠ 0 then some (err, s) else putAll w s os

/-- Adds options until a call fails, behind `writeLen` bytes. -/
def addAll (cfg : Cfg) : PktState → Nat → List NumberedOption → Option (Int × PktState)
  | s, writeLen, [] => some (writeLen, s)
  | s, writeLen, o :: os =>
    match addOptPkt cfg s o.1 o.2 with
    | none => none
    | some (optlen, s) => if optlen < 0 then some (optlen, s) else addAll cfg s (writeLen + optlen.toNat) os

/-- The options of a call of the builder's function. -/
def OptionCall.putOptions (lastOptNum : Nat) : OptionCall → List NumberedOption
  | value optnum val => [(optnum.toNat, val)]
  | parts optnum string len separator =>
    (emitted separator (decide (lastOptNum = optnum.toNat))
      (partsFrom (putStop string separator) string separator (len + 1) 0 len)).map (Prod.mk optnum.toNat)

/-- The options of a call of the function on packets. -/
def OptionCall.addOptions : OptionCall → List NumberedOption
  | value optnum val => [(optnum.toNat, val)]
  | parts optnum chars len separator =>
    (emitted separator false
      (partsFrom (addStop chars separator len) chars separator (len + 1) 0 len)).map (Prod.mk optnum.toNat)

variable {cfg : Cfg} {w : Nat} {chars : Memory UInt8} {separator : UInt8} {optnum fuel uripos len m n : Nat}
  {s s' : BuildState} {p p' : PktState} {o : NumberedOption} {os : List NumberedOption} {val : List UInt8}
  {err : Int} {c : OptionCall}

theorem builderAdvancePos_lastOptNum {b : Builder} {size : Nat} :
    (builderAdvancePos w b size).2.lastOptNum = b.lastOptNum := by
  unfold builderAdvancePos
  dsimp only
  split
  · rfl
  · split <;> rfl

theorem coapOptPut_lastOptNum (h : coapOptPut w s optnum val = some (err, s')) : s'.builder.lastOptNum = optnum := by
  unfold coapOptPut at h
  split at h
  · cases h
  split at h
  · cases h
  dsimp only at h
  split at h
  · rename_i b hb
    rw [← (mk.inj (Option.some.inj h)).2]
    exact (congrArg (fun r => r.2.lastOptNum) hb).symm.trans builderAdvancePos_lastOptNum
  · rename_i b hb
    rw [← (mk.inj (Option.some.inj h)).2]
    exact (congrArg (fun r => r.2.lastOptNum) hb).symm.trans builderAdvancePos_lastOptNum

theorem addOptPkt_pos (h : addOptPkt cfg p optnum val = some (err, p')) : err < 0 ∨ 0 < err.toNat := by
  unfold addOptPkt at h
  split at h
  · rw [← (mk.inj (Option.some.inj h)).1]
    exact .inl (by decide)
  split at h
  · cases h
  dsimp only at h
  split at h
  · rw [← (mk.inj (Option.some.inj h)).1]
    exact .inl (by decide)
  · rw [← (mk.inj (Option.some.inj h)).1]
    exact .inr (by omega)

theorem putStringLoop_eq (hfuel : len < fuel) : putStringLoop w chars separator optnum fuel s uripos len =
      putAll w s ((emitted separator (decide (s.builder.lastOptNum = optnum))
        (partsFrom (putStop chars separator) chars separator fuel uripos len)).map (mk optnum)) := by
  induction fuel generalizing s uripos len with
  | zero => exact absurd hfuel (not_lt_zero _)
  | succ fuel ih =>
    unfold putStringLoop
    by_cases hlen : len = 0
    · rw [if_pos hlen, hlen, partsFrom_zero]
      rfl
    rw [if_neg hlen, partsFrom_succ hlen]
    dsimp only
    have hless := @scanPart_le (putStop chars separator) len (skipSeparator chars separator uripos)
      (Nat.pos_of_ne_zero hlen)
    generalize scanPart (putStop chars separator) len (skipSeparator chars separator uripos) = r at *
    obtain ⟨q, l⟩ := r
    unfold emitted
    generalize slice chars _ _ = part
    by_cases hemit : part ≠ [] ∨ separator = slash ∧ s.builder.lastOptNum = optnum
    · rw [if_pos hemit, if_pos (hemit.imp_right fun h => ⟨h.1, decide_eq_true h.2⟩), map_cons, putAll]
      cases hput : coapOptPut w s optnum _ with
      | none => rfl
      | some r =>
        have hlast := coapOptPut_lastOptNum hput
        dsimp only
        rw [ih (by omega : l < fuel), hlast, decide_eq_true rfl]
    · rw [if_neg hemit, if_neg fun h => hemit (h.imp_right fun h => ⟨h.1, of_decide_eq_true h.2⟩)]
      exact ih (by omega)

theorem addCharsLoop_eq (hfuel : len < fuel) : addCharsLoop cfg chars n separator optnum fuel p uripos len m =
      addAll cfg p m ((emitted separator (decide (m ≠ 0))
        (partsFrom (addStop chars separator n) chars separator fuel uripos len)).map (mk optnum)) := by
  induction fuel generalizing p uripos len m with
  | zero => exact absurd hfuel (not_lt_zero _)
  | succ fuel ih =>
    unfold addCharsLoop
    by_cases hlen : len = 0
    · rw [if_pos hlen, hlen, partsFrom_zero]
      rfl
    rw [if_neg hlen, partsFrom_succ hlen]
    dsimp only
    have hless := @scanPart_le (addStop chars separator n) len (skipSeparator chars separator uripos)
      (Nat.pos_of_ne_zero hlen)
    generalize scanPart (addStop chars separator n) len (skipSeparator chars separator uripos) = r at *
    obtain ⟨q, l⟩ := r
    unfold emitted
    generalize slice chars _ _ = part
    by_cases hemit : part ≠ [] ∨ separator = slash ∧ m ≠ 0
    · rw [if_pos hemit, if_pos (hemit.imp_right fun h => ⟨h.1, decide_eq_true h.2⟩), map_cons, addAll]
      cases hadd : addOptPkt cfg p optnum _ with
      | none => rfl
      | some r =>
        obtain ⟨optlen, p'⟩ := r
        dsimp only
        rcases addOptPkt_pos hadd with hneg | hpos
        · rw [if_pos hneg, if_pos hneg]
        · rw [ih (by omega : l < fuel), decide_eq_true (show m + optlen.toNat ≠ 0 by omega)]
    · rw [if_neg hemit, if_neg fun h => hemit (h.imp_right fun h => ⟨h.1, of_decide_eq_true h.2⟩)]
      exact ih (by omega)

theorem OptionCall.put_eq : c.put w s = putAll w s (c.putOptions s.builder.lastOptNum) := by
  cases c with
  | value optnum val =>
    unfold put putOptions putAll
    dsimp only
    cases coapOptPut w s optnum.toNat val with
    | none => rfl
    | some r =>
      obtain ⟨err, s'⟩ := r
      dsimp only
      by_cases herr : err = 0
      · rw [if_neg (not_not.mpr herr), herr]
        rfl
      · rw [if_pos herr]
  | parts optnum chars len separator =>
    unfold put putOptions coapOptPutStringWithLen
    dsimp only
    by_cases hlen : len = 0
    · rw [if_pos hlen, hlen, partsFrom_zero]
      rfl
    · rw [if_neg hlen, putStringLoop_eq (lt_succ_self len)]

theorem OptionCall.add_eq : c.add cfg p = addAll cfg p 0 c.addOptions := by
  cases c with
  | value optnum val =>
    unfold add addOptions addAll coapOptAddOpaque
    dsimp only
    cases hadd : addOptPkt cfg p optnum.toNat val with
    | none => rfl
    | some r =>
      obtain ⟨optlen, p'⟩ := r
      dsimp only
      by_cases hneg : optlen < 0
      · rw [if_pos hneg]
      · rw [if_neg hneg, addAll, zero_add, Int.toNat_of_nonneg (by omega)]
  | parts optnum chars len separator =>
    unfold add addOptions coapOptAddChars
    dsimp only
    by_cases hlen : len = 0
    · rw [if_pos hlen, hlen, partsFrom_zero]
      rfl
    · rw [if_neg hlen, addCharsLoop_eq (lt_succ_self len), decide_eq_false (not_not.mpr rfl)]

/-! ## What is appended -/

theorem slice_store_append {mem : Memory UInt8} {buf : Nat} {bs : List UInt8} :
    slice (store mem (buf + n) bs) buf (n + bs.length) = slice mem buf n ++ bs := by
  rw [slice_add, slice_store_of_disjoint (.inl le_rfl), holds_store.slice_eq]

/-- There are bytes left for the options of a packet, and their number fits. -/
structure PktState.Open (p : PktState) : Prop where
  buf_le : p.pkt.buf ≤ p.pkt.payload
  room : p.pkt.optionsLen + p.pkt.payloadLen ≤ uint16Max

/-- A builder within its buffer. -/
structure BuildState.Open (s : BuildState) : Prop where
  size_le : s.builder.size ≤ uint16Max
  pos_le : s.builder.pos ≤ s.builder.size

theorem addOptPkt_spec (hopen : p.Open) (hnum : o.1 ≤ uint16Max) (h : addOptPkt cfg p o.1 o.2 = some (err, p'))
    (herr : 0 ≤ err) :
    (lastonum p.pkt ≤ o.1 ∧ o.2.length ≤ uint16Max) ∧ p'.Open ∧ lastonum p'.pkt = o.1 ∧
      p'.message = p.message ++ encodeOption (o.1 - lastonum p.pkt) o.2 := by
  have hmax : uint16Max = 65535 := rfl
  have hbuf := hopen.buf_le
  have hroom := hopen.room
  unfold addOptPkt at h
  split at h
  · rw [← (mk.inj (Option.some.inj h)).1] at herr
    exact absurd herr (by decide)
  split at h
  · cases h
  have hdelta : (o.1 - lastonum p.pkt) % 2 ^ 16 = o.1 - lastonum p.pkt := mod_eq_of_lt (by omega)
  dsimp only at h
  rw [hdelta, optHeaderExtraSize_eq, optHeaderExtraSize_eq, ← length_encodeOption] at h
  split at h
  · rw [← (mk.inj (Option.some.inj h)).1] at herr
    exact absurd herr (by decide)
  have hvalue := @length_encodeOption (o.1 - lastonum p.pkt) o.2
  have hmem := (congrArg PktState.mem (mk.inj (Option.some.inj h)).2).symm.trans store_option
  have hpkt := (congrArg PktState.pkt (mk.inj (Option.some.inj h)).2).symm
  have hcount : (p.pkt.optionsLen + 1) % 2 ^ 16 = p.pkt.optionsLen + 1 := mod_eq_of_lt (by omega)
  rw [hcount] at hpkt
  refine ⟨⟨by omega, by omega⟩, ⟨?_, ?_⟩, ?_, ?_⟩
  · rw [hpkt]
    dsimp only
    omega
  · rw [hpkt]
    dsimp only
    omega
  · rw [lastonum, hpkt]
    dsimp only
    rw [if_pos (succ_ne_zero _), Nat.add_sub_cancel, Function.update_self]
  · unfold PktState.message
    rw [hmem, hpkt]
    rw [show p.pkt.payload + (encodeOption (o.1 - lastonum p.pkt) o.2).length - p.pkt.buf =
      (p.pkt.payload - p.pkt.buf) + (encodeOption (o.1 - lastonum p.pkt) o.2).length by omega]
    have happ := @slice_store_append (p.pkt.payload - p.pkt.buf) p.mem p.pkt.buf
      (encodeOption (o.1 - lastonum p.pkt) o.2)
    rw [Nat.add_sub_cancel' hbuf] at happ
    exact happ

theorem addAll_spec (hopen : p.Open) (hnum : ∀ o ∈ os, o.1 ≤ uint16Max) (h : addAll cfg p n os = some (err, p'))
    (herr : 0 ≤ err) :
    OptionsEncodable (lastonum p.pkt) os ∧ p'.Open ∧ lastonum p'.pkt = lastNumber (lastonum p.pkt) os ∧
      p'.message = p.message ++ encodeOptions (lastonum p.pkt) os := by
  have hfield : uint16Max ≤ fieldMax := by decide
  induction os generalizing p n with
  | nil =>
    cases h
    exact ⟨trivial, hopen, rfl, (append_nil _).symm⟩
  | cons o os ih =>
    obtain ⟨ho, hos⟩ := forall_mem_cons.mp hnum
    rw [addAll] at h
    split at h
    · cases h
    rename_i optlen p1 hadd
    split at h
    · cases h
      exact absurd herr (by omega)
    rename_i hneg
    obtain ⟨⟨hle, hval⟩, hopen1, hlast1, hmsg1⟩ := addOptPkt_spec hopen ho hadd (by omega)
    obtain ⟨henc, hopen', hlast, hmsg⟩ := ih hopen1 hos h
    rw [hlast1] at henc hlast hmsg
    refine ⟨⟨hle, by omega, by omega, henc⟩, hopen', hlast, ?_⟩
    rw [hmsg, hmsg1, encodeOptions_cons, append_assoc]

theorem putOptions_of_putAll (h : putAll w s os = some (0, s')) : putOptions w s os = some s' := by
  induction os generalizing s with
  | nil =>
    cases h
    rfl
  | cons o os ih =>
    rw [putAll] at h
    rw [putOptions]
    split at h
    · cases h
    rename_i err s1 hput
    rw [hput]
    by_cases herr : err = 0
    · subst herr
      exact ih h
    · rw [if_pos herr] at h
      exact absurd (mk.inj (Option.some.inj h)).1 herr

theorem putAll_spec (hopen : s.Open) (hnum : ∀ o ∈ os, o.1 ≤ uint16Max) (h : putAll w s os = some (0, s')) :
    OptionsEncodable s.builder.lastOptNum os ∧ s'.Open ∧
      s'.builder.lastOptNum = lastNumber s.builder.lastOptNum os ∧
      s'.message = s.message ++ encodeOptions s.builder.lastOptNum os := by
  obtain ⟨henc, hfit, rfl⟩ := putOptions_spec hnum hopen.size_le hopen.pos_le (putOptions_of_putAll h)
  exact ⟨henc, ⟨hopen.size_le, hfit⟩, rfl, slice_store_append⟩

/-! ## Agreement -/

theorem OptionCall.putOptions_le {last : Nat} : ∀ o ∈ c.putOptions last, o.1 ≤ uint16Max := by
  intro o ho
  cases c with
  | value optnum val =>
    obtain rfl := mem_singleton.mp ho
    exact le_of_lt_succ optnum.toNat_lt
  | parts optnum chars len separator =>
    obtain ⟨val, -, rfl⟩ := mem_map.mp ho
    exact le_of_lt_succ optnum.toNat_lt

theorem OptionCall.addOptions_le : ∀ o ∈ c.addOptions, o.1 ≤ uint16Max := by
  intro o ho
  cases c with
  | value optnum val =>
    obtain rfl := mem_singleton.mp ho
    exact le_of_lt_succ optnum.toNat_lt
  | parts optnum chars len separator =>
    obtain ⟨val, -, rfl⟩ := mem_map.mp ho
    exact le_of_lt_succ optnum.toNat_lt

/-- Both functions are in step. -/
structure Encoders.Inv (e : Encoders) : Prop where
  built : e.built.Open
  packet : e.packet.Open
  last : e.built.builder.lastOptNum = lastonum e.packet.pkt

variable {e e' : Encoders}

theorem OptionCall.options_eq_iff : c.putOptions e.built.builder.lastOptNum = c.addOptions ↔ e.Alike c := by
  cases c with
  | value optnum val => exact iff_of_true rfl trivial
  | parts optnum chars len separator =>
    unfold OptionCall.putOptions OptionCall.addOptions Encoders.Alike
    rw [map_inj_right fun _ _ h => (mk.inj h).2]
    rcases len.eq_zero_or_pos with rfl | hlen
    · exact iff_of_true rfl (.inl rfl)
    · rw [emitted_eq_iff hlen (lt_succ_self len), decide_eq_true_iff]

theorem encodeStep_cases (h : encodeStep cfg w e c = some e') :
    putAll w e.built (c.putOptions e.built.builder.lastOptNum) = some (0, e'.built) ∧
      ∃ optlen, 0 ≤ optlen ∧ addAll cfg e.packet 0 c.addOptions = some (optlen, e'.packet) := by
  unfold encodeStep at h
  rw [OptionCall.put_eq, OptionCall.add_eq] at h
  split at h
  · rename_i err built optlen packet hput hadd
    split at h
    · rename_i hok
      cases h
      obtain ⟨rfl, hlen⟩ := hok
      exact ⟨hput, optlen, hlen, hadd⟩
    · cases h
  · cases h

/-- A step keeps agreement exactly if the functions do the same with its call. -/
theorem Encoders.Inv.step (hinv : e.Inv) (hagree : e.Agree) (h : encodeStep cfg w e c = some e') :
    (e.Alike c ↔ e'.Agree) ∧ (e.Alike c → e'.Inv) := by
  obtain ⟨hput, optlen, hlen, hadd⟩ := encodeStep_cases h
  obtain ⟨henc, hopen, hlast, hmsg⟩ := putAll_spec hinv.built OptionCall.putOptions_le hput
  obtain ⟨henc', hopen', hlast', hmsg'⟩ := addAll_spec hinv.packet OptionCall.addOptions_le hadd hlen
  rw [← hinv.last] at henc' hlast' hmsg'
  constructor
  · rw [← OptionCall.options_eq_iff, Encoders.Agree, hmsg, hmsg', hagree, append_cancel_left_eq]
    constructor
    · intro heq
      rw [heq]
    · intro heq
      have hunique := encodeOptions_unique henc henc' (.inl rfl) (.inl rfl)
      rw [append_nil, append_nil] at hunique
      exact (hunique heq).1
  · intro halike
    refine ⟨hopen, hopen', ?_⟩
    rw [hlast, hlast', OptionCall.options_eq_iff.mpr halike]

/-! ## Enough space -/

/-! ## All runs -/

/-- Both functions begin behind the same header. -/
structure Encoders.Begun (e : Encoders) : Prop where
  builder : ∃ state bufLen headerLen,
    coapBuilderInit state e.built.builder.buf bufLen headerLen = some (0, e.built.builder)
  packet : ∃ len headerLen, e.packet.pkt = coapPktInit e.packet.pkt.buf len headerLen
  header : e.Agree

theorem Encoders.Begun.inv (h : e.Begun) : e.Inv := by
  obtain ⟨state, bufLen, headerLen, hinit⟩ := h.builder
  obtain ⟨len, headerLen', hpkt⟩ := h.packet
  have hmax : uint16Max = 65535 := rfl
  unfold coapBuilderInit at hinit
  split at hinit
  · cases hinit
  split at hinit
  · cases hinit
  split at hinit
  · cases hinit
  split at hinit
  · exact absurd (Prod.mk.inj (Option.some.inj hinit)).1 (by decide)
  rename_i hlen _ hfit
  have hb := (Prod.mk.inj (Option.some.inj hinit)).2
  have hlast : e.built.builder.lastOptNum = 0 := by rw [← hb]
  refine ⟨⟨?_, ?_⟩, ⟨?_, ?_⟩, ?_⟩
  · rw [← hb]
    exact not_lt.mp hlen
  · rw [← hb]
    exact not_lt.mp hfit
  · rw [hpkt]
    exact le_add_right _ _
  · rw [hpkt, coapPktInit]
    dsimp only
    omega
  · rw [hlast, hpkt]
    rfl

/-- **The encoders agree** after every call of a run exactly if each string of the run is one that
both take apart in the same way. -/
theorem encoders_agree_iff (cfg : Cfg) (w : Nat) (cs : List OptionCall) (hbegun : e.Begun) :
    Along (encodeStep cfg w) Encoders.Alike e cs ↔ Always (encodeStep cfg w) Encoders.Agree e cs :=
  along_iff_always (I := Encoders.Inv) (fun _ _ _ hinv hagree hs => (hinv.step hagree hs).1)
    (fun _ _ _ hinv hagree halike hs => (hinv.step hagree hs).2 halike) cs hbegun.inv hbegun.header

/-- Both messages behind a header of four bytes. -/
def emptyMessages : Encoders where
  built := ⟨store (fun _ => 0) 100 [0x40, 1, 0, 7], ⟨100, 64, 4, 0⟩⟩
  packet := ⟨store (fun _ => 0) 100 [0x40, 1, 0, 7], coapPktInit 100 64 4⟩

theorem begun_emptyMessages : emptyMessages.Begun := by
  refine ⟨⟨⟨0, 0, 0, 0⟩, 64, 4, rfl⟩, ⟨64, 4, rfl⟩, ?_⟩
  rfl

/-- The path `"/ab/c/"`, a content format and the query `"q"`. -/
def pathAndQuery : List OptionCall :=
  [.parts 11 (store (fun _ => 0) 0 [47, 97, 98, 47, 99, 47]) 6 slash, .value 12 [50],
   .parts 15 (store (fun _ => 0) 0 [113]) 1 38]

/-- Of the path both functions make the options `"ab"`, `"c"` and an empty one. -/
theorem encoders_agree_path :
    (∃ e', run (encodeStep ⟨16, false⟩ 32) emptyMessages pathAndQuery = some e' ∧
      e'.built.message = [0x40, 1, 0, 7, 0xb2, 97, 98, 0x01, 99, 0x00, 0x11, 50, 0x31, 113]) ∧
      Always (encodeStep ⟨16, false⟩ 32) Encoders.Agree emptyMessages pathAndQuery := by
  constructor
  · have hrun : (run (encodeStep ⟨16, false⟩ 32) emptyMessages pathAndQuery).any (fun e' => decide
        (e'.built.message = [0x40, 1, 0, 7, 0xb2, 97, 98, 0x01, 99, 0x00, 0x11, 50, 0x31, 113])) = true := by
      decide +kernel
    obtain ⟨e', hrun, hmsg⟩ := (Option.any_eq_true _ _).mp hrun
    exact ⟨e', hrun, of_decide_eq_true hmsg⟩
  · exact (encoders_agree_iff _ _ _ begun_emptyMessages).mp (by decide +kernel)

/-- **The builder takes the character behind a string that begins with the separator.** Of
`"/abc"` the first two characters are `"/a"`. -/
theorem not_encoders_agree :
    ∃ e', run (encodeStep ⟨16, false⟩ 32) emptyMessages
        [.parts 11 (store (fun _ => 0) 0 [47, 97, 98, 99]) 2 slash] = some e' ∧
      e'.built.message = [0x40, 1, 0, 7, 0xb2, 97, 98] ∧ e'.packet.message = [0x40, 1, 0, 7, 0xb1, 97] ∧
      ¬ Always (encodeStep ⟨16, false⟩ 32) Encoders.Agree emptyMessages
        [.parts 11 (store (fun _ => 0) 0 [47, 97, 98, 99]) 2 slash] := by
  have hrun : (run (encodeStep ⟨16, false⟩ 32) emptyMessages
      [.parts 11 (store (fun _ => 0) 0 [47, 97, 98, 99]) 2 slash]).any (fun e' => decide
        (e'.built.message = [0x40, 1, 0, 7, 0xb2, 97, 98] ∧ e'.packet.message = [0x40, 1, 0, 7, 0xb1, 97])) = true := by
    decide +kernel
  obtain ⟨e', hrun, hmsg⟩ := (Option.any_eq_true _ _).mp hrun
  obtain ⟨hbuilt, hpacket⟩ := of_decide_eq_true hmsg
  refine ⟨e', hrun, hbuilt, hpacket, fun hall => ?_⟩
  have hagree : e'.built.message = e'.packet.message := hall.last hrun
  rw [hbuilt, hpacket] at hagree
  cases hagree

end Riot.Nanocoap
