import Riot.Lib.Memory
import Riot.Lib.BigEndian

/-!
# Parsing CoAP packets (`nanocoap.c`)

A packet context points into the buffer that was parsed. Pointers are addresses,
`NULL` is 0. The parser reads the buffer only: a read outside of it, and a
violated assertion, have no result. The getters read the memory they point to.
-/

namespace Riot.Nanocoap

open Riot.Lib Memory Function

/-! ## Data -/

def ENOENT : Int := 2
def ENOMEM : Int := 12
def EINVAL : Int := 22
def ENOSPC : Int := 28
def EBADMSG : Int := 74

def coapPayloadMarker : UInt8 := 0xFF

def coapTokenLengthMax : Nat := 8

/-- `sizeof(coap_udp_hdr_t)` -/
def udpHdrSize : Nat := 4

/-- Compile-time configuration. -/
structure Cfg where
  /-- `CONFIG_NANOCOAP_NOPTS_MAX` -/
  noptsMax : Nat
  /-- `IS_USED(MODULE_NANOCOAP_TOKEN_EXT)` -/
  tokenExt : Bool

/-- `coap_optpos_t`; both fields are 16 bits wide. -/
structure OptPos where
  optNum : Nat
  offset : Nat
  deriving DecidableEq

/-- `coap_pkt_t`; `payloadLen` and `optionsLen` are 16 bits wide, `optCrit` is a bit
field. -/
structure Pkt where
  buf : Nat
  payload : Nat
  payloadLen : Nat
  optionsLen : Nat
  options : Memory OptPos
  optCrit : Memory Bool

/-! ## The header -/

/-- `coap_hdr_tkl_ext_len`, by the first byte of the header. -/
def coapHdrTklExtLen (cfg : Cfg) (verTTkl : UInt8) : Option Nat :=
  if ¬ cfg.tokenExt then some 0
  else
    let tkl := (verTTkl &&& 0x0f).toNat
    if tkl = 13 then some 1
    else if tkl = 14 then some 2
    else if tkl = 15 then none
    else some 0

/-- `coap_hdr_get_token_len`; `rd` reads the memory of the header. -/
def coapHdrGetTokenLen (cfg : Cfg) (rd : Nat → Option UInt8) (hdr : Nat) : Option Nat :=
  (rd hdr).bind fun verTTkl =>
    (coapHdrTklExtLen cfg verTTkl).bind fun ext =>
      if ext = 0 then some (verTTkl &&& 0x0f).toNat
      else if ext = 1 then (rd (hdr + udpHdrSize)).map fun b => b.toNat + 13
      else
        (rd (hdr + udpHdrSize)).bind fun hi =>
          (rd (hdr + udpHdrSize + 1)).map fun lo => 256 * hi.toNat + lo.toNat + 269

/-- `coap_hdr_data_ptr`; the header is read only if tokens can be extended. -/
def coapHdrDataPtr (cfg : Cfg) (rd : Nat → Option UInt8) (hdr : Nat) : Option Nat :=
  if cfg.tokenExt then
    (rd hdr).bind fun verTTkl => (coapHdrTklExtLen cfg verTTkl).map fun ext => hdr + udpHdrSize + ext
  else some (hdr + udpHdrSize)

def coapGetTotalHdrLen (cfg : Cfg) (rd : Nat → Option UInt8) (hdr : Nat) : Option Nat :=
  (rd hdr).bind fun verTTkl =>
    (coapHdrTklExtLen cfg verTTkl).bind fun ext =>
      (coapHdrGetTokenLen cfg rd hdr).map fun tkl => udpHdrSize + ext + tkl

def coapIsHdrInBounds (cfg : Cfg) (rd : Nat → Option UInt8) (hdr len : Nat) : Option Bool :=
  if len < udpHdrSize then some false
  else if cfg.tokenExt then
    (rd hdr).bind fun verTTkl =>
      if (verTTkl &&& 0x0f).toNat = 15 then some false
      else
        (coapHdrTklExtLen cfg verTTkl).bind fun ext =>
          if len < udpHdrSize + ext then some false
          else (coapHdrGetTokenLen cfg rd hdr).map fun tkl => decide (udpHdrSize + ext + tkl ≤ len)
  else
    (coapHdrGetTokenLen cfg rd hdr).map fun tkl =>
      if coapTokenLengthMax < tkl then false else decide (udpHdrSize + tkl ≤ len)

/-! ## Options -/

/-- `_decode_value`: the value, or a negative error, and the new position. The
number of bytes left is unsigned, so it is only small in front of the end. -/
def decodeValue (rd : Nat → Option UInt8) (val pktPos pktEnd : Nat) : Option (Int × Nat) :=
  if val = 13 then
    if pktPos ≤ pktEnd ∧ pktEnd - pktPos < 1 then some (-ENOSPC, pktPos)
    else (rd pktPos).map fun b => ((b.toNat + 13 : Nat), pktPos + 1)
  else if val = 14 then
    if pktPos ≤ pktEnd ∧ pktEnd - pktPos < 2 then some (-ENOSPC, pktPos)
    else
      (rd pktPos).bind fun hi =>
        (rd (pktPos + 1)).map fun lo => ((256 * hi.toNat + lo.toNat + 269 : Nat), pktPos + 2)
  else if val = 15 then some (-EBADMSG, pktPos)
  else some (val, pktPos)

def deltaNibble (optionByte : UInt8) : Nat := (optionByte >>> 4).toNat

def lengthNibble (optionByte : UInt8) : Nat := (optionByte &&& 0xf).toNat

/-- Records an option with a new number: `opt_crit` marks odd numbers. -/
def recordOption (pkt : Pkt) (optionCount optionNr offset : Nat) : Pkt :=
  { pkt with
    optCrit := if optionNr % 2 = 1 then update pkt.optCrit optionCount true else pkt.optCrit
    options := update pkt.options optionCount ⟨optionNr % 2 ^ 16, offset % 2 ^ 16⟩ }

/-- The loop of `coap_parse_udp`, for at most `fuel` rounds: a negative error, or the
position behind the options, the number of recorded options and the context. -/
def parseOptions (cfg : Cfg) (rd : Nat → Option UInt8) (pktEnd : Nat) :
    Nat → Nat → Nat → Nat → Pkt → Option (Except Int (Nat × Nat × Pkt))
  | 0, pktPos, optionCount, _, pkt => if pktPos < pktEnd then none else some (.ok (pktPos, optionCount, pkt))
  | fuel + 1, pktPos, optionCount, optionNr, pkt =>
    if pktPos < pktEnd then
      match rd pktPos with
      | none => none
      | some optionByte =>
        if optionByte = coapPayloadMarker then
          some (.ok (pktPos + 1, optionCount, { pkt with
            payload := pktPos + 1
            payloadLen := (pktEnd - (pktPos + 1)) % 2 ^ 16 }))
        else
          match decodeValue rd (deltaNibble optionByte) (pktPos + 1) pktEnd with
          | none => none
          | some (optionDelta, pos) =>
            if optionDelta < 0 then some (.error (-EBADMSG))
            else
              match decodeValue rd (lengthNibble optionByte) pos pktEnd with
              | none => none
              | some (optionLen, pos) =>
                if optionLen < 0 then some (.error (-EBADMSG))
                else
                  let nr := (optionNr + optionDelta.toNat) % 2 ^ 32
                  if optionDelta ≠ 0 then
                    if cfg.noptsMax ≤ optionCount then some (.error (-ENOMEM))
                    else
                      parseOptions cfg rd pktEnd fuel (pos + optionLen.toNat) (optionCount + 1) nr
                        (recordOption pkt optionCount nr (pktPos - pkt.buf))
                  else parseOptions cfg rd pktEnd fuel (pos + optionLen.toNat) optionCount nr pkt
    else some (.ok (pktPos, optionCount, pkt))

/-- `coap_parse_udp`; `options` is the array that the context comes with. -/
def coapParseUdp (cfg : Cfg) (mem : Memory UInt8) (buf len : Nat) (options : Memory OptPos) :
    Option (Int × Pkt) :=
  let rd := load mem buf (buf + len)
  let pkt : Pkt :=
    { buf := buf, payload := 0, payloadLen := 0, optionsLen := 0, options := options,
      optCrit := fun _ => false }
  match coapHdrDataPtr cfg rd buf with
  | none => none
  | some pktPos =>
    match coapIsHdrInBounds cfg rd buf len with
    | none => none
    | some false => some (-EBADMSG, pkt)
    | some true =>
      match rd (buf + 1) with
      | none => none
      | some code =>
        if code = 0 ∧ udpHdrSize < len then some (-EBADMSG, pkt)
        else
          match coapHdrGetTokenLen cfg rd buf with
          | none => none
          | some tkl =>
            match parseOptions cfg rd (buf + len) len (pktPos + tkl) 0 0 pkt with
            | none => none
            | some (.error e) => some (e, pkt)
            | some (.ok (pos, optionCount, pkt)) =>
              if buf + len < pos then some (-EBADMSG, pkt)
              else
                some (len, { pkt with
                  optionsLen := optionCount % 2 ^ 16
                  payload := if pkt.payload = 0 then pos else pkt.payload })

/-! ## Getters -/

/-- `coap_find_option`, through `n` entries from `i` on: the index found. -/
def findOptionFrom (options : Memory OptPos) (optNum : Nat) : Nat → Nat → Option Nat
  | _, 0 => none
  | i, n + 1 => if (options i).optNum = optNum then some i else findOptionFrom options optNum (i + 1) n

/-- `coap_find_option`: where the option starts, or `NULL`. A critical option that
was found counts as processed. -/
def coapFindOption (pkt : Pkt) (optNum : Nat) : Nat × Pkt :=
  match findOptionFrom pkt.options optNum 0 pkt.optionsLen with
  | some i => (pkt.buf + (pkt.options i).offset, { pkt with optCrit := update pkt.optCrit i false })
  | none => (0, pkt)

/-- `_parse_option`: where the value starts, the delta, 16 bits wide, and the length,
or `none` for `NULL`. -/
def parseOption (mem : Memory UInt8) (pkt : Pkt) (pktPos : Nat) : Option (Nat × Nat × Int) :=
  let hdrEnd := pkt.payload
  if hdrEnd ≤ pktPos ∨ pktPos + 1 = hdrEnd ∧ mem pktPos = coapPayloadMarker then none
  else
    let rd := fun a => some (mem a)
    (decodeValue rd (deltaNibble (mem pktPos)) (pktPos + 1) hdrEnd).bind fun (delta, pos) =>
      (decodeValue rd (lengthNibble (mem pktPos)) pos hdrEnd).map fun (optLen, pos) =>
        (pos, (delta % 2 ^ 16).toNat, optLen)

/-- `coap_opt_get_opaque`: length or error, and where the value starts. -/
def coapOptGetOpaque (mem : Memory UInt8) (pkt : Pkt) (optNum : Nat) : Int × Nat :=
  let start := (coapFindOption pkt optNum).1
  if start = 0 then (-ENOENT, 0)
  else
    match parseOption mem pkt start with
    | none => (-EINVAL, 0)
    | some (value, _, len) => (len, value)

def decodeUint (bytes : List UInt8) : Nat := ofBytes bytes

/-- `coap_opt_get_uint`: result and target. If no option is parsed, its length is still 0. -/
def coapOptGetUint (mem : Memory UInt8) (pkt : Pkt) (optNum : Nat) : Int × Nat × Pkt :=
  match coapFindOption pkt optNum with
  | (optPos, pkt) =>
    if optPos = 0 then (-ENOENT, 0, pkt)
    else
      match parseOption mem pkt optPos with
      | none => (0, decodeUint [], pkt)
      | some (pktPos, _, optionLen) =>
        if 0 ≤ optionLen then
          if 4 < optionLen then (-ENOSPC, 0, pkt)
          else (0, decodeUint (slice mem pktPos optionLen.toNat), pkt)
        else (-EBADMSG, 0, pkt)

/-- `coap_iterate_option`: where the value starts or `NULL`, its length, and the new
position. -/
def coapIterateOption (mem : Memory UInt8) (pkt : Pkt) (optNum optPos : Nat) : Nat × Int × Nat :=
  let first := optPos = 0
  let pos := if optPos = 0 then (coapFindOption pkt optNum).1 else optPos
  if pos = 0 then (0, 0, 0)
  else
    match parseOption mem pkt pos with
    | none => (0, 0, pos)
    | some (dataStart, delta, optLen) =>
      if first ∨ delta = 0 then (dataStart, optLen, ((dataStart : Int) + optLen).toNat)
      else (0, optLen, pos)

/-- `coap_opt_get_next`: length or error, the new state, and where the value starts.
The caller passes no state for the first option. -/
def coapOptGetNext (cfg : Cfg) (mem : Memory UInt8) (pkt : Pkt) (opt : Option OptPos) :
    Int × OptPos × Nat :=
  let opt := opt.getD
    ⟨0, ((coapGetTotalHdrLen cfg (fun a => some (mem a)) pkt.buf).getD 0) % 2 ^ 16⟩
  match parseOption mem pkt (pkt.buf + opt.offset) with
  | none => (-ENOENT, opt, 0)
  | some (start, delta, len) =>
    (len, ⟨(opt.optNum + delta) % 2 ^ 16, (((start : Int) + len - pkt.buf) % 2 ^ 16).toNat⟩, start)

end Riot.Nanocoap
