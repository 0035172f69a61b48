import Riot.Lib.Memory

/-!
# The options of a CoAP message (`unicoap/options.c`)

An options object is a view into a storage buffer: the encoded options, and a
lookup array with an entry for each. Pointers are addresses, `NULL` is 0, and
an operation that violates an assertion has no result.
-/

namespace Riot.Unicoap

open Riot.Lib Memory Function

/-! ## Data -/

def EINVAL : Int := 22
def ENOENT : Int := 2
def ENOBUFS : Int := 105
def EBADOPT : Int := 151

def payloadMarker : UInt8 := 0xFF

def uintMax : Nat := 14 + 255 + 0xffff

/-- Compile-time configuration. -/
structure Cfg where
  /-- `CONFIG_UNICOAP_OPTIONS_MAX` -/
  optionsMax : Nat

/-- `unicoap_option_entry_t`; `size` and `number` are 16 bits wide. -/
structure OptionEntry where
  data : Nat
  size : Nat
  number : Nat
  deriving DecidableEq

/-- `unicoap_options_t` -/
structure Options where
  storageSize : Nat
  storageCapacity : Nat
  entries : Memory OptionEntry
  optionCount : Nat

/-- The memory and the options object of the calls below. -/
structure Store where
  mem : Memory UInt8
  options : Options

/-- `unicoap_options_init`; the rest of the lookup array is not written. -/
def unicoapOptionsInit (entries : Memory OptionEntry) (storage capacity : Nat) : Options where
  storageSize := 0
  storageCapacity := capacity
  entries := update entries 0 { entries 0 with data := storage }
  optionCount := 0

/-! ## Unsigned integer parsing -/

def decodeDeltaNibble (head : UInt8) : Nat := (head >>> 4).toNat

def decodeLengthNibble (head : UInt8) : Nat := (head &&& 0xf).toNat

def uintExtendedSizeFromNibble (nibble : Nat) : Int :=
  if nibble < 13 then 0
  else if nibble = 13 then 1
  else if nibble = 14 then 2
  else -EINVAL

def uintExtendedSize (uint : Nat) : Int :=
  if uint ≤ 12 then 0
  else if uint ≤ 13 + 0xff then 1
  else if uint ≤ 14 + 0xff + 0xffff then 2
  else -EINVAL

/-- The two bytes at `a`, most significant first (`byteorder_bebuftohs`). -/
def bebuftohs (hi lo : UInt8) : Nat := 256 * hi.toNat + lo.toNat

/-- `_uint_read`: value and cursor, or `none` for `-EBADOPT`. -/
def uintRead (mem : Memory UInt8) (nibble cursor : Nat) : Option (Nat × Nat) :=
  if nibble < 13 then some (nibble, cursor)
  else if nibble = 13 then some (13 + (mem cursor).toNat, cursor + 1)
  else if nibble = 14 then
    some (14 + 0xff + bebuftohs (mem cursor) (mem (cursor + 1)), cursor + 2)
  else none

/-- `_uint_write`: the nibble, the memory and the cursor behind the extension. -/
def uintWrite (mem : Memory UInt8) (value cursor : Nat) : Int × Memory UInt8 × Nat :=
  if value ≤ 12 then (value, mem, cursor)
  else if value ≤ 13 + 0xff then (13, store mem cursor [UInt8.ofNat (value - 13)], cursor + 1)
  else if value ≤ 14 + 0xff + 0xffff then
    let be := value - (14 + 0xff)
    (14, store mem cursor [UInt8.ofNat (be / 256), UInt8.ofNat be], cursor + 2)
  else (-EINVAL, mem, cursor)

/-! ## Reading and writing an option -/

def optionSizeDiff (newDelta currentDeltaNibble : Nat) : Int :=
  uintExtendedSize newDelta - uintExtendedSizeFromNibble currentDeltaNibble

def optionSize (delta valueSize : Nat) : Int :=
  if uintExtendedSize delta < 0 then uintExtendedSize delta
  else if uintExtendedSize valueSize < 0 then uintExtendedSize valueSize
  else 1 + uintExtendedSize delta + uintExtendedSize valueSize + valueSize

/-- `_read_option`: where the value starts and its size. -/
def readOption (mem : Memory UInt8) (cursor : Nat) : Except Int (Nat × Nat) :=
  let head := mem cursor
  let deltaSize := uintExtendedSize (decodeDeltaNibble head)
  if deltaSize < 0 then .error (-EBADOPT)
  else
    match uintRead mem (decodeLengthNibble head) (cursor + 1 + deltaSize.toNat) with
    | some (valueSize, value) => .ok (value, valueSize)
    | none => .error (-EBADOPT)

/-- `_write_option`: memory and cursor behind the option. -/
def writeOption (mem : Memory UInt8) (cursor delta : Nat) (value : List UInt8) : Memory UInt8 × Nat :=
  let head := cursor
  let (deltaNibble, mem, cursor) := uintWrite mem delta (cursor + 1)
  let mem := store mem head [UInt8.ofInt (deltaNibble * 16)]
  let (lengthNibble, mem, cursor) := uintWrite mem value.length cursor
  let mem := store mem head [mem head ||| UInt8.ofInt lengthNibble]
  (store mem cursor value, cursor + value.length)

def writeHeadPartial (mem : Memory UInt8) (cursor delta lengthNibble : Nat) : Memory UInt8 :=
  let head := cursor
  let (deltaNibble, mem, _) := uintWrite mem delta (cursor + 1)
  store mem head [UInt8.ofInt (deltaNibble * 16) ||| UInt8.ofNat lengthNibble]

/-! ## Moving options -/

/-- The difference of two 16 bit numbers, as a 16 bit number. -/
def sub16 (a b : Nat) : Nat := (a + 2 ^ 16 - b) % 2 ^ 16

/-- A size plus a signed difference, stored in 16 bits. -/
def size16 (size : Int) : Nat := (size % 2 ^ 16).toNat

def moveOptionsInStorageBuffer (s : Store) (dest src : Nat) : Option Store :=
  let base := (s.options.entries 0).data
  let remainder := s.options.storageSize - (src - base)
  if dest < base + s.options.storageCapacity ∧ src < base + s.options.storageCapacity ∧
      src + remainder < base + s.options.storageCapacity then
    some { s with mem := move s.mem dest src remainder }
  else none

def updateOptionEntriesWithStorageDiff (o : Options) (i : Nat) (dataDiff : Int) : Options :=
  { o with entries := fun j =>
      if i ≤ j ∧ j < o.optionCount then
        { o.entries j with data := (((o.entries j).data : Int) + dataDiff).toNat }
      else o.entries j }

def shiftOptionEntries (cfg : Cfg) (o : Options) (i : Nat) (diff : Int) : Option Options :=
  let dest := ((i : Int) + diff).toNat
  if i < cfg.optionsMax ∧ dest < cfg.optionsMax then
    some { o with
      entries := move o.entries dest i (o.optionCount - i)
      optionCount := ((o.optionCount : Int) + diff).toNat }
  else none

def shiftOptions (s : Store) (i : Nat) (dataDiff : Int) : Option (Int × Store) :=
  let newSize := ((s.options.storageSize : Int) + dataDiff).toNat
  if s.options.storageCapacity < newSize then some (-ENOBUFS, s)
  else if i < s.options.optionCount then
    let data := (s.options.entries i).data
    match moveOptionsInStorageBuffer s ((data : Int) + dataDiff).toNat data with
    | some s =>
      let o := updateOptionEntriesWithStorageDiff s.options i dataDiff
      some (0, { s with options := { o with storageSize := newSize } })
    | none => none
  else some (0, { s with options := { s.options with storageSize := newSize } })

/-- `_find_option_index`: looks through `n` entries from `i` on. -/
def findOptionIndexFrom (o : Options) (number : Nat) : Nat → Nat → Option Nat
  | _, 0 => none
  | i, n + 1 =>
    if number < (o.entries i).number ∨ (o.entries i).data = 0 then none
    else if (o.entries i).number = number then some i
    else findOptionIndexFrom o number (i + 1) n

def findOptionIndex (o : Options) (number : Nat) : Option Nat :=
  findOptionIndexFrom o number 0 o.optionCount

/-- The first of `n` entries from `i` on that does not meet `p`, or the end. -/
def skipEntries (p : OptionEntry → Bool) (entries : Memory OptionEntry) : Nat → Nat → Nat
  | i, 0 => i
  | i, n + 1 => if p (entries i) then skipEntries p entries (i + 1) n else i

/-! ## Adding, setting and removing options -/

def unicoapOptionsAdd (cfg : Cfg) (s : Store) (number : Nat) (value : List UInt8) :
    Option (Int × Store) :=
  let o := s.options
  if ¬ (value.length ≤ uintMax ∧ (o.entries 0).data ≠ 0) then none
  else if cfg.optionsMax ≤ o.optionCount then some (-ENOBUFS, s)
  else
    let i := skipEntries (fun e => e.number ≤ number) o.entries 0 o.optionCount
    let delta := if 0 < i then sub16 number (o.entries (i - 1)).number else number
    let size := optionSize delta value.length
    if i = o.optionCount then
      let storageSize := ((o.storageSize : Int) + size).toNat
      if o.storageCapacity < storageSize then some (-ENOBUFS, s)
      else
        let dest := (o.entries 0).data + o.storageSize
        let (mem, _) := writeOption s.mem dest delta value
        some (0, { mem := mem, options := { o with
          storageSize := storageSize
          optionCount := o.optionCount + 1
          entries := update o.entries i ⟨dest, size16 size, number⟩ } })
    else
      -- the successor's delta becomes smaller, possibly also narrower
      let cursor := (o.entries i).data
      let lengthNibble := decodeLengthNibble (s.mem cursor)
      let newDelta := sub16 (o.entries i).number number
      let diff := optionSizeDiff newDelta (decodeDeltaNibble (s.mem cursor))
      match shiftOptions s i (size + diff) with
      | none => none
      | some (res, s') =>
        if res < 0 then some (-ENOBUFS, s')
        else
          let e := s'.options.entries i
          let e := { e with
            size := size16 ((e.size : Int) + diff)
            data := ((e.data : Int) - diff).toNat }
          let o := { s'.options with entries := update s'.options.entries i e }
          match shiftOptionEntries cfg o i 1 with
          | none => none
          | some o =>
            let (mem, behind) := writeOption s'.mem cursor delta value
            let mem := writeHeadPartial mem behind newDelta lengthNibble
            some (0, { mem := mem, options := { o with
              entries := update o.entries i ⟨cursor, size16 size, number⟩ } })

def unicoapOptionsSet (cfg : Cfg) (s : Store) (number : Nat) (value : List UInt8) :
    Option (Int × Store) :=
  let o := s.options
  if ¬ (value.length ≤ uintMax ∧ (o.entries 0).data ≠ 0) then none
  else
    match findOptionIndex o number with
    | none => unicoapOptionsAdd cfg s number value
    | some i =>
      let delta := if 0 < i then sub16 number (o.entries (i - 1)).number else number
      let size := optionSize delta value.length
      match shiftOptions s (i + 1) (size - (o.entries i).size) with
      | none => none
      | some (res, s') =>
        if res < 0 then some (-ENOBUFS, s')
        else
          let e := s'.options.entries i
          let (mem, _) := writeOption s'.mem e.data delta value
          some (0, { mem := mem, options := { s'.options with
            entries := update s'.options.entries i { e with size := size16 size } } })

/-- The sizes of `n` entries from `i` on, together. -/
def entrySizes (entries : Memory OptionEntry) : Nat → Nat → Nat
  | _, 0 => 0
  | i, n + 1 => (entries i).size + entrySizes entries (i + 1) n

def unicoapOptionsRemoveAll (cfg : Cfg) (s : Store) (number : Nat) : Option (Int × Store) :=
  let o := s.options
  match findOptionIndex o number with
  | none => some (0, s)
  | some i =>
    let removed := o.entries i
    let next := skipEntries (fun e => e.number = number) o.entries (i + 1) (o.optionCount - (i + 1))
    let indexOffset := next - i
    if next = o.optionCount then
      -- only the size of the first removed entry is subtracted
      some (0, { s with options := { o with
        storageSize := o.storageSize - removed.size
        optionCount := o.optionCount - indexOffset } })
    else
      let nextEntry := o.entries next
      let head := s.mem nextEntry.data
      let lengthNibble := decodeLengthNibble head
      let newDelta := sub16 nextEntry.number (if 0 < i then (o.entries (i - 1)).number else 0)
      let diff := optionSizeDiff newDelta (decodeDeltaNibble head)
      let totalDiff := diff - entrySizes o.entries i indexOffset
      let newSize := ((o.storageSize : Int) + totalDiff).toNat
      if o.storageCapacity < newSize then some (-ENOBUFS, s)
      else
        let cursor := nextEntry.data + 1 + (uintExtendedSizeFromNibble (decodeDeltaNibble head)).toNat
        let nextEntry := { nextEntry with
          data := removed.data
          size := size16 ((nextEntry.size : Int) + diff) }
        let o := { o with entries := update o.entries next nextEntry }
        let remainderSize := o.storageSize - (cursor - (o.entries 0).data)
        let mem := move s.mem ((cursor : Int) + totalDiff).toNat cursor remainderSize
        let o := { o with storageSize := newSize }
        let mem := writeHeadPartial mem removed.data newDelta lengthNibble
        match shiftOptionEntries cfg o next (-(indexOffset : Int)) with
        | none => none
        | some o =>
          some (0, { mem := mem, options := updateOptionEntriesWithStorageDiff o (i + 1) totalDiff })

/-! ## Reading options -/

/-- `unicoap_options_get`: where the value starts and its size. -/
def unicoapOptionsGet (s : Store) (number : Nat) : Except Int (Nat × Nat) :=
  match findOptionIndex s.options number with
  | none => .error (-ENOENT)
  | some i => readOption s.mem (s.options.entries i).data

/-- `unicoap_options_get_next`, for the iterator at `index`: the number, where
the value starts and its size. The iterator advances by one. -/
def unicoapOptionsGetNext (s : Store) (index : Nat) : Except Int (Nat × Nat × Nat) :=
  if s.options.optionCount ≤ index then .error (-1)
  else
    match readOption s.mem (s.options.entries index).data with
    | .error e => .error e
    | .ok (value, size) => .ok ((s.options.entries index).number, value, size)

end Riot.Unicoap
