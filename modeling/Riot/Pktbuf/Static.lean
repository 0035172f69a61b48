import Riot.Lib.Areas
import Riot.Lib.Memory

/-!
# The static packet buffer (`sys/net/gnrc/pktbuf_static`, `sys/net/gnrc/pktbuf`)

Addresses are counted from the first byte of `_static_buf`. The list of the unused sections and the
descriptors of the snips are kept beside the bytes; in the program they are bytes of the buffer too,
so that writing into an unused section destroys the list: such a write has no result, and neither has
one outside of the buffer or a failed assertion.
-/

namespace Riot.Pktbuf

open Riot.Lib

/-- The sizes that the platform and the configuration give. -/
structure Config where
  /-- bits of `size_t` -/
  word : Nat
  /-- `sizeof(_unused_t)` -/
  unusedSize : Nat
  /-- `sizeof(gnrc_pktsnip_t)` -/
  snipSize : Nat
  /-- `CONFIG_GNRC_PKTBUF_SIZE` -/
  bufSize : Nat
  unused_pos : 0 < unusedSize
  snip_pos : 0 < snipSize
  buf_pos : 0 < bufSize
  /-- the assertion behind `_static_buf` -/
  aligned : unusedSize ∣ bufSize
  snip_fits : snipSize + unusedSize < 2 ^ word
  buf_fits : bufSize + unusedSize < 2 ^ word

/-- `gnrc_pktsnip_t` -/
structure Snip where
  next : Option Nat
  data : Option Nat
  size : Nat
  type : Int
  users : Nat
deriving DecidableEq

/-- The packet buffer: `_first_unused` and the sections it links, the bytes and the descriptors. -/
structure Buf where
  unused : List Area
  mem : Memory UInt8
  snips : Nat → Snip

variable (c : Config)

/-- `_align`; the mask clears what is above a multiple of the size. -/
def align (size : Nat) : Nat := (size + (c.unusedSize - 1)) % 2 ^ c.word / c.unusedSize * c.unusedSize

def init (mem : Memory UInt8) (snips : Nat → Snip) : Buf := ⟨[⟨0, c.bufSize⟩], mem, snips⟩

def contains (ptr : Nat) : Bool := ptr < c.bufSize

/-! ## Allocation -/

/-- The search and the split of `_pktbuf_alloc`: the address, and the sections that are left; `none`
for them where `_first_unused` becomes `NULL`. -/
def allocFrom (size : Nat) : List Area → Option (Nat × Option (List Area))
  | [] => none
  | ptr :: next =>
    if size > ptr.size then (allocFrom size next).map fun (a, left) => (a, left.map (ptr :: ·))
    else if c.unusedSize > ptr.size - size then some (ptr.addr, some next)
    else if ptr.addr + size + c.unusedSize > c.bufSize then some (ptr.addr, none)
    else some (ptr.addr, some (⟨ptr.addr + size, ptr.size - size⟩ :: next))

def pktbufAlloc (b : Buf) (size : Nat) : Option (Nat × Buf) :=
  (allocFrom c (align c size) b.unused).map fun (a, left) => (a, { b with unused := left.getD [] })

def tooSmallHole (a b : Area) : Bool := c.unusedSize > (b.addr + 2 ^ c.word - (a.addr + a.size)) % 2 ^ c.word

/-- `_merge` -/
def mergeSections (a b : Area) : Area := ⟨a.addr, b.size + (b.addr - a.addr)⟩

/-- The last check of `gnrc_pktbuf_free_internal`, for the section behind `new`. -/
def linkNext (new : Area) : List Area → List Area
  | [] => [new]
  | next :: rest => if tooSmallHole c new next then mergeSections new next :: rest else new :: next :: rest

/-- The search of `gnrc_pktbuf_free_internal`, and what it does with the section before `new`. -/
def linkFrom (new : Area) : List Area → List Area
  | [] => linkNext c new []
  | ptr :: next =>
    if ptr.addr < new.addr then
      if next.head?.any fun s => s.addr < new.addr then ptr :: linkFrom new next
      else if tooSmallHole c ptr new then linkNext c (mergeSections ptr new) next
      else ptr :: linkNext c new next
    else linkNext c new (ptr :: next)

def freeInternal (b : Buf) (data : Option Nat) (size : Nat) : Option Buf :=
  match data with
  | none => some b
  | some data =>
    if contains c data then
      let bytesAtEnd := (c.bufSize + 2 ^ c.word - (data + align c size)) % 2 ^ c.word
      let newSize := if bytesAtEnd < c.unusedSize then align c size + bytesAtEnd else align c size
      some { b with unused := linkFrom c ⟨data, newSize⟩ b.unused }
    else none

/-! ## Snips -/

/-- Bytes are copied into the buffer. -/
def put (b : Buf) (dst : Nat) (bs : List UInt8) : Option Buf :=
  if bs = [] then some b
  else if dst + bs.length ≤ c.bufSize ∧
      b.unused.all fun s => s.addr + s.size ≤ dst || dst + bs.length ≤ s.addr then
    some { b with mem := b.mem.store dst bs }
  else none

/-- `memcpy` within the buffer -/
def memcpy (b : Buf) (dst src n : Nat) : Option Buf :=
  if n = 0 then some b
  else if src + n ≤ c.bufSize then put c b dst (b.mem.slice src n) else none

/-- The data of a snip is copied, if it has any. -/
def copyData (b : Buf) (dst : Nat) (s : Snip) : Option Buf :=
  match s.data with
  | none => some b
  | some d => memcpy c b dst d s.size

def setSnip (b : Buf) (p : Nat) (s : Snip) : Buf := { b with snips := Function.update b.snips p s }

/-- The data of a snip. -/
def bytes (b : Buf) (p : Nat) : List UInt8 :=
  match (b.snips p).data with
  | none => []
  | some d => b.mem.slice d (b.snips p).size

/-- `_create_snip`, from the bytes that `data` points to -/
def createSnip (b : Buf) (next : Option Nat) (data : Option (List UInt8)) (size : Nat) (type : Int) :
    Option (Option Nat × Buf) :=
  match pktbufAlloc c b c.snipSize with
  | none => some (none, b)
  | some (pkt, b) =>
    if size > 0 then
      match pktbufAlloc c b size with
      | none => (freeInternal c b (some pkt) c.snipSize).map (none, ·)
      | some (d, b) =>
        (match data with
          | some bs => put c b d bs
          | none => some b).map fun b => (some pkt, setSnip b pkt ⟨next, some d, size, type, 1⟩)
    else some (some pkt, setSnip b pkt ⟨next, none, size, type, 1⟩)

def gnrcPktbufAdd (b : Buf) (next : Option Nat) (data : Option (List UInt8)) (size : Nat) (type : Int) :
    Option (Option Nat × Buf) :=
  if size > c.bufSize then some (none, b) else createSnip c b next data size type

/-- The end of `gnrc_pktbuf_mark`: the marked data and what is left of it are distributed. -/
def setMarked (b : Buf) (pkt marked size : Nat) (type : Int) (newDataMarked : Nat) (rest : Option Nat) :
    Option Nat × Buf :=
  let s := b.snips pkt
  let b := setSnip b marked ⟨s.next, some newDataMarked, size, type, 1⟩
  (some marked, setSnip b pkt { s with data := rest, size := s.size - size, next := some marked })

def gnrcPktbufMark (b : Buf) (pkt : Option Nat) (size : Nat) (type : Int) : Option (Option Nat × Buf) :=
  match pkt with
  | none => some (none, b)
  | some pkt =>
    let s := b.snips pkt
    match s.data with
    | none => some (none, b)
    | some data =>
      if size = 0 ∨ size > s.size then some (none, b)
      else
        match pktbufAlloc c b c.snipSize with
        | none => some (none, b)
        | some (marked, b) =>
          if s.size ≠ size ∧ size < align c size then
            match pktbufAlloc c b size with
            | none => (freeInternal c b (some marked) c.snipSize).map (none, ·)
            | some (newDataMarked, b) =>
              match pktbufAlloc c b (s.size - size) with
              | none =>
                (freeInternal c b (some marked) c.snipSize).bind fun b =>
                (freeInternal c b (some newDataMarked) size).map (none, ·)
              | some (newDataRest, b) =>
                (memcpy c b newDataMarked data size).bind fun b =>
                (memcpy c b newDataRest (data + size) (s.size - size)).bind fun b =>
                (freeInternal c b (some data) s.size).map fun b =>
                  setMarked b pkt marked size type newDataMarked (some newDataRest)
          else
            some (setMarked b pkt marked size type data (if s.size ≠ size then some (data + size) else none))

def ENOMEM : Int := 12

/-- The assertion of `gnrc_pktbuf_realloc_data` about the data. -/
def hasData (s : Snip) : Bool :=
  match s.data with
  | none => s.size == 0
  | some d => s.size > 0 && contains c d

def gnrcPktbufReallocData (b : Buf) (pkt size : Nat) : Option (Int × Buf) :=
  let s := b.snips pkt
  if !hasData c s then none
  else if size = s.size then some (0, b)
  else if size = 0 ∧ s.data ≠ none then
    (freeInternal c b s.data s.size).map fun b => (0, setSnip b pkt { s with data := none, size := size })
  else if size > s.size then
    match pktbufAlloc c b size with
    | none => some (ENOMEM, b)
    | some (newData, b) =>
      (copyData c b newData s).bind fun b =>
      (freeInternal c b s.data s.size).map fun b => (0, setSnip b pkt { s with data := some newData, size := size })
  else if align c s.size > align c size then
    (freeInternal c b (s.data.map (· + align c size)) (s.size - align c size)).map fun b =>
      (0, setSnip b pkt { s with size := size })
  else some (0, setSnip b pkt { s with size := size })

/-! ## Packets

The loops over the snips of a packet have no result if there are more of them than bytes. -/

/-- The loop of `gnrc_pkt_len`. -/
def pktLenLoop (b : Buf) : Nat → Option Nat → Nat → Option Nat
  | _, none, len => some len
  | 0, some _, _ => none
  | fuel + 1, some pkt, len => pktLenLoop b fuel (b.snips pkt).next ((len + (b.snips pkt).size) % 2 ^ c.word)

def gnrcPktLen (b : Buf) (pkt : Option Nat) : Option Nat := pktLenLoop c b c.bufSize pkt 0

/-- The loop of `gnrc_pktbuf_hold`. -/
def holdLoop : Nat → Buf → Option Nat → Nat → Option Buf
  | _, b, none, _ => some b
  | 0, _, some _, _ => none
  | fuel + 1, b, some pkt, num =>
    let s := b.snips pkt
    if s.users + num ≤ 0xff then holdLoop fuel (setSnip b pkt { s with users := s.users + num }) s.next num else none

def gnrcPktbufHold (b : Buf) (pkt : Option Nat) (num : Nat) : Option Buf := holdLoop c.bufSize b pkt num

def gnrcPktbufStartWrite (b : Buf) (pkt : Option Nat) : Option (Option Nat × Buf) :=
  match pkt with
  | none => some (none, b)
  | some pkt =>
    let s := b.snips pkt
    if s.users > 1 then
      (createSnip c b s.next (s.data.map fun d => b.mem.slice d s.size) s.size s.type).map fun (new, b) =>
        (new, if new ≠ none then setSnip b pkt { b.snips pkt with users := (b.snips pkt).users - 1 } else b)
    else some (some pkt, b)

/-- The loop of `gnrc_pktbuf_release_error`. -/
def releaseLoop : Nat → Buf → Option Nat → Option Buf
  | _, b, none => some b
  | 0, _, some _ => none
  | fuel + 1, b, some pkt =>
    let s := b.snips pkt
    if contains c pkt ∧ s.users > 0 then
      if s.users = 1 then
        (freeInternal c (setSnip b pkt { s with users := 0 }) s.data s.size).bind fun b =>
        (freeInternal c b (some pkt) c.snipSize).bind fun b => releaseLoop fuel b s.next
      else releaseLoop fuel (setSnip b pkt { s with users := s.users - 1 }) s.next
    else none

def gnrcPktbufRelease (b : Buf) (pkt : Option Nat) : Option Buf := releaseLoop c c.bufSize b pkt

/-- The loop of `gnrc_pktbuf_merge`, into the data at `data`. -/
def mergeLoop (data : Nat) : Nat → Buf → Option Nat → Nat → Option Buf
  | _, b, none, _ => some b
  | 0, _, some _, _ => none
  | fuel + 1, b, some ptr, offset =>
    let s := b.snips ptr
    (copyData c b (data + offset) s).bind fun b =>
    mergeLoop data fuel b s.next (offset + s.size)

def gnrcPktbufMerge (b : Buf) (pkt : Nat) : Option (Int × Buf) :=
  let offset := (b.snips pkt).size
  (gnrcPktLen c b (some pkt)).bind fun size =>
  if (b.snips pkt).size = size then some (0, b)
  else
    (gnrcPktbufReallocData c b pkt size).bind fun (res, b) =>
    if res ≠ 0 then some (res, b)
    else
      (b.snips pkt).data.bind fun data =>
      (mergeLoop c data c.bufSize b (b.snips pkt).next offset).bind fun b =>
      (gnrcPktbufRelease c b (b.snips pkt).next).map fun b =>
        (res, setSnip b pkt { b.snips pkt with next := none })

end Riot.Pktbuf
