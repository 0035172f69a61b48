import Mathlib.Data.List.FinRange
import Riot.Lib.Areas
import Riot.Lib.IntrusiveList
import Riot.Lib.Runs
import Riot.Sixlowpan.Ctx

/-!
# The reassembly buffer of 6LoWPAN fragments

`sys/net/gnrc/network_layer/sixlowpan/frag/rb/gnrc_sixlowpan_frag_rb.c`, with `gnrc_sixlowpan_frag_recv`
and the lengths that `gnrc_sixlowpan_iphc_recv` computes for a first fragment. What has been received
of a datagram is a list of intervals, whose objects come from one pool that all entries share; an
object counts as free if its `end` is 0.

The sizes `n` of the buffer and `m` of the pool are parameters. Times are microseconds and do not
wrap; the source keeps their lowest 32 bits, and looks at differences only.
-/

namespace Riot.Sixlowpan

open Riot.Lib Function

variable {n m : Nat}

/-- `CONFIG_GNRC_SIXLOWPAN_FRAG_RBUF_SIZE` -/
abbrev rbufSize : Nat := 4

/-- `RBUF_INT_SIZE`: as many intervals as a datagram of 1280 bytes has fragments, for every entry. -/
abbrev rbufIntSize : Nat := (1280 + 99 - 1) / 99 * rbufSize

/-! ## Fragments -/

/-- A received packet: the memory from its first byte on, and how much of it is the packet's. -/
structure Snip where
  data : Nat → Byte
  size : Nat

namespace Snip

def Frag1Is (p : Snip) : Prop := p.data 0 &&& 0xf8#8 = 0xc0#8

def FragNIs (p : Snip) : Prop := p.data 0 &&& 0xf8#8 = 0xe0#8

def FragIs (p : Snip) : Prop := p.Frag1Is ∨ p.FragNIs

instance (p : Snip) : Decidable p.Frag1Is := inferInstanceAs (Decidable (_ = _))
instance (p : Snip) : Decidable p.FragNIs := inferInstanceAs (Decidable (_ = _))
instance (p : Snip) : Decidable p.FragIs := inferInstanceAs (Decidable (_ ∨ _))

def datagramSize (p : Snip) : Nat := ((p.data 0 ++ p.data 1) &&& 0x07ff#16).toNat

def datagramTag (p : Snip) : Nat := (p.data 2 ++ p.data 3).toNat

def fragOffset (p : Snip) : Nat := (p.data 4).toNat * 8

/-- `_6lo_frag_payload`, from the start of the packet. -/
def fragPayload (p : Snip) : Nat := if p.Frag1Is then 4 else 5

/-- `data[0] == SIXLOWPAN_UNCOMP` -/
def UncompIs (p : Snip) : Prop := p.data p.fragPayload = 0x41#8

/-- `sixlowpan_iphc_is(data)` -/
def IphcIs (p : Snip) : Prop := p.data p.fragPayload &&& 0xe0#8 = 0x60#8

instance (p : Snip) : Decidable p.UncompIs := inferInstanceAs (Decidable (_ = _))
instance (p : Snip) : Decidable p.IphcIs := inferInstanceAs (Decidable (_ = _))

/-- `_6lo_frag_size`. A dispatch byte behind a packet without payload is memory that is not its own;
the size then wraps. -/
def fragSize (p : Snip) (offset : Nat) : Nat :=
  if offset = 0 then
    if p.size < 4 then 0
    else if p.UncompIs then (p.size - 4 + (2 ^ 32 - 1)) % 2 ^ 32
    else p.size - 4
  else if p.size < 5 then 0
  else p.size - 5

end Snip

/-! ## The state -/

/-- `gnrc_sixlowpan_frag_rb_int_t`; both ends are inclusive. -/
structure RbInt (m : Nat) where
  next : Option (Fin m)
  start : Nat
  stop : Nat
deriving DecidableEq

/-- An object that no entry has. -/
def RbInt.unset : RbInt m := ⟨none, 0, 0⟩

/-- The bytes of the interval. -/
def RbInt.area (o : RbInt m) : Area := ⟨o.start, o.stop + 1 - o.start⟩

/-- `gnrc_sixlowpan_frag_rb_t`. An address has its length with it; of the packet only the size is
kept. `grown` is not in the source and is never read: by how many bytes the headers of the first
fragment have grown in decompression. -/
structure RbEntry (m : Nat) where
  ints : Option (Fin m)
  src : List Byte
  dst : List Byte
  tag : Nat
  datagramSize : Nat
  currentSize : Nat
  arrival : Nat
  pkt : Option Nat
  grown : Int

/-- `rbuf_int` and `rbuf` -/
structure FragRb (n m : Nat) where
  ints : Fin m → RbInt m
  rbuf : Fin n → RbEntry m

def rbufTimeoutUs : Nat := 3000000

/-- The difference of two times in 32 bits. -/
def sub32 (a b : Nat) : Nat := (a % 2 ^ 32 + 2 ^ 32 - b % 2 ^ 32) % 2 ^ 32

namespace FragRb

/-- The static memory at start-up. -/
def init : FragRb n m :=
  ⟨fun _ => .unset, fun _ => ⟨none, [], [], 0, 0, 0, 0, none, 0⟩⟩

def setEntry (st : FragRb n m) (i : Fin n) (r : RbEntry m) : FragRb n m :=
  { st with rbuf := update st.rbuf i r }

/-- The links of the state: from the entries, and from object to object. -/
def mem (st : FragRb n m) : NodeMem (Fin n) (Fin m)
  | .head i => .ofOption (st.rbuf i).ints
  | .entry t => .ofOption (st.ints t).next

@[simp] theorem mem_head (st : FragRb n m) (i : Fin n) : st.mem (.head i) = .ofOption (st.rbuf i).ints := rfl
@[simp] theorem mem_entry (st : FragRb n m) (t : Fin m) : st.mem (.entry t) = .ofOption (st.ints t).next := rfl

/-- The objects on the list of an entry, as far as there can be different ones and one more. -/
def intsOf (st : FragRb n m) (i : Fin n) : List (Fin m) := links st.mem (m + 1) (st.mem (.head i))

/-! ## Intervals -/

/-- `_rbuf_int_overlap_partially` -/
def RbIntOverlapPartially (o : RbInt m) (start stop : Nat) : Prop :=
  (o.start ≤ stop ∧ start ≤ o.stop) ∧ (start ≠ o.start ∨ stop ≠ o.stop)

instance (o : RbInt m) (start stop : Nat) : Decidable (RbIntOverlapPartially o start stop) :=
  inferInstanceAs (Decidable (_ ∧ _))

/-- What `_check_fragments` returns. -/
inductive Checked where
  | success
  | repeats
  | duplicate
deriving DecidableEq

/-- `_check_fragments` from the object `ptr` on. A list with more objects than the pool has is a ring,
on which the loop may not end. -/
def checkFragments (ints : Fin m → RbInt m) (fragSize offset : Nat) : Nat → Option (Fin m) → Option Checked
  | _, none => some .success
  | 0, some _ => none
  | fuel + 1, some t =>
    if RbIntOverlapPartially (ints t) (offset % 2 ^ 16) ((offset + fragSize - 1) % 2 ^ 16) then some .repeats
    else if (ints t).start = offset then some .duplicate
    else checkFragments ints fragSize offset fuel (ints t).next

def rbufIntGetFree (st : FragRb n m) : Option (Fin m) :=
  (List.finRange m).find? fun t => (st.ints t).stop = 0

def rbufUpdateInts (st : FragRb n m) (i : Fin n) (offset fragSize : Nat) : Option (FragRb n m) :=
  st.rbufIntGetFree.map fun t =>
    { st with
      ints := update st.ints t
        ⟨(st.rbuf i).ints, offset % 2 ^ 16, (offset + fragSize - 1) % 2 ^ 16⟩ }.setEntry i
      { st.rbuf i with ints := some t }

/-- The loop of `gnrc_sixlowpan_frag_rb_base_rm`. It takes the link out of every object it comes to,
so that it comes to one of them a second time at most. -/
def baseRmLoop : Nat → (Fin m → RbInt m) → Option (Fin m) → Fin m → RbInt m
  | fuel + 1, ints, some t => baseRmLoop fuel (update ints t .unset) (ints t).next
  | _, ints, _ => ints

def remove (st : FragRb n m) (i : Fin n) : FragRb n m :=
  { st with ints := baseRmLoop (m + 1) st.ints (st.rbuf i).ints }.setEntry i
    { st.rbuf i with ints := none, datagramSize := 0, pkt := none }

/-! ## Entries -/

/-- One round of `gnrc_sixlowpan_frag_rb_gc`. -/
def gcEntry (now : Nat) (st : FragRb n m) (i : Fin n) : FragRb n m :=
  if (st.rbuf i).pkt ≠ none ∧ rbufTimeoutUs < sub32 now (st.rbuf i).arrival then st.remove i else st

def gc (st : FragRb n m) (now : Nat) : FragRb n m := (List.finRange n).foldl (gcEntry now) st

/-- What the loop of `_rbuf_get` finds: the entry of the datagram, an empty one, or with a full buffer
the oldest. -/
inductive Slot (n : Nat) where
  | found (i : Fin n)
  | free (i : Fin n)
  | full (oldest : Fin n)
deriving DecidableEq

/-- The entry is of this datagram. -/
def Holds (r : RbEntry m) (src dst : List Byte) (size tag : Nat) : Prop :=
  r.pkt ≠ none ∧ r.tag = tag ∧ r.datagramSize = size ∧ r.src = src ∧ r.dst = dst

instance (r : RbEntry m) (src dst : List Byte) (size tag : Nat) : Decidable (Holds r src dst size tag) :=
  inferInstanceAs (Decidable (_ ∧ _))

/-- `oldest` after the entry `i`. -/
def older (st : FragRb n m) (oldest : Option (Fin n)) (i : Fin n) : Fin n :=
  match oldest with
  | none => i
  | some o => if sub32 (st.rbuf o).arrival (st.rbuf i).arrival < (2 ^ 32 - 1) / 2 then i else o

/-- The loop of `_rbuf_get`. -/
def rbufScan (st : FragRb n m) (src dst : List Byte) (size tag : Nat) :
    List (Fin n) → Option (Fin n) → Option (Fin n) → Option (Slot n)
  | [], some i, _ => some (.free i)
  | [], none, oldest => oldest.map .full
  | i :: is, res, oldest =>
    if Holds (st.rbuf i) src dst size tag then some (.found i)
    else
      st.rbufScan src dst size tag is
        (if res = none ∧ (st.rbuf i).pkt = none then some i else res) (some (st.older oldest i))

/-- The end of `_rbuf_get`: the entry `i` is claimed, if the packet buffer has room for the datagram. -/
def claim (st : FragRb n m) (i : Fin n) (src dst : List Byte) (size tag now : Nat) (alloc : Bool) :
    FragRb n m × Option (Fin n) :=
  if alloc then
    (st.setEntry i { st.rbuf i with
      pkt := some size, datagramSize := size, arrival := now, src := src, dst := dst, tag := tag
      currentSize := 0, grown := 0 }, some i)
  else (st, none)

/-- What `_rbuf_get` finds for a datagram. -/
def slotOf (st : FragRb n m) (src dst : List Byte) (size tag : Nat) : Option (Slot n) :=
  st.rbufScan src dst size tag (List.finRange n) none none

def rbufGet (st : FragRb n m) (src dst : List Byte) (size tag now : Nat) (alloc : Bool) :
    FragRb n m × Option (Fin n) :=
  match st.slotOf src dst size tag with
  | none => (st, none)
  | some (.found i) => (st.setEntry i { st.rbuf i with arrival := now }, some i)
  | some (.free i) => st.claim i src dst size tag now alloc
  | some (.full i) => (st.remove i).claim i src dst size tag now alloc

/-! ## Header decompression -/

/-- A header behind the IPv6 header that is decompressed, with what decides its length: whether the
next header of an extension header is inline, how much of a second IPv6 header is, and how many bytes
the ports of a UDP header take. -/
inductive Nhc where
  | ext (nhInline : Bool) (len : Nat)
  | ipv6 (inlineLen : Nat)
  | udp (ports : Nat)
  | reserved
deriving DecidableEq

/-- `payload_offset`, `uncomp_hdr_len` and `ipv6->size` of `gnrc_sixlowpan_iphc_recv`. -/
structure Decoding where
  payloadOffset : Nat
  uncompHdrLen : Nat
  ipv6Size : Nat

/-- One round of the NHC loop; the packet grows when the header does not fit in. An extension header
of a type that is not assigned is not skipped: the loop comes back to it for ever. -/
def Decoding.nhc (d : Decoding) : Nhc → Option Decoding
  | .ext nhInline len =>
    some ⟨d.payloadOffset + (if nhInline then 3 else 2) + len, d.uncompHdrLen + 2 + len,
      max d.ipv6Size (d.uncompHdrLen + 2 + len)⟩
  | .ipv6 inlineLen =>
    some ⟨d.payloadOffset + 3 + inlineLen, d.uncompHdrLen + 40, max d.ipv6Size (d.uncompHdrLen + 40)⟩
  | .udp ports =>
    some ⟨d.payloadOffset + 3 + ports, d.uncompHdrLen + 8, max d.ipv6Size (d.uncompHdrLen + 8)⟩
  | .reserved => none

/-- The NHC loop, which gives up when it has read more than the packet has; `none` if it does not
end. -/
def nhcLoop (size : Nat) : Decoding → List Nhc → Option (Option Decoding)
  | d, [] => some (if d.payloadOffset ≤ size then some d else none)
  | d, h :: hs => if d.payloadOffset ≤ size then (d.nhc h).bind (nhcLoop size · hs) else some none

/-- `gnrc_sixlowpan_iphc_recv` on a first fragment with `size` bytes behind the fragment header.
`hdrs` says how many bytes of the IPv6 header are inline and which headers follow; it is `none` if
one of them cannot be decoded or the packet buffer has no room for it. -/
def iphcRecv (st : FragRb n m) (i : Fin n) (size : Nat) (hdrs : Option (Nat × List Nhc)) :
    Option (FragRb n m) :=
  if size < 2 then some (st.remove i)
  else
    match hdrs with
    | none => some (st.remove i)
    | some (inlineLen, nhcs) =>
      (nhcLoop size ⟨2 + inlineLen, 40, max ((st.rbuf i).pkt.getD 0) 40⟩ nhcs).map fun
        | none => st.remove i
        | some d =>
          if d.ipv6Size < d.uncompHdrLen + (size - d.payloadOffset) then st.remove i
          else
            st.setEntry i { st.rbuf i with
              pkt := some d.ipv6Size
              currentSize :=
                (((st.rbuf i).currentSize + d.uncompHdrLen - d.payloadOffset : Int) % 2 ^ 16).toNat
              grown := (st.rbuf i).grown + d.uncompHdrLen - d.payloadOffset }

/-! ## Adding a fragment -/

/-- A fragment with the addresses of its frame. -/
structure Frame where
  src : List Byte
  dst : List Byte
  pkt : Snip

/-- What one call of `_rbuf_add` meets: the times that it reads, whether the packet buffer has room
for the datagram and for the mark behind the fragment header, and the headers of the fragment. -/
structure AddEnv where
  gcNow : Nat
  now : Nat
  alloc : Bool
  mark : Bool
  hdrs : Option (Nat × List Nhc)

/-- No header is an extension header of a type that is not assigned. -/
def AddEnv.Assigned (env : AddEnv) : Prop := ∀ h, env.hdrs = some h → .reserved ∉ h.2

/-- What `_rbuf_add` returns. -/
inductive Added (n : Nat) where
  | error
  | repeats
  | entry (i : Fin n)
deriving DecidableEq

/-- `entry.super->current_size += (uint16_t)frag_size` -/
def count (st : FragRb n m) (i : Fin n) (fragSize : Nat) : FragRb n m :=
  st.setEntry i { st.rbuf i with currentSize := ((st.rbuf i).currentSize + fragSize) % 2 ^ 16 }

/-- The part of `_rbuf_add` that puts the fragment into the entry `i`. -/
def rbufStore (st : FragRb n m) (i : Fin n) (p : Snip) (offset : Nat) (env : AddEnv) :
    Option (FragRb n m × Added n) :=
  match st.rbufUpdateInts i offset (p.fragSize offset) with
  | none => some (st.remove i, .error)
  | some st =>
    let st := st.count i (p.fragSize offset)
    if offset = 0 ∧ p.IphcIs then
      if env.mark then
        (st.iphcRecv i (p.size - 4) env.hdrs).map fun st =>
          (st, if (st.rbuf i).pkt = none then .error else .entry i)
      else some (st.remove i, .error)
    else some (st, .entry i)

/-- `_rbuf_add`; `none` if it does not return. -/
def rbufAdd (st : FragRb n m) (f : Frame) (offset : Nat) (env : AddEnv) :
    Option (FragRb n m × Added n) :=
  if f.pkt.FragIs ∧ f.pkt.fragSize offset ≠ 0 then
    match (st.gc env.gcNow).rbufGet f.src f.dst f.pkt.datagramSize f.pkt.datagramTag env.now env.alloc with
    | (st, none) => some (st, .error)
    | (st, some i) =>
      if (st.rbuf i).datagramSize < offset + f.pkt.fragSize offset then some (st.remove i, .error)
      else
        (checkFragments st.ints (f.pkt.fragSize offset) offset m (st.rbuf i).ints).bind fun
          | .repeats => some (st.remove i, .repeats)
          | .duplicate => some (st, .entry i)
          | .success => st.rbufStore i f.pkt offset env
  else some (st, .error)

def rbAdd (st : FragRb n m) (f : Frame) (offset : Nat) (env env' : AddEnv) :
    Option (FragRb n m × Added n) :=
  match st.rbufAdd f offset env with
  | some (st, .repeats) => st.rbufAdd f offset env'
  | r => r

def dispatchWhenComplete (st : FragRb n m) (i : Fin n) : FragRb n m :=
  if (st.rbuf i).currentSize = (st.rbuf i).datagramSize then st.remove i else st

/-- The offset that `gnrc_sixlowpan_frag_recv` takes from the fragment header. -/
def Frame.offset (f : Frame) : Nat := if f.pkt.Frag1Is then 0 else f.pkt.fragOffset

/-- A single byte at the start of a longer datagram, which is not compressed. -/
def Frame.LoneByte (f : Frame) : Prop :=
  f.offset = 0 ∧ f.pkt.fragSize 0 = 1 ∧ ¬ f.pkt.IphcIs ∧ 1 < f.pkt.datagramSize

instance (f : Frame) : Decidable f.LoneByte := inferInstanceAs (Decidable (_ ∧ _))

def fragRecv (st : FragRb n m) (f : Frame) (env env' : AddEnv) : Option (FragRb n m) :=
  if f.pkt.FragIs then
    (st.rbAdd f f.offset env env').map fun
      | (st, .entry i) => st.dispatchWhenComplete i
      | (st, _) => st
  else some st

def rbufGetByTag (st : FragRb n m) (src dst : List Byte) (tag : Nat) : Option (Fin n) :=
  (List.finRange n).find? fun i =>
    (st.rbuf i).pkt ≠ none ∧ (st.rbuf i).tag = tag ∧ (st.rbuf i).src = src ∧ (st.rbuf i).dst = dst

def rmByDatagram (st : FragRb n m) (src dst : List Byte) (tag : Nat) : FragRb n m :=
  match st.rbufGetByTag src dst tag with
  | some i => st.remove i
  | none => st

/-! ## Runs -/

/-- What happens to the buffer: a fragment comes in, the timer's message is handled, or the module's
users remove an entry. -/
inductive RbEvent (n : Nat) where
  | frag (f : Frame) (env env' : AddEnv)
  | timeout (now : Nat)
  | rmByDatagram (src dst : List Byte) (tag : Nat)
  | remove (i : Fin n)

/-- The event is a fragment that is a single byte at the start of a longer datagram. -/
def RbEvent.LoneByte : RbEvent n → Prop
  | .frag f _ _ => f.LoneByte
  | _ => False

instance : ∀ e : RbEvent n, Decidable e.LoneByte
  | .frag f _ _ => inferInstanceAs (Decidable f.LoneByte)
  | .timeout _ => inferInstanceAs (Decidable False)
  | .rmByDatagram _ _ _ => inferInstanceAs (Decidable False)
  | .remove _ => inferInstanceAs (Decidable False)

/-- No fragment of the event has an extension header of a type that is not assigned. -/
def RbEvent.Assigned : RbEvent n → Prop
  | .frag _ env env' => env.Assigned ∧ env'.Assigned
  | _ => True

def step (st : FragRb n m) : RbEvent n → Option (FragRb n m)
  | .frag f env env' => st.fragRecv f env env'
  | .timeout now => some (st.gc now)
  | .rmByDatagram src dst tag => some (st.rmByDatagram src dst tag)
  | .remove i => some (st.remove i)

end FragRb

end Riot.Sixlowpan
