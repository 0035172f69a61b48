import Mathlib.Tactic.Ring
import Riot.Sixlowpan.Iphc

/-!
# The compressed headers of a packet

`_iphc_encode` of `sys/net/gnrc/network_layer/sixlowpan/iphc/gnrc_sixlowpan_iphc.c`, with NHC. A packet
is a list of snips. The dispatch is allocated for the sizes of those at its front that may hold a
header to compress, and a byte more; what is compressed into it is found along the next headers, with
each header taken out of the packet.

A round of the loop compresses one header. Each stays within the size of its snip, but for an
encapsulated IPv6 header: its next header is written once more than for the first one, and what is
compressed in its place is the snip behind it.
-/

namespace Riot.Sixlowpan

/-! ## Snips -/

/-- `gnrc_nettype_t`, as far as `_compressible` tells the types apart. -/
inductive Nettype where
  | undef
  | ipv6
  | ipv6Ext
  | udp
  | other
deriving DecidableEq

/-- `gnrc_pktsnip_t`: its type, the memory from its first byte on and its size. -/
structure HdrSnip where
  type : Nettype
  data : Nat → Byte
  size : Nat

/-- Which of `gnrc_ipv6_ext` and `gnrc_udp` are compiled in. -/
structure HdrModules where
  ipv6Ext : Bool
  udp : Bool

def HdrModules.compressible (cfg : HdrModules) : Nettype → Bool
  | .undef => true
  | .ipv6 => true
  | .ipv6Ext => cfg.ipv6Ext
  | .udp => cfg.udp
  | .other => false

/-- What the snips at the front that may hold a header have together. -/
def HdrModules.counted (cfg : HdrModules) : List HdrSnip → Nat
  | [] => 0
  | s :: ss => if cfg.compressible s.type then s.size + cfg.counted ss else 0

/-- A packet that is sent, without its netif header: the snip with its IPv6 header, and those behind. -/
structure Datagram where
  ipv6 : HdrSnip
  rest : List HdrSnip
  size_ge : 40 ≤ ipv6.size
  type_mem : ipv6.type = .ipv6 ∨ ipv6.type = .undef

def HdrModules.allocated (cfg : HdrModules) (d : Datagram) : Nat := cfg.counted (d.ipv6 :: d.rest) + 1

/-- An IPv6 header, wherever it is read. -/
def Ipv6Hdr.ofMem (m : Nat → Byte) : Ipv6Hdr where
  vTcFl := ⟨m 0, m 1, m 2, m 3⟩
  len := m 4 ++ m 5
  nh := m 6
  hl := m 7
  src := Vector.ofFn fun i => m (8 + i)
  dst := Vector.ofFn fun i => m (24 + i)

/-! ## One header -/

/-- What does not change while a packet is compressed. -/
structure IphcLink where
  ctxs : CtxTable
  netif : Netif
  hdr : NetifHdr

/-- How many bytes `_iphc_ipv6_encode` writes, also where it gives up on an address. -/
def iphcIpv6Extent (l : IphcLink) (stack : Iid) (h : Ipv6Hdr) : Nat :=
  let src := srcCtx l.ctxs h
  let dst := dstCtx l.ctxs h
  let b := encodeHl h.hl (encodeNh h.nh (encodeTf h.vTcFl (encodeCid src dst ⟨iphc1Disp, 0, []⟩)))
  match encodeSrc l.netif src h.src b with
  | none => b.bytes.length
  | some b =>
    if isMulticast h.dst then (encodeMulticast l.ctxs stack h.dst b).bytes.length
    else
      match encodeUnicast l.netif l.hdr dst h.dst b with
      | none => b.bytes.length
      | some b => b.bytes.length

def nhcUdpId : Byte := 0xf0
def nhcIpv6ExtId : Byte := 0xe0
def nhcIpv6ExtNh : Byte := 0x01

/-- `PROTNUM_RESERVED`, which ends the loop. -/
def protnumReserved : Byte := 255

def iphcNhcUdpEncode (udp : Nat → Byte) : List Byte :=
  let src := udp 0 ++ udp 1
  let dst := udp 2 ++ udp 3
  let ports :=
    if src &&& 0xfff0#16 = 0xf0b0#16 ∧ dst &&& 0xfff0#16 = 0xf0b0#16 then
      [nhcUdpId ||| 0x03, (dst - 0xf0b0#16 + (src - 0xf0b0#16) <<< 4).setWidth 8]
    else if dst &&& 0xff00#16 = 0xf000#16 then [nhcUdpId ||| 0x01, udp 0, udp 1, (dst - 0xf000#16).setWidth 8]
    else if src &&& 0xff00#16 = 0xf000#16 then [nhcUdpId ||| 0x02, (src - 0xf000#16).setWidth 8, udp 2, udp 3]
    else [nhcUdpId, udp 0, udp 1, udp 2, udp 3]
  ports ++ [udp 6, udp 7]

/-- The EID of an extension header. -/
def extEid (protnum : Byte) : Byte :=
  if protnum = 43 then 0x02
  else if protnum = 44 then 0x04
  else if protnum = 60 then 0x06
  else if protnum = 135 then 0x08
  else 0x00

/-- The next header of an extension header is compressed: it can be, and if the header is a fragment
header it is that of the first fragment. -/
def NhElided (protnum : Byte) (ext : Nat → Byte) : Prop :=
  compressibleNh (ext 0) ∧ (protnum ≠ 44 ∨ (ext 2 ++ ext 3) &&& 0xfff8#16 = 0#16)

instance (protnum : Byte) (ext : Nat → Byte) : Decidable (NhElided protnum ext) :=
  inferInstanceAs (Decidable (_ ∧ _))

/-- `_iphc_nhc_ipv6_ext_encode` of a header that is not too long for it, with `extLen` bytes in all. -/
def iphcNhcIpv6ExtEncode (protnum : Byte) (ext : Nat → Byte) (extLen : Nat) : List Byte :=
  let eid := nhcIpv6ExtId ||| extEid protnum
  let data := (List.range (extLen - 2)).map fun k => ext (2 + k)
  if NhElided protnum ext then (eid ||| nhcIpv6ExtNh) :: BitVec.ofNat 8 (extLen - 2) :: data
  else eid :: ext 0 :: BitVec.ofNat 8 (extLen - 2) :: data

/-! ## The loop -/

/-- Where the loop of `_iphc_encode` is: the snips behind the IPv6 header, the next header,
`inline_pos` and how far has been written. It has ended if it is not `live`. -/
structure Enc where
  snips : List HdrSnip
  nh : Byte
  inlinePos : Nat
  extent : Nat
  live : Bool

namespace Enc

/-- `n` bytes are written, and the loop goes on behind them. -/
def advance (s : Enc) (n : Nat) (nh : Byte) (snips : List HdrSnip) : Enc :=
  ⟨snips, nh, (s.inlinePos + n) % 2 ^ 16, max s.extent (s.inlinePos + n), true⟩

/-- `n` bytes are written, and the packet is dropped. -/
def drop (s : Enc) (n : Nat) : Enc := { s with extent := max s.extent (s.inlinePos + n), live := false }

/-- `_remove_header`; `mark` is whether the packet buffer can part a header from what is behind it. -/
def removeHeader (mark : Bool) (hdr : HdrSnip) (rest : List HdrSnip) (size : Nat) : Option (List HdrSnip) :=
  if size < hdr.size then
    if mark then some (⟨hdr.type, fun k => hdr.data (size + k), hdr.size - size⟩ :: rest) else none
  else some rest

/-- After a header with `size` bytes was compressed to `n`. -/
def removed (s : Enc) (mark : Bool) (hdr : HdrSnip) (rest : List HdrSnip) (size n : Nat) (nh : Byte) : Enc :=
  match removeHeader mark hdr rest size with
  | some snips => s.advance n nh snips
  | none => s.drop n

/-- `_nhc_udp_encode_snip` -/
def udpSnip (s : Enc) (mark : Bool) (hdr : HdrSnip) (rest : List HdrSnip) : Enc :=
  if hdr.size < 8 then s.drop 0
  else s.removed mark hdr rest 8 (iphcNhcUdpEncode hdr.data).length protnumReserved

/-- The bytes that `_nhc_ipv6_encode_snip` puts in front of the compressed header. -/
def ipv6Front (nh : Byte) : List Byte :=
  if compressibleNh nh then [nhcIpv6ExtId ||| nhcIpv6ExtNh] else [nhcIpv6ExtId, nh]

/-- `_nhc_ipv6_encode_snip`. The header compressed is `pkt->next` of the snip it is called with. -/
def ipv6Snip (l : IphcLink) (stack : Iid) (s : Enc) (mark : Bool) (hdr : HdrSnip) (rest : List HdrSnip) : Enc :=
  if hdr.size < 40 then s.drop 0
  else
    let front := (ipv6Front (hdr.data 6)).length
    match rest with
    | [] => s.drop front
    | next :: _ =>
      let n := front + iphcIpv6Extent l stack (Ipv6Hdr.ofMem next.data)
      match iphcIpv6Encode l.ctxs l.netif l.hdr stack (Ipv6Hdr.ofMem next.data) with
      | some _ => s.removed mark hdr rest 40 n (hdr.data 6)
      | none => s.drop n

/-- `_nhc_ipv6_ext_encode_snip`; a header that is too long ends the loop. -/
def extSnip (s : Enc) (mark : Bool) (hdr : HdrSnip) (rest : List HdrSnip) : Enc :=
  let extLen := (hdr.data 1).toNat * 8 + 8
  if hdr.size < extLen then s.drop 0
  else if 255 < extLen - 2 then { s with nh := protnumReserved }
  else
    s.removed mark hdr rest extLen (iphcNhcIpv6ExtEncode s.nh hdr.data extLen).length
      (if NhElided s.nh hdr.data then hdr.data 0 else protnumReserved)

/-- One round of the loop. A failed assertion ends it as an error does. -/
def round (l : IphcLink) (stack : Iid) (mark : Bool) (s : Enc) : Enc :=
  if s.live ∧ compressibleNh s.nh then
    match s.snips with
    | [] => s.drop 0
    | hdr :: rest =>
      if s.nh = 17 then s.udpSnip mark hdr rest
      else if s.nh = 41 then s.ipv6Snip l stack mark hdr rest
      else s.extSnip mark hdr rest
  else s

/-- Before the loop. -/
def start (l : IphcLink) (stack : Iid) (d : Datagram) : Enc :=
  let n := iphcIpv6Extent l stack (Ipv6Hdr.ofMem d.ipv6.data)
  ⟨d.rest, d.ipv6.data 6, n, n,
    (iphcIpv6Encode l.ctxs l.netif l.hdr stack (Ipv6Hdr.ofMem d.ipv6.data)).isSome⟩

/-- After `k` rounds. What is on the stack and whether the packet buffer has room may change from
round to round. -/
def rounds (l : IphcLink) (stack : Nat → Iid) (mark : Nat → Bool) (d : Datagram) : Nat → Enc
  | 0 => start l (stack 0) d
  | k + 1 => (rounds l stack mark d k).round l (stack (k + 1)) (mark k)

end Enc

end Riot.Sixlowpan
