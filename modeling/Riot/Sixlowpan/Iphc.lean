import Riot.Lib.Cursor
import Riot.Sixlowpan.Ctx

/-!
# The compressed IPv6 header

`_iphc_ipv6_encode` and `_iphc_ipv6_decode` of
`sys/net/gnrc/network_layer/sixlowpan/iphc/gnrc_sixlowpan_iphc.c`, with the accessors of
`ipv6_hdr_t` and `ipv6_addr_t` that they use.

The encoder fills a buffer from its two dispatch bytes on: `rest` is what is written behind them, so
that `inline_pos` is its length and two. The decoder is a reader of the memory from the dispatch on;
`payload_offset` is its cursor, and where it returns 0 the reader gives up.
-/

namespace Riot.Sixlowpan

open Riot.Lib Riot.Ipv6

/-! ## IPv6 headers -/

/-- `v_tc_fl` of `ipv6_hdr_t`, byte by byte. -/
structure VTcFl where
  u0 : Byte
  u1 : Byte
  u2 : Byte
  u3 : Byte
deriving DecidableEq, Repr

namespace VTcFl

/-- `ipv6_hdr_is`. -/
def IsIpv6 (v : VTcFl) : Prop := v.u0 &&& 0xf0#8 = 0x60#8

instance (v : VTcFl) : Decidable v.IsIpv6 := inferInstanceAs (Decidable (_ = _))

def setVersion (v : VTcFl) : VTcFl := { v with u0 := v.u0 &&& 0x0f#8 ||| 0x60#8 }

def setTc (v : VTcFl) (tc : Byte) : VTcFl :=
  { v with
    u0 := v.u0 &&& 0xf0#8 ||| (0x0f#8 &&& tc >>> 4)
    u1 := v.u1 &&& 0x0f#8 ||| (0xf0#8 &&& tc <<< 4) }

def setTcEcn (v : VTcFl) (ecn : Byte) : VTcFl :=
  { v with u0 := v.u0 &&& 0xf3#8 ||| (0x0c#8 &&& ecn <<< 2) }

def setTcDscp (v : VTcFl) (dscp : Byte) : VTcFl :=
  { v with
    u0 := v.u0 &&& 0xfc#8 ||| (0x03#8 &&& dscp >>> 4)
    u1 := v.u1 &&& 0x0f#8 ||| (0xf0#8 &&& dscp <<< 4) }

def getTc (v : VTcFl) : Byte := (v.u0 &&& 0x0f#8) <<< 4 ||| (v.u1 &&& 0xf0#8) >>> 4

def getTcEcn (v : VTcFl) : Byte := (v.u0 &&& 0x0c#8) >>> 2

def getTcDscp (v : VTcFl) : Byte := (v.u0 &&& 0x03#8) <<< 4 ||| (v.u1 &&& 0xf0#8) >>> 4

def setFl (v : VTcFl) (fl : BitVec 32) : VTcFl :=
  { v with
    u1 := v.u1 &&& 0xf0#8 ||| (0x0f#8 &&& (fl >>> 16).setWidth 8)
    u2 := (fl >>> 8).setWidth 8
    u3 := fl.setWidth 8 }

/-- `byteorder_ntohl` of the four bytes. -/
def ntohl (v : VTcFl) : BitVec 32 :=
  v.u0.setWidth 32 <<< 24 ||| v.u1.setWidth 32 <<< 16 ||| v.u2.setWidth 32 <<< 8 |||
    v.u3.setWidth 32

def getFl (v : VTcFl) : BitVec 32 := v.ntohl &&& 0x000fffff

end VTcFl

/-- `ipv6_hdr_t`. -/
structure Ipv6Hdr where
  vTcFl : VTcFl
  len : BitVec 16
  nh : Byte
  hl : Byte
  src : Addr
  dst : Addr
deriving DecidableEq, Repr

/-- What `memset` leaves of a header. -/
def Ipv6Hdr.zero : Ipv6Hdr := ⟨⟨0, 0, 0, 0⟩, 0, 0, 0, addrUnspecified, addrUnspecified⟩

/-! ## Addresses -/

/-- `n` bytes of an address from byte `i` on. -/
def slice (a : Addr) (i n : Nat) : List Byte := (a.toList.drop i).take n

/-- Copies `bs` into an address from byte `i` on. -/
def putBytes (a : Addr) (i : Nat) (bs : List Byte) : Addr :=
  Vector.ofFn fun k => if i ≤ k then bs.getD (k - i) (getElem a k (addr_lt k)) else getElem a k (addr_lt k)

/-- `ipv6_addr_init_prefix` on the bytes of an address from byte `i` on. -/
def initPrefixAt (a : Addr) (i : Nat) (pfx : Addr) (bits : Nat) : Addr :=
  putBytes a i
    ((initPrefix (putBytes addrUnspecified 0 (a.toList.drop i)) pfx bits).toList.take (16 - i))

/-- The bytes from `i` to before `j` are zero. -/
def ZeroBytes (a : Addr) (i j : Nat) : Prop := slice a i (j - i) = List.replicate (j - i) 0

instance (a : Addr) (i j : Nat) : Decidable (ZeroBytes a i j) := inferInstanceAs (Decidable (_ = _))

def linkLocalPrefix : List Byte := [0xfe, 0x80, 0, 0, 0, 0, 0, 0]

def isMulticast (a : Addr) : Prop := getElem a 0 addr_pos = 0xff

instance (a : Addr) : Decidable (isMulticast a) := inferInstanceAs (Decidable (_ = _))

/-- `ipv6_addr_is_link_local`: also the multicast addresses of that scope. -/
def isLinkLocal (a : Addr) : Prop :=
  slice a 0 8 = linkLocalPrefix ∨ isMulticast a ∧ a[1] &&& 0x0f = 0x02

instance (a : Addr) : Decidable (isLinkLocal a) := inferInstanceAs (Decidable (_ ∨ _ ∧ _))

def setLinkLocalPrefix (a : Addr) : Addr := putBytes a 0 linkLocalPrefix

/-- The bytes 8 to 13 of an interface identifier made of a short address. -/
def shortIid : List Byte := [0, 0, 0, 0xff, 0xfe, 0]

/-! ## The interface and its link-layer addresses -/

/-- `eui64_t`, as an interface identifier. -/
abbrev Iid := Vector Byte 8

/-- `gnrc_netif_t`: its own link-layer address, and `gnrc_netif_ipv6_iid_from_addr` for its type of
device. -/
structure Netif where
  l2addr : List Byte
  iidFromAddr : List Byte → Option Iid

def Netif.getIid (n : Netif) : Option Iid := n.iidFromAddr n.l2addr

/-- The link-layer addresses of `gnrc_netif_hdr_t`. -/
structure NetifHdr where
  srcL2addr : List Byte
  dstL2addr : List Byte
deriving DecidableEq, Repr

def ieee802154GetIid : List Byte → Option Iid
  | [a, b, c, d, e, f, g, h] => some #v[a ^^^ 0x02, b, c, d, e, f, g, h]
  | [a, b, c, d] => some #v[a ^^^ 0x02, b, 0, 0xff, 0xfe, 0, c, d]
  | [a, b] => some #v[0, 0, 0, 0xff, 0xfe, 0, a, b]
  | _ => none

/-! ## Dispatch bits -/

def iphc1Disp : Byte := 0x60
def iphc1Tf : Byte := 0x18
def iphc1Nh : Byte := 0x04
def iphc1Hl : Byte := 0x03
def iphc2CidExt : Byte := 0x80
def iphc2Sac : Byte := 0x40
def iphc2Sam : Byte := 0x30
def iphc2M : Byte := 0x08
def iphc2Dac : Byte := 0x04
def iphc2Dam : Byte := 0x03

def tfEcnDscpFl : Byte := 0x00
def tfEcnFl : Byte := 0x08
def tfEcnDscp : Byte := 0x10
def tfEcnElide : Byte := 0x18

def hlInline : Byte := 0x00
def hl1 : Byte := 0x01
def hl64 : Byte := 0x02
def hl255 : Byte := 0x03

def samFull : Byte := 0x00
def sam64 : Byte := 0x10
def sam16 : Byte := 0x20
def samL2 : Byte := 0x30
def samUnspec : Byte := 0x40
def samCtx64 : Byte := 0x50
def samCtx16 : Byte := 0x60
def samCtxL2 : Byte := 0x70

def damUFull : Byte := 0x00
def damU64 : Byte := 0x01
def damU16 : Byte := 0x02
def damUL2 : Byte := 0x03
def damUCtx64 : Byte := 0x05
def damUCtx16 : Byte := 0x06
def damUCtxL2 : Byte := 0x07
def damMFull : Byte := 0x08
def damM48 : Byte := 0x09
def damM32 : Byte := 0x0a
def damM8 : Byte := 0x0b
def damMUcPrefix : Byte := 0x0c

def iphcPrefixLen : Nat := 64

/-! ## The encoder -/

/-- The buffer from the first dispatch byte on. -/
structure IphcBuf where
  iphc1 : Byte
  iphc2 : Byte
  rest : List Byte
deriving DecidableEq, Repr

namespace IphcBuf

def or1 (b : IphcBuf) (x : Byte) : IphcBuf := { b with iphc1 := b.iphc1 ||| x }

def or2 (b : IphcBuf) (x : Byte) : IphcBuf := { b with iphc2 := b.iphc2 ||| x }

/-- `iphc_hdr[CID_EXT_IDX] |= x`: the byte behind the dispatch, whatever it is. -/
def orCid (b : IphcBuf) (x : Byte) : IphcBuf := { b with rest := b.rest.modify 0 (· ||| x) }

/-- Copies `bs` to `inline_pos`. -/
def put (b : IphcBuf) (bs : List Byte) : IphcBuf := { b with rest := b.rest ++ bs }

/-- The bytes written. -/
def bytes (b : IphcBuf) : List Byte := b.iphc1 :: b.iphc2 :: b.rest

end IphcBuf

/-- `_compressible_nh`, with NHC. -/
def compressibleNh (nh : Byte) : Bool :=
  nh == 0 || nh == 17 || nh == 41 || nh == 43 || nh == 44 || nh == 60 || nh == 135

/-- The context that `_iphc_ipv6_encode` compresses an address with. -/
def compCtx (t : CtxTable) (addr : Addr) : Option Ctx :=
  (t.lookupAddr addr).filter fun c => c.Comp ∧ ¬ matchPrefix c.pfx addr < iphcPrefixLen

def srcCtx (t : CtxTable) (h : Ipv6Hdr) : Option Ctx :=
  if h.src = addrUnspecified then none else compCtx t h.src

def dstCtx (t : CtxTable) (h : Ipv6Hdr) : Option Ctx :=
  if isMulticast h.dst then none else compCtx t h.dst

/-- The context has to be named in the context identifier extension. -/
def needsCid (c : Option Ctx) : Bool := c.any fun c => c.cid ≠ 0

def contextOverlapsIid (ctx : Option Ctx) (addr : Addr) (iid : Iid) : Bool :=
  match ctx with
  | none => false
  | some c =>
    if c.Comp then false
    else
      let i := c.prefixLen / 8
      let mask : Byte := 0xff#8 >>> (c.prefixLen % 8)
      decide (c.prefixLen = 128 ∨ 64 < c.prefixLen ∧
        slice addr (i + 1) (8 - (i - 7)) = (iid.toList.drop (i - 7)).take (8 - (i - 7)) ∧
        addr.toList.getD i 0 &&& mask = iid.toList.getD (i - 8) 0 &&& mask)

def encodeCid (src dst : Option Ctx) (b : IphcBuf) : IphcBuf :=
  if needsCid src || needsCid dst then (b.or2 iphc2CidExt).put [0] else b

def encodeTf (v : VTcFl) (b : IphcBuf) : IphcBuf :=
  if v.getFl = 0 then
    if v.getTc = 0 then b.or1 tfEcnElide
    else (b.or1 tfEcnDscp).put [v.getTc]
  else
    let b :=
      if v.getTcDscp = 0 then
        (b.or1 tfEcnFl).put
          [v.getTcEcn <<< 6 ||| ((v.getFl &&& 0x000f0000) >>> 16).setWidth 8]
      else
        (b.or1 tfEcnDscpFl).put [v.getTc, ((v.getFl &&& 0x000f0000) >>> 16).setWidth 8]
    b.put [((v.getFl &&& 0x0000ff00) >>> 8).setWidth 8, (v.getFl &&& 0x000000ff).setWidth 8]

def encodeNh (nh : Byte) (b : IphcBuf) : IphcBuf :=
  if compressibleNh nh then b.or1 iphc1Nh else b.put [nh]

def encodeHl (hl : Byte) (b : IphcBuf) : IphcBuf :=
  if hl = 1 then b.or1 hl1
  else if hl = 64 then b.or1 hl64
  else if hl = 255 then b.or1 hl255
  else (b.or1 hlInline).put [hl]

/-- The identifier of an address that has a context or is link-local: elided, as 16 bits or as
64. -/
def encodeIid (ctx : Option Ctx) (addr : Addr) (iid : Iid) (l2 b16 b64 : Byte) (b : IphcBuf) :
    IphcBuf :=
  if slice addr 8 8 = iid.toList ∨ contextOverlapsIid ctx addr iid then b.or2 l2
  else if slice addr 8 6 = shortIid then (b.or2 b16).put (slice addr 14 2)
  else (b.or2 b64).put (slice addr 8 8)

/-- Says that the address has a context, and which where that is not context 0. -/
def nameCtx (stateful : Byte) (x : Ctx → Byte) (ctx : Option Ctx) (b : IphcBuf) : IphcBuf :=
  match ctx with
  | some c =>
    let b := b.or2 stateful
    if c.cid ≠ 0 then b.orCid (x c) else b
  | none => b

def encodeSrc (netif : Netif) (ctx : Option Ctx) (src : Addr) (b : IphcBuf) : Option IphcBuf :=
  if src = addrUnspecified then some (b.or2 samUnspec)
  else
    let b := nameCtx iphc2Sac (·.cid <<< 4) ctx b
    if ctx.isSome ∨ isLinkLocal src then
      netif.getIid.map fun iid => encodeIid ctx src iid samL2 sam16 sam64 b
    else some ((b.or2 samFull).put (slice src 0 16))

/-- The address looked up for the unicast-prefix form; the code leaves its last eight bytes as they
are on the stack. -/
def unicastPrefix (dst : Addr) (stack : Iid) : Addr :=
  Vector.ofFn fun i => if h : i.val < 8 then dst[i.val + 4] else stack[i.val - 8]

/-- The context of the unicast prefix of a multicast address. -/
def ucCtx (t : CtxTable) (dst : Addr) (stack : Iid) : Option Ctx :=
  (t.lookupAddr (unicastPrefix dst stack)).filter fun c =>
    c.Comp ∧ BitVec.ofNat 8 c.prefixLen = dst[3]

def encodeMulticast (t : CtxTable) (stack : Iid) (dst : Addr) (b : IphcBuf) : IphcBuf :=
  let b := b.or2 iphc2M
  let full := (b.or2 samFull).put (slice dst 0 16)
  if ZeroBytes dst 2 10 then
    if dst[1] = 0x02 ∧ ZeroBytes dst 8 15 then (b.or2 damM8).put [getElem dst 15 (Nat.lt_succ_self 15)]
    else if ZeroBytes dst 10 13 then (b.or2 damM32).put (dst[1] :: slice dst 13 3)
    else if dst[10] = 0 then (b.or2 damM48).put (dst[1] :: slice dst 11 5)
    else full
  else
    match ucCtx t dst stack with
    | some c =>
      (nameCtx iphc2Dac (·.cid) (some c) b).put (dst[1] :: dst[2] :: slice dst 12 4)
    | none => full

def encodeUnicast (netif : Netif) (hdr : NetifHdr) (ctx : Option Ctx) (dst : Addr)
    (b : IphcBuf) : Option IphcBuf :=
  if (ctx.isSome ∨ isLinkLocal dst) ∧ 0 < hdr.dstL2addr.length then
    let b := nameCtx iphc2Dac (·.cid) ctx b
    (netif.iidFromAddr hdr.dstL2addr).map fun iid => encodeIid ctx dst iid damUL2 damU16 damU64 b
  else some ((b.or2 samFull).put (slice dst 0 16))

/-- `_iphc_ipv6_encode`, `none` where it returns 0. -/
def iphcIpv6Encode (t : CtxTable) (netif : Netif) (hdr : NetifHdr) (stack : Iid) (h : Ipv6Hdr) :
    Option IphcBuf :=
  let src := srcCtx t h
  let dst := dstCtx t h
  let b := encodeHl h.hl (encodeNh h.nh (encodeTf h.vTcFl (encodeCid src dst ⟨iphc1Disp, 0, []⟩)))
  (encodeSrc netif src h.src b).bind fun b =>
    if isMulticast h.dst then some (encodeMulticast t stack h.dst b)
    else encodeUnicast netif hdr dst h.dst b

/-! ## The decoder -/

section Decode

open Reader

def decodeTf (iphc1 : Byte) (v : VTcFl) : Reader Byte VTcFl :=
  if iphc1 &&& iphc1Tf = tfEcnDscpFl then do
    let tc ← next
    let f1 ← next
    let f2 ← next
    let f3 ← next
    let v := v.setTc tc
    return { v with u1 := v.u1 ||| (f1 &&& 0x0f#8), u2 := v.u2 ||| f2, u3 := v.u3 ||| f3 }
  else if iphc1 &&& iphc1Tf = tfEcnFl then do
    let f1 ← next
    let f2 ← next
    let f3 ← next
    let v := (v.setTcEcn (f1 >>> 6)).setTcDscp 0
    return { v with u1 := v.u1 ||| (f1 &&& 0x0f#8), u2 := v.u2 ||| f2, u3 := v.u3 ||| f3 }
  else if iphc1 &&& iphc1Tf = tfEcnDscp then do
    let tc ← next
    return (v.setTc tc).setFl 0
  else return (v.setTc 0).setFl 0

def decodeNh (iphc1 : Byte) : Reader Byte Byte :=
  if iphc1 &&& iphc1Nh = 0 then next else return 0

def decodeHl (iphc1 : Byte) : Reader Byte Byte :=
  if iphc1 &&& iphc1Hl = hlInline then next
  else if iphc1 &&& iphc1Hl = hl1 then return 1
  else if iphc1 &&& iphc1Hl = hl64 then return 64
  else return 255

/-- The identifier of a context: a part of the extension, or zero without it. -/
def decodeCid (iphc2 : Byte) (id : Byte → Byte) : Reader Byte Byte :=
  if iphc2 &&& iphc2CidExt ≠ 0 then id <$> peek 2 else pure 0

/-- The context of an address, where its dispatch bits name one: `stateful` is the bit that says
so, `form` are the bits of which one has to be set, and `id` takes the identifier from the
extension. -/
def decodeCtx (t : CtxTable) (iphc2 stateful form : Byte) (id : Byte → Byte) (ctx : Option Ctx) :
    Reader Byte (Option Ctx) :=
  if iphc2 &&& stateful ≠ 0 then do
    let ci ← decodeCid iphc2 id
    if iphc2 &&& form ≠ 0 then do
      let c ← ofOption (t.lookupId ci.toNat)
      return some c
    else return ctx
  else return ctx

def decodeSrc (netif : Netif) (hdr : NetifHdr) (iphc2 : Byte) (ctx : Option Ctx) (src : Addr) :
    Reader Byte Addr :=
  let form := iphc2 &&& (iphc2Sac ||| iphc2Sam)
  if form = samFull then do
    let a ← copy 16
    return putBytes src 0 a
  else if form = sam64 then do
    let a ← copy 8
    return putBytes (setLinkLocalPrefix src) 8 a
  else if form = sam16 then do
    let a ← copy 2
    return putBytes (putBytes (setLinkLocalPrefix src) 8 shortIid) 14 a
  else if form = samL2 then do
    let iid ← ofOption (netif.iidFromAddr hdr.srcL2addr)
    return setLinkLocalPrefix (putBytes src 8 iid.toList)
  else if form = samUnspec then return addrUnspecified
  else if form = samCtx64 then do
    let c ← ofOption ctx
    let a ← copy 8
    return initPrefix (putBytes src 8 a) c.pfx c.prefixLen
  else if form = samCtx16 then do
    let c ← ofOption ctx
    let a ← copy 2
    return initPrefix (putBytes (putBytes src 8 shortIid) 14 a) c.pfx c.prefixLen
  else do
    let c ← ofOption ctx
    let iid ← ofOption (netif.iidFromAddr hdr.srcL2addr)
    return initPrefix (putBytes src 8 iid.toList) c.pfx c.prefixLen

def decodeDst (netif : Netif) (hdr : NetifHdr) (iphc2 : Byte) (ctx : Option Ctx) (dst : Addr) :
    Reader Byte Addr :=
  let form := iphc2 &&& (iphc2M ||| iphc2Dac ||| iphc2Dam)
  if form = damUFull ∨ form = damMFull then do
    let a ← copy 16
    return putBytes dst 0 a
  else if form = damU64 then do
    let a ← copy 8
    return putBytes (setLinkLocalPrefix dst) 8 a
  else if form = damU16 then do
    let a ← copy 2
    return putBytes (putBytes (setLinkLocalPrefix dst) 8 shortIid) 14 a
  else if form = damUL2 then do
    let iid ← ofOption (netif.iidFromAddr hdr.dstL2addr)
    return setLinkLocalPrefix (putBytes dst 8 iid.toList)
  else if form = damUCtx64 then do
    let c ← ofOption ctx
    let a ← copy 8
    return initPrefix (putBytes dst 8 a) c.pfx c.prefixLen
  else if form = damUCtx16 then do
    let a ← copy 2
    let c ← ofOption ctx
    return initPrefix (putBytes (putBytes dst 8 shortIid) 14 a) c.pfx c.prefixLen
  else if form = damUCtxL2 then do
    let iid ← ofOption (netif.iidFromAddr hdr.dstL2addr)
    let c ← ofOption ctx
    return initPrefix (putBytes dst 8 iid.toList) c.pfx c.prefixLen
  else if form = damM48 then do
    let b ← next
    let a ← copy 5
    return putBytes (putBytes addrUnspecified 0 [0xff, b]) 11 a
  else if form = damM32 then do
    let b ← next
    let a ← copy 3
    return putBytes (putBytes addrUnspecified 0 [0xff, b]) 13 a
  else if form = damM8 then do
    let b ← next
    return putBytes (putBytes addrUnspecified 0 [0xff, 0x02]) 15 [b]
  else if form = damMUcPrefix then do
    let c ← ofOption ctx
    let len := if 64 < c.prefixLen then 64 else c.prefixLen
    let b1 ← next
    let b2 ← next
    -- the offset has moved behind the two bytes, and two more are skipped
    let a ← copyAhead 2 4
    let dst := putBytes addrUnspecified 0 [0xff, b1, b2, BitVec.ofNat 8 len]
    return putBytes (initPrefixAt dst 4 c.pfx len) 12 a
  else return dst

/-- Moves behind the context identifier extension. -/
def skipCidExt (iphc2 : Byte) : Reader Byte Unit :=
  if iphc2 &&& iphc2CidExt ≠ 0 then skip 1 else pure ()

/-- `_iphc_ipv6_decode` of the memory from the dispatch on. -/
def iphcIpv6Decode (t : CtxTable) (netif : Netif) (hdr : NetifHdr) : Reader Byte Ipv6Hdr := do
  let iphc1 ← next
  let iphc2 ← next
  skipCidExt iphc2
  let h := Ipv6Hdr.zero
  let vTcFl ← decodeTf iphc1 h.vTcFl.setVersion
  let nh ← decodeNh iphc1
  let hl ← decodeHl iphc1
  let ctx ← decodeCtx t iphc2 iphc2Sac iphc2Sam (· >>> 4) none
  let src ← decodeSrc netif hdr iphc2 ctx h.src
  let ctx ← decodeCtx t iphc2 iphc2Dac (iphc2M ||| iphc2Dam) (· &&& 0x0f) ctx
  let dst ← decodeDst netif hdr iphc2 ctx h.dst
  return { h with vTcFl := vTcFl, nh := nh, hl := hl, src := src, dst := dst }

end Decode

end Riot.Sixlowpan
