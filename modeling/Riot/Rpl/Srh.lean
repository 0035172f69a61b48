import Riot.Ipv6.Addr

/-!
# RPL source routing headers

`sys/net/gnrc/routing/rpl/srh/gnrc_rpl_srh.c` and the routing header handler that
calls it, `gnrc_ipv6_ext_rh_process`. The address vector is the bytes behind the
fixed part of the header; `none` is an access outside of them or a failed
assertion.
-/

namespace Riot.Rpl

open Riot.Ipv6

abbrev Byte := BitVec 8

/-- `ipv6_hdr_t`: what routing headers change of it. -/
structure Ipv6Hdr where
  hl : BitVec 8
  dst : Addr
  deriving DecidableEq

/-- `gnrc_rpl_srh_t` and the address vector behind it. -/
structure Srh where
  len : BitVec 8
  type : BitVec 8
  segLeft : BitVec 8
  compr : BitVec 8
  padResv : BitVec 8
  vec : List Byte
  deriving DecidableEq

def Srh.padding (rh : Srh) : Nat := ((rh.padResv &&& 0xF0#8) >>> 4).toNat

def Srh.comprE (rh : Srh) : Nat := (rh.compr &&& 0x0F#8).toNat

def Srh.comprI (rh : Srh) : Nat := ((rh.compr &&& 0xF0#8) >>> 4).toNat

/-- What `err_ptr` points to. -/
inductive ErrPtr where
  | len
  | type
  | segLeft
  | addrVec (offset : Nat)
  deriving DecidableEq

/-- `GNRC_IPV6_EXT_RH_ERROR`, `GNRC_IPV6_EXT_RH_AT_DST`, `GNRC_IPV6_EXT_RH_FORWARDED` -/
inductive RhResult where
  | error
  | atDst
  | forwarded
  deriving DecidableEq

/-- The outcome of a handler: its result, `*err_ptr`, the packet and the header. -/
structure RhOut where
  res : RhResult
  errPtr : Option ErrPtr
  ipv6 : Ipv6Hdr
  rh : Srh
  deriving DecidableEq

def isMulticast (a : Addr) : Prop := getElem a 0 addr_pos = 0xff

instance (a : Addr) : Decidable (isMulticast a) := inferInstanceAs (Decidable (_ = _))

/-- `memcpy(&a->u8[i], bytes, ...)` -/
def overlay (a : Addr) (i : Nat) (bytes : List Byte) : Addr :=
  Vector.ofFn fun k => if i ≤ k then (bytes[k - i]?).getD (getElem a k (addr_lt k)) else getElem a k (addr_lt k)

/-- Reads `n` bytes of the address vector. -/
def readVec (vec : List Byte) (off n : Nat) : Option (List Byte) :=
  if off + n ≤ vec.length then some ((vec.drop off).take n) else none

/-- Overwrites bytes of the address vector. -/
def writeVec (vec : List Byte) (off : Nat) (bytes : List Byte) : Option (List Byte) :=
  if off + bytes.length ≤ vec.length then
    some (vec.take off ++ bytes ++ vec.drop (off + bytes.length))
  else none

/-- The octets that entry `i` of `numAddr` elides. -/
def Srh.elided (rh : Srh) (numAddr i : Nat) : Nat :=
  if i = numAddr - 1 then rh.comprE else rh.comprI

/-- The loop of `_contains_multiple_of_my_addr`: `r` addresses are left, `i` is the next one.
`owns` is `gnrc_netif_get_by_ipv6_addr(..) != NULL`. -/
def containsMultipleLoop (owns : Addr → Bool) (rh : Srh) (numAddr : Nat) :
    Nat → (i : Nat) → (addr : Addr) → (found : Bool) → (foundPos : Nat) → Option (Option Nat)
  | 0, _, _, _, _ => some none
  | r + 1, i, addr, found, foundPos =>
    let off := i * (16 - rh.comprI)
    match readVec rh.vec off (16 - rh.elided numAddr i) with
    | none => none
    | some bytes =>
      let addr := overlay addr (rh.elided numAddr i) bytes
      if owns addr then
        if found = true ∧ 1 < i - foundPos then some (some off)
        else containsMultipleLoop owns rh numAddr r (i + 1) addr true (i % 256)
      else containsMultipleLoop owns rh numAddr r (i + 1) addr found foundPos

/-- `_contains_multiple_of_my_addr`; `stack` is what `addr` holds before. -/
def containsMultipleOfMyAddr (owns : Addr → Bool) (stack dst : Addr) (rh : Srh) (numAddr : Nat) :
    Option (Option Nat) :=
  containsMultipleLoop owns rh numAddr numAddr 0
    (overlay stack 0 (dst.toList.take rh.comprI)) false 0

/-- `num_addr`, a `uint8_t`. -/
def Srh.numAddr (rh : Srh) : BitVec 8 :=
  BitVec.ofNat 8
    ((rh.len.toNat * 8 - rh.padding - (16 - rh.comprE)) / (16 - rh.comprI) + 1)

def gnrcRplSrhProcess (owns : Addr → Bool) (stack : Addr) (ipv6 : Ipv6Hdr) (rh : Srh)
    (errPtr : Option ErrPtr) : Option RhOut :=
  let newSegLeft := rh.segLeft - 1#8
  if rh.len.toNat * 8 < rh.padding + (16 - rh.comprE) then
    some ⟨.error, some .len, ipv6, rh⟩
  -- assert(rh->seg_left > 0)
  else if rh.segLeft = 0#8 then none
  else if rh.numAddr < rh.segLeft then some ⟨.error, some .segLeft, ipv6, rh⟩
  else
    let currentPos := rh.numAddr - newSegLeft
    let prefElided := if newSegLeft ≠ 0#8 then rh.comprI else rh.comprE
    let off := (currentPos.toNat - 1) * (16 - rh.comprI)
    match readVec rh.vec off (16 - prefElided) with
    | none => none
    | some bytes =>
      let addr := overlay (overlay stack 0 (ipv6.dst.toList.take prefElided)) prefElided bytes
      if isMulticast ipv6.dst then some ⟨.error, errPtr, ipv6, rh⟩
      else if isMulticast addr then some ⟨.error, errPtr, ipv6, rh⟩
      else
        match containsMultipleOfMyAddr owns stack ipv6.dst rh rh.numAddr.toNat with
        | none => none
        | some (some at_) => some ⟨.error, some (.addrVec at_), ipv6, rh⟩
        | some none =>
          match writeVec rh.vec off (ipv6.dst.toList.drop prefElided) with
          | none => none
          | some vec =>
            some ⟨.forwarded, none, { ipv6 with dst := addr }, { rh with segLeft := newSegLeft, vec }⟩

/-- `IPV6_EXT_RH_TYPE_RPL_SRH` -/
def IPV6_EXT_RH_TYPE_RPL_SRH : BitVec 8 := 3

/-- `gnrc_ipv6_ext_rh_process`; `_forward_pkt` decrements the hop limit of the packet. -/
def gnrcIpv6ExtRhProcess (owns : Addr → Bool) (stack : Addr) (ipv6 : Ipv6Hdr) (rh : Srh) :
    Option RhOut :=
  if rh.segLeft = 0#8 then some ⟨.atDst, none, ipv6, rh⟩
  else if rh.type = IPV6_EXT_RH_TYPE_RPL_SRH then
    (gnrcRplSrhProcess owns stack ipv6 rh none).map fun out =>
      if out.res = .forwarded then { out with ipv6.hl := out.ipv6.hl - 1#8 } else out
  else some ⟨.error, some .type, ipv6, rh⟩

end Riot.Rpl
