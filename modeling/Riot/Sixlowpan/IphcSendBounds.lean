import Riot.Sixlowpan.IphcSend

/-!
# The size of the dispatch

The IPv6 header takes a byte more than its 40 at most, when it needs a context identifier and nothing
of it is elided, and no byte more if its next header is compressed. An extension header takes a byte
more than its size only if its own next header is inline, and is the last one then. So the one byte
more that is allocated is enough, as long as no round goes to an encapsulated IPv6 header.
-/

namespace Riot.Sixlowpan

open Riot.Lib Riot.Ipv6 List

/-! ## The IPv6 header -/

section Extent

variable {b b' : IphcBuf} {bs : List Byte} {x : Byte}

namespace IphcBuf

/-- How many bytes are written, the dispatch included. -/
def size (b : IphcBuf) : Nat := b.bytes.length

theorem size_eq : b.size = b.rest.length + 2 := rfl

@[simp] theorem size_or1 : (b.or1 x).size = b.size := rfl

@[simp] theorem size_or2 : (b.or2 x).size = b.size := rfl

@[simp] theorem size_orCid : (b.orCid x).size = b.size := by
  rw [size_eq, size_eq, orCid, length_modify]

@[simp] theorem size_put : (b.put bs).size = b.size + bs.length := by
  rw [size_eq, size_eq, put, length_append]
  omega

end IphcBuf

theorem length_slice_le (a : Addr) (i n : Nat) : (slice a i n).length ≤ n := length_take_le _ _

theorem size_encodeCid (src dst : Option Ctx) : (encodeCid src dst b).size ≤ b.size + 1 := by
  unfold encodeCid
  split
  · simp
  · omega

theorem size_encodeTf (v : VTcFl) : (encodeTf v b).size ≤ b.size + 4 := by
  unfold encodeTf
  split
  · split
    · simp
    · simp
  · split
    · simp
    · simp

theorem size_encodeNh (nh : Byte) : (encodeNh nh b).size = b.size + if compressibleNh nh then 0 else 1 := by
  unfold encodeNh
  split
  · simp
  · simp

theorem size_encodeHl (hl : Byte) : (encodeHl hl b).size ≤ b.size + 1 := by
  unfold encodeHl
  split
  · simp
  · split
    · simp
    · split
      · simp
      · simp

theorem size_encodeIid (ctx : Option Ctx) (addr : Addr) (iid : Iid) (l2 b16 b64 : Byte) :
    (encodeIid ctx addr iid l2 b16 b64 b).size ≤ b.size + 16 := by
  have h2 := length_slice_le addr 14 2
  have h8 := length_slice_le addr 8 8
  unfold encodeIid
  split
  · simp
  · split
    · rw [IphcBuf.size_put, IphcBuf.size_or2]
      omega
    · rw [IphcBuf.size_put, IphcBuf.size_or2]
      omega

@[simp] theorem size_nameCtx (stateful : Byte) (id : Ctx → Byte) (ctx : Option Ctx) :
    (nameCtx stateful id ctx b).size = b.size := by
  unfold nameCtx
  split
  · split
    · simp
    · simp
  · rfl

theorem size_putAddr (a : Addr) : ((b.or2 samFull).put (slice a 0 16)).size ≤ b.size + 16 := by
  have := length_slice_le a 0 16
  rw [IphcBuf.size_put, IphcBuf.size_or2]
  omega

theorem size_encodeSrc {netif : Netif} {ctx : Option Ctx} {src : Addr}
    (h : encodeSrc netif ctx src b = some b') : b'.size ≤ b.size + 16 := by
  unfold encodeSrc at h
  split at h
  · cases h
    simp
  · split at h
    · obtain ⟨iid, -, rfl⟩ := Option.map_eq_some_iff.mp h
      refine le_trans (size_encodeIid ..) (le_of_eq ?_)
      rw [size_nameCtx]
    · cases h
      refine le_trans (size_putAddr _) (le_of_eq ?_)
      rw [size_nameCtx]

theorem size_encodeMulticast (t : CtxTable) (stack : Iid) (dst : Addr) :
    (encodeMulticast t stack dst b).size ≤ b.size + 16 := by
  have hfull : (((b.or2 iphc2M).or2 samFull).put (slice dst 0 16)).size ≤ b.size + 16 := size_putAddr dst
  have h3 := length_slice_le dst 13 3
  have h5 := length_slice_le dst 11 5
  have h4 := length_slice_le dst 12 4
  unfold encodeMulticast
  split
  · split
    · simp
    · split
      · simp only [IphcBuf.size_put, IphcBuf.size_or2, length_cons]
        omega
      · split
        · simp only [IphcBuf.size_put, IphcBuf.size_or2, length_cons]
          omega
        · exact hfull
  · split
    · simp only [IphcBuf.size_put, IphcBuf.size_or2, size_nameCtx, length_cons]
      omega
    · exact hfull

theorem size_encodeUnicast {netif : Netif} {hdr : NetifHdr} {ctx : Option Ctx} {dst : Addr}
    (h : encodeUnicast netif hdr ctx dst b = some b') : b'.size ≤ b.size + 16 := by
  unfold encodeUnicast at h
  split at h
  · obtain ⟨iid, -, rfl⟩ := Option.map_eq_some_iff.mp h
    refine le_trans (size_encodeIid ..) (le_of_eq ?_)
    rw [size_nameCtx]
  · cases h
    exact size_putAddr _

/-- **The IPv6 header** takes 40 bytes at most if its next header is compressed, and 41 otherwise. -/
theorem iphcIpv6Extent_le (l : IphcLink) (stack : Iid) (h : Ipv6Hdr) :
    iphcIpv6Extent l stack h ≤ 40 + if compressibleNh h.nh then 0 else 1 := by
  have hfields : ∀ src dst, (encodeHl h.hl (encodeNh h.nh (encodeTf h.vTcFl
      (encodeCid src dst ⟨iphc1Disp, 0, []⟩)))).size ≤ 8 + if compressibleNh h.nh then 0 else 1 := by
    intro src dst
    have hcid := size_encodeCid (b := ⟨iphc1Disp, 0, []⟩) src dst
    have htf := size_encodeTf (b := encodeCid src dst ⟨iphc1Disp, 0, []⟩) h.vTcFl
    have hnh := size_encodeNh (b := encodeTf h.vTcFl (encodeCid src dst ⟨iphc1Disp, 0, []⟩)) h.nh
    have hhl := size_encodeHl
      (b := encodeNh h.nh (encodeTf h.vTcFl (encodeCid src dst ⟨iphc1Disp, 0, []⟩))) h.hl
    have h0 : (⟨iphc1Disp, 0, []⟩ : IphcBuf).size = 2 := rfl
    omega
  have hb := hfields (srcCtx l.ctxs h) (dstCtx l.ctxs h)
  unfold iphcIpv6Extent
  simp only
  split
  · exact le_trans hb (by omega)
  · rename_i b1 hsrc
    have h1 := size_encodeSrc hsrc
    split
    · have h2 : (encodeMulticast l.ctxs stack h.dst b1).size ≤ b1.size + 16 := size_encodeMulticast ..
      exact le_trans h2 (by omega)
    · split
      · exact le_trans h1 (by omega)
      · rename_i b2 hdst
        exact le_trans (size_encodeUnicast hdst) (by omega)

end Extent

/-! ## The other headers -/

theorem length_iphcNhcUdpEncode_le (udp : Nat → Byte) : (iphcNhcUdpEncode udp).length ≤ 7 := by
  unfold iphcNhcUdpEncode
  simp only [length_append]
  split
  · simp
  · split
    · simp
    · split
      · simp
      · simp

/-- An extension header takes its size, and a byte more if its next header is inline. -/
theorem length_iphcNhcIpv6ExtEncode (protnum : Byte) (ext : Nat → Byte) {extLen : Nat} (h : 2 ≤ extLen) :
    (iphcNhcIpv6ExtEncode protnum ext extLen).length = extLen + if NhElided protnum ext then 0 else 1 := by
  unfold iphcNhcIpv6ExtEncode
  split
  · simp only [length_cons, length_map, length_range]
    omega
  · simp only [length_cons, length_map, length_range]
    omega

/-! ## The loop -/

namespace Enc

variable {cfg : HdrModules} {d : Datagram} {l : IphcLink} {s : Enc} {room n : Nat}

/-- What has been written is within `room` bytes and one, and what may still be is within `room`. -/
structure Fits (cfg : HdrModules) (room : Nat) (s : Enc) : Prop where
  extent : s.extent ≤ room + 1
  ahead : s.live → compressibleNh s.nh → s.inlinePos + cfg.counted s.snips ≤ room

theorem Fits.drop (h : Fits cfg room s) (hn : s.inlinePos + n ≤ room + 1) : Fits cfg room (s.drop n) := by
  refine ⟨?_, fun hl => by cases hl⟩
  have := h.extent
  exact Nat.max_le.mpr ⟨this, hn⟩

theorem counted_removeHeader {mark : Bool} {hdr : HdrSnip} {rest snips : List HdrSnip} {size : Nat}
    (hsize : size ≤ hdr.size) (hcounted : cfg.compressible hdr.type)
    (h : removeHeader mark hdr rest size = some snips) :
    size + cfg.counted snips ≤ cfg.counted (hdr :: rest) := by
  unfold removeHeader at h
  have hall : cfg.counted (hdr :: rest) = hdr.size + cfg.counted rest := by
    rw [HdrModules.counted, if_pos hcounted]
  split at h
  · split at h
    · cases h
      rw [hall, HdrModules.counted, if_pos hcounted]
      simp only
      omega
    · cases h
  · cases h
    omega

/-- A header that is compressed to no more than its size, or to a byte more and is the last one. -/
theorem Fits.removed {mark : Bool} {hdr : HdrSnip} {rest : List HdrSnip} {size : Nat} {nh : Byte}
    (h : Fits cfg room s) (hsize : size ≤ hdr.size) (hcounted : cfg.compressible hdr.type)
    (hahead : s.inlinePos + cfg.counted (hdr :: rest) ≤ room)
    (hn : n ≤ size + if compressibleNh nh then 0 else 1) :
    Fits cfg room (s.removed mark hdr rest size n nh) := by
  have hall : hdr.size ≤ cfg.counted (hdr :: rest) := by
    rw [HdrModules.counted, if_pos hcounted]
    exact Nat.le_add_right ..
  have hle : n ≤ size + 1 := by
    split at hn
    · omega
    · exact hn
  unfold Enc.removed
  split
  · rename_i snips hsnips
    have hleft := counted_removeHeader hsize hcounted hsnips
    have hextent := h.extent
    refine ⟨Nat.max_le.mpr ⟨hextent, by omega⟩, fun _ hnh => ?_⟩
    have hnh' : compressibleNh nh = true := hnh
    rw [if_pos hnh'] at hn
    show (s.inlinePos + n) % 2 ^ 16 + cfg.counted snips ≤ room
    omega
  · exact h.drop (by omega)

/-- The round before which the loop is in `s` compresses a header that is counted, and not an IPv6
header with a snip behind it. -/
def Plain (cfg : HdrModules) (s : Enc) : Prop :=
  s.live → compressibleNh s.nh →
    (∀ hdr ∈ s.snips.head?, cfg.compressible hdr.type) ∧ (s.nh = 41 → s.snips.length ≤ 1)

theorem compressibleNh_reserved : compressibleNh protnumReserved = false := rfl

theorem Fits.round {stack : Iid} {mark : Bool} (h : Fits cfg room s) (hplain : Plain cfg s) :
    Fits cfg room (s.round l stack mark) := by
  unfold Enc.round
  split
  · rename_i hlive
    obtain ⟨hhead, hipv6⟩ := hplain hlive.1 hlive.2
    have hahead := h.ahead hlive.1 hlive.2
    split
    · exact h.drop (by omega)
    · rename_i hdr rest hsnips
      rw [hsnips] at hhead hipv6 hahead
      have hcounted := hhead hdr rfl
      have hall : hdr.size ≤ cfg.counted (hdr :: rest) := by
        rw [HdrModules.counted, if_pos hcounted]
        exact Nat.le_add_right ..
      split
      · unfold udpSnip
        split
        · exact h.drop (by omega)
        · have hlen := length_iphcNhcUdpEncode_le hdr.data
          exact h.removed (by omega) hcounted hahead (by omega)
      · split
        · rename_i h41
          -- there is no snip behind, so that nothing is compressed
          obtain rfl : rest = [] := by
            have := hipv6 h41
            rw [length_cons] at this
            exact eq_nil_of_length_eq_zero (by omega)
          unfold ipv6Snip
          split
          · exact h.drop (by omega)
          · have hfront : (ipv6Front (hdr.data 6)).length ≤ 2 := by
              unfold ipv6Front
              split
              · exact Nat.le_succ 1
              · exact Nat.le_refl 2
            exact h.drop (by omega)
        · unfold extSnip
          simp only
          split
          · exact h.drop (by omega)
          · split
            · refine ⟨h.extent, fun _ hnh => ?_⟩
              cases hnh
            · refine h.removed (by omega) hcounted hahead ?_
              rw [length_iphcNhcIpv6ExtEncode _ _ (by omega)]
              split
              · omega
              · rw [compressibleNh_reserved]
                simp
  · exact h

theorem fits_start (stack : Iid) : Fits cfg (cfg.counted (d.ipv6 :: d.rest)) (start l stack d) := by
  have hcounted : cfg.compressible d.ipv6.type = true := by
    rcases d.type_mem with h | h
    · rw [h]
      rfl
    · rw [h]
      rfl
  have hsize := d.size_ge
  have hle := iphcIpv6Extent_le l stack (Ipv6Hdr.ofMem d.ipv6.data)
  have hnh : (Ipv6Hdr.ofMem d.ipv6.data).nh = d.ipv6.data 6 := rfl
  rw [hnh] at hle
  rw [HdrModules.counted, if_pos hcounted]
  unfold start
  refine ⟨?_, fun _ hcomp => ?_⟩
  · simp only
    split at hle
    · omega
    · omega
  · simp only at hcomp ⊢
    rw [if_pos hcomp] at hle
    omega

/-- **The dispatch is large enough**, at any time, for a packet in which the headers compressed are all
counted and none is an encapsulated IPv6 header with a snip behind it. -/
theorem extent_le_allocated (cfg : HdrModules) (l : IphcLink) (stack : Nat → Iid) (mark : Nat → Bool)
    (d : Datagram) (h : ∀ k, Plain cfg (rounds l stack mark d k)) (k : Nat) :
    (rounds l stack mark d k).extent ≤ cfg.allocated d := by
  have hfits : ∀ k, Fits cfg (cfg.counted (d.ipv6 :: d.rest)) (rounds l stack mark d k) := by
    intro k
    induction k with
    | zero => exact fits_start (stack 0)
    | succ k ih => exact ih.round (h k)
  exact (hfits k).extent

/-! ## Packets -/

/-- A node without contexts, with long addresses. -/
def plainLink : IphcLink where
  ctxs := ⟨fun _ => ⟨addrUnspecified, 0, 0⟩, fun _ => Nat.zero_le _, fun _ h => absurd h (Nat.lt_irrefl 0)⟩
  netif := ⟨[1, 2, 3, 4, 5, 6, 7, 8], ieee802154GetIid⟩
  hdr := ⟨[], [8, 7, 6, 5, 4, 3, 2, 1]⟩

def bytesAt (bs : List Byte) (k : Nat) : Byte := bs.getD k 0

/-- An IPv6 header with nothing to elide but its next header. -/
def globalHdr (nh : Byte) : List Byte :=
  [0x6f, 0xff, 0xff, 0xff, 0, 48, nh, 7] ++ [0x20, 0x01, 0x0d, 0xb8, 0, 0, 0, 0, 1, 2, 3, 4, 5, 6, 7, 8] ++
    [0x20, 0x01, 0x0d, 0xb9, 0, 0, 0, 0, 8, 7, 6, 5, 4, 3, 2, 1]

/-- A UDP datagram. -/
def udpDatagram : Datagram where
  ipv6 := ⟨.ipv6, bytesAt (globalHdr 17), 40⟩
  rest := [⟨.udp, bytesAt [0xf0, 0xb1, 0x16, 0x33, 0, 10, 0xab, 0xcd], 8⟩, ⟨.undef, bytesAt [1, 2], 2⟩]
  size_ge := le_rfl
  type_mem := .inl rfl

theorem round_ended {stack : Iid} {mark : Bool} (h : ¬ (s.live ∧ compressibleNh s.nh)) :
    s.round l stack mark = s := by
  unfold Enc.round
  rw [if_neg h]

theorem rounds_udp (k : Nat) :
    (rounds plainLink (fun _ => Vector.replicate 8 0) (fun _ => true) udpDatagram (k + 1)).nh = protnumReserved := by
  induction k with
  | zero => decide +kernel
  | succ k ih =>
    rw [rounds, round_ended]
    · exact ih
    · rw [ih, compressibleNh_reserved]
      simp

theorem extent_le_allocated_udp :
    (rounds plainLink (fun _ => Vector.replicate 8 0) (fun _ => true) udpDatagram 2).extent
      ≤ (⟨true, true⟩ : HdrModules).allocated udpDatagram := by
  refine extent_le_allocated ⟨true, true⟩ plainLink _ _ udpDatagram (fun k => ?_) 2
  cases k with
  | zero =>
    intro _ _
    refine ⟨fun hdr hhead => ?_, fun h41 => absurd h41 (by decide)⟩
    cases hhead
    rfl
  | succ k =>
    intro _ hnh
    rw [rounds_udp, compressibleNh_reserved] at hnh
    cases hnh

/-- An echo reply in an IPv6 header in two others. -/
def nestedDatagram : Datagram where
  ipv6 := ⟨.ipv6, bytesAt (globalHdr 41), 40⟩
  rest := [⟨.ipv6, bytesAt (globalHdr 41), 40⟩, ⟨.ipv6, bytesAt (globalHdr 58), 40⟩,
    ⟨.other, bytesAt ([129, 0, 0xab, 0xcd, 0, 1, 1, 2] ++ List.replicate 40 0x61), 48⟩]
  size_ge := le_rfl
  type_mem := .inl rfl

/-- The second and the third header take 41 and 42 bytes. -/
theorem not_extent_le_allocated :
    ¬ ∀ (cfg : HdrModules) (l : IphcLink) (stack : Nat → Iid) (mark : Nat → Bool) (d : Datagram) (k : Nat),
      (rounds l stack mark d k).extent ≤ cfg.allocated d := by
  intro h
  have hle := h ⟨true, true⟩ plainLink (fun _ => Vector.replicate 8 0) (fun _ => true) nestedDatagram 2
  exact absurd hle (by decide +kernel)

end Enc

end Riot.Sixlowpan
