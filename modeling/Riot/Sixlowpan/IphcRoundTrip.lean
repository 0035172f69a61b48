import Riot.Sixlowpan.Iphc

/-!
# Decompressing a compressed header

What `_iphc_ipv6_encode` writes is, phase by phase, some dispatch bits and some bytes behind the
dispatch. For each phase the decoder, on these bits and where these bytes stand at its cursor,
returns what the encoder was given.

The decoder restores the header, but for the length, which is not compressed, and for the next
header where it is left to the next-header compression. Three kinds of header are lost: a multicast
destination in the unicast-prefix form, whose last four bytes the decoder takes two bytes too far
behind; a multicast source address of link-local scope, which the encoder takes for a link-local
unicast address; and an address with a context that keeps bits behind its prefix length.
-/

namespace Riot.Sixlowpan

open Riot.Lib Riot.Ipv6 List Reads

/-! ## Traffic class and flow label -/

section Bits

theorem byte_cases {i : Nat} (hi : i < 8) :
    i = 0 ∨ i = 1 ∨ i = 2 ∨ i = 3 ∨ i = 4 ∨ i = 5 ∨ i = 6 ∨ i = 7 := by
  omega

variable {v : VTcFl}

namespace VTcFl

theorem getFl_high (v : VTcFl) : ((v.getFl &&& 0x000f0000) >>> 16).setWidth 8 = v.u1 &&& 0x0f#8 := by
  unfold getFl ntohl
  ext i hi
  rcases byte_cases hi with h | h | h | h | h | h | h | h <;> subst h <;> simp

theorem getFl_mid (v : VTcFl) : ((v.getFl &&& 0x0000ff00) >>> 8).setWidth 8 = v.u2 := by
  unfold getFl ntohl
  ext i hi
  rcases byte_cases hi with h | h | h | h | h | h | h | h <;> subst h <;> simp

theorem getFl_low (v : VTcFl) : (v.getFl &&& 0x000000ff).setWidth 8 = v.u3 := by
  unfold getFl ntohl
  ext i hi
  rcases byte_cases hi with h | h | h | h | h | h | h | h <;> subst h <;> simp

theorem getTc_high (v : VTcFl) : 0x0f#8 &&& v.getTc >>> 4 = v.u0 &&& 0x0f#8 := by
  unfold getTc
  ext i hi
  rcases byte_cases hi with h | h | h | h | h | h | h | h <;> subst h <;> simp

theorem getTc_low (v : VTcFl) : 0xf0#8 &&& v.getTc <<< 4 = v.u1 &&& 0xf0#8 := by
  unfold getTc
  ext i hi
  rcases byte_cases hi with h | h | h | h | h | h | h | h <;> subst h <;> simp

theorem getTcDscp_low (v : VTcFl) : 0xf0#8 &&& v.getTcDscp <<< 4 = v.u1 &&& 0xf0#8 := by
  unfold getTcDscp
  ext i hi
  rcases byte_cases hi with h | h | h | h | h | h | h | h <;> subst h <;> simp

theorem getTcDscp_high (v : VTcFl) : 0x03#8 &&& v.getTcDscp >>> 4 = v.u0 &&& 0x03#8 := by
  unfold getTcDscp
  ext i hi
  rcases byte_cases hi with h | h | h | h | h | h | h | h <;> subst h <;> simp

/-- The two bits of the ECN field, carried with the first bits of the flow label. -/
theorem getTcEcn_carried (v : VTcFl) (x : Byte) :
    0x0c#8 &&& ((v.getTcEcn <<< 6 ||| (x &&& 0x0f#8)) >>> 6) <<< 2 = v.u0 &&& 0x0c#8 := by
  unfold getTcEcn
  ext i hi
  rcases byte_cases hi with h | h | h | h | h | h | h | h <;> subst h <;> simp

theorem carried_low (x y : Byte) : (x <<< 6 ||| (y &&& 0x0f#8)) &&& 0x0f#8 = y &&& 0x0f#8 := by
  ext i hi
  rcases byte_cases hi with h | h | h | h | h | h | h | h <;> subst h <;> simp

theorem and_or_and (x : Byte) : x &&& 0xf0#8 ||| (x &&& 0x0f#8) = x := by
  ext i hi
  rcases byte_cases hi with h | h | h | h | h | h | h | h <;> subst h <;> simp

theorem and_split_low (x : Byte) : x &&& 0x0c#8 ||| (x &&& 0x03#8) = x &&& 0x0f#8 := by
  ext i hi
  rcases byte_cases hi with h | h | h | h | h | h | h | h <;> subst h <;> simp

theorem IsIpv6.u0 (h : v.IsIpv6) : 0x60#8 ||| (v.u0 &&& 0x0f#8) = v.u0 := by
  rw [← h]
  exact and_or_and v.u0

theorem u1_of_getFl (h : v.getFl = 0) : v.u1 &&& 0x0f#8 = 0 := by
  rw [← getFl_high, h]
  rfl

theorem u2_of_getFl (h : v.getFl = 0) : v.u2 = 0 := by
  rw [← getFl_mid, h]
  rfl

theorem u3_of_getFl (h : v.getFl = 0) : v.u3 = 0 := by
  rw [← getFl_low, h]
  rfl

end VTcFl

end Bits

/-! ## The bytes of an address -/

section Addresses

variable {a b : Addr} {i j k n : Nat} {bs : List Byte}

theorem length_slice (h : i + n ≤ 16) : (slice a i n).length = n := by
  unfold slice
  rw [length_take, length_drop, Vector.length_toList]
  omega

theorem getD_slice {x : Byte} (h : k < n) (hle : i + n ≤ 16) : (slice a i n).getD k x = a[i + k] := by
  rw [getD_eq_getElem _ _ (by rw [length_slice hle]; exact h)]
  simp [slice]

theorem getElem_putBytes (h : k < 16) :
    (putBytes a i bs)[k] = if i ≤ k then bs.getD (k - i) a[k] else a[k] := by
  simp [putBytes]

theorem getElem_putBytes_slice (hle : i + n ≤ 16) (h : k < 16) :
    (putBytes a i (slice b i n))[k] = if i ≤ k ∧ k < i + n then b[k] else a[k] := by
  rw [getElem_putBytes h]
  by_cases hik : i ≤ k
  · rw [if_pos hik]
    by_cases hkn : k < i + n
    · rw [if_pos ⟨hik, hkn⟩, getD_slice (by omega) hle]
      congr 1
      omega
    · rw [if_neg (fun hc => hkn hc.2)]
      have hlen : (slice b i n).length ≤ k - i := by
        rw [length_slice hle]
        omega
      simp [getD, getElem?_eq_none hlen]
  · rw [if_neg hik, if_neg (fun hc => hik hc.1)]

theorem ZeroBytes.getElem (h : ZeroBytes a i j) (hi : i ≤ k) (hj : k < j) (hle : j ≤ 16) : a[k] = 0 := by
  have hlt : k - i < j - i := by omega
  have hget := @getD_slice a i (k - i) (j - i) 0 hlt (by omega)
  rw [h] at hget
  have hk : i + (k - i) = k := by omega
  simp only [hk] at hget
  rw [← hget, getD_eq_getElem _ _ (by simpa using hlt), getElem_replicate]

theorem putBytes_iid (ha : a = addrUnspecified) (hk : k < 16) :
    (putBytes a 8 (slice b 8 8))[k] = if 8 ≤ k then b[k] else 0 := by
  subst ha
  rw [getElem_putBytes_slice (by omega) hk]
  by_cases h8 : 8 ≤ k
  · rw [if_pos ⟨h8, by omega⟩, if_pos h8]
  · rw [if_neg (fun hc => h8 hc.1), if_neg h8]
    simp [addrUnspecified]

theorem putBytes_short (h : slice b 8 6 = shortIid) :
    putBytes (putBytes a 8 shortIid) 14 (slice b 14 2) = putBytes a 8 (slice b 8 8) := by
  rw [← h]
  ext k hk : 1
  rw [getElem_putBytes_slice (by omega) hk, getElem_putBytes_slice (by omega) hk,
    getElem_putBytes_slice (by omega) hk]
  by_cases h14 : 14 ≤ k
  · rw [if_pos ⟨h14, by omega⟩, if_pos ⟨by omega, by omega⟩]
  · rw [if_neg (fun hc => h14 hc.1)]
    by_cases h8 : 8 ≤ k
    · rw [if_pos ⟨h8, by omega⟩, if_pos ⟨h8, by omega⟩]
    · rw [if_neg (fun hc => h8 hc.1), if_neg (fun hc => h8 hc.1)]

theorem setLinkLocalPrefix_iid (h : slice b 0 8 = linkLocalPrefix) :
    setLinkLocalPrefix (putBytes a 8 (slice b 8 8)) = b := by
  unfold setLinkLocalPrefix
  rw [← h]
  ext k hk : 1
  rw [getElem_putBytes_slice (by omega) hk, getElem_putBytes_slice (by omega) hk]
  by_cases h8 : 8 ≤ k
  · rw [if_neg (fun hc => by omega), if_pos ⟨h8, by omega⟩]
  · rw [if_pos ⟨by omega, by omega⟩]

theorem putBytes_setLinkLocalPrefix (h : slice b 0 8 = linkLocalPrefix) :
    putBytes (setLinkLocalPrefix a) 8 (slice b 8 8) = b := by
  unfold setLinkLocalPrefix
  rw [← h]
  ext k hk : 1
  rw [getElem_putBytes_slice (by omega) hk, getElem_putBytes_slice (by omega) hk]
  by_cases h8 : 8 ≤ k
  · rw [if_pos ⟨h8, by omega⟩]
  · rw [if_neg (fun hc => h8 hc.1), if_pos ⟨by omega, by omega⟩]

theorem putBytes_full : putBytes a 0 (slice b 0 16) = b := by
  ext k hk : 1
  rw [getElem_putBytes_slice (by omega) hk, if_pos ⟨by omega, by omega⟩]

end Addresses

/-! ## Contexts -/

section Contexts

variable {t : CtxTable} {addr : Addr} {c : Ctx}

/-- What the encoder knows of a context that it compresses an address with. -/
structure Covers (t : CtxTable) (addr : Addr) (c : Ctx) : Prop where
  lookup : t.lookupId c.cid.toNat = some c
  len : c.prefixLen ≤ 128
  agree : AgreeTo c.prefixLen (bit c.pfx) (bit addr)
  agree64 : AgreeTo iphcPrefixLen (bit c.pfx) (bit addr)
  comp : c.Comp

theorem compCtx_covers (h : compCtx t addr = some c) : Covers t addr c := by
  obtain ⟨hlookup, hkeep⟩ := Option.filter_eq_some_iff.mp h
  obtain ⟨hcomp, hmatch⟩ := of_decide_eq_true hkeep
  obtain ⟨id, hid, hvalid, hlen⟩ := CtxTable.lookupAddr_some hlookup
  have hle : c.prefixLen ≤ 128 := by
    rw [← hid]
    exact t.prefixLen_le id
  have hprefix : c.prefixLen ≤ matchPrefix c.pfx addr := by
    rw [← hid]
    exact hlen
  refine ⟨?_, hle, (le_matchPrefix hle).mp hprefix, ?_, hcomp⟩
  · rw [← hid]
    exact CtxTable.lookupId_cid hvalid
  · exact (le_matchPrefix (by decide)).mp (Nat.le_of_not_lt hmatch)

theorem srcCtx_covers {h : Ipv6Hdr} (hc : srcCtx t h = some c) : Covers t h.src c := by
  unfold srcCtx at hc
  split at hc
  · cases hc
  · exact compCtx_covers hc

theorem dstCtx_covers {h : Ipv6Hdr} (hc : dstCtx t h = some c) : Covers t h.dst c := by
  unfold dstCtx at hc
  split at hc
  · cases hc
  · exact compCtx_covers hc

theorem Covers.restore (h : Covers t addr c) (hclean : c.Clean) :
    initPrefix (putBytes addrUnspecified 8 (slice addr 8 8)) c.pfx c.prefixLen = addr := by
  apply addr_ext
  funext i
  rw [bit_initPrefix h.len]
  by_cases hi : i < c.prefixLen
  · rw [if_pos hi]
    exact h.agree i hi
  · rw [if_neg hi]
    rcases Nat.lt_or_ge i 128 with h128 | h128
    · have hbyte : i / 8 < 16 := by omega
      rw [bit_eq hbyte, putBytes_iid rfl hbyte]
      by_cases h64 : i < 64
      · -- neither the prefix nor the identifier: zero in the context, hence in the address
        rw [if_neg (by omega), ← h.agree64 i h64, hclean i (by omega) h64]
        simp
      · rw [if_pos (by omega), bit_eq hbyte]
    · rw [bit_of_le h128, bit_of_le h128]

theorem contextOverlapsIid_comp {ctx : Option Ctx} {iid : Iid}
    (h : ∀ c, ctx = some c → c.Comp) : contextOverlapsIid ctx addr iid = false := by
  cases ctx with
  | none => rfl
  | some c =>
    unfold contextOverlapsIid
    simp [h c rfl]

/-- The identifier of a context as the decoder gets it: from the extension, or zero. -/
def Named (m : Nat → Byte) (lo : Nat) (iphc2 : Byte) (id : Byte → Byte) (c : Ctx) : Prop :=
  if iphc2 &&& iphc2CidExt ≠ 0 then 2 < lo ∧ id (m 2) = c.cid else c.cid = 0

variable {m : Nat → Byte} {lo : Nat} {iphc2 stateful form : Byte} {id : Byte → Byte}
  {ctx : Option Ctx}

theorem reads_decodeCtx_stateless (h : iphc2 &&& stateful = 0) :
    Reads m lo (decodeCtx t iphc2 stateful form id ctx) [] ctx := by
  unfold decodeCtx
  rw [if_neg (not_not_intro h)]
  exact pure

theorem reads_decodeCid (hext : iphc2 &&& iphc2CidExt ≠ 0 → 2 < lo) :
    Reads m lo (decodeCid iphc2 id) [] (if iphc2 &&& iphc2CidExt ≠ 0 then id (m 2) else 0) := by
  unfold decodeCid
  by_cases h : iphc2 &&& iphc2CidExt ≠ 0
  · rw [if_pos h, if_pos h]
    exact (peek (hext h)).bind_nil pure
  · rw [if_neg h, if_neg h]
    exact pure

theorem reads_decodeCtx_unused (hform : iphc2 &&& form = 0) (hext : iphc2 &&& iphc2CidExt ≠ 0 → 2 < lo) :
    Reads m lo (decodeCtx t iphc2 stateful form id ctx) [] ctx := by
  unfold decodeCtx
  split
  · refine (reads_decodeCid hext).bind_nil ?_
    rw [if_neg (not_not_intro hform)]
    exact pure
  · exact pure

theorem reads_decodeCtx (hstateful : iphc2 &&& stateful ≠ 0) (hform : iphc2 &&& form ≠ 0)
    (hlookup : t.lookupId c.cid.toNat = some c) (hname : Named m lo iphc2 id c) :
    Reads m lo (decodeCtx t iphc2 stateful form id ctx) [] (some c) := by
  unfold decodeCtx
  rw [if_pos hstateful]
  have hext : iphc2 &&& iphc2CidExt ≠ 0 → 2 < lo := by
    intro h
    unfold Named at hname
    rw [if_pos h] at hname
    exact hname.1
  have hid : (if iphc2 &&& iphc2CidExt ≠ 0 then id (m 2) else 0) = c.cid := by
    unfold Named at hname
    split
    · rename_i h
      rw [if_pos h] at hname
      exact hname.2
    · rename_i h
      rw [if_neg h] at hname
      exact hname.symm
  refine (reads_decodeCid hext).bind_nil ?_
  rw [if_pos hform, hid]
  exact (ofOption hlookup).bind_nil pure

end Contexts

/-! ## The first dispatch byte -/

section First

/-- The bits and the bytes for traffic class and flow label. -/
def tfForm (v : VTcFl) : Byte × List Byte :=
  if v.getFl = 0 then
    if v.getTc = 0 then (tfEcnElide, []) else (tfEcnDscp, [v.getTc])
  else if v.getTcDscp = 0 then (tfEcnFl, [v.getTcEcn <<< 6 ||| (v.u1 &&& 0x0f#8), v.u2, v.u3])
  else (tfEcnDscpFl, [v.getTc, v.u1 &&& 0x0f#8, v.u2, v.u3])

def nhForm (nh : Byte) : Byte × List Byte :=
  if compressibleNh nh then (iphc1Nh, []) else (0, [nh])

def hlForm (hl : Byte) : Byte × List Byte :=
  if hl = 1 then (hl1, []) else if hl = 64 then (hl64, []) else if hl = 255 then (hl255, [])
  else (hlInline, [hl])

variable {m : Nat → Byte} {lo : Nat} {b : IphcBuf} {v : VTcFl} {iphc1 nh hl : Byte}

theorem encodeTf_eq : encodeTf v b = (b.or1 (tfForm v).1).put (tfForm v).2 := by
  unfold encodeTf tfForm
  simp only [VTcFl.getFl_high, VTcFl.getFl_mid, VTcFl.getFl_low]
  split
  · split <;> simp [IphcBuf.put, IphcBuf.or1]
  · split <;> simp [IphcBuf.put, IphcBuf.or1]

theorem encodeNh_eq : encodeNh nh b = (b.or1 (nhForm nh).1).put (nhForm nh).2 := by
  unfold encodeNh nhForm
  split <;> simp [IphcBuf.put, IphcBuf.or1]

theorem encodeHl_eq : encodeHl hl b = (b.or1 (hlForm hl).1).put (hlForm hl).2 := by
  unfold encodeHl hlForm
  split
  · simp [IphcBuf.put, IphcBuf.or1]
  · split
    · simp [IphcBuf.put, IphcBuf.or1]
    · split <;> simp [IphcBuf.put, IphcBuf.or1]

theorem VTcFl.restore_tc (h : v.IsIpv6) :
    (⟨0x60, 0, 0, 0⟩ : VTcFl).setTc v.getTc = ⟨v.u0, v.u1 &&& 0xf0#8, 0, 0⟩ := by
  unfold setTc
  rw [getTc_high, getTc_low]
  have := h.u0
  simpa using this

theorem VTcFl.restore_ecn (h : v.IsIpv6) (hdscp : v.getTcDscp = 0) (x : Byte) :
    ((⟨0x60, 0, 0, 0⟩ : VTcFl).setTcEcn ((v.getTcEcn <<< 6 ||| (x &&& 0x0f#8)) >>> 6)).setTcDscp 0 =
      ⟨v.u0, 0, 0, 0⟩ ∧ v.u1 &&& 0xf0#8 = 0 := by
  have hlow := getTcDscp_low v
  have hhigh := getTcDscp_high v
  rw [hdscp] at hlow hhigh
  refine ⟨?_, by rw [← hlow]; rfl⟩
  have h3 : v.u0 &&& 0x03#8 = 0 := by rw [← hhigh]; rfl
  have hc : v.u0 &&& 0x0c#8 = v.u0 &&& 0x0f#8 := by
    rw [← and_split_low, h3]
    simp
  have hu0 := h.u0
  unfold setTcEcn setTcDscp
  rw [getTcEcn_carried, hc]
  have hfix : (0x60#8 &&& 0xf3#8 ||| (v.u0 &&& 0x0f#8)) &&& 0xfc#8 = v.u0 := by
    have hsplit : (0x60#8 &&& 0xf3#8 ||| (v.u0 &&& 0x0f#8)) = v.u0 := by
      simp [hu0]
    rw [hsplit]
    have hall : ∀ x : Byte, x &&& 0x03#8 = 0 → x &&& 0xfc#8 = x := by decide +kernel
    exact hall _ h3
  simpa using hfix

theorem reads_decodeTf (hv : v.IsIpv6) (hbits : iphc1 &&& iphc1Tf = (tfForm v).1) :
    Reads m lo (decodeTf iphc1 ⟨0x60, 0, 0, 0⟩) (tfForm v).2 v := by
  have hu1 := VTcFl.and_or_and v.u1
  unfold tfForm at hbits ⊢
  unfold decodeTf
  split at hbits
  · rename_i hfl
    have h1 := VTcFl.u1_of_getFl hfl
    have h2 := VTcFl.u2_of_getFl hfl
    have h3 := VTcFl.u3_of_getFl hfl
    have hu1' : v.u1 &&& 0xf0#8 = v.u1 := by
      rw [h1] at hu1
      simpa using hu1
    have hzero : (⟨v.u0, v.u1 &&& 0xf0#8, 0, 0⟩ : VTcFl).setFl 0 = v := by
      unfold VTcFl.setFl
      cases v
      simp_all
    rw [if_pos hfl]
    split at hbits
    · rename_i htc
      have hset := VTcFl.restore_tc hv
      rw [htc] at hset
      rw [if_pos htc, if_neg (by rw [hbits]; decide), if_neg (by rw [hbits]; decide),
        if_neg (by rw [hbits]; decide)]
      refine pure_eq ?_
      rw [hset, hzero]
    · rename_i htc
      have hbits : iphc1 &&& iphc1Tf = tfEcnDscp := hbits
      rw [if_neg htc, if_neg (by rw [hbits]; decide), if_neg (by rw [hbits]; decide), if_pos hbits]
      refine next_bind (pure_eq ?_)
      rw [VTcFl.restore_tc hv, hzero]
  · rename_i hfl
    rw [if_neg hfl]
    split at hbits
    · rename_i hdscp
      have hbits : iphc1 &&& iphc1Tf = tfEcnFl := hbits
      rw [if_pos hdscp, if_neg (by rw [hbits]; decide), if_pos hbits]
      refine next_bind (next_bind (next_bind (pure_eq ?_)))
      obtain ⟨hset, hhigh⟩ := VTcFl.restore_ecn hv hdscp v.u1
      rw [hset, VTcFl.carried_low]
      cases v
      simp_all
    · rename_i hdscp
      rw [if_neg hdscp, if_pos hbits]
      refine next_bind (next_bind (next_bind (next_bind (pure_eq ?_))))
      have hidem : v.u1 &&& 0x0f#8 &&& 0x0f#8 = v.u1 &&& 0x0f#8 := by
        rw [BitVec.and_assoc]
        rfl
      rw [VTcFl.restore_tc hv]
      rw [hidem, hu1]
      simp

/-- A next header carried inline is restored, one left to the next-header compression is zero. -/
theorem reads_decodeNh (hbits : iphc1 &&& iphc1Nh = (nhForm nh).1) :
    Reads m lo (decodeNh iphc1) (nhForm nh).2 (if compressibleNh nh then 0 else nh) := by
  unfold nhForm at hbits ⊢
  unfold decodeNh
  split at hbits
  · rename_i hc
    rw [if_pos hc, if_neg (by rw [hbits]; decide), if_pos hc]
    exact pure
  · rename_i hc
    rw [if_neg hc, if_pos hbits, if_neg hc]
    exact next

theorem reads_decodeHl (hbits : iphc1 &&& iphc1Hl = (hlForm hl).1) :
    Reads m lo (decodeHl iphc1) (hlForm hl).2 hl := by
  unfold hlForm at hbits ⊢
  unfold decodeHl
  split at hbits
  · rename_i h
    rw [if_pos h, if_neg (by rw [hbits]; decide), if_pos hbits]
    exact pure_eq h.symm
  · rename_i h1
    split at hbits
    · rename_i h
      rw [if_neg h1, if_pos h, if_neg (by rw [hbits]; decide), if_neg (by rw [hbits]; decide),
        if_pos hbits]
      exact pure_eq h.symm
    · rename_i h64
      split at hbits
      · rename_i h
        rw [if_neg h1, if_neg h64, if_pos h, if_neg (by rw [hbits]; decide),
          if_neg (by rw [hbits]; decide), if_neg (by rw [hbits]; decide)]
        exact pure_eq h.symm
      · rename_i h255
        rw [if_neg h1, if_neg h64, if_neg h255, if_pos hbits]
        exact next

end First

/-! ## Addresses with a prefix that is not carried -/

section Forms

theorem and_part {x mask k y : Byte} (h : x &&& mask = y) (hk : mask &&& k = k) : x &&& k = y &&& k := by
  rw [← h, BitVec.and_assoc, hk]

/-- The bits and the bytes for an identifier. -/
def iidForm (addr : Addr) (iid : Iid) (l2 b16 b64 : Byte) : Byte × List Byte :=
  if slice addr 8 8 = iid.toList then (l2, [])
  else if slice addr 8 6 = shortIid then (b16, slice addr 14 2)
  else (b64, slice addr 8 8)

variable {t : CtxTable} {netif netif' : Netif} {hdr hdr' : NetifHdr} {m : Nat → Byte} {lo : Nat}
  {i1 i2 iphc2 : Byte} {ext l : List Byte} {ctx : Option Ctx} {src dst addr : Addr} {b b' : IphcBuf}

variable {a : Addr} {bits : Byte} {c : Ctx} {iid : Iid} {i : Nat}

theorem encodeIid_eq {l2 b16 b64 : Byte} (h : ∀ c, ctx = some c → c.Comp) :
    encodeIid ctx addr iid l2 b16 b64 b =
      (b.or2 (iidForm addr iid l2 b16 b64).1).put (iidForm addr iid l2 b16 b64).2 := by
  unfold encodeIid iidForm
  rw [contextOverlapsIid_comp h]
  by_cases hl2 : slice addr 8 8 = iid.toList
  · rw [if_pos (.inl hl2), if_pos hl2]
    simp [IphcBuf.put, IphcBuf.or2]
  · rw [if_neg (by simpa using hl2), if_neg hl2]
    split <;> rfl

/-- The extension with the context named in it. -/
def named (ctx : Option Ctx) (x : Ctx → Byte) (ext : List Byte) : List Byte :=
  match ctx with
  | some c => ext.modify 0 (· ||| x c)
  | none => ext

/-- What the encoder needs of the context of an address. -/
structure CtxOk (t : CtxTable) (addr : Addr) (ctx : Option Ctx) (ext : List Byte) : Prop where
  covers : ∀ c, ctx = some c → Covers t addr c
  clean : ∀ c, ctx = some c → c.Clean
  room : ∀ c, ctx = some c → c.cid ≠ 0 → ext ≠ []

theorem CtxOk.comp (h : CtxOk t addr ctx ext) : ∀ c, ctx = some c → c.Comp := fun c hc => (h.covers c hc).comp

theorem modify_or_zero {ext : List Byte} : ext.modify 0 (· ||| 0) = ext := by
  cases ext <;> simp

theorem modify_append {f : Byte → Byte} (h : ext ≠ []) : (ext ++ l).modify 0 f = ext.modify 0 f ++ l := by
  cases ext with
  | nil => exact absurd rfl h
  | cons x xs => rfl

/-- The dispatch bits and the bytes of a source address, and that they are decompressed to it. -/
structure SrcCoded (t : CtxTable) (netif : Netif) (src : Addr) (ctx : Option Ctx) (bits : Byte)
    (inline : List Byte) : Prop where
  mask : bits &&& (iphc2Sac ||| iphc2Sam) = bits
  decode : ∀ {netif' : Netif} {hdr' : NetifHdr} {m : Nat → Byte} {lo : Nat} {iphc2 : Byte},
    netif'.iidFromAddr hdr'.srcL2addr = netif.getIid →
    iphc2 &&& (iphc2Sac ||| iphc2Sam) = bits →
    (iphc2 &&& iphc2CidExt ≠ 0 → 2 < lo) →
    (∀ c, ctx = some c → Named m lo iphc2 (· >>> 4) c) →
    ∃ ctx', Reads m lo (decodeCtx t iphc2 iphc2Sac iphc2Sam (· >>> 4) none) [] ctx' ∧
      Reads m lo (decodeSrc netif' hdr' iphc2 ctx' addrUnspecified) inline src

theorem iidForm_cases (addr : Addr) (iid : Iid) (l2 b16 b64 : Byte) :
    slice addr 8 8 = iid.toList ∧ iidForm addr iid l2 b16 b64 = (l2, []) ∨
      slice addr 8 6 = shortIid ∧ iidForm addr iid l2 b16 b64 = (b16, slice addr 14 2) ∨
        iidForm addr iid l2 b16 b64 = (b64, slice addr 8 8) := by
  unfold iidForm
  by_cases hl2 : slice addr 8 8 = iid.toList
  · exact .inl ⟨hl2, if_pos hl2⟩
  · rw [if_neg hl2]
    by_cases h16 : slice addr 8 6 = shortIid
    · exact .inr (.inl ⟨h16, if_pos h16⟩)
    · exact .inr (.inr (if_neg h16))

theorem reads_copy_slice {n : Nat} (h : i + n ≤ 16) :
    Reads m lo (Reader.copy n) (slice addr i n) (slice addr i n) :=
  copy (length_slice h)

theorem reads_srcCtx (hc : Covers t src c)
    (hname : Named m lo iphc2 (· >>> 4) c) (hbits : iphc2 &&& (iphc2Sac ||| iphc2Sam) = bits)
    (hsac : bits &&& iphc2Sac ≠ 0) (hsam : bits &&& iphc2Sam ≠ 0) :
    Reads m lo (decodeCtx t iphc2 iphc2Sac iphc2Sam (· >>> 4) ctx) [] (some c) := by
  refine reads_decodeCtx ?_ ?_ hc.lookup hname
  · rwa [and_part hbits (by decide)]
  · rwa [and_part hbits (by decide)]

theorem srcCoded_ctx (hc : Covers t src c) (hclean : c.Clean) (hiid : netif.getIid = some iid) :
    SrcCoded t netif src (some c) (iphc2Sac ||| (iidForm src iid samL2 sam16 sam64).1)
      (iidForm src iid samL2 sam16 sam64).2 := by
  have hrestore := hc.restore hclean
  rcases iidForm_cases src iid samL2 sam16 sam64 with ⟨hl2, hform⟩ | ⟨h16, hform⟩ | hform
  · rw [hform]
    refine ⟨by decide, fun hsame hbits hext hname => ⟨some c, ?_, ?_⟩⟩
    · exact reads_srcCtx hc (hname c rfl) hbits (by decide) (by decide)
    · unfold decodeSrc
      rw [hbits]
      refine bind_nil (ofOption rfl) ?_
      refine bind_nil (ofOption (hsame.trans hiid)) (pure_eq ?_)
      rw [← hl2]
      exact hrestore
  · rw [hform]
    dsimp only
    refine ⟨by decide, fun hsame hbits hext hname => ⟨some c, ?_, ?_⟩⟩
    · exact reads_srcCtx hc (hname c rfl) hbits (by decide) (by decide)
    · unfold decodeSrc
      rw [hbits]
      refine bind_nil (ofOption rfl) ?_
      refine map (reads_copy_slice (by decide)) (pure_eq ?_)
      rw [putBytes_short h16]
      exact hrestore
  · rw [hform]
    dsimp only
    refine ⟨by decide, fun hsame hbits hext hname => ⟨some c, ?_, ?_⟩⟩
    · exact reads_srcCtx hc (hname c rfl) hbits (by decide) (by decide)
    · unfold decodeSrc
      rw [hbits]
      refine bind_nil (ofOption rfl) ?_
      exact map (reads_copy_slice (by decide)) (pure_eq hrestore)

theorem srcCoded_linkLocal (hll : slice src 0 8 = linkLocalPrefix) (hiid : netif.getIid = some iid) :
    SrcCoded t netif src none (iidForm src iid samL2 sam16 sam64).1
      (iidForm src iid samL2 sam16 sam64).2 := by
  rcases iidForm_cases src iid samL2 sam16 sam64 with ⟨hl2, hform⟩ | ⟨h16, hform⟩ | hform
  · rw [hform]
    refine ⟨by decide, fun hsame hbits hext hname => ⟨none, ?_, ?_⟩⟩
    · refine reads_decodeCtx_stateless ?_
      rw [and_part hbits (by decide)]
      decide
    · unfold decodeSrc
      rw [hbits]
      refine bind_nil (ofOption (hsame.trans hiid)) (pure_eq ?_)
      rw [← hl2]
      exact setLinkLocalPrefix_iid hll
  · rw [hform]
    dsimp only
    refine ⟨by decide, fun hsame hbits hext hname => ⟨none, ?_, ?_⟩⟩
    · refine reads_decodeCtx_stateless ?_
      rw [and_part hbits (by decide)]
      decide
    · unfold decodeSrc
      dsimp only
      rw [hbits]
      refine map (reads_copy_slice (by decide)) (pure_eq ?_)
      rw [putBytes_short h16]
      exact putBytes_setLinkLocalPrefix hll
  · rw [hform]
    dsimp only
    refine ⟨by decide, fun hsame hbits hext hname => ⟨none, ?_, ?_⟩⟩
    · refine reads_decodeCtx_stateless ?_
      rw [and_part hbits (by decide)]
      decide
    · unfold decodeSrc
      dsimp only
      rw [hbits]
      exact map (reads_copy_slice (by decide))
        (pure_eq (putBytes_setLinkLocalPrefix hll))

theorem srcCoded_unspecified (h : src = addrUnspecified) : SrcCoded t netif src ctx samUnspec [] := by
  refine ⟨by decide, fun hsame hbits hext hname => ⟨none, ?_, ?_⟩⟩
  · refine reads_decodeCtx_unused ?_ hext
    rw [and_part hbits (by decide)]
    decide
  · unfold decodeSrc
    rw [hbits]
    exact pure_eq h.symm

theorem srcCoded_full : SrcCoded t netif src none samFull (slice src 0 16) := by
  refine ⟨by decide, fun hsame hbits hext hname => ⟨none, ?_, ?_⟩⟩
  · refine reads_decodeCtx_stateless ?_
    rw [and_part hbits (by decide)]
    decide
  · unfold decodeSrc
    rw [hbits]
    exact map (reads_copy_slice (by decide)) (pure_eq putBytes_full)

theorem nameCtx_eq {stateful : Byte} {x : Ctx → Byte} (hok : CtxOk t addr ctx ext)
    (hx : ∀ c, c.cid = 0 → x c = 0) :
    nameCtx stateful x ctx ⟨i1, i2, ext ++ l⟩ =
      ⟨i1, i2 ||| (if ctx.isSome then stateful else 0), named ctx x ext ++ l⟩ := by
  cases ctx with
  | none =>
    unfold nameCtx named
    simp
  | some c =>
    unfold nameCtx named IphcBuf.orCid IphcBuf.or2
    dsimp only
    split
    · rename_i hcid
      rw [modify_append (hok.room c rfl hcid)]
      rfl
    · rename_i hcid
      rw [hx c (Decidable.not_not.mp hcid), modify_or_zero]
      rfl

theorem encodeSrc_coded (hok : CtxOk t src ctx ext) (hun : src = addrUnspecified → ctx = none)
    (hll : ctx = none → isLinkLocal src → slice src 0 8 = linkLocalPrefix)
    (henc : encodeSrc netif ctx src ⟨i1, i2, ext ++ l⟩ = some b') :
    ∃ bits inline, b' = ⟨i1, i2 ||| bits, named ctx (·.cid <<< 4) ext ++ (l ++ inline)⟩ ∧
      SrcCoded t netif src ctx bits inline := by
  have hshift : ∀ c : Ctx, c.cid = 0 → c.cid <<< 4 = 0 := by
    intro c hc
    rw [hc]
    rfl
  unfold encodeSrc at henc
  split at henc
  · rename_i hsrc
    have hb := Option.some.inj henc
    have hnone := hun hsrc
    subst hb hnone
    exact ⟨samUnspec, [], by simp [named, IphcBuf.or2], srcCoded_unspecified hsrc⟩
  · dsimp only at henc
    rw [nameCtx_eq hok hshift] at henc
    split at henc
    · rename_i hcomp
      obtain ⟨iid, hiid, hb⟩ := Option.map_eq_some_iff.mp henc
      rw [encodeIid_eq hok.comp] at hb
      subst hb
      refine ⟨(if ctx.isSome then iphc2Sac else 0) ||| (iidForm src iid samL2 sam16 sam64).1,
        (iidForm src iid samL2 sam16 sam64).2, ?_, ?_⟩
      · unfold IphcBuf.put IphcBuf.or2
        rw [BitVec.or_assoc, append_assoc]
      · cases ctx with
        | none =>
          have hll' := hll rfl (by simpa using hcomp)
          simpa using srcCoded_linkLocal hll' hiid
        | some c => exact srcCoded_ctx (hok.covers c rfl) (hok.clean c rfl) hiid
    · rename_i hcomp
      have hnone : ctx = none := by
        cases ctx with
        | none => rfl
        | some c => exact absurd (.inl rfl) hcomp
      have hb := Option.some.inj henc
      subst hb hnone
      refine ⟨samFull, slice src 0 16, ?_, srcCoded_full⟩
      unfold IphcBuf.put IphcBuf.or2
      simp

/-- The dispatch bits and the bytes of a destination address, and that they are decompressed to
it, whatever context the source address has left. -/
structure DstCoded (t : CtxTable) (netif : Netif) (hdr : NetifHdr) (dst : Addr) (ctx : Option Ctx)
    (bits : Byte) (inline : List Byte) : Prop where
  mask : bits &&& (iphc2M ||| iphc2Dac ||| iphc2Dam) = bits
  decode : ∀ {netif' : Netif} {hdr' : NetifHdr} {m : Nat → Byte} {lo : Nat} {iphc2 : Byte}
    {ctx₀ : Option Ctx},
    netif'.iidFromAddr hdr'.dstL2addr = netif.iidFromAddr hdr.dstL2addr →
    iphc2 &&& (iphc2M ||| iphc2Dac ||| iphc2Dam) = bits →
    (∀ c, ctx = some c → Named m lo iphc2 (· &&& 0x0f) c) →
    ∃ ctx', Reads m lo (decodeCtx t iphc2 iphc2Dac (iphc2M ||| iphc2Dam) (· &&& 0x0f) ctx₀) [] ctx' ∧
      Reads m lo (decodeDst netif' hdr' iphc2 ctx' addrUnspecified) inline dst

theorem reads_dstCtx (hc : Covers t dst c) (hname : Named m lo iphc2 (· &&& 0x0f) c)
    (hbits : iphc2 &&& (iphc2M ||| iphc2Dac ||| iphc2Dam) = bits)
    (hdac : bits &&& iphc2Dac ≠ 0) (hdam : bits &&& (iphc2M ||| iphc2Dam) ≠ 0) :
    Reads m lo (decodeCtx t iphc2 iphc2Dac (iphc2M ||| iphc2Dam) (· &&& 0x0f) ctx) [] (some c) := by
  refine reads_decodeCtx ?_ ?_ hc.lookup hname
  · rwa [and_part hbits (by decide)]
  · rwa [and_part hbits (by decide)]

theorem reads_dstStateless (hbits : iphc2 &&& (iphc2M ||| iphc2Dac ||| iphc2Dam) = bits) (hdac : bits &&& iphc2Dac = 0) :
    Reads m lo (decodeCtx t iphc2 iphc2Dac (iphc2M ||| iphc2Dam) (· &&& 0x0f) ctx) [] ctx := by
  refine reads_decodeCtx_stateless ?_
  rwa [and_part hbits (by decide)]

theorem dstCoded_ctx (hc : Covers t dst c) (hclean : c.Clean)
    (hiid : netif.iidFromAddr hdr.dstL2addr = some iid) :
    DstCoded t netif hdr dst (some c) (iphc2Dac ||| (iidForm dst iid damUL2 damU16 damU64).1)
      (iidForm dst iid damUL2 damU16 damU64).2 := by
  have hrestore := hc.restore hclean
  rcases iidForm_cases dst iid damUL2 damU16 damU64 with ⟨hl2, hform⟩ | ⟨h16, hform⟩ | hform
  · rw [hform]
    refine ⟨by decide, fun hsame hbits hname => ⟨some c, ?_, ?_⟩⟩
    · exact reads_dstCtx hc (hname c rfl) hbits (by decide) (by decide)
    · unfold decodeDst
      rw [hbits]
      refine bind_nil (ofOption (hsame.trans hiid)) ?_
      refine bind_nil (ofOption rfl) (pure_eq ?_)
      rw [← hl2]
      exact hrestore
  · rw [hform]
    dsimp only
    refine ⟨by decide, fun hsame hbits hname => ⟨some c, ?_, ?_⟩⟩
    · exact reads_dstCtx hc (hname c rfl) hbits (by decide) (by decide)
    · unfold decodeDst
      rw [hbits]
      refine map (reads_copy_slice (by decide)) ?_
      refine bind_nil (ofOption rfl) (pure_eq ?_)
      rw [putBytes_short h16]
      exact hrestore
  · rw [hform]
    dsimp only
    refine ⟨by decide, fun hsame hbits hname => ⟨some c, ?_, ?_⟩⟩
    · exact reads_dstCtx hc (hname c rfl) hbits (by decide) (by decide)
    · unfold decodeDst
      rw [hbits]
      refine bind_nil (ofOption rfl) ?_
      exact map (reads_copy_slice (by decide)) (pure_eq hrestore)

theorem dstCoded_linkLocal (hll : slice dst 0 8 = linkLocalPrefix)
    (hiid : netif.iidFromAddr hdr.dstL2addr = some iid) :
    DstCoded t netif hdr dst none (iidForm dst iid damUL2 damU16 damU64).1
      (iidForm dst iid damUL2 damU16 damU64).2 := by
  rcases iidForm_cases dst iid damUL2 damU16 damU64 with ⟨hl2, hform⟩ | ⟨h16, hform⟩ | hform
  · rw [hform]
    refine ⟨by decide, fun hsame hbits hname => ⟨_, reads_dstStateless hbits (by decide), ?_⟩⟩
    unfold decodeDst
    rw [hbits]
    refine bind_nil (ofOption (hsame.trans hiid)) (pure_eq ?_)
    rw [← hl2]
    exact setLinkLocalPrefix_iid hll
  · rw [hform]
    dsimp only
    refine ⟨by decide, fun hsame hbits hname => ⟨_, reads_dstStateless hbits (by decide), ?_⟩⟩
    unfold decodeDst
    rw [hbits]
    refine map (reads_copy_slice (by decide)) (pure_eq ?_)
    rw [putBytes_short h16]
    exact putBytes_setLinkLocalPrefix hll
  · rw [hform]
    dsimp only
    refine ⟨by decide, fun hsame hbits hname => ⟨_, reads_dstStateless hbits (by decide), ?_⟩⟩
    unfold decodeDst
    rw [hbits]
    exact map (reads_copy_slice (by decide))
      (pure_eq (putBytes_setLinkLocalPrefix hll))

/-- An address carried in full, with or without the bit of a multicast address. -/
theorem dstCoded_full (h : bits = damUFull ∨ bits = damMFull) :
    DstCoded t netif hdr dst none bits (slice dst 0 16) := by
  have hdecide : ∀ bits : Byte, bits = damUFull ∨ bits = damMFull →
      bits &&& (iphc2M ||| iphc2Dac ||| iphc2Dam) = bits ∧ bits &&& iphc2Dac = 0 := by
    decide +kernel
  obtain ⟨hmask, hdac⟩ := hdecide bits h
  refine ⟨hmask, fun hsame hbits hname => ⟨_, reads_dstStateless hbits hdac, ?_⟩⟩
  unfold decodeDst
  rw [hbits, if_pos h]
  exact map (reads_copy_slice (by decide)) (pure_eq putBytes_full)

/-! ## Multicast destinations -/

theorem getElem_putBytes_list {bs : List Byte} {k : Nat} (h : k < 16) :
    (putBytes a i bs)[k] = if i ≤ k ∧ k < i + bs.length then bs.getD (k - i) 0 else a[k] := by
  rw [getElem_putBytes h]
  by_cases hik : i ≤ k
  · rw [if_pos hik]
    by_cases hkn : k < i + bs.length
    · rw [if_pos ⟨hik, hkn⟩, getD_eq_getElem _ _ (by omega), getD_eq_getElem _ _ (by omega)]
    · rw [if_neg (fun hc => hkn hc.2)]
      simp [getD, getElem?_eq_none (show bs.length ≤ k - i by omega)]
  · rw [if_neg hik, if_neg (fun hc => hik hc.1)]

/-- A multicast address of which only the second byte and the bytes from `i` on are not zero. -/
theorem restore_multicast {n : Nat} (hmc : isMulticast dst) (hi : 2 ≤ i) (hin : i + n = 16)
    (hzero : ZeroBytes dst 2 i) :
    putBytes (putBytes addrUnspecified 0 [0xff, dst[1]]) i (slice dst i n) = dst := by
  ext k hk : 1
  rw [getElem_putBytes_slice (by omega) hk]
  by_cases hik : i ≤ k
  · rw [if_pos ⟨hik, by omega⟩]
  · rw [if_neg (fun hc => hik hc.1), getElem_putBytes_list hk]
    by_cases h2 : k < 2
    · match k, h2 with
      | 0, _ => exact hmc.symm
      | 1, _ => rfl
    · rw [if_neg (fun hc => h2 (by simpa using hc.2)), hzero.getElem (by omega) (by omega) (by omega)]
      simp [addrUnspecified]

theorem ZeroBytes.join {j j' k : Nat} (hij : ZeroBytes a i j)
    (hjk : ZeroBytes a j' k) (hj : j' ≤ j) (hjk' : j ≤ k) (hle : k ≤ 16) : ZeroBytes a i k := by
  unfold ZeroBytes
  rcases Nat.lt_or_ge k i with hik | hik
  · have hzero : k - i = 0 := by omega
    rw [hzero]
    simp [slice]
  apply ext_getElem
  · rw [length_slice (by omega), length_replicate]
  · intro n h1 h2
    rw [length_replicate] at h2
    have hget : (slice a i (k - i))[n] = a[i + n] := by simp [slice]
    rw [hget, getElem_replicate]
    rcases Nat.lt_or_ge (i + n) j with hlt | hge
    · exact hij.getElem (by omega) hlt (by omega)
    · exact hjk.getElem (by omega) (by omega) hle

theorem zeroBytes_single (h : i < 16) (ha : a[i] = 0) : ZeroBytes a i (i + 1) := by
  unfold ZeroBytes
  have hone : i + 1 - i = 1 := by omega
  rw [hone]
  apply ext_getElem
  · rw [length_slice (by omega)]
    rfl
  · intro n h1 h2
    have hn : n = 0 := by simpa using h2
    subst hn
    simpa [slice] using ha

theorem slice_head (h : i < 16) : slice a i 1 = [a[i]] := by
  apply ext_getElem
  · rw [length_slice (by omega)]
    rfl
  · intro n h1 h2
    have hn : n = 0 := by simpa using h2
    subst hn
    simp [slice]

/-- What the encoder writes for a multicast address is decompressed to it, but for the unicast
prefix form. -/
theorem encodeMulticast_coded {stack : Iid} (hmc : isMulticast dst)
    (huc : ZeroBytes dst 2 10 ∨ ucCtx t dst stack = none) :
    ∃ bits inline, encodeMulticast t stack dst b = ⟨b.iphc1, b.iphc2 ||| bits, b.rest ++ inline⟩ ∧
      DstCoded t netif hdr dst none bits inline := by
  have hfull : (((b.or2 iphc2M).or2 samFull).put (slice dst 0 16)) =
      ⟨b.iphc1, b.iphc2 ||| damMFull, b.rest ++ slice dst 0 16⟩ := by
    unfold IphcBuf.put IphcBuf.or2
    rw [BitVec.or_assoc]
    rfl
  unfold encodeMulticast
  split
  · rename_i h210
    split
    · rename_i h8
      refine ⟨damM8, [dst[15]], ?_, ⟨by decide, fun hsame hbits hname =>
        ⟨_, reads_dstStateless hbits (by decide), ?_⟩⟩⟩
      · unfold IphcBuf.put IphcBuf.or2
        dsimp only
        rw [BitVec.or_assoc]
        rfl
      · unfold decodeDst
        rw [hbits]
        refine next_bind (pure_eq ?_)
        have hzero : ZeroBytes dst 2 15 := h210.join h8.2 (by decide) (by decide) (by decide)
        have hrestore := restore_multicast hmc (by decide) (show 15 + 1 = 16 from rfl) hzero
        rw [h8.1, slice_head (by decide)] at hrestore
        exact hrestore
    · split
      · rename_i h1013
        refine ⟨damM32, dst[1] :: slice dst 13 3, ?_, ⟨by decide, fun hsame hbits hname =>
          ⟨_, reads_dstStateless hbits (by decide), ?_⟩⟩⟩
        · unfold IphcBuf.put IphcBuf.or2
          dsimp only
          rw [BitVec.or_assoc]
          rfl
        · unfold decodeDst
          rw [hbits]
          refine next_bind (map (reads_copy_slice (by decide)) (pure_eq ?_))
          have hzero : ZeroBytes dst 2 13 := h210.join h1013 (by decide) (by decide) (by decide)
          exact restore_multicast hmc (by decide) (by decide) hzero
      · split
        · rename_i h10
          refine ⟨damM48, dst[1] :: slice dst 11 5, ?_, ⟨by decide, fun hsame hbits hname =>
            ⟨_, reads_dstStateless hbits (by decide), ?_⟩⟩⟩
          · unfold IphcBuf.put IphcBuf.or2
            dsimp only
            rw [BitVec.or_assoc]
            rfl
          · unfold decodeDst
            rw [hbits]
            refine next_bind (map (reads_copy_slice (by decide)) (pure_eq ?_))
            have hzero : ZeroBytes dst 2 11 :=
              h210.join (zeroBytes_single (by decide) h10) (by decide) (by decide) (by decide)
            exact restore_multicast hmc (by decide) (by decide) hzero
        · exact ⟨damMFull, slice dst 0 16, hfull, dstCoded_full (.inr rfl)⟩
  · rename_i h210
    rw [huc.resolve_left h210]
    exact ⟨damMFull, slice dst 0 16, hfull, dstCoded_full (.inr rfl)⟩

theorem encodeUnicast_coded (hok : CtxOk t dst ctx ext) (huni : ¬ isMulticast dst)
    (henc : encodeUnicast netif hdr ctx dst ⟨i1, i2, ext ++ l⟩ = some b') :
    ∃ ctx' bits inline, (ctx' = ctx ∨ ctx' = none) ∧
      b' = ⟨i1, i2 ||| bits, named ctx' (·.cid) ext ++ (l ++ inline)⟩ ∧
        DstCoded t netif hdr dst ctx' bits inline := by
  unfold encodeUnicast at henc
  split at henc
  · rename_i hcomp
    rw [nameCtx_eq hok (fun _ h => h)] at henc
    obtain ⟨iid, hiid, hb⟩ := Option.map_eq_some_iff.mp henc
    rw [encodeIid_eq hok.comp] at hb
    subst hb
    refine ⟨ctx, (if ctx.isSome then iphc2Dac else 0) ||| (iidForm dst iid damUL2 damU16 damU64).1,
      (iidForm dst iid damUL2 damU16 damU64).2, .inl rfl, ?_, ?_⟩
    · unfold IphcBuf.put IphcBuf.or2
      rw [BitVec.or_assoc, append_assoc]
    · cases ctx with
      | none =>
        have hll : isLinkLocal dst := by simpa using hcomp.1
        have hll' := hll.resolve_right (fun h => huni h.1)
        simpa using dstCoded_linkLocal hll' hiid
      | some c => exact dstCoded_ctx (hok.covers c rfl) (hok.clean c rfl) hiid
  · have hb := Option.some.inj henc
    subst hb
    refine ⟨none, damUFull, slice dst 0 16, .inr rfl, ?_, dstCoded_full (.inl rfl)⟩
    unfold IphcBuf.put IphcBuf.or2 named
    simp [samFull, damUFull]

end Forms

/-! ## The whole header -/

section Whole

variable {t : CtxTable} {netif receiver : Netif} {hdr incoming : NetifHdr} {stack : Iid}
  {h : Ipv6Hdr} {b : IphcBuf} {m : Nat → Byte}

/-- The link-layer addresses of a frame reach the receiver as the sender has them, on interfaces of
one kind. -/
structure SameLink (netif : Netif) (hdr : NetifHdr) (receiver : Netif) (incoming : NetifHdr) :
    Prop where
  src : incoming.srcL2addr = netif.l2addr
  dst : incoming.dstL2addr = hdr.dstL2addr
  iid : receiver.iidFromAddr = netif.iidFromAddr

/-- The destination is written in the unicast-prefix form. -/
def UnicastPrefixForm (t : CtxTable) (stack : Iid) (dst : Addr) : Prop :=
  isMulticast dst ∧ ¬ ZeroBytes dst 2 10 ∧ (ucCtx t dst stack).isSome

instance (t : CtxTable) (stack : Iid) (dst : Addr) : Decidable (UnicastPrefixForm t stack dst) :=
  inferInstanceAs (Decidable (_ ∧ _ ∧ _))

/-- A header that is none of those which do not survive. -/
structure Regular (t : CtxTable) (stack : Iid) (h : Ipv6Hdr) : Prop where
  srcClean : ∀ c, srcCtx t h = some c → c.Clean
  dstClean : ∀ c, dstCtx t h = some c → c.Clean
  srcScope : srcCtx t h = none → ¬ (isMulticast h.src ∧ getElem h.src 1 (Nat.le_add_left 2 14) &&& 0x0f = 0x02)
  dstForm : ¬ UnicastPrefixForm t stack h.dst

/-- The header as far as it is carried: no length, and no next header that the next-header
compression carries. -/
def Ipv6Hdr.carried (h : Ipv6Hdr) : Ipv6Hdr :=
  { h with len := 0, nh := if compressibleNh h.nh then 0 else h.nh }

variable {x : Byte}

theorem and_cross {mask k : Byte} (h : x &&& mask = x) (hk : mask &&& k = 0) : x &&& k = 0 := by
  rw [← h, BitVec.and_assoc, hk]
  exact BitVec.and_zero

theorem tfForm_mask (v : VTcFl) : (tfForm v).1 &&& iphc1Tf = (tfForm v).1 := by
  unfold tfForm
  split
  · split
    · decide
    · exact (by decide : tfEcnDscp &&& iphc1Tf = tfEcnDscp)
  · split
    · exact (by decide : tfEcnFl &&& iphc1Tf = tfEcnFl)
    · exact (by decide : tfEcnDscpFl &&& iphc1Tf = tfEcnDscpFl)

theorem nhForm_mask (nh : Byte) : (nhForm nh).1 &&& iphc1Nh = (nhForm nh).1 := by
  unfold nhForm
  split
  · decide
  · exact (by decide : (0 : Byte) &&& iphc1Nh = 0)

theorem hlForm_mask (hl : Byte) : (hlForm hl).1 &&& iphc1Hl = (hlForm hl).1 := by
  unfold hlForm
  split
  · decide
  · split
    · decide
    · split
      · decide
      · exact (by decide : hlInline &&& iphc1Hl = hlInline)

theorem first_fields {tf nh hl : Byte} (htf : tf &&& iphc1Tf = tf) (hnh : nh &&& iphc1Nh = nh)
    (hhl : hl &&& iphc1Hl = hl) :
    (iphc1Disp ||| tf ||| nh ||| hl) &&& iphc1Tf = tf ∧ (iphc1Disp ||| tf ||| nh ||| hl) &&& iphc1Nh = nh ∧
        (iphc1Disp ||| tf ||| nh ||| hl) &&& iphc1Hl = hl := by
  simp only [BitVec.and_or_distrib_right]
  refine ⟨?_, ?_, ?_⟩
  · rw [htf, and_cross hnh (by decide), and_cross hhl (by decide)]
    simp [show iphc1Disp &&& iphc1Tf = 0 by decide]
  · rw [hnh, and_cross htf (by decide), and_cross hhl (by decide)]
    simp [show iphc1Disp &&& iphc1Nh = 0 by decide]
  · rw [hhl, and_cross htf (by decide), and_cross hnh (by decide)]
    simp [show iphc1Disp &&& iphc1Hl = 0 by decide]

theorem second_fields {c s d : Byte} (hc : c &&& iphc2CidExt = c)
    (hs : s &&& (iphc2Sac ||| iphc2Sam) = s) (hd : d &&& (iphc2M ||| iphc2Dac ||| iphc2Dam) = d) :
    (c ||| s ||| d) &&& iphc2CidExt = c ∧ (c ||| s ||| d) &&& (iphc2Sac ||| iphc2Sam) = s ∧
      (c ||| s ||| d) &&& (iphc2M ||| iphc2Dac ||| iphc2Dam) = d := by
  simp only [@BitVec.and_or_distrib_right _ (_ ||| _) d, @BitVec.and_or_distrib_right _ c s]
  refine ⟨?_, ?_, ?_⟩
  · rw [hc, and_cross hs (by decide), and_cross hd (by decide)]
    simp
  · rw [hs, and_cross hc (by decide), and_cross hd (by decide)]
    simp
  · rw [hd, and_cross hc (by decide), and_cross hs (by decide)]
    simp

/-- The extension and the dispatch bit for it. -/
def cidForm (src dst : Option Ctx) : Byte × List Byte :=
  if needsCid src || needsCid dst then (iphc2CidExt, [0]) else (0, [])

theorem cidForm_cases (src dst : Option Ctx) : cidForm src dst = (iphc2CidExt, [0]) ∨
      cidForm src dst = (0, []) ∧ needsCid src = false ∧ needsCid dst = false := by
  unfold cidForm
  split
  · exact .inl rfl
  · rename_i h
    rw [Bool.or_eq_true, not_or] at h
    exact .inr ⟨rfl, Bool.eq_false_iff.mpr h.1, Bool.eq_false_iff.mpr h.2⟩

theorem needsCid_false {ctx : Option Ctx} {c : Ctx} (h : needsCid ctx = false)
    (hc : ctx = some c) : c.cid = 0 := by
  subst hc
  simpa [needsCid] using h

theorem encode_front (src dst : Option Ctx) :
    encodeHl h.hl (encodeNh h.nh (encodeTf h.vTcFl (encodeCid src dst ⟨iphc1Disp, 0, []⟩))) =
      ⟨iphc1Disp ||| (tfForm h.vTcFl).1 ||| (nhForm h.nh).1 ||| (hlForm h.hl).1, (cidForm src dst).1,
        (cidForm src dst).2 ++ ((tfForm h.vTcFl).2 ++ ((nhForm h.nh).2 ++ (hlForm h.hl).2))⟩ := by
  rw [encodeHl_eq, encodeNh_eq, encodeTf_eq]
  unfold encodeCid cidForm IphcBuf.put IphcBuf.or1 IphcBuf.or2
  split <;> simp

theorem cid_low (c : Ctx) : c.cid &&& 0x0f#8 = c.cid := by
  unfold Ctx.cid ctxFlagsCidMask
  rw [BitVec.and_assoc]
  rfl

theorem ext_high {y : Byte} (hx : x &&& 0x0f#8 = x) (hy : y &&& 0x0f#8 = y) :
    (0 ||| x <<< 4 ||| y) >>> 4 = x := by
  rw [← hx, ← hy]
  ext i hi
  rcases byte_cases hi with h | h | h | h | h | h | h | h <;> subst h <;> simp

theorem ext_low {y : Byte} (hx : x &&& 0x0f#8 = x) (hy : y &&& 0x0f#8 = y) :
    (0 ||| x <<< 4 ||| y) &&& 0x0f#8 = y := by
  rw [← hx, ← hy]
  ext i hi
  rcases byte_cases hi with h | h | h | h | h | h | h | h <;> subst h <;> simp

/-- The identifier of a context, zero without one. -/
def cidOf (ctx : Option Ctx) : Byte := (ctx.map Ctx.cid).getD 0

theorem cidOf_low (ctx : Option Ctx) : cidOf ctx &&& 0x0f#8 = cidOf ctx := by
  cases ctx with
  | none => rfl
  | some c => exact cid_low c

theorem named_named (src dst : Option Ctx) (ext : List Byte) :
    named dst (·.cid) (named src (·.cid <<< 4) ext) =
      ext.modify 0 fun x => x ||| cidOf src <<< 4 ||| cidOf dst := by
  cases ext with
  | nil => cases src <;> cases dst <;> rfl
  | cons x xs =>
    cases src <;> cases dst <;> simp [named, cidOf]

theorem length_named (ctx : Option Ctx) (x : Ctx → Byte) (ext : List Byte) :
    (named ctx x ext).length = ext.length := by
  cases ctx <;> simp [named]

/-- The parts of the buffer that the encoder fills, and how the addresses are decompressed. -/
structure Encoded (t : CtxTable) (netif : Netif) (hdr : NetifHdr) (h : Ipv6Hdr) (b : IphcBuf)
    (dctx : Option Ctx) (sbits dbits : Byte) (sinl dinl : List Byte) : Prop where
  bytes : b = ⟨iphc1Disp ||| (tfForm h.vTcFl).1 ||| (nhForm h.nh).1 ||| (hlForm h.hl).1,
    (cidForm (srcCtx t h) (dstCtx t h)).1 ||| sbits ||| dbits,
    (cidForm (srcCtx t h) (dstCtx t h)).2.modify 0
        (fun x => x ||| cidOf (srcCtx t h) <<< 4 ||| cidOf dctx) ++
      ((tfForm h.vTcFl).2 ++ ((nhForm h.nh).2 ++ ((hlForm h.hl).2 ++ (sinl ++ dinl))))⟩
  src : SrcCoded t netif h.src (srcCtx t h) sbits sinl
  dst : DstCoded t netif hdr h.dst dctx dbits dinl
  dctx : dctx = dstCtx t h ∨ dctx = none

theorem srcCtx_ok (hreg : Regular t stack h) :
    CtxOk t h.src (srcCtx t h) (cidForm (srcCtx t h) (dstCtx t h)).2 := by
  refine ⟨fun c hc => srcCtx_covers hc, hreg.srcClean, fun c hc hcid => ?_⟩
  rcases cidForm_cases (srcCtx t h) (dstCtx t h) with hform | ⟨-, hsrc, -⟩
  · rw [hform]
    simp
  · exact absurd (needsCid_false hsrc hc) hcid

theorem dstCtx_ok (hreg : Regular t stack h) : CtxOk t h.dst (dstCtx t h)
      (named (srcCtx t h) (·.cid <<< 4) (cidForm (srcCtx t h) (dstCtx t h)).2) := by
  refine ⟨fun c hc => dstCtx_covers hc, hreg.dstClean, fun c hc hcid => ?_⟩
  rcases cidForm_cases (srcCtx t h) (dstCtx t h) with hform | ⟨-, -, hdst⟩
  · rw [hform]
    intro hnil
    have := length_named (srcCtx t h) (·.cid <<< 4) [0]
    rw [hnil] at this
    simp at this
  · exact absurd (needsCid_false hdst hc) hcid

theorem srcCtx_unspecified (hsrc : h.src = addrUnspecified) : srcCtx t h = none := by
  unfold srcCtx
  rw [if_pos hsrc]

/-- **The encoder.** Of a regular header it writes the parts, one behind the other. -/
theorem iphcIpv6Encode_encoded (hreg : Regular t stack h)
    (henc : iphcIpv6Encode t netif hdr stack h = some b) :
    ∃ dctx sbits dbits sinl dinl, Encoded t netif hdr h b dctx sbits dbits sinl dinl := by
  unfold iphcIpv6Encode at henc
  dsimp only at henc
  rw [encode_front] at henc
  obtain ⟨b1, hsrc, hdst⟩ := Option.bind_eq_some_iff.mp henc
  have hll : srcCtx t h = none → isLinkLocal h.src → slice h.src 0 8 = linkLocalPrefix :=
    fun hnone hll => hll.resolve_right (hreg.srcScope hnone)
  obtain ⟨sbits, sinl, hb1, hscoded⟩ := encodeSrc_coded (srcCtx_ok hreg) srcCtx_unspecified hll hsrc
  subst hb1
  by_cases hmc : isMulticast h.dst
  · rw [if_pos hmc] at hdst
    have hform : ZeroBytes h.dst 2 10 ∨ ucCtx t h.dst stack = none := by
      rcases Decidable.em (ZeroBytes h.dst 2 10) with hz | hz
      · exact .inl hz
      · refine .inr (Option.not_isSome_iff_eq_none.mp fun hsome => ?_)
        exact hreg.dstForm ⟨hmc, hz, hsome⟩
    obtain ⟨dbits, dinl, henc', hdcoded⟩ := encodeMulticast_coded hmc hform
    refine ⟨none, sbits, dbits, sinl, dinl, ?_, hscoded, hdcoded, .inr rfl⟩
    rw [← Option.some.inj hdst, henc']
    have hnamed := named_named (srcCtx t h) none (cidForm (srcCtx t h) (dstCtx t h)).2
    have hnone : named none (·.cid) (named (srcCtx t h) (·.cid <<< 4) (cidForm (srcCtx t h) (dstCtx t h)).2) =
      named (srcCtx t h) (·.cid <<< 4) (cidForm (srcCtx t h) (dstCtx t h)).2 := rfl
    rw [← hnamed, hnone]
    simp
  · rw [if_neg hmc] at hdst
    obtain ⟨dctx, dbits, dinl, hctx, hb, hdcoded⟩ := encodeUnicast_coded (dstCtx_ok hreg) hmc hdst
    refine ⟨dctx, sbits, dbits, sinl, dinl, ?_, hscoded, hdcoded, hctx⟩
    rw [hb, named_named]
    simp

theorem Encoded.named {dctx : Option Ctx} {sbits dbits : Byte} {sinl dinl : List Byte}
    (e : Encoded t netif hdr h b dctx sbits dbits sinl dinl) (hm : StandsAt m 0 b.bytes) {lo : Nat}
    (hlo : 2 + (cidForm (srcCtx t h) (dstCtx t h)).2.length ≤ lo) :
    (b.iphc2 &&& iphc2CidExt ≠ 0 → 2 < lo) ∧ (∀ c, srcCtx t h = some c → Named m lo b.iphc2 (· >>> 4) c) ∧
        ∀ c, dctx = some c → Named m lo b.iphc2 (· &&& 0x0f) c := by
  have hiphc2 : b.iphc2 = (cidForm (srcCtx t h) (dstCtx t h)).1 ||| sbits ||| dbits := by rw [e.bytes]
  rcases cidForm_cases (srcCtx t h) (dstCtx t h) with hform | ⟨hform, hsrc, hdst⟩
  · rw [hform] at hlo hiphc2
    have hlo' : 2 < lo := hlo
    have hcid : b.iphc2 &&& iphc2CidExt ≠ 0 := by
      rw [hiphc2, (second_fields (by decide) e.src.mask e.dst.mask).1]
      decide
    have hm2 : m 2 = 0 ||| cidOf (srcCtx t h) <<< 4 ||| cidOf dctx := by
      have hbytes := e.bytes
      rw [hform] at hbytes
      have hlt : 2 < b.bytes.length := by
        rw [hbytes]
        simp [IphcBuf.bytes]
      have := hm 2 hlt
      simp only [hbytes] at this
      simpa [IphcBuf.bytes] using this
    refine ⟨fun _ => hlo', fun c hc => ?_, fun c hc => ?_⟩
    · unfold Named
      rw [if_pos hcid]
      refine ⟨hlo', ?_⟩
      show m 2 >>> 4 = c.cid
      rw [hm2, ext_high (cidOf_low _) (cidOf_low _), hc]
      rfl
    · unfold Named
      rw [if_pos hcid]
      refine ⟨hlo', ?_⟩
      show m 2 &&& 0x0f#8 = c.cid
      rw [hm2, ext_low (cidOf_low _) (cidOf_low _), hc]
      rfl
  · rw [hform] at hiphc2
    have hcid : ¬ b.iphc2 &&& iphc2CidExt ≠ 0 := by
      rw [hiphc2, (second_fields (by decide) e.src.mask e.dst.mask).1]
      decide
    refine ⟨fun h => absurd h hcid, fun c hc => ?_, fun c hc => ?_⟩
    · unfold Named
      rw [if_neg hcid]
      exact needsCid_false hsrc hc
    · unfold Named
      rw [if_neg hcid]
      rcases e.dctx with hd | hd
      · exact needsCid_false hdst (hd ▸ hc)
      · rw [hd] at hc
        cases hc

theorem reads_skipCidExt {lo : Nat} {iphc2 : Byte} {ext : List Byte}
    (h : iphc2 &&& iphc2CidExt ≠ 0 ↔ ext.length = 1) (hle : ext.length ≤ 1) :
    Reads m lo (skipCidExt iphc2) ext () := by
  unfold skipCidExt
  split
  · rename_i hcid
    exact skip (h.mp hcid)
  · rename_i hcid
    have hlen : ext.length ≠ 1 := fun hlen => hcid (h.mpr hlen)
    have hnil : ext = [] := length_eq_zero_iff.mp (by omega)
    subst hnil
    exact pure

/-- **The decoder** on the parts. -/
theorem Encoded.reads {dctx : Option Ctx} {sbits dbits : Byte} {sinl dinl : List Byte}
    (e : Encoded t netif hdr h b dctx sbits dbits sinl dinl) (hv : h.vTcFl.IsIpv6)
    (hlink : SameLink netif hdr receiver incoming) (hm : StandsAt m 0 b.bytes) :
    Reads m 0 (iphcIpv6Decode t receiver incoming) b.bytes h.carried := by
  obtain ⟨hext, hsrc, hdst⟩ := e.named hm Nat.le.refl
  have hcidmask : (cidForm (srcCtx t h) (dstCtx t h)).1 &&& iphc2CidExt =
      (cidForm (srcCtx t h) (dstCtx t h)).1 := by
    rcases cidForm_cases (srcCtx t h) (dstCtx t h) with hform | ⟨hform, -⟩ <;> rw [hform] <;> decide
  obtain ⟨htf, hnh, hhl⟩ := first_fields (tfForm_mask h.vTcFl) (nhForm_mask h.nh) (hlForm_mask h.hl)
  obtain ⟨hcid, hsac, hdac⟩ := second_fields hcidmask e.src.mask e.dst.mask
  have hiphc2 : b.iphc2 = (cidForm (srcCtx t h) (dstCtx t h)).1 ||| sbits ||| dbits := by rw [e.bytes]
  rw [← hiphc2] at hcid hsac hdac
  have hlen : ((cidForm (srcCtx t h) (dstCtx t h)).2.modify 0
      (fun x => x ||| cidOf (srcCtx t h) <<< 4 ||| cidOf dctx)).length =
      (cidForm (srcCtx t h) (dstCtx t h)).2.length := length_modify ..
  obtain ⟨sctx', hsread, hsval⟩ := e.src.decode (by rw [hlink.iid, hlink.src]; rfl) hsac hext hsrc
  obtain ⟨dctx', hdread, hdval⟩ := e.dst.decode (by rw [hlink.iid, hlink.dst]) hdac hdst
  have hbytes : b.bytes = b.iphc1 :: b.iphc2 :: b.rest := rfl
  rw [hbytes, e.bytes]
  rw [← hiphc2]
  refine next_bind_from (next_bind_from (bind_from (reads_skipCidExt ?_ ?_) ?_))
  · rw [hcid, hlen]
    rcases cidForm_cases (srcCtx t h) (dstCtx t h) with hform | ⟨hform, -⟩
    · rw [hform]
      decide
    · rw [hform]
      decide
  · rw [hlen]
    rcases cidForm_cases (srcCtx t h) (dstCtx t h) with hform | ⟨hform, -⟩
    · rw [hform]
      decide
    · rw [hform]
      decide
  · dsimp only
    refine bind (reads_decodeTf hv htf) (bind (reads_decodeNh hnh)
      (bind (reads_decodeHl hhl) (bind_nil (hsread.mono ?_) (bind (hsval.mono ?_) (bind_nil (hdread.mono ?_)
          (map (hdval.mono ?_) (pure_eq ?_)))))))
    · omega
    · omega
    · omega
    · omega
    · rfl

theorem standsAt_bytes (b : IphcBuf) (junk : Byte) : StandsAt (fun k => b.bytes.getD k junk) 0 b.bytes :=
  @standsAt_of_list _ [] b.bytes b.bytes junk rfl

end Whole

section Example

/-- Contexts 0 for `2001:db8::/64` and 3 for `2001:db9::/32`. -/
def twoContexts : CtxTable where
  ctxs id :=
    if id = 0 then ⟨putBytes addrUnspecified 0 [0x20, 0x01, 0x0d, 0xb8], 64, 0x10⟩
    else if id = 3 then ⟨putBytes addrUnspecified 0 [0x20, 0x01, 0x0d, 0xb9], 32, 0x13⟩
    else ⟨addrUnspecified, 0, 0⟩
  prefixLen_le := by decide
  cid_eq := by decide

/-- An interface with a long address. -/
def longNetif : Netif := ⟨[1, 2, 3, 4, 5, 6, 7, 8], ieee802154GetIid⟩

def longHdr : NetifHdr := ⟨[1, 2, 3, 4, 5, 6, 7, 8], [9, 10, 11, 12, 13, 14, 15, 16]⟩

theorem sameLink_long : SameLink longNetif longHdr longNetif longHdr := ⟨rfl, rfl, rfl⟩

/-- From `2001:db8::102:300:0:0` to `2001:db9::ff:fe00:304`. -/
def headerWithContexts : Ipv6Hdr where
  vTcFl := ⟨0x60, 0, 0, 0⟩
  len := 8
  nh := 59
  hl := 64
  src := putBytes addrUnspecified 0 [0x20, 0x01, 0x0d, 0xb8, 0, 0, 0, 0, 1, 2, 3]
  dst := putBytes addrUnspecified 0
    [0x20, 0x01, 0x0d, 0xb9, 0, 0, 0, 0, 0, 0, 0, 0xff, 0xfe, 0, 3, 4]

/-- To the group 102:304 of the network `2001:db8::/64`. -/
def headerToGroup : Ipv6Hdr :=
  { headerWithContexts with
    dst := putBytes addrUnspecified 0
      [0xff, 0x3e, 0, 64, 0x20, 0x01, 0x0d, 0xb8, 0, 0, 0, 0, 1, 2, 3, 4] }

theorem regular_headerWithContexts :
    Regular twoContexts (Vector.replicate 8 0) headerWithContexts where
  srcClean := by
    have h : (srcCtx twoContexts headerWithContexts).all (fun c => decide c.Clean) = true := by
      decide +kernel
    exact fun c hc => of_decide_eq_true (by rwa [hc] at h)
  dstClean := by
    have h : (dstCtx twoContexts headerWithContexts).all (fun c => decide c.Clean) = true := by
      decide +kernel
    exact fun c hc => of_decide_eq_true (by rwa [hc] at h)
  srcScope := fun _ => by decide +kernel
  dstForm := by decide +kernel

end Example

end Riot.Sixlowpan
