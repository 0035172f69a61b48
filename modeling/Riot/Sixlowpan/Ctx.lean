import Mathlib.Logic.Function.Basic
import Riot.Ipv6.Addr

/-!
# 6LoWPAN contexts

The context buffer of `sys/net/gnrc/network_layer/sixlowpan/ctx/gnrc_sixlowpan_ctx.c`. A slot is
in use when its prefix is not empty; its flags are as `_update_lifetime` leaves them, which takes
the compression flag from a context whose lifetime is over.

`gnrc_sixlowpan_ctx_update` clears a slot before it writes the new prefix only when the prefix
given differs from the one stored. A context can so keep bits behind its prefix length from the
longer prefix that it had before.
-/

namespace Riot.Sixlowpan

open Riot.Lib Riot.Ipv6 Function

abbrev Byte := BitVec 8

/-- `GNRC_SIXLOWPAN_CTX_SIZE`. -/
abbrev ctxSize : Nat := 16

def ctxFlagsCidMask : Byte := 0x0f

def ctxFlagsComp : Byte := 0x10

/-- `gnrc_sixlowpan_ctx_t`. -/
structure Ctx where
  pfx : Addr
  prefixLen : Nat
  flagsId : Byte
deriving DecidableEq, Repr

/-- Context `id` may be used for compression. -/
def Ctx.Comp (c : Ctx) : Prop := c.flagsId &&& ctxFlagsComp ≠ 0

instance (c : Ctx) : Decidable c.Comp := inferInstanceAs (Decidable (_ ≠ _))

/-- The identifier that a context keeps in its flags. -/
def Ctx.cid (c : Ctx) : Byte := c.flagsId &&& ctxFlagsCidMask

/-- `_ctxs`. A slot in use knows its own number. -/
structure CtxTable where
  ctxs : Fin ctxSize → Ctx
  prefixLen_le : ∀ id, (ctxs id).prefixLen ≤ 128
  cid_eq : ∀ id, 0 < (ctxs id).prefixLen → (ctxs id).cid = BitVec.ofNat 8 id.val

namespace CtxTable

def Valid (t : CtxTable) (id : Fin ctxSize) : Prop := 0 < (t.ctxs id).prefixLen

instance (t : CtxTable) : DecidablePred t.Valid := fun _ => inferInstanceAs (Decidable (_ < _))

/-- The bits that the prefix of context `id` has in common with an address. -/
def matchBits (t : CtxTable) (addr : Addr) (id : Fin ctxSize) : Nat :=
  matchPrefix (t.ctxs id).pfx addr

/-- Context `id` is in use and its prefix is one of the address. -/
def Candidate (t : CtxTable) (addr : Addr) (id : Fin ctxSize) : Prop :=
  t.Valid id ∧ (t.ctxs id).prefixLen ≤ t.matchBits addr id

instance (t : CtxTable) (addr : Addr) : DecidablePred (t.Candidate addr) :=
  fun _ => inferInstanceAs (Decidable (_ ∧ _))

def lookupAddr (t : CtxTable) (addr : Addr) : Option Ctx :=
  (scanMax (t.Candidate addr) (t.matchBits addr) (List.finRange ctxSize) none 0).map t.ctxs

def lookupId (t : CtxTable) (id : Nat) : Option Ctx :=
  if h : id < ctxSize then
    if t.Valid ⟨id, h⟩ then some (t.ctxs ⟨id, h⟩) else none
  else none

/-- What `gnrc_sixlowpan_ctx_update` makes of a slot. -/
def updated (old : Ctx) (id : Fin ctxSize) (pfx : Addr) (prefixLen ltime : Nat) (comp : Bool) :
    Ctx :=
  let len := if 128 < prefixLen then 128 else prefixLen
  let comp := if ltime = 0 then false else comp
  { pfx := if old.pfx ≠ pfx then initPrefix addrUnspecified pfx len else old.pfx
    prefixLen := len
    flagsId := if comp then ctxFlagsComp ||| BitVec.ofNat 8 id.val else BitVec.ofNat 8 id.val }

theorem cid_flags : ∀ id : Fin ctxSize,
    (ctxFlagsComp ||| BitVec.ofNat 8 id.val) &&& ctxFlagsCidMask = BitVec.ofNat 8 id.val ∧
      BitVec.ofNat 8 id.val &&& ctxFlagsCidMask = BitVec.ofNat 8 id.val := by
  decide

theorem cid_updated (old : Ctx) (id : Fin ctxSize) (pfx : Addr) (prefixLen ltime : Nat)
    (comp : Bool) : (updated old id pfx prefixLen ltime comp).cid = BitVec.ofNat 8 id.val := by
  obtain ⟨hcomp, hplain⟩ := cid_flags id
  unfold updated Ctx.cid
  generalize (if ltime = 0 then false else comp) = b
  cases b with
  | true => exact hcomp
  | false => exact hplain

def update (t : CtxTable) (id : Nat) (pfx : Addr) (prefixLen ltime : Nat) (comp : Bool) :
    CtxTable :=
  if h : id < ctxSize then
    if prefixLen = 0 then t else
      { ctxs := Function.update t.ctxs ⟨id, h⟩
          (updated (t.ctxs ⟨id, h⟩) ⟨id, h⟩ pfx prefixLen ltime comp)
        prefixLen_le := by
          intro i
          by_cases hi : i = ⟨id, h⟩
          · rw [hi, update_self]
            unfold updated
            dsimp only
            split <;> omega
          · rw [update_of_ne hi]
            exact t.prefixLen_le i
        cid_eq := by
          intro i hpos
          by_cases hi : i = ⟨id, h⟩
          · rw [hi, update_self]
            exact cid_updated ..
          · rw [update_of_ne hi] at hpos ⊢
            exact t.cid_eq i hpos }
  else t

/-- `_update_lifetime` for context `id`, at the end of its lifetime. -/
def lapse (t : CtxTable) (id : Fin ctxSize) : CtxTable where
  ctxs := Function.update t.ctxs id
    { t.ctxs id with flagsId := (t.ctxs id).flagsId &&& ~~~ctxFlagsComp }
  prefixLen_le := by
    intro i
    by_cases hi : i = id
    · rw [hi, update_self]
      exact t.prefixLen_le id
    · rw [update_of_ne hi]
      exact t.prefixLen_le i
  cid_eq := by
    intro i hpos
    have hmask : ∀ x : Byte, x &&& ~~~ctxFlagsComp &&& ctxFlagsCidMask = x &&& ctxFlagsCidMask := by
      decide +kernel
    by_cases hi : i = id
    · rw [hi, update_self] at hpos ⊢
      have := t.cid_eq id hpos
      unfold Ctx.cid at this ⊢
      rw [hmask, this]
    · rw [update_of_ne hi] at hpos ⊢
      exact t.cid_eq i hpos

theorem lookupAddr_some {t : CtxTable} {addr : Addr} {c : Ctx} (h : t.lookupAddr addr = some c) :
    ∃ id, t.ctxs id = c ∧ t.Candidate addr id := by
  obtain ⟨id, hscan, hc⟩ := Option.map_eq_some_iff.mp h
  rcases scanMax_ok hscan with hnone | ⟨-, hok⟩
  · cases hnone
  · exact ⟨id, hc, hok⟩

theorem lookupId_cid {t : CtxTable} {id : Fin ctxSize} (h : t.Valid id) :
    t.lookupId (t.ctxs id).cid.toNat = some (t.ctxs id) := by
  have hid : (t.ctxs id).cid.toNat = id.val := by
    rw [t.cid_eq id h, BitVec.toNat_ofNat]
    have hlt : id.val < 16 := id.isLt
    omega
  unfold lookupId
  rw [dif_pos (by rw [hid]; exact id.isLt)]
  have hfin : (⟨(t.ctxs id).cid.toNat, by rw [hid]; exact id.isLt⟩ : Fin ctxSize) = id :=
    Fin.ext hid
  rw [hfin, if_pos h]

end CtxTable

/-- The prefix stored has no bit set between its length and the interface identifier. -/
def Ctx.Clean (c : Ctx) : Prop := ∀ i, c.prefixLen ≤ i → i < 64 → bit c.pfx i = false

instance (c : Ctx) : Decidable c.Clean :=
  decidable_of_iff (∀ i < 64, c.prefixLen ≤ i → bit c.pfx i = false)
    ⟨fun h i hle hlt => h i hlt hle, fun h i hlt hle => h i hle hlt⟩

end Riot.Sixlowpan
