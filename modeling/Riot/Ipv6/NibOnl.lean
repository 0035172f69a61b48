import Riot.Core.List
import Riot.Ipv6.Addr
import Mathlib.Data.Fintype.Basic

/-!
# The on-link nodes of the neighbor information base

The nodes of `_nib-internal.c` of `sys/net/gnrc/network_layer/ipv6/nib`, a table
of fixed size, the neighbor cache and its list of removable nodes. The nodes
carry the link of that list, `_next_removable`, which is kept apart from their
other fields, in `mem`.
-/

namespace Riot.Ipv6

open Riot.Core Riot.Lib Function

/-! ## Entries -/

/-- The flags of `mode`, one for each view of the NIB; `_EMPTY` is none of them. -/
inductive View
  | nc
  | dc
  | pl
  | drl
  | ft
  | dad
  | dst
  deriving DecidableEq, Repr

/-- The address registration state in `info`. -/
inductive ArState
  | gc
  | tentative
  | registered
  | manual
  deriving DecidableEq, Repr

/-- `GNRC_IPV6_NIB_NC_INFO_NUD_STATE_*`, the low bits of `info`. -/
abbrev NudState := BitVec 3

namespace NudState

def unmanaged : NudState := 0
def unreachable : NudState := 1
def incomplete : NudState := 2
def stale : NudState := 3
def delay : NudState := 4
def probe : NudState := 5
def reachable : NudState := 6

end NudState

/-- An interface identifier, at most `_NIB_IF_MAX`. -/
abbrev Iface := Fin 32

scoped instance neZero_iface : @NeZero Nat Zero.ofOfNat0 32 := ⟨by decide⟩

/-- `_nib_onl_entry_t`; `nud`, `iface` and `ar` are the fields of `info`. -/
structure OnlEntry where
  ipv6 : Addr
  nud : NudState
  iface : Iface
  ar : ArState
  mode : Finset View
  deriving DecidableEq

/-- An on-link entry after `memset`. -/
def OnlEntry.zero : OnlEntry := ⟨addrUnspecified, 0, 0, .gc, ∅⟩

/-- `_nodes`, with the links of `_next_removable`. -/
structure OnlTable (N : Nat) where
  nodes : Fin N → OnlEntry
  mem : NodeMem Unit (Fin N)

namespace OnlTable

variable {N : Nat}

def nextRemovable : Node Unit (Fin N) := .head ()

def setNode (t : OnlTable N) (n : Fin N) (node : OnlEntry) : OnlTable N :=
  { t with nodes := update t.nodes n node }

/-- `mode |= flag` on a node. -/
def setMode (t : OnlTable N) (n : Fin N) (flag : View) : OnlTable N :=
  t.setNode n { t.nodes n with mode := insert flag (t.nodes n).mode }

/-- `mode &= ~flag` on a node. -/
def unsetMode (t : OnlTable N) (n : Fin N) (flag : View) : OnlTable N :=
  t.setNode n { t.nodes n with mode := (t.nodes n).mode.erase flag }

/-! ## On-link entries -/

def onlClear (t : OnlTable N) (n : Fin N) : OnlTable N :=
  if (t.nodes n).mode = ∅ then
    { t.setNode n .zero with mem := update t.mem (.entry n) .null }
  else t

def overrideNode (t : OnlTable N) (addr : Option Addr) (iface : Iface) (n : Fin N) : OnlTable N :=
  let t := t.onlClear n
  t.setNode n { t.nodes n with ipv6 := addr.getD (t.nodes n).ipv6, iface := iface }

/-- `_addr_equals`: no address stands for the unspecified one. -/
def AddrEquals (addr : Option Addr) (node : OnlEntry) : Prop :=
  addr.getD addrUnspecified = node.ipv6

instance (addr : Option Addr) (node : OnlEntry) : Decidable (AddrEquals addr node) :=
  inferInstanceAs (Decidable (_ = _))

/-- The loop of `_nib_onl_alloc`: an exact match, or else the first empty node. -/
def onlAllocLoop (t : OnlTable N) (addr : Option Addr) (iface : Iface) :
    List (Fin N) → Option (Fin N) → Option (Fin N)
  | [], node => node
  | tmp :: rest, node =>
    if (t.nodes tmp).iface = iface ∧ AddrEquals addr (t.nodes tmp) then some tmp
    else if node = none ∧ (t.nodes tmp).mode = ∅ then t.onlAllocLoop addr iface rest (some tmp)
    else t.onlAllocLoop addr iface rest node

/-- The node `_nib_onl_alloc` settles on. -/
def onlFind (t : OnlTable N) (addr : Option Addr) (iface : Iface) : Option (Fin N) :=
  t.onlAllocLoop addr iface (List.finRange N) none

def onlAlloc (t : OnlTable N) (addr : Option Addr) (iface : Iface) : Option (Fin N) × OnlTable N :=
  match t.onlFind addr iface with
  | some node => (some node, t.overrideNode addr iface node)
  | none => (none, t)

/-! ### What an allocation does -/

variable {t t' : OnlTable N} {addr : Option Addr} {iface : Iface} {n m : Fin N}

@[simp] theorem setNode_self (node : OnlEntry) : (t.setNode n node).nodes n = node := by
  simp [setNode]

theorem setNode_ne (node : OnlEntry) (h : m ≠ n) : (t.setNode n node).nodes m = t.nodes m := by
  simp [setNode, h]

@[simp] theorem setNode_mem (node : OnlEntry) : (t.setNode n node).mem = t.mem := rfl

/-- The node has the interface and the address that are looked for. -/
def Matches (t : OnlTable N) (addr : Option Addr) (iface : Iface) (n : Fin N) : Prop :=
  (t.nodes n).iface = iface ∧ AddrEquals addr (t.nodes n)

/-- An empty node, taken for a new neighbor. -/
def fresh (t : OnlTable N) (addr : Option Addr) (iface : Iface) (n : Fin N) : OnlTable N where
  nodes := update t.nodes n { OnlEntry.zero with ipv6 := addr.getD addrUnspecified, iface }
  mem := update t.mem (.entry n) .null

theorem onlClear_empty (h : (t.nodes n).mode = ∅) :
    t.onlClear n = { t.setNode n .zero with mem := update t.mem (.entry n) .null } := by
  unfold onlClear
  rw [if_pos h]

theorem onlClear_used (h : (t.nodes n).mode ≠ ∅) : t.onlClear n = t := by
  unfold onlClear
  rw [if_neg h]

theorem overrideNode_empty (h : (t.nodes n).mode = ∅) :
    t.overrideNode addr iface n = t.fresh addr iface n := by
  unfold overrideNode
  rw [onlClear_empty h]
  simp [setNode, fresh, OnlEntry.zero]

theorem overrideNode_matches (h : (t.nodes n).mode ≠ ∅) (hm : t.Matches addr iface n) :
    t.overrideNode addr iface n = t := by
  unfold overrideNode
  rw [onlClear_used h]
  obtain ⟨hif, haddr⟩ := hm
  have hself : { t.nodes n with ipv6 := addr.getD (t.nodes n).ipv6, iface := iface } = t.nodes n := by
    have : addr.getD (t.nodes n).ipv6 = (t.nodes n).ipv6 := by
      cases addr with
      | none => rfl
      | some a => exact haddr
    rw [this, ← hif]
  simp only [setNode]
  rw [hself, update_eq_self]

/-- The loop stops at the first exact match; without one it keeps the first empty node. -/
theorem onlAllocLoop_cases : ∀ {l : List (Fin N)} {node : Option (Fin N)},
    (∃ n ∈ l, t.Matches addr iface n ∧ t.onlAllocLoop addr iface l node = some n) ∨
    (∀ n ∈ l, ¬ t.Matches addr iface n) ∧ ((∃ n, node = some n ∧ t.onlAllocLoop addr iface l node = some n) ∨
        node = none ∧ (∃ n ∈ l, (t.nodes n).mode = ∅ ∧ t.onlAllocLoop addr iface l node = some n) ∨
        node = none ∧ (∀ n ∈ l, (t.nodes n).mode ≠ ∅) ∧ t.onlAllocLoop addr iface l node = none)
  | [], node => by
    refine .inr ⟨by simp, ?_⟩
    cases node with
    | none => exact .inr (.inr ⟨rfl, by simp, rfl⟩)
    | some n => exact .inl ⟨n, rfl, rfl⟩
  | tmp :: rest, node => by
    unfold onlAllocLoop
    by_cases hm : (t.nodes tmp).iface = iface ∧ AddrEquals addr (t.nodes tmp)
    · exact .inl ⟨tmp, by simp, hm, by rw [if_pos hm]⟩
    · rw [if_neg hm]
      by_cases he : node = none ∧ (t.nodes tmp).mode = ∅
      · rw [if_pos he]
        rcases @onlAllocLoop_cases rest (some tmp) with
          ⟨n, hn, hmn, heq⟩ | ⟨hno, hrest⟩
        · exact .inl ⟨n, by simp [hn], hmn, heq⟩
        · refine .inr ⟨by simpa using ⟨hm, hno⟩, .inr (.inl ⟨he.1, tmp, by simp, he.2, ?_⟩)⟩
          rcases hrest with ⟨n, hn, heq⟩ | ⟨hn, _⟩ | ⟨hn, _⟩
          · rw [heq, ← hn]
          · cases hn
          · cases hn
      · rw [if_neg he]
        rcases @onlAllocLoop_cases rest node with ⟨n, hn, hmn, heq⟩ | ⟨hno, hrest⟩
        · exact .inl ⟨n, by simp [hn], hmn, heq⟩
        · refine .inr ⟨by simpa using ⟨hm, hno⟩, ?_⟩
          rcases hrest with h | ⟨hn, m, hmem, hme, heq⟩ | ⟨hn, hall, heq⟩
          · exact .inl h
          · exact .inr (.inl ⟨hn, m, by simp [hmem], hme, heq⟩)
          · have htmp : (t.nodes tmp).mode ≠ ∅ := fun h => he ⟨hn, h⟩
            exact .inr (.inr ⟨hn, by simpa using ⟨htmp, hall⟩, heq⟩)

/-- No node has the interface and address, and no node is empty. -/
def Full (t : OnlTable N) (addr : Option Addr) (iface : Iface) : Prop :=
  ∀ n, (t.nodes n).mode ≠ ∅ ∧ ¬ t.Matches addr iface n

/-- **An allocation.** It finds the node of the neighbor and leaves it as it is, or it takes an
empty one, or the table is full. -/
theorem onlAlloc_cases (t : OnlTable N) (addr : Option Addr) (iface : Iface) :
    (∃ n, (t.nodes n).mode ≠ ∅ ∧ t.Matches addr iface n ∧ t.onlAlloc addr iface = (some n, t)) ∨
    (∃ n, (t.nodes n).mode = ∅ ∧ (t.Matches addr iface n ∨ ∀ m, ¬ t.Matches addr iface m) ∧
      t.onlAlloc addr iface = (some n, t.fresh addr iface n)) ∨
    t.Full addr iface ∧ t.onlAlloc addr iface = (none, t) := by
  have hloop := @onlAllocLoop_cases _ t addr iface (List.finRange N) none
  rcases hloop with ⟨n, _, hm, heq⟩ | ⟨hno, ⟨_, hc, _⟩ | ⟨_, n, _, hempty, heq⟩ | ⟨_, hall, heq⟩⟩
  · have halloc : t.onlAlloc addr iface = (some n, t.overrideNode addr iface n) := by
      simp only [onlAlloc, onlFind, heq]
    by_cases hempty : (t.nodes n).mode = ∅
    · exact .inr (.inl ⟨n, hempty, .inl hm, by rw [halloc, overrideNode_empty hempty]⟩)
    · exact .inl ⟨n, hempty, hm, by rw [halloc, overrideNode_matches hempty hm]⟩
  · cases hc
  · have halloc : t.onlAlloc addr iface = (some n, t.overrideNode addr iface n) := by
      simp only [onlAlloc, onlFind, heq]
    have hno' : ∀ m, ¬ t.Matches addr iface m := fun m => hno m (List.mem_finRange m)
    exact .inr (.inl ⟨n, hempty, .inr hno', by rw [halloc, overrideNode_empty hempty]⟩)
  · have halloc : t.onlAlloc addr iface = (none, t) := by
      simp only [onlAlloc, onlFind, heq]
    exact .inr (.inr ⟨fun n => ⟨hall n (List.mem_finRange n), hno n (List.mem_finRange n)⟩, halloc⟩)

theorem overrideNode_fresh (t : OnlTable N) (addr : Option Addr) (iface : Iface) (n : Fin N) :
    (t.fresh addr iface n).overrideNode addr iface n = t.fresh addr iface n := by
  have hempty : ((t.fresh addr iface n).nodes n).mode = ∅ := by simp [fresh, OnlEntry.zero]
  rw [overrideNode_empty hempty]
  simp [fresh]

/-! ## The neighbor cache -/

def IsGc (node : OnlEntry) : Prop := node.mode.erase .nc = ∅ ∧ node.ar = .gc

instance (node : OnlEntry) : Decidable (IsGc node) := inferInstanceAs (Decidable (_ ∧ _))

/-- `clist_rpush(&_next_removable, node)` -/
def rpush (t : OnlTable N) (n : Fin N) : OnlTable N :=
  { t with mem := clistRpush t.mem nextRemovable n }

/-- `clist_lpop(&_next_removable)`: the first node, or `null`. -/
def lpop (t : OnlTable N) : Link (Fin N) × OnlTable N :=
  (clistLpeek t.mem nextRemovable, { t with mem := clistLpop t.mem nextRemovable })

def ncRemove (t : OnlTable N) (n : Fin N) : OnlTable N :=
  let t := t.unsetMode n .nc
  let t := { t with mem := clistRemove t.mem (N + 1) nextRemovable n }
  t.onlClear n

/-- A removable node, made the entry of a new neighbor. -/
def cacheOut (t : OnlTable N) (addr : Addr) (iface : Iface) (cstate : NudState) (n : Fin N) :
    OnlTable N :=
  let t := t.ncRemove n
  let t := t.overrideNode (some addr) iface n
  t.setNode n { t.nodes n with nud := (t.nodes n).nud ||| cstate, mode := {View.nc} }

/-- The loop of `_cache_out_onl_entry`, entered with a node taken from the list. -/
def cacheOutLoop (addr : Addr) (iface : Iface) (cstate : NudState) (first : Fin N) :
    Nat → OnlTable N → Fin N → Option (Fin N) × OnlTable N
  | 0, t, _ => (none, t)
  | fuel + 1, t, tmp =>
    if IsGc (t.nodes tmp) then
      (some tmp, (t.cacheOut addr iface cstate tmp).rpush tmp)
    else
      match (t.rpush tmp).lpop with
      | (.ref tmp, t) =>
        -- once around without finding any: the first one is requeued
        if tmp = first then (none, t.rpush tmp)
        else cacheOutLoop addr iface cstate first fuel t tmp
      | (_, t) => (none, t)

def cacheOutOnlEntry (t : OnlTable N) (addr : Addr) (iface : Iface) (cstate : NudState) :
    Option (Fin N) × OnlTable N :=
  match t.lpop with
  | (.ref first, t) => cacheOutLoop addr iface cstate first (N + 1) t first
  | _ => (none, t)

/-- `_nib_nc_add` with a node that `_nib_onl_alloc` returned. -/
def ncMark (t : OnlTable N) (cstate : NudState) (n : Fin N) : OnlTable N :=
  let t :=
    if View.nc ∈ (t.nodes n).mode then t
    else (t.setNode n { t.nodes n with nud := cstate }).setMode n .nc
  if t.mem (.entry n) = .null then t.rpush n else t

def ncAdd (t : OnlTable N) (addr : Addr) (iface : Iface) (cstate : NudState) :
    Option (Fin N) × OnlTable N :=
  match t.onlAlloc (some addr) iface with
  | (none, t) => t.cacheOutOnlEntry addr iface cstate
  | (some n, t) => (some n, t.ncMark cstate n)

theorem lpop_nodes {l : Link (Fin N)} (h : t.lpop = (l, t')) : t'.nodes = t.nodes := by
  cases h
  rfl

theorem ncMark_nodes {cstate : NudState} : (t.ncMark cstate n).nodes =
    update t.nodes n (if View.nc ∈ (t.nodes n).mode then t.nodes n
      else { t.nodes n with nud := cstate, mode := insert View.nc (t.nodes n).mode }) := by
  unfold ncMark
  by_cases hnc : View.nc ∈ (t.nodes n).mode
  · simp only [if_pos hnc, update_eq_self]
    split <;> rfl
  · simp only [if_neg hnc]
    split <;> simp [setMode, setNode, rpush]

/-! ## Duplicate address detection -/

def dadAdd (t : OnlTable N) (addr : Addr) : Option (Fin N) × OnlTable N :=
  match t.onlAlloc (some addr) 0 with
  | (none, t) => (none, t)
  | (some n, t) => (some n, t.setMode n .dad)

def dadRemove (t : OnlTable N) (n : Fin N) : OnlTable N := (t.unsetMode n .dad).onlClear n

end OnlTable

end Riot.Ipv6
