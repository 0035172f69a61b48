import Riot.Ipv6.NibOnl
import Riot.Lib.Runs

/-!
# The neighbor information base

The off-link entries and the default routers of `_nib-internal.c` and
`_nib-internal.h`, over the table of on-link nodes, to which they refer by index.
A call of the interface is one step of the NIB; it is not enabled where an
assertion on its arguments fails.
-/

namespace Riot.Ipv6

open Riot.Core Riot.Lib Function

/-! ## The NIB -/

/-- The flags of an off-link entry. -/
inductive PfxFlag
  | onLink
  | slaac
  deriving DecidableEq, Repr

/-- `_nib_offl_entry_t`, in a NIB of `N` nodes. -/
structure OfflEntry (N : Nat) where
  nextHop : Option (Fin N)
  pfx : Addr
  mode : Finset View
  pfxLen : Nat
  flags : Finset PfxFlag
  validUntil : BitVec 32
  prefUntil : BitVec 32
  deriving DecidableEq

/-- An off-link entry after `memset`. -/
def OfflEntry.zero {N : Nat} : OfflEntry N := ⟨none, addrUnspecified, ∅, 0, ∅, 0, 0⟩

/-- What the search of a table ends with: the entry looked for, a free one, or neither. -/
inductive Slot (n : Nat)
  | found (i : Fin n)
  | free (i : Fin n)
  | full
  deriving DecidableEq

/-- A free entry is only noted while there is none yet. -/
def Slot.note {n : Nat} (i : Fin n) : Slot n → Slot n
  | .full => .free i
  | slot => slot

/-- `_nodes`, `_dsts`, `_def_routers` and `_prime_def_router`. -/
structure Nib (N O D : Nat) where
  onl : OnlTable N
  dsts : Fin O → OfflEntry N
  defRouters : Fin D → Option (Fin N)
  primeDefRouter : Option (Fin D)

namespace Nib

variable {N O D : Nat}

/-- The NIB at startup. -/
def init : Nib N O D where
  onl := ⟨fun _ => .zero, fun _ => .null⟩
  dsts := fun _ => .zero
  defRouters := fun _ => none
  primeDefRouter := none

def setDst (s : Nib N O D) (i : Fin O) (dst : OfflEntry N) : Nib N O D :=
  { s with dsts := update s.dsts i dst }

/-! ## Off-link entries -/

/-- An entry that is not empty stands for `pfx`, behind a next hop that is unspecified or `nextHop`. -/
def OfflMatches (s : Nib N O D) (nextHop : Option Addr) (iface : Iface) (pfx : Addr) (pfxLen : Nat)
    (i : Fin O) : Prop :=
  (s.dsts i).pfxLen = pfxLen ∧ pfxLen ≤ matchPrefix (s.dsts i).pfx pfx ∧
    ∃ n ∈ (s.dsts i).nextHop, (s.onl.nodes n).iface = iface ∧
      ((s.onl.nodes n).ipv6 = addrUnspecified ∨ OnlTable.AddrEquals nextHop (s.onl.nodes n))

instance (s : Nib N O D) (nextHop : Option Addr) (iface : Iface) (pfx : Addr) (pfxLen : Nat)
    (i : Fin O) : Decidable (s.OfflMatches nextHop iface pfx pfxLen i) :=
  inferInstanceAs (Decidable (_ ∧ _ ∧ ∃ n ∈ (s.dsts i).nextHop, _))

/-- The loop of `_nib_offl_alloc`: a matching entry, or else the first empty one. -/
def offlAllocLoop (s : Nib N O D) (nextHop : Option Addr) (iface : Iface) (pfx : Addr)
    (pfxLen : Nat) : List (Fin O) → Slot O → Slot O
  | [], dst => dst
  | tmp :: rest, dst =>
    if (s.dsts tmp).mode = ∅ then s.offlAllocLoop nextHop iface pfx pfxLen rest (dst.note tmp)
    else if s.OfflMatches nextHop iface pfx pfxLen tmp then .found tmp
    else s.offlAllocLoop nextHop iface pfx pfxLen rest dst

/-- The entry `_nib_offl_alloc` settles on. -/
def offlFind (s : Nib N O D) (nextHop : Option Addr) (iface : Iface) (pfx : Addr) (pfxLen : Nat) :
    Slot O := s.offlAllocLoop nextHop iface pfx pfxLen (List.finRange O) .full

/-- A matching entry: its next hop gets the address, if there is one. -/
def offlReuse (s : Nib N O D) (nextHop : Option Addr) (i : Fin O) : Nib N O D :=
  match (s.dsts i).nextHop with
  | some n =>
    -- sets the next hop if it was previously unspecified
    let t := s.onl.setNode n { s.onl.nodes n with ipv6 := nextHop.getD (s.onl.nodes n).ipv6 }
    { s with onl := t.setMode n .dst }
  | none => s

/-- An empty entry, once its next hop is there. -/
def offlFill (s : Nib N O D) (nextHop : Option Addr) (iface : Iface) (pfx : Addr) (pfxLen : Nat)
    (i : Fin O) (n : Fin N) : Nib N O D :=
  let s := { s with onl := (s.onl.overrideNode nextHop iface n).setMode n .dst }
  s.setDst i { s.dsts i with
    nextHop := some n, pfx := initPrefix (s.dsts i).pfx pfx pfxLen, pfxLen := pfxLen }

def offlAlloc (s : Nib N O D) (nextHop : Option Addr) (iface : Iface) (pfx : Addr) (pfxLen : Nat) :
    Option (Fin O) × Nib N O D :=
  match s.offlFind nextHop iface pfx pfxLen with
  | .found i => (some i, s.offlReuse nextHop i)
  | .free i =>
    match (s.dsts i).nextHop with
    | some n => (some i, s.offlFill nextHop iface pfx pfxLen i n)
    | none =>
      match s.onl.onlAlloc nextHop iface with
      | (some n, t) => (some i, { s with onl := t }.offlFill nextHop iface pfx pfxLen i n)
      | (none, t) => (none, { s with onl := t }.setDst i .zero)
  | .full => (none, s)

/-- Another entry has the next hop of entry `i`. -/
def Shared (s : Nib N O D) (i : Fin O) : Prop :=
  ∃ ptr, i ≠ ptr ∧ (s.dsts i).nextHop = (s.dsts ptr).nextHop

instance (s : Nib N O D) (i : Fin O) : Decidable (s.Shared i) :=
  inferInstanceAs (Decidable (∃ _, _))

/-- What `_nib_offl_clear` does to the next hop of an entry. -/
def offlRelease (s : Nib N O D) (i : Fin O) : Nib N O D :=
  match (s.dsts i).nextHop with
  | some n => if s.Shared i then s else { s with onl := (s.onl.unsetMode n .dst).onlClear n }
  | none => s

def offlClear (s : Nib N O D) (i : Fin O) : Nib N O D :=
  if (s.dsts i).mode = ∅ then (s.offlRelease i).setDst i .zero else s

def offlAdd (s : Nib N O D) (nextHop : Option Addr) (iface : Iface) (pfx : Addr) (pfxLen : Nat)
    (mode : View) : Option (Fin O) × Nib N O D :=
  match s.offlAlloc nextHop iface pfx pfxLen with
  | (some i, s) => (some i, s.setDst i { s.dsts i with mode := insert mode (s.dsts i).mode })
  | (none, s) => (none, s)

def offlRemove (s : Nib N O D) (i : Fin O) (mode : View) : Nib N O D :=
  (s.setDst i { s.dsts i with mode := (s.dsts i).mode.erase mode }).offlClear i

def addrBitLen : Nat := 128

def dcAdd (s : Nib N O D) (nextHop : Addr) (iface : Iface) (dst : Addr) :
    Option (Fin O) × Nib N O D := s.offlAdd (some nextHop) iface dst addrBitLen .dc

def dcRemove (s : Nib N O D) (i : Fin O) : Nib N O D := s.offlRemove i .dc

def ftAdd (s : Nib N O D) (nextHop : Option Addr) (iface : Iface) (pfx : Addr) (pfxLen : Nat) :
    Option (Fin O) × Nib N O D := s.offlAdd nextHop iface pfx pfxLen .ft

def ftRemove (s : Nib N O D) (i : Fin O) : Nib N O D := s.offlRemove i .ft

def uint32Max : BitVec 32 := 0xffffffff#32

/-- The timestamps that `_nib_pl_add` stores, from the lifetimes and the time `now`. -/
def lifetimes (validLtime prefLtime now : BitVec 32) : BitVec 32 × BitVec 32 :=
  if validLtime ≠ uint32Max ∨ prefLtime ≠ uint32Max then
    let prefUntil :=
      -- a capped lifetime stays as it is
      if prefLtime < uint32Max - 1 then
        if prefLtime + now = uint32Max ∧ now ≠ 0 then prefLtime + 1 + now else prefLtime + now
      else prefLtime
    let validUntil :=
      if validLtime < uint32Max - 1 then
        if validLtime + now = uint32Max then validLtime + 1 + now else validLtime + now
      else validLtime
    (validUntil, prefUntil)
  else (validLtime, prefLtime)

/-- `_nib_pl_add` at time `now`. -/
def plAdd (s : Nib N O D) (iface : Iface) (pfx : Addr) (pfxLen : Nat)
    (validLtime prefLtime now : BitVec 32) : Option (Fin O) × Nib N O D :=
  match s.offlAdd none iface pfx pfxLen .pl with
  | (some i, s) =>
    (some i, s.setDst i { s.dsts i with
      validUntil := (lifetimes validLtime prefLtime now).1,
      prefUntil := (lifetimes validLtime prefLtime now).2 })
  | (none, s) => (none, s)

def plRemove (s : Nib N O D) (i : Fin O) : Nib N O D := s.offlRemove i .pl

/-! ## The default router list -/

/-- The next hop of default router `d` is the router looked for. -/
def DrMatches (s : Nib N O D) (routerAddr : Addr) (iface : Iface) (d : Fin D) : Prop :=
  ∃ n ∈ s.defRouters d, (s.onl.nodes n).iface = iface ∧ routerAddr = (s.onl.nodes n).ipv6

instance (s : Nib N O D) (routerAddr : Addr) (iface : Iface) (d : Fin D) :
    Decidable (s.DrMatches routerAddr iface d) :=
  inferInstanceAs (Decidable (∃ n ∈ s.defRouters d, _))

/-- The loop of `_nib_drl_add`: the entry of the router, or else the first free one. -/
def drlAddLoop (s : Nib N O D) (routerAddr : Addr) (iface : Iface) : List (Fin D) → Slot D → Slot D
  | [], defRouter => defRouter
  | tmp :: rest, defRouter =>
    if s.DrMatches routerAddr iface tmp then .found tmp
    else if s.defRouters tmp = none then s.drlAddLoop routerAddr iface rest (defRouter.note tmp)
    else s.drlAddLoop routerAddr iface rest defRouter

def drlAdd (s : Nib N O D) (routerAddr : Addr) (iface : Iface) : Option (Fin D) × Nib N O D :=
  match s.drlAddLoop routerAddr iface (List.finRange D) .full with
  | .found d =>
    match s.defRouters d with
    | some n => (some d, { s with onl := s.onl.setMode n .drl })
    | none => (some d, s)
  | .free d =>
    match s.onl.onlAlloc (some routerAddr) iface with
    | (some n, t) =>
      (some d, { s with
        onl := (t.overrideNode (some routerAddr) iface n).setMode n .drl
        defRouters := update s.defRouters d (some n) })
    | (none, t) => (none, { s with onl := t })
  | .full => (none, s)

/-- The loop of `_nib_drl_remove` over the destination cache entries with next hop `n`. -/
def dcRemoveAll (n : Fin N) : List (Fin O) → Nib N O D → Nib N O D
  | [], s => s
  | dc :: rest, s =>
    if View.dc ∈ (s.dsts dc).mode ∧ (s.dsts dc).nextHop = some n then
      dcRemoveAll n rest (s.dcRemove dc)
    else dcRemoveAll n rest s

def drlRemove (s : Nib N O D) (d : Fin D) : Nib N O D :=
  let s :=
    match s.defRouters d with
    | some n =>
      let s := dcRemoveAll n (List.finRange O) { s with onl := s.onl.unsetMode n .drl }
      { s with onl := s.onl.onlClear n, defRouters := update s.defRouters d none }
    | none => s
  if s.primeDefRouter = some d then { s with primeDefRouter := none } else s

/-- A default router that `_nib_drl_iter` stops at. -/
def DrUsed (s : Nib N O D) (d : Fin D) : Prop := ∃ n ∈ s.defRouters d, (s.onl.nodes n).mode ≠ ∅

instance (s : Nib N O D) (d : Fin D) : Decidable (s.DrUsed d) :=
  inferInstanceAs (Decidable (∃ n ∈ s.defRouters d, _))

def drlIter (s : Nib N O D) (last : Option (Fin D)) : Option (Fin D) :=
  (List.finRange D).find? fun d => decide ((∀ l ∈ last, l < d) ∧ s.DrUsed d)

/-- `_node_unreachable` of the next hop of a default router. -/
def DrUnreachable (s : Nib N O D) (d : Fin D) : Prop :=
  ∃ n ∈ s.defRouters d,
    (s.onl.nodes n).nud = NudState.unreachable ∨ (s.onl.nodes n).nud = NudState.incomplete

instance (s : Nib N O D) (d : Fin D) : Decidable (s.DrUnreachable d) :=
  inferInstanceAs (Decidable (∃ n ∈ s.defRouters d, _))

/-- The loop of `_nib_drl_get_dr`: the next reachable router behind `ptr`. -/
def drlGetDrLoop (s : Nib N O D) : Nat → Option (Fin D) → Option (Fin D)
  | 0, _ => none
  | fuel + 1, ptr =>
    match s.drlIter ptr with
    | none => none
    | some d => if s.DrUnreachable d then s.drlGetDrLoop fuel (some d) else some d

/-- The router `_nib_drl_get_dr` returns, which becomes `_prime_def_router`. -/
def drlChoose (s : Nib N O D) : Option (Fin D) :=
  match s.primeDefRouter with
  | some d => if s.DrUnreachable d then search else some d
  | none => search
where
  search :=
    match s.drlGetDrLoop (D + 1) none with
    | some d => some d
    | none =>
      -- none is reachable: the one behind the last choice, or else the first
      match s.primeDefRouter, s.drlIter s.primeDefRouter with
      | some _, some d => some d
      | _, _ => s.drlIter none

def drlGetDr (s : Nib N O D) : Option (Fin D) × Nib N O D :=
  (s.drlChoose, { s with primeDefRouter := s.drlChoose })

/-- The part of `gnrc_ipv6_nib_ft_add` that adds a default route. -/
def ftAddDefault (s : Nib N O D) (nextHop : Addr) (iface : Iface) : Option (Fin D) × Nib N O D :=
  match s.drlAdd nextHop iface with
  | (some d, s) => (some d, { s with primeDefRouter := some d })
  | (none, s) => (none, s)

/-! ## Routes -/

/-- `gnrc_ipv6_nib_ft_t` -/
structure FtEntry where
  dst : Addr
  dstLen : Nat
  primary : Bool
  iface : Iface
  nextHop : Addr
  deriving DecidableEq

/-- The loop of `_nib_offl_get_match`. -/
def offlGetMatchLoop (s : Nib N O D) (dst : Addr) :
    List (Fin O) → Option (Fin O) → Nat → Option (Fin O)
  | [], res, _ => res
  | entry :: rest, res, bestMatch =>
    if (s.dsts entry).mode ≠ ∅ then
      let m := matchPrefix (s.dsts entry).pfx dst
      if bestMatch < m ∧ (s.dsts entry).pfxLen ≤ m then s.offlGetMatchLoop dst rest (some entry) m
      else s.offlGetMatchLoop dst rest res bestMatch
    else s.offlGetMatchLoop dst rest res bestMatch

def offlGetMatch (s : Nib N O D) (dst : Addr) : Option (Fin O) :=
  s.offlGetMatchLoop dst (List.finRange O) none 0

/-- `_nib_ft_get`; `none` when its assertion fails. -/
def ftGet (s : Nib N O D) (i : Fin O) : Option FtEntry :=
  (s.dsts i).nextHop.map fun n =>
    { dst := (s.dsts i).pfx
      dstLen := (s.dsts i).pfxLen
      primary := false
      iface := (s.onl.nodes n).iface
      nextHop := if (s.dsts i).mode = {View.pl} then addrUnspecified else (s.onl.nodes n).ipv6 }

/-- `_nib_drl_ft_get`; `none` when its assertion fails. -/
def drlFtGet (s : Nib N O D) (d : Fin D) : Option FtEntry :=
  (s.defRouters d).map fun n =>
    { dst := addrUnspecified
      dstLen := 0
      primary := decide (s.primeDefRouter = some d ∧ ¬ s.DrUnreachable d)
      iface := (s.onl.nodes n).iface
      nextHop := (s.onl.nodes n).ipv6 }

/-- The result of `_nib_get_route`. -/
inductive Route
  | unreachable
  | assertion
  | fte (e : FtEntry)
  deriving DecidableEq

/-- The entry that is written, or the failed assertion. -/
def Route.of : Option FtEntry → Route
  | some e => .fte e
  | none => .assertion

/-- The default route has precedence over the entry: one of the prefix list only, and off-link. -/
def OffLinkPl (s : Nib N O D) (i : Fin O) : Prop :=
  (s.dsts i).mode = {View.pl} ∧ PfxFlag.onLink ∉ (s.dsts i).flags

instance (s : Nib N O D) (i : Fin O) : Decidable (s.OffLinkPl i) :=
  inferInstanceAs (Decidable (_ ∧ _))

def getRoute (s : Nib N O D) (dst : Addr) : Route × Nib N O D :=
  match s.offlGetMatch dst with
  | none =>
    match s.drlGetDr with
    | (none, s) => (.unreachable, s)
    | (some router, s) => (.of (s.drlFtGet router), s)
  | some offl =>
    if s.OffLinkPl offl then
      match s.drlGetDr with
      | (none, s) => (.of (s.ftGet offl), s)
      | (some router, s) => (.of (s.drlFtGet router), s)
    else (.of (s.ftGet offl), s)

/-! ## What an addition does -/

section Add

variable {s s' : Nib N O D} {nextHop : Option Addr} {iface : Iface} {pfx : Addr} {pfxLen : Nat}
  {i j : Fin O} {mode : View}

@[simp] theorem setDst_onl (dst : OfflEntry N) : (s.setDst i dst).onl = s.onl := rfl

@[simp] theorem setDst_self (dst : OfflEntry N) : (s.setDst i dst).dsts i = dst := by
  simp [setDst]

theorem setDst_ne (dst : OfflEntry N) (h : j ≠ i) : (s.setDst i dst).dsts j = s.dsts j := by
  simp [setDst, h]

@[simp] theorem setDst_setDst (dst dst' : OfflEntry N) :
    (s.setDst i dst).setDst i dst' = s.setDst i dst' := by
  simp [setDst]

/-- The loop stops at the first match; without one it keeps the first empty entry. -/
theorem offlAllocLoop_cases : ∀ {l : List (Fin O)} {dst : Slot O},
    (∃ i ∈ l, (s.dsts i).mode ≠ ∅ ∧ s.OfflMatches nextHop iface pfx pfxLen i ∧
      s.offlAllocLoop nextHop iface pfx pfxLen l dst = .found i) ∨
    (∀ i ∈ l, (s.dsts i).mode ≠ ∅ → ¬ s.OfflMatches nextHop iface pfx pfxLen i) ∧
      (s.offlAllocLoop nextHop iface pfx pfxLen l dst = dst ∨ dst = .full ∧ ∃ i ∈ l, (s.dsts i).mode = ∅ ∧
          s.offlAllocLoop nextHop iface pfx pfxLen l dst = .free i)
  | [], dst => .inr ⟨by simp, .inl rfl⟩
  | tmp :: rest, dst => by
    unfold offlAllocLoop
    by_cases he : (s.dsts tmp).mode = ∅
    · rw [if_pos he]
      rcases @offlAllocLoop_cases rest (dst.note tmp) with
        ⟨i, hi, hne, hm, heq⟩ | ⟨hno, hrest⟩
      · exact .inl ⟨i, by simp [hi], hne, hm, heq⟩
      · refine .inr ⟨by simpa [he] using hno, ?_⟩
        rcases hrest with heq | ⟨hfull, i, hi, hie, heq⟩
        · rw [heq]
          cases dst with
          | full => exact .inr ⟨rfl, tmp, by simp, he, rfl⟩
          | found i => exact .inl rfl
          | free i => exact .inl rfl
        · cases dst with
          | full => cases hfull
          | found i => cases hfull
          | free i => cases hfull
    · rw [if_neg he]
      by_cases hm : s.OfflMatches nextHop iface pfx pfxLen tmp
      · exact .inl ⟨tmp, by simp, he, hm, by rw [if_pos hm]⟩
      · rw [if_neg hm]
        rcases @offlAllocLoop_cases rest dst with
          ⟨i, hi, hne, hmi, heq⟩ | ⟨hno, hrest⟩
        · exact .inl ⟨i, by simp [hi], hne, hmi, heq⟩
        · refine .inr ⟨by simpa using ⟨fun _ => hm, hno⟩, ?_⟩
          rcases hrest with heq | ⟨hfull, i, hi, hie, heq⟩
          · exact .inl heq
          · exact .inr ⟨hfull, i, by simp [hi], hie, heq⟩

/-- No entry stands for the prefix behind the next hop. -/
def NoMatch (s : Nib N O D) (nextHop : Option Addr) (iface : Iface) (pfx : Addr) (pfxLen : Nat) :
    Prop := ∀ i, (s.dsts i).mode ≠ ∅ → ¬ s.OfflMatches nextHop iface pfx pfxLen i

theorem offlFind_cases (s : Nib N O D) (nextHop : Option Addr) (iface : Iface) (pfx : Addr) (pfxLen : Nat) :
    (∃ i, (s.dsts i).mode ≠ ∅ ∧ s.OfflMatches nextHop iface pfx pfxLen i ∧
      s.offlFind nextHop iface pfx pfxLen = .found i) ∨
    s.NoMatch nextHop iface pfx pfxLen ∧ (s.offlFind nextHop iface pfx pfxLen = .full ∨
        ∃ i, (s.dsts i).mode = ∅ ∧ s.offlFind nextHop iface pfx pfxLen = .free i) := by
  rcases @offlAllocLoop_cases _ _ _ s nextHop iface pfx pfxLen (List.finRange O) .full with
    ⟨i, _, hne, hm, heq⟩ | ⟨hno, heq | ⟨_, i, _, he, heq⟩⟩
  · exact .inl ⟨i, hne, hm, heq⟩
  · exact .inr ⟨fun i => hno i (List.mem_finRange i), .inl heq⟩
  · exact .inr ⟨fun i => hno i (List.mem_finRange i), .inr ⟨i, he, heq⟩⟩

/-- An entry that is empty has no next hop and no prefix. -/
def EmptyZero (s : Nib N O D) : Prop :=
  ∀ i, (s.dsts i).mode = ∅ → (s.dsts i).nextHop = none ∧ (s.dsts i).pfx = addrUnspecified

/-- The new entry of an addition. -/
def newEntry (s : Nib N O D) (pfx : Addr) (pfxLen : Nat) (mode : View) (i : Fin O) (n : Fin N) :
    OfflEntry N :=
  { s.dsts i with
    nextHop := some n
    pfx := initPrefix (s.dsts i).pfx pfx pfxLen
    pfxLen := pfxLen
    mode := insert mode (s.dsts i).mode }

/-- **An addition.** It finds an entry, whose next hop may get its address; or it takes an empty
entry, with the node of its next hop or with a new one; or there is no room. -/
theorem offlAdd_cases (hs : s.EmptyZero) (nextHop : Option Addr) (iface : Iface) (pfx : Addr)
    (pfxLen : Nat) (mode : View) :
    (∃ i n, s.offlFind nextHop iface pfx pfxLen = .found i ∧ (s.dsts i).mode ≠ ∅ ∧
      s.OfflMatches nextHop iface pfx pfxLen i ∧ (s.dsts i).nextHop = some n ∧
      s.offlAdd nextHop iface pfx pfxLen mode = (some i,
        { s with onl := (s.onl.setNode n
            { s.onl.nodes n with ipv6 := nextHop.getD (s.onl.nodes n).ipv6 }).setMode n .dst }.setDst
          i { s.dsts i with mode := insert mode (s.dsts i).mode })) ∨
    (s.NoMatch nextHop iface pfx pfxLen ∧ ∃ i n, s.offlFind nextHop iface pfx pfxLen = .free i ∧
      (s.dsts i).mode = ∅ ∧
      ((s.onl.nodes n).mode ≠ ∅ ∧ s.onl.Matches nextHop iface n ∧
        s.offlAdd nextHop iface pfx pfxLen mode = (some i,
          { s with onl := s.onl.setMode n .dst }.setDst i (s.newEntry pfx pfxLen mode i n)) ∨
      (s.onl.nodes n).mode = ∅ ∧ s.offlAdd nextHop iface pfx pfxLen mode = (some i,
          { s with onl := (s.onl.fresh nextHop iface n).setMode n .dst }.setDst i
            (s.newEntry pfx pfxLen mode i n)))) ∨
    (s.NoMatch nextHop iface pfx pfxLen ∧
      ((∃ i, (s.dsts i).mode = ∅ ∧ s.offlAdd nextHop iface pfx pfxLen mode = (none, s.setDst i .zero)) ∨
        s.offlAdd nextHop iface pfx pfxLen mode = (none, s))) := by
  rcases offlFind_cases s nextHop iface pfx pfxLen with ⟨i, hne, hm, hfind⟩ | ⟨hno, hfull | ⟨i, he, hfind⟩⟩
  · obtain ⟨n, hn, -⟩ := hm.2.2
    refine .inl ⟨i, n, hfind, hne, hm, hn, ?_⟩
    simp only [offlAdd, offlAlloc, hfind, offlReuse, Option.mem_def.mp hn]
  · exact .inr (.inr ⟨hno, .inr (by simp only [offlAdd, offlAlloc, hfull])⟩)
  · have hhop := (hs i he).1
    rcases OnlTable.onlAlloc_cases s.onl nextHop iface with
      ⟨n, hne, hm, halloc⟩ | ⟨n, hempty, _, halloc⟩ | ⟨_, halloc⟩
    · refine .inr (.inl ⟨hno, i, n, hfind, he, .inl ⟨hne, hm, ?_⟩⟩)
      simp only [offlAdd, offlAlloc, hfind, hhop, halloc, offlFill, OnlTable.overrideNode_matches hne hm]
      simp [newEntry]
    · refine .inr (.inl ⟨hno, i, n, hfind, he, .inr ⟨hempty, ?_⟩⟩)
      simp only [offlAdd, offlAlloc, hfind, hhop, halloc, offlFill, OnlTable.overrideNode_fresh]
      simp [newEntry]
    · refine .inr (.inr ⟨hno, .inl ⟨i, he, ?_⟩⟩)
      simp only [offlAdd, offlAlloc, hfind, hhop, halloc]

end Add

/-! ## What adding a default router does -/

section AddRouter

variable {s : Nib N O D}

theorem drlAddLoop_cases {routerAddr : Addr} {iface : Iface} : ∀ {l : List (Fin D)} {slot : Slot D},
    (∃ d ∈ l, s.DrMatches routerAddr iface d ∧ s.drlAddLoop routerAddr iface l slot = .found d) ∨
    (∀ d ∈ l, ¬ s.DrMatches routerAddr iface d) ∧ (s.drlAddLoop routerAddr iface l slot = slot ∨
        slot = .full ∧ ∃ d ∈ l, s.defRouters d = none ∧ s.drlAddLoop routerAddr iface l slot = .free d)
  | [], slot => .inr ⟨by simp, .inl rfl⟩
  | tmp :: rest, slot => by
    unfold drlAddLoop
    by_cases hm : s.DrMatches routerAddr iface tmp
    · exact .inl ⟨tmp, by simp, hm, by rw [if_pos hm]⟩
    · rw [if_neg hm]
      by_cases hnone : s.defRouters tmp = none
      · rw [if_pos hnone]
        rcases @drlAddLoop_cases _ _ rest (slot.note tmp) with
          ⟨d, hd, hmd, heq⟩ | ⟨hno, hrest⟩
        · exact .inl ⟨d, by simp [hd], hmd, heq⟩
        · refine .inr ⟨by simpa using ⟨hm, hno⟩, ?_⟩
          cases slot with
          | full =>
            rcases hrest with heq | ⟨hfull, _⟩
            · exact .inr ⟨rfl, tmp, by simp, hnone, heq⟩
            · cases hfull
          | found d =>
            rcases hrest with heq | ⟨hfull, _⟩
            · exact .inl heq
            · cases hfull
          | free d =>
            rcases hrest with heq | ⟨hfull, _⟩
            · exact .inl heq
            · cases hfull
      · rw [if_neg hnone]
        rcases @drlAddLoop_cases _ _ rest slot with
          ⟨d, hd, hmd, heq⟩ | ⟨hno, hrest⟩
        · exact .inl ⟨d, by simp [hd], hmd, heq⟩
        · refine .inr ⟨by simpa using ⟨hm, hno⟩, ?_⟩
          rcases hrest with heq | ⟨hfull, d, hd, hdn, heq⟩
          · exact .inl heq
          · exact .inr ⟨hfull, d, by simp [hd], hdn, heq⟩

/-- **Adding a router.** It is listed already; or it is put in a free entry, with the node of its
address or with a new one; or there is no room. -/
theorem drlAdd_cases (s : Nib N O D) (routerAddr : Addr) (iface : Iface) : (∃ d n, s.defRouters d = some n ∧
      s.drlAdd routerAddr iface = (some d, { s with onl := s.onl.setMode n .drl })) ∨
    (∃ d n t, s.defRouters d = none ∧ (∀ d', ¬ s.DrMatches routerAddr iface d') ∧
      s.onl.onlAlloc (some routerAddr) iface = (some n, t) ∧
      s.drlAdd routerAddr iface = (some d, { s with
        onl := t.setMode n .drl
        defRouters := update s.defRouters d (some n) })) ∨
    s.drlAdd routerAddr iface = (none, s) := by
  rcases @drlAddLoop_cases _ _ _ s routerAddr iface (List.finRange D) .full with
    ⟨d, _, ⟨n, hn, -⟩, heq⟩ | ⟨hno, heq | ⟨_, d, _, hd, heq⟩⟩
  · refine .inl ⟨d, n, hn, ?_⟩
    simp only [drlAdd, heq, Option.mem_def.mp hn]
  · exact .inr (.inr (by simp only [drlAdd, heq]))
  · have hno' : ∀ d', ¬ s.DrMatches routerAddr iface d' := fun d' => hno d' (List.mem_finRange d')
    rcases OnlTable.onlAlloc_cases s.onl (some routerAddr) iface with
      ⟨n, hne, hm, halloc⟩ | ⟨n, _, _, halloc⟩ | ⟨_, halloc⟩
    · refine .inr (.inl ⟨d, n, s.onl, hd, hno', halloc, ?_⟩)
      simp only [drlAdd, heq, halloc, OnlTable.overrideNode_matches hne hm]
    · refine .inr (.inl ⟨d, n, s.onl.fresh (some routerAddr) iface n, hd, hno', halloc, ?_⟩)
      simp only [drlAdd, heq, halloc, OnlTable.overrideNode_fresh]
    · exact .inr (.inr (by simp only [drlAdd, heq, halloc]))

end AddRouter

end Nib

/-! ## Calls -/

/-- The arguments with which `_nib_offl_alloc` passes its assertion on them. -/
def PfxOk (pfx : Addr) (pfxLen : Nat) : Prop := pfx ≠ addrUnspecified ∧ 0 < pfxLen ∧ pfxLen ≤ 128

instance (pfx : Addr) (pfxLen : Nat) : Decidable (PfxOk pfx pfxLen) :=
  inferInstanceAs (Decidable (_ ∧ _ ∧ _))

/-- A call that changes the NIB. `ncSet` and `plFlags` stand for the writes to `info` and to
`flags` by the code around it. -/
inductive NibCall (N O D : Nat)
  | ncAdd (addr : Addr) (iface : Iface) (cstate : NudState)
  | ncRemove (node : Fin N)
  | ncSet (node : Fin N) (nud : NudState) (ar : ArState)
  | dadAdd (addr : Addr)
  | dadRemove (node : Fin N)
  | drlAdd (routerAddr : Addr) (iface : Iface)
  | ftAddDefault (nextHop : Addr) (iface : Iface)
  | drlRemove (d : Fin D)
  | drlGetDr
  | plAdd (iface : Iface) (pfx : Addr) (pfxLen : Nat) (validLtime prefLtime now : BitVec 32)
  | plFlags (i : Fin O) (flag : PfxFlag)
  | plRemove (i : Fin O)
  | ftAdd (nextHop : Option Addr) (iface : Iface) (pfx : Addr) (pfxLen : Nat)
  | ftRemove (i : Fin O)
  | dcAdd (nextHop : Addr) (iface : Iface) (dst : Addr)
  | dcRemove (i : Fin O)

namespace NibCall

variable {N O D : Nat}

/-- The assertions on the arguments hold. -/
def Asserts : NibCall N O D → Prop
  | ncAdd _ _ cstate => cstate ≠ NudState.delay ∧ cstate ≠ NudState.probe ∧ cstate ≠ NudState.reachable
  | plAdd _ pfx pfxLen validLtime prefLtime _ => PfxOk pfx pfxLen ∧ prefLtime ≤ validLtime
  | ftAdd _ _ pfx pfxLen => PfxOk pfx pfxLen
  | dcAdd _ _ dst => PfxOk dst Nib.addrBitLen
  | _ => True

instance : ∀ c : NibCall N O D, Decidable c.Asserts
  | ncAdd .. => inferInstanceAs (Decidable (_ ∧ _ ∧ _))
  | plAdd .. => inferInstanceAs (Decidable (_ ∧ _))
  | ftAdd .. => inferInstanceAs (Decidable (PfxOk _ _))
  | dcAdd .. => inferInstanceAs (Decidable (PfxOk _ _))
  | ncRemove _ | ncSet .. | dadAdd _ | dadRemove _ | drlAdd .. | ftAddDefault .. | drlRemove _
  | drlGetDr | plFlags .. | plRemove _ | ftRemove _ | dcRemove _ => inferInstanceAs (Decidable True)

/-- The NIB after the call. -/
def exec (s : Nib N O D) : NibCall N O D → Nib N O D
  | ncAdd addr iface cstate => { s with onl := (s.onl.ncAdd addr iface cstate).2 }
  | ncRemove node => { s with onl := s.onl.ncRemove node }
  | ncSet node nud ar =>
    { s with onl := s.onl.setNode node { s.onl.nodes node with nud := nud, ar := ar } }
  | dadAdd addr => { s with onl := (s.onl.dadAdd addr).2 }
  | dadRemove node => { s with onl := s.onl.dadRemove node }
  | drlAdd routerAddr iface => (s.drlAdd routerAddr iface).2
  | ftAddDefault nextHop iface => (s.ftAddDefault nextHop iface).2
  | drlRemove d => s.drlRemove d
  | drlGetDr => s.drlGetDr.2
  | plAdd iface pfx pfxLen validLtime prefLtime now =>
    (s.plAdd iface pfx pfxLen validLtime prefLtime now).2
  | plFlags i flag => s.setDst i { s.dsts i with flags := insert flag (s.dsts i).flags }
  | plRemove i => s.plRemove i
  | ftAdd nextHop iface pfx pfxLen => (s.ftAdd nextHop iface pfx pfxLen).2
  | ftRemove i => s.ftRemove i
  | dcAdd nextHop iface dst => (s.dcAdd nextHop iface dst).2
  | dcRemove i => s.dcRemove i

end NibCall

/-- One call, unless an assertion on its arguments fails. -/
def nibStep {N O D : Nat} (s : Nib N O D) (c : NibCall N O D) : Option (Nib N O D) :=
  if c.Asserts then some (c.exec s) else none

/-- The NIB after a sequence of calls from startup. -/
def nibRun {N O D : Nat} (cs : List (NibCall N O D)) : Option (Nib N O D) := run nibStep Nib.init cs

end Riot.Ipv6
