import Riot.Ipv6.FragRbuf
import Riot.Lib.Runs

/-!
# The headers that reassembly entries point to

`gnrc_ipv6_ext_frag_reass` and the garbage collection, as far as they go through the reassembly
buffer: which packets an entry holds, whose headers it points to, and which packets are released or
returned. As long as no lookup claims a free entry in front of the one it finds, the header an entry
points to belongs to the packet it holds.
-/

namespace Riot.Ipv6

open Riot.Lib Function

/-! ## Fragments -/

/-- A received packet that starts with a fragment header, with what the packet buffer makes of the
requests of its reassembly: whether the header can be marked, space be allocated or extended, and
what new space holds. -/
structure Fragment where
  hdrs : Hdrs
  /-- fields of the fragment header: identification, offset in bytes, M flag, next header -/
  id : Nat
  offset : Nat
  more : Bool
  nh : Nat
  data : List UInt8
  now : Nat
  markOk : Bool
  addOk : Bool
  reallocOk : Bool
  space : List UInt8

/-- The result of `_overlaps`. -/
inductive LimitsRes where
  | new
  | duplicate
  | overlap
  | full
deriving DecidableEq

def checkOverlap (cur limits : Limits) : Bool := cur.start < limits.stop && limits.start < cur.stop

def overlaps (st : FragState) (i offset pktLen : Nat) : LimitsRes × FragState :=
  let start := offset / 8 % 2 ^ 16
  let stop := (offset + pktLen) / 8 % 2 ^ 16
  let limits : Limits := { start := start, stop := if start = stop then (stop + 1) % 2 ^ 16 else stop }
  match (st.rbuf i).limits.find? (checkOverlap · limits) with
  | none =>
    if st.freeLimits = 0 then (.full, st)
    else
      let sorted := ((st.rbuf i).limits ++ [limits]).mergeSort fun a b => a.start ≤ b.start
      (.new, { st with freeLimits := st.freeLimits - 1 }.setRbuf i { st.rbuf i with limits := sorted })
  | some res => if res = limits then (.duplicate, st) else (.new, st)

/-- A packet that reassembly returns: whose headers it has, and its payload. -/
structure Returned where
  hdr : Nat
  data : List UInt8

/-- No gap between an element of the list and the one behind it. -/
def contiguous : List Limits → Bool
  | a :: b :: ls => !(a.stop < b.start) && contiguous (b :: ls)
  | _ => true

namespace FragState

/-- `hdr->nh = nh` and `ipv6->len = len` -/
def setHdr (st : FragState) (p : Nat) (h : Hdrs) : FragState :=
  { st with hdrs := update st.hdrs p h }

def completed (st : FragState) (i : Nat) : Option Returned × FragState :=
  let r := st.rbuf i
  match r.limits with
  | [] => (none, st)
  | ptr :: _ =>
    if r.last ≠ 0 ∧ ptr.start = 0 then
      if contiguous r.limits then
        let st := match r.ipv6 with
          | some p => st.setHdr p { st.hdrs p with len := r.pktLen }
          | none => st
        let st := (st.setRbuf i { r with pkt := none }).rbufFree i
        match r.pkt with
        | some k => (some { hdr := k.hdr, data := k.data }, st.release k.hdr)
        | none => (none, st)
      else (none, st)
    else (none, st)

/-- What is done at `error_exit` and `error_release`. -/
def errorExit (st : FragState) (i n : Nat) : Option Returned × FragState :=
  (none, (st.rbufDel i).release n)

/-- `memcpy` to offset `off` of `data` -/
def copyTo (data : List UInt8) (off : Nat) (s : List UInt8) : List UInt8 :=
  data.take off ++ s ++ data.drop (off + s.length)

/-- A fragment that is not the first one: packet `n`, for entry `i`. -/
def subsequent (st : FragState) (i n : Nat) (f : Fragment) : Option Returned × FragState :=
  let sizeUntil := f.offset + f.data.length
  if f.more ∧ f.data.length % 8 ≠ 0 then st.errorExit i n
  else
    let r := st.rbuf i
    let r := if f.more then r
      else { r with last := (r.last + 1) % 2 ^ 8, pktLen := (r.pktLen + sizeUntil) % 2 ^ 16 }
    match r.pkt with
    | none =>
      if f.addOk then
        -- the headers of the fragment are kept for the datagram
        let data := (f.space ++ List.replicate sizeUntil 0).take sizeUntil
        let st := st.setRbuf i { r with pkt := some { hdr := n, data := copyTo data f.offset f.data } }
        st.completed i
      else (st.setRbuf i r).errorExit i n
    | some k =>
      if k.data.length < sizeUntil ∧ ¬f.reallocOk then (st.setRbuf i r).errorExit i n
      else
        let data := k.data ++ (f.space ++ List.replicate sizeUntil 0).take (sizeUntil - k.data.length)
        let st := st.setRbuf i { r with pkt := some { k with data := copyTo data f.offset f.data } }
        let st := if k.hdr = n then st else st.release n
        st.completed i

/-- The first fragment, with others to follow. -/
def first (st : FragState) (i n : Nat) (f : Fragment) : Option Returned × FragState :=
  let r := st.rbuf i
  if f.data.length % 8 ≠ 0 then st.errorExit i n
  else if r.pkt.any (·.data.length < f.data.length) then st.errorExit i n
  else
    let ipv6Len := (st.hdrs n).len
    let st := st.setHdr n { st.hdrs n with nh := f.nh }
    let pktLen := (r.pktLen + (ipv6Len + (2 ^ 16 - f.data.length % 2 ^ 16) + (2 ^ 16 - 8))) % 2 ^ 16
    match r.pkt with
    | some k =>
      -- first fragment but not first arriving: its headers replace those there were
      let st := st.setRbuf i { r with
        pkt := some { hdr := n, data := copyTo k.data 0 f.data }, ipv6 := some n, pktLen := pktLen }
      st.completed i
    | none =>
      (none, st.setRbuf i { r with pkt := some { hdr := n, data := f.data }, pktLen := pktLen })

/-- A packet arrives. -/
def receive (st : FragState) (f : Fragment) : FragState :=
  { st with next := st.next + 1, hdrs := update st.hdrs st.next f.hdrs }

/-- The part of `gnrc_ipv6_ext_frag_reass` behind the lookup. -/
def place (st : FragState) (i n : Nat) (f : Fragment) : Option Returned × FragState :=
  let st := st.setRbuf i { st.rbuf i with arrival := f.now % 2 ^ 32 }
  match overlaps st i f.offset f.data.length with
  | (.duplicate, st) => (none, st.release n)
  | (.overlap, st) => st.errorExit i n
  | (.full, st) => st.errorExit i n
  | (.new, st) =>
    if f.offset > 0 then st.subsequent i n f
    else if f.more then st.first i n f
    else
      -- first fragment but actually not fragmented
      let h := st.hdrs n
      let st := st.rbufDel i
      let st := st.setHdr n { h with nh := f.nh, len := (h.len + (2 ^ 16 - 8)) % 2 ^ 16 }
      (some { hdr := n, data := f.data }, st.release n)

def reass (cfg : FragConfig) (st : FragState) (f : Fragment) : Option Returned × FragState :=
  let n := st.next
  let st := st.receive f
  if ¬f.markOk then (none, st.release n)
  else if f.data = [] then (none, st.release n)
  else
    match rbufGet cfg st n f.id with
    | (none, st) => (none, st.release n)
    | (some i, st) => st.place i n f

/-- The loop of `gnrc_ipv6_ext_frag_rbuf_gc` over the next `n` entries. -/
def rbufGc (cfg : FragConfig) (now : Nat) : Nat → Nat → FragState → FragState
  | 0, _, st => st
  | n + 1, i, st =>
    if (now % 2 ^ 32 + (2 ^ 32 - (st.rbuf i).arrival)) % 2 ^ 32 > cfg.timeout then
      rbufGc cfg now n (i + 1) (st.rbufDel i)
    else rbufGc cfg now n (i + 1) st

end FragState

/-- What happens to the reassembly buffer. -/
inductive FragEvent where
  | fragment (f : Fragment)
  | gc (now : Nat)

/-- One call from the thread of the network layer. -/
def fragStep (cfg : FragConfig) (st : FragState) : FragEvent → Option FragState
  | .fragment f => some (st.reass cfg f).2
  | .gc now => some (st.rbufGc cfg now cfg.size 0)

/-! ## Whose header an entry points to -/

/-- An entry in use points to the header of the packet it holds, which is neither released nor held
by another entry; a free one holds nothing. -/
structure Owned (st : FragState) : Prop where
  clean : ∀ i, (st.rbuf i).ipv6 = none → (st.rbuf i).pkt = none ∧ (st.rbuf i).limits = []
  held : ∀ i p, (st.rbuf i).ipv6 = some p → ∃ k, (st.rbuf i).pkt = some k ∧ k.hdr = p
  live : ∀ i p, (st.rbuf i).ipv6 = some p → p < st.next ∧ p ∉ st.gone
  inj : ∀ i j p, (st.rbuf i).ipv6 = some p → (st.rbuf j).ipv6 = some p → i = j
  gone_lt : ∀ p ∈ st.gone, p < st.next

/-- Packet `n` is to be put into entry `i`. The other entries are as ever; this one holds a packet
that came earlier, or has just been claimed for `n`. -/
structure Placing (st : FragState) (i n : Nat) : Prop where
  next : st.next = n + 1
  gone_lt : ∀ p ∈ st.gone, p < n
  clean : ∀ j, j ≠ i → (st.rbuf j).ipv6 = none → (st.rbuf j).pkt = none ∧ (st.rbuf j).limits = []
  held : ∀ j p, j ≠ i → (st.rbuf j).ipv6 = some p → ∃ k, (st.rbuf j).pkt = some k ∧ k.hdr = p
  live : ∀ j p, j ≠ i → (st.rbuf j).ipv6 = some p → p < n ∧ p ∉ st.gone
  inj : ∀ j k p, j ≠ i → k ≠ i → (st.rbuf j).ipv6 = some p → (st.rbuf k).ipv6 = some p → j = k
  mine : ∀ k, (st.rbuf i).pkt = some k → (st.rbuf i).ipv6 = some k.hdr ∧ k.hdr < n ∧
    k.hdr ∉ st.gone ∧ ∀ j, j ≠ i → (st.rbuf j).ipv6 ≠ some k.hdr
  fresh : (st.rbuf i).pkt = none → (st.rbuf i).ipv6 = some n

variable {cfg : FragConfig} {st st' : FragState} {f : Fragment} {i n : Nat} {r : Rbuf}

/-- An entry is free and holds nothing, or points to the header of what it holds: packet `n`, or
what was held before. -/
def Settled (st : FragState) (i n : Nat) (gone : List Nat) (r : Rbuf) : Prop :=
  (r.ipv6 = none ∧ r.pkt = none ∧ r.limits = []) ∨
    ∃ k, r.pkt = some k ∧ r.ipv6 = some k.hdr ∧ k.hdr ∉ gone ∧
      (k.hdr = n ∨ ∃ k', (st.rbuf i).pkt = some k' ∧ k'.hdr = k.hdr)

/-- Once the entry is settled all of them are, if nothing is given up but packet `n` and what the
entry held. -/
theorem Placing.settle (h : Placing st i n) (hrbuf : st'.rbuf = update st.rbuf i r)
    (hnext : st'.next = st.next)
    (hgone : ∀ p ∈ st'.gone, p ∈ st.gone ∨ p = n ∨ ∃ k, (st.rbuf i).pkt = some k ∧ k.hdr = p)
    (hr : Settled st i n st'.gone r) : Owned st' := by
  have hother : ∀ j, j ≠ i → st'.rbuf j = st.rbuf j := fun j hj => by
    rw [hrbuf, update_of_ne hj]
  have hself : st'.rbuf i = r := by rw [hrbuf, update_self]
  have hlt : ∀ p, p ∈ st.gone ∨ p = n ∨ (∃ k, (st.rbuf i).pkt = some k ∧ k.hdr = p) → p < st'.next := by
    rintro p (hp | rfl | ⟨k, hk, rfl⟩)
    · have := h.gone_lt p hp
      have := h.next
      omega
    · have := h.next
      omega
    · have := (h.mine k hk).2.1
      have := h.next
      omega
  -- what the entry points to is pointed to by no other one
  have hmine : ∀ p, r.ipv6 = some p → p < st'.next ∧ p ∉ st'.gone ∧ (∃ k, r.pkt = some k ∧ k.hdr = p) ∧
      ∀ j, j ≠ i → (st.rbuf j).ipv6 ≠ some p := by
    intro p hp
    rcases hr with ⟨hnone, -, -⟩ | ⟨k, hk, hipv6, hk', hfrom⟩
    · rw [hnone] at hp
      cases hp
    · rw [hipv6] at hp
      cases hp
      refine ⟨?_, hk', ⟨k, hk, rfl⟩, fun j hj hjp => ?_⟩
      · rcases hfrom with rfl | ⟨k0, hk0, heq⟩
        · exact hlt _ (.inr (.inl rfl))
        · exact hlt _ (.inr (.inr ⟨k0, hk0, heq⟩))
      · rcases hfrom with hn | ⟨k0, hk0, heq⟩
        · have := (h.live j _ hj hjp).1
          omega
        · exact (h.mine k0 hk0).2.2.2 j hj (heq ▸ hjp)
  have hstay : ∀ j p, j ≠ i → (st.rbuf j).ipv6 = some p → p < st'.next ∧ p ∉ st'.gone := by
    intro j p hj hp
    have hlive := h.live j p hj hp
    have hnext' := h.next
    refine ⟨by omega, fun hmem => ?_⟩
    rcases hgone p hmem with hmem | rfl | ⟨k, hk, rfl⟩
    · exact hlive.2 hmem
    · exact Nat.lt_irrefl _ hlive.1
    · exact (h.mine k hk).2.2.2 j hj hp
  refine ⟨fun j hj => ?_, fun j p hj => ?_, fun j p hj => ?_, fun j k p hj hk => ?_,
    fun p hp => hlt p (hgone p hp)⟩
  · rcases eq_or_ne j i with rfl | hne
    · rw [hself] at hj ⊢
      rcases hr with ⟨-, hpkt, hlim⟩ | ⟨k, -, hipv6, -⟩
      · exact ⟨hpkt, hlim⟩
      · rw [hipv6] at hj
        cases hj
    · rw [hother j hne] at hj ⊢
      exact h.clean j hne hj
  · rcases eq_or_ne j i with rfl | hne
    · rw [hself] at hj ⊢
      exact (hmine p hj).2.2.1
    · rw [hother j hne] at hj ⊢
      exact h.held j p hne hj
  · rcases eq_or_ne j i with rfl | hne
    · rw [hself] at hj
      exact ⟨(hmine p hj).1, (hmine p hj).2.1⟩
    · rw [hother j hne] at hj
      exact hstay j p hne hj
  · rcases eq_or_ne j i with rfl | hji
    · rcases eq_or_ne k j with rfl | hki
      · rfl
      · rw [hself] at hj
        rw [hother k hki] at hk
        exact absurd hk ((hmine p hj).2.2.2 k hki)
    · rcases eq_or_ne k i with rfl | hki
      · rw [hself] at hk
        rw [hother j hji] at hj
        exact absurd hj ((hmine p hk).2.2.2 j hji)
      · rw [hother j hji] at hj
        rw [hother k hki] at hk
        exact h.inj j k p hji hki hj hk

/-! ### Freeing an entry -/

theorem rbufDel_rbuf (st : FragState) (i : Nat) : (st.rbufDel i).rbuf =
      update st.rbuf i { st.rbuf i with pkt := none, ipv6 := none, limits := [] } := by
  unfold FragState.rbufDel FragState.rbufFree FragState.setRbuf FragState.release
  cases (st.rbuf i).pkt <;> simp

theorem rbufDel_gone (st : FragState) (i p : Nat) :
    p ∈ (st.rbufDel i).gone ↔ p ∈ st.gone ∨ ∃ k, (st.rbuf i).pkt = some k ∧ k.hdr = p := by
  unfold FragState.rbufDel FragState.rbufFree FragState.setRbuf FragState.release
  cases hpkt : (st.rbuf i).pkt with
  | none => simp
  | some k => simp [or_comm, eq_comm]

theorem rbufDel_next (st : FragState) (i : Nat) : (st.rbufDel i).next = st.next := by
  unfold FragState.rbufDel FragState.rbufFree FragState.setRbuf FragState.release
  cases (st.rbuf i).pkt <;> rfl

theorem Placing.errorExit (h : Placing st i n) : Owned (st.errorExit i n).2 := by
  refine h.settle (rbufDel_rbuf st i) (rbufDel_next st i) (fun p hp => ?_) (.inl ⟨rfl, rfl, rfl⟩)
  rcases List.mem_cons.mp hp with rfl | hp
  · exact .inr (.inl rfl)
  · rcases (rbufDel_gone st i p).mp hp with hp | hk
    · exact .inl hp
    · exact .inr (.inr hk)

theorem Placing.setRbuf (h : Placing st i n) (hpkt : r.pkt = (st.rbuf i).pkt)
    (hipv6 : r.ipv6 = (st.rbuf i).ipv6) : Placing (st.setRbuf i r) i n := by
  have hother : ∀ j, j ≠ i → (st.setRbuf i r).rbuf j = st.rbuf j := fun j hj => update_of_ne hj _ _
  have hself : (st.setRbuf i r).rbuf i = r := update_self _ _ _
  refine ⟨h.next, h.gone_lt, fun j hj => ?_, fun j p hj => ?_, fun j p hj => ?_,
    fun j k p hj hk => ?_, fun k => ?_, ?_⟩
  · rw [hother j hj]
    exact h.clean j hj
  · rw [hother j hj]
    exact h.held j p hj
  · rw [hother j hj]
    exact h.live j p hj
  · rw [hother j hj, hother k hk]
    exact h.inj j k p hj hk
  · rw [hself, hpkt, hipv6]
    intro hk
    obtain ⟨h1, h2, h3, h4⟩ := h.mine k hk
    exact ⟨h1, h2, h3, fun j hj => by rw [hother j hj]; exact h4 j hj⟩
  · rw [hself, hpkt, hipv6]
    exact h.fresh

theorem Placing.release (h : Placing st i n) (hr : r.ipv6 = (st.rbuf i).ipv6) {k k' : RbufPkt}
    (hk : (st.rbuf i).pkt = some k) (hk' : r.pkt = some k') (hhdr : k'.hdr = k.hdr) :
    Owned ((st.setRbuf i r).release n) := by
  obtain ⟨hipv6, hlt, hgone, -⟩ := h.mine k hk
  refine h.settle rfl rfl (fun p hp => ?_)
    (.inr ⟨k', hk', by rw [hr, hipv6, hhdr], ?_, .inr ⟨k, hk, hhdr.symm⟩⟩)
  · rcases List.mem_cons.mp hp with rfl | hp
    · exact .inr (.inl rfl)
    · exact .inl hp
  · rw [hhdr]
    intro hmem
    rcases List.mem_cons.mp hmem with heq | hmem
    · omega
    · exact hgone hmem

theorem Placing.put (h : Placing st i n) {k : RbufPkt} (hk : r.pkt = some k) (hn : k.hdr = n)
    (hipv6 : r.ipv6 = some n) : Owned (st.setRbuf i r) := by
  refine h.settle rfl rfl (fun p hp => .inl hp) (.inr ⟨k, hk, by rw [hn, hipv6], ?_, .inl hn⟩)
  intro hmem
  have := h.gone_lt _ hmem
  omega

theorem Owned.setHdr (h : Owned st) (p : Nat) (x : Hdrs) : Owned (st.setHdr p x) :=
  ⟨h.clean, h.held, h.live, h.inj, h.gone_lt⟩

theorem Placing.setHdr (h : Placing st i n) (p : Nat) (x : Hdrs) : Placing (st.setHdr p x) i n :=
  ⟨h.next, h.gone_lt, h.clean, h.held, h.live, h.inj, h.mine, h.fresh⟩

theorem Owned.free (h : Owned st) (hrbuf : st'.rbuf = update st.rbuf i r)
    (hr : r.ipv6 = none ∧ r.pkt = none ∧ r.limits = []) (hnext : st'.next = st.next)
    (hgone : ∀ p ∈ st'.gone, p ∈ st.gone ∨ (st.rbuf i).ipv6 = some p) : Owned st' := by
  have hother : ∀ j, j ≠ i → st'.rbuf j = st.rbuf j := fun j hj => by
    rw [hrbuf, update_of_ne hj]
  have hself : st'.rbuf i = r := by rw [hrbuf, update_self]
  have hused : ∀ {j p}, (st'.rbuf j).ipv6 = some p → j ≠ i ∧ (st.rbuf j).ipv6 = some p := by
    intro j p hp
    rcases eq_or_ne j i with rfl | hne
    · rw [hself, hr.1] at hp
      cases hp
    · rw [hother j hne] at hp
      exact ⟨hne, hp⟩
  refine ⟨fun j hj => ?_, fun j p hp => ?_, fun j p hp => ?_, fun j k p hj hk => ?_, fun p hp => ?_⟩
  · rcases eq_or_ne j i with rfl | hne
    · rw [hself]
      exact hr.2
    · rw [hother j hne] at hj ⊢
      exact h.clean j hj
  · obtain ⟨hne, hp⟩ := hused hp
    rw [hother j hne]
    exact h.held j p hp
  · obtain ⟨hne, hp⟩ := hused hp
    rw [hnext]
    refine ⟨(h.live j p hp).1, fun hmem => ?_⟩
    rcases hgone p hmem with hmem | hi
    · exact (h.live j p hp).2 hmem
    · exact hne (h.inj j i p hp hi)
  · exact h.inj j k p (hused hj).2 (hused hk).2
  · rw [hnext]
    rcases hgone p hp with hp | hi
    · exact h.gone_lt p hp
    · exact (h.live i p hi).1

theorem Owned.completed (h : Owned st) (i : Nat) : Owned (st.completed i).2 := by
  unfold FragState.completed
  dsimp only
  split
  · exact h
  · split_ifs
    · -- the entry is freed, and what it held is returned
      cases hipv6 : (st.rbuf i).ipv6 with
      | none =>
        rw [(h.clean i hipv6).1]
        refine h.free (i := i) (r := { st.rbuf i with pkt := none, ipv6 := none, limits := [] }) ?_
          ⟨rfl, rfl, rfl⟩ rfl fun p hp => .inl hp
        simp [FragState.rbufFree, FragState.setRbuf]
      | some p =>
        obtain ⟨k, hk, hp⟩ := h.held i p hipv6
        rw [hk]
        refine h.free (i := i) (r := { st.rbuf i with pkt := none, ipv6 := none, limits := [] }) ?_
          ⟨rfl, rfl, rfl⟩ rfl fun q hq => ?_
        · simp [FragState.rbufFree, FragState.setRbuf, FragState.setHdr, FragState.release]
        · rcases List.mem_cons.mp hq with rfl | hq
          · exact .inr (hp ▸ hipv6)
          · exact .inl hq
    · exact h
    · exact h

/-! ### Placing a fragment -/

theorem Placing.subsequent (h : Placing st i n) (f : Fragment) : Owned (st.subsequent i n f).2 := by
  unfold FragState.subsequent
  dsimp only
  split
  · exact h.errorExit
  -- the counters of the last fragment do not matter
  have hr : ∀ g : Bool, (if g then st.rbuf i
      else { st.rbuf i with last := ((st.rbuf i).last + 1) % 2 ^ 8, pktLen := ((st.rbuf i).pktLen + (f.offset + f.data.length)) % 2 ^ 16 } : Rbuf).pkt = (st.rbuf i).pkt ∧
      (if g then st.rbuf i
      else { st.rbuf i with last := ((st.rbuf i).last + 1) % 2 ^ 8, pktLen := ((st.rbuf i).pktLen + (f.offset + f.data.length)) % 2 ^ 16 } : Rbuf).ipv6 = (st.rbuf i).ipv6 := by
    intro g
    cases g <;> exact ⟨rfl, rfl⟩
  obtain ⟨hpkt, hipv6⟩ := hr f.more
  generalize (if f.more then st.rbuf i
      else { st.rbuf i with last := ((st.rbuf i).last + 1) % 2 ^ 8, pktLen := ((st.rbuf i).pktLen + (f.offset + f.data.length)) % 2 ^ 16 } : Rbuf) = r
    at hpkt hipv6
  cases hk : (st.rbuf i).pkt with
  | none =>
    rw [hk] at hpkt
    rw [hpkt]
    dsimp only
    split
    · refine Owned.completed ?_ i
      exact h.put rfl rfl (hipv6.trans (h.fresh hk))
    · exact (h.setRbuf (hpkt.trans hk.symm) hipv6).errorExit
  | some k =>
    rw [hk] at hpkt
    rw [hpkt]
    dsimp only
    split
    · exact (h.setRbuf (hpkt.trans hk.symm) hipv6).errorExit
    · rw [if_neg (Nat.ne_of_lt (h.mine k hk).2.1)]
      refine Owned.completed ?_ i
      exact h.release hipv6 hk rfl rfl

theorem Placing.first (h : Placing st i n) (f : Fragment) : Owned (st.first i n f).2 := by
  unfold FragState.first
  dsimp only
  split
  · exact h.errorExit
  split
  · exact h.errorExit
  have hset := h.setHdr n { st.hdrs n with nh := f.nh }
  cases hk : (st.rbuf i).pkt with
  | none => exact hset.put rfl rfl (h.fresh hk)
  | some k => exact (hset.put rfl rfl rfl).completed i

theorem Placing.overlaps (h : Placing st i n) (hlim : (st.rbuf i).pkt = none → (st.rbuf i).limits = [])
    (offset len : Nat) :
    Placing (overlaps st i offset len).2 i n ∧ ((overlaps st i offset len).1 = .duplicate →
        (overlaps st i offset len).2 = st ∧ ∃ k, (st.rbuf i).pkt = some k) := by
  unfold Ipv6.overlaps
  dsimp only
  generalize ({ start := offset / 8 % 2 ^ 16, stop := _ } : Limits) = limits
  split
  · split
    · exact ⟨h, nofun⟩
    · refine ⟨?_, nofun⟩
      have hfree : Placing { st with freeLimits := st.freeLimits - 1 } i n :=
        ⟨h.next, h.gone_lt, h.clean, h.held, h.live, h.inj, h.mine, h.fresh⟩
      exact hfree.setRbuf rfl rfl
  · next res hfind =>
    have hsome : ∃ k, (st.rbuf i).pkt = some k := by
      cases hk : (st.rbuf i).pkt with
      | none =>
        rw [hlim hk] at hfind
        cases hfind
      | some k => exact ⟨k, rfl⟩
    split
    · exact ⟨h, fun _ => ⟨rfl, hsome⟩⟩
    · exact ⟨h, nofun⟩

theorem Placing.place (h : Placing st i n) (hlim : (st.rbuf i).pkt = none → (st.rbuf i).limits = [])
    (f : Fragment) : Owned (st.place i n f).2 := by
  unfold FragState.place
  dsimp only
  have harr : Placing (st.setRbuf i { st.rbuf i with arrival := f.now % 2 ^ 32 }) i n := h.setRbuf rfl rfl
  have hself : (st.setRbuf i { st.rbuf i with arrival := f.now % 2 ^ 32 }).rbuf i =
      { st.rbuf i with arrival := f.now % 2 ^ 32 } := update_self _ _ _
  obtain ⟨hover, hdup⟩ := harr.overlaps (by rw [hself]; exact hlim) f.offset f.data.length
  cases hres : Ipv6.overlaps (st.setRbuf i { st.rbuf i with arrival := f.now % 2 ^ 32 }) i f.offset
      f.data.length with
  | mk res st' =>
    rw [hres] at hover hdup
    cases res with
    | duplicate =>
      obtain ⟨rfl, k, hk⟩ := hdup rfl
      have hk' : (st.rbuf i).pkt = some k := by
        rw [hself] at hk
        exact hk
      exact h.release (r := { st.rbuf i with arrival := f.now % 2 ^ 32 }) rfl hk' hk' rfl
    | overlap => exact hover.errorExit
    | full => exact hover.errorExit
    | new =>
      dsimp only
      split
      · exact hover.subsequent f
      · split
        · exact hover.first f
        · -- the packet goes on unchanged
          have hdel : Owned ((st'.rbufDel i).release n) := hover.errorExit
          exact hdel.setHdr n _

/-! ### The lookup -/

theorem Placing.claim (hnext : st.next = n + 1) (hgone : ∀ p ∈ st.gone, p < n)
    (h : Owned { st with next := n }) (hpkt : (st.rbuf i).pkt = none) (id : Nat) :
    Placing (st.setRbuf i (initRbuf (st.rbuf i) n id)) i n := by
  have hother : ∀ j, j ≠ i → (st.setRbuf i (initRbuf (st.rbuf i) n id)).rbuf j = st.rbuf j :=
    fun j hj => update_of_ne hj _ _
  have hself : (st.setRbuf i (initRbuf (st.rbuf i) n id)).rbuf i = initRbuf (st.rbuf i) n id :=
    update_self _ _ _
  refine ⟨hnext, hgone, fun j hj => ?_, fun j p hj => ?_, fun j p hj => ?_, fun j k p hj hk => ?_,
    fun k hk => ?_, fun _ => ?_⟩
  · rw [hother j hj]
    exact h.clean j
  · rw [hother j hj]
    exact h.held j p
  · rw [hother j hj]
    exact h.live j p
  · rw [hother j hj, hother k hk]
    exact h.inj j k p
  · rw [hself] at hk
    rw [show (initRbuf (st.rbuf i) n id).pkt = (st.rbuf i).pkt from rfl, hpkt] at hk
    cases hk
  · rw [hself]
    rfl

theorem Owned.gone_of_del (h : Owned st) {p : Nat} (hp : p ∈ (st.rbufDel i).gone) :
    p ∈ st.gone ∨ (st.rbuf i).ipv6 = some p := by
  rcases (rbufDel_gone st i p).mp hp with hp | ⟨k, hk, rfl⟩
  · exact .inl hp
  · right
    cases hipv6 : (st.rbuf i).ipv6 with
    | none =>
      rw [(h.clean i hipv6).1] at hk
      cases hk
    | some q =>
      obtain ⟨k', hk', rfl⟩ := h.held i q hipv6
      rw [hk] at hk'
      rw [Option.some.inj hk']

theorem Owned.del (h : Owned st) (i : Nat) : Owned (st.rbufDel i) :=
  h.free (rbufDel_rbuf st i) ⟨rfl, rfl, rfl⟩ (rbufDel_next st i) fun _ hp => h.gone_of_del hp

theorem Owned.drop (h : Owned st) (f : Fragment) : Owned ((st.receive f).release st.next) := by
  refine ⟨h.clean, h.held, fun i p hp => ?_, h.inj, fun p hp => ?_⟩
  · obtain ⟨hlt, hgone⟩ := h.live i p hp
    refine ⟨Nat.lt_succ_of_lt hlt, fun hmem => ?_⟩
    rcases List.mem_cons.mp hmem with rfl | hmem
    · exact Nat.lt_irrefl _ hlt
    · exact hgone hmem
  · rcases List.mem_cons.mp hp with rfl | hp
    · exact Nat.lt_succ_self _
    · exact Nat.lt_succ_of_lt (h.gone_lt p hp)

theorem Owned.found (h : Owned st) (f : Fragment) {p : Nat} (hp : (st.rbuf i).ipv6 = some p) :
    Placing (st.receive f) i st.next := by
  refine ⟨rfl, h.gone_lt, fun j _ => h.clean j, fun j p _ => h.held j p, fun j p _ => h.live j p,
    fun j k p _ _ => h.inj j k p, fun k hk => ?_, fun hnone => ?_⟩
  · obtain ⟨k', hk', rfl⟩ := h.held i p hp
    obtain rfl := Option.some.inj (hk.symm.trans hk')
    obtain ⟨hlt, hgone⟩ := h.live i _ hp
    exact ⟨hp, hlt, hgone, fun j hj hjp => hj (h.inj j i _ hjp hp)⟩
  · obtain ⟨k', hk', -⟩ := h.held i p hp
    rw [show (st.rbuf i).pkt = none from hnone] at hk'
    cases hk'

theorem Owned.reass (h : Owned st) (f : Fragment)
    (hcond : f.markOk = true → f.data ≠ [] → NoFreeBefore cfg (st.receive f) st.next f.id) :
    Owned (st.reass cfg f).2 := by
  unfold FragState.reass
  dsimp only
  split
  · exact h.drop f
  next hmark =>
  split
  · exact h.drop f
  next hdata =>
  have hno := hcond (by simpa using hmark) hdata
  rcases rbufGet_cases cfg (st.receive f) st.next f.id with
    ⟨j, rbuf', hj, hfirst, hget, hclaim⟩ | ⟨-, ⟨k, hk, hget⟩ | ⟨hfull, hget⟩⟩
  · rw [hget]
    obtain ⟨p, hp⟩ : ∃ p, (st.rbuf j).ipv6 = some p := by
      have hmatch := hj.2
      unfold rbufMatches at hmatch
      cases hipv6 : ((st.receive f).rbuf j).ipv6 with
      | none =>
        rw [hipv6] at hmatch
        cases hmatch
      | some p => exact ⟨p, hipv6⟩
    have hplace := h.found f hp
    rcases hclaim with ⟨rfl, -⟩ | ⟨k, hk, hkfree, -⟩
    · refine hplace.place (fun hnone => ?_) f
      obtain ⟨k', hk', -⟩ := h.held j p hp
      rw [show (st.rbuf j).pkt = none from hnone] at hk'
      cases hk'
    · exact absurd hkfree (hno j hj hfirst k hk)
  · rw [hget]
    have hclean := h.clean k hk.2
    have hclaim := @Placing.claim (st.receive f) k st.next rfl h.gone_lt
      ⟨h.clean, h.held, h.live, h.inj, h.gone_lt⟩ hclean.1 f.id
    refine hclaim.place (fun _ => ?_) f
    rw [show ((st.receive f).setRbuf k (initRbuf ((st.receive f).rbuf k) st.next f.id)).rbuf k =
      initRbuf ((st.receive f).rbuf k) st.next f.id from update_self _ _ _]
    exact hclean.2
  · rw [hget]
    split_ifs
    · exact h.drop f
    · -- the entry evicted is claimed like a free one
      have hgone : ∀ p ∈ ((st.receive f).rbufDel (keptEntry st.rbuf (cfg.size - 1))).gone,
          p ∈ st.gone ∨ (st.rbuf (keptEntry st.rbuf (cfg.size - 1))).ipv6 = some p := by
        intro p hp
        exact h.gone_of_del ((rbufDel_gone st _ p).mpr ((rbufDel_gone (st.receive f) _ p).mp hp))
      have hself : ((st.receive f).rbufDel (keptEntry st.rbuf (cfg.size - 1))).rbuf
          (keptEntry st.rbuf (cfg.size - 1)) =
          { st.rbuf (keptEntry st.rbuf (cfg.size - 1)) with pkt := none, ipv6 := none, limits := [] } := by
        rw [rbufDel_rbuf, update_self]
        rfl
      have hdel : Owned { (st.receive f).rbufDel (keptEntry st.rbuf (cfg.size - 1)) with next := st.next } :=
        h.free (rbufDel_rbuf (st.receive f) _) ⟨rfl, rfl, rfl⟩ rfl hgone
      have hclaim := Placing.claim (i := keptEntry st.rbuf (cfg.size - 1)) (n := st.next)
        (rbufDel_next (st.receive f) _) hdel.gone_lt hdel (by rw [hself]) f.id
      refine hclaim.place (fun _ => ?_) f
      rw [show (((st.receive f).rbufDel (keptEntry st.rbuf (cfg.size - 1))).setRbuf _ _).rbuf
        (keptEntry st.rbuf (cfg.size - 1)) = initRbuf _ st.next f.id from update_self _ _ _, hself]
      rfl
    · exact h.drop f

theorem Owned.rbufGc (h : Owned st) (now k i : Nat) : Owned (st.rbufGc cfg now k i) := by
  induction k generalizing st i with
  | zero => exact h
  | succ k ih =>
    rw [FragState.rbufGc]
    split
    · exact ih (h.del i) (i + 1)
    · exact ih h (i + 1)

/-! ## Lookups and runs -/

/-- A table with nothing in it, and `pool` limits objects. -/
def FragState.init (hdrs : Nat → Hdrs) (pool : Nat) : FragState :=
  { rbuf := fun _ => { pkt := none, ipv6 := none, limits := [], id := 0, arrival := 0, pktLen := 0, last := 0 }
    freeLimits := pool, hdrs := hdrs, gone := [], next := 0 }

/-- The lookup for a fragment, if there is one, claims no entry in front of the one it finds. -/
def LookupOk (cfg : FragConfig) (st : FragState) : FragEvent → Prop
  | .fragment f => f.markOk = true → f.data ≠ [] → NoFreeBefore cfg (st.receive f) st.next f.id
  | .gc _ => True

/-- No entry points to a header that is gone, and a free entry holds nothing. -/
def NoStaleHeader (st : FragState) : Prop :=
  (∀ i p, (st.rbuf i).ipv6 = some p → p ∉ st.gone) ∧
    ∀ i, (st.rbuf i).ipv6 = none → (st.rbuf i).pkt = none ∧ (st.rbuf i).limits = []

theorem Owned.init (hdrs : Nat → Hdrs) (pool : Nat) : Owned (FragState.init hdrs pool) :=
  ⟨fun _ _ => ⟨rfl, rfl⟩, fun _ _ hp => (nomatch hp), fun _ _ hp => (nomatch hp),
    fun _ _ _ hp => (nomatch hp), nofun⟩

theorem Owned.step (e : FragEvent) (h : Owned st) (hok : LookupOk cfg st e)
    (hstep : fragStep cfg st e = some st') : Owned st' := by
  cases e with
  | fragment f =>
    rw [← Option.some.inj hstep]
    exact h.reass f hok
  | gc now =>
    rw [← Option.some.inj hstep]
    exact h.rbufGc now cfg.size 0

/-- A lookup is right exactly if no free entry lies in front of the one looked for and, where an
entry is evicted, the first one is the earliest and is kept. As long as lookups meet the first of
these conditions, no entry points to a header that is gone. -/
theorem lookupRight_iff (cfg : FragConfig) :
    (∀ (st : FragState) (ipv6 id : Nat) (T : Nat → Nat), 0 < cfg.size →
      ((¬∃ j, Free cfg st j) → ArrivedAt st.rbuf T (cfg.size - 1)) →
      (LookupRight cfg st ipv6 id T ↔ LookupCond cfg st ipv6 id T)) ∧
    ∀ (hdrs : Nat → Hdrs) (pool : Nat) (es : List FragEvent),
      Along (fragStep cfg) (LookupOk cfg) (FragState.init hdrs pool) es →
      Always (fragStep cfg) NoStaleHeader (FragState.init hdrs pool) es := by
  refine ⟨fun st ipv6 id T hsize hT => ⟨fun h => h.cond hsize hT, fun h => h.right hsize hT⟩,
    fun hdrs pool es halong => ?_⟩
  refine always_of_along (I := Owned) (fun st h => ⟨fun i p hp => (h.live i p hp).2, h.clean⟩)
    (fun st e st' h hok hstep => h.step e hok hstep) es (Owned.init hdrs pool) halong

theorem lookupRight_single :
    LookupRight ⟨1, 10000000, true⟩ (FragState.init (fun _ => ⟨0, 0, 0, 0⟩) 2) 0 0 id := by
  have hfree : ∃ j, Free ⟨1, 10000000, true⟩ (FragState.init (fun _ => ⟨0, 0, 0, 0⟩) 2) j :=
    ⟨0, Nat.one_pos, rfl⟩
  refine ((lookupRight_iff _).1 _ 0 0 _ Nat.one_pos fun hfull => absurd hfree hfull).mpr
    ⟨fun j hj _ i hi => ?_, fun _ hfull => absurd hfree hfull⟩
  exact absurd hj.1 (not_lt.mpr (lt_of_le_of_lt (Nat.zero_le i) hi))

/-- Two entries, of which the first is free and the second holds the datagram of packet 0. -/
def secondOfTwo : FragState :=
  { FragState.init (fun _ => ⟨1, 2, 0, 0⟩) 2 with
    rbuf := fun i =>
      { pkt := if i = 1 then some ⟨0, []⟩ else none, ipv6 := if i = 1 then some 0 else none
        limits := [], id := 7, arrival := 0, pktLen := 0, last := 0 }
    next := 2 }

theorem not_lookupRight :
    ¬∀ (cfg : FragConfig) (st : FragState) (ipv6 id : Nat) (T : Nat → Nat), 0 < cfg.size →
      ((¬∃ j, Free cfg st j) → ArrivedAt st.rbuf T (cfg.size - 1)) → LookupRight cfg st ipv6 id T := by
  intro h
  have hfree : Free ⟨2, 10000000, true⟩ secondOfTwo 0 := ⟨Nat.two_pos, rfl⟩
  have hcond := (h ⟨2, 10000000, true⟩ secondOfTwo 1 7 id Nat.two_pos
    fun hfull => absurd ⟨0, hfree⟩ hfull).cond Nat.two_pos fun hfull => absurd ⟨0, hfree⟩ hfull
  refine hcond.noFree 1 ⟨Nat.one_lt_two, rfl⟩ (fun i hi hp => ?_) 0 Nat.one_pos hfree
  rw [Nat.lt_one_iff.mp hi] at hp
  exact Bool.noConfusion hp.2

end Riot.Ipv6
