import Riot.Rpl.SrhVector
import Mathlib.Data.List.Nodup

/-!
# Routes through source routing headers

The run over the hops of a route: the destinations visited end up where the listed
addresses were. The count of addresses is narrowed to eight bits, so that this holds
for up to 255 of them.
-/

namespace Riot.Rpl

open Riot.Ipv6 List

/-! ## Routes -/

/-- A packet whose source routing header describes distinct unicast addresses that share
the elided octets with the destination. -/
structure Route where
  ipv6 : Ipv6Hdr
  rh : Srh
  addrs : List Addr
  padding : List Byte
  lists : Lists rh addrs padding
  nodup : addrs.Nodup
  unicast : ∀ a ∈ addrs, ¬isMulticast a
  shared : ∀ a ∈ addrs, rh.Shared a ipv6.dst
  segLeft_le : rh.segLeft.toNat ≤ addrs.length

namespace Route

/-- `seg_left`, as the packet starts. -/
def segLeft (r : Route) : Nat := r.rh.segLeft.toNat

/-- The listed addresses that are left to visit. -/
def ahead (r : Route) : List Addr := r.addrs.drop (r.addrs.length - r.segLeft)

/-- The destinations on the way: the first one, and those that are left to visit. -/
def visited (r : Route) : List Addr := r.ipv6.dst :: r.ahead

/-- What is listed after `k` hops: the destinations visited stand where the next ones
were. -/
def listed (r : Route) (k : Nat) : List Addr :=
  r.addrs.take (r.addrs.length - r.segLeft) ++ (r.visited.take k ++ r.ahead.drop k)

end Route

/-- The nodes along a route, each with the addresses of its interfaces. A node's
addresses are unicast (`gnrc_netif_ipv6_addr_add_internal` asserts it), and of those on the
route it has the one the packet is for. `stack` is what its stack happens to hold. -/
structure Hops (r : Route) where
  owns : Nat → Addr → Bool
  stack : Nat → Addr
  owns_unicast : ∀ k a, owns k a = true → ¬isMulticast a
  owns_visited : ∀ k < r.segLeft, ∀ a ∈ r.ipv6.dst :: r.addrs,
    owns k a = true ↔ a = r.visited.getD k r.ipv6.dst

/-- The packet after `k` hops, each of which forwards it. -/
def Hops.run {r : Route} (hops : Hops r) : Nat → Option (Ipv6Hdr × Srh)
  | 0 => some (r.ipv6, r.rh)
  | k + 1 =>
    match hops.run k with
    | none => none
    | some (ipv6, rh) =>
      match gnrcRplSrhProcess (hops.owns k) (hops.stack k) ipv6 rh none with
      | some ⟨.forwarded, _, ipv6, rh⟩ => some (ipv6, rh)
      | _ => none

/-- The packet is for the listed addresses in turn, and at the end the address vector
holds the destinations visited before. -/
def Hops.Routes {r : Route} (hops : Hops r) : Prop :=
  (∀ k ≤ r.segLeft, (hops.run k).map (·.1.dst) = r.visited[k]?) ∧
    (hops.run r.segLeft).map (·.2.vec) =
      some (encode r.rh.comprI r.rh.comprE (r.listed r.segLeft) ++ r.padding)

namespace Route

variable {r : Route} {k : Nat}

theorem length_ahead : r.ahead.length = r.segLeft := by
  have : r.segLeft ≤ r.addrs.length := r.segLeft_le
  rw [ahead, length_drop]
  omega

theorem length_visited : r.visited.length = r.segLeft + 1 := congrArg (· + 1) length_ahead

theorem length_before : (r.addrs.take (r.addrs.length - r.segLeft)).length = r.addrs.length - r.segLeft := by
  rw [length_take]
  omega

theorem length_listed (hk : k ≤ r.segLeft) : (r.listed k).length = r.addrs.length := by
  have : r.segLeft ≤ r.addrs.length := r.segLeft_le
  rw [listed, length_append, length_before, length_append, length_take,
    length_drop, length_visited, length_ahead]
  omega

theorem listed_zero : r.listed 0 = r.addrs := take_append_drop _ _

theorem listed_getElem? (hk : k < r.segLeft) :
    (r.listed k)[r.addrs.length - r.segLeft + k]? = r.visited[k + 1]? := by
  have htake : (r.visited.take k).length = k := by
    rw [length_take, length_visited]
    omega
  rw [listed, getElem?_append_right (by rw [length_before]; omega), length_before,
    Nat.add_sub_cancel_left, getElem?_append_right (by omega), htake, Nat.sub_self,
    getElem?_drop, Nat.add_zero]
  rfl

/-- A hop leaves the destination in the place of the address that was up next. -/
theorem listed_succ (hk : k < r.segLeft) {d : Addr} (hd : r.visited[k]? = some d) :
    (r.listed k).set (r.addrs.length - r.segLeft + k) d = r.listed (k + 1) := by
  have htake : (r.visited.take k).length = k := by
    rw [length_take, length_visited]
    omega
  have hlt : k < r.ahead.length := by
    rw [length_ahead]
    exact hk
  rw [listed, listed, set_append_right _ _ (by rw [length_before]; omega), length_before,
    Nat.add_sub_cancel_left, set_append_right _ _ (by omega), htake, Nat.sub_self,
    drop_eq_getElem_cons hlt, set_cons_zero, take_add_one, hd]
  simp

theorem listed_perm {d : Addr} (hd : r.visited[k]? = some d) :
    (d :: r.listed k).Perm (r.ipv6.dst :: r.addrs) := by
  have hvisited : r.visited.take k ++ [d] = r.visited.take (k + 1) := by
    rw [take_add_one, hd]
    rfl
  have hahead : r.visited.take (k + 1) ++ r.ahead.drop k = r.ipv6.dst :: r.ahead := by
    show r.ipv6.dst :: (r.ahead.take k ++ r.ahead.drop k) = _
    rw [take_append_drop]
  have hsplit : r.addrs.take (r.addrs.length - r.segLeft) ++ r.ahead = r.addrs := take_append_drop _ _
  have hfirst : (d :: r.listed k).Perm (r.addrs.take (r.addrs.length - r.segLeft) ++
      (r.visited.take k ++ d :: r.ahead.drop k)) :=
    (perm_middle.symm).trans (perm_middle.symm.append_left _)
  have hlast : (r.addrs.take (r.addrs.length - r.segLeft) ++ r.ipv6.dst :: r.ahead).Perm
      (r.ipv6.dst :: (r.addrs.take (r.addrs.length - r.segLeft) ++ r.ahead)) := perm_middle
  rw [hsplit, ← hahead, ← hvisited, append_assoc, singleton_append] at hlast
  exact hfirst.trans hlast

/-- The header after `k` hops. -/
def rhAt (r : Route) (k : Nat) : Srh :=
  { r.rh with
    segLeft := BitVec.ofNat 8 (r.segLeft - k)
    vec := encode r.rh.comprI r.rh.comprE (r.listed k) ++ r.padding }

theorem rhAt_zero : r.rhAt 0 = r.rh := by
  unfold rhAt
  rw [listed_zero, ← r.lists.vec, Nat.sub_zero, segLeft, BitVec.ofNat_toNat, BitVec.setWidth_eq]

theorem lists_rhAt (hk : k ≤ r.segLeft) : Lists (r.rhAt k) (r.listed k) r.padding where
  vec := rfl
  padding_length := r.lists.padding_length
  vec_length := by
    have hsame : (encode r.rh.comprI r.rh.comprE (r.listed k)).length =
        (encode r.rh.comprI r.rh.comprE r.addrs).length := by
      by_cases hne : r.addrs = []
      · have hnil : r.listed k = [] := by
          refine eq_nil_of_length_eq_zero ?_
          rw [length_listed hk, hne]
          rfl
        rw [hnil, hne]
      · have hne' : r.listed k ≠ [] := by
          refine ne_nil_of_length_pos ?_
          rw [length_listed hk]
          exact length_pos_iff.mpr hne
        rw [length_encode hne, length_encode hne', length_listed hk]
    have hlen := r.lists.vec_length
    rw [r.lists.vec, length_append] at hlen
    show (encode r.rh.comprI r.rh.comprE (r.listed k) ++ r.padding).length = r.rh.len.toNat * 8
    rw [length_append, hsame, hlen]

theorem mem_visited {d : Addr} (h : r.visited[k]? = some d) : d ∈ r.ipv6.dst :: r.addrs := by
  rcases mem_cons.mp (mem_of_getElem? h) with rfl | hmem
  · exact mem_cons_self
  · exact mem_cons_of_mem _ (mem_of_mem_drop hmem)

theorem shared_dst {a : Addr} (h : a ∈ r.ipv6.dst :: r.addrs) : r.rh.Shared a r.ipv6.dst := by
  rcases mem_cons.mp h with rfl | hmem
  · rfl
  · exact r.shared a hmem

/-- **The packet after `k` hops**, as long as the count of addresses is not narrowed. -/
theorem run_eq {hops : Hops r} (hn : r.addrs.length ≤ 255) (hk : k ≤ r.segLeft) :
    ∃ d, r.visited[k]? = some d ∧ hops.run k = some (⟨r.ipv6.hl, d⟩, r.rhAt k) := by
  induction k with
  | zero => exact ⟨r.ipv6.dst, rfl, by rw [rhAt_zero]; rfl⟩
  | succ k ih =>
    obtain ⟨d, hd, hrun⟩ := ih (by omega)
    have hlist := lists_rhAt (r := r) (k := k) (by omega)
    have hperm := listed_perm hd
    have hlen := length_listed (r := r) (k := k) (by omega)
    have hle : r.segLeft ≤ r.addrs.length := r.segLeft_le
    have hmem : ∀ a ∈ r.listed k, a ∈ r.ipv6.dst :: r.addrs := fun a ha =>
      hperm.subset (mem_cons_of_mem _ ha)
    have howns := hops.owns_visited k (by omega)
    have hget : r.visited.getD k r.ipv6.dst = d := by
      rw [getD_eq_getElem?_getD, hd]
      rfl
    rw [hget] at howns
    have hcount : (r.listed k).count d ≤ 1 := by
      have hsum := hperm.count_eq d
      rw [count_cons_self, count_cons] at hsum
      have hone := nodup_iff_count_le_one.mp r.nodup d
      split at hsum <;> omega
    have hd_uni : ¬isMulticast d := hops.owns_unicast k d ((howns d (mem_visited hd)).mpr rfl)
    -- the first hop owns the first destination, so that no address on the route is multicast
    have huni : ∀ a ∈ r.listed k, ¬isMulticast a := by
      intro a ha
      rcases mem_cons.mp (hmem a ha) with rfl | ha'
      · refine hops.owns_unicast 0 r.ipv6.dst ?_
        exact (hops.owns_visited 0 (by omega) r.ipv6.dst mem_cons_self).mpr rfl
      · exact r.unicast a ha'
    have hseg : (r.rhAt k).segLeft.toNat = r.segLeft - k := by
      show (BitVec.ofNat 8 (r.segLeft - k)).toNat = _
      rw [BitVec.toNat_ofNat]
      omega
    have hseg0 : (r.rhAt k).segLeft ≠ 0#8 := by
      intro h0
      rw [h0] at hseg
      change 0 = _ at hseg
      omega
    have hnext := listed_getElem? (r := r) (k := k) (by omega)
    rw [getElem?_eq_getElem (by omega)] at hnext
    have hstep : gnrcRplSrhProcess (hops.owns k) (hops.stack k) ⟨r.ipv6.hl, d⟩ (r.rhAt k) none =
        some ⟨.forwarded, none, ⟨r.ipv6.hl, (r.listed k)[r.addrs.length - r.segLeft + k]⟩, _⟩ :=
      hlist.step (by omega)
        (fun a ha => (shared_dst (hmem a ha)).trans (shared_dst (mem_visited hd)).symm) hd_uni huni
        (fun a ha hown => (howns a (hmem a ha)).mp hown) hcount hseg0 (by omega) (by omega)
    have hpred : BitVec.ofNat 8 (r.segLeft - k) - 1#8 = BitVec.ofNat 8 (r.segLeft - (k + 1)) := by
      refine BitVec.eq_of_toNat_eq ?_
      show ((r.rhAt k).segLeft - 1#8).toNat = _
      rw [toNat_pred hseg0, hseg, BitVec.toNat_ofNat]
      omega
    refine ⟨_, hnext.symm, ?_⟩
    rw [Hops.run, hrun]
    dsimp only
    rw [hstep, listed_succ (by omega) hd]
    dsimp only [rhAt]
    rw [hpred]
    rfl

/-- Where the narrowed count is wrong, all the same nothing is to be done: one segment is
left, the destination is the last address already, and the bytes at the entry the count
takes for the last one are its own. -/
def AtLast (r : Route) : Prop :=
  r.segLeft = 1 ∧ r.addrs.getLast? = some r.ipv6.dst ∧ 0 < r.addrs.length % 256 ∧
    (r.rh.vec.drop ((r.addrs.length % 256 - 1) * (16 - r.rh.comprI))).take (16 - r.rh.comprE) =
      r.ipv6.dst.toList.drop r.rh.comprE

/-- The header counts its addresses right, or it does not matter. -/
def Counted (r : Route) : Prop := r.segLeft = 0 ∨ r.addrs.length ≤ 255 ∨ r.AtLast

theorem routes_of_segLeft_zero (hops : Hops r) (h : r.segLeft = 0) : hops.Routes := by
  constructor
  · intro k hk
    obtain rfl : k = 0 := by omega
    rfl
  · rw [h, listed_zero, ← r.lists.vec]
    rfl

theorem routes_of_length_le (hops : Hops r) (h : r.addrs.length ≤ 255) : hops.Routes := by
  constructor
  · intro k hk
    obtain ⟨d, hd, hrun⟩ := @run_eq r _ hops h hk
    rw [hrun, hd]
    rfl
  · obtain ⟨d, -, hrun⟩ := @run_eq r _ hops h (Nat.le_refl _)
    rw [hrun]
    rfl

/-- The first hop, if it does anything, works on the entry the narrowed count gives. -/
theorem run_one (hops : Hops r) (hpos : r.segLeft ≠ 0) {i : Nat} (hi : i + r.segLeft = r.addrs.length % 256) :
    hops.run 1 = if isMulticast (r.rh.entry (hops.stack 0) r.ipv6.dst (r.addrs.length % 256) i) then none
      else
        match containsMultipleOfMyAddr (hops.owns 0) (hops.stack 0) r.ipv6.dst r.rh
          (r.addrs.length % 256) with
        | some none =>
          some ({ r.ipv6 with dst := r.rh.entry (hops.stack 0) r.ipv6.dst (r.addrs.length % 256) i },
            { r.rh with
              segLeft := r.rh.segLeft - 1#8
              vec := r.rh.swapped r.ipv6.dst (r.addrs.length % 256) i })
        | _ => none := by
  have hne : r.addrs ≠ [] := ne_nil_of_length_pos (by omega)
  have hseg : r.rh.segLeft ≠ 0#8 := fun h0 => hpos (by rw [segLeft, h0]; rfl)
  have hdst : ¬isMulticast r.ipv6.dst := by
    refine hops.owns_unicast 0 r.ipv6.dst ?_
    exact (hops.owns_visited 0 (by omega) r.ipv6.dst mem_cons_self).mpr rfl
  rw [Hops.run, Hops.run]
  dsimp only
  rw [gnrcRplSrhProcess_eq r.lists.vec_length hseg (r.lists.len_ok hne) (r.lists.numAddr hne).symm hi,
    if_neg hdst]
  by_cases hmulti : isMulticast (r.rh.entry (hops.stack 0) r.ipv6.dst (r.addrs.length % 256) i)
  · rw [if_pos hmulti, if_pos hmulti]
  · rw [if_neg hmulti, if_neg hmulti]
    generalize containsMultipleOfMyAddr (hops.owns 0) (hops.stack 0) r.ipv6.dst r.rh
      (r.addrs.length % 256) = search
    match search with
    | none => rfl
    | some none => rfl
    | some (some at_) => rfl

/-- A count narrowed to less than what is left makes the first hop discard the packet. -/
theorem run_one_none (hops : Hops r) (hlt : r.addrs.length % 256 < r.segLeft) : hops.run 1 = none := by
  have hle : r.segLeft ≤ r.addrs.length := r.segLeft_le
  have hne : r.addrs ≠ [] := ne_nil_of_length_pos (by omega)
  have hseg : r.rh.segLeft ≠ 0#8 := fun h0 => by
    rw [segLeft, h0] at hlt
    exact absurd hlt (by simp)
  have hnum : r.rh.numAddr < r.rh.segLeft := by
    rw [BitVec.lt_def, r.lists.numAddr hne]
    exact hlt
  rw [Hops.run, Hops.run]
  unfold gnrcRplSrhProcess
  dsimp only
  rw [if_neg (r.lists.len_ok hne), if_neg hseg, if_pos hnum]

/-- The last entry of the vector lies behind whatever a narrowed count leads to. -/
theorem drop_swapped {d : Addr} {m : Nat} (hm : m = r.addrs.length % 256)
    (hn : 256 ≤ r.addrs.length) (hpos : 0 < m) :
    (r.rh.swapped d m (m - 1)).drop ((r.addrs.length - 1) * (16 - r.rh.comprI)) =
      r.rh.vec.drop ((r.addrs.length - 1) * (16 - r.rh.comprI)) := by
  have hci := r.rh.comprI_lt
  have hbytes := r.lists.bytes (ne_nil_of_length_pos (by omega))
  have hvec := r.lists.vec_length
  have hel : r.rh.elided m (m - 1) = r.rh.comprE := if_pos rfl
  -- at least 256 entries of an octet or more lie between
  obtain ⟨q, hq⟩ : ∃ q, r.addrs.length - 1 = m - 1 + (q + 256) :=
    ⟨r.addrs.length - 1 - (m - 1) - 256, by omega⟩
  have hgap : (r.addrs.length - 1) * (16 - r.rh.comprI) =
      (m - 1) * (16 - r.rh.comprI) + (q + 256) * (16 - r.rh.comprI) := by
    rw [hq, Nat.add_mul]
  have hwide : 16 ≤ (q + 256) * (16 - r.rh.comprI) :=
    Nat.le_trans (by omega) (Nat.le_mul_of_pos_right _ (by omega))
  unfold Srh.swapped
  rw [hel]
  have hfront : (r.rh.vec.take ((m - 1) * (16 - r.rh.comprI)) ++ d.toList.drop r.rh.comprE).length =
        (m - 1) * (16 - r.rh.comprI) + (16 - r.rh.comprE) := by
    rw [length_append, length_take, length_drop, Vector.length_toList]
    omega
  rw [drop_append, drop_of_length_le (by omega), nil_append, hfront,
    drop_drop]
  congr 1
  omega

theorem drop_overlay {p : Addr} {e : Nat} {bytes : List Byte}
    (hlen : bytes.length = 16 - e) : (overlay p e bytes).toList.drop e = bytes := by
  refine ext_getElem (by simp [hlen]) fun k hk hk' => ?_
  rw [getElem_drop, Vector.getElem_toList]
  unfold overlay
  rw [Vector.getElem_ofFn]
  dsimp only
  rw [if_pos (by omega), Nat.add_sub_cancel_left, getElem?_eq_getElem hk', Option.getD_some]

theorem last_entry {rh : Srh} {l : List Addr} {padding : List Byte} (h : Lists rh l padding)
    (hpos : 0 < l.length) :
    (rh.vec.drop ((l.length - 1) * (16 - rh.comprI))).take (16 - rh.comprE) =
      l[l.length - 1].toList.drop rh.comprE := by
  have hbytes := h.entry_bytes (i := l.length - 1) (by omega)
  have hel : rh.elided l.length (l.length - 1) = rh.comprE := if_pos rfl
  rwa [hel] at hbytes

/-- The current entry of the narrowed count, when no segment is left behind it. -/
theorem entry_narrowed {stack dst : Addr} {m : Nat} (hm : m = r.addrs.length % 256) (hpos : 0 < m) :
    (r.rh.entry stack dst m (m - 1)).toList.drop r.rh.comprE =
      (r.rh.vec.drop ((m - 1) * (16 - r.rh.comprI))).take (16 - r.rh.comprE) := by
  have hne : r.addrs ≠ [] := fun h0 => by
    rw [h0] at hm
    simp at hm
    omega
  have hel : r.rh.elided m (m - 1) = r.rh.comprE := if_pos rfl
  have hnum := r.lists.numAddr hne
  have hfit := entry_fits (r.lists.len_ok hne) r.lists.vec_length (i := m - 1) (by omega)
  rw [hnum, ← hm, hel] at hfit
  unfold Srh.entry
  rw [hel, drop_overlay]
  rw [length_take, length_drop]
  omega

theorem not_routes_of_lt (hops : Hops r) (hn : 256 ≤ r.addrs.length) (hseg : 2 ≤ r.segLeft) :
    ¬hops.Routes := by
  intro hroutes
  have hfirst := hroutes.1 1 (by omega)
  have hnext : r.visited[1]? = r.addrs[r.addrs.length - r.segLeft]? := by
    show r.ahead[0]? = _
    rw [ahead, getElem?_drop, Nat.add_zero]
  rw [hnext, getElem?_eq_getElem (by omega)] at hfirst
  by_cases hlt : r.addrs.length % 256 < r.segLeft
  · rw [run_one_none hops hlt] at hfirst
    exact absurd hfirst (by simp)
  obtain ⟨i, hi⟩ : ∃ i, i + r.segLeft = r.addrs.length % 256 := ⟨r.addrs.length % 256 - r.segLeft, by omega⟩
  rw [run_one hops (by omega) hi] at hfirst
  -- the entry the hop works on is one further up the list
  have hentry : r.rh.entry (hops.stack 0) r.ipv6.dst (r.addrs.length % 256) i = r.addrs[i] := by
    have hel : r.rh.elided (r.addrs.length % 256) i = r.rh.elided r.addrs.length i := by
      rw [Srh.elided, Srh.elided, if_neg (by omega), if_neg (by omega)]
    have : r.rh.entry (hops.stack 0) r.ipv6.dst r.addrs.length i = r.addrs[i] :=
      r.lists.entry (by omega) (r.shared _ (getElem_mem (by omega)))
    unfold Srh.entry at this ⊢
    rw [hel]
    exact this
  rw [hentry] at hfirst
  have heq : r.addrs[i] = r.addrs[r.addrs.length - r.segLeft] := by
    split at hfirst
    next => exact absurd hfirst (by simp)
    next =>
      split at hfirst
      next => simpa using hfirst
      next => exact absurd hfirst (by simp)
  have hidx := (List.Nodup.getElem_inj_iff r.nodup).mp heq
  omega

theorem atLast_of_routes (hops : Hops r) (hn : 256 ≤ r.addrs.length) (hseg : r.segLeft = 1)
    (hroutes : hops.Routes) : r.AtLast := by
  have hfirst := hroutes.1 1 (by omega)
  have hvec := hroutes.2
  have hnext : r.visited[1]? = r.addrs[r.addrs.length - 1]? := by
    show r.ahead[0]? = _
    rw [ahead, getElem?_drop, Nat.add_zero, hseg]
  rw [hnext, getElem?_eq_getElem (by omega)] at hfirst
  by_cases hlt : r.addrs.length % 256 < r.segLeft
  · rw [run_one_none hops hlt] at hfirst
    exact absurd hfirst (by simp)
  generalize hm : r.addrs.length % 256 = m at *
  have hrun := run_one hops (by omega) (i := m - 1) (by omega)
  rw [hm] at hrun
  rw [hseg] at hvec
  -- the hop did forward the packet, so what it left is known
  obtain ⟨hentry, hswapped⟩ : r.rh.entry (hops.stack 0) r.ipv6.dst m (m - 1) = r.addrs[r.addrs.length - 1] ∧
      r.rh.swapped r.ipv6.dst m (m - 1) = encode r.rh.comprI r.rh.comprE (r.listed 1) ++ r.padding := by
    rw [hrun] at hfirst hvec
    split at hfirst
    next => exact absurd hfirst (by simp)
    next hmulti =>
      rw [if_neg hmulti] at hvec
      split at hfirst
      next hsearch =>
        rw [hsearch] at hvec
        exact ⟨by simpa using hfirst, by simpa using hvec⟩
      next => exact absurd hfirst (by simp)
  have hlist := lists_rhAt (r := r) (k := 1) (by omega)
  have hlen : (r.listed 1).length = r.addrs.length := length_listed (by omega)
  have hdst : r.ipv6.dst.toList.drop r.rh.comprE = r.addrs[r.addrs.length - 1].toList.drop r.rh.comprE := by
    have hnew := last_entry hlist (by omega)
    have hold := last_entry r.lists (by omega)
    have hlast : (r.listed 1)[(r.listed 1).length - 1] = r.ipv6.dst := by
      have hset := listed_succ (r := r) (k := 0) (by omega) (d := r.ipv6.dst) rfl
      rw [listed_zero, hseg, Nat.add_zero] at hset
      simp [← hset]
    rw [hlast] at hnew
    change ((encode r.rh.comprI r.rh.comprE (r.listed 1) ++ r.padding).drop
      (((r.listed 1).length - 1) * (16 - r.rh.comprI))).take (16 - r.rh.comprE) = _ at hnew
    rw [← hswapped, hlen, drop_swapped hm.symm hn (by omega), hold] at hnew
    exact hnew.symm
  have hsame : r.ipv6.dst = r.addrs[r.addrs.length - 1] :=
    ((r.shared _ (getElem_mem (by omega))).symm).eq_of_drop (Nat.le_max_right _ _) hdst
  refine ⟨hseg, ?_, by omega, ?_⟩
  · rw [getLast?_eq_getElem?, getElem?_eq_getElem (by omega), ← hsame]
  · have hbytes := @entry_narrowed r (hops.stack 0) r.ipv6.dst m hm.symm (by omega)
    rw [hentry, ← hsame] at hbytes
    rw [hm, hbytes]

theorem routes_of_atLast (hops : Hops r) (hn : 256 ≤ r.addrs.length) (h : r.AtLast) : hops.Routes := by
  obtain ⟨hseg, hlast, hpos, hbytes⟩ := h
  generalize hm : r.addrs.length % 256 = m at *
  rw [getLast?_eq_getElem?, getElem?_eq_getElem (by omega)] at hlast
  have hdst : r.addrs[r.addrs.length - 1] = r.ipv6.dst := Option.some.inj hlast
  have hne : r.addrs ≠ [] := ne_nil_of_length_pos (by omega)
  have hel : r.rh.elided m (m - 1) = r.rh.comprE := if_pos rfl
  have hentry : r.rh.entry (hops.stack 0) r.ipv6.dst m (m - 1) = r.ipv6.dst := by
    unfold Srh.entry
    dsimp only
    rw [hel, hbytes]
    exact overlay_eq take_overlay
  have hswapped : r.rh.swapped r.ipv6.dst m (m - 1) = r.rh.vec := by
    unfold Srh.swapped
    dsimp only
    rw [hel, ← hbytes, append_assoc, ← drop_drop, take_append_drop, take_append_drop]
  have hnum := r.lists.numAddr hne
  rw [hm] at hnum
  have hfit : ∀ i < m, i * (16 - r.rh.comprI) + (16 - r.rh.elided m i) ≤ r.rh.vec.length := by
    intro i hi
    rw [← hnum] at hi ⊢
    exact entry_fits (r.lists.len_ok hne) r.lists.vec_length hi
  have huni : ¬isMulticast r.ipv6.dst := hdst ▸ r.unicast _ (getElem_mem _)
  -- of the addresses compared, none but the last one counted can be the hop's own
  have hsearch : containsMultipleOfMyAddr (hops.owns 0) (hops.stack 0) r.ipv6.dst r.rh m = some none := by
    refine @containsMultipleLoop_none (hops.owns 0) (hops.stack 0) r.ipv6.dst r.rh m (m - 1) _ hfit
      (fun i hi hown => ?_) 0 false 0 (Nat.zero_add _) nofun
    by_cases hend : i + 1 < m
    · rw [r.lists.before_eq r.shared (by omega) hend] at hown
      have hmine := (hops.owns_visited 0 (by omega) r.addrs[i]
        (mem_cons_of_mem _ (getElem_mem _))).mp hown
      have heq : r.addrs[i] = r.addrs[r.addrs.length - 1] := hmine.trans hdst.symm
      have := (List.Nodup.getElem_inj_iff r.nodup).mp heq
      omega
    · omega
  have hrun : hops.run 1 = some ({ r.ipv6 with dst := r.ipv6.dst },
      { r.rh with segLeft := r.rh.segLeft - 1#8, vec := r.rh.vec }) := by
    have hone := run_one hops (by omega) (i := m - 1) (by omega)
    rw [hm, hentry, if_neg huni, hsearch, hswapped] at hone
    exact hone
  have hset := listed_succ (r := r) (k := 0) (by omega) (d := r.ipv6.dst) rfl
  rw [listed_zero, hseg, Nat.add_zero, Nat.zero_add] at hset
  have hlisted : r.listed 1 = r.addrs := by
    rw [← hset]
    conv_lhs => rw [← hdst]
    exact set_getElem_self _
  constructor
  · intro k hk
    obtain rfl | rfl : k = 0 ∨ k = 1 := by omega
    · rfl
    · have hnext : r.visited[1]? = r.addrs[r.addrs.length - 1]? := by
        show r.ahead[0]? = _
        rw [ahead, getElem?_drop, Nat.add_zero, hseg]
      rw [hrun, hnext, getElem?_eq_getElem (by omega), hdst]
      rfl
  · rw [hseg, hrun, hlisted, ← r.lists.vec]
    rfl

/-- **A route is followed and recorded just when the count of its addresses fits eight
bits**, or nothing was to be done. -/
theorem routes_iff (hops : Hops r) : hops.Routes ↔ r.Counted := by
  constructor
  · intro hroutes
    by_cases hseg : r.segLeft = 0
    · exact .inl hseg
    by_cases hn : r.addrs.length ≤ 255
    · exact .inr (.inl hn)
    by_cases hone : r.segLeft = 1
    · exact .inr (.inr (atLast_of_routes hops (by omega) hone hroutes))
    · exact absurd hroutes (not_routes_of_lt hops (by omega) (by omega))
  · intro hcounted
    by_cases hn : r.addrs.length ≤ 255
    · exact routes_of_length_le hops hn
    rcases hcounted with hseg | hle | hlast
    · exact routes_of_segLeft_zero hops hseg
    · exact absurd hle hn
    · exact routes_of_atLast hops (by omega) hlast

end Route

/-- The outcome is within the address vector, and leaves everything as it was if it is an
error. -/
def Within (ipv6 : Ipv6Hdr) (rh : Srh) (out : Option RhOut) : Prop :=
  ∃ o, out = some o ∧ o.rh.vec.length = rh.vec.length ∧
    (o.res = .error → o.ipv6 = ipv6 ∧ o.rh = rh)

theorem gnrcRplSrhProcess_within {owns : Addr → Bool} {stack : Addr} {ipv6 : Ipv6Hdr} {rh : Srh}
    {errPtr : Option ErrPtr} (hvec : rh.vec.length = rh.len.toNat * 8) (hseg : rh.segLeft ≠ 0#8) :
    Within ipv6 rh (gnrcRplSrhProcess owns stack ipv6 rh errPtr) := by
  obtain ⟨out, hrun, ⟨-, hsame, hrh⟩ | ⟨hres, hlen⟩⟩ :=
    @gnrcRplSrhProcess_cases owns stack rh ipv6 errPtr hvec hseg
  · exact ⟨out, hrun, congrArg (·.vec.length) hrh, fun _ => ⟨hsame, hrh⟩⟩
  · exact ⟨out, hrun, hlen, fun h => absurd (hres.symm.trans h) RhResult.noConfusion⟩

/-- **Source routing.** Any header at all is processed within its address vector and left
alone on an error; a route is followed and recorded just when its addresses are counted
right. -/
theorem srh_routes_iff_counted (r : Route) (hops : Hops r) :
    (∀ (owns : Addr → Bool) (stack : Addr) (ipv6 : Ipv6Hdr) (rh : Srh),
      rh.vec.length = rh.len.toNat * 8 →
      Within ipv6 rh (gnrcIpv6ExtRhProcess owns stack ipv6 rh) ∧
        (rh.segLeft ≠ 0#8 → Within ipv6 rh (gnrcRplSrhProcess owns stack ipv6 rh none))) ∧
      (hops.Routes ↔ r.Counted) :=
  ⟨fun _ _ _ _ hvec => ⟨gnrcIpv6ExtRhProcess_within _ hvec, gnrcRplSrhProcess_within hvec⟩,
    r.routes_iff hops⟩

/-! ## A route of 256 addresses -/

/-- Addresses that differ in their last two octets only. -/
def sibling (x y : BitVec 8) : Addr :=
  #v[0xfd#8, 0#8, 0#8, 0#8, 0#8, 0#8, 0#8, 0#8, 0#8, 0#8, 0#8, 0#8, 0#8, 0#8, x, y]

theorem nodup_siblings : ((List.range 256).map fun i => sibling 0#8 (BitVec.ofNat 8 i)).Nodup := by
  refine List.Nodup.map_on (fun i hi j hj heq => ?_) List.nodup_range
  have hlast : BitVec.ofNat 8 i = BitVec.ofNat 8 j := congrArg (·[15]) heq
  have hnat := congrArg BitVec.toNat hlast
  rw [BitVec.toNat_ofNat, BitVec.toNat_ofNat] at hnat
  rw [List.mem_range] at hi hj
  omega

/-- 256 addresses of two octets each fill a header of 64 units; two segments are left. -/
def longRoute : Route where
  ipv6 := ⟨64#8, sibling 1#8 0#8⟩
  rh :=
    { len := 64#8
      type := IPV6_EXT_RH_TYPE_RPL_SRH
      segLeft := 2#8
      compr := 0xee#8
      padResv := 0#8
      vec := encode 14 14 ((List.range 256).map fun i => sibling 0#8 (BitVec.ofNat 8 i)) }
  addrs := (List.range 256).map fun i => sibling 0#8 (BitVec.ofNat 8 i)
  padding := []
  lists :=
    { vec := (List.append_nil _).symm
      padding_length := rfl
      vec_length := by
        show (encode 14 14 _).length = _
        rw [length_encode (by simp), List.length_map, List.length_range]
        rfl }
  nodup := nodup_siblings
  unicast := by
    intro a ha
    obtain ⟨i, -, rfl⟩ := List.mem_map.mp ha
    exact (by decide : ¬(0xfd#8 = 0xff#8))
  shared := by
    intro a ha
    obtain ⟨i, -, rfl⟩ := List.mem_map.mp ha
    rfl
  segLeft_le := by
    rw [List.length_map, List.length_range]
    decide

/-- Nodes that own the address the packet is for and no other. -/
def ownDst (r : Route) (hdst : ¬isMulticast r.ipv6.dst) : Hops r where
  owns k a := decide (a = r.visited.getD k r.ipv6.dst)
  stack _ := r.ipv6.dst
  owns_unicast := by
    intro k a ha
    rw [decide_eq_true_eq] at ha
    rw [List.getD_eq_getElem?_getD] at ha
    cases hk : r.visited[k]? with
    | none =>
      rw [hk] at ha
      exact ha ▸ hdst
    | some d =>
      rw [hk] at ha
      rcases List.mem_cons.mp (Route.mem_visited hk) with heq | hmem
      · exact ha ▸ heq ▸ hdst
      · exact ha ▸ r.unicast d hmem
  owns_visited _ _ _ _ := decide_eq_true_iff

/-- **256 addresses are counted as none**, and the packet is discarded. -/
theorem not_srh_routes : ¬∀ (r : Route) (hops : Hops r), hops.Routes := by
  intro hall
  have hdst : ¬isMulticast longRoute.ipv6.dst := by decide
  have hlen : longRoute.addrs.length = 256 := by
    show ((List.range 256).map _).length = 256
    rw [List.length_map, List.length_range]
  exact Route.not_routes_of_lt (ownDst longRoute hdst) (Nat.le_of_eq hlen.symm) (by decide) (hall _ _)

end Riot.Rpl
