import Riot.Sixlowpan.FragRbPool

/-!
# Runs of the reassembly buffer

Every operation keeps a sound state sound: each fragment that is put in is followed by the check for
completeness, and each other way out removes an entry. The one fragment that is not safe to keep is
a single byte at the start of a longer datagram.

The eviction compares times of 32 bits. It finds the oldest entry since the garbage collection before
it leaves none that is older than the timeout.
-/

namespace Riot.Sixlowpan.FragRb

open Riot.Lib Function List Option Nat

variable {n m : Nat} {st st' : FragRb n m} {i j : Fin n}

/-! ## Operations -/

theorem sound_init : Sound (init : FragRb n m) := by
  refine ⟨fun _ => [], ⟨⟨fun i => ⟨fun h => h.elim, fun _ => .inl rfl⟩, fun _ => nodup_nil,
    fun _ _ _ h => absurd h not_mem_nil⟩, fun _ _ => rfl, fun i => enters_vacant rfl (zero_le _)⟩,
    fun i t h => absurd h not_mem_nil⟩

theorem Sound.gcEntry (h : Sound st) (now : Nat) (i : Fin n) : Sound (gcEntry now st i) := by
  unfold FragRb.gcEntry
  split
  · exact h.remove i
  · exact h

theorem Sound.gc (h : Sound st) (now : Nat) : Sound (st.gc now) := by
  unfold FragRb.gc
  induction finRange n generalizing st with
  | nil => exact h
  | cons i is ih => exact ih (h.gcEntry now i)

theorem Sound.setEntry {r : RbEntry m} (h : Sound st) (hints : r.ints = (st.rbuf i).ints)
    (hr : ∀ ts, Enters st.ints (st.rbuf i) ts → Enters st.ints r ts) : Sound (st.setEntry i r) := by
  obtain ⟨L, hP, hT⟩ := h
  exact ⟨L, hP.setEntry hints (hr _ (hP.enters i)), hT⟩

theorem Sound.claim {src dst : List Byte} {size tag now : Nat} {alloc : Bool} (h : Sound st)
    (hvacant : (st.rbuf i).pkt = none) (hsize : size ≤ 2047) :
    Sound (st.claim i src dst size tag now alloc).1 := by
  unfold FragRb.claim
  split
  · refine h.setEntry rfl fun ts hr => ?_
    obtain rfl := hr.vacant hvacant
    exact ⟨fun _ h => absurd h not_mem_nil, List.Pairwise.nil, hsize, fun _ => rfl, fun _ => rfl,
      fun _ => .inl rfl, fun _ => by simp only; omega⟩
  · exact h

variable {env : AddEnv} {L : Fin n → List (Fin m)} {fragSize now offset size : Nat}

theorem claim_entry {src dst : List Byte} {tag : Nat} {alloc : Bool}
    (h : (st.claim i src dst size tag now alloc).2 = some j) :
    ((st.claim i src dst size tag now alloc).1.rbuf j).pkt ≠ none
      ∧ ((st.claim i src dst size tag now alloc).1.rbuf j).datagramSize = size := by
  cases alloc with
  | true =>
    obtain rfl : i = j := some.inj h
    rw [claim, if_pos rfl, setEntry_rbuf_self]
    exact ⟨some_ne_none _, rfl⟩
  | false => cases h

/-! ## The scan -/

section Scan

variable {src dst : List Byte} {size tag : Nat}

/-- What the loop over the entries `is` makes of the empty entry and the oldest found so far. -/
inductive Scanned (st : FragRb n m) (src dst : List Byte) (size tag : Nat) (is : List (Fin n))
    (res oldest : Option (Fin n)) : Option (Slot n) → Prop where
  | found (i : Fin n) (hi : i ∈ is) (h : Holds (st.rbuf i) src dst size tag) :
    Scanned st src dst size tag is res oldest (some (.found i))
  | free (i : Fin n) (h : res = some i ∨ i ∈ is ∧ (st.rbuf i).pkt = none) :
    Scanned st src dst size tag is res oldest (some (.free i))
  | full (i : Fin n) (hres : res = none) (hall : ∀ j ∈ is, (st.rbuf j).pkt ≠ none)
    (hi : is.foldl (fun o j => some (st.older o j)) oldest = some i) :
    Scanned st src dst size tag is res oldest (some (.full i))
  | nothing (hres : res = none) (hi : is = []) (ho : oldest = none) :
    Scanned st src dst size tag is res oldest none

theorem rbufScan_spec (st : FragRb n m) (src dst : List Byte) (size tag : Nat) :
    ∀ (is : List (Fin n)) (res oldest : Option (Fin n)), Scanned st src dst size tag is res oldest (st.rbufScan src dst size tag is res oldest) := by
  intro is
  induction is with
  | nil =>
    intro res oldest
    cases res with
    | some i => exact .free i (.inl rfl)
    | none =>
      cases oldest with
      | none => exact .nothing rfl rfl rfl
      | some o => exact .full o rfl (fun _ h => absurd h not_mem_nil) rfl
  | cons i is ih =>
    intro res oldest
    rw [rbufScan]
    split
    · rename_i hholds
      exact .found i mem_cons_self hholds
    · have hrest := ih (if res = none ∧ (st.rbuf i).pkt = none then some i else res) (some (st.older oldest i))
      generalize st.rbufScan src dst size tag is _ _ = slot at hrest ⊢
      cases hrest with
      | found j hj h => exact .found j (mem_cons_of_mem _ hj) h
      | free j h =>
        refine .free j ?_
        rcases h with h | ⟨hj, hpkt⟩
        · split at h
          · rename_i hi
            cases h
            exact .inr ⟨mem_cons_self, hi.2⟩
          · exact .inl h
        · exact .inr ⟨mem_cons_of_mem _ hj, hpkt⟩
      | full o hres hall ho =>
        split at hres
        · cases hres
        · rename_i hi
          subst hres
          refine .full o rfl (fun j hj => ?_) ho
          rcases mem_cons.mp hj with rfl | hj
          · exact fun hpkt => hi ⟨rfl, hpkt⟩
          · exact hall j hj
      | nothing _ _ ho => cases ho

theorem Sound.rbufGet {now : Nat} {alloc : Bool} {slot : Option (Fin n)} (h : Sound st) (hsize : size ≤ 2047)
    (hget : st.rbufGet src dst size tag now alloc = (st', slot)) : Sound st' := by
  have hst : st' = (st.rbufGet src dst size tag now alloc).1 := by rw [hget]
  subst hst
  unfold FragRb.rbufGet slotOf
  have hscan := rbufScan_spec st src dst size tag (finRange n) none none
  generalize st.rbufScan src dst size tag _ _ _ = found at hscan ⊢
  cases hscan with
  | found i hi hholds =>
    exact h.setEntry rfl fun ts hr =>
      ⟨hr.within, hr.apart, hr.small, hr.vacant, hr.counted, hr.header, hr.bounded⟩
  | free i hfree =>
    rcases hfree with hfree | ⟨-, hpkt⟩
    · cases hfree
    · exact h.claim hpkt hsize
  | full i hres hall hi =>
    refine (h.remove i).claim ?_ hsize
    rw [remove_rbuf_self]
  | nothing => exact h

theorem rbufGet_entry {now : Nat} {alloc : Bool} (h : st.rbufGet src dst size tag now alloc = (st', some j)) :
    (st'.rbuf j).pkt ≠ none ∧ (st'.rbuf j).datagramSize = size := by
  have hst : st' = (st.rbufGet src dst size tag now alloc).1 := by rw [h]
  have hj : (st.rbufGet src dst size tag now alloc).2 = some j := by rw [h]
  subst hst
  unfold rbufGet slotOf at hj ⊢
  have hscan := rbufScan_spec st src dst size tag (finRange n) none none
  generalize st.rbufScan src dst size tag _ _ _ = found at hscan hj ⊢
  cases hscan with
  | found i hi hholds =>
    obtain rfl : i = j := some.inj hj
    simp only [setEntry_rbuf_self]
    exact ⟨hholds.1, hholds.2.2.1⟩
  | free i _ => exact claim_entry hj
  | full i _ _ _ => exact claim_entry hj
  | nothing => cases hj

end Scan

/-! ## A fragment is stored -/

theorem setEntry_setEntry (r r' : RbEntry m) : (st.setEntry i r).setEntry i r' = st.setEntry i r' := by
  unfold FragRb.setEntry
  rw [update_idem]

/-- The state in which the fragment is on the list of the entry `i` and its bytes are counted. -/
structure Stores (st : FragRb n m) (L : Fin n → List (Fin m)) (i : Fin n) (offset fragSize : Nat) : Prop where
  pools : Pools st L
  others : ∀ j, j ≠ i → Taken st.ints (L j)
  self : 1 < offset + fragSize → Taken st.ints (L i)
  inUse : (st.rbuf i).pkt ≠ none
  first : offset = 0 →
    (st.rbuf i).grown = 0 ∧ fragSize ≤ total st.ints (L i) ∧ ∃ t ∈ L i, (st.ints t).start = 0

theorem Stores.soundBut (h : Stores st L i offset fragSize) : SoundBut i st := ⟨L, h.pools, h.others⟩

theorem Stores.sound (h : Stores st L i offset fragSize) (hend : 1 < offset + fragSize) : Sound st := by
  refine ⟨L, h.pools, fun j => ?_⟩
  by_cases hj : j = i
  · subst hj
    exact h.self hend
  · exact h.others j hj

theorem Sound.stores (h : Sound st)
    (hu : st.rbufUpdateInts i offset fragSize = some st') (hpos : 0 < fragSize)
    (hsize : offset + fragSize ≤ (st.rbuf i).datagramSize) (hpkt : (st.rbuf i).pkt ≠ none)
    (hcheck : checkFragments st.ints fragSize offset m (st.rbuf i).ints = some .success) :
    ((st'.count i fragSize).rbuf i).datagramSize = (st.rbuf i).datagramSize ∧
      ∃ L, Stores (st'.count i fragSize) L i offset fragSize := by
  obtain ⟨L, hP, hT⟩ := h
  obtain ⟨t, ht, rfl⟩ := map_eq_some_iff.mp hu
  have hfree := unlinked_of_free hT (rbufIntGetFree_stop ht)
  have hentry := hP.enters i
  have hsmall := hentry.small
  have hfar := checkFragments_success hpos (by omega) (L i) (hP.seg i) hcheck
  rw [count, setEntry_setEntry]
  simp only [setEntry_rbuf_self]
  refine ⟨trivial, update L i (t :: L i), ?_⟩
  -- the new object, and what was on the lists before
  have hmod : offset % 2 ^ 16 = offset := mod_eq_of_lt (by omega)
  have hmod' : (offset + fragSize - 1) % 2 ^ 16 = offset + fragSize - 1 := mod_eq_of_lt (by omega)
  rw [hmod, hmod']
  have hnew := hentry.push (o := ⟨(st.rbuf i).ints, offset, offset + fragSize - 1⟩) (hfree i) hpkt hpos rfl
    hsize hfar
  have hold : ∀ j, ∀ u ∈ L j, update st.ints t
      ⟨(st.rbuf i).ints, offset, offset + fragSize - 1⟩ u = st.ints u := by
    intro j u hu
    have hut : u ≠ t := fun h => hfree j (h ▸ hu)
    rw [update_of_ne hut]
  refine ⟨hP.push hfree rfl rfl hnew, fun j hj u hu => ?_, fun hend u hu => ?_, ?_, fun h0 => ?_⟩
  · rw [update_of_ne hj] at hu
    rw [setEntry_ints]
    simp only [hold j u hu]
    exact hT j u hu
  · rw [update_self] at hu
    rw [setEntry_ints]
    rcases mem_cons.mp hu with rfl | hu
    · simp only [update_self]
      omega
    · simp only [hold i u hu]
      exact hT i u hu
  · rw [setEntry_rbuf_self]
    exact hpkt
  · rw [setEntry_rbuf_self, setEntry_ints, update_self]
    refine ⟨?_, ?_, t, mem_cons_self, ?_⟩
    · -- a first fragment on the list would have the byte at offset 0 too
      rcases hentry.header hpkt with hgrown | ⟨u, hu, hstart⟩
      · exact hgrown
      · have := hfar u hu
        omega
    · unfold total
      rw [map_cons, sum_cons]
      simp only [update_self]
      unfold RbInt.area
      simp only
      omega
    · simp only [update_self]
      exact h0

/-! ## A first fragment is decompressed -/

theorem nhc_le {d d' : Decoding} {h : Nhc} (hd : d.uncompHdrLen ≤ 20 * d.payloadOffset)
    (hd' : d.nhc h = some d') : d'.uncompHdrLen ≤ 20 * d'.payloadOffset := by
  cases h with
  | ext nhInline len =>
    cases hd'
    simp only
    split <;> omega
  | ipv6 inlineLen =>
    cases hd'
    simp only
    omega
  | udp ports =>
    cases hd'
    simp only
    omega
  | reserved => cases hd'

theorem nhcLoop_le : ∀ (hs : List Nhc) {d d' : Decoding},
    d.uncompHdrLen ≤ 20 * d.payloadOffset → nhcLoop size d hs = some (some d') →
      d'.uncompHdrLen ≤ 20 * d'.payloadOffset ∧ d'.payloadOffset ≤ size := by
  intro hs
  induction hs with
  | nil =>
    intro d d' hd hloop
    rw [nhcLoop] at hloop
    split at hloop
    · rename_i hle
      obtain rfl := some.inj (some.inj hloop)
      exact ⟨hd, hle⟩
    · cases hloop
  | cons h hs ih =>
    intro d d' hd hloop
    rw [nhcLoop] at hloop
    split at hloop
    · obtain ⟨e, he, hloop⟩ := bind_eq_some_iff.mp hloop
      exact ih (nhc_le hd he) hloop
    · cases hloop

/-- What `iphcRecv` makes of a first fragment: the entry is gone, or sound with the new headers. -/
theorem Stores.iphcRecv {hdrs : Option (Nat × List Nhc)}
    (h : Stores st L i 0 size) (hr : st.iphcRecv i size hdrs = some st') : Sound st' := by
  unfold FragRb.iphcRecv at hr
  split at hr
  · cases hr
    exact h.soundBut.remove
  · split at hr
    · cases hr
      exact h.soundBut.remove
    · rename_i inlineLen nhcs
      obtain ⟨d, hloop, rfl⟩ := map_eq_some_iff.mp hr
      cases d with
      | none => exact h.soundBut.remove
      | some d =>
        simp only
        split
        · exact h.soundBut.remove
        · obtain ⟨hd, hoff⟩ := nhcLoop_le nhcs (by simp only; omega) hloop
          obtain ⟨hgrown, htotal, t, ht, hstart⟩ := h.first rfl
          have hentry := h.pools.enters i
          have hcounted := hentry.counted h.inUse
          have hle := hentry.total_le
          have hsmall := hentry.small
          refine ⟨L, h.pools.setEntry rfl ⟨hentry.within, hentry.apart, hsmall, ?_, fun _ => ?_,
            fun _ => .inr ⟨t, ht, hstart⟩, fun _ => ?_⟩, fun j => ?_⟩
          · exact fun hp => absurd hp (some_ne_none _)
          · simp only
            omega
          · simp only
            omega
          · by_cases hj : j = i
            · subst hj
              exact h.self (by omega)
            · exact h.others j hj

/-! ## A fragment is added -/

/-- The state is sound once the caller has looked whether the entry returned is complete. -/
def AddedSound : FragRb n m × Added n → Prop
  | (st, .entry i) => Sound (st.dispatchWhenComplete i)
  | (st, _) => Sound st

theorem Sound.dispatchWhenComplete (h : Sound st) (i : Fin n) : Sound (st.dispatchWhenComplete i) := by
  unfold FragRb.dispatchWhenComplete
  split
  · exact h.remove i
  · exact h

theorem Sound.rbufStore {p : Snip} {res : FragRb n m × Added n} (h : Sound st) (hpos : p.fragSize offset ≠ 0)
    (hsize : offset + p.fragSize offset ≤ (st.rbuf i).datagramSize) (hpkt : (st.rbuf i).pkt ≠ none)
    (hcheck : checkFragments st.ints (p.fragSize offset) offset m (st.rbuf i).ints = some .success)
    (hlone : offset = 0 → p.fragSize 0 = 1 → ¬ p.IphcIs → (st.rbuf i).datagramSize ≤ 1)
    (hr : st.rbufStore i p offset env = some res) : AddedSound res := by
  unfold FragRb.rbufStore at hr
  split at hr
  · cases hr
    exact h.remove i
  · rename_i st1 hu
    obtain ⟨hsame, L, hstores⟩ := h.stores hu (by omega) hsize hpkt hcheck
    split at hr
    · rename_i hiphc
      obtain ⟨rfl, hiphc⟩ := hiphc
      have hfrag : p.fragSize 0 = p.size - 4 := by
        unfold Snip.fragSize
        rw [if_pos rfl]
        split
        · omega
        · rw [if_neg]
          -- the two dispatches differ
          intro huncomp
          unfold Snip.IphcIs at hiphc
          rw [huncomp] at hiphc
          exact absurd hiphc (by decide)
      split at hr
      · obtain ⟨st2, hrecv, rfl⟩ := map_eq_some_iff.mp hr
        rw [hfrag] at hstores hrecv
        have hsound := hstores.iphcRecv hrecv
        split
        · exact hsound
        · exact hsound.dispatchWhenComplete i
      · cases hr
        exact hstores.soundBut.remove
    · rename_i hiphc
      cases hr
      by_cases hend : 1 < offset + p.fragSize offset
      · exact (hstores.sound hend).dispatchWhenComplete i
      · -- the single byte of a datagram completes it
        obtain rfl : offset = 0 := by omega
        have hone : p.fragSize 0 = 1 := by omega
        have hle := hlone rfl hone fun hi => hiphc ⟨rfl, hi⟩
        obtain ⟨hgrown, htotal, -⟩ := hstores.first rfl
        have hentry := hstores.pools.enters i
        have hcounted := hentry.counted hstores.inUse
        have hmax := hentry.total_le
        show Sound ((st1.count i (p.fragSize 0)).dispatchWhenComplete i)
        unfold FragRb.dispatchWhenComplete
        rw [if_pos (by omega)]
        exact hstores.soundBut.remove

theorem datagramSize_le (p : Snip) : p.datagramSize ≤ 2047 := by
  unfold Snip.datagramSize
  exact and_le_right

theorem Sound.rbufAdd {f : Frame} {res : FragRb n m × Added n} (h : Sound st)
    (hlone : ¬ f.LoneByte) (hr : st.rbufAdd f f.offset env = some res) : AddedSound res := by
  unfold FragRb.rbufAdd at hr
  split at hr
  · rename_i hfrag
    split at hr
    · rename_i st1 heq
      cases hr
      exact (h.gc env.gcNow).rbufGet (datagramSize_le f.pkt) heq
    · rename_i st1 i heq
      have hget := (h.gc env.gcNow).rbufGet (datagramSize_le f.pkt) heq
      obtain ⟨hpkt, hds⟩ := rbufGet_entry heq
      split at hr
      · cases hr
        exact hget.remove i
      · obtain ⟨c, hcheck, hr⟩ := bind_eq_some_iff.mp hr
        cases c with
        | repeats =>
          cases hr
          exact hget.remove i
        | duplicate =>
          cases hr
          exact hget.dispatchWhenComplete i
        | success =>
          refine hget.rbufStore hfrag.2 (by omega) hpkt hcheck (fun h0 hone hiphc => ?_) hr
          by_contra hlong
          exact hlone ⟨h0, hone, hiphc, by omega⟩
  · cases hr
    exact h

/-- **A fragment keeps the state sound**, unless it is a single byte at the start of a longer
datagram. -/
theorem Sound.fragRecv {f : Frame} {env' : AddEnv} (h : Sound st) (hlone : ¬ f.LoneByte)
    (hr : st.fragRecv f env env' = some st') : Sound st' := by
  unfold FragRb.fragRecv at hr
  split at hr
  · obtain ⟨res, hadd, rfl⟩ := map_eq_some_iff.mp hr
    have hres : AddedSound res := by
      unfold rbAdd at hadd
      split at hadd
      · rename_i st1 hrep
        exact Sound.rbufAdd (h.rbufAdd hlone hrep) hlone hadd
      · exact h.rbufAdd hlone hadd
    obtain ⟨st1, added⟩ := res
    cases added with
    | entry i => exact hres
    | error => exact hres
    | repeats => exact hres
  · cases hr
    exact h

theorem Sound.step {e : RbEvent n} (h : Sound st) (hlone : ¬ e.LoneByte) (hr : step st e = some st') :
    Sound st' := by
  cases e with
  | frag f env env' => exact h.fragRecv hlone hr
  | timeout now =>
    cases hr
    exact h.gc now
  | rmByDatagram src dst tag =>
    cases hr
    unfold FragRb.rmByDatagram
    split
    · exact h.remove _
    · exact h
  | remove i =>
    cases hr
    exact h.remove i

/-! ## The calls return -/

theorem nhcLoop_isSome : ∀ (hs : List Nhc) {d : Decoding}, .reserved ∉ hs →
    ∃ r, nhcLoop size d hs = some r := by
  intro hs
  induction hs with
  | nil => exact fun _ => ⟨_, rfl⟩
  | cons h hs ih =>
    intro d hmem
    rw [mem_cons, not_or] at hmem
    rw [nhcLoop]
    split
    · cases h with
      | reserved => exact absurd rfl hmem.1
      | ext _ _ => exact ih hmem.2
      | ipv6 _ => exact ih hmem.2
      | udp _ => exact ih hmem.2
    · exact ⟨_, rfl⟩

theorem iphcRecv_isSome (henv : env.Assigned) : ∃ st', st.iphcRecv i size env.hdrs = some st' := by
  unfold iphcRecv
  split
  · exact ⟨_, rfl⟩
  · split
    · exact ⟨_, rfl⟩
    · rename_i inlineLen nhcs hhdrs
      obtain ⟨r, hr⟩ := nhcLoop_isSome nhcs (henv _ hhdrs)
      rw [hr]
      exact ⟨_, rfl⟩

theorem rbufStore_isSome {p : Snip} (henv : env.Assigned) :
    ∃ res, st.rbufStore i p offset env = some res := by
  unfold rbufStore
  split
  · exact ⟨_, rfl⟩
  · simp only
    split
    · split
      · obtain ⟨st2, hst2⟩ := iphcRecv_isSome henv
        rw [hst2]
        exact ⟨_, rfl⟩
      · exact ⟨_, rfl⟩
    · exact ⟨_, rfl⟩

theorem Sound.rbufAdd_isSome (h : Sound st) (f : Frame) (offset : Nat) (henv : env.Assigned) :
    ∃ res, st.rbufAdd f offset env = some res := by
  unfold FragRb.rbufAdd
  split
  · split
    · exact ⟨_, rfl⟩
    · rename_i st1 i heq
      split
      · exact ⟨_, rfl⟩
      · obtain ⟨L, hP, -⟩ := (h.gc env.gcNow).rbufGet (datagramSize_le f.pkt) heq
        have hlen : (L i).length ≤ m := by
          have := (hP.linkage.nodup i).length_le_card
          rwa [Fintype.card_fin] at this
        obtain ⟨c, hc⟩ := checkFragments_isSome (L i) (hP.seg i) hlen
        rw [hc]
        cases c with
        | repeats => exact ⟨_, rfl⟩
        | duplicate => exact ⟨_, rfl⟩
        | success => exact rbufStore_isSome henv
  · exact ⟨_, rfl⟩

/-- In a sound state a call returns, if the headers that it decompresses are of assigned types. -/
theorem Sound.step_isSome {e : RbEvent n} (h : Sound st) (hlone : ¬ e.LoneByte) (he : e.Assigned) :
    (FragRb.step st e).isSome := by
  cases e with
  | frag f env env' =>
    unfold FragRb.step FragRb.fragRecv
    simp only
    split
    · obtain ⟨res, hres⟩ := h.rbufAdd_isSome f f.offset he.1
      unfold rbAdd
      split
      · rename_i st1 hrep
        have hst1 : Sound st1 := h.rbufAdd hlone hrep
        obtain ⟨res', hres'⟩ := hst1.rbufAdd_isSome f f.offset he.2
        rw [hres']
        rfl
      · rw [hres]
        rfl
    · rfl
  | timeout now => rfl
  | rmByDatagram src dst tag => rfl
  | remove i => rfl

/-! ## The entry that is evicted -/

theorem gcEntry_rbuf_of_ne (h : j ≠ i) : (gcEntry now st i).rbuf j = st.rbuf j := by
  unfold gcEntry
  split
  · exact remove_rbuf_of_ne h
  · rfl

/-- What the garbage collection leaves is not older than the timeout, as the clock tells. -/
def Young (now : Nat) (r : RbEntry m) : Prop := r.pkt ≠ none → sub32 now r.arrival ≤ rbufTimeoutUs

theorem young_gcEntry : Young now ((gcEntry now st i).rbuf i) := by
  unfold gcEntry
  split
  · intro hpkt
    rw [remove_rbuf_self] at hpkt
    exact absurd rfl hpkt
  · rename_i hold
    intro hpkt
    exact Nat.le_of_not_lt fun hlt => hold ⟨hpkt, hlt⟩

theorem young_foldl : ∀ (is : List (Fin n)) {st : FragRb n m},
    (j ∈ is ∨ Young now (st.rbuf j)) → Young now ((is.foldl (gcEntry now) st).rbuf j) := by
  intro is
  induction is with
  | nil =>
    intro st h
    rcases h with h | h
    · exact absurd h not_mem_nil
    · exact h
  | cons i is ih =>
    intro st h
    refine ih ?_
    by_cases hji : j = i
    · subst hji
      exact .inr young_gcEntry
    · rcases h with h | h
      · exact .inl ((mem_cons.mp h).resolve_left hji)
      · exact .inr (by rwa [gcEntry_rbuf_of_ne hji])

theorem young_gc : Young now ((st.gc now).rbuf j) := young_foldl _ (.inl (mem_finRange j))

/-- The last fragment of the entry came in at most `span` microseconds before `now`. -/
def Within (now span : Nat) (r : RbEntry m) : Prop := r.arrival ≤ now ∧ now ≤ r.arrival + span

/-- In a span that is short of half the clock's range, the clock tells the older of two times. -/
theorem sub32_lt_iff {a b : Nat} (ha : a ≤ now ∧ now ≤ a + rbufTimeoutUs)
    (hb : b ≤ now ∧ now ≤ b + rbufTimeoutUs) : sub32 a b < (2 ^ 32 - 1) / 2 ↔ b ≤ a := by
  unfold sub32
  unfold rbufTimeoutUs at ha hb
  omega

theorem older_earliest (hall : ∀ j, Within now rbufTimeoutUs (st.rbuf j)) :
    ∀ (is : List (Fin n)) {oldest : Option (Fin n)},
      is.foldl (fun o j => some (st.older o j)) oldest = some i →
        (∀ o, oldest = some o → (st.rbuf i).arrival ≤ (st.rbuf o).arrival) ∧
          ∀ j ∈ is, (st.rbuf i).arrival ≤ (st.rbuf j).arrival := by
  intro is
  induction is with
  | nil =>
    intro oldest hi
    subst hi
    refine ⟨fun o ho => ?_, fun _ h => absurd h not_mem_nil⟩
    cases ho
    exact le_refl _
  | cons k is ih =>
    intro oldest hi
    obtain ⟨hfirst, hrest⟩ := ih hi
    have hk := hfirst _ rfl
    have hboth : (st.rbuf (st.older oldest k)).arrival ≤ (st.rbuf k).arrival ∧
        ∀ o, oldest = some o → (st.rbuf (st.older oldest k)).arrival ≤ (st.rbuf o).arrival := by
      cases oldest with
      | none => exact ⟨le_refl _, fun o ho => by cases ho⟩
      | some o =>
        have hlt := sub32_lt_iff (hall o) (hall k)
        unfold older
        simp only
        split
        · rename_i hold
          refine ⟨le_refl _, fun o' ho => ?_⟩
          cases ho
          exact hlt.mp hold
        · rename_i hold
          refine ⟨?_, fun o' ho => ?_⟩
          · omega
          · cases ho
            exact le_refl _
    refine ⟨fun o ho => le_trans hk (hboth.2 o ho), fun j hj => ?_⟩
    rcases mem_cons.mp hj with rfl | hj
    · exact le_trans hk hboth.1
    · exact hrest j hj

/-- A call of `_rbuf_add` evicts an entry only if all are in use, and the one whose last fragment came
in first, if none has been there for the whole range of the clock. -/
def EvictsEarliest (st : FragRb n m) (f : Frame) (env : AddEnv) : Prop :=
  ∀ i, (st.gc env.gcNow).slotOf f.src f.dst f.pkt.datagramSize f.pkt.datagramTag = some (.full i) →
    (∀ j, ((st.gc env.gcNow).rbuf j).pkt ≠ none) ∧
      ((∀ j, Within env.gcNow (2 ^ 32 - 1) ((st.gc env.gcNow).rbuf j)) →
        ∀ j, ((st.gc env.gcNow).rbuf i).arrival ≤ ((st.gc env.gcNow).rbuf j).arrival)

theorem evictsEarliest (st : FragRb n m) (f : Frame) (env : AddEnv) : EvictsEarliest st f env := by
  intro i hi
  unfold slotOf at hi
  have hscan := rbufScan_spec (st.gc env.gcNow) f.src f.dst f.pkt.datagramSize f.pkt.datagramTag
    (finRange n) none none
  rw [hi] at hscan
  cases hscan with
  | full _ _ hall hfold =>
    refine ⟨fun j => hall j (mem_finRange j), fun hwithin j => ?_⟩
    have hyoung : ∀ j, Within env.gcNow rbufTimeoutUs ((st.gc env.gcNow).rbuf j) := by
      intro j
      have hage : sub32 env.gcNow ((st.gc env.gcNow).rbuf j).arrival ≤ rbufTimeoutUs :=
        young_gc (hall j (mem_finRange j))
      obtain ⟨hle, hlt⟩ := hwithin j
      refine ⟨hle, ?_⟩
      unfold sub32 at hage
      omega
    exact (older_earliest hyoung _ hfold).2 j (mem_finRange j)

/-- What an event evicts. A fragment that overlaps another is added a second time. -/
def EvictsOldest (st : FragRb n m) : RbEvent n → Prop
  | .frag f env env' =>
    EvictsEarliest st f env ∧
      ∀ st', st.rbufAdd f f.offset env = some (st', .repeats) → EvictsEarliest st' f env'
  | _ => True

theorem evictsOldest (st : FragRb n m) (e : RbEvent n) : EvictsOldest st e := by
  cases e with
  | frag f env env' => exact ⟨evictsEarliest st f env, fun st' _ => evictsEarliest st' f env'⟩
  | timeout now => trivial
  | rmByDatagram src dst tag => trivial
  | remove i => trivial

/-! ## The books -/

/-- The books of the buffer are in order. -/
structure Consistent (st : FragRb n m) : Prop where
  /-- An object is free, or on the list of one entry, -/
  owned : ∀ t, (st.ints t).stop = 0 ∧ (∀ i, t ∉ st.intsOf i) ∨ (st.ints t).stop ≠ 0 ∧ ∃! i, t ∈ st.intsOf i
  /-- once, and the list ends. -/
  lists : ∀ i, (st.intsOf i).Nodup ∧ Seg st.mem (st.mem (.head i)) (st.intsOf i) .null
  /-- The intervals of an entry have no byte in common, -/
  apart : ∀ i, (st.intsOf i).Pairwise fun t u => (st.ints t).area.Apart (st.ints u).area
  /-- and their bytes are counted, those of decompressed headers as they are then. -/
  counted : ∀ i, (st.rbuf i).pkt ≠ none →
    ((st.rbuf i).currentSize : Int) = total st.ints (st.intsOf i) + (st.rbuf i).grown
  /-- An entry that is not in use has no objects, -/
  vacant : ∀ i, (st.rbuf i).pkt = none → st.intsOf i = []
  /-- and one that is removed gives back all that it has, and no others. -/
  returned : ∀ i t, (st.remove i).ints t = if t ∈ st.intsOf i then .unset else st.ints t
  /-- What comes next is dealt with. -/
  returns : ∀ e : RbEvent n, ¬ e.LoneByte → e.Assigned → (step st e).isSome

theorem Sound.consistent (h : Sound st) : Consistent st := by
  have hreturns := fun e => h.step_isSome (e := e)
  obtain ⟨L, hP, hT⟩ := h
  have heq := hP.intsOf_eq
  refine ⟨fun t => ?_, fun i => ?_, fun i => ?_, fun i hpkt => ?_, fun i hpkt => ?_, fun i t => ?_, hreturns⟩
  · by_cases ht : ∃ i, t ∈ L i
    · obtain ⟨i, hi⟩ := ht
      have hpos := hT i t hi
      refine .inr ⟨by omega, i, ?_, fun j hj => ?_⟩
      · simp only [heq]
        exact hi
      · simp only [heq] at hj
        exact hP.linkage.disjoint j i t hj hi
    · have hun : Unlinked L t := fun i hi => ht ⟨i, hi⟩
      refine .inl ⟨hP.free t hun, fun i hi => ?_⟩
      rw [heq] at hi
      exact hun i hi
  · rw [heq]
    exact ⟨hP.linkage.nodup i, hP.seg i⟩
  · rw [heq]
    exact (hP.enters i).apart
  · rw [heq]
    exact (hP.enters i).counted hpkt
  · rw [heq]
    exact (hP.enters i).vacant hpkt
  · rw [heq, hP.remove_ints i]

/-- **The books of the reassembly buffer are in order in every state of every run** in which no
single byte starts a longer datagram, and the entry that has to make room is the oldest. -/
theorem reassembly_consistent (es : List (RbEvent n))
    (hes : Along step (fun _ e => ¬ e.LoneByte) (init : FragRb n m) es) :
    Always step Consistent (init : FragRb n m) es ∧ Along step EvictsOldest (init : FragRb n m) es := by
  have hstep : ∀ (s : FragRb n m) (e : RbEvent n) (s' : FragRb n m), Sound s → ¬ e.LoneByte →
      step s e = some s' → Sound s' := fun _ _ _ hs hlone hr => hs.step hlone hr
  refine ⟨always_of_along (fun _ hs => hs.consistent) hstep es sound_init hes, ?_⟩
  exact along_of_along (fun s e _ _ _ _ => evictsOldest s e) hstep es sound_init hes

/-- A fragment with these bytes, from one node to another. -/
def received (bs : List Byte) (now : Nat) (hdrs : Option (Nat × List Nhc)) : RbEvent n :=
  .frag ⟨[1], [2], fun i => bs.getD i 0, bs.length⟩ ⟨now, now, true, true, hdrs⟩ ⟨now, now, true, true, none⟩

/-- The first fragment of a datagram of 56 bytes: the IPv6 header in three bytes, and eight bytes. -/
def compressedFirst : RbEvent n :=
  received ([0xc0, 56, 0, 7, 0x7b, 0x33, 0x3a] ++ List.replicate 8 1) 10 (some (1, []))

/-- The second one, and one that overlaps it. -/
def secondFragment : RbEvent n := received ([0xe0, 56, 0, 7, 6] ++ List.replicate 4 1) 11 none
def overlapping : RbEvent n := received ([0xe0, 56, 0, 7, 6] ++ List.replicate 8 1) 12 none

theorem reassembly_consistent_overlap :
    let es : List (RbEvent rbufSize) := [compressedFirst, secondFragment, overlapping, .timeout 4000000]
    Always step Consistent (init : FragRb rbufSize rbufIntSize) es
      ∧ Along step EvictsOldest (init : FragRb rbufSize rbufIntSize) es :=
  reassembly_consistent _ (by decide)

/-- What is counted for a first fragment is not what its interval has, when it is decompressed. -/
theorem not_reassembly_counted :
    ¬ ∀ es : List (RbEvent rbufSize), Always step (fun st : FragRb rbufSize rbufIntSize =>
      ∀ i, (st.rbuf i).pkt ≠ none → (st.rbuf i).currentSize = total st.ints (st.intsOf i)) init es := by
  intro h
  obtain ⟨st, hrun, hpkt, hcount⟩ : ∃ st : FragRb rbufSize rbufIntSize,
      run step init [compressedFirst] = some st ∧ (st.rbuf 0).pkt ≠ none ∧
        (st.rbuf 0).currentSize ≠ total st.ints (st.intsOf 0) := ⟨_, rfl, by decide, by decide⟩
  exact hcount ((h [compressedFirst]).last hrun 0 hpkt)

end Riot.Sixlowpan.FragRb
