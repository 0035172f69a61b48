import Mathlib.Tactic.Ring

/-!
# The reassembly buffer of IPv6 fragments

The table of `gnrc_ipv6_ext_frag` that holds the datagrams under reassembly. An entry is free if it
points to no IPv6 header; the header it points to is one of the packet the entry was claimed for, or
of a later fragment. One loop looks for the entry of a fragment, claims the first free one and keeps
track of the entry to evict.
-/

namespace Riot.Ipv6

open Function Nat

/-! ## Entries -/

/-- The headers of a received packet in front of the fragment header: what is read and written of
them. `nh` is the next header field of the last one. -/
structure Hdrs where
  src : Nat
  dst : Nat
  len : Nat
  nh : Nat
deriving DecidableEq, Repr

/-- `gnrc_ipv6_ext_frag_limits_t`, in units of 8 bytes -/
structure Limits where
  start : Nat
  stop : Nat
deriving DecidableEq, Repr

/-- A partly reassembled packet: the packet whose headers it goes with, and its payload. -/
structure RbufPkt where
  hdr : Nat
  data : List UInt8

/-- `gnrc_ipv6_ext_frag_rbuf_t`. A header is known by the number of the packet it came with. -/
structure Rbuf where
  pkt : Option RbufPkt
  ipv6 : Option Nat
  limits : List Limits
  id : Nat
  arrival : Nat
  pktLen : Nat
  last : Nat

/-- `CONFIG_GNRC_IPV6_EXT_FRAG_RBUF_SIZE`, `.._TIMEOUT_US` and the negation of
`.._DO_NOT_OVERRIDE`. -/
structure FragConfig where
  size : Nat
  timeout : Nat
  override : Bool

/-- The module's state, along with the headers in the packet buffer and which of them are no longer
its own, as their packets were released or passed on. Packets are numbered as they arrive. -/
structure FragState where
  rbuf : Nat → Rbuf
  freeLimits : Nat
  hdrs : Nat → Hdrs
  gone : List Nat
  next : Nat

namespace FragState

def setRbuf (st : FragState) (i : Nat) (r : Rbuf) : FragState :=
  { st with rbuf := update st.rbuf i r }

/-- `gnrc_pktbuf_release` of a packet with the headers `p`. -/
def release (st : FragState) (p : Nat) : FragState := { st with gone := p :: st.gone }

def rbufFree (st : FragState) (i : Nat) : FragState :=
  { st with freeLimits := st.freeLimits + (st.rbuf i).limits.length }.setRbuf i
    { st.rbuf i with ipv6 := none, limits := [] }

def rbufDel (st : FragState) (i : Nat) : FragState :=
  let st' := match (st.rbuf i).pkt with
    | some k => st.release k.hdr
    | none => st
  (st'.setRbuf i { st.rbuf i with pkt := none }).rbufFree i

end FragState

def initRbuf (r : Rbuf) (ipv6 id : Nat) : Rbuf :=
  { r with ipv6 := some ipv6, id := id, pktLen := 0, last := 0 }

/-! ## `gnrc_ipv6_ext_frag_rbuf_get` -/

/-- An entry in use with the identification, source and destination looked for. -/
def rbufMatches (hdrs : Nat → Hdrs) (r : Rbuf) (ipv6 id : Nat) : Bool :=
  match r.ipv6 with
  | some p => r.id = id && (hdrs p).src = (hdrs ipv6).src && (hdrs p).dst = (hdrs ipv6).dst
  | none => false

/-- The table and the variables of the loop. -/
structure GetLoop where
  rbuf : Nat → Rbuf
  res : Option Nat
  oldest : Option Nat

/-- What the loop does with an entry that is not the one looked for. -/
def rbufGetStep (ipv6 id i : Nat) (s : GetLoop) : GetLoop :=
  let tmp := s.rbuf i
  let claim := tmp.ipv6 = none ∧ s.res = none
  { rbuf := if claim then update s.rbuf i (initRbuf tmp ipv6 id) else s.rbuf
    res := if claim then some i else s.res
    oldest := match s.oldest with
      | none => some i
      | some o =>
        if (tmp.arrival + (2 ^ 32 - (s.rbuf o).arrival)) % 2 ^ 32 < (2 ^ 32 - 1) / 2 then some i
        else some o }

/-- The loop over the next `n` entries; it ends early at the entry looked for. -/
def rbufGetLoop (hdrs : Nat → Hdrs) (ipv6 id : Nat) : Nat → Nat → GetLoop → Option Nat × GetLoop
  | 0, _, s => (none, s)
  | n + 1, i, s =>
    if rbufMatches hdrs (s.rbuf i) ipv6 id then (some i, s)
    else rbufGetLoop hdrs ipv6 id n (i + 1) (rbufGetStep ipv6 id i s)

def rbufGet (cfg : FragConfig) (st : FragState) (ipv6 id : Nat) : Option Nat × FragState :=
  let r := rbufGetLoop st.hdrs ipv6 id cfg.size 0 { rbuf := st.rbuf, res := none, oldest := none }
  let st := { st with rbuf := r.2.rbuf }
  match r.1, r.2.res, r.2.oldest with
  | some i, _, _ => (some i, st)
  | none, some i, _ => (some i, st)
  | none, none, some o =>
    if cfg.override then
      let st := st.rbufDel o
      (some o, st.setRbuf o (initRbuf (st.rbuf o) ipv6 id))
    else (none, st)
  | none, none, none => (none, st)

/-! ## What the loop does -/

/-- The entry that the comparison of arrival times keeps of the first `k + 1`: it moves on to an
entry that is not earlier than the one kept so far. -/
def keptEntry (rbuf : Nat → Rbuf) : Nat → Nat
  | 0 => 0
  | k + 1 =>
    if ((rbuf (k + 1)).arrival + (2 ^ 32 - (rbuf (keptEntry rbuf k)).arrival)) % 2 ^ 32 <
      (2 ^ 32 - 1) / 2 then k + 1 else keptEntry rbuf k

/-- Entry `i` is the first free one. -/
def FirstFree (rbuf : Nat → Rbuf) (i : Nat) : Prop :=
  (rbuf i).ipv6 = none ∧ ∀ j, j < i → (rbuf j).ipv6 ≠ none

/-- What the loop has come to after `i` entries none of which was the one looked for. -/
structure Looked (hdrs : Nat → Hdrs) (rbuf : Nat → Rbuf) (ipv6 id i : Nat) (s : GetLoop) : Prop where
  unmatched : ∀ j, j < i → rbufMatches hdrs (rbuf j) ipv6 id = false
  claimed : (s.res = none ∧ s.rbuf = rbuf ∧ ∀ j, j < i → (rbuf j).ipv6 ≠ none) ∨
    ∃ k, k < i ∧ FirstFree rbuf k ∧ s.res = some k ∧
      s.rbuf = update rbuf k (initRbuf (rbuf k) ipv6 id)
  oldest : s.oldest = if i = 0 then none else some (keptEntry rbuf (i - 1))

variable {hdrs : Nat → Hdrs} {rbuf : Nat → Rbuf} {ipv6 id i n : Nat} {s : GetLoop}

namespace Looked

theorem init : Looked hdrs rbuf ipv6 id 0 { rbuf := rbuf, res := none, oldest := none } :=
  ⟨fun _ hj => absurd hj (not_lt_zero _),
    .inl ⟨rfl, rfl, fun _ hj => absurd hj (not_lt_zero _)⟩, rfl⟩

theorem arrival (h : Looked hdrs rbuf ipv6 id i s) (j : Nat) : (s.rbuf j).arrival = (rbuf j).arrival := by
  rcases h.claimed with ⟨-, heq, -⟩ | ⟨k, -, -, -, heq⟩
  · rw [heq]
  · rw [heq]
    rcases eq_or_ne j k with rfl | hne
    · rw [update_self]
      rfl
    · rw [update_of_ne hne]

theorem unseen (h : Looked hdrs rbuf ipv6 id i s) : s.rbuf i = rbuf i := by
  rcases h.claimed with ⟨-, heq, -⟩ | ⟨k, hk, -, -, heq⟩
  · rw [heq]
  · rw [heq, update_of_ne (Nat.ne_of_gt hk)]

theorem step (h : Looked hdrs rbuf ipv6 id i s) (hno : rbufMatches hdrs (rbuf i) ipv6 id = false) :
    Looked hdrs rbuf ipv6 id (i + 1) (rbufGetStep ipv6 id i s) := by
  refine ⟨?_, ?_, ?_⟩
  · intro j hj
    rcases Nat.lt_succ_iff_lt_or_eq.mp hj with hj | rfl
    · exact h.unmatched j hj
    · exact hno
  · simp only [rbufGetStep, h.unseen]
    rcases h.claimed with ⟨hres, heq, hused⟩ | ⟨k, hk, hfree, hres, heq⟩
    · by_cases hi : (rbuf i).ipv6 = none
      · rw [if_pos ⟨hi, hres⟩, if_pos ⟨hi, hres⟩, heq]
        exact .inr ⟨i, lt_succ_self i, ⟨hi, hused⟩, rfl, rfl⟩
      · rw [if_neg (fun hc => hi hc.1), if_neg (fun hc => hi hc.1)]
        refine .inl ⟨hres, heq, fun j hj => ?_⟩
        rcases Nat.lt_succ_iff_lt_or_eq.mp hj with hj | rfl
        · exact hused j hj
        · exact hi
    · rw [if_neg (by rw [hres]; simp), if_neg (by rw [hres]; simp)]
      exact .inr ⟨k, lt_succ_of_lt hk, hfree, hres, heq⟩
  · simp only [rbufGetStep, h.oldest, h.unseen]
    cases i with
    | zero => rfl
    | succ i =>
      rw [if_neg (succ_ne_zero i), if_neg (succ_ne_zero _), Nat.add_sub_cancel, Nat.add_sub_cancel]
      dsimp only
      rw [h.arrival, keptEntry]
      split <;> rfl

end Looked

/-- The loop ends at the first entry that matches, or has looked at all of them. -/
theorem rbufGetLoop_spec (h : Looked hdrs rbuf ipv6 id i s) :
    (∃ j s', rbufGetLoop hdrs ipv6 id n i s = (some j, s') ∧ j < i + n ∧
        rbufMatches hdrs (rbuf j) ipv6 id = true ∧ Looked hdrs rbuf ipv6 id j s') ∨
      ∃ s', rbufGetLoop hdrs ipv6 id n i s = (none, s') ∧ Looked hdrs rbuf ipv6 id (i + n) s' := by
  induction n generalizing i s with
  | zero => exact .inr ⟨s, rfl, h⟩
  | succ n ih =>
    rw [rbufGetLoop, h.unseen]
    cases hmatch : rbufMatches hdrs (rbuf i) ipv6 id with
    | true => exact .inl ⟨i, s, if_pos rfl, by omega, hmatch, h⟩
    | false =>
      have hstep := ih (h.step hmatch)
      rwa [Nat.add_right_comm, Nat.add_assoc] at hstep

/-! ## Which entry is evicted -/

/-- The comparison of two arrival times at most 2^31 apart: not earlier, and not by as much as
`UINT32_MAX / 2` later. -/
theorem arrival_lt_iff {a b : Nat} (hab : a ≤ b + 2 ^ 31) (hba : b ≤ a + 2 ^ 31) :
    (a % 2 ^ 32 + (2 ^ 32 - b % 2 ^ 32)) % 2 ^ 32 < (2 ^ 32 - 1) / 2 ↔ b ≤ a ∧ a < b + (2 ^ 31 - 1) := by
  omega

theorem keptEntry_le (rbuf : Nat → Rbuf) (k : Nat) : keptEntry rbuf k ≤ k := by
  induction k with
  | zero => exact Nat.le_refl 0
  | succ k ih =>
    rw [keptEntry]
    split
    · exact le_rfl
    · exact le_succ_of_le ih

/-- The first `k + 1` entries arrived at `T`, within half of the range of the timer. -/
structure ArrivedAt (rbuf : Nat → Rbuf) (T : Nat → Nat) (k : Nat) : Prop where
  arrival : ∀ i, i ≤ k → (rbuf i).arrival = T i % 2 ^ 32
  within : ∀ i j, i ≤ k → j ≤ k → T i ≤ T j + 2 ^ 31

variable {T : Nat → Nat} {k : Nat}

theorem ArrivedAt.mono (h : ArrivedAt rbuf T (k + 1)) : ArrivedAt rbuf T k :=
  ⟨fun i hi => h.arrival i (le_succ_of_le hi),
    fun i j hi hj => h.within i j (le_succ_of_le hi) (le_succ_of_le hj)⟩

theorem ArrivedAt.keptEntry_succ (h : ArrivedAt rbuf T (k + 1)) : keptEntry rbuf (k + 1) =
      if T (keptEntry rbuf k) ≤ T (k + 1) ∧ T (k + 1) < T (keptEntry rbuf k) + (2 ^ 31 - 1)
      then k + 1 else keptEntry rbuf k := by
  have hle := le_succ_of_le (keptEntry_le rbuf k)
  rw [keptEntry, h.arrival _ le_rfl, h.arrival _ hle]
  exact if_congr (arrival_lt_iff (h.within _ _ le_rfl hle) (h.within _ _ hle le_rfl))
    rfl rfl

theorem ArrivedAt.keptEntry_mono (h : ArrivedAt rbuf T k) : T 0 ≤ T (keptEntry rbuf k) := by
  induction k with
  | zero => exact le_rfl
  | succ k ih =>
    have := ih h.mono
    rw [h.keptEntry_succ]
    split <;> omega

/-- The first entry is the earliest, and is kept to the end. -/
def EarliestKept (T : Nat → Nat) (k : Nat) : Prop :=
  ∀ i, i ≤ k → T i = T 0 ∨ T 0 + (2 ^ 31 - 1) ≤ T i

theorem ArrivedAt.keptEntry_eq (h : ArrivedAt rbuf T k) (hk : EarliestKept T k) :
    T (keptEntry rbuf k) = T 0 := by
  induction k with
  | zero => rfl
  | succ k ih =>
    have hprev := ih h.mono fun i hi => hk i (le_succ_of_le hi)
    have hlast := hk (k + 1) le_rfl
    rw [h.keptEntry_succ]
    split <;> omega

/-- The loop keeps the entry with the earliest arrival only if this is the first one and no other
entry is less than `UINT32_MAX / 2` later. -/
theorem ArrivedAt.keptEntry_earliest_iff (h : ArrivedAt rbuf T k) :
    (∀ i, i ≤ k → T (keptEntry rbuf k) ≤ T i) ↔ EarliestKept T k := by
  constructor
  · induction k with
    | zero =>
      intro _ i hi
      rw [le_zero.mp hi]
      exact .inl rfl
    | succ k ih =>
      intro hmin i hi
      have hfirst : T (keptEntry rbuf (k + 1)) = T 0 :=
        Nat.le_antisymm (hmin 0 (Nat.zero_le _)) h.keptEntry_mono
      have hprev := h.mono.keptEntry_mono
      have hsucc := h.keptEntry_succ
      have hlast := hmin (k + 1) le_rfl
      rw [hfirst] at hlast
      have hkept : T (keptEntry rbuf k) = T 0 := by
        rw [hsucc] at hfirst
        split at hfirst <;> omega
      rcases Nat.lt_or_eq_of_le hi with hi | rfl
      · refine ih h.mono (fun j hj => ?_) i (le_of_lt_succ hi)
        rw [hkept, ← hfirst]
        exact hmin j (le_succ_of_le hj)
      · rw [hsucc] at hfirst
        split at hfirst <;> omega
  · intro hk i hi
    rw [h.keptEntry_eq hk]
    rcases hk i hi with heq | hge <;> omega

/-! ## What a lookup should do -/

/-- Entry `j` is the one of the fragment. -/
def Present (cfg : FragConfig) (st : FragState) (ipv6 id j : Nat) : Prop :=
  j < cfg.size ∧ rbufMatches st.hdrs (st.rbuf j) ipv6 id = true

/-- Entry `j` is free. -/
def Free (cfg : FragConfig) (st : FragState) (j : Nat) : Prop :=
  j < cfg.size ∧ (st.rbuf j).ipv6 = none

/-- The lookup returns the entry of the fragment and changes none; else it claims a free entry; else
it evicts the entry with the earliest arrival, if it may. -/
structure LookupRight (cfg : FragConfig) (st : FragState) (ipv6 id : Nat) (T : Nat → Nat) : Prop where
  found : (∃ j, Present cfg st ipv6 id j) →
    ∃ j, Present cfg st ipv6 id j ∧ rbufGet cfg st ipv6 id = (some j, st)
  claimed : (¬∃ j, Present cfg st ipv6 id j) → (∃ j, Free cfg st j) →
    ∃ j, Free cfg st j ∧
      rbufGet cfg st ipv6 id = (some j, st.setRbuf j (initRbuf (st.rbuf j) ipv6 id))
  evicted : (¬∃ j, Present cfg st ipv6 id j) → (¬∃ j, Free cfg st j) → cfg.override = true →
    ∃ j, j < cfg.size ∧ (∀ i, i < cfg.size → T j ≤ T i) ∧
      rbufGet cfg st ipv6 id =
        (some j, (st.rbufDel j).setRbuf j (initRbuf ((st.rbufDel j).rbuf j) ipv6 id))
  refused : (¬∃ j, Present cfg st ipv6 id j) → (¬∃ j, Free cfg st j) → cfg.override = false →
    rbufGet cfg st ipv6 id = (none, st)

/-- No free entry lies in front of the one looked for. -/
def NoFreeBefore (cfg : FragConfig) (st : FragState) (ipv6 id : Nat) : Prop :=
  ∀ j, Present cfg st ipv6 id j → (∀ i, i < j → ¬Present cfg st ipv6 id i) →
    ∀ i, i < j → ¬Free cfg st i

/-- No free entry lies in front of the one looked for; and if an entry is evicted, the first one is
the earliest, and the others arrived with it or at least `UINT32_MAX / 2` later. -/
structure LookupCond (cfg : FragConfig) (st : FragState) (ipv6 id : Nat) (T : Nat → Nat) : Prop where
  noFree : NoFreeBefore cfg st ipv6 id
  earliest : (¬∃ j, Present cfg st ipv6 id j) → (¬∃ j, Free cfg st j) → cfg.override = true →
    ∀ i, i < cfg.size → T i = T 0 ∨ T 0 + (2 ^ 31 - 1) ≤ T i

variable {cfg : FragConfig} {st : FragState}

/-- What the lookup does: the three ways the loop can end, with the claim made on the way. -/
theorem rbufGet_cases (cfg : FragConfig) (st : FragState) (ipv6 id : Nat) :
    (∃ j rbuf', Present cfg st ipv6 id j ∧ (∀ i, i < j → ¬Present cfg st ipv6 id i) ∧
      rbufGet cfg st ipv6 id = (some j, { st with rbuf := rbuf' }) ∧
      ((rbuf' = st.rbuf ∧ ∀ i, i < j → ¬Free cfg st i) ∨ ∃ k, k < j ∧ Free cfg st k ∧
          rbuf' = update st.rbuf k (initRbuf (st.rbuf k) ipv6 id))) ∨
    ((¬∃ j, Present cfg st ipv6 id j) ∧ ((∃ k, Free cfg st k ∧
        rbufGet cfg st ipv6 id = (some k, st.setRbuf k (initRbuf (st.rbuf k) ipv6 id))) ∨
      ((¬∃ j, Free cfg st j) ∧ rbufGet cfg st ipv6 id = if cfg.size = 0 then (none, st)
          else if cfg.override then
            let o := keptEntry st.rbuf (cfg.size - 1)
            (some o, (st.rbufDel o).setRbuf o (initRbuf ((st.rbufDel o).rbuf o) ipv6 id))
          else (none, st)))) := by
  have hspec := rbufGetLoop_spec (n := cfg.size) (show Looked st.hdrs st.rbuf ipv6 id 0 _ from Looked.init)
  rw [Nat.zero_add] at hspec
  rcases hspec with ⟨j, s, hrun, hj, hmatch, hlook⟩ | ⟨s, hrun, hlook⟩
  · refine .inl ⟨j, s.rbuf, ⟨hj, hmatch⟩, fun i hi hp => ?_, ?_, ?_⟩
    · have hmatch' := hp.2
      rw [hlook.unmatched i hi] at hmatch'
      exact Bool.noConfusion hmatch'
    · simp only [rbufGet, hrun]
    · rcases hlook.claimed with ⟨-, heq, hused⟩ | ⟨k, hk, hfree, -, heq⟩
      · exact .inl ⟨heq, fun i hi hf => hused i hi hf.2⟩
      · exact .inr ⟨k, hk, ⟨by omega, hfree.1⟩, heq⟩
  · refine .inr ⟨fun ⟨j, hj, hmatch⟩ => ?_, ?_⟩
    · rw [hlook.unmatched j hj] at hmatch
      exact Bool.noConfusion hmatch
    rcases hlook.claimed with ⟨hres, heq, hused⟩ | ⟨k, hk, hfree, hres, heq⟩
    · refine .inr ⟨fun ⟨j, hj, hf⟩ => hused j hj hf, ?_⟩
      have hold := hlook.oldest
      simp only [rbufGet, hrun, hres, heq]
      by_cases hsize : cfg.size = 0
      · rw [hold, if_pos hsize, if_pos hsize]
      · rw [hold, if_neg hsize, if_neg hsize]
    · refine .inl ⟨k, ⟨hk, hfree.1⟩, ?_⟩
      simp only [rbufGet, hrun, hres, heq]
      rfl

theorem first_unique {P : Nat → Prop} {i j : Nat} (hi : P i) (hj : P j) (hi' : ∀ k, k < i → ¬P k)
    (hj' : ∀ k, k < j → ¬P k) : i = j := by
  rcases Nat.lt_trichotomy i j with h | h | h
  · exact absurd hi (hj' i h)
  · exact h
  · exact absurd hj (hi' j h)

theorem LookupRight.cond (hsize : 0 < cfg.size)
    (hT : (¬∃ j, Free cfg st j) → ArrivedAt st.rbuf T (cfg.size - 1))
    (h : LookupRight cfg st ipv6 id T) : LookupCond cfg st ipv6 id T := by
  constructor
  · intro j hj hfirst i hi hfree
    rcases rbufGet_cases cfg st ipv6 id with ⟨j', rbuf', hj', hfirst', hget, hclaim⟩ | ⟨hnone, -⟩
    · obtain rfl := first_unique hj hj' hfirst hfirst'
      rcases hclaim with ⟨-, hused⟩ | ⟨k, hk, hkfree, rfl⟩
      · exact hused i hi hfree
      · -- the claim of entry `k` has stayed
        obtain ⟨_, -, hget'⟩ := h.found ⟨j, hj⟩
        have hst := congrArg (fun r : Option Nat × FragState => (r.2.rbuf k).ipv6) (hget.symm.trans hget')
        dsimp only at hst
        rw [update_self, hkfree.2] at hst
        cases hst
    · exact hnone ⟨j, hj⟩
  · intro hnone hfull hov
    obtain ⟨j, -, hmin, hget'⟩ := h.evicted hnone hfull hov
    rcases rbufGet_cases cfg st ipv6 id with ⟨j', -, hj', -⟩ | ⟨-, ⟨k, hk, -⟩ | ⟨-, hget⟩⟩
    · exact absurd ⟨j', hj'⟩ hnone
    · exact absurd ⟨k, hk⟩ hfull
    · rw [if_neg (Nat.ne_of_gt hsize), if_pos hov] at hget
      have hj : keptEntry st.rbuf (cfg.size - 1) = j :=
        Option.some.inj (congrArg Prod.fst (hget.symm.trans hget'))
      intro i hi
      refine (hT hfull).keptEntry_earliest_iff.mp (fun i hi => ?_) i (by omega)
      rw [hj]
      exact hmin i (by omega)

theorem LookupCond.right (hsize : 0 < cfg.size)
    (hT : (¬∃ j, Free cfg st j) → ArrivedAt st.rbuf T (cfg.size - 1))
    (h : LookupCond cfg st ipv6 id T) : LookupRight cfg st ipv6 id T := by
  rcases rbufGet_cases cfg st ipv6 id with
    ⟨j, rbuf', hj, hfirst, hget, hclaim⟩ | ⟨hnone, ⟨k, hk, hget⟩ | ⟨hfull, hget⟩⟩
  · have hpresent : ∃ j, Present cfg st ipv6 id j := ⟨j, hj⟩
    refine ⟨fun _ => ⟨j, hj, ?_⟩, fun hn => absurd hpresent hn, fun hn => absurd hpresent hn,
      fun hn => absurd hpresent hn⟩
    rcases hclaim with ⟨rfl, -⟩ | ⟨k, hk, hkfree, -⟩
    · exact hget
    · exact absurd hkfree (h.noFree j hj hfirst k hk)
  · exact ⟨fun hp => absurd hp hnone, fun _ _ => ⟨k, hk, hget⟩, fun _ hn => absurd ⟨k, hk⟩ hn,
      fun _ hn => absurd ⟨k, hk⟩ hn⟩
  · rw [if_neg (Nat.ne_of_gt hsize)] at hget
    refine ⟨fun hp => absurd hp hnone, fun _ hf => absurd hf hfull, fun _ _ hov => ?_,
      fun _ _ hov => ?_⟩
    · rw [if_pos hov] at hget
      have hle := keptEntry_le st.rbuf (cfg.size - 1)
      refine ⟨keptEntry st.rbuf (cfg.size - 1), by omega, fun i hi => ?_, hget⟩
      refine (hT hfull).keptEntry_earliest_iff.mpr (fun i hi => ?_) i (by omega)
      exact h.earliest hnone hfull hov i (by omega)
    · rw [hov] at hget
      exact hget

end Riot.Ipv6
