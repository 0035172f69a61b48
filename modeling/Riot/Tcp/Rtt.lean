import Riot.Tcp.Pkt

/-!
# Round trip times

The fields of a TCB that measure round trip times and set the length of the
retransmission timer, with what `gnrc_tcp_pkt.c` computes from them. `int32_t` is a
`BitVec 32` that is read as a signed number; a signed computation that overflows is
`none`. The constants of the configuration are unsigned, so all other computations are.
-/

namespace Riot.Tcp

open Riot.Lib BitVec

def rtoUninitialized : BitVec 32 := BitVec.ofInt 32 (-1)

/-- `CONFIG_GNRC_TCP_RTO_LOWER_BOUND_MS` -/
def configRtoLowerBoundMs : BitVec 32 := 1000

/-- `CONFIG_GNRC_TCP_RTO_UPPER_BOUND_MS` -/
def configRtoUpperBoundMs : BitVec 32 := 60000

/-- `CONFIG_GNRC_TCP_RTO_GRANULARITY_MS` -/
def configRtoGranularityMs : BitVec 32 := 10

/-- `CONFIG_GNRC_TCP_RTO_A_DIV` -/
def configRtoADiv : BitVec 32 := 8

/-- `CONFIG_GNRC_TCP_RTO_B_DIV` -/
def configRtoBDiv : BitVec 32 := 4

/-- `CONFIG_GNRC_TCP_RTO_K` -/
def configRtoK : BitVec 32 := 4

/-- The fields of `gnrc_tcp_tcb_t` that are about time. -/
structure Rtt where
  rttStart : BitVec 32
  rttVar : BitVec 32
  srtt : BitVec 32
  rto : BitVec 32
  retries : BitVec 8
  deriving DecidableEq

/-- `gnrc_tcp_tcb_init` -/
def rttInit : Rtt where
  rttStart := 0
  rttVar := rtoUninitialized
  srtt := rtoUninitialized
  rto := rtoUninitialized
  retries := 0

/-- `_max` -/
def max32 (x y : BitVec 32) : BitVec 32 := if y < x then x else y

/-- `x * 2`, as a signed number -/
def signedDouble (x : BitVec 32) : Option (BitVec 32) :=
  if -2 ^ 31 ≤ 2 * x.toInt ∧ 2 * x.toInt < 2 ^ 31 then some (BitVec.ofInt 32 (2 * x.toInt)) else none

/-- `labs(x - y)` -/
def labsDiff (x y : BitVec 32) : Option (BitVec 32) :=
  (signedSub x y).bind fun d => if d = -2 ^ 31 then none else some (BitVec.ofNat 32 d.natAbs)

/-- What `_gnrc_tcp_pkt_send` writes: the start of a measurement, or one more retry. -/
def Rtt.send (r : Rtt) (now : BitVec 32) (retransmit : Bool) : Rtt :=
  if retransmit then { r with retries := r.retries + 1 } else { r with retries := 0, rttStart := now }

/-- The RTO of a first transmission, before it is checked against the bounds. -/
def Rtt.firstRto (r : Rtt) : BitVec 32 :=
  if r.srtt = rtoUninitialized ∨ r.rttVar = rtoUninitialized then configRtoLowerBoundMs
  else r.srtt + max32 configRtoGranularityMs (configRtoK * r.rttVar)

/-- The checks of the bounds, of signed numbers. -/
def boundRto (rto : BitVec 32) : BitVec 32 :=
  if rto.slt configRtoLowerBoundMs then configRtoLowerBoundMs
  else if configRtoUpperBoundMs.slt rto then configRtoUpperBoundMs
  else rto

/-- After five tries, the estimates are dropped. -/
def Rtt.dropBogus (r : Rtt) : Rtt :=
  if 5 ≤ r.retries then { r with srtt := rtoUninitialized, rttVar := rtoUninitialized } else r

/-- What `_gnrc_tcp_pkt_setup_retransmit` writes. -/
def Rtt.setup (r : Rtt) (retransmit : Bool) : Option Rtt :=
  if retransmit then
    (signedDouble r.rto).map fun rto => { r.dropBogus with rto := boundRto rto }
  else some { r with rto := boundRto r.firstRto }

/-- Takes a sample of the round trip time into the estimates. -/
def Rtt.sample (r : Rtt) (rtt : BitVec 32) : Option Rtt :=
  if r.srtt = rtoUninitialized ∧ r.rttVar = rtoUninitialized then
    some { r with srtt := rtt, rttVar := rtt.sshiftRight 1 }
  else
    (labsDiff r.srtt rtt).map fun d =>
      { r with
        rttVar := r.rttVar / configRtoBDiv * (configRtoBDiv - 1) + d / configRtoBDiv
        srtt := r.srtt / configRtoADiv * (configRtoADiv - 1) + rtt / configRtoADiv }

/-- The sample that `_gnrc_tcp_pkt_acknowledge` takes, if it takes one. -/
def Rtt.measure (r : Rtt) (now : BitVec 32) : Option (BitVec 32) :=
  if r.retries = 0 ∧ (0#32).slt (now - r.rttStart) then some (now - r.rttStart) else none

/-! ## The bounds -/

variable {r r' : Rtt} {x y d rtt now : BitVec 32} {again : Bool}

/-- The RTO lies between the bounds of the configuration. -/
def RtoBounded (r : Rtt) : Prop :=
  configRtoLowerBoundMs.toInt ≤ r.rto.toInt ∧ r.rto.toInt ≤ configRtoUpperBoundMs.toInt

/-- There is no estimate, or two that are not negative. -/
def Estimated (r : Rtt) : Prop :=
  (r.srtt = rtoUninitialized ∧ r.rttVar = rtoUninitialized) ∨
    (r.srtt.toNat < 2 ^ 31 ∧ r.rttVar.toNat < 2 ^ 31)

theorem boundRto_bounded : configRtoLowerBoundMs.toInt ≤ (boundRto x).toInt ∧
    (boundRto x).toInt ≤ configRtoUpperBoundMs.toInt := by
  unfold boundRto
  split
  · decide
  · rename_i hlow
    split
    · decide
    · rename_i hhigh
      rw [slt_iff_toInt_lt] at hlow hhigh
      omega

theorem signedDouble_isSome (h : RtoBounded r) : (signedDouble r.rto).isSome = true := by
  have hlow : configRtoLowerBoundMs.toInt = 1000 := rfl
  have hhigh : configRtoUpperBoundMs.toInt = 60000 := rfl
  obtain ⟨h1, h2⟩ := h
  unfold signedDouble
  rw [if_pos (by omega)]
  rfl

theorem setup_bounded (h : r.setup again = some r') : RtoBounded r' := by
  unfold Rtt.setup at h
  split at h
  · obtain ⟨rto, -, rfl⟩ := Option.map_eq_some_iff.mp h
    exact boundRto_bounded
  · cases h
    exact boundRto_bounded

/-! ## The estimates -/

theorem dropBogus_estimated (h : Estimated r) : Estimated r.dropBogus := by
  unfold Rtt.dropBogus
  split
  · exact .inl ⟨rfl, rfl⟩
  · exact h

theorem setup_estimated (h : Estimated r) (hsetup : r.setup again = some r') : Estimated r' := by
  unfold Rtt.setup at hsetup
  split at hsetup
  · obtain ⟨rto, -, rfl⟩ := Option.map_eq_some_iff.mp hsetup
    exact dropBogus_estimated h
  · cases hsetup
    exact h

theorem setup_estimates (hsetup : r.setup again = some r') : (r'.srtt = r.srtt ∧ r'.rttVar = r.rttVar) ∨
    (again = true ∧ r'.srtt = rtoUninitialized ∧ r'.rttVar = rtoUninitialized) := by
  unfold Rtt.setup at hsetup
  cases again with
  | false =>
    cases hsetup
    exact .inl ⟨rfl, rfl⟩
  | true =>
    obtain ⟨rto, -, rfl⟩ := Option.map_eq_some_iff.mp hsetup
    unfold Rtt.dropBogus
    split
    · exact .inr ⟨rfl, rfl, rfl⟩
    · exact .inl ⟨rfl, rfl⟩

theorem setup_measure (hsetup : r.setup again = some r') :
    r'.retries = r.retries ∧ r'.rttStart = r.rttStart := by
  unfold Rtt.setup at hsetup
  split at hsetup
  · obtain ⟨rto, -, rfl⟩ := Option.map_eq_some_iff.mp hsetup
    unfold Rtt.dropBogus
    split <;> exact ⟨rfl, rfl⟩
  · cases hsetup
    exact ⟨rfl, rfl⟩

theorem toNat_of_pos (h : (0#32).slt x = true) : 0 < x.toNat ∧ x.toNat < 2 ^ 31 := by
  rw [slt_iff_toInt_lt] at h
  have hzero : (0#32).toInt = 0 := rfl
  rw [hzero, toInt_eq_toNat_cond] at h
  split at h <;> omega

theorem toInt_of_lt (h : x.toNat < 2 ^ 31) : x.toInt = x.toNat := by
  rw [toInt_eq_toNat_cond, if_pos (by omega)]

theorem labsDiff_of_lt (hx : x.toNat < 2 ^ 31) (hy : y.toNat < 2 ^ 31) :
    ∃ d, labsDiff x y = some d ∧ d.toNat < 2 ^ 31 := by
  have hdiff : signedSub x y = some ((x.toNat : Int) - y.toNat) := by
    unfold signedSub
    rw [toInt_of_lt hx, toInt_of_lt hy, if_pos (by omega)]
  refine ⟨BitVec.ofNat 32 ((x.toNat : Int) - y.toNat).natAbs, ?_, ?_⟩
  · unfold labsDiff
    rw [hdiff, Option.bind_some, if_neg (by omega)]
  · rw [toNat_ofNat]
    omega

/-- A positive sample is taken without overflow, and keeps the estimates from being negative. -/
theorem sample_estimated (h : Estimated r) (hpos : (0#32).slt rtt = true) :
    ∃ r', r.sample rtt = some r' ∧ Estimated r' ∧ r'.rto = r.rto := by
  obtain ⟨hrtt0, hrtt⟩ := toNat_of_pos hpos
  unfold Rtt.sample
  by_cases hfirst : r.srtt = rtoUninitialized ∧ r.rttVar = rtoUninitialized
  · rw [if_pos hfirst]
    have hhalf : (rtt.sshiftRight 1).toNat < 2 ^ 31 := by
      rw [sshiftRight_eq_of_msb_false (msb_eq_false_iff_two_mul_lt.mpr (by omega)),
        toNat_ushiftRight, Nat.shiftRight_eq_div_pow]
      omega
    exact ⟨_, rfl, .inr ⟨hrtt, hhalf⟩, rfl⟩
  · rw [if_neg hfirst]
    obtain ⟨hsrtt, hvar⟩ := h.resolve_left hfirst
    obtain ⟨d, hd, hdlt⟩ := labsDiff_of_lt hsrtt hrtt
    rw [hd]
    refine ⟨_, rfl, .inr ⟨?_, ?_⟩, rfl⟩
    · have hdiv : configRtoADiv = 8#32 := rfl
      have hsub : configRtoADiv - 1 = 7#32 := rfl
      have h1 : (r.srtt / 8#32).toNat = r.srtt.toNat / 8 := toNat_udiv
      have h2 : (rtt / 8#32).toNat = rtt.toNat / 8 := toNat_udiv
      dsimp only
      rw [hsub, hdiv, toNat_add, toNat_mul, h1, h2]
      have h7 : (7#32).toNat = 7 := rfl
      have hm : r.srtt.toNat / 8 * 7 % 2 ^ 32 = r.srtt.toNat / 8 * 7 := Nat.mod_eq_of_lt (by omega)
      rw [h7, hm, Nat.mod_eq_of_lt (by omega)]
      omega
    · have hdiv : configRtoBDiv = 4#32 := rfl
      have hsub : configRtoBDiv - 1 = 3#32 := rfl
      have h1 : (r.rttVar / 4#32).toNat = r.rttVar.toNat / 4 := toNat_udiv
      have h2 : (d / 4#32).toNat = d.toNat / 4 := toNat_udiv
      rw [hsub, hdiv, toNat_add, toNat_mul, h1, h2]
      have h3 : (3#32).toNat = 3 := rfl
      have hm : r.rttVar.toNat / 4 * 3 % 2 ^ 32 = r.rttVar.toNat / 4 * 3 := Nat.mod_eq_of_lt (by omega)
      have hq' : d.toNat / 4 < 2 ^ 29 := by omega
      rw [h3, hm, Nat.mod_eq_of_lt (by omega)]
      omega

theorem measure_pos (h : r.measure now = some rtt) :
    r.retries = 0 ∧ rtt = now - r.rttStart ∧ (0#32).slt rtt = true := by
  unfold Rtt.measure at h
  split at h
  · rename_i hcond
    cases h
    exact ⟨hcond.1, rfl, hcond.2⟩
  · cases h

end Riot.Tcp
