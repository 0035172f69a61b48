import Riot.Lib.PrefixMatch

/-!
# IPv6 addresses

`ipv6_addr_match_prefix` and `ipv6_addr_init_prefix` of
`sys/net/network_layer/ipv6/addr/ipv6_addr.c`, over the 16 bytes of an address,
and what they do to its 128 bits.
-/

namespace Riot.Ipv6

open Riot.Lib

/-- `ipv6_addr_t`. -/
abbrev Addr := Vector (BitVec 8) 16

theorem addr_pos : 0 < 16 := by decide

theorem addr_lt (k : Fin 16) : k.val < 16 := k.isLt

def addrUnspecified : Addr := Vector.replicate 16 0

/-- The while loop of `bitarithm_clzb`, which counts in `l`. -/
def clzbLoop : Nat → BitVec 8 → Nat → Nat
  | 0, _, l => l
  | fuel + 1, x, l => if x &&& 0x80 = 0 then clzbLoop fuel (x <<< 1) (l + 1) else l

/-- `bitarithm_clzb`: the number of leading zero bits of a byte that is not zero. -/
def clzb (x : BitVec 8) : Nat := clzbLoop 8 x 0

/-- The loop of `ipv6_addr_match_prefix` over the bytes that are left. -/
def matchPrefixLoop : List (BitVec 8 × BitVec 8) → Nat → Nat
  | [], prefixLen => prefixLen
  | (a, b) :: rest, prefixLen =>
    if a ^^^ b ≠ 0 then prefixLen + clzb (a ^^^ b) else matchPrefixLoop rest (prefixLen + 8)

/-- `ipv6_addr_match_prefix`: the number of leading bits that `a` and `b` have in common. -/
def matchPrefix (a b : Addr) : Nat := matchPrefixLoop (a.toList.zip b.toList) 0

/-- `ipv6_addr_init_prefix`: the first `bits` bits of `prefix`, the others as in `out`. -/
def initPrefix (out pfx : Addr) (bits : Nat) : Addr :=
  let bits := if 128 < bits then 128 else bits
  let bytes := bits / 8
  let mask : BitVec 8 := 0xff#8 <<< (8 - bits % 8)
  Vector.ofFn fun i =>
    if i < bytes then pfx[i]
    else if i = bytes ∧ bits % 8 ≠ 0 then (out[i] &&& ~~~mask) ||| (pfx[i] &&& mask)
    else out[i]

/-! ## The bits of an address -/

/-- Bit `i` of a sequence of bytes, the most significant bit of the first byte being bit 0. -/
def byteBit (l : List (BitVec 8)) (i : Nat) : Bool := (l.getD (i / 8) 0).getMsbD (i % 8)

/-- Bit `i` of an address. -/
def bit (a : Addr) (i : Nat) : Bool := byteBit a.toList i

theorem byteBit_cons_lt {x : BitVec 8} {l : List (BitVec 8)} {i : Nat} (h : i < 8) :
    byteBit (x :: l) i = x.getMsbD i := by
  unfold byteBit
  rw [Nat.div_eq_of_lt h, Nat.mod_eq_of_lt h]
  rfl

theorem byteBit_cons_add {x : BitVec 8} {l : List (BitVec 8)} {i : Nat} :
    byteBit (x :: l) (8 + i) = byteBit l i := by
  unfold byteBit
  have hdiv : (8 + i) / 8 = i / 8 + 1 := by omega
  have hmod : (8 + i) % 8 = i % 8 := by omega
  rw [hdiv, hmod]
  rfl

/-- The leading bits that two bytes have in common are those that their sum has zero. -/
theorem clzb_xor : ∀ x : BitVec 8, x ≠ 0 →
    clzb x < 8 ∧ x.getMsbD (clzb x) = true ∧ ∀ i < clzb x, x.getMsbD i = false := by
  decide +kernel

theorem matchPrefixLoop_add (l : List (BitVec 8 × BitVec 8)) (k : Nat) :
    matchPrefixLoop l k = k + matchPrefixLoop l 0 := by
  induction l generalizing k with
  | nil => simp [matchPrefixLoop]
  | cons p l ih =>
    rw [matchPrefixLoop, matchPrefixLoop]
    split
    · omega
    · rw [ih (k + 8), ih (0 + 8)]
      omega

theorem matchPrefixLoop_le (l : List (BitVec 8 × BitVec 8)) : matchPrefixLoop l 0 ≤ 8 * l.length := by
  induction l with
  | nil => simp [matchPrefixLoop]
  | cons p l ih =>
    rw [matchPrefixLoop, List.length_cons]
    split
    · rename_i hne
      have := (clzb_xor _ hne).1
      omega
    · rw [matchPrefixLoop_add]
      omega

theorem le_matchPrefixLoop {n : Nat} : ∀ {as bs : List (BitVec 8)}, as.length = bs.length →
    n ≤ 8 * as.length → (n ≤ matchPrefixLoop (as.zip bs) 0 ↔ AgreeTo n (byteBit as) (byteBit bs))
  | [], [], _, hn => by
    have h0 : n = 0 := by simpa using hn
    subst h0
    exact ⟨fun _ i hi => absurd hi (by omega), fun _ => Nat.zero_le _⟩
  | a :: as, b :: bs, hlen, hn => by
    rw [List.zip_cons_cons, matchPrefixLoop]
    by_cases hne : a ^^^ b ≠ 0
    · rw [if_pos hne, Nat.zero_add]
      obtain ⟨hlt, hset, hzero⟩ := clzb_xor _ hne
      constructor
      · intro hle i hi
        have hi8 : i < 8 := by omega
        have := hzero i (by omega)
        rw [byteBit_cons_lt hi8, byteBit_cons_lt hi8]
        simpa using this
      · intro hagree
        -- past the leading zeros of the sum the two bytes differ
        refine Nat.le_of_not_lt fun hle => ?_
        have := hagree (clzb (a ^^^ b)) hle
        rw [byteBit_cons_lt hlt, byteBit_cons_lt hlt] at this
        rw [BitVec.getMsbD_xor, this] at hset
        simp at hset
    · rw [if_neg hne, matchPrefixLoop_add]
      have hab : a = b := by
        have := Decidable.not_not.mp hne
        exact BitVec.xor_eq_zero_iff.mp this
      subst hab
      have hlen' : as.length = bs.length := by simpa using hlen
      rw [List.length_cons] at hn
      rcases Nat.lt_or_ge n 8 with hn8 | hn8
      · constructor
        · intro _ i hi
          rw [byteBit_cons_lt (by omega), byteBit_cons_lt (by omega)]
        · intro _
          omega
      · have ih := @le_matchPrefixLoop (n - 8) as bs hlen' (by omega)
        constructor
        · intro hle i hi
          rcases Nat.lt_or_ge i 8 with hi8 | hi8
          · rw [byteBit_cons_lt hi8, byteBit_cons_lt hi8]
          · have := ih.mp (by omega) (i - 8) (by omega)
            have hi' : i = 8 + (i - 8) := by omega
            rw [hi', byteBit_cons_add, byteBit_cons_add]
            exact this
        · intro hagree
          have : n - 8 ≤ matchPrefixLoop (as.zip bs) 0 := ih.mpr fun i hi => by
            have := hagree (8 + i) (by omega)
            rwa [byteBit_cons_add, byteBit_cons_add] at this
          omega

theorem le_matchPrefix {n : Nat} {a b : Addr} (hn : n ≤ 128) :
    n ≤ matchPrefix a b ↔ AgreeTo n (bit a) (bit b) :=
  le_matchPrefixLoop (by simp) (by simpa using hn)

theorem matchPrefix_le (a b : Addr) : matchPrefix a b ≤ 128 := by
  have := matchPrefixLoop_le (a.toList.zip b.toList)
  simpa [matchPrefix] using this

theorem bit_eq {a : Addr} {i : Nat} (h : i / 8 < 16) : bit a i = a[i / 8].getMsbD (i % 8) := by
  simp [bit, byteBit, h]

theorem bit_of_le {a : Addr} {i : Nat} (h : 128 ≤ i) : bit a i = false := by
  have : 16 ≤ i / 8 := by omega
  simp [bit, byteBit, this]

theorem addr_ext {a b : Addr} (h : bit a = bit b) : a = b := by
  ext i hi j hj
  have hbit := congrFun h (8 * i + (7 - j))
  have hdiv : (8 * i + (7 - j)) / 8 = i := by omega
  have hmod : (8 * i + (7 - j)) % 8 = 7 - j := by omega
  rw [bit_eq (by omega), bit_eq (by omega)] at hbit
  simp only [hdiv, hmod] at hbit
  have hrev : ∀ x : BitVec 8, x.getMsbD (7 - j) = x.getLsbD j := by
    intro x
    rw [BitVec.getMsbD_eq_getLsbD]
    have hj' : 8 - 1 - (7 - j) = j := by omega
    simp [hj', show 7 - j < 8 by omega]
  rw [hrev, hrev] at hbit
  simpa [BitVec.getLsbD_eq_getElem hj] using hbit

@[simp] theorem bit_unspecified (i : Nat) : bit addrUnspecified i = false := by
  rcases Nat.lt_or_ge i 128 with hi | hi
  · rw [bit_eq (by omega)]
    simp [addrUnspecified]
  · exact bit_of_le hi

theorem getMsbD_prefixMask {k j : Nat} (hk : k < 8) : (0xff#8 <<< (8 - k)).getMsbD j = decide (j < k) := by
  have hall : ∀ k < 8, ∀ j < 8, (0xff#8 <<< (8 - k)).getMsbD j = decide (j < k) := by decide
  rcases Nat.lt_or_ge j 8 with hj | hj
  · exact hall k hk j hj
  · rw [BitVec.getMsbD_of_ge _ _ hj]
    simp
    omega

theorem bit_initPrefix {out pfx : Addr} {bits i : Nat} (hbits : bits ≤ 128) :
    bit (initPrefix out pfx bits) i = if i < bits then bit pfx i else bit out i := by
  rcases Nat.lt_or_ge i 128 with hi | hi
  · have hbyte : i / 8 < 16 := by omega
    rw [bit_eq hbyte, bit_eq hbyte, bit_eq hbyte]
    unfold initPrefix
    simp only [if_neg (Nat.not_lt.mpr hbits), Vector.getElem_ofFn]
    have hmod : i % 8 < 8 := Nat.mod_lt _ (by omega)
    rcases Nat.lt_trichotomy (i / 8) (bits / 8) with hlt | heq | hgt
    · have : i < bits := by omega
      simp [hlt, this]
    · -- the byte that the prefix ends in, if it does not end with the byte before
      by_cases hrest : bits % 8 = 0
      · have : ¬ i < bits := by omega
        simp [heq, hrest, this]
      · have hiff : i % 8 < bits % 8 ↔ i < bits := by omega
        have hmask := @getMsbD_prefixMask (bits % 8) (i % 8) (Nat.mod_lt _ (by omega))
        by_cases hib : i < bits
        · simp [heq, hrest, hmask, hiff.mpr hib, hib, hmod]
        · have hout : ¬ i % 8 < bits % 8 := fun h => hib (hiff.mp h)
          simp [heq, hrest, hmask, hout, hib, hmod]
    · have : ¬ i < bits := by omega
      have hne : ¬ i / 8 = bits / 8 := by omega
      simp [Nat.lt_asymm hgt, this, hne]
  · have : ¬ i < bits := by omega
    rw [if_neg this, bit_of_le hi, bit_of_le hi]

end Riot.Ipv6
