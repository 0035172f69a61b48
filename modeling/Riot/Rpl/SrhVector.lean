import Riot.Rpl.Srh

/-!
# One hop

The address vector as the list of addresses it encodes, and what one hop does to
it: the destination is swapped with the next listed address. Any header at all is
processed within its address vector.
-/

namespace Riot.Rpl

open Riot.Ipv6 List

/-! ## Fields -/

theorem Srh.comprI_lt (rh : Srh) : rh.comprI < 16 := by
  unfold Srh.comprI
  rw [BitVec.toNat_ushiftRight, Nat.shiftRight_eq_div_pow]
  omega

theorem toNat_pred {x : BitVec 8} (h : x ≠ 0#8) : (x - 1#8).toNat = x.toNat - 1 := by
  have hne : x.toNat ≠ 0 := fun h0 => h (BitVec.eq_of_toNat_eq h0)
  show (2 ^ 8 - 1 + x.toNat) % 2 ^ 8 = _
  omega

theorem currentPos_toNat {numAddr segLeft : BitVec 8} (h : segLeft ≠ 0#8) (hle : ¬numAddr < segLeft) :
    (numAddr - (segLeft - 1#8)).toNat - 1 = numAddr.toNat - segLeft.toNat := by
  have hpred := toNat_pred h
  have hne : segLeft.toNat ≠ 0 := fun h0 => h (BitVec.eq_of_toNat_eq h0)
  have hle' : segLeft.toNat ≤ numAddr.toNat := Nat.not_lt.mp (by rwa [BitVec.lt_def] at hle)
  rw [BitVec.toNat_sub, hpred]
  omega

/-! ## Accesses within the address vector -/

section

variable {owns : Addr → Bool} {stack : Addr} {rh : Srh}

theorem readVec_eq {vec : List Byte} {off n : Nat} (h : off + n ≤ vec.length) :
    readVec vec off n = some ((vec.drop off).take n) := if_pos h

/-- The check of the length leaves room for the entries counted, narrowed or not. -/
theorem entry_fits {i : Nat} (hlen : ¬rh.len.toNat * 8 < rh.padding + (16 - rh.comprE))
    (hvec : rh.vec.length = rh.len.toNat * 8) (hi : i < rh.numAddr.toNat) :
    i * (16 - rh.comprI) + (16 - rh.elided rh.numAddr.toNat i) ≤ rh.vec.length := by
  have hcount : rh.numAddr.toNat ≤
      (rh.len.toNat * 8 - rh.padding - (16 - rh.comprE)) / (16 - rh.comprI) + 1 := by
    unfold Srh.numAddr
    exact Nat.mod_le _ _
  have hbytes := Nat.div_mul_le_self (rh.len.toNat * 8 - rh.padding - (16 - rh.comprE)) (16 - rh.comprI)
  have hlast : (rh.numAddr.toNat - 1) * (16 - rh.comprI) ≤ rh.len.toNat * 8 - rh.padding - (16 - rh.comprE) :=
    Nat.le_trans (Nat.mul_le_mul_right _ (by omega)) hbytes
  unfold Srh.elided
  split
  next heq =>
    rw [heq]
    omega
  next hne =>
    have hmul : (i + 1) * (16 - rh.comprI) ≤ (rh.numAddr.toNat - 1) * (16 - rh.comprI) :=
      Nat.mul_le_mul_right _ (by omega)
    rw [Nat.succ_mul] at hmul
    omega

theorem containsMultipleLoop_isSome {numAddr r : Nat} (hfit : ∀ i < numAddr,
      i * (16 - rh.comprI) + (16 - rh.elided numAddr i) ≤ rh.vec.length) :
    ∀ {i : Nat} {addr : Addr} {found : Bool} {foundPos : Nat}, i + r = numAddr →
      (containsMultipleLoop owns rh numAddr r i addr found foundPos).isSome := by
  induction r with
  | zero => intros; rfl
  | succ r ih =>
    intro i addr found foundPos hir
    rw [containsMultipleLoop, readVec_eq (hfit i (by omega))]
    dsimp only
    split
    · split
      · rfl
      · exact ih (by omega)
    · exact ih (by omega)

theorem containsMultipleOfMyAddr_isSome {dst : Addr}
    (hlen : ¬rh.len.toNat * 8 < rh.padding + (16 - rh.comprE))
    (hvec : rh.vec.length = rh.len.toNat * 8) :
    (containsMultipleOfMyAddr owns stack dst rh rh.numAddr.toNat).isSome :=
  containsMultipleLoop_isSome (fun _ hi => entry_fits hlen hvec hi) (Nat.zero_add _)

/-- The current entry is the last one counted just when no segment is left behind it. -/
theorem elided_current {numAddr : Nat} (hseg : rh.segLeft ≠ 0#8) (hle : rh.segLeft.toNat ≤ numAddr) :
    (if rh.segLeft - 1#8 ≠ 0#8 then rh.comprI else rh.comprE) =
      rh.elided numAddr (numAddr - rh.segLeft.toNat) := by
  have hpos : rh.segLeft.toNat ≠ 0 := fun h0 => hseg (BitVec.eq_of_toNat_eq h0)
  have hzero : rh.segLeft - 1#8 = 0#8 ↔ rh.segLeft.toNat = 1 := by
    rw [← BitVec.toNat_inj, toNat_pred hseg]
    show rh.segLeft.toNat - 1 = 0 ↔ _
    omega
  unfold Srh.elided
  by_cases h1 : rh.segLeft.toNat = 1
  · rw [if_neg (fun hne => hne (hzero.mpr h1)), if_pos (by omega)]
  · rw [if_pos (fun h0 => h1 (hzero.mp h0)), if_neg (by omega)]

/-- The address at an entry: the elided octets are those of the destination. -/
def Srh.entry (rh : Srh) (stack dst : Addr) (numAddr i : Nat) : Addr :=
  let e := rh.elided numAddr i
  overlay (overlay stack 0 (dst.toList.take e)) e
    ((rh.vec.drop (i * (16 - rh.comprI))).take (16 - e))

/-- The vector with the destination at an entry. -/
def Srh.swapped (rh : Srh) (dst : Addr) (numAddr i : Nat) : List Byte :=
  let e := rh.elided numAddr i
  rh.vec.take (i * (16 - rh.comprI)) ++ dst.toList.drop e ++
    rh.vec.drop (i * (16 - rh.comprI) + (16 - e))

/-- **One hop past the checks of the counts**, in terms of the entry it works on. -/
theorem gnrcRplSrhProcess_eq {ipv6 : Ipv6Hdr} {errPtr : Option ErrPtr} {n i : Nat}
    (hvec : rh.vec.length = rh.len.toNat * 8) (hseg : rh.segLeft ≠ 0#8)
    (hlen : ¬rh.len.toNat * 8 < rh.padding + (16 - rh.comprE))
    (hn : n = rh.numAddr.toNat) (hi : i + rh.segLeft.toNat = n) :
    gnrcRplSrhProcess owns stack ipv6 rh errPtr = if isMulticast ipv6.dst then some ⟨.error, errPtr, ipv6, rh⟩
      else if isMulticast (rh.entry stack ipv6.dst n i) then some ⟨.error, errPtr, ipv6, rh⟩
      else
        match containsMultipleOfMyAddr owns stack ipv6.dst rh n with
        | none => none
        | some (some at_) => some ⟨.error, some (.addrVec at_), ipv6, rh⟩
        | some none =>
          some ⟨.forwarded, none, { ipv6 with dst := rh.entry stack ipv6.dst n i },
            { rh with segLeft := rh.segLeft - 1#8, vec := rh.swapped ipv6.dst n i }⟩ := by
  have hpos : rh.segLeft.toNat ≠ 0 := fun h0 => hseg (BitVec.eq_of_toNat_eq h0)
  have hle : ¬rh.numAddr < rh.segLeft := by
    rw [BitVec.lt_def]
    omega
  have hfit := entry_fits hlen hvec (i := i) (by omega)
  have hcur : (rh.numAddr - (rh.segLeft - 1#8)).toNat - 1 = i := by
    rw [currentPos_toNat hseg hle]
    omega
  have hidx : n - rh.segLeft.toNat = i := by omega
  have hel := @elided_current rh n hseg (by omega)
  rw [hidx] at hel
  rw [← hn] at hfit
  have hdrop : (ipv6.dst.toList.drop (rh.elided n i)).length = 16 - rh.elided n i := by
    rw [length_drop, Vector.length_toList]
  unfold gnrcRplSrhProcess
  dsimp only
  rw [if_neg hlen, if_neg hseg, if_neg hle, hcur, hel, readVec_eq hfit, ← hn, writeVec, hdrop, if_pos hfit]
  rfl

/-- An accepted step swaps bytes of the vector, a rejected one changes nothing. -/
theorem gnrcRplSrhProcess_cases {ipv6 : Ipv6Hdr} {errPtr : Option ErrPtr}
    (hvec : rh.vec.length = rh.len.toNat * 8) (hseg : rh.segLeft ≠ 0#8) :
    ∃ out, gnrcRplSrhProcess owns stack ipv6 rh errPtr = some out ∧
      (out.res = .error ∧ out.ipv6 = ipv6 ∧ out.rh = rh ∨
        out.res = .forwarded ∧ out.rh.vec.length = rh.vec.length) := by
  by_cases hlen : rh.len.toNat * 8 < rh.padding + (16 - rh.comprE)
  · exact ⟨_, if_pos hlen, .inl ⟨rfl, rfl, rfl⟩⟩
  by_cases hle : rh.numAddr < rh.segLeft
  · refine ⟨⟨.error, some .segLeft, ipv6, rh⟩, ?_, .inl ⟨rfl, rfl, rfl⟩⟩
    unfold gnrcRplSrhProcess
    rw [if_neg hlen, if_neg hseg, if_pos hle]
  have hpos : rh.segLeft.toNat ≠ 0 := fun h0 => hseg (BitVec.eq_of_toNat_eq h0)
  have hle' : rh.segLeft.toNat ≤ rh.numAddr.toNat := Nat.not_lt.mp (by rwa [BitVec.lt_def] at hle)
  rw [gnrcRplSrhProcess_eq hvec hseg hlen rfl (Nat.sub_add_cancel hle')]
  split
  next => exact ⟨_, rfl, .inl ⟨rfl, rfl, rfl⟩⟩
  next =>
    split
    next => exact ⟨_, rfl, .inl ⟨rfl, rfl, rfl⟩⟩
    next =>
      obtain ⟨found, hfound⟩ := Option.isSome_iff_exists.mp
        (@containsMultipleOfMyAddr_isSome owns stack rh ipv6.dst hlen hvec)
      rw [hfound]
      cases found with
      | some at_ => exact ⟨_, rfl, .inl ⟨rfl, rfl, rfl⟩⟩
      | none =>
        refine ⟨_, rfl, .inr ⟨rfl, ?_⟩⟩
        have hfit := entry_fits hlen hvec (i := rh.numAddr.toNat - rh.segLeft.toNat) (by omega)
        simp only [Srh.swapped, length_append, length_take, length_drop, Vector.length_toList]
        omega

/-- **Any header is processed within its address vector, and an error changes nothing.** -/
theorem gnrcIpv6ExtRhProcess_within (ipv6 : Ipv6Hdr) (hvec : rh.vec.length = rh.len.toNat * 8) :
    ∃ out, gnrcIpv6ExtRhProcess owns stack ipv6 rh = some out ∧
      out.rh.vec.length = rh.vec.length ∧ (out.res = .error → out.ipv6 = ipv6 ∧ out.rh = rh) := by
  unfold gnrcIpv6ExtRhProcess
  split
  next => exact ⟨_, rfl, rfl, nofun⟩
  next hseg =>
    split
    next =>
      obtain ⟨out, hrun, ⟨hres, hsame, hrh⟩ | ⟨hres, hlen⟩⟩ :=
        @gnrcRplSrhProcess_cases owns stack rh ipv6 none hvec hseg
      · rw [hrun, Option.map_some, if_neg (by rw [hres]; exact RhResult.noConfusion)]
        exact ⟨out, rfl, congrArg (·.vec.length) hrh, fun _ => ⟨hsame, hrh⟩⟩
      · rw [hrun, Option.map_some, if_pos hres]
        exact ⟨_, rfl, hlen, fun h => absurd (hres.symm.trans h) RhResult.noConfusion⟩
    next => exact ⟨_, rfl, rfl, fun _ => ⟨rfl, rfl⟩⟩

end

/-! ## The address vector as a list of addresses -/

/-- The entries of a header: all but the last elide `ci` octets, the last one `ce`. -/
def encode (ci ce : Nat) : List Addr → List Byte
  | [] => []
  | [a] => a.toList.drop ce
  | a :: b :: rest => a.toList.drop ci ++ encode ci ce (b :: rest)

section

variable {ci ce : Nat} {l : List Addr}

theorem encode_cons (a : Addr) (h : l ≠ []) : encode ci ce (a :: l) = a.toList.drop ci ++ encode ci ce l := by
  cases l with
  | nil => exact absurd rfl h
  | cons b rest => rfl

theorem length_encode (h : l ≠ []) : (encode ci ce l).length = (l.length - 1) * (16 - ci) + (16 - ce) := by
  induction l with
  | nil => exact absurd rfl h
  | cons a rest ih =>
    cases rest with
    | nil => simp [encode]
    | cons b rest =>
      rw [encode_cons a (by simp), length_append, ih (by simp), length_drop,
        Vector.length_toList]
      simp only [length_cons, Nat.add_sub_cancel, Nat.succ_mul]
      omega

/-- The entries around one of them: its place depends on how many precede it only. -/
theorem encode_split {i : Nat} (hi : i < l.length) :
    ∃ front back, front.length = i * (16 - ci) ∧ ∀ x, encode ci ce (l.set i x) =
      front ++ (x.toList.drop (if i = l.length - 1 then ce else ci) ++ back) := by
  induction l generalizing i with
  | nil => exact absurd hi (by simp)
  | cons a rest ih =>
    cases i with
    | zero =>
      cases rest with
      | nil => exact ⟨[], [], by simp, fun x => by simp [encode]⟩
      | cons b rest => exact ⟨[], encode ci ce (b :: rest), by simp, fun x => by simp [encode]⟩
    | succ i =>
      have hi' : i < rest.length := by simpa using hi
      obtain ⟨front, back, hfront, hset⟩ := ih hi'
      refine ⟨a.toList.drop ci ++ front, back, ?_, fun x => ?_⟩
      · rw [length_append, hfront, length_drop, Vector.length_toList, Nat.succ_mul, Nat.add_comm]
      · have hne : rest.set i x ≠ [] := fun h0 => by
          rw [set_eq_nil_iff] at h0
          rw [h0] at hi'
          exact absurd hi' (by simp)
        have hlast : (i + 1 = (a :: rest).length - 1) = (i = rest.length - 1) := by
          rw [length_cons]
          exact propext (by omega)
        rw [set_cons_succ, encode_cons a hne, hset, append_assoc]
        simp only [hlast]

theorem overlay_eq {p a : Addr} {e : Nat} (h : p.toList.take e = a.toList.take e) :
    overlay p e (a.toList.drop e) = a := by
  refine Vector.ext fun k hk => ?_
  unfold overlay
  rw [Vector.getElem_ofFn]
  split
  next hle =>
    rw [getElem?_drop, Nat.add_sub_cancel' hle, getElem?_eq_getElem (by simpa using hk)]
    simp
  next hlt =>
    have hat := congrArg (·[k]?) h
    simp only [getElem?_take, if_pos (Nat.not_le.mp hlt)] at hat
    simpa [hk] using hat

theorem take_overlay {p dst : Addr} {e : Nat} :
    (overlay p 0 (dst.toList.take e)).toList.take e = dst.toList.take e := by
  refine ext_getElem? fun k => ?_
  rw [getElem?_take, getElem?_take]
  split
  next hlt =>
    by_cases hk : k < 16
    · have hk' : k < (overlay p 0 (dst.toList.take e)).toList.length := by simpa using hk
      rw [getElem?_eq_getElem hk', Vector.getElem_toList]
      unfold overlay
      simp [hlt, hk]
    · rw [getElem?_eq_none (by simpa using hk), getElem?_eq_none (by simpa using hk)]
  next => rfl

end

/-- The fields of a header describe the list `l`, which with the padding fills it. -/
structure Lists (rh : Srh) (l : List Addr) (padding : List Byte) : Prop where
  vec : rh.vec = encode rh.comprI rh.comprE l ++ padding
  padding_length : padding.length = rh.padding
  vec_length : rh.vec.length = rh.len.toNat * 8

/-- The octets elided from any entry are the same in two addresses. -/
def Srh.Shared (rh : Srh) (a b : Addr) : Prop :=
  a.toList.take (max rh.comprI rh.comprE) = b.toList.take (max rh.comprI rh.comprE)

section

variable {owns : Addr → Bool} {stack dst a b : Addr} {rh : Srh} {l : List Addr}
  {padding : List Byte} {i : Nat}

theorem Srh.elided_le (rh : Srh) (n i : Nat) : rh.elided n i ≤ max rh.comprI rh.comprE := by
  unfold Srh.elided
  split <;> omega

theorem Srh.Shared.take {e : Nat} (h : rh.Shared a b) (he : e ≤ max rh.comprI rh.comprE) :
    a.toList.take e = b.toList.take e := by
  have := congrArg (List.take e) h
  rwa [List.take_take, List.take_take, Nat.min_eq_left he] at this

theorem Srh.Shared.symm (h : rh.Shared a b) : rh.Shared b a := Eq.symm h

theorem Srh.Shared.trans {c : Addr} (h : rh.Shared a b) (h' : rh.Shared b c) : rh.Shared a c := Eq.trans h h'

theorem Srh.Shared.eq_of_drop {e : Nat} (h : rh.Shared a b) (he : e ≤ max rh.comprI rh.comprE)
    (hd : a.toList.drop e = b.toList.drop e) : a = b := by
  rw [← Vector.toList_inj, ← take_append_drop e a.toList, h.take he, hd, take_append_drop]

theorem Lists.bytes (h : Lists rh l padding) (hne : l ≠ []) :
    (l.length - 1) * (16 - rh.comprI) + (16 - rh.comprE) + rh.padding = rh.len.toNat * 8 := by
  have hlen := h.vec_length
  rw [h.vec, length_append, length_encode hne, h.padding_length] at hlen
  exact hlen

theorem Lists.len_ok (h : Lists rh l padding) (hne : l ≠ []) :
    ¬rh.len.toNat * 8 < rh.padding + (16 - rh.comprE) := by
  have := h.bytes hne
  omega

theorem Lists.numAddr (h : Lists rh l padding) (hne : l ≠ []) : rh.numAddr.toNat = l.length % 256 := by
  have hbytes := h.bytes hne
  have hpos : 0 < l.length := length_pos_iff.mpr hne
  have hci := rh.comprI_lt
  have hdiv : rh.len.toNat * 8 - rh.padding - (16 - rh.comprE) = (l.length - 1) * (16 - rh.comprI) := by omega
  unfold Srh.numAddr
  rw [hdiv, Nat.mul_div_cancel _ (by omega), BitVec.toNat_ofNat, Nat.sub_add_cancel hpos]

theorem Lists.entry_bytes (h : Lists rh l padding) (hi : i < l.length) :
    (rh.vec.drop (i * (16 - rh.comprI))).take (16 - rh.elided l.length i) =
      l[i].toList.drop (rh.elided l.length i) := by
  obtain ⟨front, back, hfront, hset⟩ := @encode_split rh.comprI rh.comprE l i hi
  have hvec := h.vec
  rw [← set_getElem_self hi, hset] at hvec
  rw [hvec, ← hfront, append_assoc, drop_left, append_assoc, take_append_of_le_length]
  · refine take_of_length_le ?_
    rw [length_drop, Vector.length_toList]
    exact Nat.le.refl
  · rw [length_drop, Vector.length_toList]
    exact Nat.le.refl

theorem Lists.entry (h : Lists rh l padding) (hi : i < l.length) (hs : rh.Shared l[i] dst) :
    rh.entry stack dst l.length i = l[i] := by
  unfold Srh.entry
  dsimp only
  rw [h.entry_bytes hi]
  refine overlay_eq ?_
  rw [take_overlay, hs.take (rh.elided_le _ _)]

theorem Lists.swapped (h : Lists rh l padding) (hi : i < l.length) :
    rh.swapped dst l.length i = encode rh.comprI rh.comprE (l.set i dst) ++ padding := by
  obtain ⟨front, back, hfront, hset⟩ := @encode_split rh.comprI rh.comprE l i hi
  have hvec := h.vec
  rw [← set_getElem_self hi, hset, append_assoc, append_assoc] at hvec
  have hlen : (l[i].toList.drop (rh.elided l.length i)).length = 16 - rh.elided l.length i := by
    rw [length_drop, Vector.length_toList]
  unfold Srh.swapped
  dsimp only
  rw [hset, hvec, ← hfront, take_left, ← hlen, ← drop_drop, drop_left]
  change front ++ _ ++ drop _ (l[i].toList.drop (rh.elided l.length i) ++ _) = _
  rw [drop_left, append_assoc, append_assoc, append_assoc]
  rfl

end

/-! ## The search for own addresses -/

/-- What `addr` holds before pass `i` of the search. -/
def Srh.before (rh : Srh) (stack dst : Addr) (numAddr : Nat) : Nat → Addr
  | 0 => overlay stack 0 (dst.toList.take rh.comprI)
  | i + 1 =>
    overlay (rh.before stack dst numAddr i) (rh.elided numAddr i)
      ((rh.vec.drop (i * (16 - rh.comprI))).take (16 - rh.elided numAddr i))

section

variable {owns : Addr → Bool} {stack dst : Addr} {rh : Srh} {l : List Addr} {padding : List Byte}
  {m : Nat}

/-- If the addresses compared are own at one position at most, none is reported. -/
theorem containsMultipleLoop_none {k r : Nat}
    (hfit : ∀ i < m, i * (16 - rh.comprI) + (16 - rh.elided m i) ≤ rh.vec.length)
    (hone : ∀ i < m, owns (rh.before stack dst m (i + 1)) = true → i = k) :
    ∀ {i : Nat} {found : Bool} {foundPos : Nat}, i + r = m → (found = true → k < i) →
      containsMultipleLoop owns rh m r i (rh.before stack dst m i) found foundPos = some none := by
  induction r with
  | zero => intros; rfl
  | succ r ih =>
    intro i found foundPos hir hfound
    rw [containsMultipleLoop, readVec_eq (hfit i (by omega))]
    change (if owns (rh.before stack dst m (i + 1)) = true then
      if found = true ∧ 1 < i - foundPos then _
      else containsMultipleLoop owns rh m r (i + 1) (rh.before stack dst m (i + 1)) true _
      else containsMultipleLoop owns rh m r (i + 1) (rh.before stack dst m (i + 1)) found foundPos) = _
    split
    next hown =>
      have hik := hone i (by omega) hown
      rw [if_neg]
      · exact ih (by omega) (fun _ => by omega)
      · intro hf
        have := hfound hf.1
        omega
    next => exact ih (by omega) (fun hf => by have := hfound hf; omega)

theorem Lists.before_eq (h : Lists rh l padding) (hs : ∀ a ∈ l, rh.Shared a dst)
    (hm : m ≤ l.length) {i : Nat} (hi : i + 1 < m) :
    rh.before stack dst m (i + 1) = l[i] := by
  have hel : rh.elided m i = rh.comprI := if_neg (by omega)
  have hel' : rh.elided l.length i = rh.comprI := if_neg (by omega)
  have hbytes := h.entry_bytes (i := i) (by omega)
  rw [hel'] at hbytes
  rw [Srh.before, hel, hbytes]
  refine overlay_eq ?_
  have hshared : ∀ j (hj : j < l.length),
      l[j].toList.take rh.comprI = dst.toList.take rh.comprI := fun j hj =>
    (hs _ (getElem_mem hj)).take (Nat.le_max_left _ _)
  rw [hshared i (by omega)]
  induction i with
  | zero => exact take_overlay
  | succ i ih =>
    have hel : rh.elided m i = rh.comprI := if_neg (by omega)
    have hel' : rh.elided l.length i = rh.comprI := if_neg (by omega)
    have hbytes := h.entry_bytes (i := i) (by omega)
    rw [hel'] at hbytes
    rw [Srh.before, hel, hbytes, overlay_eq]
    · exact hshared i (by omega)
    · rw [ih (by omega) hel hel' hbytes, hshared i (by omega)]

/-- Where there is more than one, the last address is compared as it is listed too. -/
theorem Lists.before_last (h : Lists rh l padding) (hs : ∀ a ∈ l, rh.Shared a dst) {i : Nat}
    (hi : i + 2 = l.length) :
    rh.before stack dst l.length (i + 2) = l[i + 1] := by
  rw [Srh.before, h.entry_bytes (i := i + 1) (by omega), overlay_eq]
  rw [h.before_eq hs Nat.le.refl (by omega)]
  refine Srh.Shared.take ?_ (rh.elided_le _ _)
  exact (hs _ (getElem_mem (by omega))).trans (hs _ (getElem_mem (by omega))).symm

theorem exists_index_of_count_le {α : Type} [BEq α] [LawfulBEq α] {l : List α} {a : α}
    (h : l.count a ≤ 1) : ∃ k, ∀ i (hi : i < l.length), l[i] = a → i = k := by
  induction l with
  | nil => exact ⟨0, fun i hi => absurd hi (by simp)⟩
  | cons b l ih =>
    by_cases hb : b = a
    · subst hb
      rw [count_cons_self] at h
      have hnot : b ∉ l := count_eq_zero.mp (by omega)
      refine ⟨0, fun i hi heq => ?_⟩
      cases i with
      | zero => rfl
      | succ i => exact absurd (heq ▸ getElem_mem (by simpa using hi)) hnot
    · rw [count_cons_of_ne hb] at h
      obtain ⟨k, hk⟩ := ih h
      refine ⟨k + 1, fun i hi heq => ?_⟩
      cases i with
      | zero => exact absurd heq hb
      | succ i => rw [hk i (by simpa using hi) heq]

/-- A node that owns no listed address but the destination, which is listed once at
most, does not find several addresses of its own. -/
theorem Lists.search_none (h : Lists rh l padding) (hs : ∀ a ∈ l, rh.Shared a dst)
    (hn : rh.numAddr.toNat = l.length) (hown : ∀ a ∈ l, owns a = true → a = dst)
    (hcount : l.count dst ≤ 1) :
    containsMultipleOfMyAddr owns stack dst rh l.length = some none := by
  have hfit : ∀ i < l.length, i * (16 - rh.comprI) + (16 - rh.elided l.length i) ≤ rh.vec.length := by
    intro i hi
    rw [← hn]
    exact entry_fits (h.len_ok (ne_nil_of_length_pos (by omega))) h.vec_length (by omega)
  by_cases hlen : l.length ≤ 1
  · exact @containsMultipleLoop_none owns stack dst rh l.length 0 _ hfit (fun i hi _ => by omega) 0
      false 0 (Nat.zero_add _) nofun
  obtain ⟨k, hk⟩ := exists_index_of_count_le hcount
  refine @containsMultipleLoop_none owns stack dst rh l.length k _ hfit (fun i hi hi' => ?_) 0
    false 0 (Nat.zero_add _) nofun
  have hparsed : rh.before stack dst l.length (i + 1) = l[i] := by
    by_cases hlast : i + 1 < l.length
    · exact h.before_eq hs Nat.le.refl hlast
    · obtain ⟨j, rfl⟩ : ∃ j, i = j + 1 := ⟨i - 1, by omega⟩
      exact h.before_last hs (by omega)
  rw [hparsed] at hi'
  exact hk i hi (hown _ (getElem_mem hi) hi')

/-- **One hop** takes the next listed address and leaves the destination in its place. -/
theorem Lists.step (h : Lists rh l padding) (hn : l.length ≤ 255)
    (hs : ∀ a ∈ l, rh.Shared a dst) (hdst : ¬isMulticast dst) (hl : ∀ a ∈ l, ¬isMulticast a)
    (hown : ∀ a ∈ l, owns a = true → a = dst) (hcount : l.count dst ≤ 1)
    (hseg : rh.segLeft ≠ 0#8) {i : Nat} (hi : i + rh.segLeft.toNat = l.length)
    (hlt : i < l.length) {hops : BitVec 8} {errPtr : Option ErrPtr} :
    gnrcRplSrhProcess owns stack ⟨hops, dst⟩ rh errPtr = some ⟨.forwarded, none, ⟨hops, l[i]⟩,
        { rh with
          segLeft := rh.segLeft - 1#8
          vec := encode rh.comprI rh.comprE (l.set i dst) ++ padding }⟩ := by
  have hne : l ≠ [] := ne_nil_of_length_pos (by omega)
  have hnum : rh.numAddr.toNat = l.length := by
    rw [h.numAddr hne]
    omega
  rw [gnrcRplSrhProcess_eq h.vec_length hseg (h.len_ok hne) hnum.symm hi, if_neg hdst]
  rw [h.entry hlt (hs _ (getElem_mem hlt)), if_neg (hl _ (getElem_mem hlt)),
    h.search_none hs hnum hown hcount, h.swapped hlt]

end

end Riot.Rpl
