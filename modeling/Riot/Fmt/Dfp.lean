import Riot.Fmt.Dec

/-!
# Fixed point numbers as text

`fmt_s32_dfp` writes `val * 10^scale`. Without a fractional part it appends zeros; otherwise it
writes the digits, with zeros in front if there are too few of them, and moves the last ones by one
place for the decimal point.
-/

namespace Riot.Fmt

open Riot.Lib Memory List Nat

/-- `-scale` of an `int`, which wraps. -/
def negInt (scale : Int) : Int := if scale = -2 ^ 31 then -2 ^ 31 else -scale

/-- The loop `for (unsigned i = pos; i >= dot_pos; i--) { out[i] = out[i - 1]; }`. It does not end if
`dot_pos` is zero. -/
def makeRoom (m : Memory Char) (out dotPos : Nat) : Nat → Option (Memory Char)
  | 0 => if dotPos = 0 then none else some m
  | i + 1 =>
    if i + 1 ≥ dotPos then makeRoom (m.store (out + (i + 1)) [m (out + i)]) out dotPos i
    else some m

/-- `memset` or `memcpy` to `&out[pos]`, if there is an `out`. -/
def putAt (m : Memory Char) (out : Option Nat) (pos : Nat) (s : List Char) : Memory Char :=
  match out with
  | none => m
  | some out => m.store (out + pos) s

/-- `fmt_s32_dfp`; a call that does not return gives `none`. -/
def fmtS32Dfp (m : Memory Char) (out : Option Nat) (val scale : Int) : Option (Memory Char × Nat) :=
  if scale = 0 then some (fmtS32Dec m out val)
  else if 0 < scale then
    let r := fmtS32Dec m out val
    some (putAt r.1 out r.2 (List.replicate scale.toNat '0'), (r.2 + scale.toNat) % 2 ^ 32)
  else
    let scale := negInt scale
    let uval := ((if val < 0 then -val else val) % 2 ^ 32).toNat
    let buf := fmtU32Dec (fun _ => '\x00') (some 0) uval
    let len := buf.2
    let m := if val < 0 then putAt m out 0 ['-'] else m
    let pos := if val < 0 then 1 else 0
    let zeroes := if (len : Int) ≤ scale then (scale - len + 1).toNat else 0
    let m := if (len : Int) ≤ scale then putAt m out pos (List.replicate zeroes '0') else m
    let pos := (pos + zeroes) % 2 ^ 32
    let m := putAt m out pos (slice buf.1 0 len)
    let pos := (pos + len) % 2 ^ 32
    match out with
    | none => some (m, (pos + 1) % 2 ^ 32)
    | some out =>
      let dotPos := ((pos - scale) % 2 ^ 32).toNat
      (makeRoom m out dotPos pos).map fun m =>
        (putAt m out dotPos ['.'], (pos + 1) % 2 ^ 32)

/-! ## The text -/

/-- The digits behind the sign: at least one more than the fractional part has. -/
def dfpDigits (n k : Nat) : List Char :=
  List.replicate (k + 1 - (Nat.toDigits 10 n).length) '0' ++ Nat.toDigits 10 n

def signOf (val : Int) : List Char := if val < 0 then ['-'] else []

/-- What is there before the decimal point is put in. -/
def dfpText (val : Int) (k : Nat) : List Char := signOf val ++ dfpDigits val.natAbs k

variable {m : Memory Char} {out : Option Nat} {a n k pos dot : Nat} {val scale : Int}

theorem lt_length_dfpDigits : k < (dfpDigits n k).length := by
  rw [dfpDigits, length_append, length_replicate]
  omega

theorem isDigit_dfpDigits : ∀ c ∈ dfpDigits n k, c.isDigit = true := by
  intro c hc
  rcases mem_append.mp hc with h | h
  · rw [eq_of_mem_replicate h]
    rfl
  · exact isDigit_toDigits c h

theorem ofDigitChars_dfpDigits : ofDigitChars 10 (dfpDigits n k) 0 = n := by
  rw [dfpDigits, ofDigitChars_append, ofDigitChars_replicate_zero, mul_zero, ofDigitChars_ten_toDigits]

theorem makeRoom_eq (hdot : 0 < dot) :
    makeRoom m a dot pos = some (m.move (a + dot) (a + (dot - 1)) (pos + 1 - dot)) := by
  induction pos generalizing m with
  | zero => rw [makeRoom, if_neg hdot.ne', show 0 + 1 - dot = 0 by omega, move_zero]
  | succ i ih =>
    rw [makeRoom]
    split
    · next hge =>
      obtain ⟨j, hj⟩ : ∃ j, i = dot - 1 + j := ⟨i + 1 - dot, by omega⟩
      rw [ih, show a + (i + 1) = a + dot + j by omega, show a + i = a + (dot - 1) + j by omega,
        show i + 1 - dot = j by omega, show i + 1 + 1 - dot = j + 1 by omega, move_succ (by omega)]
    · next hlt => rw [show i + 1 + 1 - dot = 0 by omega, move_zero]

theorem makeRoom_point {t : List Char} (hm : Holds m a t) (hdot : 0 < dot) (hle : dot ≤ t.length) :
    (makeRoom m a dot t.length).map (fun m => putAt m (some a) dot ['.']) =
      some (m.store a (t.take dot ++ '.' :: t.drop dot)) := by
  have hlen : (t.take dot).length = dot := length_take_of_le hle
  rw [← take_append_drop dot t, holds_append, hlen] at hm
  have hright : Holds m (a + (dot - 1) + 1) (t.drop dot) := by
    rw [show a + (dot - 1) + 1 = a + dot by omega]
    exact hm.2
  have hend : a + dot + 1 = a + (t.take dot).length + ['.'].length := by
    rw [hlen]
    rfl
  have hholds := hm.1.splice hright (n := t.length + 1 - dot) (by rw [length_drop]; omega)
    (by omega) hend
  rw [makeRoom_eq hdot, Option.map_some]
  congr 1
  rw [hlen] at hholds
  refine hholds.eq_store fun i hi => ?_
  rw [length_append, length_append, length_singleton, length_drop, hlen] at hi
  rw [store_outside (by rw [length_singleton]; omega), move_outside (by omega)]

theorem putAt_append {t u : List Char} (m : Memory Char) (out : Option Nat) :
    putAt (putAt m out 0 t) out t.length u = putAt m out 0 (t ++ u) := by
  cases out with
  | none => rfl
  | some a => exact store_append

theorem putAt_nil (m : Memory Char) (out : Option Nat) : putAt m out pos [] = m := by
  cases out with
  | none => rfl
  | some a => exact store_nil

theorem uval_eq (hlow : -2 ^ 31 ≤ val) (hhigh : val < 2 ^ 31) :
    ((if val < 0 then -val else val) % 2 ^ 32).toNat = val.natAbs := by
  split <;> omega

/-- The number of zeros in front of the digits. -/
def zeroesOf (val scale : Int) : Nat :=
  if ((Nat.toDigits 10 val.natAbs).length : Int) ≤ scale then
    (scale - (Nat.toDigits 10 val.natAbs).length + 1).toNat
  else 0

variable (m out) in
/-- What is done for a negative scale, in terms of the text without the point. -/
theorem fmtS32Dfp_of_neg (hlow : -2 ^ 31 ≤ val) (hhigh : val < 2 ^ 31) (hscale : scale < 0)
    {t : List Char} (ht : t = signOf val ++ replicate (zeroesOf val (negInt scale)) '0' ++
      toDigits 10 val.natAbs) (hlen : t.length + 1 < 2 ^ 32) :
    fmtS32Dfp m out val scale =
      match out with
      | none => some (m, t.length + 1)
      | some a => (makeRoom (m.store a t) a ((t.length - negInt scale) % 2 ^ 32).toNat t.length).map
          fun m => (putAt m (some a) ((t.length - negInt scale) % 2 ^ 32).toNat ['.'], t.length + 1) := by
  have huval : val.natAbs < 2 ^ 32 := by omega
  obtain ⟨hdig, hbuf⟩ := fmtU32Dec_writes (fun _ => '\x00') (some 0) huval
  have hslice : slice (fmtU32Dec (fun _ => '\x00') (some 0) val.natAbs).1 0
      (toDigits 10 val.natAbs).length = toDigits 10 val.natAbs := by
    rw [hbuf]
    exact holds_store.slice_eq
  have hsign : (if val < 0 then putAt m out 0 ['-'] else m) =
      putAt m out 0 (signOf val) := by
    rw [signOf]
    split
    · rfl
    · exact (putAt_nil m out).symm
  have hpos : (if val < 0 then 1 else 0) = (signOf val).length := by
    rw [signOf]
    split <;> rfl
  rw [fmtS32Dfp, if_neg (by omega), if_neg (by omega)]
  have hz : (if ((toDigits 10 val.natAbs).length : Int) ≤ negInt scale then
      (negInt scale - (toDigits 10 val.natAbs).length + 1).toNat else 0) =
      zeroesOf val (negInt scale) := rfl
  have hfill : (if ((toDigits 10 val.natAbs).length : Int) ≤ negInt scale then
        putAt m out 0 (signOf val ++ replicate (zeroesOf val (negInt scale)) '0')
      else putAt m out 0 (signOf val)) =
      putAt m out 0 (signOf val ++ replicate (zeroesOf val (negInt scale)) '0') := by
    split
    · rfl
    · next h => rw [zeroesOf, if_neg h, replicate_zero, append_nil]
  have htlen : t.length = (signOf val).length + zeroesOf val (negInt scale) +
      (toDigits 10 val.natAbs).length := by
    rw [ht, length_append, length_append, length_replicate]
  have hpos1 : ((signOf val).length + zeroesOf val (negInt scale)) % 2 ^ 32 =
      (signOf val ++ replicate (zeroesOf val (negInt scale)) '0').length := by
    rw [length_append, length_replicate, mod_eq_of_lt (by omega)]
  have hpos2 : ((signOf val ++ replicate (zeroesOf val (negInt scale)) '0').length +
      (toDigits 10 val.natAbs).length) % 2 ^ 32 = t.length := by
    rw [← length_append, ← ht, mod_eq_of_lt (by omega)]
  simp only [uval_eq hlow hhigh, hdig, hslice, hsign, hpos, hz, hfill, hpos1, putAt_append, ← ht,
    hpos2, mod_eq_of_lt hlen]
  cases out with
  | none => rfl
  | some a => rfl

/-- The digits in front of the point and those behind it. -/
def dfpParts (val : Int) (k : Nat) : List Char × List Char :=
  (dfpDigits val.natAbs k).splitAt ((dfpDigits val.natAbs k).length - k)

/-- What is written for the scale `-k`. -/
def dfpPointed (val : Int) (k : Nat) : List Char :=
  signOf val ++ ((dfpParts val k).1 ++ '.' :: (dfpParts val k).2)

theorem dfpParts_append : (dfpParts val k).1 ++ (dfpParts val k).2 = dfpDigits val.natAbs k := by
  rw [dfpParts, splitAt_eq, take_append_drop]

variable (val k) in
theorem length_dfpParts : (dfpParts val k).1.length = (dfpDigits val.natAbs k).length - k ∧
    (dfpParts val k).2.length = k := by
  have hlt := lt_length_dfpDigits (n := val.natAbs) (k := k)
  rw [dfpParts, splitAt_eq]
  refine ⟨length_take_of_le (by omega), ?_⟩
  rw [length_drop]
  omega

variable (val k) in
theorem isDigit_dfpParts : (∀ c ∈ (dfpParts val k).1, c.isDigit = true) ∧
    ∀ c ∈ (dfpParts val k).2, c.isDigit = true := by
  have hall := isDigit_dfpDigits (n := val.natAbs) (k := k)
  rw [← dfpParts_append] at hall
  exact ⟨fun c hc => hall c (mem_append_left _ hc), fun c hc => hall c (mem_append_right _ hc)⟩

theorem decimalValue_signOf {u : List Char} {c : Char} {x : ℚ} (hc : c.isDigit = true)
    (hu : unsignedValue (c :: u) = some x) :
    decimalValue (signOf val ++ c :: u) = some (if val < 0 then -x else x) := by
  rw [signOf]
  split
  · show (unsignedValue (c :: u)).map (- ·) = _
    rw [hu]
    rfl
  · rw [nil_append, decimalValue_of_digit hc, hu]

theorem natAbs_signed (val : Int) : (if val < 0 then -(val.natAbs : ℚ) else (val.natAbs : ℚ)) = val := by
  have hcast : ((val.natAbs : Int) : ℚ) = (val.natAbs : ℚ) := Int.cast_natCast _
  split
  · rw [← hcast, ← Int.cast_neg]
    congr 1
    omega
  · rw [← hcast]
    congr 1
    omega

theorem decimalValue_dfpPointed (hk : 0 < k) :
    decimalValue (dfpPointed val k) = some ((val : ℚ) / 10 ^ k) := by
  have hlen := length_dfpParts k val
  have hlt := lt_length_dfpDigits (n := val.natAbs) (k := k)
  have hip : (dfpParts val k).1 ≠ [] := ne_nil_of_length_pos (by omega)
  have hfp : (dfpParts val k).2 ≠ [] := ne_nil_of_length_pos (by omega)
  have hval := unsignedValue_point (isDigit_dfpParts k val).1 hip (isDigit_dfpParts k val).2 hfp
  rw [dfpParts_append, ofDigitChars_dfpDigits, hlen.2] at hval
  obtain ⟨c, u, hcu⟩ := exists_cons_of_ne_nil hip
  have hc : c.isDigit = true := (isDigit_dfpParts k val).1 c (by rw [hcu]; exact mem_cons_self)
  rw [dfpPointed, hcu]
  rw [hcu] at hval
  refine (decimalValue_signOf hc hval).trans ?_
  rw [← neg_div, ← ite_div, natAbs_signed]

theorem decimalValue_zeros (val : Int) (k : Nat) :
    decimalValue (signedDigits val ++ replicate k '0') = some ((val : ℚ) * 10 ^ k) := by
  have hsplit : signedDigits val = signOf val ++ toDigits 10 val.natAbs := by
    rw [signedDigits, signOf]
    split <;> rfl
  have hval := unsignedValue_digits (s := toDigits 10 val.natAbs ++ replicate k '0') (by
      intro d hd
      rcases mem_append.mp hd with h | h
      · exact isDigit_toDigits d h
      · rw [eq_of_mem_replicate h]
        rfl)
    (append_ne_nil_of_left_ne_nil toDigits_ne_nil _)
  rw [ofDigitChars_append, ofDigitChars_ten_toDigits, ofDigitChars_replicate_zero] at hval
  obtain ⟨c, u, hcu⟩ := exists_cons_of_ne_nil (toDigits_ne_nil (n := val.natAbs) (b := 10))
  have hc : c.isDigit = true := isDigit_toDigits (n := val.natAbs) c (by rw [hcu]; exact mem_cons_self)
  rw [hsplit, append_assoc, hcu]
  rw [hcu] at hval
  refine (decimalValue_signOf hc hval).trans ?_
  rw [← natAbs_signed val]
  push_cast
  split <;> ring_nf

/-! ## `fmt_s32_dfp` -/

/-- The text written to `a` is a decimal of the value `val * 10^scale`, with a digit on both sides
of the point for a negative scale, and as long as what is returned, also without a buffer. -/
def DfpRight (m : Memory Char) (a : Nat) (val scale : Int) : Prop :=
  ∃ s, fmtS32Dfp m (some a) val scale = some (m.store a s, s.length) ∧
    fmtS32Dfp m none val scale = some (m, s.length) ∧
    decimalValue s = some ((val : ℚ) * 10 ^ scale) ∧
    (scale < 0 → ∃ ip fp, s = signOf val ++ (ip ++ '.' :: fp) ∧ ip ≠ [] ∧ fp ≠ [] ∧
      (∀ c ∈ ip, c.isDigit = true) ∧ ∀ c ∈ fp, c.isDigit = true)

theorem length_signedDigits_le (hlow : -2 ^ 31 ≤ val) (hhigh : val < 2 ^ 31) :
    (signedDigits val).length ≤ 11 := by
  have hlen : (toDigits 10 val.natAbs).length ≤ 10 :=
    (length_toDigits_le_iff (by omega) (by omega)).mpr (by omega)
  rw [signedDigits]
  split
  · rw [length_cons]
    omega
  · omega

variable (m out) in
theorem fmtS32Dec_writes (hlow : -2 ^ 31 ≤ val) (hhigh : val < 2 ^ 31) :
    Writes m out (signedDigits val) (fmtS32Dec m out val) :=
  fmtSigned_writes (fun _ _ _ hu => fmtU32Dec_writes _ _ hu) (by omega) (by omega)

theorem dfpRight_of_nonneg (hlow : -2 ^ 31 ≤ val) (hhigh : val < 2 ^ 31) (hscale : 0 ≤ scale)
    (hmax : scale < 2 ^ 31) : DfpRight m a val scale := by
  have hwrites : ∀ out, fmtS32Dfp m out val scale =
      some (putAt m out 0 (signedDigits val ++ replicate scale.toNat '0'),
        (signedDigits val ++ replicate scale.toNat '0').length) := by
    intro out
    obtain ⟨hlen, hmem⟩ := fmtS32Dec_writes m out hlow hhigh
    have hput : (fmtS32Dec m out val).1 = putAt m out 0 (signedDigits val) := by
      rw [hmem]
      cases out <;> rfl
    rcases hscale.eq_or_lt with rfl | hpos
    · rw [fmtS32Dfp, if_pos rfl, Int.toNat_zero, replicate_zero, append_nil]
      exact congrArg some (Prod.ext hput hlen)
    · have hle := length_signedDigits_le hlow hhigh
      rw [fmtS32Dfp, if_neg hpos.ne', if_pos hpos]
      dsimp only
      rw [hput, hlen, putAt_append, length_append, length_replicate, mod_eq_of_lt (by omega)]
  refine ⟨_, hwrites (some a), hwrites none, ?_, by omega⟩
  obtain ⟨k, rfl⟩ := Int.eq_ofNat_of_zero_le hscale
  exact decimalValue_zeros val k

variable (val) in
theorem length_signOf_le : (signOf val).length ≤ 1 := by
  rw [signOf]
  split <;> simp

theorem dfpRight_of_neg (hlow : -2 ^ 31 ≤ val) (hhigh : val < 2 ^ 31) (hscale : scale < 0)
    (hmin : -2 ^ 31 < scale) : DfpRight m a val scale := by
  obtain ⟨k, rfl⟩ : ∃ k : Nat, scale = -k := ⟨scale.natAbs, by omega⟩
  have hneg : negInt (-k) = k := by
    rw [negInt, if_neg (by omega)]
    omega
  have hzeroes : zeroesOf val k = k + 1 - (toDigits 10 val.natAbs).length := by
    rw [zeroesOf]
    split <;> omega
  have htext : dfpText val k = signOf val ++ replicate (zeroesOf val (negInt (-k))) '0' ++
      toDigits 10 val.natAbs := by
    rw [hneg, hzeroes, dfpText, dfpDigits, append_assoc]
  have hparts := length_dfpParts k val
  have hsign := length_signOf_le val
  have hdig : (toDigits 10 val.natAbs).length ≤ 10 :=
    (length_toDigits_le_iff (by omega) (by omega)).mpr (by omega)
  have hlen : (dfpText val k).length = (signOf val).length + (dfpDigits val.natAbs k).length := length_append
  have hlt := lt_length_dfpDigits (n := val.natAbs) (k := k)
  have hmax : (dfpDigits val.natAbs k).length ≤ k + 11 := by
    rw [dfpDigits, length_append, length_replicate]
    omega
  have hwrites := fun out => fmtS32Dfp_of_neg m out hlow hhigh hscale htext (by omega)
  -- the point goes behind the sign and the digits of the integral part
  have hdot : (((dfpText val k).length - negInt (-k)) % 2 ^ 32).toNat =
      (signOf val ++ (dfpParts val k).1).length := by
    rw [hneg, length_append, hparts.1]
    omega
  have hcut : dfpText val k = (signOf val ++ (dfpParts val k).1) ++ (dfpParts val k).2 := by
    rw [dfpText, ← dfpParts_append, append_assoc]
  have hpointed : (dfpPointed val k).length = (dfpText val k).length + 1 := by
    rw [hcut, dfpPointed]
    simp only [length_append, length_cons]
    omega
  have hroom := makeRoom_point (show Holds (m.store a (dfpText val k)) a (dfpText val k) from holds_store)
    (show 0 < (signOf val ++ (dfpParts val k).1).length by rw [length_append, hparts.1]; omega)
    (by rw [hcut]; simp only [length_append]; omega)
  have htake : (dfpText val k).take (signOf val ++ (dfpParts val k).1).length =
      signOf val ++ (dfpParts val k).1 := by rw [hcut, take_left]
  have hdrop : (dfpText val k).drop (signOf val ++ (dfpParts val k).1).length =
      (dfpParts val k).2 := by rw [hcut, drop_left]
  rw [htake, hdrop, append_assoc, ← dfpPointed, store_store (by omega)] at hroom
  refine ⟨dfpPointed val k, ?_, ?_, ?_, fun _ => ⟨_, _, rfl, ?_, ?_, (isDigit_dfpParts k val).1,
    (isDigit_dfpParts k val).2⟩⟩
  · have hsome := hwrites (some a)
    rw [hdot] at hsome
    rw [hsome, hpointed]
    rw [Option.map_eq_some_iff] at hroom ⊢
    obtain ⟨m', hm', hput⟩ := hroom
    exact ⟨m', hm', by rw [hput]⟩
  · rw [hwrites none, hpointed]
  · rw [decimalValue_dfpPointed (by omega), zpow_neg, zpow_natCast, div_eq_mul_inv]
  · exact ne_nil_of_length_pos (by omega)
  · exact ne_nil_of_length_pos (by omega)

/-- The least scale is its own negation: no zeros are written, and the point goes elsewhere. -/
theorem not_dfpRight_min (hlow : -2 ^ 31 ≤ val) (hhigh : val < 2 ^ 31) : ¬DfpRight m a val (-2 ^ 31) := by
  rintro ⟨s, hsome, -, -, hpoint⟩
  obtain ⟨ip, fp, hs, -, hfp, -, -⟩ := hpoint (by omega)
  have hzeroes : zeroesOf val (negInt (-2 ^ 31)) = 0 := by
    rw [zeroesOf, negInt, if_pos rfl, if_neg (by omega)]
  obtain ⟨t, ht⟩ : ∃ t, t = signOf val ++ toDigits 10 val.natAbs := ⟨_, rfl⟩
  have hlen : t.length ≤ 11 := by
    have hsign := length_signOf_le val
    have hdig : (toDigits 10 val.natAbs).length ≤ 10 :=
      (length_toDigits_le_iff (by omega) (by omega)).mpr (by omega)
    rw [ht, length_append]
    omega
  have hnopoint : '.' ∉ t := by
    rw [ht]
    intro hmem
    rcases mem_append.mp hmem with h | h
    · rw [signOf] at h
      split at h
      · exact absurd (mem_singleton.mp h) (by decide)
      · exact absurd h (not_mem_nil)
    · exact absurd (isDigit_toDigits _ h) (by decide)
  have hdot : ((t.length - negInt (-2 ^ 31)) % 2 ^ 32).toNat = t.length + 2 ^ 31 := by
    rw [negInt, if_pos rfl]
    omega
  have hrun := fmtS32Dfp_of_neg m (some a) hlow hhigh (show (-2 ^ 31 : Int) < 0 by omega)
    (t := t) (by rw [hzeroes, replicate_zero, append_nil, ht]) (by omega)
  dsimp only at hrun
  rw [hdot, makeRoom_eq (by omega), show t.length + 1 - (t.length + 2 ^ 31) = 0 by omega, move_zero,
    Option.map_some] at hrun
  have heq := Option.some.inj (hrun.symm.trans hsome)
  have hmem : putAt (m.store a t) (some a) (t.length + 2 ^ 31) ['.'] = m.store a s := congrArg Prod.fst heq
  have hslen : t.length + 1 = s.length := congrArg Prod.snd heq
  -- all of what is returned but the last character is the text without a point
  have htext : Holds (m.store a s) a t := by
    rw [← hmem]
    exact holds_store.store (.inl (by omega))
  have hfront : t = s.take t.length := by
    have hs' := holds_store (m := m) (a := a) (s := s)
    rw [← take_append_drop t.length s, holds_append, take_append_drop] at hs'
    exact htext.eq_of_length hs'.1 (length_take_of_le (by omega)).symm
  have hat : t[(signOf val).length + ip.length]? = some '.' := by
    have hfplen := length_pos_of_ne_nil hfp
    have hsl : s.length = (signOf val).length + (ip.length + (fp.length + 1)) := by
      rw [hs, length_append, length_append, length_cons]
    rw [hfront, getElem?_take_of_lt (by omega), hs, getElem?_append_right (by omega),
      Nat.add_sub_cancel_left, getElem?_append_right (by omega), Nat.sub_self]
    rfl
  exact hnopoint (mem_of_getElem? hat)

/-- `fmt_s32_dfp` is right for every scale but the least one. -/
theorem fmtS32Dfp_right_iff (m : Memory Char) (a : Nat) (val scale : Int)
    (hval : -2 ^ 31 ≤ val ∧ val < 2 ^ 31) (hscale : -2 ^ 31 ≤ scale ∧ scale < 2 ^ 31) :
    DfpRight m a val scale ↔ scale ≠ -2 ^ 31 := by
  constructor
  · rintro hright rfl
    exact not_dfpRight_min hval.1 hval.2 hright
  · intro hne
    rcases Int.lt_or_le scale 0 with hneg | hpos
    · exact dfpRight_of_neg hval.1 hval.2 hneg (by omega)
    · exact dfpRight_of_nonneg hval.1 hval.2 hpos hscale.2

theorem fmtS32Dfp_right_least : DfpRight (fun _ => ' ') 0 (-2 ^ 31) (-2) :=
  (fmtS32Dfp_right_iff (fun _ => ' ') 0 (-2 ^ 31) (-2) (by omega) (by omega)).mpr (by omega)

theorem not_fmtS32Dfp_right :
    ¬∀ (m : Memory Char) (a : Nat) (val scale : Int), -2 ^ 31 ≤ val ∧ val < 2 ^ 31 →
      -2 ^ 31 ≤ scale ∧ scale < 2 ^ 31 → DfpRight m a val scale := by
  intro h
  exact not_dfpRight_min (by omega) (by omega)
    (h (fun _ => ' ') 0 1 (-2 ^ 31) (by omega) (by omega))

end Riot.Fmt
