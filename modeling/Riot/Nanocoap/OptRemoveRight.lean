import Riot.Nanocoap.OptRemoveGap

/-!
# When removing an option is right

The bytes and the entries are moved as they should, so what decides are the numbers: those that have
no entry of their own, or one that stands for another number. The bits are not moved at all.
-/

namespace Riot.Nanocoap

open Riot.Lib Memory List Nat

variable {cfg : Cfg} {mem mem' : Memory UInt8} {buf len len' h offset offset' prev num i j k n : Nat}
  {pkt pkt' : Pkt} {options : Memory OptPos} {pre run post os : List NumberedOption} {o : NumberedOption}
  {tail tail' bytes value : List UInt8} {processed : Nat → Bool} {es : List OptPos}

/-! ## Numbers -/

theorem findOptionFrom_before (h : findOptionFrom options num j n = some i) :
    ∀ k, j ≤ k → k < i → (options k).optNum ≠ num := by
  induction n generalizing j with
  | zero => cases h
  | succ n ih =>
    rw [findOptionFrom] at h
    split at h
    · cases h
      intro k hle hlt
      omega
    · rename_i hne
      intro k hle hlt
      rcases eq_or_lt_of_le hle with rfl | hle
      · exact hne
      · exact ih h k hle hlt

/-- Without the options of a number that has no entry there are as many entries. -/
theorem length_entriesFrom_filter (henc : OptionsEncodable prev os)
    (hno : ∀ e ∈ entriesFrom offset prev os, e.optNum ≠ num) :
    (entriesFrom offset' prev (os.filter fun o => o.1 ≠ num)).length = (entriesFrom offset prev os).length := by
  induction os generalizing offset offset' prev with
  | nil => rfl
  | cons o os ih =>
    obtain ⟨hle, -, -, hrest⟩ := henc
    simp only [entriesFrom] at hno ⊢
    by_cases ho : o.1 - prev = 0
    · rw [if_pos ho] at hno ⊢
      have heq : o.1 = prev := by omega
      rw [heq] at hno hrest ⊢
      by_cases hnum : o.1 = num
      · rw [filter_cons_of_neg (by simp [hnum]), ih hrest hno]
      · rw [filter_cons_of_pos (by simp [hnum])]
        simp only [entriesFrom]
        rw [if_pos ho, heq, ih hrest hno]
    · rw [if_neg ho] at hno ⊢
      obtain ⟨hne, hno⟩ := forall_mem_cons.mp hno
      have hnum : o.1 ≠ num := hne
      rw [filter_cons_of_pos (by simp [hnum])]
      simp only [entriesFrom]
      rw [if_neg ho, length_cons, length_cons, ih hrest hno]

theorem optNums_eq (hprev : ∀ o ∈ post, prev < o.1) (hn : ∀ o ∈ post, n < o.1) :
    (entriesFrom offset prev post).map OptPos.optNum = (entriesFrom offset' n post).map OptPos.optNum := by
  cases post with
  | nil => rfl
  | cons o post =>
    have h1 := hprev o mem_cons_self
    have h2 := hn o mem_cons_self
    simp only [entriesFrom]
    rw [if_neg (by omega), if_neg (by omega), map_cons, map_cons]
    congr 1
    have hshift : ∀ a, (entriesFrom a o.1 post).map OptPos.optNum = (entriesFrom 0 o.1 post).map OptPos.optNum := by
      intro a
      have hs := @entriesFrom_shift 0 o.1 a post
      rw [zero_add] at hs
      rw [hs, map_map]
      rfl
    rw [hshift, ← hshift (offset' + _)]

/-- Options without some of them can be encoded if the number behind those is not too far away. -/
theorem encodable_without (henc : OptionsEncodable prev (pre ++ (run ++ post)))
    (hdelta : ∀ o ∈ post.head?, o.1 - lastNumber prev pre ≤ fieldMax) : OptionsEncodable prev (pre ++ post) := by
  rw [encodable_append, encodable_append] at henc
  obtain ⟨hpre, hrun, hpost⟩ := henc
  refine encodable_append.mpr ⟨hpre, ?_⟩
  cases post with
  | nil => trivial
  | cons o post =>
    obtain ⟨hle, -, hval, hrest⟩ := hpost
    have hlast := (OptionsEncodable.lastNumber_ge hrun).1
    exact ⟨by omega, hdelta o rfl, hval, hrest⟩

/-! ## From the bytes to the context -/

theorem IsMessage.rebuilt (m : IsMessage cfg mem buf len h os tail) (hne : os ≠ [])
    (l : Laid mem' pkt' buf h (encodeOptions 0 post) tail' es) (hframe : ∀ a < buf + h, mem' a = mem a)
    (henc : OptionsEncodable 0 post) (ht : IsTail tail')
    (hcount : (entriesFrom h 0 post).length ≤ (entriesFrom h 0 os).length) :
    IsMessage cfg mem' buf (h + (encodeOptions 0 post ++ tail').length) h post tail' := by
  have hsize : udpHdrSize = 4 := rfl
  have hmin := m.header.2.1
  obtain ⟨hbounds, hhdr⟩ := @IsMessage.header_congr cfg mem mem' buf len
    (h + (encodeOptions 0 post ++ tail').length) h os tail m (fun a _ ha => hframe a ha) (le_add_right _ _)
  refine ⟨hbounds, hhdr, ?_, henc, ht, ?_, le_trans hcount m.count_le⟩
  · rw [Nat.add_sub_cancel_left]
    exact l.holds.slice_eq
  · intro hcode
    rw [hframe _ (by omega)] at hcode
    have hlen := m.code hcode
    have hlength := m.length_eq
    obtain ⟨o, os, rfl⟩ := exists_cons_of_ne_nil hne
    have hpos := @length_encodeOption_pos (o.1 - 0) o.2
    rw [encodeOptions_cons, length_append, length_append] at hlength
    omega

theorem critBits_iff {nums rest : List Nat}
    (hholds : Holds pkt.optCrit 0 ((nums ++ n :: rest).map (critBit processed)))
    (hlen : pkt.optionsLen = nums.length + (rest.length + 1)) :
    Holds pkt.optCrit 0 ((nums ++ rest).map (critBit processed)) ↔
      ∀ j, nums.length ≤ j → j + 1 < pkt.optionsLen → pkt.optCrit j = pkt.optCrit (j + 1) := by
  rw [map_append, holds_append, length_map, zero_add, map_cons, holds_cons] at hholds
  rw [map_append, holds_append, length_map, zero_add, and_iff_right hholds.1,
    holds_shift_iff hholds.2.2, length_map]
  constructor
  · intro hall j hle hlt
    exact hall j hle (by omega)
  · intro hall j hle hlt
    exact hall j hle (by omega)

/-! ## What is left -/

/-- The options around those of one number: what was before them has smaller numbers, what is behind
them larger ones. -/
structure Around (h i n : Nat) (pre run post : List NumberedOption) : Prop where
  run_ne : run ≠ []
  before : ∀ o ∈ pre, o.1 < n
  number : ∀ o ∈ run, o.1 = n
  behind : ∀ o ∈ post, n < o.1
  pos : 0 < n
  index : (entriesFrom h 0 pre).length = i

/-- The number behind the options that are left out is at most 16 bits above the one before them. -/
def Close (pre post : List NumberedOption) : Prop := ∀ o ∈ post.head?, o.1 - lastNumber 0 pre < 2 ^ 16

/-- What is left without some options: they are gone if the numbers around them are close, and only then. -/
structure Without (mem mem' : Memory UInt8) (pkt pkt' : Pkt) (buf h : Nat) (pre post os : List NumberedOption)
    (tail tail' bytes : List UInt8) (es : List OptPos) : Prop where
  laid : Laid mem' pkt' buf h bytes tail' es
  crit : pkt'.optCrit = pkt.optCrit
  frame : ∀ a < buf + h, mem' a = mem a
  payload : tail'.drop 1 = tail.drop 1
  isTail : IsTail tail'
  length_le : (bytes ++ tail').length ≤ (encodeOptions 0 os ++ tail).length
  count : es.length + 1 = (entriesFrom h 0 os).length
  close : Close pre post → bytes = encodeOptions 0 (pre ++ post) ∧ es = entriesFrom h 0 (pre ++ post)
  far : ∀ t, OptionsEncodable 0 (pre ++ post) → encodeOptions 0 (pre ++ post) ++ t = bytes ++ tail' → Close pre post

theorem found_around (m : IsMessage cfg mem buf len h os tail)
    (l : Laid mem pkt buf h (encodeOptions 0 os) tail (entriesFrom h 0 os)) (hnum : num < 2 ^ 16)
    (hfind : findOptionFrom pkt.options num 0 pkt.optionsLen = some i) :
    ∃ n pre run post, os = pre ++ (run ++ post) ∧ Around h i n pre run post ∧ n % 2 ^ 16 = num ∧
      (n ≠ num → ∀ e ∈ entriesFrom h 0 os, e.optNum ≠ num) := by
  obtain ⟨-, hi, hentry⟩ := findOptionFrom_spec hfind
  have hbefore := findOptionFrom_before hfind
  rw [zero_add, l.optionsLen] at hi
  obtain ⟨pre, run, post, hos, hne, hpre, hrun, hpost, hindex⟩ := split_at_entry m.encodable hi
  have hpos := lt_of_mem_entriesFrom m.encodable (getElem_mem hi)
  generalize hn : (entriesFrom h 0 os)[i].optNum = n at *
  have hstored : ∀ j (hj : j < (entriesFrom h 0 os).length),
      (pkt.options j).optNum = (entriesFrom h 0 os)[j].optNum % 2 ^ 16 := by
    intro j hj
    have hget := holds_iff.mp l.options j (by rw [length_map]; exact hj)
    rw [zero_add, getElem_map] at hget
    rw [hget]
    rfl
  have hmod : n % 2 ^ 16 = num := by
    rw [← hn, ← hstored i hi]
    exact hentry
  have haround : Around h i n pre run post := ⟨hne, hpre, hrun, hpost, hpos, hindex⟩
  refine ⟨n, pre, run, post, hos, haround, hmod, ?_⟩
  intro hnn e he
  have henc := m.encodable
  rw [hos] at henc
  have hes := @entriesFrom_split h n pre run post henc hne hpre hrun hpos
  rw [← hos] at hes
  rw [hes] at he
  rcases mem_append.mp he with he | he
  · -- an entry in front was looked at before
    obtain ⟨j, hj, rfl⟩ := getElem_of_mem he
    have hj' : j < (entriesFrom h 0 os).length := by
      omega
    intro heq
    refine hbefore j (zero_le _) (by omega) ?_
    rw [hstored j hj']
    have hget : (entriesFrom h 0 os)[j] = (entriesFrom h 0 pre)[j] := by
      simp only [hes]
      exact getElem_append_left hj
    rw [hget, heq, mod_eq_of_lt hnum]
  · rcases mem_cons.mp he with rfl | he
    · exact hnn
    · obtain ⟨pre', value, post', rfl, -⟩ := mem_entriesFrom he
      have hlt := hpost (e.optNum, value) (by simp)
      omega

theorem newDelta_eq (henc : OptionsEncodable 0 pre)
    (hfront : Holds pkt.options 0 ((entriesFrom h 0 pre).map OptPos.truncate))
    (hnext : (pkt.options ((entriesFrom h 0 pre).length + 1)).optNum = n % 2 ^ 16) (hle : lastNumber 0 pre ≤ n) :
    ((pkt.options ((entriesFrom h 0 pre).length + 1)).optNum + 2 ^ 16 -
      if (entriesFrom h 0 pre).length = 0 then 0 else (pkt.options ((entriesFrom h 0 pre).length - 1)).optNum) %
        2 ^ 16 = (n - lastNumber 0 pre) % 2 ^ 16 := by
  have hlast := @getD_lastNumber h 0 pre henc []
  rw [append_nil] at hlast
  rw [hnext]
  generalize entriesFrom h 0 pre = es at *
  rcases Nat.eq_zero_or_pos es.length with hzero | hpos
  · rw [if_pos hzero]
    rw [length_eq_zero_iff.mp hzero] at hlast
    have hlast : 0 = lastNumber 0 pre := hlast
    omega
  · have hget := holds_iff.mp hfront (es.length - 1) (by rw [length_map]; omega)
    rw [Nat.zero_add, getElem_map] at hget
    obtain ⟨k, hk⟩ : ∃ k, es.length = k + 1 := ⟨es.length - 1, by omega⟩
    rw [hk, getD_cons_succ, getD_eq_getElem _ _ (by rw [length_map]; omega), getElem_map] at hlast
    rw [if_neg (by omega), hget]
    simp only [hk, Nat.add_sub_cancel]
    unfold OptPos.truncate
    dsimp only
    omega

/-- **What is left** after `coap_opt_remove`. -/
theorem remove_without (m : IsMessage cfg mem buf len h (pre ++ (run ++ post)) tail)
    (l : Laid mem pkt buf h (encodeOptions 0 (pre ++ (run ++ post))) tail (entriesFrom h 0 (pre ++ (run ++ post))))
    (hlen : len < 2 ^ 16) (ha : Around h i n pre run post)
    (hfind : findOptionFrom pkt.options num 0 pkt.optionsLen = some i) :
    ∃ mem' pkt' bytes tail' es,
      coapOptRemove mem pkt num = some (((h + (bytes ++ tail').length : Nat) : Int), mem', pkt') ∧
      Without mem mem' pkt pkt' buf h pre post (pre ++ (run ++ post)) tail tail' bytes es := by
  have hlength := m.length_eq
  have henc := m.encodable
  have hes := @entriesFrom_split h n pre run post henc ha.run_ne ha.before ha.number ha.pos
  have hbytes : encodeOptions 0 (pre ++ (run ++ post)) =
      encodeOptions 0 pre ++ (encodeOptions (lastNumber 0 pre) run ++ encodeOptions n post) := by
    rw [encodeOptions_append, encodeOptions_append, lastNumber_eq ha.number ha.run_ne]
  rw [encodable_append, encodable_append, lastNumber_eq ha.number ha.run_ne] at henc
  obtain ⟨hpre, hrun, hpost⟩ := henc
  have hat : OptionsAt mem pkt (buf + h) 0 (pre ++ (run ++ post)) := by
    refine ⟨(holds_append.mp l.holds).1, m.encodable, ?_⟩
    rcases m.tail with rfl | ⟨payload, rfl⟩
    · exact .inl l.payload
    · exact .inr ⟨l.payload, (holds_append.mp l.holds).2.1⟩
  have hindex := ha.index
  rw [hbytes, hes] at l
  rw [hbytes, length_append, length_append, length_append] at hlength
  generalize hp : encodeOptions 0 pre = p at *
  generalize hr : encodeOptions (lastNumber 0 pre) run = r at *
  subst hindex
  cases post with
  | nil =>
    have l' : Laid mem pkt buf h (p ++ r) tail (entriesFrom h 0 pre ++ [⟨n, h + p.length⟩]) := by
      rw [encodeOptions_nil, append_nil] at l
      exact l
    obtain ⟨mem', pkt', tail', hres, ⟨hpay, ht, hle⟩, hlaid, hcrit, hframe⟩ := l'.remove_last m.tail (by omega) hfind
    refine ⟨mem', pkt', p, tail', _, hres, hlaid, hcrit, hframe, hpay, ht, ?_, ?_, ?_, ?_⟩
    · rw [hbytes]
      simp only [length_append]
      omega
    · rw [hes, length_append]
      rfl
    · intro _
      rw [append_nil]
      exact ⟨hp.symm, rfl⟩
    · intro t _ _ o ho
      cases ho
  | cons o post =>
    obtain ⟨hle, hdm, hvm, hpost'⟩ := hpost
    have hlast := (OptionsEncodable.lastNumber_ge hrun).1
    rw [lastNumber_eq ha.number ha.run_ne] at hlast
    have hmore := ha.behind o mem_cons_self
    -- the new head takes no more room than what is removed
    have hhead : (fieldExt (n - lastNumber 0 pre)).length + 1 ≤ r.length := by
      obtain ⟨o', run', rfl⟩ := exists_cons_of_ne_nil ha.run_ne
      rw [← hr, encodeOptions_cons, length_append, length_encodeOption, ha.number o' mem_cons_self]
      omega
    have hmono : (fieldExt ((o.1 - lastNumber 0 pre) % 2 ^ 16)).length ≤ (fieldExt (o.1 - lastNumber 0 pre)).length :=
      length_fieldExt_mono (mod_le _ _)
    have hsum := @length_fieldExt_add (n - lastNumber 0 pre) (o.1 - n)
    rw [show n - lastNumber 0 pre + (o.1 - n) = o.1 - lastNumber 0 pre by omega] at hsum
    have hgrow : headLength ((o.1 - lastNumber 0 pre) % 2 ^ 16) o.2.length ≤
        r.length + headLength (o.1 - n) o.2.length := by
      unfold headLength
      omega
    obtain ⟨delta, hdelta⟩ : ∃ delta, (o.1 - lastNumber 0 pre) % 2 ^ 16 = delta := ⟨_, rfl⟩
    rw [hdelta] at hgrow
    have hshift : entriesFrom (h + p.length + r.length + (encodeOption (o.1 - n) o.2).length) o.1 post =
        (entriesFrom (h + p.length + (encodeOption delta o.2).length) o.1 post).map fun e => ⟨e.optNum, e.offset +
          (r.length + headLength (o.1 - n) o.2.length - headLength delta o.2.length)⟩ := by
      rw [← entriesFrom_shift, length_encodeOption_eq, length_encodeOption_eq]
      congr 1
      omega
    have hnext : entriesFrom (h + p.length + r.length) n (o :: post) = ⟨o.1, h + p.length + r.length⟩ ::
        entriesFrom (h + p.length + r.length + (encodeOption (o.1 - n) o.2).length) o.1 post := if_neg (by omega)
    rw [hnext, hshift, encodeOptions_cons] at l
    have hopt := l.options
    rw [map_append, holds_append, length_map, zero_add] at hopt
    have hdelta' := newDelta_eq hpre hopt.1 (by rw [hopt.2.2.1]; rfl) (le_trans hlast (le_of_lt hmore))
    rw [hdelta] at hdelta'
    rw [← append_assoc] at hat
    have hparse := hat.drop.parseOption_head
    rw [lastNumber_append, lastNumber_eq ha.number ha.run_ne, encodeOptions_append, hp, hr, length_append,
      show buf + h + (p.length + r.length) = buf + (h + p.length + r.length) by omega] at hparse
    have hvalue : buf + (h + p.length + r.length) + headLength (o.1 - n) o.2.length =
        buf + h + p.length + r.length + headLength (o.1 - n) o.2.length := by omega
    rw [hvalue] at hparse
    obtain ⟨mem', pkt', hres, hlaid, hcrit, hframe⟩ := l.remove_before rfl (by omega) hgrow hfind hdelta' hparse
    have hwithout : encodeOptions 0 (pre ++ o :: post) =
        p ++ (encodeOption (o.1 - lastNumber 0 pre) o.2 ++ encodeOptions o.1 post) := by
      rw [encodeOptions_append, hp, encodeOptions_cons]
    refine ⟨mem', pkt', _, tail, _, hres, hlaid, hcrit, hframe, rfl, m.tail, ?_, ?_, ?_, ?_⟩
    · rw [hbytes, encodeOptions_cons]
      simp only [length_append, length_encodeOption_eq]
      omega
    · rw [hes, hnext]
      simp only [length_append, length_cons]
      rw [hshift, length_map]
      rfl
    · intro hclose
      have hsmall := hclose o rfl
      rw [mod_eq_of_lt hsmall] at hdelta
      rw [hwithout, hdelta, entriesFrom_append, hp]
      refine ⟨rfl, ?_⟩
      have hcons : entriesFrom (h + p.length) (lastNumber 0 pre) (o :: post) = ⟨o.1, h + p.length⟩ ::
          entriesFrom (h + p.length + (encodeOption (o.1 - lastNumber 0 pre) o.2).length) o.1 post :=
        if_neg (by omega)
      rw [hcons, hdelta]
    · intro t henc heq o' ho'
      cases ho'
      have hfield := (encodable_append.mp henc).2.2.1
      rw [hwithout, append_assoc p, append_assoc p] at heq
      have hrest := append_cancel_left heq
      rw [append_assoc, append_assoc] at hrest
      have hdec := congrArg decodeOption hrest
      rw [decodeOption_encode hfield hvm, decodeOption_encode (by omega) hvm] at hdec
      have hsame := (Prod.mk.inj (Option.some.inj hdec)).1
      omega

/-! ## The exact condition -/

theorem Around.recorded_eq (ha : Around h i n pre run post) (henc : OptionsEncodable 0 (pre ++ (run ++ post))) :
    ∃ nums rest, nums.length = i ∧ recorded (pre ++ (run ++ post)) = nums ++ n :: rest ∧
      recorded (pre ++ post) = nums ++ rest ∧ (0 :: (nums ++ n :: rest)).getD i 0 = lastNumber 0 pre ∧
      rest.head? = post.head?.map Prod.fst := by
  have hpre := (encodable_append.mp henc).1
  have hsplit := @entriesFrom_split 0 n pre run post henc ha.run_ne ha.before ha.number ha.pos
  have hlast : ∀ o ∈ post, lastNumber 0 pre < o.1 := by
    intro o ho
    have hbehind := ha.behind o ho
    rcases @lastNumber_mem 0 pre with hzero | ⟨value, hmem⟩
    · omega
    · have := ha.before _ hmem
      omega
  have hindex : ((entriesFrom 0 0 pre).map OptPos.optNum).length = i := by
    rw [← ha.index]
    exact @length_recorded h pre
  refine ⟨(entriesFrom 0 0 pre).map OptPos.optNum, (entriesFrom 0 n post).map OptPos.optNum, hindex, ?_, ?_, ?_, ?_⟩
  · unfold recorded
    rw [hsplit, map_append, map_cons, optNums_eq ha.behind ha.behind]
  · unfold recorded
    rw [entriesFrom_append, map_append, optNums_eq hlast ha.behind]
  · rw [← hindex, length_map]
    exact getD_lastNumber hpre _
  · cases post with
    | nil => rfl
    | cons o post =>
      have hmore := ha.behind o mem_cons_self
      simp only [entriesFrom]
      rw [if_neg (by omega)]
      rfl

/-- What `RemoveOk` asks for, of the options around those of the number that is found. -/
theorem removeOk_iff (ha : Around h i n pre run post) (henc : OptionsEncodable 0 (pre ++ (run ++ post)))
    (hcount : pkt.optionsLen = (entriesFrom h 0 (pre ++ (run ++ post))).length)
    (hcrit : Holds pkt.optCrit 0 ((recorded (pre ++ (run ++ post))).map (critBit processed)))
    (hfind : findOptionFrom pkt.options num 0 pkt.optionsLen = some i) :
    RemoveOk (pre ++ (run ++ post)) pkt num ↔
      n = num ∧ Close pre post ∧ Holds pkt.optCrit 0 ((recorded (pre ++ post)).map (critBit processed)) := by
  obtain ⟨nums, rest, hlen, hnums, hrest, hlast, hhead⟩ := ha.recorded_eq henc
  have hlength := @length_recorded h (pre ++ (run ++ post))
  rw [hnums, length_append, length_cons] at hlength
  rw [hnums] at hcrit
  subst hlen
  unfold RemoveOk
  rw [hfind]
  dsimp only
  rw [hnums, hrest, hlast, critBits_iff hcrit (hcount.trans hlength.symm)]
  have hn : (nums ++ n :: rest).getD nums.length 0 = n := by
    rw [getD_append_right _ _ _ _ le_rfl, Nat.sub_self]
    rfl
  have hbehind : (nums ++ n :: rest).getD (nums.length + 1) 0 = rest.getD 0 0 := by
    rw [getD_append_right _ _ _ _ (Nat.le_add_right _ 1), Nat.add_sub_cancel_left]
    rfl
  rw [hn, hbehind]
  refine and_congr Iff.rfl (and_congr ?_ Iff.rfl)
  unfold Close
  cases post with
  | nil =>
    have hnil : rest = [] := head?_eq_none_iff.mp hhead
    rw [hnil] at hlength
    exact iff_of_true (fun h => absurd h (by rw [hcount, ← hlength]; simp)) (by simp)
  | cons o post =>
    obtain ⟨rest, rfl⟩ : ∃ rest', rest = o.1 :: rest' := head?_eq_some_iff.mp hhead
    constructor
    · intro h o' ho'
      cases ho'
      exact h (by rw [hcount, ← hlength]; simp)
    · intro h _
      exact h o rfl

/-- **Removing an option is right** exactly under the condition. -/
theorem coapOptRemove_right_iff (hctx : IsContext cfg mem buf len h os tail processed pkt) (hlen : len < 2 ^ 16)
    (hnum : num < 2 ^ 16) : RemoveRight cfg mem buf h os tail processed pkt num ↔ RemoveOk os pkt num := by
  have m := hctx.message
  obtain ⟨l, hcrit⟩ := (isContext_iff m hlen).mp hctx
  have hlength := m.length_eq
  cases hfind : findOptionFrom pkt.options num 0 pkt.optionsLen with
  | none =>
    have hsame : coapOptRemove mem pkt num = some ((len : Int), mem, pkt) := by
      unfold coapOptRemove
      rw [hfind]
      refine congrArg some (Prod.ext ?_ rfl)
      have hpay := l.payload
      have hplen := l.payloadLen
      have hsplit : tail.length = (tail.take 1).length + (tail.drop 1).length := by
        rw [← List.length_append, List.take_append_drop]
      rw [List.length_append] at hlength
      rw [l.buf_eq]
      omega
    unfold RemoveOk
    rw [hfind]
    constructor
    · rintro ⟨len', mem', pkt', tail', hres, -, -, hctx'⟩
      rw [hsame] at hres
      obtain ⟨hlen', hrest⟩ := Prod.mk.inj (Option.some.inj hres)
      cases hrest
      obtain rfl : len = len' := by omega
      obtain ⟨-, hos, -⟩ := m.unique hctx'.message
      exact fun o ho => of_decide_eq_true (List.filter_eq_self.mp hos o ho)
    · intro hno
      refine ⟨len, mem, pkt, tail, hsame, rfl, rfl, ?_⟩
      rw [List.filter_eq_self.mpr fun o ho => decide_eq_true (hno o ho)]
      exact hctx
  | some i =>
    obtain ⟨n, pre, run, post, rfl, ha, hmod, hother⟩ := found_around m l hnum hfind
    obtain ⟨mem', pkt', bytes, tail', es, hres, hw⟩ := remove_without m l hlen ha hfind
    rw [removeOk_iff ha m.encodable l.optionsLen hcrit hfind]
    have hless := hw.length_le
    have hfits : h + (bytes ++ tail').length < 2 ^ 16 := by omega
    have hcount := hw.count
    constructor
    · rintro ⟨len', mem₁, pkt₁, tail₁, hres', -, -, hctx'⟩
      rw [hres] at hres'
      obtain ⟨hlen', hrest⟩ := Prod.mk.inj (Option.some.inj hres')
      cases hrest
      obtain rfl : h + (bytes ++ tail').length = len' := by omega
      have m' := hctx'.message
      obtain ⟨l', hcrit'⟩ := (isContext_iff m' hfits).mp hctx'
      -- an option is missing, so it was that of the number
      have hn : n = num := by
        by_contra hne
        have hall := @length_entriesFrom_filter h h 0 num _ m.encodable (hother hne)
        have hsame := l'.optionsLen.symm.trans hw.laid.optionsLen
        omega
      obtain rfl := hn
      rw [filter_number ha.before ha.number ha.behind] at m' hcrit'
      have hbytes := m'.holds.eq_of_length hw.laid.holds (by
        have hlength' := m'.length_eq
        omega)
      refine ⟨rfl, hw.far _ m'.encodable hbytes, ?_⟩
      rw [hw.crit] at hcrit'
      exact hcrit'
    · rintro ⟨rfl, hclose, hcrit'⟩
      obtain ⟨rfl, rfl⟩ := hw.close hclose
      have henc : OptionsEncodable 0 (pre ++ post) := by
        refine encodable_without m.encodable fun o ho => ?_
        have hsmall := hclose o ho
        have hmax : fieldMax = 65804 := rfl
        omega
      have hne : pre ++ (run ++ post) ≠ [] := by simp [ha.run_ne]
      have m' := m.rebuilt hne hw.laid hw.frame henc hw.isTail (by omega)
      refine ⟨_, mem', pkt', tail', hres, ?_, hw.payload, ?_⟩
      · exact slice_congr fun a _ ha => hw.frame a ha
      · rw [filter_number ha.before ha.number ha.behind]
        refine (isContext_iff m' hfits).mpr ⟨hw.laid, ?_⟩
        rw [hw.crit]
        exact hcrit'

/-! ## Where contexts come from -/

theorem IsMessage.isContext (m : IsMessage cfg mem buf len h os tail) :
    IsContext cfg mem buf len h os tail (fun _ => false) (parsedPkt buf h options os tail) := by
  refine ⟨m, options, _, coapParseUdp_eq m, rfl, rfl, rfl, rfl, fun j _ => ⟨rfl, ?_⟩⟩
  rw [Bool.not_false, Bool.and_true]

/-! ## Two messages -/

/-- The options 3, 7, twice 11 and 15, all of them critical, and a payload. -/
def criticalRequest : List UInt8 :=
  [0x40, 0x01, 0x00, 0x01, 0x31, 0x61, 0x42, 0x16, 0x33, 0x41, 0x62, 0x01, 0x63, 0x41, 0x71, 0xFF, 0x78]

theorem isMessage_criticalRequest : IsMessage ⟨16, false⟩ (packetAt criticalRequest) 1 17 4
    [(3, [0x61]), (7, [0x16, 0x33]), (11, [0x62]), (11, [0x63]), (15, [0x71])] [0xFF, 0x78] :=
  ⟨by decide, by decide, by decide, by simp [fieldMax], .inr ⟨[0x78], rfl⟩, by decide, by decide⟩

/-- Both options 11 are removed, and the head of option 15 is written anew. -/
theorem coapOptRemove_right_critical :
    ((coapOptRemove (packetAt criticalRequest) (parsedPkt 1 4 (fun _ => ⟨0, 0⟩)
        [(3, [0x61]), (7, [0x16, 0x33]), (11, [0x62]), (11, [0x63]), (15, [0x71])] [0xFF, 0x78]) 11).map
      fun r => (r.1, slice r.2.1 5 9)) = some (13, [0x31, 0x61, 0x42, 0x16, 0x33, 0x81, 0x71, 0xFF, 0x78]) ∧
    RemoveRight ⟨16, false⟩ (packetAt criticalRequest) 1 4
      [(3, [0x61]), (7, [0x16, 0x33]), (11, [0x62]), (11, [0x63]), (15, [0x71])] [0xFF, 0x78] (fun _ => false)
      (parsedPkt 1 4 (fun _ => ⟨0, 0⟩)
        [(3, [0x61]), (7, [0x16, 0x33]), (11, [0x62]), (11, [0x63]), (15, [0x71])] [0xFF, 0x78]) 11 := by
  refine ⟨by decide, (coapOptRemove_right_iff isMessage_criticalRequest.isContext (by decide) (by decide)).mpr ?_⟩
  have hfind : findOptionFrom (parsedPkt 1 4 (fun _ => ⟨0, 0⟩)
      [(3, [0x61]), (7, [0x16, 0x33]), (11, [0x62]), (11, [0x63]), (15, [0x71])] [0xFF, 0x78]).options 11 0
      (parsedPkt 1 4 (fun _ => ⟨0, 0⟩)
        [(3, [0x61]), (7, [0x16, 0x33]), (11, [0x62]), (11, [0x63]), (15, [0x71])] [0xFF, 0x78]).optionsLen =
      some 2 := by decide
  unfold RemoveOk
  refine ⟨by decide, fun _ => by decide, fun j hle hlt => ?_⟩
  obtain rfl : j = 2 := by
    have hlt : j + 1 < 4 := hlt
    omega
  decide

/-- A path segment, which is critical, and a content format, which is not. -/
def formatRequest : List UInt8 := [0x40, 0x01, 0x00, 0x01, 0xB1, 0x61, 0x11, 0x32]

/-- **The bits are not moved**: the content format gets that of the path segment, and counts as a critical
option that was not processed. -/
theorem not_coapOptRemove_right :
    coapParseUdp ⟨16, false⟩ (packetAt formatRequest) 1 8 (fun _ => ⟨0, 0⟩) =
      some (8, parsedPkt 1 4 (fun _ => ⟨0, 0⟩) [(11, [0x61]), (12, [0x32])] []) ∧
    ((coapOptRemove (packetAt formatRequest) (parsedPkt 1 4 (fun _ => ⟨0, 0⟩) [(11, [0x61]), (12, [0x32])] []) 11).map
      fun r => (r.1, slice r.2.1 1 6, r.2.2.options 0, r.2.2.optCrit 0)) =
      some (6, [0x40, 0x01, 0x00, 0x01, 0xC1, 0x32], ⟨12, 4⟩, true) ∧
    ((coapParseUdp ⟨16, false⟩ (packetAt [0x40, 0x01, 0x00, 0x01, 0xC1, 0x32]) 1 6 (fun _ => ⟨0, 0⟩)).map
      fun r => (r.2.options 0, r.2.optCrit 0)) = some (⟨12, 4⟩, false) ∧
    ¬ RemoveRight ⟨16, false⟩ (packetAt formatRequest) 1 4 [(11, [0x61]), (12, [0x32])] [] (fun _ => false)
      (parsedPkt 1 4 (fun _ => ⟨0, 0⟩) [(11, [0x61]), (12, [0x32])] []) 11 := by
  have hrun : ((coapOptRemove (packetAt formatRequest)
      (parsedPkt 1 4 (fun _ => ⟨0, 0⟩) [(11, [0x61]), (12, [0x32])] []) 11).map
        fun r => (r.1, slice r.2.1 1 6, r.2.2.options 0, r.2.2.optCrit 0)) =
      some (6, [0x40, 0x01, 0x00, 0x01, 0xC1, 0x32], ⟨12, 4⟩, true) := by decide
  have m : IsMessage ⟨16, false⟩ (packetAt formatRequest) 1 8 4 [(11, [0x61]), (12, [0x32])] [] :=
    ⟨by decide, by decide, by decide, by simp [fieldMax], .inl rfl, by decide, by decide⟩
  refine ⟨coapParseUdp_eq m, hrun, by decide, ?_⟩
  rintro ⟨len', mem', pkt', tail', hres, -, -, hctx⟩
  rw [hres] at hrun
  obtain ⟨hlen, hrest⟩ := Prod.mk.inj (Option.some.inj hrun)
  obtain ⟨-, hrest⟩ := Prod.mk.inj hrest
  obtain ⟨-, hbit⟩ := Prod.mk.inj hrest
  obtain rfl : len' = 6 := by
    omega
  have hcrit := ((isContext_iff hctx.message (by decide)).mp hctx).2
  have hclear : pkt'.optCrit 0 = false := hcrit.1
  have hset : pkt'.optCrit 0 = true := hbit
  rw [hclear] at hset
  cases hset

end Riot.Nanocoap
