import Riot.Nanocoap.ParseSound

/-!
# Recorded options

A packet has an entry for the first option of each number that is used, in order, but for the number 0.
`coap_find_option` comes to it.
-/

namespace Riot.Nanocoap

open Riot.Lib Memory List Nat

variable {cfg : Cfg} {mem : Memory UInt8} {buf len h offset prev num : Nat} {pkt : Pkt}
  {options : Memory OptPos} {pre os post : List NumberedOption} {tail value : List UInt8}

theorem entriesFrom_append : entriesFrom offset prev (pre ++ os) =
    entriesFrom offset prev pre ++ entriesFrom (offset + (encodeOptions prev pre).length) (lastNumber prev pre) os := by
  induction pre generalizing offset prev with
  | nil => rfl
  | cons o pre ih =>
    simp only [cons_append, entriesFrom, encodeOptions_cons, length_append, lastNumber_cons]
    rw [ih, add_assoc]
    split <;> rfl

theorem lastNumber_mem : lastNumber prev pre = prev ∨ ∃ value, (lastNumber prev pre, value) ∈ pre := by
  induction pre generalizing prev with
  | nil => exact .inl rfl
  | cons o pre ih =>
    right
    rw [lastNumber_cons]
    rcases @ih o.1 with hprev | ⟨value, hmem⟩
    · rw [hprev]
      exact ⟨o.2, mem_cons_self⟩
    · exact ⟨value, mem_cons_of_mem _ hmem⟩

theorem OptionsEncodable.lastNumber_ge (henc : OptionsEncodable prev pre) :
    prev ≤ lastNumber prev pre ∧ ∀ o ∈ pre, o.1 ≤ lastNumber prev pre := by
  induction pre generalizing prev with
  | nil => exact ⟨le_refl _, by simp⟩
  | cons o pre ih =>
    obtain ⟨hle, -, -, hrest⟩ := henc
    obtain ⟨hlast, hall⟩ := ih hrest
    exact ⟨le_trans hle hlast, forall_mem_cons.mpr ⟨hlast, hall⟩⟩

theorem lastNumber_lt (henc : OptionsEncodable 0 (pre ++ (num, value) :: post)) (hfirst : ∀ o ∈ pre, o.1 ≠ num)
    (hnum : num ≠ 0) : lastNumber 0 pre < num := by
  have hle := (encodable_append.mp henc).2.1
  rcases @lastNumber_mem 0 pre with hzero | ⟨value, hmem⟩
  · omega
  · have hne := hfirst _ hmem
    omega

theorem mem_entriesFrom_ne (hfirst : ∀ o ∈ pre, o.1 ≠ num) : ∀ e ∈ entriesFrom offset prev pre, e.optNum ≠ num := by
  intro e he
  obtain ⟨pre', value, post', rfl, -⟩ := mem_entriesFrom he
  exact hfirst (e.optNum, value) (by simp)

/-- The first option of a number has an entry, behind those of smaller numbers. -/
theorem entriesFrom_first (henc : OptionsEncodable 0 (pre ++ (num, value) :: post)) (hfirst : ∀ o ∈ pre, o.1 ≠ num)
    (hnum : num ≠ 0) : entriesFrom offset 0 (pre ++ (num, value) :: post) = entriesFrom offset 0 pre ++
      ⟨num, offset + (encodeOptions 0 pre).length⟩ ::
        entriesFrom (offset + (encodeOptions 0 (pre ++ [(num, value)])).length) num post := by
  have hlt := lastNumber_lt henc hfirst hnum
  rw [entriesFrom_append, entriesFrom]
  rw [if_neg (by omega), encodeOptions_append, encodeOptions_cons, encodeOptions_nil, append_nil, length_append,
    add_assoc]

theorem findOptionFrom_first {es rest : List OptPos} {e : OptPos} {i n : Nat} {entries : Memory OptPos}
    (hes : ∀ e ∈ es, e.optNum ≠ num) (he : e.optNum = num) (hn : es.length < n)
    (hholds : Holds entries i (es ++ e :: rest)) : findOptionFrom entries num i n = some (i + es.length) := by
  induction es generalizing i n with
  | nil =>
    obtain ⟨n, rfl⟩ := exists_eq_succ_of_ne_zero (ne_of_gt hn)
    rw [findOptionFrom, if_pos (by rw [hholds.1, he]), length_nil, add_zero]
  | cons e' es ih =>
    obtain ⟨n, rfl⟩ := exists_eq_succ_of_ne_zero (ne_of_gt (lt_of_le_of_lt (zero_le _) hn))
    obtain ⟨hne, hes⟩ := forall_mem_cons.mp hes
    rw [length_cons] at hn
    rw [findOptionFrom, if_neg (by rw [hholds.1]; exact hne), ih hes (by omega) hholds.2, length_cons]
    congr 1
    omega

/-- **The first option of a number is found.** -/
theorem HasEntries.find_first (he : HasEntries pkt h (pre ++ (num, value) :: post))
    (henc : OptionsEncodable 0 (pre ++ (num, value) :: post)) (hfirst : ∀ o ∈ pre, o.1 ≠ num) (hnum : num ≠ 0) :
    (coapFindOption pkt num).1 = pkt.buf + h + (encodeOptions 0 pre).length ∧
      (coapFindOption pkt num).2 = { pkt with
        optCrit := Function.update pkt.optCrit (entriesFrom h 0 pre).length false } := by
  obtain ⟨hcount, hentries⟩ := he
  rw [entriesFrom_first henc hfirst hnum] at hcount hentries
  have hfind := @findOptionFrom_first num (entriesFrom h 0 pre) _ _ 0 pkt.optionsLen pkt.options
    (mem_entriesFrom_ne hfirst) rfl (by rw [hcount, length_append, length_cons]; omega) hentries
  rw [zero_add] at hfind
  have hentry : pkt.options (entriesFrom h 0 pre).length = ⟨num, h + (encodeOptions 0 pre).length⟩ := by
    have := (holds_append.mp hentries).2.1
    rwa [zero_add] at this
  unfold coapFindOption
  rw [hfind]
  dsimp only
  rw [hentry, add_assoc]
  exact ⟨rfl, rfl⟩

end Riot.Nanocoap
