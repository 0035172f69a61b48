import Riot.Unicoap.ParseRun

/-!
# Looking options up

The reader behind `unicoap_options_get` and `unicoap_options_get_next` skips the
extended delta by the width that its nibble, taken for a delta, would have: one
byte also for the nibble 14, which announces two.
-/

namespace Riot.Unicoap

open Riot.Lib Memory List UInt8

/-! ## The reader -/

variable {mem : Memory UInt8} {a delta n : Nat} {b : UInt8} {value s : List UInt8}

/-- The reader gets the value of an option: its delta is not extended by two bytes,
or all bytes behind the extended delta equal the last byte of that. -/
def ReadsRight (delta : Nat) (value : List UInt8) : Prop :=
  delta < 269 ∨ ∀ x ∈ fieldExt value.length ++ value, x = UInt8.ofNat (delta - 269)

instance : Decidable (ReadsRight delta value) := inferInstanceAs (Decidable (_ ∨ _))

/-- The result of a read points at `value`. -/
def PointsAt (mem : Memory UInt8) (res : Except Int (Nat × Nat)) (value : List UInt8) : Prop :=
  ∃ p size, res = .ok (p, size) ∧ slice mem p size = value

theorem pointsAt_ok {p size : Nat} : PointsAt mem (.ok (p, size)) value ↔ slice mem p size = value := by
  constructor
  · rintro ⟨p', size', h, hs⟩
    obtain ⟨rfl, rfl⟩ := Prod.mk.inj (Except.ok.inj h)
    exact hs
  · intro h
    exact ⟨p, size, rfl, h⟩

/-- Read from one byte too early on, bytes are the same only if all are equal. -/
theorem slice_early_iff (h : Holds mem a (b :: s)) : slice mem a s.length = s ↔ ∀ x ∈ s, x = b := by
  induction s generalizing a b with
  | nil => simp [slice]
  | cons c s ih =>
    rw [length_cons, slice, h.1, cons.injEq, ih h.2, forall_mem_cons]
    constructor
    · rintro ⟨rfl, hs⟩
      exact ⟨rfl, hs⟩
    · rintro ⟨rfl, hs⟩
      exact ⟨rfl, hs⟩

/-- The length field read from one byte too early on, and the value behind it. -/
theorem uintRead_early_iff (hv : value.length ≤ fieldMax)
    (hm : Holds mem a (b :: (fieldExt value.length ++ value))) :
    (∃ p size, uintRead mem (fieldNibble value.length) a = some (size, p) ∧ slice mem p size = value) ↔
      ∀ x ∈ fieldExt value.length ++ value, x = b := by
  have hmax : fieldMax = 65804 := rfl
  by_cases h13 : value.length < 13
  · have hext : fieldExt value.length = [] := by rw [fieldExt, if_pos h13]
    rw [hext, nil_append] at hm
    have hread : uintRead mem (fieldNibble value.length) a = some (value.length, a) := by
      rw [fieldNibble, if_pos h13, uintRead, if_pos h13]
    rw [hext, nil_append, ← slice_early_iff hm, hread]
    simp
  by_cases h269 : value.length < 269
  · have hext : fieldExt value.length = [ofNat (value.length - 13)] := by
      rw [fieldExt, if_neg h13, if_pos h269]
    rw [hext, singleton_append, holds_cons] at hm
    have hread : uintRead mem (fieldNibble value.length) a = some (13 + b.toNat, a + 1) := by
      rw [fieldNibble, if_neg h13, if_pos h269, uintRead, if_neg (by omega), if_pos rfl, hm.1]
    rw [hext, singleton_append, forall_mem_cons, hread]
    -- the byte read is the length only if it equals the length byte
    have hlen : 13 + b.toNat = value.length ↔ ofNat (value.length - 13) = b := by
      rw [← UInt8.toNat_inj, UInt8.toNat_ofNat']
      omega
    constructor
    · rintro ⟨p, size, hp, hs⟩
      cases hp
      have hl := congrArg length hs
      rw [length_slice] at hl
      have heq := hlen.mp hl
      rw [hl, slice_early_iff hm.2, heq] at hs
      exact ⟨heq, hs⟩
    · rintro ⟨heq, hs⟩
      refine ⟨a + 1, 13 + b.toNat, rfl, ?_⟩
      rw [hlen.mpr heq, slice_early_iff hm.2, heq]
      exact hs
  · have hext : fieldExt value.length = [ofNat ((value.length - 269) / 256), ofNat (value.length - 269)] := by
      rw [fieldExt, if_neg h13, if_neg h269]
    rw [hext, cons_append, singleton_append, holds_cons, holds_cons] at hm
    have hread : uintRead mem (fieldNibble value.length) a =
        some (269 + (256 * b.toNat + (ofNat ((value.length - 269) / 256)).toNat), a + 2) := by
      rw [fieldNibble, if_neg h13, if_neg h269, uintRead, if_neg (by omega), if_neg (by omega),
        if_pos rfl, hm.1, hm.2.1]
      rfl
    rw [hext, cons_append, singleton_append, forall_mem_cons, forall_mem_cons, hread]
    have hlen : 269 + (256 * b.toNat + (ofNat ((value.length - 269) / 256)).toNat) =
        value.length ↔ ofNat ((value.length - 269) / 256) = b ∧ ofNat (value.length - 269) = b := by
      obtain ⟨hi, lo, hlo, hsum⟩ : ∃ hi lo, lo < 256 ∧ value.length - 269 = 256 * hi + lo :=
        ⟨_, _, Nat.mod_lt _ (by omega), (Nat.div_add_mod _ 256).symm⟩
      have hdiv : (value.length - 269) / 256 = hi := by omega
      have hmod : (value.length - 269) % 2 ^ 8 = lo := by omega
      rw [← UInt8.toNat_inj, ← UInt8.toNat_inj, UInt8.toNat_ofNat', UInt8.toNat_ofNat', hmod, hdiv,
        Nat.mod_eq_of_lt (by omega)]
      omega
    constructor
    · rintro ⟨p, size, hp, hs⟩
      cases hp
      have hl := congrArg length hs
      rw [length_slice] at hl
      obtain ⟨hhi, hlo⟩ := hlen.mp hl
      rw [hl, slice_early_iff hm.2.2, hlo] at hs
      exact ⟨hhi, hlo, hs⟩
    · rintro ⟨hhi, hlo, hs⟩
      refine ⟨a + 2, _, rfl, ?_⟩
      rw [hlen.mpr ⟨hhi, hlo⟩, slice_early_iff hm.2.2, hlo]
      exact hs

/-- Behind a delta extended by two bytes the reader starts one byte too early. -/
theorem readOption_wide (h269 : 269 ≤ delta) (hm : Holds mem a (encodeOption delta value)) :
    readOption mem a = (uintRead mem (fieldNibble value.length) (a + 1 + 1)).elim (.error (-EBADOPT))
        (fun r => .ok (r.2, r.1)) ∧
      Holds mem (a + 1 + 1) (ofNat (delta - 269) :: (fieldExt value.length ++ value)) := by
  rw [encodeOption, holds_cons, holds_append] at hm
  obtain ⟨hhead, hext, hrest⟩ := hm
  have hdn : decodeDeltaNibble (mem a) = 14 := by
    rw [hhead, decodeDeltaNibble_eq, optionHead_div fieldNibble_le fieldNibble_le, fieldNibble,
      if_neg (by omega), if_neg (by omega)]
  have hln : decodeLengthNibble (mem a) = fieldNibble value.length := by
    rw [hhead, decodeLengthNibble_eq, optionHead_mod fieldNibble_le fieldNibble_le]
  have hw : (uintExtendedSize 14).toNat = 1 := rfl
  constructor
  · have hsize : ¬ uintExtendedSize 14 < 0 := by decide
    simp only [readOption, hdn, hln, if_neg hsize, hw]
    cases uintRead mem (fieldNibble value.length) (a + 1 + 1) with
    | none => rfl
    | some r => rfl
  · have hlen : (fieldExt delta).length = 2 := by rw [fieldExt, if_neg (by omega), if_neg (by omega)]; rfl
    rw [hlen] at hrest
    rw [fieldExt, if_neg (by omega), if_neg (by omega), holds_cons, holds_cons] at hext
    exact ⟨hext.2.1, hrest⟩

/-- **What the reader gets from an option.** -/
theorem readOption_iff (hv : value.length ≤ fieldMax) (hm : Holds mem a (encodeOption delta value)) :
    PointsAt mem (readOption mem a) value ↔ ReadsRight delta value := by
  by_cases h269 : delta < 269
  · rw [encodeOption, holds_cons, holds_append] at hm
    obtain ⟨hhead, hext, hrest⟩ := hm
    have hdn : decodeDeltaNibble (mem a) = fieldNibble delta := by
      rw [hhead, decodeDeltaNibble_eq, optionHead_div fieldNibble_le fieldNibble_le]
    have hln : decodeLengthNibble (mem a) = fieldNibble value.length := by
      rw [hhead, decodeLengthNibble_eq, optionHead_mod fieldNibble_le fieldNibble_le]
    unfold readOption
    dsimp only
    rw [hdn, hln]
    -- the width of the extension is read off the nibble correctly
    have hw : uintExtendedSize (fieldNibble delta) = (fieldExt delta).length := by
      unfold fieldNibble uintExtendedSize fieldExt
      split_ifs <;> first | rfl | omega
    rw [holds_append] at hrest
    rw [hw, if_neg (by omega), Int.toNat_natCast, uintRead_eq hv hrest.1]
    rw [pointsAt_ok, hrest.2.slice_eq]
    exact ⟨fun _ => .inl h269, fun _ => rfl⟩
  · obtain ⟨hread, hb⟩ := readOption_wide (Nat.le_of_not_lt h269) hm
    have hiff := uintRead_early_iff hv hb
    rw [ReadsRight, or_iff_right h269, ← hiff, hread]
    cases uintRead mem (fieldNibble value.length) (a + 1 + 1) with
    | none => simp [PointsAt]
    | some r =>
      obtain ⟨size, p⟩ := r
      simp [PointsAt]

/-! ## Lookups -/

/-- Every lookup by number and every step of an iterator gets the value of the
option that the object stores. -/
structure LookupRight (s : Store) (os : List NumberedOption) : Prop where
  get : ∀ n, match os.find? (fun o => o.1 = n) with
    | some o => PointsAt s.mem (unicoapOptionsGet s n) o.2
    | none => unicoapOptionsGet s n = .error (-ENOENT)
  next : ∀ i, match os[i]? with
    | some o => ∃ p size, unicoapOptionsGetNext s i = .ok (o.1, p, size) ∧ slice s.mem p size = o.2
    | none => unicoapOptionsGetNext s i = .error (-1)

/-- All options are read right. -/
def AllReadRight : Nat → List NumberedOption → Prop
  | _, [] => True
  | prev, o :: os => ReadsRight (o.1 - prev) o.2 ∧ AllReadRight o.1 os

instance AllReadRight.decidable : ∀ prev os, Decidable (AllReadRight prev os)
  | _, [] => inferInstanceAs (Decidable True)
  | _, o :: os =>
    have := AllReadRight.decidable o.1 os
    inferInstanceAs (Decidable (_ ∧ AllReadRight o.1 os))

theorem allReadRight_iff {prev : Nat} {os : List NumberedOption} : AllReadRight prev os ↔
    ∀ pre o post, os = pre ++ o :: post → ReadsRight (o.1 - lastNumber prev pre) o.2 := by
  induction os generalizing prev with
  | nil => simp [AllReadRight]
  | cons o os ih =>
    rw [AllReadRight, ih]
    constructor
    · rintro ⟨ho, hos⟩ pre o' post heq
      cases pre with
      | nil =>
        cases heq
        exact ho
      | cons o'' pre =>
        cases heq
        exact hos pre o' post rfl
    · intro h
      exact ⟨h [] o os rfl, fun pre o' post heq => h (o :: pre) o' post (by rw [heq]; rfl)⟩

section

variable {cfg : Cfg} {base : Nat} {st : Store} {o : NumberedOption} {os pre post : List NumberedOption}

theorem Stored.read_iff (h : Stored cfg base st (pre ++ o :: post)) :
    PointsAt st.mem (readOption st.mem (st.options.entries pre.length).data) o.2 ↔
      ReadsRight (o.1 - lastNumber 0 pre) o.2 := by
  obtain ⟨-, -, hv, -⟩ := h.encodable_at
  have hm := h.option_mem
  rw [holds_append] at hm
  rw [h.entry]
  exact readOption_iff hv hm.1

theorem Stored.next_iff (h : Stored cfg base st (pre ++ o :: post)) :
    (∃ p size, unicoapOptionsGetNext st pre.length = .ok (o.1, p, size) ∧ slice st.mem p size = o.2) ↔
      ReadsRight (o.1 - lastNumber 0 pre) o.2 := by
  have hcount := h.count
  rw [length_append, length_cons] at hcount
  have hnum : (st.options.entries pre.length).number = o.1 := by rw [h.entry]
  rw [← h.read_iff, unicoapOptionsGetNext, if_neg (by omega), hnum]
  cases readOption st.mem (st.options.entries pre.length).data with
  | error e => simp [PointsAt]
  | ok r =>
    obtain ⟨p, size⟩ := r
    simp [PointsAt]

/-- **Lookups are right exactly if all options are read right.** -/
theorem Stored.lookup_iff (h : Stored cfg base st os) : LookupRight st os ↔ AllReadRight 0 os := by
  rw [allReadRight_iff]
  constructor
  · intro hr pre o post heq
    subst heq
    have := hr.next pre.length
    rw [getElem?_append_right le_rfl, Nat.sub_self, getElem?_cons_zero] at this
    exact h.next_iff.mp this
  · intro hall
    constructor
    · intro n
      by_cases hex : ∃ o ∈ os, o.1 = n
      · obtain ⟨pre, o, post, rfl, hpre, ho⟩ := exists_first h.fits.encodable hex
        have hfind : (pre ++ o :: post).find? (fun o => o.1 = n) = some o := by
          rw [find?_append, find?_eq_none.mpr, find?_cons_of_pos (by simpa using ho)]
          · rfl
          · intro o' ho'
            simpa using Nat.ne_of_lt (hpre o' ho')
        rw [hfind]
        rw [unicoapOptionsGet, h.findOptionIndex_eq hpre ho]
        exact h.read_iff.mpr (hall pre o post rfl)
      · have hne : ∀ o ∈ os, o.1 ≠ n := fun o ho heq => hex ⟨o, ho, heq⟩
        rw [find?_eq_none.mpr (by simpa using hne)]
        rw [unicoapOptionsGet, h.findOptionIndex_eq_none hne]
    · intro i
      by_cases hi : i < os.length
      · obtain ⟨pre, o, post, rfl, rfl⟩ : ∃ pre o post, os = pre ++ o :: post ∧ pre.length = i :=
          ⟨os.take i, os[i], os.drop (i + 1), by simp, by simp; omega⟩
        rw [getElem?_append_right le_rfl, Nat.sub_self, getElem?_cons_zero]
        exact h.next_iff.mpr (hall pre o post rfl)
      · rw [getElem?_eq_none (by omega)]
        dsimp only
        rw [unicoapOptionsGetNext, if_pos (by rw [h.count]; omega)]

end

/-! ## Objects -/

/-- Where an object comes from: it was initialized, or it is the result of parsing
bytes whose numbers and sizes fit. -/
inductive Origin (cfg : Cfg) (base : Nat) : Session → Prop
  | init (entries : Memory OptionEntry) (mem : Memory UInt8) (capacity : Nat) :
      Origin cfg base (newSession entries mem base capacity)
  | parsed (mem : Memory UInt8) (last : Nat) (message message' : Message) (os : List NumberedOption)
      (tail : List UInt8) (hle : base ≤ last)
      (hparse : unicoapPduParseOptionsAndPayload cfg mem base last message = some (0, message'))
      (hbytes : slice mem base (last - base) = encodeOptions 0 os ++ tail)
      (henc : OptionsEncodable 0 os) (hend : tail = [] ∨ ∃ payload, tail = payloadMarker :: payload)
      (hfits : InputFits (slice mem base (last - base))) :
      Origin cfg base (.running ⟨mem, message'.options⟩ os)

theorem Origin.inv {cfg : Cfg} {base : Nat} {σ : Session} (h : Origin cfg base σ) (hbase : base ≠ 0) :
    ∃ capacity, SessionInv cfg base capacity σ := by
  cases h with
  | init entries mem capacity => exact ⟨capacity, _, _, rfl, .init hbase, rfl⟩
  | parsed mem last message message' os tail hle hparse hbytes henc hend hfits =>
    obtain ⟨r, message'', hr, hres⟩ := parse_spec cfg mem message hle
    obtain ⟨rfl, rfl⟩ := Prod.mk.inj (Option.some.inj (hparse.symm.trans hr))
    obtain hneg | ⟨-, os', tail', hp⟩ := hres
    · exact absurd hneg (by decide)
    obtain ⟨rfl, rfl⟩ := encodeOptions_unique hp.encodable henc hp.tail.end_or_marker hend
      (hp.slice_eq.symm.trans hbytes)
    obtain ⟨hn, hs⟩ := hfits _ _ hbytes henc hend
    exact ⟨_, _, _, rfl, hp.stored hbase hn hs, rfl⟩

/-- **Lookups in an object that was produced by parsing and by admissible calls are
right exactly if its options are read right.** -/
theorem lookup_right_iff (cfg : Cfg) (base : Nat) (σ : Session) (cs : List OptionsCall) (s : Store)
    (os : List NumberedOption) (hbase : base ≠ 0) (horigin : Origin cfg base σ)
    (hok : Along (sessionStep cfg) (Admissible cfg) σ cs)
    (hrun : run (sessionStep cfg) σ cs = some (.running s os)) :
    LookupRight s os ↔ AllReadRight 0 os := by
  obtain ⟨capacity, hinv⟩ := horigin.inv hbase
  obtain ⟨s', os', heq, h, -⟩ := run_invariant (I := SessionInv cfg base capacity)
    (fun σ c σ' hinv hok hstep => (hinv.step hok hstep).2) cs hinv hok hrun
  obtain ⟨rfl, rfl⟩ := Session.running.inj heq
  exact h.lookup_iff

/-- Options of short and of empty values. -/
def lookupCalls : List OptionsCall := [.add 300 [], .add 11 [1, 2], .set 12 [3]]

theorem lookup_right_iff_calls : ∃ s os,
    run (sessionStep ⟨16⟩) (emptySession 64) lookupCalls = some (.running s os) ∧ LookupRight s os := by
  have hend : (run (sessionStep ⟨16⟩) (emptySession 64) lookupCalls).any (fun
      | .running _ os => decide (AllReadRight 0 os)
      | .crashed => false) = true := by decide +kernel
  obtain ⟨σ, hσ, hread⟩ := (Option.any_eq_true _ _).mp hend
  cases σ with
  | crashed => exact absurd hread (by decide)
  | running s os =>
    exact ⟨s, os, hσ, (lookup_right_iff ⟨16⟩ 1 (emptySession 64) lookupCalls s os (by decide)
      (.init _ _ _) (by decide +kernel) hσ).mpr (of_decide_eq_true hread)⟩

/-- The value of the option 300 is read from one byte too early on. -/
theorem not_lookup_right : ∃ s os,
    run (sessionStep ⟨16⟩) (emptySession 64) [.add 300 [1, 2]] = some (.running s os) ∧
    (∃ p, unicoapOptionsGet s 300 = .ok (p, 2) ∧ slice s.mem p 2 = [31, 1]) ∧ ¬ LookupRight s os := by
  have hend : (run (sessionStep ⟨16⟩) (emptySession 64) [.add 300 [1, 2]]).any (fun
      | .running s os =>
        match unicoapOptionsGet s 300 with
        | .ok (p, size) => decide (size = 2 ∧ slice s.mem p size = [31, 1] ∧ os = [(300, [1, 2])])
        | .error _ => false
      | .crashed => false) = true := by decide
  obtain ⟨σ, hσ, hget⟩ := (Option.any_eq_true _ _).mp hend
  cases σ with
  | crashed => exact absurd hget (by decide)
  | running s os =>
    dsimp only at hget
    split at hget
    · rename_i p size hres
      obtain ⟨rfl, hslice, rfl⟩ := of_decide_eq_true hget
      refine ⟨s, _, hσ, ⟨p, hres, hslice⟩, fun hright => ?_⟩
      have hpoints : PointsAt s.mem (unicoapOptionsGet s 300) [1, 2] := hright.get 300
      rw [hres, pointsAt_ok, hslice] at hpoints
      exact absurd hpoints (by decide)
    · exact absurd hget (by decide)

end Riot.Unicoap
