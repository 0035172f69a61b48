import Riot.Nanocoap.Entries
import Riot.Nanocoap.RoundTrip

/-!
# Removing an option (`nanocoap.c`)

`coap_opt_remove` works in the buffer of a packet and in its context. It finds the first entry of
a number, writes the head of the option behind those of that number anew, and moves what follows.
An entry stands for all options of its number, and the next entry is where they end.
-/

namespace Riot.Nanocoap

open Riot.Lib Memory List

/-! ## The function -/

/-- An entry that is `shift` bytes further to the front; the offset is 16 bits wide. -/
def OptPos.back (e : OptPos) (shift : Int) : OptPos :=
  { e with offset := ((e.offset - shift) % 2 ^ 16).toNat }

/-- What the loop does for the entries behind the one that was found: each moves to the one in front. -/
def moveEntries (shift : Int) : Nat → Nat → Memory OptPos → Memory OptPos
  | 0, _, options => options
  | optCount + 1, optpos, options =>
    moveEntries shift optCount (optpos + 1) (Function.update options (optpos - 1) ((options optpos).back shift))

/-- The end of `coap_opt_remove`: what is at `startOld` moves to `startNew`. -/
def closeGap (mem : Memory UInt8) (pkt : Pkt) (startOld startNew : Nat) : Int × Memory UInt8 × Pkt :=
  let moveSize := pkt.payload - startOld + pkt.payloadLen
  let payload := ((pkt.payload : Int) - ((startOld : Int) - startNew)).toNat
  ((payload : Int) - pkt.buf + pkt.payloadLen, move mem startNew startOld moveSize,
    { pkt with optionsLen := pkt.optionsLen - 1, payload := payload })

def coapOptRemove (mem : Memory UInt8) (pkt : Pkt) (optNum : Nat) : Option (Int × Memory UInt8 × Pkt) :=
  match findOptionFrom pkt.options optNum 0 pkt.optionsLen with
  | none => some ((pkt.payload : Int) - pkt.buf + pkt.payloadLen, mem, pkt)
  | some optpos =>
    let startNew := pkt.buf + (pkt.options optpos).offset
    if optpos + 1 = pkt.optionsLen then
      -- the last option: the payload marker or the end of the message moves
      let startOld := if pkt.payloadLen ≠ 0 then pkt.payload - 1 else pkt.payload
      some (closeGap mem pkt startOld startNew)
    else
      let next := pkt.options (optpos + 1)
      let prevNum := if optpos = 0 then 0 else (pkt.options (optpos - 1)).optNum
      let newDelta := (next.optNum + 2 ^ 16 - prevNum) % 2 ^ 16
      let optStart := pkt.buf + next.offset
      match parseOption mem pkt optStart with
      | none => none
      | some (startOld, _, optionLen) =>
        let mem := store mem startNew [0]
        match putDeltaOptlen mem startNew 1 4 newDelta with
        | (mem, n) =>
          match putDeltaOptlen mem startNew n 0 optionLen.toNat with
          | (mem, newHdrLen) =>
            let oldHdrLen := startOld - optStart
            let startNew := startNew + newHdrLen
            let options := Function.update pkt.options (optpos + 1) (next.back ((newHdrLen : Int) - oldHdrLen))
            let options := moveEntries ((startOld : Int) - startNew) (pkt.optionsLen - (optpos + 1)) (optpos + 1)
              options
            some (closeGap mem { pkt with options := options } startOld startNew)

/-! ## Contexts -/

/-- The numbers that have an entry. -/
def recorded (os : List NumberedOption) : List Nat := (entriesFrom 0 0 os).map OptPos.optNum

/-- The bit of an option: it is critical, and not marked as processed. -/
def critBit (processed : Nat → Bool) (num : Nat) : Bool := decide (num % 2 = 1) && !processed num

/-- The context is what `coap_parse_udp` makes of the message, but for the options of the numbers that
are marked as processed. -/
structure IsContext (cfg : Cfg) (mem : Memory UInt8) (buf len h : Nat) (os : List NumberedOption)
    (tail : List UInt8) (processed : Nat → Bool) (pkt : Pkt) : Prop where
  message : IsMessage cfg mem buf len h os tail
  parsed : ∃ options parsed, coapParseUdp cfg mem buf len options = some ((len : Int), parsed) ∧
    pkt.buf = parsed.buf ∧ pkt.payload = parsed.payload ∧ pkt.payloadLen = parsed.payloadLen ∧
    pkt.optionsLen = parsed.optionsLen ∧
    ∀ j < parsed.optionsLen, pkt.options j = parsed.options j ∧
      pkt.optCrit j = (parsed.optCrit j && !processed ((recorded os).getD j 0))

/-- The buffer and the context are those of the message without the options of a number, with the same
header, token and payload. -/
def RemoveRight (cfg : Cfg) (mem : Memory UInt8) (buf h : Nat) (os : List NumberedOption) (tail : List UInt8)
    (processed : Nat → Bool) (pkt : Pkt) (num : Nat) : Prop :=
  ∃ (len' : Nat) (mem' : Memory UInt8) (pkt' : Pkt) (tail' : List UInt8),
    coapOptRemove mem pkt num = some ((len' : Int), mem', pkt') ∧ slice mem' buf h = slice mem buf h ∧
    tail'.drop 1 = tail.drop 1 ∧
    IsContext cfg mem' buf len' h (os.filter fun o => o.1 ≠ num) tail' processed pkt'

/-- What removing the options of a number relies on: they are the ones that the first entry stands for,
the numbers around them differ by 16 bits at most, and the bits behind theirs are all the same. -/
def RemoveOk (os : List NumberedOption) (pkt : Pkt) (num : Nat) : Prop :=
  match findOptionFrom pkt.options num 0 pkt.optionsLen with
  | none => ∀ o ∈ os, o.1 ≠ num
  | some i =>
    (recorded os).getD i 0 = num ∧
    (i + 1 < pkt.optionsLen → (recorded os).getD (i + 1) 0 - (0 :: recorded os).getD i 0 < 2 ^ 16) ∧
    ∀ j, i ≤ j → j + 1 < pkt.optionsLen → pkt.optCrit j = pkt.optCrit (j + 1)

variable {cfg : Cfg} {mem mem' : Memory UInt8} {buf len h offset prev num i j k n : Nat} {pkt pkt' : Pkt}
  {options : Memory OptPos} {pre run post os : List NumberedOption} {tail : List UInt8} {processed : Nat → Bool}
  {e : OptPos} {es : List OptPos} {shift : Int}

/-! ## Entries -/

theorem entriesFrom_shift : entriesFrom (offset + k) prev os =
    (entriesFrom offset prev os).map fun e => ⟨e.optNum, e.offset + k⟩ := by
  induction os generalizing offset prev with
  | nil => rfl
  | cons o os ih =>
    simp only [entriesFrom]
    rw [Nat.add_right_comm, ih]
    split <;> rfl

theorem recorded_eq : (entriesFrom offset 0 os).map OptPos.optNum = recorded os := by
  have hshift := @entriesFrom_shift 0 0 offset os
  rw [zero_add] at hshift
  rw [hshift, map_map]
  rfl

theorem length_recorded : (recorded os).length = (entriesFrom offset 0 os).length := by
  rw [← @recorded_eq offset, length_map]

theorem entriesFrom_run (hrun : ∀ o ∈ run, o.1 = prev) : entriesFrom offset prev run = [] := by
  induction run generalizing offset with
  | nil => rfl
  | cons o run ih =>
    obtain ⟨ho, hrun⟩ := forall_mem_cons.mp hrun
    simp only [entriesFrom]
    rw [if_pos (by omega), ho]
    exact ih hrun

theorem lt_of_mem_entriesFrom (henc : OptionsEncodable prev os) (he : e ∈ entriesFrom offset prev os) :
    prev < e.optNum :=
  ((entriesFrom_sorted henc).2 _ (mem_map_of_mem he)).1

/-- An entry stands for the options of its number: those before have smaller numbers, and those
behind larger ones. -/
theorem split_at_entry (henc : OptionsEncodable prev os) (hi : i < (entriesFrom offset prev os).length) :
    ∃ pre run post, os = pre ++ (run ++ post) ∧ run ≠ [] ∧
      (∀ o ∈ pre, o.1 < (entriesFrom offset prev os)[i].optNum) ∧
      (∀ o ∈ run, o.1 = (entriesFrom offset prev os)[i].optNum) ∧
      (∀ o ∈ post, (entriesFrom offset prev os)[i].optNum < o.1) ∧ (entriesFrom offset prev pre).length = i := by
  induction os generalizing offset prev i with
  | nil => exact absurd hi (Nat.not_lt_zero _)
  | cons o os ih =>
    obtain ⟨hle, -, -, hrest⟩ := henc
    have hlt : ∀ e ∈ entriesFrom (offset + (encodeOption (o.1 - prev) o.2).length) o.1 os, o.1 < e.optNum :=
      fun e he => lt_of_mem_entriesFrom hrest he
    by_cases ho : o.1 - prev = 0
    · have hes : entriesFrom offset prev (o :: os) =
          entriesFrom (offset + (encodeOption (o.1 - prev) o.2).length) o.1 os := if_pos ho
      simp only [hes] at hi ⊢
      obtain ⟨pre, run, post, hos, hne, hpre, hrun, hpost, hcount⟩ := ih hrest hi
      refine ⟨o :: pre, run, post, by rw [hos]; rfl, hne, ?_, hrun, hpost, ?_⟩
      · exact forall_mem_cons.mpr ⟨hlt _ (getElem_mem _), hpre⟩
      · have hpre' : entriesFrom offset prev (o :: pre) =
            entriesFrom (offset + (encodeOption (o.1 - prev) o.2).length) o.1 pre := if_pos ho
        rw [hpre', hcount]
    · have hes : entriesFrom offset prev (o :: os) =
          ⟨o.1, offset⟩ :: entriesFrom (offset + (encodeOption (o.1 - prev) o.2).length) o.1 os := if_neg ho
      cases i with
      | zero =>
        obtain ⟨run, post, hos, hrun, hpost⟩ := exists_run hrest (le_refl o.1)
        simp only [hes, getElem_cons_zero]
        exact ⟨[], o :: run, post, by rw [hos]; rfl, by simp, by simp,
          forall_mem_cons.mpr ⟨rfl, hrun⟩, hpost, rfl⟩
      | succ i =>
        simp only [hes, getElem_cons_succ, length_cons] at hi ⊢
        obtain ⟨pre, run, post, hos, hne, hpre, hrun, hpost, hcount⟩ := ih hrest (Nat.lt_of_succ_lt_succ hi)
        refine ⟨o :: pre, run, post, by rw [hos]; rfl, hne, ?_, hrun, hpost, ?_⟩
        · exact forall_mem_cons.mpr ⟨hlt _ (getElem_mem _), hpre⟩
        · have hpre' : entriesFrom offset prev (o :: pre) =
              ⟨o.1, offset⟩ :: entriesFrom (offset + (encodeOption (o.1 - prev) o.2).length) o.1 pre := if_neg ho
          rw [hpre', length_cons, hcount]

/-- The entries of the options before, of those of one number, and of the others. -/
theorem entriesFrom_split (henc : OptionsEncodable 0 (pre ++ (run ++ post))) (hne : run ≠ [])
    (hpre : ∀ o ∈ pre, o.1 < n) (hrun : ∀ o ∈ run, o.1 = n) (hn : 0 < n) :
    entriesFrom h 0 (pre ++ (run ++ post)) = entriesFrom h 0 pre ++ ⟨n, h + (encodeOptions 0 pre).length⟩ ::
        entriesFrom (h + (encodeOptions 0 pre).length + (encodeOptions (lastNumber 0 pre) run).length) n post := by
  have hlast : lastNumber 0 pre < n := by
    rcases @lastNumber_mem 0 pre with hzero | ⟨value, hmem⟩
    · omega
    · exact hpre _ hmem
  obtain ⟨o, run, rfl⟩ := exists_cons_of_ne_nil hne
  obtain ⟨ho, hrun'⟩ := forall_mem_cons.mp hrun
  rw [entriesFrom_append, entriesFrom_append, lastNumber_eq hrun hne]
  simp only [entriesFrom]
  rw [if_neg (by omega), ho, entriesFrom_run hrun']
  rfl

theorem getD_lastNumber (henc : OptionsEncodable prev pre) (rest : List Nat) :
    (prev :: ((entriesFrom offset prev pre).map OptPos.optNum ++ rest)).getD (entriesFrom offset prev pre).length 0 =
      lastNumber prev pre := by
  induction pre generalizing offset prev with
  | nil => rfl
  | cons o pre ih =>
    obtain ⟨hle, -, -, hrest⟩ := henc
    have hih := @ih (offset + (encodeOption (o.1 - prev) o.2).length) o.1 hrest
    rw [lastNumber_cons, ← hih]
    simp only [entriesFrom]
    by_cases ho : o.1 - prev = 0
    · rw [if_pos ho]
      have heq : o.1 = prev := by omega
      rw [heq]
    · rw [if_neg ho, map_cons, length_cons, cons_append, getD_cons_succ]

end Riot.Nanocoap
