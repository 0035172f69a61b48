import Riot.Unicoap.Parse

/-!
# What the parser accepts, and what later calls do to it

The entries of a parsed message tile the bytes in front of the payload marker,
unless a number or a size does not fit its 16 bits. Later calls must not use up
the capacity that the parser leaves, since its last byte is the marker.
-/

namespace Riot.Unicoap

open Riot.Lib Memory List

/-- The entries tile the bytes in front of the marker, or all of them, and have the
sums of the deltas as their numbers; what follows the marker is the payload. -/
def ParseRight (mem : Memory UInt8) (start last : Nat) (message : Message) : Prop :=
  ∃ os tail, slice mem start (last - start) = encodeOptions 0 os ++ tail ∧ OptionsEncodable 0 os ∧
    message.options.optionCount = os.length ∧
    Holds message.options.entries 0 (entriesOf start 0 os) ∧
    (tail = [] ∨ ∃ payload, tail = payloadMarker :: payload ∧ message.payloadSize = payload.length ∧
      (payload ≠ [] → message.payload = start + (encodeOptions 0 os).length + 1))

/-- If the bytes are options and an end, the numbers are less than 2 ^ 16, and so
are the lengths of the encoded options. -/
def InputFits (bytes : List UInt8) : Prop :=
  ∀ os tail, bytes = encodeOptions 0 os ++ tail → OptionsEncodable 0 os →
    (tail = [] ∨ ∃ payload, tail = payloadMarker :: payload) → (∀ o ∈ os, o.1 < 2 ^ 16) ∧ Small os

/-- The condition on a call on parsed options: it is admissible, and the options
after it, if they are few enough, do not use up the capacity. -/
def LeavesRoom (cfg : Cfg) (σ : Session) (c : OptionsCall) : Prop :=
  Admissible cfg σ c ∧
    match σ with
    | .crashed => True
    | .running s os => (c.apply os).length ≤ cfg.optionsMax →
        (encodeOptions 0 (c.apply os)).length ≠ s.options.storageCapacity

/-- The bytes from `a` on are `tail`. -/
def Keeps (a : Nat) (tail : List UInt8) (σ : Session) : Prop :=
  ∃ s os, σ = .running s os ∧ Holds s.mem a tail

variable {cfg : Cfg} {mem : Memory UInt8} {start last a prev : Nat} {message message' : Message}
  {os : List NumberedOption} {tail : List UInt8}

/-! ## Entries -/

theorem parsedEntries_eq (hn : ∀ o ∈ os, o.1 < 2 ^ 16) (hs : ∀ e ∈ entriesOf a prev os, e.size < 2 ^ 16) :
    parsedEntries a prev os = entriesOf a prev os := by
  induction os generalizing a prev with
  | nil => rfl
  | cons o os ih =>
    obtain ⟨hsize, hs⟩ := forall_mem_cons.mp hs
    obtain ⟨hnum, hn⟩ := forall_mem_cons.mp hn
    rw [parsedEntries, entriesOf_cons, ih hn hs, Nat.mod_eq_of_lt hnum, Nat.mod_eq_of_lt hsize]

theorem fits_of_parsedEntries_eq (h : parsedEntries a prev os = entriesOf a prev os) :
    (∀ o ∈ os, o.1 < 2 ^ 16) ∧ ∀ e ∈ entriesOf a prev os, e.size < 2 ^ 16 := by
  induction os generalizing a prev with
  | nil => simp
  | cons o os ih =>
    obtain ⟨he, hrest⟩ := cons.inj h
    obtain ⟨hn, hs⟩ := ih hrest
    have hsize := congrArg OptionEntry.size he
    have hnum := congrArg OptionEntry.number he
    dsimp only at hsize hnum
    exact ⟨forall_mem_cons.mpr ⟨by omega, hn⟩, forall_mem_cons.mpr ⟨by dsimp only; omega, hs⟩⟩

theorem length_parsedEntries : (parsedEntries a prev os).length = os.length := by
  induction os generalizing a prev with
  | nil => rfl
  | cons o os ih => rw [parsedEntries, length_cons, length_cons, ih]

theorem small_of_entries (h : ∀ e ∈ entriesOf a 0 os, e.size < 2 ^ 16) : Small os := by
  intro e he
  obtain ⟨e', he', hs⟩ := size_of_mem_entriesOf (b := a) he
  exact hs ▸ h e' he'

theorem Small.entries (h : Small os) : ∀ e ∈ entriesOf a 0 os, e.size < 2 ^ 16 := by
  intro e he
  obtain ⟨e', he', hs⟩ := size_of_mem_entriesOf (b := 0) he
  exact hs ▸ h e' he'

theorem sum_sizes_entriesOf :
    ((entriesOf a prev os).map OptionEntry.size).sum = (encodeOptions prev os).length := by
  induction os generalizing a prev with
  | nil => rfl
  | cons o os ih => rw [entriesOf_cons, map_cons, sum_cons, ih, encodeOptions_cons, length_append]

/-! ## The message -/

theorem Tail.end_or_marker {c : Nat} (h : Tail start c message message' tail) :
    tail = [] ∨ ∃ payload, tail = payloadMarker :: payload := by
  cases h with
  | none => exact .inl rfl
  | payload bytes => exact .inr ⟨bytes, rfl⟩

/-- The message that the parser starts with. -/
def emptyMessage (start last : Nat) (message : Message) : Message :=
  { message with
    options :=
      { optionCount := 0
        entries := Function.update message.options.entries 0
          { message.options.entries 0 with data := start }
        storageSize := 0
        storageCapacity := last - start } }

/-- The whole input was parsed. -/
abbrev Parsed (cfg : Cfg) (mem : Memory UInt8) (start last : Nat) (message message' : Message)
    (os : List NumberedOption) (tail : List UInt8) : Prop :=
  ParsedRest cfg mem start last start 0 (emptyMessage start last message) message' os tail

/-- The parser stays within the input, and rejects it or parses the whole of it. -/
theorem parse_spec (cfg : Cfg) (mem : Memory UInt8) (message : Message) (hle : start ≤ last) :
    ∃ r message', unicoapPduParseOptionsAndPayload cfg mem start last message = some (r, message') ∧
      (r < 0 ∨ r = 0 ∧ ∃ os tail, Parsed cfg mem start last message message' os tail) := by
  obtain ⟨r, message', hr, hres⟩ := @parseLoop_spec mem start last cfg (last - start) start 0
    (emptyMessage start last message) le_rfl hle le_rfl
  exact ⟨r, message', hr, hres.imp_right fun ⟨hr0, h⟩ => ⟨hr0, h 0 rfl⟩⟩

theorem ParsedRest.slice_eq {c : Nat} (h : ParsedRest cfg mem start last c prev message message' os tail) :
    slice mem c (last - c) = encodeOptions prev os ++ tail := by
  rw [← h.mem.slice_eq]
  congr 1
  have := h.last_eq
  omega

/-- **The entries are right exactly if the numbers and sizes fit.** -/
theorem ParsedRest.right_iff (h : Parsed cfg mem start last message message' os tail) :
    ParseRight mem start last message' ↔ InputFits (slice mem start (last - start)) := by
  have hslice := h.slice_eq
  have hend := h.tail.end_or_marker
  have hcount : message'.options.optionCount = os.length := by
    have := h.count
    simpa [emptyMessage] using this
  constructor
  · rintro ⟨os', tail', heq, henc, -, hentries, htail⟩ os'' tail'' heq'' henc'' hend''
    have hend' : tail' = [] ∨ ∃ payload, tail' = payloadMarker :: payload :=
      htail.imp_right fun ⟨p, hp, _⟩ => ⟨p, hp⟩
    obtain ⟨rfl, rfl⟩ := encodeOptions_unique h.encodable henc hend hend' (hslice.symm.trans heq)
    obtain ⟨rfl, rfl⟩ := encodeOptions_unique h.encodable henc'' hend hend'' (hslice.symm.trans heq'')
    have he := h.entries.eq_of_length hentries (by rw [length_parsedEntries, length_entriesOf])
    obtain ⟨hn, hs⟩ := fits_of_parsedEntries_eq he
    exact ⟨hn, small_of_entries hs⟩
  · intro hfits
    obtain ⟨hn, hs⟩ := hfits os tail hslice h.encodable hend
    have hentries := h.entries
    rw [parsedEntries_eq hn hs.entries] at hentries
    refine ⟨os, tail, hslice, h.encodable, hcount, hentries, ?_⟩
    cases h.tail with
    | none => exact .inl rfl
    | payload bytes hsz hp hc =>
      refine .inr ⟨bytes, rfl, hsz, fun hne => ?_⟩
      rw [hp, if_pos (length_pos_of_ne_nil hne)]

theorem ParsedRest.stored (h : Parsed cfg mem start last message message' os tail) (hstart : start ≠ 0)
    (hn : ∀ o ∈ os, o.1 < 2 ^ 16) (hs : Small os) : Stored cfg start ⟨mem, message'.options⟩ os := by
  have hentries := h.entries
  have hsize := h.size
  have hcount := h.count
  have hmem := h.mem
  have hlast := h.last_eq
  rw [parsedEntries_eq hn hs.entries] at hentries hsize
  rw [sum_sizes_entriesOf] at hsize
  rw [holds_append] at hmem
  rw [length_append] at hlast
  simp only [emptyMessage, zero_add] at hsize hcount
  refine ⟨hstart, ?_, hcount, ?_, hsize, ?_, hentries, hmem.1, ⟨h.encodable, hn, hs⟩⟩
  · by_cases hos : os = []
    · rw [h.empty hos]
      simp [emptyMessage]
    · exact data_of_entries hentries hos
  · by_cases hos : os = []
    · simp [hos]
    · exact hcount ▸ h.count_le hos
  · dsimp only
    cases h.tail with
    | none hc =>
      rw [hc]
      simp only [emptyMessage]
      omega
    | payload bytes _ _ hc =>
      omega

/-! ## Later calls -/

/-- The object stands for options, has room behind them, and the end is in place. -/
def TailInv (cfg : Cfg) (base capacity : Nat) (tail : List UInt8) (σ : Session) : Prop :=
  ∃ s os, σ = .running s os ∧ Stored cfg base s os ∧ s.options.storageCapacity = capacity ∧
    s.options.storageSize < capacity ∧ Holds s.mem (base + (capacity - 1)) tail

theorem TailInv.step {base capacity : Nat} {σ σ' : Session} {c : OptionsCall}
    (hinv : TailInv cfg base capacity tail σ) (hok : LeavesRoom cfg σ c)
    (hstep : sessionStep cfg σ c = some σ') : TailInv cfg base capacity tail σ' := by
  obtain ⟨s, os, rfl, h, rfl, hroom, htail⟩ := hinv
  obtain ⟨r, s', hexec, hres⟩ := h.outcome hok.1
  simp only [sessionStep, hexec, Option.some.injEq] at hstep
  subst hstep
  obtain ⟨hr, rfl⟩ | ⟨rfl, hs⟩ := hres
  · rw [if_pos hr]
    exact ⟨s', os, rfl, h, rfl, hroom, htail⟩
  · have hne := hok.2 hs.stored.count_le
    rw [← hs.stored.size] at hne
    have hle := hs.stored.size_le
    rw [hs.capacity] at hle
    refine ⟨s', c.apply os, rfl, hs.stored, hs.capacity, by omega, htail.congr fun a ha _ => ?_⟩
    exact hs.frame a (.inr (by omega))

/-- **Later calls keep the payload.** -/
theorem ParsedRest.keeps {payload : List UInt8} {cs : List OptionsCall}
    (h : Parsed cfg mem start last message message' os (payloadMarker :: payload)) (hstart : start ≠ 0)
    (hn : ∀ o ∈ os, o.1 < 2 ^ 16) (hs : Small os)
    (hok : Along (sessionStep cfg) (LeavesRoom cfg) (.running ⟨mem, message'.options⟩ os) cs) :
    Always (sessionStep cfg) (Keeps (start + (encodeOptions 0 os).length) (payloadMarker :: payload))
      (.running ⟨mem, message'.options⟩ os) cs := by
  have hstored := h.stored hstart hn hs
  have hsize := hstored.size
  have hmem := h.mem
  rw [holds_append] at hmem
  have hcap : message'.options.storageCapacity = (encodeOptions 0 os).length + 1 := by
    cases h.tail with
    | payload _ _ _ hc =>
      omega
  refine always_of_along
    (I := TailInv cfg start ((encodeOptions 0 os).length + 1) (payloadMarker :: payload)) ?_ ?_ cs ?_ hok
  · rintro σ ⟨s, os, rfl, -, -, -, htail⟩
    exact ⟨s, os, rfl, htail⟩
  · intro σ c σ' hinv hok hstep
    exact hinv.step hok hstep
  · exact ⟨_, _, rfl, hstored, hcap, by omega, hmem.2⟩

/-- **The parser on arbitrary bytes.** It reads inside of them only; it rejects
them, or its entries are right exactly if numbers and sizes fit; and then calls
that do not use up the capacity leave marker and payload as they are. -/
theorem parse_right (cfg : Cfg) (mem : Memory UInt8) (start last : Nat) (message : Message)
    (hstart : start ≠ 0) (hle : start ≤ last) :
    ∃ r message', unicoapPduParseOptionsAndPayload cfg mem start last message = some (r, message') ∧
      (r < 0 ∨ r = 0 ∧
        (ParseRight mem start last message' ↔ InputFits (slice mem start (last - start))) ∧
        (InputFits (slice mem start (last - start)) → ∀ os payload,
          slice mem start (last - start) = encodeOptions 0 os ++ payloadMarker :: payload →
          OptionsEncodable 0 os → ∀ cs,
          Along (sessionStep cfg) (LeavesRoom cfg) (.running ⟨mem, message'.options⟩ os) cs →
          Always (sessionStep cfg) (Keeps (start + (encodeOptions 0 os).length) (payloadMarker :: payload))
            (.running ⟨mem, message'.options⟩ os) cs)) := by
  obtain ⟨r, message', hr, hres⟩ := parse_spec cfg mem message hle
  refine ⟨r, message', hr, hres.imp_right fun ⟨hr0, os, tail, h⟩ => ⟨hr0, h.right_iff, ?_⟩⟩
  intro hfits os' payload heq henc cs hok
  obtain ⟨rfl, rfl⟩ := encodeOptions_unique h.encodable henc h.tail.end_or_marker (.inr ⟨payload, rfl⟩)
    (h.slice_eq.symm.trans heq)
  obtain ⟨hn, hs⟩ := hfits os _ heq henc (.inr ⟨payload, rfl⟩)
  exact h.keeps hstart hn hs hok

/-! ## Inputs -/

theorem inputFits_of_eq {bytes : List UInt8} (heq : bytes = encodeOptions 0 os ++ tail)
    (henc : OptionsEncodable 0 os) (hend : tail = [] ∨ ∃ payload, tail = payloadMarker :: payload)
    (hfits : (∀ o ∈ os, o.1 < 2 ^ 16) ∧ Small os) : InputFits bytes := by
  intro os' tail' heq' henc' hend'
  obtain ⟨rfl, rfl⟩ := encodeOptions_unique henc henc' hend hend' (heq.symm.trans heq')
  exact hfits

/-- The bytes `s` from address 1 on. -/
def inputAt (s : List UInt8) : Memory UInt8 := store (fun _ => 0) 1 s

/-- A message that was not used before. -/
def freshMessage : Message := ⟨⟨0, 0, fun _ => ⟨0, 0, 0⟩, 0⟩, 0, 0⟩

/-- The option 5 with a one byte value, the marker and one byte of payload. -/
theorem parse_right_payload : ∃ message',
    unicoapPduParseOptionsAndPayload ⟨16⟩ (inputAt [0x51, 0xAA, 0xFF, 0x42]) 1 5 freshMessage =
      some (0, message') ∧
    ParseRight (inputAt [0x51, 0xAA, 0xFF, 0x42]) 1 5 message' ∧
    Always (sessionStep ⟨16⟩) (Keeps 3 [payloadMarker, 0x42])
      (.running ⟨inputAt [0x51, 0xAA, 0xFF, 0x42], message'.options⟩ [(5, [0xAA])]) [.set 5 []] := by
  have heq : slice (inputAt [0x51, 0xAA, 0xFF, 0x42]) 1 (5 - 1) =
      encodeOptions 0 [(5, [0xAA])] ++ payloadMarker :: [0x42] := by decide
  have henc : OptionsEncodable 0 [(5, [0xAA])] := by simp [fieldMax]
  have hfits := inputFits_of_eq heq henc (.inr ⟨_, rfl⟩) (by decide)
  obtain ⟨r, message', hr, hres⟩ :=
    parse_right ⟨16⟩ (inputAt [0x51, 0xAA, 0xFF, 0x42]) 1 5 freshMessage (by decide) (by decide)
  have hok : (unicoapPduParseOptionsAndPayload ⟨16⟩ (inputAt [0x51, 0xAA, 0xFF, 0x42]) 1 5
      freshMessage).any (fun (r, message') => r = 0 ∧ message'.options.storageCapacity = 3) = true := by
    decide
  rw [hr] at hok
  obtain ⟨rfl, hcap⟩ := of_decide_eq_true hok
  obtain hneg | ⟨-, hiff, hkeep⟩ := hres
  · exact absurd hneg (by decide)
  refine ⟨message', hr, hiff.mpr hfits, hkeep hfits _ _ heq henc _ ?_⟩
  unfold Along
  split
  · refine ⟨⟨⟨by decide, fun _ _ => ⟨by decide, fun hmoves => absurd hmoves (by decide)⟩⟩, fun _ => ?_⟩, trivial⟩
    rw [hcap]
    decide
  · trivial

/-- A number above 65535 is reduced; and the first option that is added to a message
without options overwrites the marker. -/
theorem not_parse_right :
    (∃ message', unicoapPduParseOptionsAndPayload ⟨16⟩ (inputAt [0xE0, 0xFE, 0xF2, 0x20]) 1 5
        freshMessage = some (0, message') ∧
      ¬ ParseRight (inputAt [0xE0, 0xFE, 0xF2, 0x20]) 1 5 message') ∧
    ∃ message' s', unicoapPduParseOptionsAndPayload ⟨16⟩ (inputAt [0xFF, 0x42]) 1 3
        freshMessage = some (0, message') ∧
      unicoapOptionsAdd ⟨16⟩ ⟨inputAt [0xFF, 0x42], message'.options⟩ 1 [] = some (0, s') ∧
      s'.mem 1 ≠ payloadMarker := by
  constructor
  · obtain ⟨r, message', hr, hres⟩ :=
      @parse_spec 1 5 ⟨16⟩ (inputAt [0xE0, 0xFE, 0xF2, 0x20]) freshMessage (by decide)
    have hok : (unicoapPduParseOptionsAndPayload ⟨16⟩ (inputAt [0xE0, 0xFE, 0xF2, 0x20]) 1 5
        freshMessage).any (fun (r, _) => r = 0) = true := by
      decide
    rw [hr] at hok
    obtain rfl : r = 0 := of_decide_eq_true hok
    obtain hneg | ⟨-, os, tail, h⟩ := hres
    · exact absurd hneg (by decide)
    refine ⟨message', hr, fun hright => ?_⟩
    obtain ⟨hn, -⟩ := h.right_iff.mp hright [(65535, []), (65537, [])] [] (by decide) (by simp [fieldMax])
      (.inl rfl)
    exact absurd (hn (65537, []) (by simp)) (by decide)
  · have hbad : (unicoapPduParseOptionsAndPayload ⟨16⟩ (inputAt [0xFF, 0x42]) 1 3 freshMessage).any
        (fun (r, message') => r = 0 ∧
          (unicoapOptionsAdd ⟨16⟩ ⟨inputAt [0xFF, 0x42], message'.options⟩ 1 []).any
            fun (r, s') => r = 0 ∧ s'.mem 1 ≠ payloadMarker) = true := by
      decide
    obtain ⟨⟨r, message'⟩, hr, hadd⟩ := (Option.any_eq_true _ _).mp hbad
    obtain ⟨hr0, hadd⟩ := of_decide_eq_true hadd
    obtain ⟨⟨r', s'⟩, hs, hmem⟩ := (Option.any_eq_true _ _).mp hadd
    obtain ⟨hr0', hmark⟩ := of_decide_eq_true hmem
    subst hr0 hr0'
    exact ⟨message', s', hr, hs, hmark⟩

end Riot.Unicoap
