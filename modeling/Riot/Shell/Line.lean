import Riot.Lib.CString

/-!
# The input line of the shell

`shell_handle_input_line` breaks a line into words in the buffer the line is in: what a word
consists of is moved to the front and terminated there, the words are counted on the way, and `argv`
is found afterwards by walking over the terminated strings.
-/

namespace Riot.Shell

open Riot.Lib Memory List

def SQUOTE : Char := '\''
def DQUOTE : Char := '"'
def ESCAPECHAR : Char := '\\'
def SPACE : Char := ' '
def TAB : Char := '\t'

/-- `enum parse_state` -/
inductive ParseState where
  | blank
  | unquoted
  | singlequote
  | doublequote
  | unquotedEsc
  | singlequoteEsc
  | doublequoteEsc
deriving DecidableEq, Repr

/-- `escape_toggle`, which flips the bit that an escaped state and its pair differ in. `PARSE_BLANK`
has no pair and is never toggled. -/
def escapeToggle : ParseState → ParseState
  | .blank => .blank
  | .unquoted => .unquotedEsc
  | .singlequote => .singlequoteEsc
  | .doublequote => .doublequoteEsc
  | .unquotedEsc => .unquoted
  | .singlequoteEsc => .singlequote
  | .doublequoteEsc => .doublequote

/-- The variables of the loop over the line. -/
structure Parser where
  m : Memory Char
  argc : Nat
  readpos : Nat
  writepos : Nat
  pstate : ParseState

/-- `*writepos++ = c` -/
def Parser.put (s : Parser) (c : Char) : Parser :=
  { s with m := s.m.store s.writepos [c], writepos := s.writepos + 1 }

/-- What is done in a quoted state, where `wordbreak` ends the quotation. -/
def Parser.quoted (s : Parser) (wordbreak : Char) : Parser :=
  let c := s.m s.readpos
  if c = wordbreak then
    if wordbreak = SQUOTE ∨ wordbreak = DQUOTE then { s with pstate := .unquoted } else s
  else if c = ESCAPECHAR then { s with pstate := escapeToggle s.pstate }
  else s.put c

/-- The body of the loop over the line. -/
def Parser.step (s : Parser) : Parser :=
  let c := s.m s.readpos
  match s.pstate with
  | .blank =>
    let s := if c ≠ SPACE ∧ c ≠ TAB then { s with argc := s.argc + 1 } else s
    if c = SQUOTE then { s with pstate := .singlequote }
    else if c = DQUOTE then { s with pstate := .doublequote }
    else if c = ESCAPECHAR then { s with pstate := .unquotedEsc }
    else if c ≠ SPACE ∧ c ≠ TAB then { s with pstate := .unquoted }.put c
    else s
  | .unquoted =>
    if c = SQUOTE then { s with pstate := .singlequote }
    else if c = DQUOTE then { s with pstate := .doublequote }
    else if c = ESCAPECHAR then { s with pstate := escapeToggle s.pstate }
    else if c = SPACE ∨ c = TAB then { s with pstate := .blank }.put '\x00'
    else s.put c
  | .singlequote => s.quoted SQUOTE
  | .doublequote => s.quoted DQUOTE
  | _ => { s with pstate := escapeToggle s.pstate }.put c

/-- The loop over the line, which must end within the next `n` cells. -/
def Parser.run : Nat → Parser → Option Parser
  | 0, _ => none
  | n + 1, s =>
    if s.m s.readpos = '\x00' then some s
    else
      let s := s.step
      run n { s with readpos := s.readpos + 1 }

/-- A command list and the commands of the cross-file array, in the order of their search. A handler
is known by its number here. -/
structure Commands where
  commandList : Option (List (List Char × Nat))
  xfa : List (List Char × Nat)
  /-- `MODULE_SHELL_BUILTIN_CMD_HELP_JSON` -/
  helpJson : Bool

/-- `search_commands` and `search_commands_xfa` -/
def searchCommands (entries : List (List Char × Nat)) (command : List Char) : Option Nat :=
  (entries.find? fun e => e.1 = command).map Prod.snd

def findHandler (cmds : Commands) (command : List Char) : Option Nat :=
  match cmds.commandList.bind (searchCommands · command) with
  | some handler => some handler
  | none => searchCommands cmds.xfa command

/-- What `shell_handle_input_line` does with a line. -/
inductive Outcome where
  /-- `shell: incorrect quoting`, and `-EINVAL` -/
  | rejected
  /-- nothing, and 0 -/
  | nothing
  /-- `handler(argc, argv)` with the line as it is in memory then -/
  | call (handler argc : Nat) (argv : List (Option Nat)) (m : Memory Char)
  /-- `print_help`, and 0 -/
  | help
  /-- `print_commands_json`, and `-ENOEXEC` -/
  | helpJson
  /-- `shell: command not found`, and `-ENOEXEC` -/
  | notFound (argv0 : Nat) (m : Memory Char)

/-- The string at `p`, as `strcmp` sees it, in a buffer that ends at `lim`. -/
def strAt (m : Memory Char) (lim p : Nat) : List Char :=
  slice m p ((strlen '\x00' m (lim - p) p).getD 0)

/-- `shell_handle_input_line` for a line in the buffer from `line` to `lim`; `none` if it reads
behind the buffer. -/
def shellHandleInputLine (cmds : Commands) (m : Memory Char) (line lim : Nat) : Option Outcome :=
  match Parser.run (lim - line) { m := m, argc := 0, readpos := line, writepos := line, pstate := .blank } with
  | none => none
  | some s =>
    let m := s.m.store s.writepos ['\x00']
    if s.pstate ≠ .blank ∧ s.pstate ≠ .unquoted then some .rejected
    else if s.argc = 0 then some .nothing
    else
      match walk '\x00' m lim s.argc line with
      | none => none
      | some argv =>
        let command := strAt m lim (argv.headD line)
        match findHandler cmds command with
        | some handler => some (.call handler s.argc (argv.map some ++ [none]) m)
        | none =>
          if "help".toList = command then some .help
          else if cmds.helpJson ∧ "help_json".toList = command then some .helpJson
          else some (.notFound (argv.headD line) m)

/-! ## The documented state machine -/

/-- The state that the documentation of `shell_handle_input_line` changes to from a state when a
character was read, and whether the character is stored. -/
def transit : ParseState → Char → ParseState × Bool
  | .blank, c =>
    if c = SQUOTE then (.singlequote, false)
    else if c = DQUOTE then (.doublequote, false)
    else if c = ESCAPECHAR then (.unquotedEsc, false)
    else if c = SPACE ∨ c = TAB then (.blank, false)
    else (.unquoted, true)
  | .unquoted, c =>
    if c = SQUOTE then (.singlequote, false)
    else if c = DQUOTE then (.doublequote, false)
    else if c = SPACE ∨ c = TAB then (.blank, false)
    else if c = ESCAPECHAR then (.unquotedEsc, false)
    else (.unquoted, true)
  | .unquotedEsc, _ => (.unquoted, true)
  | .singlequote, c =>
    if c = SQUOTE then (.unquoted, false)
    else if c = ESCAPECHAR then (.singlequoteEsc, false)
    else (.singlequote, true)
  | .singlequoteEsc, _ => (.singlequote, true)
  | .doublequote, c =>
    if c = DQUOTE then (.unquoted, false)
    else if c = ESCAPECHAR then (.doublequoteEsc, false)
    else (.doublequote, true)
  | .doublequoteEsc, _ => (.doublequote, true)

/-- The state, the words read so far and what has been stored of the word being read. -/
structure Words where
  pstate : ParseState
  words : List (List Char)
  word : List Char
deriving DecidableEq, Repr

/-- A word is broken off by the transition to `PARSE_BLANK`. -/
def Words.read (d : Words) (c : Char) : Words :=
  let t := transit d.pstate c
  if t.1 = .blank then
    if d.pstate = .blank then d
    else { pstate := .blank, words := d.words ++ [d.word], word := [] }
  else { d with pstate := t.1, word := if t.2 then d.word ++ [c] else d.word }

/-- What there is before a line. -/
def Words.start : Words := { pstate := .blank, words := [], word := [] }

/-- The words at the end of a line, unless this is within a quotation or behind an escape
character. -/
def Words.finish (d : Words) : Option (List (List Char)) :=
  match d.pstate with
  | .blank => some d.words
  | .unquoted => some (d.words ++ [d.word])
  | _ => none

/-- The words of a line. -/
def arguments (l : List Char) : Option (List (List Char)) := (l.foldl Words.read .start).finish

/-! ## The code follows it -/

/-- Counting a word when it begins and entering the state that a transition leads to. -/
def Parser.enter (s : Parser) (st : ParseState) : Parser :=
  { s with argc := if s.pstate = .blank ∧ st ≠ .blank then s.argc + 1 else s.argc, pstate := st }

theorem Parser.step_eq (s : Parser) : s.step = let t := transit s.pstate (s.m s.readpos)
      let s' := s.enter t.1
      if t.2 then s'.put (s.m s.readpos)
      else if s.pstate ≠ .blank ∧ t.1 = .blank then s'.put '\x00'
      else s' := by
  obtain ⟨m, argc, readpos, writepos, pstate⟩ := s
  generalize hc : m readpos = c
  have hne : DQUOTE ≠ SQUOTE ∧ ESCAPECHAR ≠ SQUOTE ∧ ESCAPECHAR ≠ DQUOTE ∧ SQUOTE ≠ SPACE ∧
      SQUOTE ≠ TAB ∧ DQUOTE ≠ SPACE ∧ DQUOTE ≠ TAB ∧ ESCAPECHAR ≠ SPACE ∧ ESCAPECHAR ≠ TAB := by
    decide
  cases pstate with
  | blank =>
    simp only [Parser.step, transit, Parser.enter, Parser.put, hc]
    by_cases h1 : c = SQUOTE
    · simp [h1, hne]
    by_cases h2 : c = DQUOTE
    · simp [h2, hne]
    by_cases h3 : c = ESCAPECHAR
    · simp [h3, hne]
    by_cases h4 : c = SPACE ∨ c = TAB
    · simp [h1, h2, h3, h4, ← not_or]
    · simp [h1, h2, h3, h4, ← not_or]
  | unquoted =>
    simp only [Parser.step, transit, Parser.enter, Parser.put, escapeToggle, hc]
    by_cases h1 : c = SQUOTE
    · simp [h1]
    by_cases h2 : c = DQUOTE
    · simp [h2, hne]
    by_cases h3 : c = ESCAPECHAR
    · simp [h3, hne]
    by_cases h4 : c = SPACE ∨ c = TAB
    · simp [h1, h2, h3, h4]
    · simp [h1, h2, h3, h4]
  | singlequote =>
    simp only [Parser.step, Parser.quoted, transit, Parser.enter, Parser.put, escapeToggle, hc]
    split_ifs <;> simp_all
  | doublequote =>
    simp only [Parser.step, Parser.quoted, transit, Parser.enter, Parser.put, escapeToggle, hc]
    split_ifs <;> simp_all
  | unquotedEsc => simp [Parser.step, transit, Parser.enter, Parser.put, escapeToggle, hc]
  | singlequoteEsc => simp [Parser.step, transit, Parser.enter, Parser.put, escapeToggle, hc]
  | doublequoteEsc => simp [Parser.step, transit, Parser.enter, Parser.put, escapeToggle, hc]

theorem Parser.step_readpos (s : Parser) : s.step.readpos = s.readpos := by
  rw [Parser.step_eq]
  dsimp only
  split_ifs <;> rfl

/-- What is in the buffer of the words read so far. -/
def Words.stored (d : Words) : List Char := d.words.flatMap (· ++ ['\x00']) ++ d.word

/-- The loop has got to where `rest` is left to read. -/
structure Tracks (line : Nat) (rest : List Char) (s : Parser) (d : Words) : Prop where
  pstate : s.pstate = d.pstate
  argc : s.argc = d.words.length + if d.pstate = .blank then 0 else 1
  word_blank : d.pstate = .blank → d.word = []
  writepos : s.writepos = line + d.stored.length
  stored : Holds s.m line d.stored
  writepos_le : s.writepos ≤ s.readpos
  rest : Holds s.m s.readpos (rest ++ ['\x00'])
  words_nul : ∀ w ∈ d.words, '\x00' ∉ w
  word_nul : '\x00' ∉ d.word

theorem transit_blank {st : ParseState} {c : Char} (h : (transit st c).1 = .blank) :
    (transit st c).2 = false := by
  cases st <;> simp only [transit] at h ⊢ <;> (try split_ifs at h ⊢) <;> first | rfl | cases h

theorem Words.stored_break (d : Words) :
    ({ pstate := .blank, words := d.words ++ [d.word], word := [] } : Words).stored =
      d.stored ++ ['\x00'] := by
  simp only [Words.stored, flatMap_append, flatMap_singleton, append_nil, append_assoc]

variable {line : Nat} {c : Char} {cs : List Char} {s : Parser} {d : Words}

/-- Writing to the buffer extends what is stored and leaves alone what is still to be read. -/
theorem Tracks.put (h : Tracks line (c :: cs) s d) (x : Char) :
    Holds (s.m.store s.writepos [x]) line (d.stored ++ [x]) ∧
      Holds (s.m.store s.writepos [x]) (s.readpos + 1) (cs ++ ['\x00']) := by
  have hle := h.writepos_le
  refine ⟨?_, h.rest.2.store (.inr (by rw [length_singleton]; omega))⟩
  rw [holds_append, h.writepos]
  exact ⟨h.stored.store (.inl le_rfl), holds_store⟩

theorem Tracks.step (h : Tracks line (c :: cs) s d) (hc : c ≠ '\x00') :
    Tracks line cs { s.step with readpos := s.readpos + 1 } (d.read c) := by
  have hread : s.m s.readpos = c := h.rest.1
  have hle := h.writepos_le
  have hwrite := h.writepos
  have hargc := h.argc
  rw [Parser.step_eq, hread, h.pstate]
  unfold Words.read
  dsimp only
  by_cases hb : (transit d.pstate c).1 = .blank
  · rw [transit_blank hb, hb, if_neg (by simp), if_pos rfl]
    by_cases hd : d.pstate = .blank
    · -- another blank between words
      rw [if_neg (by simp [hd]), if_pos hd]
      refine ⟨?_, ?_, h.word_blank, hwrite, h.stored, Nat.le_succ_of_le hle, h.rest.2, h.words_nul,
        h.word_nul⟩
      · exact hd.symm
      · simp [Parser.enter, hargc]
    · -- a blank ends the word
      obtain ⟨hstored, hrest⟩ := h.put '\x00'
      rw [if_pos ⟨hd, rfl⟩, if_neg hd]
      refine ⟨rfl, ?_, fun _ => rfl, ?_, ?_, ?_, hrest, ?_, by simp⟩
      · simp [Parser.enter, Parser.put, hargc, hd]
      · show s.writepos + 1 = _
        rw [Words.stored_break, length_append, length_singleton, hwrite, add_assoc]
      · rw [Words.stored_break]
        exact hstored
      · exact Nat.succ_le_succ hle
      · intro w hw
        rcases mem_append.mp hw with hw | hw
        · exact h.words_nul w hw
        · rw [mem_singleton.mp hw]
          exact h.word_nul
  · have hcount : (s.enter (transit d.pstate c).1).argc = d.words.length + 1 := by
      rw [Parser.enter, h.pstate, hargc]
      by_cases hd : d.pstate = .blank
      · simp [hd] at hb ⊢
        simp [hb]
      · simp [hd]
    by_cases hstore : (transit d.pstate c).2 = true
    · obtain ⟨hstored, hrest⟩ := h.put c
      have happend : ({ pstate := (transit d.pstate c).1, words := d.words, word := d.word ++ [c] } :
          Words).stored = d.stored ++ [c] := (append_assoc _ _ _).symm
      rw [if_pos hstore, if_neg hb, if_pos hstore]
      refine ⟨rfl, ?_, fun hblank => absurd hblank hb, ?_, ?_, ?_, hrest, h.words_nul, ?_⟩
      · rw [if_neg hb]
        exact hcount
      · show s.writepos + 1 = _
        rw [happend, length_append, length_singleton, hwrite, add_assoc]
      · rw [happend]
        exact hstored
      · exact Nat.succ_le_succ hle
      · rw [mem_append, mem_singleton]
        exact fun hmem => hmem.elim h.word_nul fun heq => hc heq.symm
    · rw [if_neg hstore, if_neg (fun hboth => hb hboth.2), if_neg hb, if_neg hstore]
      refine ⟨rfl, ?_, fun hblank => absurd hblank hb, hwrite, h.stored, Nat.le_succ_of_le hle,
        h.rest.2, h.words_nul, h.word_nul⟩
      rw [if_neg hb]
      exact hcount

theorem Tracks.run {l : List Char} {n : Nat} (h : Tracks line l s d) (hl : '\x00' ∉ l) (hn : l.length < n) :
    ∃ s', Parser.run n s = some s' ∧ Tracks line [] s' (l.foldl Words.read d) ∧
      s'.readpos = s.readpos + l.length := by
  induction l generalizing s d n with
  | nil =>
    obtain ⟨n, rfl⟩ : ∃ k, n = k + 1 := ⟨n - 1, by simp only [length_nil] at hn; omega⟩
    exact ⟨s, by rw [Parser.run, if_pos h.rest.1], h, rfl⟩
  | cons c cs ih =>
    rw [length_cons] at hn
    obtain ⟨n, rfl⟩ : ∃ k, n = k + 1 := ⟨n - 1, by omega⟩
    have hc : c ≠ '\x00' := fun heq => hl (heq ▸ mem_cons_self)
    have hread : s.m s.readpos = c := h.rest.1
    have hcs : '\x00' ∉ cs := fun hmem => hl (mem_cons_of_mem c hmem)
    obtain ⟨s', hrun, htracks, hpos⟩ := ih (n := n) (h.step hc) hcs (by omega)
    refine ⟨s', ?_, htracks, ?_⟩
    · rw [Parser.run, if_neg (by rwa [hread])]
      dsimp only
      rw [Parser.step_readpos]
      exact hrun
    · rw [hpos, length_cons]
      show s.readpos + 1 + cs.length = _
      omega

/-- At the end of a line that is accepted the words stand one behind the other. -/
theorem Tracks.finish {ws : List (List Char)} (h : Tracks line [] s d)
    (hws : ws = if d.pstate = .blank then d.words else d.words ++ [d.word]) :
    Holds (s.m.store s.writepos ['\x00']) line (ws.flatMap (· ++ ['\x00'])) ∧
      s.argc = ws.length ∧ (∀ w ∈ ws, '\x00' ∉ w) ∧
      line + (ws.flatMap (· ++ ['\x00'])).length ≤ s.writepos + 1 := by
  have hholds : Holds (s.m.store s.writepos ['\x00']) line (d.stored ++ ['\x00']) := by
    rw [holds_append, h.writepos]
    exact ⟨h.stored.store (.inl le_rfl), holds_store⟩
  have hwrite := h.writepos
  have hargc := h.argc
  by_cases hd : d.pstate = .blank
  · rw [if_pos hd] at hws hargc
    have hstored : d.stored = ws.flatMap (· ++ ['\x00']) := by
      rw [Words.stored, h.word_blank hd, append_nil, hws]
    rw [hstored, holds_append] at hholds
    rw [hstored] at hwrite
    exact ⟨hholds.1, by rw [hargc, hws, add_zero], hws ▸ h.words_nul, by omega⟩
  · rw [if_neg hd] at hws hargc
    have hstored : d.stored ++ ['\x00'] = ws.flatMap (· ++ ['\x00']) := by
      rw [← Words.stored_break, Words.stored, append_nil, hws]
    rw [hstored] at hholds
    have hlen := congrArg length hstored
    rw [length_append, length_singleton] at hlen
    refine ⟨hholds, by rw [hargc, hws, length_append, length_singleton], ?_, by omega⟩
    intro w hw
    rw [hws] at hw
    rcases mem_append.mp hw with hw | hw
    · exact h.words_nul w hw
    · rw [mem_singleton.mp hw]
      exact h.word_nul

/-! ## What is done with a line -/

/-- The command named by the first word is called with all of them; without a word nothing is done. -/
def Answers (cmds : Commands) (r : Option Outcome) : List (List Char) → Prop
  | [] => r = some .nothing
  | command :: args => ∃ m argv0 argv,
      List.Forall₂ (fun p w => Holds m p (w ++ ['\x00'])) (argv0 :: argv) (command :: args) ∧
      r = some (match findHandler cmds command with
        | some handler => .call handler (args.length + 1) (some argv0 :: (argv.map some ++ [none])) m
        | none =>
          if "help".toList = command then .help
          else if cmds.helpJson ∧ "help_json".toList = command then .helpJson
          else .notFound argv0 m)

/-- The state a line ends in. -/
def endState (l : List Char) : ParseState := (l.foldl Words.read .start).pstate

variable {cmds : Commands} {m : Memory Char} {lim : Nat} {l : List Char} {ws : List (List Char)}

theorem Tracks.start (hm : Holds m line (l ++ ['\x00'])) :
    Tracks line l { m := m, argc := 0, readpos := line, writepos := line, pstate := .blank } .start :=
  ⟨rfl, rfl, fun _ => rfl, rfl, holds_nil, le_rfl, hm, by simp [Words.start], by simp [Words.start]⟩

theorem shellHandleInputLine_rejected (hm : Holds m line (l ++ ['\x00'])) (hl : '\x00' ∉ l)
    (hlim : line + l.length < lim) (hend : endState l ≠ .blank ∧ endState l ≠ .unquoted) :
    shellHandleInputLine cmds m line lim = some .rejected := by
  obtain ⟨s, hrun, htracks, hpos⟩ := (Tracks.start hm).run hl (n := lim - line) (by omega)
  have hstate : s.pstate = endState l := htracks.pstate
  rw [shellHandleInputLine, hrun]
  dsimp only
  rw [hstate, if_pos hend]

theorem arguments_eq_some (h : arguments l = some ws) : ¬(endState l ≠ .blank ∧ endState l ≠ .unquoted) ∧
      ws = if (l.foldl Words.read .start).pstate = .blank then (l.foldl Words.read .start).words
        else (l.foldl Words.read .start).words ++ [(l.foldl Words.read .start).word] := by
  simp only [arguments, Words.finish] at h
  split at h
  · next hb => exact ⟨fun hne => hne.1 hb, by rw [if_pos hb, ← Option.some.inj h]⟩
  · next hu =>
    exact ⟨fun hne => hne.2 hu, by rw [if_neg (by rw [hu]; decide), ← Option.some.inj h]⟩
  · cases h

theorem shellHandleInputLine_answers (hm : Holds m line (l ++ ['\x00'])) (hl : '\x00' ∉ l)
    (hlim : line + l.length < lim) (hws : arguments l = some ws) :
    Answers cmds (shellHandleInputLine cmds m line lim) ws := by
  obtain ⟨s, hrun, htracks, hpos⟩ := (Tracks.start hm).run hl (n := lim - line) (by omega)
  have hstate : s.pstate = endState l := htracks.pstate
  have hle := htracks.writepos_le
  dsimp only at hpos
  -- the line is accepted
  obtain ⟨hend, hlist⟩ := arguments_eq_some hws
  obtain ⟨hholds, hargc, hnul, hlen⟩ := htracks.finish hlist
  rw [shellHandleInputLine, hrun]
  dsimp only
  rw [hstate, if_neg hend, hargc]
  cases ws with
  | nil => exact if_pos rfl
  | cons command args =>
    obtain ⟨ps, hwalk, hall⟩ := @walk_eq _ _ _ _ _ lim _ hholds hnul (by omega)
    rw [if_neg (by simp), hwalk]
    dsimp only
    cases hall with
    | @cons argv0 _ argv _ hcommand hargs =>
      have hname : strAt (s.m.store s.writepos ['\x00']) lim argv0 = command := by
        rw [strAt, strlen_eq hcommand.1 (hnul command mem_cons_self) (by omega), Option.getD_some]
        exact (holds_append.mp hcommand.1).1.slice_eq
      refine ⟨_, argv0, argv, .cons hcommand.1 (hargs.imp fun _ _ h => h.1), ?_⟩
      rw [headD_cons, hname, length_cons]
      split
      · rfl
      · split
        · rfl
        · split <;> rfl

/-! ## Quoting -/

/-- `w` with a backslash in front of every backslash and double quote. -/
def escaped (w : List Char) : List Char :=
  w.flatMap fun c => if c = ESCAPECHAR ∨ c = DQUOTE then [ESCAPECHAR, c] else [c]

def quoteArg (w : List Char) : List Char := DQUOTE :: (escaped w ++ [DQUOTE])

/-- The quoted arguments with `sep` between them. -/
def quoteLine (sep : List Char) : List (List Char) → List Char
  | [] => []
  | [w] => quoteArg w
  | w :: ws => quoteArg w ++ (sep ++ quoteLine sep ws)

variable {w v sep : List Char}

theorem read_escaped (ws : List (List Char)) (v : List Char) :
    (escaped w).foldl Words.read ⟨.doublequote, ws, v⟩ = ⟨.doublequote, ws, v ++ w⟩ := by
  induction w generalizing v with
  | nil => rw [append_nil]; rfl
  | cons c w ih =>
    rw [escaped, flatMap_cons, foldl_append, ← escaped]
    have hstep : (if c = ESCAPECHAR ∨ c = DQUOTE then [ESCAPECHAR, c] else [c]).foldl Words.read
        ⟨.doublequote, ws, v⟩ = ⟨.doublequote, ws, v ++ [c]⟩ := by
      split
      · rfl
      · next h =>
        have hn := not_or.mp h
        simp [Words.read, transit, hn.1, hn.2]
    rw [hstep, ih, append_assoc, singleton_append]

theorem read_quoteArg (ws : List (List Char)) :
    (quoteArg w).foldl Words.read ⟨.blank, ws, []⟩ = ⟨.unquoted, ws, w⟩ := by
  rw [quoteArg, foldl_cons, foldl_append,
    show Words.read ⟨.blank, ws, []⟩ DQUOTE = ⟨.doublequote, ws, []⟩ from rfl, read_escaped]
  rfl

theorem transit_of_blank {c : Char} (hc : c = SPACE ∨ c = TAB) :
    transit .blank c = (.blank, false) ∧ transit .unquoted c = (.blank, false) := by
  rcases hc with rfl | rfl <;> exact ⟨rfl, rfl⟩

theorem read_sep (hne : sep ≠ []) (hsep : ∀ c ∈ sep, c = SPACE ∨ c = TAB) (ws : List (List Char)) :
    sep.foldl Words.read ⟨.unquoted, ws, w⟩ = ⟨.blank, ws ++ [w], []⟩ := by
  have hrest : ∀ (t : List Char) (us : List (List Char)), (∀ c ∈ t, c = SPACE ∨ c = TAB) →
      t.foldl Words.read ⟨.blank, us, []⟩ = ⟨.blank, us, []⟩ := by
    intro t us ht
    induction t with
    | nil => rfl
    | cons c t ih =>
      rw [foldl_cons, Words.read, (transit_of_blank (ht c mem_cons_self)).1]
      exact ih fun x hx => ht x (mem_cons_of_mem c hx)
  obtain ⟨c, t, rfl⟩ := exists_cons_of_ne_nil hne
  rw [foldl_cons, Words.read, (transit_of_blank (hsep c mem_cons_self)).2]
  exact hrest t _ fun x hx => hsep x (mem_cons_of_mem c hx)

theorem finish_quoteLine (hne : sep ≠ []) (hsep : ∀ c ∈ sep, c = SPACE ∨ c = TAB)
    (args ws : List (List Char)) :
    ((quoteLine sep args).foldl Words.read ⟨.blank, ws, []⟩).finish = some (ws ++ args) := by
  fun_induction quoteLine sep args generalizing ws with
  | case1 => rw [append_nil]; rfl
  | case2 w =>
    rw [read_quoteArg]
    rfl
  | case3 w args _ ih =>
    rw [foldl_append, read_quoteArg, foldl_append, read_sep hne hsep, ih, append_assoc, singleton_append]

theorem arguments_quoteLine (hne : sep ≠ []) (hsep : ∀ c ∈ sep, c = SPACE ∨ c = TAB)
    (args : List (List Char)) : arguments (quoteLine sep args) = some args :=
  finish_quoteLine hne hsep args []

theorem nul_not_mem_quoteLine (hsep : ∀ c ∈ sep, c = SPACE ∨ c = TAB) {args : List (List Char)}
    (hargs : ∀ w ∈ args, '\x00' ∉ w) : '\x00' ∉ quoteLine sep args := by
  have harg : ∀ w : List Char, '\x00' ∉ w → '\x00' ∉ quoteArg w := by
    intro w hw hmem
    rw [quoteArg, mem_cons, mem_append, mem_singleton, escaped, mem_flatMap] at hmem
    rcases hmem with h | ⟨c, hc, h⟩ | h
    · exact absurd h (by decide)
    · have hz : '\x00' ≠ ESCAPECHAR := by decide
      split at h
      · rcases mem_cons.mp h with h | h
        · exact hz h
        · exact hw (mem_singleton.mp h ▸ hc)
      · exact hw (mem_singleton.mp h ▸ hc)
    · exact absurd h (by decide)
  fun_induction quoteLine sep args with
  | case1 => exact not_mem_nil
  | case2 w => exact harg w (hargs w mem_cons_self)
  | case3 w args _ ih =>
    rw [mem_append, mem_append]
    rintro (h | h | h)
    · exact harg w (hargs w mem_cons_self) h
    · rcases hsep _ h with h | h <;> exact absurd h (by decide)
    · exact ih (fun v hv => hargs v (mem_cons_of_mem w hv)) h

/-! ## `shell_handle_input_line` -/

theorem mem_open_iff {st : ParseState} :
    st ∈ [ParseState.singlequote, .doublequote, .unquotedEsc, .singlequoteEsc, .doublequoteEsc] ↔
      st ≠ .blank ∧ st ≠ .unquoted := by
  cases st <;> decide

theorem exists_arguments (h : ¬(endState l ≠ .blank ∧ endState l ≠ .unquoted)) :
    ∃ ws, arguments l = some ws := by
  simp only [arguments, Words.finish]
  split
  · exact ⟨_, rfl⟩
  · exact ⟨_, rfl⟩
  · next hb hu => exact absurd ⟨hb, hu⟩ h

theorem Answers.ne_rejected {r : Option Outcome} (h : Answers cmds r ws) : r ≠ some .rejected := by
  cases ws with
  | nil =>
    rw [show r = some .nothing from h]
    exact nofun
  | cons command args =>
    obtain ⟨m, argv0, argv, -, rfl⟩ := h
    split
    · exact nofun
    · split
      · exact nofun
      · split <;> exact nofun

/-- The line is refused exactly if it ends within a quotation or behind an escape character, and
otherwise the words of the documented state machine are what the command is called with. Quoted
arguments are those words again. -/
theorem shellHandleInputLine_spec (cmds : Commands) (m : Memory Char) (line lim : Nat) :
    (∀ l, Holds m line (l ++ ['\x00']) → '\x00' ∉ l → line + l.length < lim →
      (shellHandleInputLine cmds m line lim = some .rejected ↔
        endState l ∈ [.singlequote, .doublequote, .unquotedEsc, .singlequoteEsc, .doublequoteEsc]) ∧
      ∀ argv, arguments l = some argv → Answers cmds (shellHandleInputLine cmds m line lim) argv) ∧
    ∀ sep args, sep ≠ [] → (∀ c ∈ sep, c = SPACE ∨ c = TAB) → (∀ w ∈ args, '\x00' ∉ w) →
      Holds m line (quoteLine sep args ++ ['\x00']) → line + (quoteLine sep args).length < lim →
      arguments (quoteLine sep args) = some args ∧
        Answers cmds (shellHandleInputLine cmds m line lim) args := by
  refine ⟨fun l hm hl hlim => ⟨?_, fun argv hargv => shellHandleInputLine_answers hm hl hlim hargv⟩,
    fun sep args hne hsep hargs hm hlim => ?_⟩
  · rw [mem_open_iff]
    refine ⟨fun hrej => ?_, fun hend => shellHandleInputLine_rejected hm hl hlim hend⟩
    by_contra haccept
    obtain ⟨ws, hws⟩ := exists_arguments haccept
    exact Answers.ne_rejected (@shellHandleInputLine_answers _ cmds _ _ _ _ hm hl hlim hws) hrej
  · have hread := arguments_quoteLine hne hsep args
    exact ⟨hread, shellHandleInputLine_answers hm (nul_not_mem_quoteLine hsep hargs) hlim hread⟩

theorem shellHandleInputLine_spec_echo :
    Answers ⟨none, [("echo".toList, 0)], false⟩
      (shellHandleInputLine ⟨none, [("echo".toList, 0)], false⟩
        (store (fun _ => '\x00') 0 (quoteLine [SPACE] ["echo".toList, "a b".toList])) 0 20)
      ["echo".toList, "a b".toList] :=
  ((shellHandleInputLine_spec _ _ 0 20).2 [SPACE] ["echo".toList, "a b".toList] (by simp) (by simp)
    (by decide) (holds_append.mpr ⟨holds_store, store_of_ge le_rfl, trivial⟩)
    (show 0 + 12 < 20 by omega)).2

theorem not_shellHandleInputLine_calls :
    ¬∀ (cmds : Commands) (m : Memory Char) (line lim : Nat) (l : List Char),
      Holds m line (l ++ ['\x00']) → '\x00' ∉ l → line + l.length < lim →
      shellHandleInputLine cmds m line lim ≠ some .rejected →
      ∃ handler argc argv m', shellHandleInputLine cmds m line lim = some (.call handler argc argv m') := by
  intro h
  obtain ⟨_, _, _, _, hcall⟩ := h ⟨none, [], false⟩ (fun _ => '\x00') 0 1 [] ⟨rfl, trivial⟩
    List.not_mem_nil (by decide) nofun
  cases hcall

end Riot.Shell
