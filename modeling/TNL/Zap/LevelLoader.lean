import Mathlib.Data.List.Basic
import Mathlib.Tactic.Common
import Mathlib.Tactic.SplitIfs

/-!
# The level loader

A level is a text, and each of its lines a list of arguments. An argument in quotes can hold every
character but the zero and the carriage return, which is skipped wherever it stands.
-/
namespace TNL.LevelLoader

def MaxArgc : ℕ := 128
def MaxArgLen : ℕ := 100

def tab : UInt8 := 9
def newline : UInt8 := 10
def carriageReturn : UInt8 := 13
def space : UInt8 := 32
def quote : UInt8 := 34
def hash : UInt8 := 35
def backslash : UInt8 := 92

/-- The complete arguments and the one that is read. Each of them and its zero fit a row of the
buffer. -/
@[ext] structure Argv where
  argv : List (List UInt8)
  arg : List UInt8
  argc_le : argv.length ≤ MaxArgc
  argLen_lt : arg.length < MaxArgLen
  lengths : ∀ a ∈ argv, a.length < MaxArgLen

namespace Argv

def empty : Argv := ⟨[], [], Nat.zero_le _, by decide, by simp⟩

def addCharToArg (a : Argv) (c : UInt8) : Argv :=
  if h : a.argv.length < MaxArgc ∧ a.arg.length < MaxArgLen - 1 then
    { a with
      arg := a.arg ++ [c]
      argLen_lt := by simpa using Nat.add_lt_of_lt_sub h.2 }
  else a

/-- A line with too many arguments ends with the last one that fits. -/
def addArg (a : Argv) : Argv :=
  if h : a.argv.length < MaxArgc then
    { argv := a.argv ++ [a.arg]
      arg := []
      argc_le := by simpa using Nat.succ_le_of_lt h
      argLen_lt := by decide
      lengths := by simpa [or_imp, forall_and] using ⟨a.lengths, a.argLen_lt⟩ }
  else a

end Argv

inductive State where
  | eatingWhitespace
  | addCharToIdent
  | readString
  | readEscape
  | eatingComment

/-- The lines that were given to `processLevelLoadLine` are kept. -/
structure Parser where
  state : State
  args : Argv
  loaded : List (List (List UInt8))

namespace Parser

def start : Parser := ⟨.eatingWhitespace, .empty, []⟩

def lineParseDone (p : Parser) : Parser where
  state := .eatingWhitespace
  args := .empty
  loaded := if p.args.argv.length = 0 then p.loaded else p.loaded ++ [p.args.argv]

/-- A state with the character that it reads. -/
def next (p : Parser) (c : UInt8) : Parser :=
  match p.state with
  | .eatingWhitespace =>
    if c = space ∨ c = tab then p
    else if c = newline ∨ c = 0 then p.lineParseDone
    else if c = quote then { p with state := .readString }
    else if c = hash then { p with state := .eatingComment }
    else { p with state := .addCharToIdent, args := p.args.addCharToArg c }
  | .addCharToIdent =>
    if c = space ∨ c = tab then { p with state := .eatingWhitespace, args := p.args.addArg }
    else if c = newline ∨ c = 0 then { p with args := p.args.addArg }.lineParseDone
    else if c = quote then { p with state := .readString, args := p.args.addArg }
    else { p with args := p.args.addCharToArg c }
  | .readString =>
    if c = quote then { p with state := .eatingWhitespace, args := p.args.addArg }
    else if c = newline ∨ c = 0 then { p with args := p.args.addArg }.lineParseDone
    else if c = backslash then { p with state := .readEscape }
    else { p with args := p.args.addCharToArg c }
  | .readEscape =>
    if c = 'n'.toUInt8 then { p with state := .readString, args := p.args.addCharToArg newline }
    else if c = 't'.toUInt8 then { p with state := .readString, args := p.args.addCharToArg tab }
    else if c = backslash then
      { p with state := .readString, args := p.args.addCharToArg backslash }
    else if c = newline ∨ c = 0 then { p with args := p.args.addArg }.lineParseDone
    else { p with state := .readString, args := p.args.addCharToArg c }
  | .eatingComment => if c = newline ∨ c = 0 then p.lineParseDone else p

/-- `getNextChar` skips carriage returns. -/
def read (p : Parser) (c : UInt8) : Parser := if c = carriageReturn then p else p.next c

def parseFrom (p : Parser) : List UInt8 → Parser
  | [] => p.next 0
  | c :: string => if c = 0 then p.next 0 else (p.read c).parseFrom string

end Parser

/-- The lines in the order in which they are loaded, and the count that is never increased. -/
def parseArgs (string : List UInt8) : List (List (List UInt8)) × Int32 :=
  ((Parser.start.parseFrom string).loaded, 0)

/-- The zero behind the data needs a place in the buffer as well. -/
def initLevelFromFile : Option (List UInt8) → Option (List (List (List UInt8)))
  | none => some []
  | some file =>
    if (file.take 32768).length < 32768 then some (parseArgs (file.take 32768)).1 else none

/-- The characters that can stand in an argument. -/
def Plain (c : UInt8) : Prop := c ≠ 0 ∧ c ≠ carriageReturn

/-- What a line of a level can be. -/
structure Loadable (args : List (List UInt8)) : Prop where
  ne_nil : args ≠ []
  argc_le : args.length ≤ MaxArgc
  argLen_lt : ∀ a ∈ args, a.length < MaxArgLen
  plain : ∀ a ∈ args, ∀ c ∈ a, Plain c

def escaped (c : UInt8) : List UInt8 :=
  if c = newline then [backslash, 'n'.toUInt8]
  else if c = quote ∨ c = backslash then [backslash, c]
  else [c]

def quoted (a : List UInt8) : List UInt8 := quote :: (a.flatMap escaped ++ [quote])

def writeLine (args : List (List UInt8)) : List UInt8 := args.flatMap quoted ++ [newline]

def writeLevel (level : List (List (List UInt8))) : List UInt8 := level.flatMap writeLine

namespace Argv

variable {a : Argv} {c : UInt8}

/-- The characters that the two functions leave in the arguments. -/
structure Clean (a : Argv) : Prop where
  argv : ∀ s ∈ a.argv, ∀ c ∈ s, Plain c
  arg : ∀ c ∈ a.arg, Plain c

theorem clean_empty : Clean empty := ⟨by simp [empty], by simp [empty]⟩

theorem Clean.addCharToArg (h : a.Clean) (hc : Plain c) : (a.addCharToArg c).Clean := by
  unfold Argv.addCharToArg
  split_ifs
  · exact ⟨h.argv, by simpa [or_imp, forall_and] using ⟨h.arg, hc⟩⟩
  · exact h

theorem Clean.addArg (h : a.Clean) : a.addArg.Clean := by
  unfold Argv.addArg
  split_ifs
  · exact ⟨by simpa [or_imp, forall_and] using ⟨h.argv, h.arg⟩, by simp⟩
  · exact h

/-- An argument that fits is taken whole. -/
theorem foldl_addCharToArg {s : List UInt8} (hargc : a.argv.length < MaxArgc)
    (hlen : a.arg.length + s.length < MaxArgLen) :
    (s.foldl addCharToArg a).argv = a.argv ∧ (s.foldl addCharToArg a).arg = a.arg ++ s := by
  induction s generalizing a with
  | nil => simp
  | cons c s ih =>
    rw [List.length_cons] at hlen
    have hfits : a.arg.length < MaxArgLen - 1 := by omega
    have hadd : (a.addCharToArg c).argv = a.argv ∧ (a.addCharToArg c).arg = a.arg ++ [c] := by
      unfold addCharToArg
      rw [dif_pos ⟨hargc, hfits⟩]
      exact ⟨rfl, rfl⟩
    obtain ⟨hargv, harg⟩ := hadd
    have hlength : (a.addCharToArg c).arg.length + s.length < MaxArgLen := by
      rw [harg, List.length_append, List.length_singleton]
      omega
    have rest := ih (hargv ▸ hargc) hlength
    rw [hargv, harg, List.append_assoc] at rest
    exact rest

theorem addArg_fits (hargc : a.argv.length < MaxArgc) :
    a.addArg.argv = a.argv ++ [a.arg] ∧ a.addArg.arg = [] := by
  unfold addArg
  rw [dif_pos hargc]
  exact ⟨rfl, rfl⟩

end Argv

namespace Parser

variable {p : Parser} {a : Argv} {c : UInt8} {l : List (List (List UInt8))}
variable {string rest : List UInt8}

theorem parseFrom_append (h : 0 ∉ string) :
    p.parseFrom (string ++ rest) = (string.foldl read p).parseFrom rest := by
  induction string generalizing p with
  | nil => rfl
  | cons c string ih =>
    have hc : c ≠ 0 := fun hc => h (hc ▸ List.mem_cons_self)
    have hstring : 0 ∉ string := fun hmem => h (List.mem_cons_of_mem c hmem)
    rw [List.cons_append, parseFrom, if_neg hc, ih hstring, List.foldl_cons]

/-- A newline ends a line in every state, as the end of the text does. -/
theorem next_newline (p : Parser) : p.next newline = p.next 0 := by
  obtain ⟨state, args, loaded⟩ := p
  cases state <;> rfl

theorem next_zero (p : Parser) : p.next 0 = ⟨.eatingWhitespace, .empty, (p.next 0).loaded⟩ := by
  obtain ⟨state, args, loaded⟩ := p
  cases state <;> rfl

/-- A character of a quoted argument is read back. -/
theorem foldl_escaped (hc : Plain c) :
    (escaped c).foldl read ⟨.readString, a, l⟩ =
      ⟨.readString, a.addCharToArg c, l⟩ := by
  obtain ⟨hzero, hreturn⟩ := hc
  by_cases hnewline : c = newline
  · subst hnewline
    rfl
  by_cases hquote : c = quote
  · subst hquote
    rfl
  by_cases hbackslash : c = backslash
  · subst hbackslash
    rfl
  simp [escaped, read, next, hzero, hreturn, hnewline, hquote, hbackslash]

theorem foldl_string {s : List UInt8} (hs : ∀ c ∈ s, Plain c) :
    (s.flatMap escaped).foldl read ⟨.readString, a, l⟩ =
      ⟨.readString, s.foldl Argv.addCharToArg a, l⟩ := by
  induction s generalizing a with
  | nil => rfl
  | cons c s ih =>
    obtain ⟨hc, hrest⟩ := List.forall_mem_cons.mp hs
    rw [List.flatMap_cons, List.foldl_append, foldl_escaped hc, ih hrest, List.foldl_cons]

/-- An argument that fits is read back from its quoted form. -/
theorem foldl_quoted {s : List UInt8} (hs : ∀ c ∈ s, Plain c) (hlen : s.length < MaxArgLen)
    (hargc : a.argv.length < MaxArgc) (harg : a.arg = []) :
    ∃ b : Argv, (quoted s).foldl read ⟨.eatingWhitespace, a, l⟩ =
      ⟨.eatingWhitespace, b, l⟩ ∧ b.argv = a.argv ++ [s] ∧ b.arg = [] := by
  have hfold := Argv.foldl_addCharToArg (s := s) hargc (by simpa [harg] using hlen)
  have hadd := Argv.addArg_fits (a := s.foldl Argv.addCharToArg a) (by rwa [hfold.1])
  rw [hfold.1, hfold.2, harg, List.nil_append] at hadd
  refine ⟨_, ?_, hadd⟩
  rw [quoted, List.foldl_cons, List.foldl_append]
  change List.foldl read ((s.flatMap escaped).foldl read ⟨.readString, a, l⟩) [quote] = _
  rw [foldl_string hs]
  rfl

theorem foldl_args {args : List (List UInt8)} (hargs : ∀ s ∈ args, s.length < MaxArgLen)
    (hplain : ∀ s ∈ args, ∀ c ∈ s, Plain c) (hargc : a.argv.length + args.length ≤ MaxArgc)
    (harg : a.arg = []) :
    ∃ b : Argv, (args.flatMap quoted).foldl read ⟨.eatingWhitespace, a, l⟩ =
      ⟨.eatingWhitespace, b, l⟩ ∧ b.argv = a.argv ++ args := by
  induction args generalizing a with
  | nil => exact ⟨a, rfl, (List.append_nil _).symm⟩
  | cons s args ih =>
    obtain ⟨hlen, hargs⟩ := List.forall_mem_cons.mp hargs
    obtain ⟨hs, hplain⟩ := List.forall_mem_cons.mp hplain
    rw [List.length_cons] at hargc
    obtain ⟨b, hb, hargv, hnil⟩ := foldl_quoted (l := l) hs hlen (by omega) harg
    obtain ⟨d, hd, hrest⟩ := ih hargs hplain (a := b) (by simp [hargv]; omega) hnil
    refine ⟨d, ?_, by rw [hrest, hargv, List.append_assoc]; rfl⟩
    rw [List.flatMap_cons, List.foldl_append, hb, hd]

/-- A line that can be loaded is. -/
theorem foldl_writeLine {args : List (List UInt8)} (h : Loadable args) :
    (writeLine args).foldl read ⟨.eatingWhitespace, .empty, l⟩ =
      ⟨.eatingWhitespace, .empty, l ++ [args]⟩ := by
  obtain ⟨b, hb, hargv⟩ := foldl_args (a := .empty) (l := l) h.argLen_lt h.plain
    (by simpa [Argv.empty] using h.argc_le) rfl
  have hne : b.argv.length ≠ 0 := by
    rw [hargv]
    simpa [Argv.empty] using h.ne_nil
  rw [writeLine, List.foldl_append, hb]
  change lineParseDone ⟨.eatingWhitespace, b, l⟩ = _
  rw [lineParseDone, if_neg hne, hargv]
  rfl

theorem foldl_writeLevel {level : List (List (List UInt8))} (h : ∀ args ∈ level, Loadable args) :
    (writeLevel level).foldl read ⟨.eatingWhitespace, .empty, l⟩ =
      ⟨.eatingWhitespace, .empty, l ++ level⟩ := by
  induction level generalizing l with
  | nil => simp [writeLevel]
  | cons args level ih =>
    obtain ⟨hargs, hrest⟩ := List.forall_mem_cons.mp h
    have rest := ih hrest (l := l ++ [args])
    rw [List.append_assoc] at rest
    rw [writeLevel, List.flatMap_cons, List.foldl_append, foldl_writeLine hargs]
    exact rest

/-- What a parser has loaded and what it is reading. -/
structure Sound (p : Parser) : Prop where
  loaded : ∀ args ∈ p.loaded, Loadable args
  args : p.args.Clean

theorem Sound.lineParseDone (h : p.Sound) : p.lineParseDone.Sound := by
  refine ⟨?_, Argv.clean_empty⟩
  unfold Parser.lineParseDone
  split_ifs with hargc
  · exact h.loaded
  · have hnew : Loadable p.args.argv :=
      ⟨fun hnil => hargc (by rw [hnil]; rfl), p.args.argc_le, p.args.lengths, h.args.argv⟩
    simpa [or_imp, forall_and] using ⟨h.loaded, hnew⟩

/-- No character that is kept is a zero: a zero ends the line. -/
theorem Sound.next (h : p.Sound) (hc : c ≠ carriageReturn) : (p.next c).Sound := by
  obtain ⟨state, args, loaded⟩ := p
  have hargs : args.Clean := h.args
  have goto : ∀ {target : State} {a : Argv}, a.Clean → Sound ⟨target, a, loaded⟩ :=
    fun ha => ⟨h.loaded, ha⟩
  have done : ∀ {a : Argv}, a.Clean → Sound (Parser.lineParseDone ⟨state, a, loaded⟩) :=
    fun ha => (goto ha).lineParseDone
  have add (hline : ¬ (c = newline ∨ c = 0)) : (args.addCharToArg c).Clean :=
    hargs.addCharToArg ⟨fun hzero => hline (.inr hzero), hc⟩
  cases state with
  | eatingWhitespace =>
    simp only [Parser.next]
    split_ifs with _ hline
    · exact h
    · exact done hargs
    · exact goto hargs
    · exact goto hargs
    · exact goto (add hline)
  | addCharToIdent =>
    simp only [Parser.next]
    split_ifs with _ hline
    · exact goto hargs.addArg
    · exact done hargs.addArg
    · exact goto hargs.addArg
    · exact goto (add hline)
  | readString =>
    simp only [Parser.next]
    split_ifs with _ hline
    · exact goto hargs.addArg
    · exact done hargs.addArg
    · exact goto hargs
    · exact goto (add hline)
  | readEscape =>
    simp only [Parser.next]
    split_ifs with _ _ _ hline
    · exact goto (hargs.addCharToArg ⟨by decide, by decide⟩)
    · exact goto (hargs.addCharToArg ⟨by decide, by decide⟩)
    · exact goto (hargs.addCharToArg ⟨by decide, by decide⟩)
    · exact done hargs.addArg
    · exact goto (add hline)
  | eatingComment =>
    simp only [Parser.next]
    split_ifs
    · exact done hargs
    · exact h

theorem Sound.parseFrom (h : p.Sound) : (p.parseFrom string).Sound := by
  induction string generalizing p with
  | nil => exact h.next (by decide)
  | cons c string ih =>
    rw [Parser.parseFrom]
    split_ifs
    · exact h.next (by decide)
    · apply ih
      unfold read
      split_ifs with hc
      · exact h
      · exact h.next hc

/-- What was loaded before plays no part in what is loaded next. -/
theorem lineParseDone_loaded (before : List (List (List UInt8))) (state : State) (args : Argv) :
    lineParseDone ⟨state, args, before ++ l⟩ =
      { lineParseDone ⟨state, args, l⟩ with
        loaded := before ++ (lineParseDone ⟨state, args, l⟩).loaded } := by
  unfold lineParseDone
  split_ifs <;> simp

theorem next_loaded (before : List (List (List UInt8))) (p : Parser) (c : UInt8) :
    next { p with loaded := before ++ p.loaded } c =
      { p.next c with loaded := before ++ (p.next c).loaded } := by
  obtain ⟨state, args, loaded⟩ := p
  cases state <;> simp only [next] <;> split_ifs <;> first | rfl | exact lineParseDone_loaded ..

theorem parseFrom_loaded (before : List (List (List UInt8))) (p : Parser) (string : List UInt8) :
    parseFrom { p with loaded := before ++ p.loaded } string =
      { p.parseFrom string with loaded := before ++ (p.parseFrom string).loaded } := by
  induction string generalizing p with
  | nil => exact next_loaded before p 0
  | cons c string ih =>
    rw [parseFrom, parseFrom]
    split_ifs
    · exact next_loaded before p 0
    · have hread : read { p with loaded := before ++ p.loaded } c =
          { p.read c with loaded := before ++ (p.read c).loaded } := by
        unfold read
        split_ifs
        · rfl
        · exact next_loaded before p c
      rw [hread, ih]

/-- A text is loaded line by line. -/
theorem parseFrom_line (h : 0 ∉ string) :
    start.parseFrom (string ++ newline :: rest) =
      { start.parseFrom rest with
        loaded := (start.parseFrom string).loaded ++ (start.parseFrom rest).loaded } := by
  have hend : start.parseFrom string = (string.foldl read start).next 0 := by
    rw [← List.append_nil string, parseFrom_append h]
    simp [parseFrom]
  have hnewline : (string.foldl read start).read newline = start.parseFrom string := by
    rw [read, if_neg (by decide), next_newline, hend]
  rw [parseFrom_append h, parseFrom, if_neg (by decide), hnewline, hend, next_zero]
  have hrest := parseFrom_loaded ((string.foldl read start).next 0).loaded start rest
  rw [start, List.append_nil] at hrest
  exact hrest

end Parser

theorem loadable_of_parseArgs {string : List UInt8} :
    ∀ args ∈ (parseArgs string).1, Loadable args := by
  have hstart : Parser.start.Sound := ⟨by simp [Parser.start], Argv.clean_empty⟩
  exact hstart.parseFrom.loaded

theorem escaped_ne_zero {c : UInt8} (hc : Plain c) : 0 ∉ escaped c := by
  unfold escaped
  split_ifs
  · decide
  · simpa [Ne.symm hc.1] using (by decide : (0 : UInt8) ≠ backslash)
  · simpa using Ne.symm hc.1

theorem writeLevel_ne_zero {level : List (List (List UInt8))} (h : ∀ args ∈ level, Loadable args) :
    0 ∉ writeLevel level := by
  intro hzero
  obtain ⟨args, hargs, hzero⟩ := List.mem_flatMap.mp hzero
  rcases List.mem_append.mp hzero with hzero | hzero
  · obtain ⟨s, hs, hzero⟩ := List.mem_flatMap.mp hzero
    rcases List.mem_cons.mp hzero with hzero | hzero
    · exact absurd hzero (by decide)
    · rcases List.mem_append.mp hzero with hzero | hzero
      · obtain ⟨c, hc, hzero⟩ := List.mem_flatMap.mp hzero
        exact escaped_ne_zero ((h args hargs).plain s hs c hc) hzero
      · exact absurd hzero (by decide)
  · exact absurd hzero (by decide)

theorem parseArgs_writeLevel {level : List (List (List UInt8))}
    (h : ∀ args ∈ level, Loadable args) : parseArgs (writeLevel level) = (level, 0) := by
  have hparse : Parser.start.parseFrom (writeLevel level ++ []) = _ :=
    Parser.parseFrom_append (writeLevel_ne_zero h)
  rw [List.append_nil, Parser.start, Parser.foldl_writeLevel h, List.nil_append] at hparse
  rw [parseArgs, Parser.start, hparse]
  rfl

/-- Everything that a file loads is a level that can be loaded, and a level is read back from its
text exactly if it is one and the text leaves a place in the buffer for the zero. -/
theorem initLevelFromFile_spec :
    (∀ file level, initLevelFromFile file = some level → ∀ args ∈ level, Loadable args) ∧
    ∀ level, initLevelFromFile (some (writeLevel level)) = some level ↔
      (∀ args ∈ level, Loadable args) ∧ (writeLevel level).length < 32768 := by
  have hloaded : ∀ file level, initLevelFromFile file = some level →
      ∀ args ∈ level, Loadable args := by
    intro file level h
    cases file with
    | none =>
      obtain rfl := Option.some.inj h
      simp
    | some file =>
      rw [initLevelFromFile] at h
      split_ifs at h
      obtain rfl := Option.some.inj h
      exact loadable_of_parseArgs
  refine ⟨hloaded, fun level => ⟨fun h => ⟨hloaded _ _ h, ?_⟩, fun ⟨h, hlength⟩ => ?_⟩⟩
  · rw [initLevelFromFile] at h
    split_ifs at h with hlength
    rw [List.length_take] at hlength
    omega
  · have htake : (writeLevel level).take 32768 = writeLevel level :=
      List.take_of_length_le (Nat.le_of_lt hlength)
    rw [initLevelFromFile, htake, if_pos hlength, parseArgs_writeLevel h]

/-- A text is loaded line by line, whatever a line leaves open. -/
theorem parseArgs_lines (string rest : List UInt8) (h : 0 ∉ string) :
    (parseArgs (string ++ newline :: rest)).1 = (parseArgs string).1 ++ (parseArgs rest).1 :=
  congrArg Parser.loaded (Parser.parseFrom_line h)

/-- A comment behind an argument, and a string that is not closed. -/
theorem parseArgs_lines_open :
    (parseArgs ([97, space, hash, quote] ++ newline :: [quote, 98])).1 = [[[97]], [[98]]] := by
  rw [parseArgs_lines _ _ (by decide)]
  decide

end TNL.LevelLoader
