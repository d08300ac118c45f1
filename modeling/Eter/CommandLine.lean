import Eter.DiscoveryRuns
import Eter.Snippets

/-!
# The command line

The program reads its arguments one after another, and then prints what it was asked for or compiles
the packs of its input files. Of its output the standard output is modelled, and the complaints
about the arguments.
-/

namespace Eter.Driver
open Dependencies

/-! ### Options -/

structure CompilerOptions where
  inputFiles : List Path
  outputFile : Bytes
  showVersion : Bool
  showHelp : Bool
  optimizationLevel : ℕ
  deriving DecidableEq, Repr

/-- The driver's options, the two globals of debug output, and what was printed. -/
structure Process where
  options : CompilerOptions
  debugFlag : Bool
  currentDebugType : Bytes
  out : Bytes
  err : Bytes
  deriving DecidableEq, Repr

def Process.start : Process := ⟨⟨[], [], false, false, 0⟩, false, [], [], []⟩

structure Version where
  major : ℕ
  minor : ℕ
  patch : ℕ

def currentVersion : Version := ⟨0, 1, 0⟩

def version : Bytes :=
  Diag.decimal currentVersion.major ++ ascii "." ++ Diag.decimal currentVersion.minor ++ ascii "." ++
    Diag.decimal currentVersion.patch

def helpText : Bytes :=
  ascii "Eter Compiler " ++ version ++ ascii "\n" ++
  ascii "\nUsage: eter [options] <input-files>\n" ++
  ascii "\nOptions:\n" ++
  ascii "  -h, --help              Show this help message\n" ++
  ascii "  --version               Show version information\n" ++
  ascii "  -o <output>             Specify output file\n" ++
  ascii "  -O0                     No optimization (default)\n" ++
  ascii "  --debug                 Enable debug output\n" ++
  ascii "  --debug-only=<type>     Enable debug output only for <type>\n" ++
  ascii "\nExamples:\n" ++
  ascii "  eterc --version\n" ++
  ascii "  eterc program.eter\n" ++
  ascii "  eterc program.eter -o program\n"

def versionText : Bytes := ascii "Eter compiler version " ++ version ++ ascii "\n"

def printHelp (p : Process) : Process := { p with out := p.out ++ helpText }

def printVersion (p : Process) : Process := { p with out := p.out ++ versionText }

def complain (text : Bytes) (p : Process) : Process := { p with err := p.err ++ text }

/-! ### Reading the arguments -/

def debugOnly : Bytes := ascii "--debug-only="

/-- The first byte of an argument; of an empty one it is the byte that ends the C string. -/
def firstByte (arg : Bytes) : UInt8 := arg.headD 0

/-- An argument that stands for itself. -/
def readArgument (arg : Bytes) (p : Process) : Option Process :=
  if arg = ascii "--debug" then some { p with debugFlag := true }
  else if debugOnly.isPrefixOf arg then
    some { p with debugFlag := true, currentDebugType := arg.drop debugOnly.length }
  else if arg = ascii "-O0" then
    some { p with options := { p.options with optimizationLevel := 0 } }
  else if firstByte arg ≠ ch '-' then
    some { p with options := { p.options with inputFiles := p.options.inputFiles ++ [arg] } }
  else none

/-- An argument that is none of the options. -/
def rejectArgument (arg : Bytes) (p : Process) : Option Bool × Process :=
  (some false, printHelp (complain (ascii "error: Unknown option: " ++ arg ++ ascii "\n\n") p))

/-- The loop over the arguments: an answer when it returns. -/
def readArguments : List Bytes → Process → Option Bool × Process
  | [], p => (none, p)
  | arg :: rest, p =>
    if arg = ascii "--version" then
      (some true, { p with options := { p.options with showVersion := true } })
    else if arg = ascii "--help" ∨ arg = ascii "-h" then
      (some true, { p with options := { p.options with showHelp := true } })
    else if arg = ascii "-o" then
      match rest with
      | [] => rejectArgument arg p
      | file :: rest => readArguments rest { p with options := { p.options with outputFile := file } }
    else
      match readArgument arg p with
      | some p => readArguments rest p
      | none => rejectArgument arg p

def noInput : Bytes := ascii "error: No input files specified\n\n"

def onlyOneInput : Bytes := ascii "error: only one input file is supported\n\n"

/-- Behind the loop: a wrong number of input files is complained about, and yet `return 1` is
`true`. -/
def checkInputs (p : Process) : Bool × Process :=
  if p.options.inputFiles = [] ∧ p.options.showVersion = false ∧ p.options.showHelp = false then
    (false, printHelp (complain noInput p))
  else if p.options.inputFiles.length ≠ 1 then (true, printHelp (complain onlyOneInput p))
  else (true, p)

/-- The arguments behind the name of the program. -/
def parseCommandLine (args : List Bytes) (p : Process) : Bool × Process :=
  if args = [] then (false, printHelp p)
  else
    match readArguments args p with
    | (some answer, p) => (answer, p)
    | (none, p) => checkInputs p

/-! ### Running -/

/-- The packs of the input files, up to the first that fails. -/
def compileAll (fs : FileMap) (n : ℕ) : List Path → Except Parser.Stuck ℕ
  | [] => .ok 0
  | input :: inputs =>
    match compilePack fs n input with
    | .error stuck => .error stuck
    | .ok (result, _) => if result ≠ 0 then .ok result else compileAll fs n inputs

def run (fs : FileMap) (n : ℕ) (p : Process) : Except Parser.Stuck (ℕ × Process) :=
  if p.options.showVersion then .ok (0, printVersion p)
  else if p.options.showHelp then .ok (0, printHelp p)
  else (compileAll fs n p.options.inputFiles).map fun status => (status, p)

/-- `main`: the exit status and what was printed. -/
def main (fs : FileMap) (n : ℕ) (args : List Bytes) : Except Parser.Stuck (ℕ × Process) :=
  let (parsed, p) := parseCommandLine args .start
  if parsed then run fs n p else .ok (1, p)

/-! ### Command lines -/

/-- The words consist of options and of the input files, in order. -/
inductive CommandLine : List Bytes → List Path → Prop where
  | nil : CommandLine [] []
  | debug {ws ps} (h : CommandLine ws ps) : CommandLine (ascii "--debug" :: ws) ps
  | debugOnly {ws ps} (type : Bytes) (h : CommandLine ws ps) :
      CommandLine ((Driver.debugOnly ++ type) :: ws) ps
  | optimize {ws ps} (h : CommandLine ws ps) : CommandLine (ascii "-O0" :: ws) ps
  | output {ws ps} (file : Bytes) (h : CommandLine ws ps) : CommandLine (ascii "-o" :: file :: ws) ps
  | input {ws ps} (file : Bytes) (hf : firstByte file ≠ ch '-') (h : CommandLine ws ps) :
      CommandLine (file :: ws) (file :: ps)

abbrev AsksVersion (w : Bytes) : Prop := w = ascii "--version"

abbrev AsksHelp (w : Bytes) : Prop := w = ascii "--help" ∨ w = ascii "-h"

/-- Behind options and input files a word asks for the version or for help. -/
def AsksInfo (args : List Bytes) : Prop :=
  ∃ front w rest inputs, args = front ++ w :: rest ∧ CommandLine front inputs ∧
    (AsksVersion w ∨ AsksHelp w)

/-- The words are not options of the program. -/
def Unknown (args : List Bytes) : Prop :=
  ∃ front w rest inputs, args = front ++ w :: rest ∧ CommandLine front inputs ∧
    ¬ (AsksVersion w ∨ AsksHelp w) ∧ (w = ascii "-o" ∧ rest = [] ∨
      w ≠ ascii "-o" ∧ ∀ p, readArgument w p = none)

variable {args ws rest : List Bytes} {inputs ps : List Path} {w : Bytes} {p : Process}

/-- Only the options and the globals differ, and the input files are more. -/
structure Process.Adds (p : Process) (ps : List Path) (p' : Process) : Prop where
  inputs : p'.options.inputFiles = p.options.inputFiles ++ ps
  showVersion : p'.options.showVersion = p.options.showVersion
  showHelp : p'.options.showHelp = p.options.showHelp
  out : p'.out = p.out

theorem Process.Adds.refl (p : Process) : p.Adds [] p := ⟨(List.append_nil _).symm, rfl, rfl, rfl⟩

theorem readArguments_word {p' : Process} (hinfo : ¬ (AsksVersion w ∨ AsksHelp w))
    (ho : w ≠ ascii "-o") (h : readArgument w p = some p') :
    readArguments (w :: rest) p = readArguments rest p' := by
  rw [not_or] at hinfo
  rw [readArguments.eq_def]
  dsimp only
  rw [if_neg hinfo.1, if_neg hinfo.2, if_neg ho, h]

theorem readArguments_debugOnly (type : Bytes) : readArguments ((debugOnly ++ type) :: rest) p =
    readArguments rest { p with debugFlag := true, currentDebugType := type } := by
  have hfirst : ∀ u, (debugOnly ++ type).take 13 = u → debugOnly = u := by
    intro u hu
    rw [← hu, show (13 : ℕ) = debugOnly.length by decide, List.take_left]
  have hne : ∀ u : Bytes, debugOnly ++ type = u → debugOnly = u.take 13 := by
    rintro _ rfl
    exact hfirst _ rfl
  refine readArguments_word ?_ ?_ ?_
  · rintro (h | h | h) <;> exact absurd (hne _ h) (by decide)
  · intro h
    exact absurd (hne _ h) (by decide)
  · have hdebug : debugOnly ++ type ≠ ascii "--debug" := fun h => absurd (hne _ h) (by decide)
    rw [readArgument, if_neg hdebug, if_pos (List.isPrefixOf_iff_prefix.mpr (List.prefix_append _ _)),
      List.drop_left]

theorem readArguments_input (hw : firstByte w ≠ ch '-') : readArguments (w :: rest) p =
    readArguments rest { p with options :=
      { p.options with inputFiles := p.options.inputFiles ++ [w] } } := by
  have hne : ∀ u, firstByte u = ch '-' → w ≠ u := by
    rintro _ hu rfl
    exact hw hu
  refine readArguments_word ?_ (hne _ (by decide)) ?_
  · rintro (h | h | h) <;> exact hne _ (by decide) h
  · have hprefix : ¬ debugOnly.isPrefixOf w = true := by
      intro h
      obtain ⟨type, htype⟩ := List.isPrefixOf_iff_prefix.mp h
      exact hne (debugOnly ++ type) rfl htype.symm
    rw [readArgument, if_neg (hne _ (by decide)), if_neg hprefix, if_neg (hne _ (by decide)),
      if_pos hw]

/-- Options and input files are read, and the loop goes on behind them. -/
theorem CommandLine.read (h : CommandLine ws ps) (rest : List Bytes) (p : Process) :
    ∃ p', readArguments (ws ++ rest) p = readArguments rest p' ∧ p.Adds ps p' := by
  induction h generalizing p with
  | nil => exact ⟨p, rfl, .refl p⟩
  | debug h ih =>
    obtain ⟨p', hread, hp⟩ := ih { p with debugFlag := true }
    exact ⟨p', (readArguments_word (by decide) (by decide) rfl).trans hread,
      ⟨hp.inputs, hp.showVersion, hp.showHelp, hp.out⟩⟩
  | debugOnly type h ih =>
    obtain ⟨p', hread, hp⟩ := ih { p with debugFlag := true, currentDebugType := type }
    exact ⟨p', (readArguments_debugOnly type).trans hread,
      ⟨hp.inputs, hp.showVersion, hp.showHelp, hp.out⟩⟩
  | optimize h ih =>
    obtain ⟨p', hread, hp⟩ := ih { p with options := { p.options with optimizationLevel := 0 } }
    exact ⟨p', (readArguments_word (by decide) (by decide) rfl).trans hread,
      ⟨hp.inputs, hp.showVersion, hp.showHelp, hp.out⟩⟩
  | output file h ih =>
    obtain ⟨p', hread, hp⟩ := ih { p with options := { p.options with outputFile := file } }
    exact ⟨p', hread, ⟨hp.inputs, hp.showVersion, hp.showHelp, hp.out⟩⟩
  | input file hf h ih =>
    obtain ⟨p', hread, hp⟩ := ih { p with options :=
      { p.options with inputFiles := p.options.inputFiles ++ [file] } }
    refine ⟨p', (readArguments_input hf).trans hread, ?_, hp.showVersion, hp.showHelp, hp.out⟩
    rw [hp.inputs, List.append_assoc]
    rfl

/-! ### Every list of words is one of three -/

theorem CommandLine.append (h : CommandLine ws ps) {ws' : List Bytes} {ps' : List Path}
    (h' : CommandLine ws' ps') : CommandLine (ws ++ ws') (ps ++ ps') := by
  induction h with
  | nil => exact h'
  | debug _ ih => exact .debug ih
  | debugOnly type _ ih => exact .debugOnly type ih
  | optimize _ ih => exact .optimize ih
  | output file _ ih => exact .output file ih
  | input file hf _ ih => exact .input file hf ih

theorem AsksInfo.behind (h : AsksInfo rest) (hws : CommandLine ws ps) : AsksInfo (ws ++ rest) := by
  obtain ⟨front, w, rest, inputs, rfl, hfront, hw⟩ := h
  exact ⟨ws ++ front, w, rest, ps ++ inputs, by rw [List.append_assoc], hws.append hfront, hw⟩

theorem Unknown.behind (h : Unknown rest) (hws : CommandLine ws ps) : Unknown (ws ++ rest) := by
  obtain ⟨front, w, rest, inputs, rfl, hfront, hw⟩ := h
  exact ⟨ws ++ front, w, rest, ps ++ inputs, by rw [List.append_assoc], hws.append hfront, hw⟩

/-- A word that stands for itself is an option or an input file. -/
theorem commandLine_word {p' : Process} (h : readArgument w p = some p') :
    ∃ ps, CommandLine [w] ps := by
  unfold readArgument at h
  split at h
  · next hw => exact ⟨[], hw ▸ .debug .nil⟩
  split at h
  · next hw =>
    obtain ⟨type, rfl⟩ := List.isPrefixOf_iff_prefix.mp hw
    exact ⟨[], .debugOnly type .nil⟩
  split at h
  · next hw => exact ⟨[], hw ▸ .optimize .nil⟩
  split at h
  · next hw => exact ⟨[w], .input w hw .nil⟩
  · cases h

theorem readArgument_none {p' : Process} (h : readArgument w p = none) :
    readArgument w p' = none := by
  unfold readArgument at h ⊢
  split at h
  · cases h
  split at h
  · cases h
  split at h
  · cases h
  split at h
  · cases h
  · next h₁ h₂ h₃ h₄ => rw [if_neg h₁, if_neg h₂, if_neg h₃, if_neg h₄]

/-- Behind some options and input files comes the end, a question, or a word that is no option. -/
theorem commandLine_cases :
    ∀ args : List Bytes, (∃ inputs, CommandLine args inputs) ∨ AsksInfo args ∨ Unknown args
  | [] => .inl ⟨[], .nil⟩
  | w :: rest => by
    by_cases hinfo : AsksVersion w ∨ AsksHelp w
    · exact .inr (.inl ⟨[], w, rest, [], rfl, .nil, hinfo⟩)
    by_cases ho : w = ascii "-o"
    · subst ho
      cases rest with
      | nil => exact .inr (.inr ⟨[], _, [], [], rfl, .nil, hinfo, .inl ⟨rfl, rfl⟩⟩)
      | cons file rest =>
        have hword : CommandLine [ascii "-o", file] [] := .output file .nil
        rcases commandLine_cases rest with ⟨inputs, h⟩ | h | h
        · exact .inl ⟨inputs, .output file h⟩
        · exact .inr (.inl (h.behind hword))
        · exact .inr (.inr (h.behind hword))
    cases hread : readArgument w .start with
    | none =>
      exact .inr (.inr ⟨[], w, rest, [], rfl, .nil, hinfo, .inr ⟨ho, fun p => readArgument_none hread⟩⟩)
    | some p =>
      obtain ⟨ps, hword⟩ := commandLine_word hread
      rcases commandLine_cases rest with ⟨inputs, h⟩ | h | h
      · exact .inl ⟨ps ++ inputs, hword.append h⟩
      · exact .inr (.inl (h.behind hword))
      · exact .inr (.inr (h.behind hword))

/-! ### What comes of the three -/

theorem CommandLine.reads (h : CommandLine args inputs) (p : Process) :
    ∃ p', readArguments args p = (none, p') ∧ p.Adds inputs p' := by
  obtain ⟨p', hread, hp⟩ := h.read [] p
  rw [List.append_nil] at hread
  exact ⟨p', hread, hp⟩

theorem AsksInfo.reads (h : AsksInfo args) (p : Process) :
    ∃ p', readArguments args p = (some true, p') ∧ p'.out = p.out ∧
      (p'.options.showVersion = true ∨ p'.options.showHelp = true) := by
  obtain ⟨front, w, rest, inputs, rfl, hfront, hw⟩ := h
  obtain ⟨p', hread, hp⟩ := hfront.read (w :: rest) p
  rw [hread, readArguments.eq_def]
  by_cases hversion : AsksVersion w
  · exact ⟨_, if_pos hversion, hp.out, .inl rfl⟩
  · have hhelp : AsksHelp w := hw.resolve_left hversion
    refine ⟨{ p' with options := { p'.options with showHelp := true } }, ?_, hp.out, .inr rfl⟩
    dsimp only
    rw [if_neg hversion, if_pos hhelp]

theorem Unknown.reads (h : Unknown args) (p : Process) :
    ∃ p', readArguments args p = (some false, p') ∧ p'.out = p.out ++ helpText := by
  obtain ⟨front, w, rest, inputs, rfl, hfront, hw, hbad⟩ := h
  obtain ⟨p', hread, hp⟩ := hfront.read (w :: rest) p
  rw [not_or] at hw
  refine ⟨(rejectArgument w p').2, ?_, congrArg (· ++ helpText) hp.out⟩
  rw [hread, readArguments.eq_def]
  dsimp only
  rw [if_neg hw.1, if_neg hw.2]
  rcases hbad with ⟨ho, rfl⟩ | ⟨ho, hnone⟩
  · rw [if_pos ho]
    rfl
  · rw [if_neg ho, hnone]
    rfl

theorem CommandLine.not_info (h : CommandLine args inputs) : ¬ AsksInfo args := by
  intro hinfo
  obtain ⟨p₁, h₁, -⟩ := h.reads .start
  obtain ⟨p₂, h₂, -⟩ := hinfo.reads .start
  rw [h₁] at h₂
  cases h₂

theorem CommandLine.unique {inputs' : List Path} (h : CommandLine args inputs)
    (h' : CommandLine args inputs') : inputs' = inputs := by
  obtain ⟨p₁, h₁, hp₁⟩ := h.reads .start
  obtain ⟨p₂, h₂, hp₂⟩ := h'.reads .start
  rw [h₁] at h₂
  cases h₂
  exact hp₂.inputs.symm.trans hp₁.inputs

theorem Unknown.not_commandLine (h : Unknown args) : ¬ ∃ inputs, CommandLine args inputs := by
  rintro ⟨inputs, hline⟩
  obtain ⟨p₁, h₁, -⟩ := hline.reads .start
  obtain ⟨p₂, h₂, -⟩ := h.reads .start
  rw [h₁] at h₂
  cases h₂

theorem Unknown.not_info (h : Unknown args) : ¬ AsksInfo args := by
  intro hinfo
  obtain ⟨p₁, h₁, -⟩ := hinfo.reads .start
  obtain ⟨p₂, h₂, -⟩ := h.reads .start
  rw [h₁] at h₂
  cases h₂

/-! ### The exit status -/

variable {fs : FileMap} {n : ℕ}

/-- The search from a root succeeds exactly on sound packs. -/
theorem compilePack_status (hn : fs.length < n) (root : Path) :
    ∃ rc s, compilePack fs n root = .ok (rc, s) ∧
      (s.session.interner.strings.length ≤ 2 ^ 30 → (rc = 0 ↔ Sound (dependencies fs) root)) := by
  obtain ⟨rc, s, hrun, -, hout⟩ := parseFile_spec fs n root .start (ready_start fs) hn
  refine ⟨rc, s, hrun, fun hlen => ?_⟩
  exact (hout (room_of_length hlen) (searched_start fs) fun b hb => absurd hb List.not_mem_nil).sound_iff

/-- The session of the pack has room for its identifiers. -/
def HasRoom (fs : FileMap) (n : ℕ) (root : Path) : Prop :=
  ∀ rc s, compilePack fs n root = .ok (rc, s) → s.session.interner.strings.length ≤ 2 ^ 30

theorem compileAll_status (hn : fs.length < n) (hroom : ∀ q ∈ inputs, HasRoom fs n q) :
    ∃ status, compileAll fs n inputs = .ok status ∧
      (status = 0 ↔ ∀ q ∈ inputs, Sound (dependencies fs) q) := by
  induction inputs with
  | nil => exact ⟨0, rfl, by simp⟩
  | cons q inputs ih =>
    obtain ⟨rc, s, hrun, hiff⟩ := compilePack_status hn q
    have hsound := hiff (hroom q List.mem_cons_self rc s hrun)
    obtain ⟨status, hall, hstatus⟩ := ih fun r hr => hroom r (List.mem_cons_of_mem _ hr)
    rw [compileAll, hrun]
    by_cases hrc : rc = 0
    · refine ⟨status, by simpa [hrc] using hall, ?_⟩
      rw [hstatus, List.forall_mem_cons]
      exact ⟨fun h => ⟨hsound.mp hrc, h⟩, fun h => h.2⟩
    · refine ⟨rc, by simp [hrc], ?_⟩
      rw [List.forall_mem_cons]
      exact ⟨fun h => absurd h hrc, fun h => absurd (hsound.mpr h.1) hrc⟩

theorem CommandLine.mem (h : CommandLine args inputs) : ∀ q ∈ inputs, q ∈ args := by
  induction h with
  | nil => simp
  | debug _ ih => exact fun q hq => List.mem_cons_of_mem _ (ih q hq)
  | debugOnly _ _ ih => exact fun q hq => List.mem_cons_of_mem _ (ih q hq)
  | optimize _ ih => exact fun q hq => List.mem_cons_of_mem _ (ih q hq)
  | output _ _ ih => exact fun q hq => List.mem_cons_of_mem _ (List.mem_cons_of_mem _ (ih q hq))
  | input file hf _ ih =>
    intro q hq
    rcases List.mem_cons.mp hq with rfl | hq
    · exact List.mem_cons_self
    · exact List.mem_cons_of_mem _ (ih q hq)

theorem append_helpText_ne (t : Bytes) : t ++ helpText ≠ [] := by
  intro h
  have hnil : helpText = [] := (List.append_eq_nil_iff.mp h).2
  exact absurd hnil (by decide)

theorem append_versionText_ne (t : Bytes) : t ++ versionText ≠ [] := by
  intro h
  have hnil : versionText = [] := (List.append_eq_nil_iff.mp h).2
  exact absurd hnil (by decide)

/-- The words that the program succeeds with. -/
def Succeeds (fs : FileMap) (args : List Bytes) : Prop :=
  AsksInfo args ∨ ∃ inputs, CommandLine args inputs ∧ inputs ≠ [] ∧
    ∀ q ∈ inputs, Sound (dependencies fs) q

theorem CommandLine.succeeds_iff (h : CommandLine args inputs) :
    Succeeds fs args ↔ inputs ≠ [] ∧ ∀ q ∈ inputs, Sound (dependencies fs) q := by
  constructor
  · rintro (hinfo | ⟨inputs', h', hall⟩)
    · exact absurd hinfo h.not_info
    · exact h.unique h' ▸ hall
  · exact fun hall => .inr ⟨inputs, h, hall⟩

theorem CommandLine.single_iff (h : CommandLine args inputs) :
    (∃ q, CommandLine args [q]) ↔ inputs.length = 1 := by
  constructor
  · rintro ⟨q, hq⟩
    rw [← h.unique hq]
    rfl
  · intro hlen
    obtain ⟨q, rfl⟩ := List.length_eq_one_iff.mp hlen
    exact ⟨q, h⟩

/-- The exit status and the standard output of an invocation. -/
structure Invoked (fs : FileMap) (args : List Bytes) (status : ℕ) (out : Bytes) : Prop where
  status : status = 0 ↔ Succeeds fs args
  quiet : out = [] ↔ ∃ q, CommandLine args [q]

theorem main_of_parsed {b : Bool} (h : parseCommandLine args .start = (b, p)) :
    main fs n args = if b then run fs n p else .ok (1, p) := by
  unfold main
  rw [h]

theorem CommandLine.invoked (hn : fs.length < n) (hroom : ∀ q ∈ args, HasRoom fs n q)
    (h : CommandLine args inputs) :
    ∃ status p, main fs n args = .ok (status, p) ∧ Invoked fs args status p.out := by
  obtain ⟨p, hread, hp⟩ := h.reads .start
  obtain ⟨status, hall, hstatus⟩ := compileAll_status hn fun q hq => hroom q (h.mem q hq)
  have hfiles : p.options.inputFiles = inputs := hp.inputs
  have hversion : p.options.showVersion = false := hp.showVersion
  have hhelp : p.options.showHelp = false := hp.showHelp
  have hout : p.out = [] := hp.out
  have hrun : ∀ p' : Process, p'.options = p.options → run fs n p' = .ok (status, p') := by
    intro p' hp'
    unfold run
    rw [hp', hversion, hhelp, hfiles, hall]
    rfl
  have hsingle : ∀ t : Bytes, inputs.length ≠ 1 →
      (t ++ helpText = [] ↔ ∃ q, CommandLine args [q]) := by
    intro t hlen
    rw [h.single_iff]
    exact ⟨fun hnil => absurd hnil (append_helpText_ne t), fun hone => absurd hone hlen⟩
  by_cases hinputs : inputs = []
  · have hparse : ∃ p', parseCommandLine args .start = (false, p') ∧ p'.out = helpText := by
      unfold parseCommandLine checkInputs
      split
      · exact ⟨_, rfl, rfl⟩
      · rw [hread]
        dsimp only
        rw [if_pos ⟨hfiles.trans hinputs, hversion, hhelp⟩]
        exact ⟨_, rfl, congrArg (· ++ helpText) hout⟩
    obtain ⟨p', hparse, hout'⟩ := hparse
    refine ⟨1, p', main_of_parsed hparse, ?_, hout' ▸ hsingle [] (by simp [hinputs])⟩
    rw [h.succeeds_iff]
    simp [hinputs]
  have hsucceeds : status = 0 ↔ Succeeds fs args := by
    rw [h.succeeds_iff, hstatus]
    exact ⟨fun hall => ⟨hinputs, hall⟩, fun hall => hall.2⟩
  have hargs : args ≠ [] := by
    rintro rfl
    cases h
    exact hinputs rfl
  have hparse : parseCommandLine args .start = checkInputs p := by
    unfold parseCommandLine
    rw [if_neg hargs, hread]
  unfold checkInputs at hparse
  rw [if_neg fun hnil => hinputs (hfiles ▸ hnil.1), hfiles] at hparse
  by_cases hone : inputs.length = 1
  · rw [if_neg (not_not.mpr hone)] at hparse
    refine ⟨status, p, (main_of_parsed hparse).trans (hrun p rfl), hsucceeds, ?_⟩
    rw [h.single_iff]
    exact ⟨fun _ => hone, fun _ => hout⟩
  · rw [if_pos hone] at hparse
    exact ⟨status, _, (main_of_parsed hparse).trans (hrun _ rfl), hsucceeds, hsingle _ hone⟩

/-- The program exits with 0 exactly when it is asked for information or all its packs are sound,
and it prints nothing exactly when it is given one input file. -/
theorem main_invoked (fs : FileMap) (n : ℕ) (hn : fs.length < n) (args : List Bytes)
    (hroom : ∀ q ∈ args, HasRoom fs n q) :
    ∃ status p, main fs n args = .ok (status, p) ∧ Invoked fs args status p.out := by
  rcases commandLine_cases args with ⟨inputs, h⟩ | h | h
  · exact h.invoked hn hroom
  · obtain ⟨p, hread, -, hasked⟩ := h.reads .start
    have hargs : args ≠ [] := by
      rintro rfl
      cases hread
    have hnone : ¬ ∃ q, CommandLine args [q] := fun ⟨q, hq⟩ => hq.not_info h
    have hparse : parseCommandLine args .start = (true, p) := by
      unfold parseCommandLine
      rw [if_neg hargs, hread]
    rw [main_of_parsed hparse, if_pos rfl]
    unfold run
    by_cases hversion : p.options.showVersion = true
    · rw [if_pos hversion]
      exact ⟨0, printVersion p, rfl, ⟨fun _ => .inl h, fun _ => rfl⟩,
        fun hnil => absurd hnil (append_versionText_ne _), fun hq => absurd hq hnone⟩
    · rw [if_neg hversion, if_pos (hasked.resolve_left hversion)]
      exact ⟨0, printHelp p, rfl, ⟨fun _ => .inl h, fun _ => rfl⟩,
        fun hnil => absurd hnil (append_helpText_ne _), fun hq => absurd hq hnone⟩
  · obtain ⟨p, hread, hout⟩ := h.reads .start
    have hargs : args ≠ [] := by
      rintro rfl
      cases hread
    have hparse : parseCommandLine args .start = (false, p) := by
      unfold parseCommandLine
      rw [if_neg hargs, hread]
    refine ⟨1, p, main_of_parsed hparse, ⟨fun h0 => absurd h0 (by decide), ?_⟩, ?_, ?_⟩
    · rintro (hinfo | ⟨inputs, hline, -⟩)
      · exact absurd hinfo h.not_info
      · exact absurd ⟨inputs, hline⟩ h.not_commandLine
    · intro hnil
      exact absurd (hout ▸ hnil) (append_helpText_ne _)
    · rintro ⟨q, hq⟩
      exact absurd ⟨[q], hq⟩ h.not_commandLine

theorem main_invoked_nested : ∃ status p,
    main nestedFiles 5 [ascii "-O0", ascii "src/r.et"] = .ok (status, p) ∧
      Invoked nestedFiles [ascii "-O0", ascii "src/r.et"] status p.out := by
  refine main_invoked nestedFiles 5 (by decide) [ascii "-O0", ascii "src/r.et"]
    fun q hq rc s hrun => ?_
  have hfacts : ∀ q ∈ [ascii "-O0", ascii "src/r.et"],
      (compilePack nestedFiles 5 q).toOption.all (fun r =>
        decide (r.2.session.interner.strings.length ≤ 2 ^ 30)) = true := by
    decide +kernel
  have hfact := hfacts q hq
  rw [hrun] at hfact
  exact of_decide_eq_true hfact

end Eter.Driver
