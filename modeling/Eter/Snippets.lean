import Eter.SourceManager
import Eter.Stateful

/-!
# Snippets

A diagnostic prints the source lines of a span with a line of context on either side, each behind
its number, and a row of markers under every line of the span.
-/

namespace Eter.Diag

open Stateful

inductive Colors where
  | RED | GREEN | YELLOW | BLUE | MAGENTA | CYAN | SAVEDCOLOR
  deriving DecidableEq, Repr

/-- What a stream receives. -/
inductive Chunk where
  | text (t : Bytes)
  | changeColor (color : Colors) (bold : Bool)
  | resetColor
  deriving DecidableEq, Repr

def Chunk.bytes : Chunk → Bytes
  | .text t => t
  | _ => []

/-- The stream, the source manager with its cache, and the operands of every unsigned subtraction
that was made. -/
structure Printer where
  sm : SourceManager
  out : List Chunk
  subtractions : List (ℕ × ℕ)

/-- The text on the stream. -/
def Printer.text (p : Printer) : Bytes := p.out.flatMap Chunk.bytes

/-- No subtraction wrapped. -/
def Printer.Proper (p : Printer) : Prop := ∀ d ∈ p.subtractions, d.2 ≤ d.1

abbrev PrintM := StateT Printer (Except Unit)

def put (chunk : Chunk) : PrintM Unit := fun p => .ok ((), { p with out := p.out ++ [chunk] })

def write (t : Bytes) : PrintM Unit := put (.text t)

/-- Unsigned subtraction in `bits` bits. -/
def subtract (bits a b : ℕ) : PrintM ℕ := fun p =>
  .ok ((a + 2 ^ bits - b) % 2 ^ bits, { p with subtractions := p.subtractions ++ [(a, b)] })

def getLocation (offset : ℕ) : PrintM SourceLocation := fun p =>
  .ok ((p.sm.getLocation offset).1, { p with sm := (p.sm.getLocation offset).2 })

def getBuffer : PrintM Bytes := fun p => .ok (p.sm.buffer, p)

/-! ### Scanning -/

/-- `StringRef::rfind`, of which position `i` and those behind it are not searched. -/
def rfind (text : Bytes) (c : UInt8) : ℕ → Option ℕ
  | 0 => none
  | i + 1 => if text[i]? = some c then some i else rfind text c i

/-- `StringRef::find` from a position on. -/
def find (text : Bytes) (c : UInt8) (first : ℕ) : Option ℕ :=
  ((text.drop first).findIdx? (· == c)).map (first + ·)

/-- `StringRef::slice`: both ends are clamped. -/
def slice (text : Bytes) (first last : ℕ) : Bytes :=
  let first := min first text.length
  let last := min (max last first) text.length
  (text.take last).drop first

def digitWidthFrom : ℕ → ℕ → ℕ → ℕ
  | 0, w, _ => w
  | fuel + 1, w, n => if n ≥ 10 then digitWidthFrom fuel (w + 1) (n / 10) else w

def digitWidth (n : ℕ) : ℕ := digitWidthFrom n 1 n

def findLineStart (b : Bytes) (off : ℕ) : ℕ :=
  if off = 0 then 0
  else
    let off := if off > b.length then b.length else off
    match rfind b newline (min off b.length) with
    | none => 0
    | some nl => nl + 1

def findLineEnd (b : Bytes) (off : ℕ) : ℕ := (find b newline off).getD b.length

def countLines (b : Bytes) : ℕ :=
  if b = [] then 0 else b.foldl (fun n c => if c = newline then add32 n 1 else n) 1

def writeRepeated : ℕ → UInt8 → PrintM Unit
  | 0, _ => pure ()
  | count + 1, c => do
    write [c]
    writeRepeated count c

/-- A number as a stream prints it. -/
def decimal (n : ℕ) : Bytes := (Nat.toDigits 10 n).map ch

/-! ### The block -/

structure SnippetOptions where
  showTopBorder : Bool := true
  showContextBefore : Bool := true
  useCaret : Bool := true
  skipLine : ℕ := 0
  deriving DecidableEq, Repr

/-- What the rows of a block depend on. -/
structure Block where
  options : SnippetOptions
  caption : Bytes
  color : Colors
  spanStartLine : ℕ
  spanEndLine : ℕ
  startCol : ℕ
  endCol : ℕ
  ctxEndLine : ℕ
  gutterW : ℕ

def newBlock (options : SnippetOptions) (b caption : Bytes) (color : Colors)
    (startLoc endLoc : SourceLocation) : Block :=
  let ctxEndLine := min (countLines b) (add32 endLoc.line 1)
  { options, caption, color, ctxEndLine
    spanStartLine := startLoc.line
    spanEndLine := endLoc.line
    startCol := startLoc.column
    endCol := endLoc.column
    gutterW := digitWidth ctxEndLine }

def contextStartLine (options : SnippetOptions) (spanStartLine : ℕ) : PrintM ℕ :=
  if options.showContextBefore ∧ spanStartLine > 1 then subtract 32 spanStartLine 1
  else pure spanStartLine

/-- At most `steps` lines back. -/
def stepBack (b : Bytes) : ℕ → ℕ → PrintM ℕ
  | 0, lineOff => pure lineOff
  | steps + 1, lineOff =>
    if lineOff = 0 then pure lineOff
    else do
      let off ← subtract 64 lineOff 1
      stepBack b steps (findLineStart b off)

def printTopBorder (block : Block) : PrintM Unit :=
  if block.options.showTopBorder then do
    write (ascii " ")
    put (.changeColor .BLUE true)
    writeRepeated block.gutterW (ch ' ')
    write (ascii " |\n")
    put .resetColor
  else pure ()

def printLine (block : Block) (curLine : ℕ) (lineText : Bytes) : PrintM Unit :=
  if block.options.skipLine ≠ 0 ∧ curLine = block.options.skipLine then pure ()
  else do
    write (ascii " ")
    put (.changeColor .BLUE true)
    let pad ← subtract 32 block.gutterW (digitWidth curLine)
    writeRepeated pad (ch ' ')
    write (decimal curLine)
    write (ascii " | ")
    put .resetColor
    write lineText
    write (ascii "\n")

def printCaption (block : Block) (curLine : ℕ) : PrintM Unit :=
  if block.caption ≠ [] ∧ curLine = block.spanEndLine then do
    write (ascii " ")
    write block.caption
  else pure ()

def printMarkers (block : Block) (curLine lineOff lineEndOff : ℕ) : PrintM Unit := do
  let lineLen ← subtract 64 lineEndOff lineOff
  let lineLen := lineLen % 2 ^ 32
  let fromCol := if curLine = block.spanStartLine then block.startCol else 1
  let toCol := if curLine = block.spanEndLine then block.endCol else add32 lineLen 1
  let toCol := if toCol ≤ fromCol then add32 fromCol 1 else toCol
  let width ← subtract 32 toCol fromCol
  write (ascii " ")
  put (.changeColor .BLUE true)
  writeRepeated block.gutterW (ch ' ')
  write (ascii " | ")
  put .resetColor
  let pad ← subtract 32 fromCol 1
  writeRepeated pad (ch ' ')
  put (.changeColor block.color true)
  writeRepeated width (if block.options.useCaret then ch '^' else ch '-')
  printCaption block curLine
  put .resetColor
  write (ascii "\n")

def printMarkersInSpan (block : Block) (curLine lineOff lineEndOff : ℕ) : PrintM Unit :=
  if curLine ≥ block.spanStartLine ∧ curLine ≤ block.spanEndLine then
    printMarkers block curLine lineOff lineEndOff
  else pure ()

/-- One turn of the loop over the lines, with the offset and the number of the line. -/
def printTurn (block : Block) (b : Bytes) : ℕ × ℕ → PrintM (Turn (ℕ × ℕ) Unit)
  | (lineOff, curLine) =>
    if curLine ≤ block.ctxEndLine then do
      let lineEndOff := findLineEnd b lineOff
      let lineText := slice b lineOff lineEndOff
      printLine block curLine lineText
      printMarkersInSpan block curLine lineOff lineEndOff
      if lineEndOff ≥ b.length then pure (.done ())
      else pure (.again (lineEndOff + 1, add32 curLine 1))
    else pure (.done ())

/-- The loop over the lines takes at most `n` turns. -/
def printBlock (n : ℕ) (options : SnippetOptions) (b : Bytes) (s : Span) (caption : Bytes)
    (color : Colors) : PrintM Unit := do
  let startOff := min s.start b.length
  let endOff := min s.end b.length
  let endOff := if endOff < startOff then startOff else endOff
  let startLoc ← getLocation startOff
  let endLoc ← getLocation endOff
  let ctxStartLine ← contextStartLine options startLoc.line
  let block := newBlock options b caption color startLoc endLoc
  let steps ← subtract 32 startLoc.line ctxStartLine
  let lineOff ← stepBack b steps (findLineStart b startOff)
  printTopBorder block
  iterate () (printTurn block b) n (lineOff, ctxStartLine)

def printSnippet (n : ℕ) (s : Span) (caption : Bytes) (color : Colors)
    (options : SnippetOptions) : PrintM Unit := do
  let b ← getBuffer
  if b = [] then pure ()
  else printBlock n options b s caption color

/-! ### What is scanned -/

theorem findIdx?_newline (xs : Bytes) : (xs.findIdx? (· == newline)).getD xs.length =
    (xs.takeWhile (· ≠ newline)).length := by
  induction xs with
  | nil => rfl
  | cons x xs ih =>
    rw [List.findIdx?_cons]
    by_cases hx : x = newline
    · simp [hx]
    · have hx' : (x == newline) = false := by simpa using hx
      rw [hx', List.takeWhile_cons_of_pos (by simpa using hx), List.length_cons, List.length_cons,
        ← ih]
      cases xs.findIdx? (· == newline) <;> rfl

theorem findLineEnd_eq {b : Bytes} {off : ℕ} (h : off ≤ b.length) :
    findLineEnd b off = Pieces.stop newline b off := by
  have hscan := findIdx?_newline (b.drop off)
  unfold findLineEnd find Pieces.stop
  rw [← hscan, List.length_drop]
  cases (b.drop off).findIdx? (· == newline) with
  | none => exact (Nat.add_sub_cancel' h).symm
  | some i => rfl

theorem rfind_newline (b : Bytes) (off : ℕ) :
    ((rfind b newline off).elim 0 fun nl => nl + 1) = Pieces.start newline b off := by
  induction off with
  | zero => rfl
  | succ off ih =>
    unfold rfind Pieces.start
    split
    · rfl
    · exact ih

theorem findLineStart_eq {b : Bytes} {off : ℕ} (h : off ≤ b.length) :
    findLineStart b off = Pieces.start newline b off := by
  unfold findLineStart
  split
  · next h0 =>
    rw [h0]
    rfl
  · simp only [gt_iff_lt, if_neg (not_lt.mpr h), min_eq_left h]
    rw [← rfind_newline]
    cases rfind b newline off <;> rfl

theorem foldl_countLines (b : Bytes) (n : ℕ) (h : n + b.length < 2 ^ 32) :
    b.foldl (fun n c => if c = newline then add32 n 1 else n) n = n + b.count newline := by
  induction b generalizing n with
  | nil => rfl
  | cons c cs ih =>
    rw [List.length_cons] at h
    rw [List.foldl_cons, List.count_cons]
    split
    · next hc =>
      rw [add32_eq (by omega), ih (n + 1) (by omega), hc]
      simp only [beq_self_eq_true, if_true]
      omega
    · next hc =>
      rw [ih n (by omega)]
      simp [hc]

theorem countLines_eq {b : Bytes} (hne : b ≠ []) (h : b.length < 2 ^ 31) :
    countLines b = (b.splitOn newline).length := by
  unfold countLines
  rw [if_neg hne, foldl_countLines b 1 (by omega), Pieces.length_splitOn, Nat.add_comm]

theorem slice_line {b : Bytes} {off : ℕ} (h : off ≤ b.length) :
    slice b off (Pieces.stop newline b off) = (b.drop off).takeWhile (· ≠ newline) := by
  have hstop : Pieces.stop newline b off ≤ b.length := Pieces.stop_le_length h
  have hle : off ≤ Pieces.stop newline b off := Pieces.stop_le
  unfold slice
  simp only [min_eq_left h, max_eq_left hle, min_eq_left hstop]
  rw [List.drop_take]
  conv_lhs => rw [← List.takeWhile_append_dropWhile (p := (· ≠ newline)) (l := b.drop off)]
  unfold Pieces.stop
  rw [Nat.add_sub_cancel_left]
  exact List.take_left

theorem digitWidthFrom_eq (fuel w n : ℕ) (h : n ≤ fuel) :
    digitWidthFrom fuel (w + 1) n = w + (Nat.toDigits 10 n).length := by
  induction fuel generalizing w n with
  | zero =>
    obtain rfl : n = 0 := Nat.le_zero.mp h
    rfl
  | succ fuel ih =>
    unfold digitWidthFrom
    split
    · next hn =>
      rw [ih (w + 1) (n / 10) (by omega), Nat.toDigits_of_base_le (by omega) hn]
      rw [List.length_append, List.length_singleton]
      omega
    · next hn =>
      rw [Nat.toDigits_of_lt_base (by omega), List.length_singleton]

/-- As many digits as are printed. -/
theorem digitWidth_eq (n : ℕ) : digitWidth n = (decimal n).length := by
  have hwidth := digitWidthFrom_eq n 0 n le_rfl
  unfold digitWidth decimal
  rw [hwidth, Nat.zero_add, List.length_map]

theorem digitWidth_le {m n : ℕ} (h : m ≤ n) : digitWidth m ≤ digitWidth n := by
  have hn : n < 10 ^ (Nat.toDigits 10 n).length :=
    (Nat.length_toDigits_le_iff (by omega) Nat.length_toDigits_pos).mp le_rfl
  have hm := (Nat.length_toDigits_le_iff (by omega) Nat.length_toDigits_pos).mpr
    (h.trans_lt hn)
  rw [digitWidth_eq, digitWidth_eq]
  simpa [decimal] using hm

theorem digitWidth_lt {n : ℕ} (h : n < 2 ^ 32) : digitWidth n < 2 ^ 32 := by
  have hwidth : (Nat.toDigits 10 n).length ≤ 10 :=
    (Nat.length_toDigits_le_iff (by omega) (by omega)).mpr (by omega)
  rw [digitWidth_eq]
  simp only [decimal, List.length_map]
  omega

end Eter.Diag
