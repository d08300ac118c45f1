import Eter.Snippets

/-!
# The rows of a snippet

What a snippet should show is stated in terms of the lines of the buffer, cut at its newlines. The
printer finds the lines by scanning from one newline to the next and numbers them by the line index;
both stay in step, and no subtraction on the way wraps.
-/

namespace Eter.Diag

open Stateful

/-! ### What a snippet shows -/

section Rows

variable (b : Bytes) (s : Span) (caption : Bytes)

def spaces (n : ℕ) : Bytes := List.replicate n (ch ' ')

/-- The span within the buffer, empty where it is inverted. -/
def spanStart : ℕ := min s.start b.length

def spanEnd : ℕ := max (spanStart b s) (min s.end b.length)

def firstLine : ℕ := lineOf b (spanStart b s)

def lastLine : ℕ := lineOf b (spanEnd b s)

def totalLines : ℕ := (b.splitOn newline).length

/-- The text of a line, counted from 1. -/
def lineText (line : ℕ) : Bytes := (b.splitOn newline).getD (line - 1) []

/-- One line of context before the span, if there is one. -/
def shownFrom : ℕ := max 1 (firstLine b s - 1)

def shownTo : ℕ := min (totalLines b) (lastLine b s + 1)

def gutter : ℕ := (decimal (shownTo b s)).length

def border : Bytes := ascii " " ++ spaces (gutter b s) ++ ascii " |\n"

/-- The number of a row, in the gutter. -/
def numberMargin (line : ℕ) : Bytes :=
  ascii " " ++ spaces (gutter b s - (decimal line).length) ++ decimal line ++ ascii " | "

def numberedRow (line : ℕ) : Bytes := numberMargin b s line ++ lineText b line ++ ascii "\n"

def markerMargin : Bytes := ascii " " ++ spaces (gutter b s) ++ ascii " | "

def markerColumn (line : ℕ) : ℕ :=
  if line = firstLine b s then columnOf b (spanStart b s) else 1

/-- The column behind the markers of a line, unless they have no width. -/
def markerStop (line : ℕ) : ℕ :=
  if line = lastLine b s then columnOf b (spanEnd b s) else (lineText b line).length + 1

def markerWidth (line : ℕ) : ℕ := max 1 (markerStop b s line - markerColumn b s line)

def captionOf (line : ℕ) : Bytes :=
  if caption ≠ [] ∧ line = lastLine b s then ascii " " ++ caption else []

def markerRow (line : ℕ) : Bytes :=
  markerMargin b s ++ spaces (markerColumn b s line - 1) ++
    List.replicate (markerWidth b s line) (ch '^') ++ captionOf b s caption line ++ ascii "\n"

/-- The rows of a line: its own and, in the span, that of its markers. -/
def rowsOf (line : ℕ) : Bytes :=
  numberedRow b s line ++
    if firstLine b s ≤ line ∧ line ≤ lastLine b s then markerRow b s caption line else []

/-- The rows of the lines from `line` on. -/
def rowsFrom (line : ℕ) : Bytes :=
  (List.range' line (shownTo b s + 1 - line)).flatMap (rowsOf b s caption)

def snippet : Bytes := border b s ++ rowsFrom b s caption (shownFrom b s)

end Rows

/-! ### Printing -/

variable {α β : Type} {b t u : Bytes} {s : Span} {caption : Bytes} {color : Colors}

/-- `m` returns `a` and prints `t`; the buffer stays and no subtraction wraps. -/
def Prints (b : Bytes) (m : PrintM α) (a : α) (t : Bytes) : Prop :=
  ∀ p : Printer, p.sm.buffer = b → p.Proper →
    Yields m (fun a' p' => a' = a ∧ p'.text = p.text ++ t ∧ p'.sm.buffer = b ∧ p'.Proper) p

namespace Prints

theorem pure (a : α) : Prints b (pure a) a [] :=
  fun _ hb hp => Yields.pure ⟨rfl, (List.append_nil _).symm, hb, hp⟩

theorem bind {m : PrintM α} {f : α → PrintM β} {a : α} {c : β} (hm : Prints b m a t)
    (hf : Prints b (f a) c u) : Prints b (m >>= f) c (t ++ u) := by
  intro p hb hp
  refine (hm p hb hp).bind ?_
  rintro _ p' ⟨rfl, htext, hb', hp'⟩
  refine (hf p' hb' hp').mono ?_
  rintro _ p'' ⟨rfl, htext', hb'', hp''⟩
  exact ⟨rfl, by rw [htext', htext, List.append_assoc], hb'', hp''⟩

theorem put (chunk : Chunk) : Prints b (put chunk) () chunk.bytes :=
  fun p hb hp => ⟨(), _, rfl, rfl, by simp [Printer.text], hb, hp⟩

theorem write (t : Bytes) : Prints b (write t) () t := Prints.put (.text t)

/-- A subtraction is exact if its operands are in order and in range. -/
theorem subtract {bits x y : ℕ} (h : y ≤ x) (hx : x < 2 ^ bits) :
    Prints b (subtract bits x y) (x - y) [] := by
  intro p hb hp
  refine ⟨_, _, rfl, ?_, (List.append_nil _).symm, hb, ?_⟩
  · rw [show x + 2 ^ bits - y = x - y + 2 ^ bits by omega, Nat.add_mod_right]
    exact Nat.mod_eq_of_lt (by omega)
  · intro d hd
    rcases List.mem_append.mp hd with hd | hd
    · exact hp d hd
    · rw [List.mem_singleton.mp hd]
      exact h

theorem getLocation {o : ℕ} (hsize : b.length < 2 ^ 31) (ho : o ≤ b.length) :
    Prints b (getLocation o) ⟨lineOf b o, columnOf b o⟩ [] := by
  rintro p rfl hp
  exact ⟨_, _, rfl, getLocation_eq (by omega) ho, (List.append_nil _).symm,
    SourceManager.getLocation_buffer p.sm o, hp⟩

theorem writeRepeated (n : ℕ) (c : UInt8) : Prints b (writeRepeated n c) () (List.replicate n c) := by
  induction n with
  | zero => exact Prints.pure ()
  | succ n ih => exact (Prints.write [c]).bind ih

theorem congr {m : PrintM α} {a : α} (hm : Prints b m a t) (h : t = u) : Prints b m a u := h ▸ hm

end Prints

theorem lineOf_le (b : Bytes) (o : ℕ) : lineOf b o ≤ b.length + 1 := by
  have hle : (b.take o).count newline ≤ b.count newline := Pieces.index_length_le
  have hlen : b.count newline ≤ b.length := List.count_le_length
  unfold lineOf
  omega

theorem columnOf_le {o : ℕ} (ho : o ≤ b.length) : columnOf b o ≤ b.length + 1 := by
  unfold columnOf
  omega

theorem spanStart_le (b : Bytes) (s : Span) : spanStart b s ≤ b.length := min_le_right _ _

theorem spanEnd_le (b : Bytes) (s : Span) : spanEnd b s ≤ b.length :=
  max_le (spanStart_le b s) (min_le_right _ _)

theorem totalLines_le (b : Bytes) : totalLines b ≤ b.length + 1 := by
  have hlen : b.count newline ≤ b.length := List.count_le_length
  unfold totalLines
  rw [Pieces.length_splitOn]
  omega

theorem shownTo_le (b : Bytes) (s : Span) : shownTo b s ≤ b.length + 1 :=
  (min_le_left _ _).trans (totalLines_le b)

/-- The block that the printer makes for a span. -/
def blockOf (b : Bytes) (s : Span) (caption : Bytes) (color : Colors) : Block :=
  { options := {}, caption, color
    spanStartLine := firstLine b s
    spanEndLine := lastLine b s
    startCol := columnOf b (spanStart b s)
    endCol := columnOf b (spanEnd b s)
    ctxEndLine := shownTo b s
    gutterW := digitWidth (shownTo b s) }

theorem printTopBorder_prints :
    Prints b (printTopBorder (blockOf b s caption color)) () (border b s) := by
  have hborder : (blockOf b s caption color).options.showTopBorder = true := rfl
  unfold printTopBorder
  rw [if_pos hborder]
  refine ((Prints.write _).bind <| (Prints.put _).bind <| (Prints.writeRepeated _ _).bind <|
    (Prints.write _).bind <| Prints.put _).congr ?_
  simp [border, spaces, gutter, Chunk.bytes, blockOf, digitWidth_eq]

theorem printLine_prints {line : ℕ} (h : line ≤ shownTo b s) (hsize : b.length < 2 ^ 31)
    (text : Bytes) : Prints b (printLine (blockOf b s caption color) line text) ()
      (numberMargin b s line ++ text ++ ascii "\n") := by
  have hshown := shownTo_le b s
  have hwidth : digitWidth (shownTo b s) < 2 ^ 32 := digitWidth_lt (by omega)
  unfold printLine
  rw [if_neg fun hskip => hskip.1 rfl]
  refine ((Prints.write _).bind <| (Prints.put _).bind <|
    (Prints.subtract (digitWidth_le h) hwidth).bind <| (Prints.writeRepeated _ _).bind <|
    (Prints.write _).bind <| (Prints.write _).bind <| (Prints.put _).bind <|
    (Prints.write _).bind <| Prints.write _).congr ?_
  simp [numberMargin, spaces, gutter, Chunk.bytes, digitWidth_eq]

theorem printCaption_prints (line : ℕ) :
    Prints b (printCaption (blockOf b s caption color) line) () (captionOf b s caption line) := by
  unfold printCaption captionOf
  change Prints b (if caption ≠ [] ∧ line = lastLine b s then _ else _) () _
  split
  · exact (Prints.write _).bind (Prints.write _)
  · exact Prints.pure ()

/-! ### The loop -/

/-- The scan is at a line: it stands at its start, and its number is that of the row. -/
structure AtLine (b : Bytes) (off line : ℕ) : Prop where
  start : Pieces.IsStart newline b off
  number : Pieces.index newline b off + 1 = line

namespace AtLine

variable {off line : ℕ}

theorem text (h : AtLine b off line) : (b.drop off).takeWhile (· ≠ newline) = lineText b line := by
  have hpiece := h.start.piece
  rw [← h.number]
  unfold lineText
  rw [Nat.add_sub_cancel, List.getD_eq_getElem?_getD, hpiece, Option.getD_some]

theorem length (h : AtLine b off line) :
    Pieces.stop newline b off - off = (lineText b line).length := by
  rw [← h.text]
  exact Nat.add_sub_cancel_left _ _

/-- From one line the scan goes to the next. -/
theorem next (h : AtLine b off line) (hstop : Pieces.stop newline b off < b.length) :
    AtLine b (Pieces.stop newline b off + 1) (line + 1) := by
  obtain ⟨hstart, hindex⟩ := h.start.next hstop
  exact ⟨hstart, by rw [hindex, h.number]⟩

/-- At the end of the buffer the scan is at the last line. -/
theorem last (h : AtLine b off line) (hstop : b.length ≤ Pieces.stop newline b off) :
    line = totalLines b := by
  unfold totalLines
  rw [← h.number, h.start.last hstop, Pieces.length_splitOn]

theorem stop_le_length (h : AtLine b off line) : Pieces.stop newline b off ≤ b.length :=
  Pieces.stop_le_length h.start.le

end AtLine

theorem markerColumn_pos (b : Bytes) (s : Span) (line : ℕ) : 1 ≤ markerColumn b s line := by
  unfold markerColumn columnOf
  split
  · exact Nat.le_add_left 1 _
  · exact le_rfl

theorem markerColumn_le (b : Bytes) (s : Span) (line : ℕ) :
    markerColumn b s line ≤ b.length + 1 := by
  unfold markerColumn
  split
  · exact columnOf_le (spanStart_le b s)
  · exact Nat.le_add_left 1 _

theorem markerStop_le (b : Bytes) (s : Span) {off line : ℕ} (h : AtLine b off line) :
    markerStop b s line ≤ b.length + 1 := by
  have hstop := h.stop_le_length
  unfold markerStop
  split
  · exact columnOf_le (spanEnd_le b s)
  · rw [← h.length]
    omega

theorem printMarkers_prints {off line : ℕ} (h : AtLine b off line) (hsize : b.length < 2 ^ 31) :
    Prints b (printMarkers (blockOf b s caption color) line off (Pieces.stop newline b off)) ()
      (markerRow b s caption line) := by
  have hstop := h.stop_le_length
  have hfrom : (if line = (blockOf b s caption color).spanStartLine then
      (blockOf b s caption color).startCol else 1) = markerColumn b s line := rfl
  have hto : (if line = (blockOf b s caption color).spanEndLine then
      (blockOf b s caption color).endCol
      else add32 ((Pieces.stop newline b off - off) % 2 ^ 32) 1) = markerStop b s line := by
    rw [Nat.mod_eq_of_lt (by omega), add32_eq (by omega), h.length]
    rfl
  have hpos := markerColumn_pos b s line
  have hcol := markerColumn_le b s line
  have hmark := markerStop_le b s h
  have hbehind : (if markerStop b s line ≤ markerColumn b s line then
      add32 (markerColumn b s line) 1 else markerStop b s line) =
      markerColumn b s line + markerWidth b s line := by
    unfold markerWidth
    split
    · rw [add32_eq (by omega)]
      omega
    · omega
  have hwidth : markerColumn b s line + markerWidth b s line ≤ b.length + 2 := by
    unfold markerWidth
    omega
  have hle : off ≤ Pieces.stop newline b off := Pieces.stop_le
  unfold printMarkers
  refine ((Prints.subtract hle (by omega)).bind (u := markerRow b s caption line) ?_).congr
    (List.nil_append _)
  simp only [hfrom, hto, hbehind]
  refine ((Prints.subtract (Nat.le_add_right _ _) (by omega)).bind <| (Prints.write _).bind <|
    (Prints.put _).bind <| (Prints.writeRepeated _ _).bind <| (Prints.write _).bind <|
    (Prints.put _).bind <| (Prints.subtract hpos (by omega)).bind <|
    (Prints.writeRepeated _ _).bind <| (Prints.put _).bind <| (Prints.writeRepeated _ _).bind <|
    (printCaption_prints line).bind <| (Prints.put _).bind <| Prints.write _).congr ?_
  simp [markerRow, markerMargin, spaces, gutter, Chunk.bytes, blockOf, digitWidth_eq]

theorem printMarkersInSpan_prints {off line : ℕ} (h : AtLine b off line)
    (hsize : b.length < 2 ^ 31) :
    Prints b (printMarkersInSpan (blockOf b s caption color) line off (Pieces.stop newline b off))
      () (if firstLine b s ≤ line ∧ line ≤ lastLine b s then markerRow b s caption line else []) := by
  unfold printMarkersInSpan
  change Prints b (if firstLine b s ≤ line ∧ line ≤ lastLine b s then _ else _) () _
  split
  · exact printMarkers_prints h hsize
  · exact Prints.pure ()

theorem rowsFrom_of_le {line : ℕ} (h : line ≤ shownTo b s) :
    rowsFrom b s caption line = rowsOf b s caption line ++ rowsFrom b s caption (line + 1) := by
  unfold rowsFrom
  rw [show shownTo b s + 1 - line = shownTo b s + 1 - (line + 1) + 1 by omega, List.range'_succ,
    List.flatMap_cons]

theorem rowsFrom_of_lt {line : ℕ} (h : shownTo b s < line) : rowsFrom b s caption line = [] := by
  unfold rowsFrom
  rw [Nat.sub_eq_zero_of_le h]
  rfl

/-- What is on the stream and the rows from the next line on make up `all`. -/
structure Loop (b : Bytes) (s : Span) (caption all : Bytes) (v : ℕ) (state : ℕ × ℕ)
    (p : Printer) : Prop where
  buffer : p.sm.buffer = b
  proper : p.Proper
  variant : v = shownTo b s + 1 - state.2
  at_line : state.2 ≤ shownTo b s → AtLine b state.1 state.2
  text : p.text ++ rowsFrom b s caption state.2 = all

/-- What is left when the loop ends. -/
def Printed (b all : Bytes) (_ : Unit) (p : Printer) : Prop :=
  p.sm.buffer = b ∧ p.Proper ∧ p.text = all

theorem printTurn_spec (hsize : b.length < 2 ^ 31) (v : ℕ) (state : ℕ × ℕ) (p : Printer)
    (h : Loop b s caption t v state p) :
    Yields (printTurn (blockOf b s caption color) b state)
      (fun r p' => r.Leads (fun state' => ∃ v' < v, Loop b s caption t v' state' p')
        fun c => Printed b t c p') p := by
  obtain ⟨off, line⟩ := state
  obtain ⟨hb, hp, hv, hat, htext⟩ := h
  unfold printTurn
  change Yields (if line ≤ shownTo b s then _ else _) _ _
  split
  · next hle =>
    have hat : AtLine b off line := hat hle
    have hshown := shownTo_le b s
    have hend : findLineEnd b off = Pieces.stop newline b off := findLineEnd_eq hat.start.le
    have hslice : slice b off (Pieces.stop newline b off) = lineText b line := by
      rw [slice_line hat.start.le, hat.text]
    simp only [hend, hslice]
    rw [rowsFrom_of_le hle] at htext
    refine (printLine_prints hle hsize _ p hb hp).bind ?_
    rintro - p₁ ⟨-, htext₁, hb₁, hp₁⟩
    refine (printMarkersInSpan_prints hat hsize p₁ hb₁ hp₁).bind ?_
    rintro - p₂ ⟨-, htext₂, hb₂, hp₂⟩
    have hrows : p₂.text = p.text ++ rowsOf b s caption line := by
      rw [htext₂, htext₁, List.append_assoc]
      rfl
    split
    · next hstop =>
      -- The buffer ends with the last line, behind which there are no rows.
      have htotal := hat.last hstop
      have hlast : shownTo b s < line + 1 := by
        rw [htotal]
        exact Nat.lt_succ_of_le (min_le_left _ _)
      refine Yields.pure ⟨hb₂, hp₂, ?_⟩
      rw [hrows, ← htext, rowsFrom_of_lt hlast, List.append_nil]
    · next hstop =>
      rw [add32_eq (by omega)]
      refine Yields.pure ⟨_, ?_, hb₂, hp₂, rfl, fun _ => hat.next (not_le.mp hstop), ?_⟩
      · show shownTo b s + 1 - (line + 1) < v
        have hv : v = shownTo b s + 1 - line := hv
        omega
      · rw [hrows, List.append_assoc]
        exact htext
  · next hle =>
    have hrest : rowsFrom b s caption line = [] := rowsFrom_of_lt (not_le.mp hle)
    refine Yields.pure ⟨hb, hp, ?_⟩
    rw [← htext]
    exact (by rw [hrest, List.append_nil] : p.text = p.text ++ rowsFrom b s caption line)

/-! ### The whole snippet -/

/-- The scan backwards goes back as many lines as it takes steps. -/
theorem stepBack_prints {off line steps : ℕ} (h : AtLine b off line) (hsteps : steps < line)
    (hsize : b.length < 2 ^ 31) :
    ∃ off', AtLine b off' (line - steps) ∧ Prints b (stepBack b steps off) off' [] := by
  induction steps generalizing off line with
  | zero => exact ⟨off, h, Prints.pure off⟩
  | succ steps ih =>
    have hnum := h.number
    have hne : off ≠ 0 := by
      rintro rfl
      rw [Pieces.index_zero] at hnum
      omega
    have hle := h.start.le
    have hprev : AtLine b (findLineStart b (off - 1)) (line - 1) := by
      rw [findLineStart_eq (by omega)]
      refine ⟨Pieces.start_isStart, ?_⟩
      rw [h.start.prev hne]
      omega
    obtain ⟨off', hat, hback⟩ := ih hprev (by omega)
    refine ⟨off', by rwa [show line - (steps + 1) = line - 1 - steps by omega], ?_⟩
    unfold stepBack
    rw [if_neg hne]
    exact (Prints.subtract (by omega) (by omega)).bind hback

theorem contextStartLine_prints (hsize : b.length < 2 ^ 31) :
    Prints b (contextStartLine {} (firstLine b s)) (shownFrom b s) [] := by
  have hfirst : firstLine b s ≤ b.length + 1 := lineOf_le b _
  have hpos : 1 ≤ firstLine b s := Nat.le_add_right 1 _
  unfold contextStartLine shownFrom
  split
  · next h =>
    rw [max_eq_right (by omega)]
    exact Prints.subtract hpos (by omega)
  · next h =>
    have hone : firstLine b s = 1 := by
      by_contra hne
      exact h ⟨rfl, by omega⟩
    rw [hone]
    exact Prints.pure 1

theorem newBlock_eq (hne : b ≠ []) (hsize : b.length < 2 ^ 31) :
    newBlock {} b caption color ⟨lineOf b (spanStart b s), columnOf b (spanStart b s)⟩
      ⟨lineOf b (spanEnd b s), columnOf b (spanEnd b s)⟩ = blockOf b s caption color := by
  have hlast : lineOf b (spanEnd b s) ≤ b.length + 1 := lineOf_le b _
  have hto : min (countLines b) (add32 (lineOf b (spanEnd b s)) 1) = shownTo b s := by
    rw [countLines_eq hne hsize, add32_eq (by omega)]
    rfl
  unfold newBlock
  simp only [hto]
  rfl

theorem printBlock_yields {n : ℕ} (hne : b ≠ []) (hsize : b.length < 2 ^ 31)
    (hn : b.length + 2 ≤ n) (p : Printer) (hb : p.sm.buffer = b) (hp : p.Proper) :
    Yields (printBlock n {} b s caption color)
      (Printed b (p.text ++ snippet b s caption)) p := by
  have hstart := spanStart_le b s
  have hend : (if min s.end b.length < min s.start b.length then min s.start b.length
      else min s.end b.length) = spanEnd b s := by
    unfold spanEnd spanStart
    split <;> omega
  have hfirst : firstLine b s ≤ b.length + 1 := lineOf_le b _
  have hpos : 1 ≤ firstLine b s := Nat.le_add_right 1 _
  have hat : AtLine b (findLineStart b (spanStart b s)) (firstLine b s) := by
    rw [findLineStart_eq hstart]
    exact ⟨Pieces.start_isStart, by rw [Pieces.index_start, Nat.add_comm]; rfl⟩
  have hfrom : shownFrom b s ≤ firstLine b s := by
    unfold shownFrom
    omega
  have hfrompos : 1 ≤ shownFrom b s := le_max_left _ _
  obtain ⟨off, hoff, hback⟩ := stepBack_prints hat
    (show firstLine b s - shownFrom b s < firstLine b s by omega) hsize
  rw [Nat.sub_sub_self hfrom] at hoff
  unfold printBlock
  simp only [hend]
  refine (Prints.getLocation hsize hstart p hb hp).bind ?_
  rintro _ p₁ ⟨rfl, htext₁, hb₁, hp₁⟩
  refine (Prints.getLocation hsize (spanEnd_le b s) p₁ hb₁ hp₁).bind ?_
  rintro _ p₂ ⟨rfl, htext₂, hb₂, hp₂⟩
  refine (contextStartLine_prints (s := s) hsize p₂ hb₂ hp₂).bind ?_
  rintro _ p₃ ⟨rfl, htext₃, hb₃, hp₃⟩
  have hsteps : Prints b (subtract 32 (firstLine b s) (shownFrom b s))
      (firstLine b s - shownFrom b s) [] := Prints.subtract hfrom (by omega)
  refine (hsteps p₃ hb₃ hp₃).bind ?_
  rintro _ p₄ ⟨rfl, htext₄, hb₄, hp₄⟩
  refine (hback p₄ hb₄ hp₄).bind ?_
  rintro _ p₅ ⟨rfl, htext₅, hb₅, hp₅⟩
  rw [newBlock_eq hne hsize]
  refine (printTopBorder_prints p₅ hb₅ hp₅).bind ?_
  rintro - p₆ ⟨-, htext₆, hb₆, hp₆⟩
  have htext : p₆.text = p.text ++ border b s := by
    rw [htext₆, htext₅, htext₄, htext₃, htext₂, htext₁]
    simp only [List.append_nil]
  have hshown := shownTo_le b s
  refine Yields.iterate (printTurn_spec hsize)
    (show shownTo b s + 1 - shownFrom b s < n by omega)
    ⟨hb₆, hp₆, rfl, fun _ => hoff, ?_⟩
  rw [htext, List.append_assoc]
  rfl

/-- The text of a line and its markers are printed from the same column on. -/
theorem numberMargin_length {line : ℕ} (h : line ≤ shownTo b s) :
    (numberMargin b s line).length = (markerMargin b s).length := by
  have hwidth := digitWidth_le h
  rw [digitWidth_eq, digitWidth_eq] at hwidth
  simp only [numberMargin, markerMargin, spaces, gutter, List.length_append,
    List.length_replicate]
  omega

theorem lineText_mem {line : ℕ} (hpos : 1 ≤ line) (h : line ≤ shownTo b s) :
    (b.splitOn newline)[line - 1]? = some (lineText b line) := by
  have htotal : line ≤ (b.splitOn newline).length := h.trans (min_le_left _ _)
  unfold lineText
  rw [List.getD_eq_getElem?_getD, List.getElem?_eq_getElem (by omega), Option.getD_some]

/-- Whatever was looked up before, the printer comes to an end and shows the lines of the span and
those around it, each with its number and its text, with the markers under the lines of the span,
and no subtraction on the way wraps. -/
theorem printSnippet_shows (sm : SourceManager) (out : List Chunk) (s : Span) (caption : Bytes)
    (color : Colors) (n : ℕ) (hne : sm.buffer ≠ []) (hsize : sm.buffer.length < 2 ^ 31)
    (hn : sm.buffer.length + 2 ≤ n) :
    (∃ p, printSnippet n s caption color {} ⟨sm, out, []⟩ = .ok ((), p) ∧
      p.text = out.flatMap Chunk.bytes ++ snippet sm.buffer s caption ∧
      ∀ d ∈ p.subtractions, d.2 ≤ d.1) ∧
    ∀ line, shownFrom sm.buffer s ≤ line → line ≤ shownTo sm.buffer s →
      (sm.buffer.splitOn newline)[line - 1]? = some (lineText sm.buffer line) ∧
      (numberMargin sm.buffer s line).length = (markerMargin sm.buffer s).length ∧
      1 ≤ markerWidth sm.buffer s line := by
  constructor
  · obtain ⟨⟨⟩, p, hrun, -, hproper, htext⟩ :=
      printBlock_yields hne hsize hn ⟨sm, out, []⟩
        rfl fun d hd => absurd hd List.not_mem_nil
    refine ⟨p, ?_, htext, hproper⟩
    rw [← hrun]
    show (if sm.buffer = [] then pure () else printBlock n {} sm.buffer s caption color) _ = _
    rw [if_neg hne]
  · intro line hfrom hto
    exact ⟨lineText_mem ((le_max_left _ _).trans hfrom) hto, numberMargin_length hto,
      le_max_left _ _⟩

theorem printSnippet_shows_word :
    ∃ p, printSnippet 8 ⟨2, 4⟩ (ascii "here") .RED {} ⟨.new (ascii "a\nbc\n"), [], []⟩ = .ok ((), p) ∧
      p.text = ascii "   |\n 1 | a\n 2 | bc\n   | ^^ here\n 3 | \n" := by
  obtain ⟨⟨p, hrun, htext, -⟩, -⟩ := printSnippet_shows (.new (ascii "a\nbc\n")) [] ⟨2, 4⟩
    (ascii "here") .RED 8 (by decide) (by decide) (by decide)
  exact ⟨p, hrun, htext.trans (by decide)⟩

end Eter.Diag
