import Eter.LexerTurns

/-!
# Which bytes the items account for

Every byte of a valid range that is not whitespace lies in an item, and every item is a non-empty
part of the range, exactly when no turn starts a number with two adjacent underscores in its
integer part: there the numeric recogniser returns before it has set the span of its token.
-/

namespace Eter.Lexer
open Scan Cursor

/-- The item's span contains the offset. -/
def LexerItem.At (it : LexerItem) (p : ℕ) : Prop := it.span.start ≤ p ∧ p < it.span.end

/-- Every byte of `rest`, which starts at `pos`, is whitespace or lies in an item. -/
def Accounted (items : List LexerItem) (pos : ℕ) (rest : Bytes) : Prop :=
  ∀ i b, rest[i]? = some b → isSpace b = false → ∃ it ∈ items, LexerItem.At it (pos + i)

/-- Splitting the bytes behind a word. -/
theorem accounted_append {items : List LexerItem} {pos : ℕ} {u v : Bytes}
    (hu : Accounted items pos u) (hv : Accounted items (pos + u.length) v) :
    Accounted items pos (u ++ v) := by
  intro i b hb hs
  by_cases hi : i < u.length
  · exact hu i b (by rwa [List.getElem?_append_left hi] at hb) hs
  · rw [List.getElem?_append_right (by omega)] at hb
    obtain ⟨it, hit, hat⟩ := hv (i - u.length) b hb hs
    refine ⟨it, hit, ?_⟩
    rwa [show pos + u.length + (i - u.length) = pos + i by omega] at hat

theorem Accounted.mono {items items' : List LexerItem} {pos : ℕ} {rest : Bytes}
    (h : Accounted items pos rest) (hsub : ∀ it ∈ items, it ∈ items') :
    Accounted items' pos rest := by
  intro i b hb hs
  obtain ⟨it, hit, hat⟩ := h i b hb hs
  exact ⟨it, hsub it hit, hat⟩

theorem accounted_spaces {items : List LexerItem} {pos : ℕ} {u : Bytes}
    (hu : ∀ d ∈ u, isSpace d = true) : Accounted items pos u := by
  intro i b hb hs
  have := hu b (List.mem_of_getElem? hb)
  simp [hs] at this

/-- An item that spans the whole word accounts for it. -/
theorem accounted_of_whole {items : List LexerItem} {pos : ℕ} {u : Bytes}
    (h : ∃ it ∈ items, it.span = ⟨pos, pos + u.length⟩) : Accounted items pos u := by
  intro i b hb _
  obtain ⟨it, hit, hspan⟩ := h
  have hi : i < u.length := (List.getElem?_eq_some_iff.mp hb).1
  refine ⟨it, hit, ?_⟩
  simp only [LexerItem.At, hspan]
  omega

/-- A loop whose turns meet no doubled separator loses nothing. -/
theorem lexRange_lossless (cur : Cur)
    (h : ∀ pos c cs, TurnAt cur pos c cs → ¬ DoubledSeparator c cs) :
    Within cur.pos (cur.pos + cur.rest.length) (lexRange cur) ∧
      Accounted (lexRange cur) cur.pos cur.rest := by
  induction cur using turns_induction with
  | stop cur pos hs =>
      obtain ⟨u, hu, hsp⟩ := skipWhitespace_reads cur
      rw [hs] at hu
      rw [lexRange_stop hs, hu.rest_eq]
      exact ⟨within_nil _ _, by simpa using accounted_spaces hsp⟩
  | turn cur pos c cs hs ih =>
      obtain ⟨hw, ha⟩ := ih fun p d ds ht => h p d ds (.later hs ht)
      have hcov : Covers pos ⟨pos + 1, cs⟩ (lexStep pos c cs) := lexStep_covers (h pos c cs (.here hs))
      obtain ⟨u, hu, hsp⟩ := skipWhitespace_reads cur
      obtain ⟨v, hv⟩ := lexStep_reads pos c cs
      rw [hs] at hu
      have hall := hu.trans hv
      have hl := hall.length_eq
      have hp := hall.pos_eq
      have hpu := hu.pos_eq
      have hpv := hv.pos_eq
      simp only [List.length_append] at hl hp hpu hpv
      rw [lexRange_turn hs]
      refine ⟨(within_append _ _ _ _).mpr ⟨?_, ?_⟩, ?_⟩
      · exact hcov.within.mono (by omega) (by omega)
      · exact hw.mono (by omega) (by omega)
      · rw [hall.rest_eq, List.append_assoc]
        refine accounted_append (accounted_spaces hsp) (accounted_append ?_ ?_)
        · refine (accounted_of_whole ?_).mono fun it hit => List.mem_append_left _ hit
          rw [← hpu, ← hpv]
          exact hcov.whole
        · rw [← hpu, ← hpv]
          exact ha.mono fun it hit => List.mem_append_right _ hit

/-- Every item but the end-of-file token is a non-empty part of the range, and every byte of the
range that is not whitespace lies in an item. -/
def Lossless (buffer : Bytes) (range : Span) : Prop :=
  (∀ it ∈ ignoringEof (lex buffer range), it.span.start < it.span.end ∧
    range.start ≤ it.span.start ∧ it.span.end ≤ range.end) ∧
  ∀ p b, range.start ≤ p → p < range.end → buffer[p]? = some b → isSpace b = false →
    ∃ it ∈ lex buffer range, it.span.start ≤ p ∧ p < it.span.end

theorem rangeStart_length {buffer : Bytes} {range : Span} (h : ValidRange buffer range) :
    (rangeStart buffer range).rest.length = range.end - range.start := by
  have := h.2
  simp only [rangeStart, List.length_take, List.length_drop]
  omega

theorem rangeStart_getElem? {buffer : Bytes} {range : Span} {p : ℕ} (hlo : range.start ≤ p)
    (hhi : p < range.end) : (rangeStart buffer range).rest[p - range.start]? = buffer[p]? := by
  simp only [rangeStart]
  rw [List.getElem?_take_of_lt (by omega), List.getElem?_drop,
    show range.start + (p - range.start) = p by omega]

/-- Lexing a valid range is lossless exactly when no turn of the loop starts a number whose integer
part has two adjacent underscores. -/
theorem lossless_iff_no_doubled_separator (buffer : Bytes) (range : Span)
    (hr : ValidRange buffer range) :
    Lossless buffer range ↔
      ∀ pos c cs, TurnAt (rangeStart buffer range) pos c cs → ¬ DoubledSeparator c cs := by
  constructor
  · intro hl pos c cs ht hd
    have hmem := ht.items_mem (.error ⟨.InvalidNumericLiteral, ⟨0, 0⟩⟩) (by simp [lexStep_doubled hd])
    rw [← ignoringEof_lex hr] at hmem
    exact absurd (hl.1 _ hmem).1 (lt_irrefl _)
  · intro h
    obtain ⟨hw, ha⟩ := lexRange_lossless (rangeStart buffer range) h
    have hlen := rangeStart_length hr
    have hle := hr.1
    refine ⟨?_, ?_⟩
    · intro it hit
      rw [ignoringEof_lex hr] at hit
      obtain ⟨h₁, h₂, h₃⟩ := hw it hit
      refine ⟨h₂, h₁, ?_⟩
      rw [hlen] at h₃
      simp only [rangeStart] at h₃
      omega
    · intro p b hlo hhi hb hs
      obtain ⟨it, hit, hat⟩ := ha (p - range.start) b (by rwa [rangeStart_getElem? hlo hhi]) hs
      rw [lex, if_pos hr]
      refine ⟨it, List.mem_append_left _ hit, ?_⟩
      have hp : (rangeStart buffer range).pos + (p - range.start) = p := by
        simp only [rangeStart]
        omega
      rwa [hp] at hat

theorem lossless_single_separator : ValidRange (ascii "1_2") ⟨0, 3⟩ ∧
    Lossless (ascii "1_2") ⟨0, 3⟩ := by
  have hr : ValidRange (ascii "1_2") ⟨0, 3⟩ := by decide
  have hturn : skipWhitespace (rangeStart (ascii "1_2") ⟨0, 3⟩) = ⟨0, ch '1' :: ascii "_2"⟩ := rfl
  refine ⟨hr, (lossless_iff_no_doubled_separator _ _ hr).mpr ?_⟩
  intro pos c cs ht
  cases ht with
  | here h =>
      rw [hturn] at h
      cases h
      decide
  | later h ht =>
      rw [hturn] at h
      cases h
      have hend : (lexStep 0 (ch '1') (ascii "_2")).2 = ⟨3, []⟩ := rfl
      rw [hend] at ht
      cases ht with
      | here h => cases h
      | later h _ => cases h

/-- Two adjacent underscores: the error has the span `(0, 0)`. -/
theorem doubled_separator_not_lossless : ValidRange (ascii "1__2") ⟨0, 4⟩ ∧
    ¬ Lossless (ascii "1__2") ⟨0, 4⟩ := by
  refine ⟨by decide, fun h => ?_⟩
  have hmem : LexerItem.error ⟨.InvalidNumericLiteral, ⟨0, 0⟩⟩ ∈
      ignoringEof (lex (ascii "1__2") ⟨0, 4⟩) := by decide
  exact absurd (h.1 _ hmem).1 (by decide)

end Eter.Lexer
