import Eter.LexerRelocation
import Eter.LexerSplit
import Eter.TokenStream

/-!
# Lexing what lexemes spell

Lexemes written one behind the other with whitespace between them are read back as they are.
-/

namespace Eter.Lexer
open Scan Cursor

/-- Alone, the text is one token of the kind, and nothing else. -/
def IsLexeme (kind : Token.Kind) (text : Bytes) : Prop :=
  lexAll text = [.token ⟨kind, ⟨0, text.length⟩⟩, .token ⟨.eof, ⟨text.length, text.length⟩⟩]

instance (kind : Token.Kind) (text : Bytes) : Decidable (IsLexeme kind text) :=
  inferInstanceAs (Decidable (_ = _))

/-- A lexeme and the separator behind it. -/
structure SpelledLexeme where
  kind : Token.Kind
  text : Bytes
  separator : Bytes

/-- The separator is whitespace, and behind a line comment it starts with a newline. -/
structure SpelledLexeme.WellSpelled (l : SpelledLexeme) : Prop where
  lexeme : IsLexeme l.kind l.text
  nonempty : l.separator ≠ []
  spaces : ∀ d ∈ l.separator, isSpace d = true
  newline : startsLineComment l.text = true → ∀ d ∈ l.separator.head?, isNewline d = true

def concatenation (ls : List SpelledLexeme) : Bytes := ls.flatMap fun l => l.text ++ l.separator

/-- The tokens of the lexemes, from an offset on. -/
def tokensFrom (start : ℕ) : List SpelledLexeme → List Token
  | [] => []
  | l :: ls => ⟨l.kind, ⟨start, start + l.text.length⟩⟩ ::
      tokensFrom (start + (l.text.length + l.separator.length)) ls

theorem lexAll_eq (buffer : Bytes) : lexAll buffer =
    lexRange ⟨0, buffer⟩ ++ [.token ⟨.eof, ⟨buffer.length, buffer.length⟩⟩] := by
  have hr : ValidRange buffer ⟨0, buffer.length⟩ := ⟨Nat.zero_le _, le_rfl⟩
  have hstart : rangeStart buffer ⟨0, buffer.length⟩ = ⟨0, buffer⟩ := by simp [rangeStart]
  rw [lexAll, lex, if_pos hr, hstart]
  simp [eofItems]

/-- A lexeme is read in one turn, to the end. -/
theorem IsLexeme.turn {kind : Token.Kind} {text : Bytes} (h : IsLexeme kind text) :
    ∃ c cs, text = c :: cs ∧ isSpace c = false ∧
      lexStep 0 c cs = ([.token ⟨kind, ⟨0, text.length⟩⟩], ⟨text.length, []⟩) := by
  have hrun : lexRange ⟨0, text⟩ = [.token ⟨kind, ⟨0, text.length⟩⟩] := by
    have h' : lexAll text = _ := h
    rw [lexAll_eq] at h'
    have hsplit : lexRange ⟨0, text⟩ ++ [LexerItem.token ⟨.eof, ⟨text.length, text.length⟩⟩] =
        [LexerItem.token ⟨kind, ⟨0, text.length⟩⟩] ++
          [LexerItem.token ⟨.eof, ⟨text.length, text.length⟩⟩] := h'
    exact List.append_cancel_right hsplit
  rcases hs : skipWhitespace ⟨0, text⟩ with ⟨pos, rest⟩
  cases rest with
  | nil =>
    rw [lexRange_stop hs] at hrun
    cases hrun
  | cons c cs =>
    rw [lexRange_turn hs] at hrun
    have hmem : ∀ it ∈ (lexStep pos c cs).1, it = .token ⟨kind, ⟨0, text.length⟩⟩ := by
      intro it hit
      have := List.mem_append_left (lexRange (lexStep pos c cs).2) hit
      rw [hrun] at this
      exact List.mem_singleton.mp this
    have hnot : ¬ DoubledSeparator c cs := by
      intro hd
      have hitem := hmem (.error ⟨.InvalidNumericLiteral, ⟨0, 0⟩⟩) (by simp [lexStep_doubled hd])
      cases hitem
    obtain ⟨it, hit, hspan⟩ := (lexStep_covers hnot).whole
    obtain rfl := hmem it hit
    have hpos : pos = 0 ∧ text.length = (lexStep pos c cs).2.pos := by
      have hspan' : (⟨0, text.length⟩ : Span) = ⟨pos, (lexStep pos c cs).2.pos⟩ := hspan
      simp only [Span.mk.injEq] at hspan'
      exact ⟨hspan'.1.symm, hspan'.2⟩
    obtain ⟨rfl, hend⟩ := hpos
    obtain ⟨u, hu, -⟩ := skipWhitespace_reads ⟨0, text⟩
    rw [hs] at hu
    have hnil : u = [] := List.length_eq_zero_iff.mp (by simpa using hu.pos_eq.symm)
    have htext : text = c :: cs := by simpa [hnil] using hu.rest_eq
    refine ⟨c, cs, htext, skipWhitespace_head hs, Prod.ext ?_ ?_⟩
    · cases hitems : (lexStep 0 c cs).1 with
      | nil =>
        rw [hitems] at hit
        cases hit
      | cons it its =>
        rw [hitems] at hrun
        have hcons := List.cons.inj hrun
        rw [hcons.1, (List.append_eq_nil_iff.mp hcons.2).1]
    · obtain ⟨v, hv⟩ := lexStep_reads 0 c cs
      have hlen := hv.length_eq
      have hp := hv.pos_eq
      rw [← htext] at hlen
      dsimp only at hlen hp
      have hrest : (lexStep 0 c cs).2.rest = [] := List.length_eq_zero_iff.mp (by omega)
      rcases hc : (lexStep 0 c cs).2 with ⟨q, rest⟩
      rw [hc] at hrest hend
      rw [hend, show rest = [] from hrest]

/-- The first lexeme of a text is read in one turn, and its separator is skipped. -/
theorem lexRange_lexeme {l : SpelledLexeme} (h : l.WellSpelled) (start : ℕ) (rest : Bytes) :
    lexRange ⟨start, l.text ++ l.separator ++ rest⟩ =
      .token ⟨l.kind, ⟨start, start + l.text.length⟩⟩ ::
        lexRange ⟨start + (l.text.length + l.separator.length), rest⟩ := by
  obtain ⟨c, cs, htext, hspace, hstep⟩ := h.lexeme.turn
  obtain ⟨d, ds, hsep⟩ := List.exists_cons_of_ne_nil h.nonempty
  have hd : isSpace d = true := h.spaces d (by simp [hsep])
  have hline : startsLineComment (c :: cs) = true → isNewline d = true := fun hl =>
    h.newline (htext ▸ hl) d (by simp [hsep])
  have hturn := lexStep_relocate start (ds ++ rest) hstep hd hline
  have hskip : skipWhitespace ⟨start, l.text ++ l.separator ++ rest⟩ =
      ⟨start, c :: (cs ++ d :: (ds ++ rest))⟩ := by
    rw [htext, hsep]
    simp [skipWhitespace, skipWhile, hspace]
  rw [Nat.zero_add] at hturn
  rw [lexRange_turn hskip, hturn]
  have hafter := lexRange_split_spaces (p := start + l.text.length) rest h.spaces
  have hnone : lexRange ⟨start + l.text.length, l.separator⟩ = [] := by
    have hall := skipWhile_append_of_all (start + l.text.length) [] h.spaces
    rw [List.append_nil] at hall
    exact lexRange_stop hall
  rw [hnone, List.nil_append, Nat.add_assoc] at hafter
  simp only [relocate, List.nil_append, shift, Nat.zero_add, List.singleton_append]
  rw [Nat.add_comm l.text.length start, ← hafter, hsep]
  rfl

theorem lexRange_concatenation {ls : List SpelledLexeme} (h : ∀ l ∈ ls, l.WellSpelled)
    (start : ℕ) :
    lexRange ⟨start, concatenation ls⟩ = (tokensFrom start ls).map .token := by
  induction ls generalizing start with
  | nil => rfl
  | cons l ls ih =>
    have hcons : concatenation (l :: ls) = l.text ++ l.separator ++ concatenation ls := rfl
    rw [hcons, lexRange_lexeme (h l List.mem_cons_self),
      ih fun l' hl' => h l' (List.mem_cons_of_mem _ hl')]
    rfl

theorem tokensOf_tokens (ts : List Token) (items : List LexerItem) :
    TokenStream.tokensOf (ts.map .token ++ items) =
      (ts.filter fun t => t.tokenKind ≠ .comment) ++ TokenStream.tokensOf items := by
  induction ts with
  | nil => rfl
  | cons t ts ih =>
    simp only [List.map_cons, List.cons_append, TokenStream.tokensOf, ih]
    by_cases hk : t.tokenKind = .comment <;> simp [hk]

theorem errorsOf_tokens (ts : List Token) (items : List LexerItem) :
    TokenStream.errorsOf (ts.map .token ++ items) = TokenStream.errorsOf items := by
  induction ts with
  | nil => rfl
  | cons t ts ih => exact ih

/-- Lexemes with whitespace behind each are read back as they are; the parser's stream has all but
the comments. -/
theorem lex_concatenation (ls : List SpelledLexeme) (h : ∀ l ∈ ls, l.WellSpelled) :
    lexAll (concatenation ls) = (tokensFrom 0 ls).map .token ++
        [.token ⟨.eof, ⟨(concatenation ls).length, (concatenation ls).length⟩⟩] ∧
      (TokenStream.ofItems (lexAll (concatenation ls)) (concatenation ls)).tokens =
        ((tokensFrom 0 ls).filter fun t => t.tokenKind ≠ .comment) ++
          [⟨.eof, ⟨(concatenation ls).length, (concatenation ls).length⟩⟩] ∧
      (TokenStream.ofItems (lexAll (concatenation ls)) (concatenation ls)).lexErrors = [] := by
  have hlex : lexAll (concatenation ls) = (tokensFrom 0 ls).map .token ++
      [.token ⟨.eof, ⟨(concatenation ls).length, (concatenation ls).length⟩⟩] := by
    rw [lexAll_eq, lexRange_concatenation h]
  refine ⟨hlex, ?_, ?_⟩
  · rw [hlex]
    exact tokensOf_tokens _ _
  · rw [hlex]
    exact errorsOf_tokens _ _

/-- A line comment, and a keyword behind it. -/
def commentedKeyword : List SpelledLexeme :=
  [⟨.comment, ascii "// x", ascii "\n "⟩, ⟨.kw_fn, ascii "fn", ascii " "⟩]

theorem lex_commentedKeyword : lexAll (concatenation commentedKeyword) =
    (tokensFrom 0 commentedKeyword).map .token ++ [.token ⟨.eof, ⟨9, 9⟩⟩] := by
  refine (lex_concatenation commentedKeyword ?_).1
  intro l hl
  simp only [commentedKeyword, List.mem_cons, List.not_mem_nil, or_false] at hl
  rcases hl with rfl | rfl
  · refine ⟨by decide, by decide, List.all_eq_true.mp (by decide), ?_⟩
    rintro - d hd
    obtain rfl : ch '\n' = d := Option.some.inj hd
    decide
  · exact ⟨by decide, by decide, List.all_eq_true.mp (by decide), by decide⟩

end Eter.Lexer
