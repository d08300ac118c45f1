import Eter.LexerOrder

/-!
# Which turns make literals

A literal comes from a turn that starts with a digit or a quote, by the recogniser for it.
-/

namespace Eter.Lexer
open Scan Cursor

def isLiteralKind (k : Token.Kind) : Bool :=
  k = .integer_literal || k = .float_literal || k = .string_literal || k = .char_literal

theorem mem_lexRange {cur : Cur} {it : LexerItem} :
    it ∈ lexRange cur ↔ ∃ pos c cs, TurnAt cur pos c cs ∧ it ∈ (lexStep pos c cs).1 := by
  constructor
  · induction cur using turns_induction with
    | stop cur pos hs =>
      rw [lexRange_stop hs]
      exact fun h => nomatch h
    | turn cur pos c cs hs ih =>
      rw [lexRange_turn hs]
      intro h
      rcases List.mem_append.mp h with h | h
      · exact ⟨pos, c, cs, .here hs, h⟩
      · obtain ⟨p, d, ds, ht, hit⟩ := ih h
        exact ⟨p, d, ds, .later hs ht, hit⟩
  · rintro ⟨pos, c, cs, ht, hit⟩
    exact ht.items_mem it hit

/-- What a turn starts with is what is left of the range there. -/
theorem TurnAt.reads {cur : Cur} {pos : ℕ} {c : UInt8} {cs : Bytes} (h : TurnAt cur pos c cs) :
    ∃ u, cur.Reads u ⟨pos, c :: cs⟩ := by
  induction h with
  | @here cur pos c cs h =>
    obtain ⟨u, hu, -⟩ := skipWhitespace_reads cur
    rw [h] at hu
    exact ⟨u, hu⟩
  | @later cur pos p c d cs ds h _ ih =>
    obtain ⟨u, hu, -⟩ := skipWhitespace_reads cur
    obtain ⟨v, hv⟩ := lexStep_reads pos c cs
    obtain ⟨w, hw⟩ := ih
    rw [h] at hu
    exact ⟨_, (hu.trans hv).trans hw⟩

theorem keywordKind_not_literal (text : Bytes) : isLiteralKind (keywordKind text) = false := by
  rw [keywordKind]
  split
  · next k hk =>
    have hm := List.mem_of_find?_eq_some hk
    revert hm
    generalize k = k'
    revert k'
    decide
  · decide

theorem follow_not_literal {alternatives : List (Char × Token.Kind)} {default : Token.Kind}
    (cur : Cur) (ha : ∀ a ∈ alternatives, isLiteralKind a.2 = false)
    (hd : isLiteralKind default = false) :
    isLiteralKind (follow alternatives default cur).1 = false := by
  rw [follow]
  split
  · split
    · next a hf => exact ha a (List.mem_of_find?_eq_some hf)
    · exact hd
  · exact hd

theorem followShift_not_literal {c : Char} {k₁ k₂ k₃ k₄ : Token.Kind} (cur : Cur)
    (h₁ : isLiteralKind k₁ = false) (h₂ : isLiteralKind k₂ = false)
    (h₃ : isLiteralKind k₃ = false) (h₄ : isLiteralKind k₄ = false) :
    isLiteralKind (followShift c k₁ k₂ k₃ k₄ cur).1 = false := by
  rw [followShift]
  split
  · split_ifs
    · exact follow_not_literal _ (by simpa using h₁) h₂
    · exact follow_not_literal _ (by simpa using h₃) h₄
  · exact h₄

theorem lexSymbol_not_literal (c : UInt8) (cur : Cur) :
    isLiteralKind (lexSymbol c cur).1 = false := by
  rw [lexSymbol]
  split <;> first
    | exact follow_not_literal _ (by decide) (by decide)
    | exact followShift_not_literal _ (by decide) (by decide) (by decide) (by decide)
    | rfl

theorem lineCommentKind_not_literal (slashCount : ℕ) (bang : Bool) :
    isLiteralKind (lineCommentKind slashCount bang) = false := by
  unfold lineCommentKind
  split_ifs <;> rfl

/-- A literal token and the recogniser that made it. -/
inductive LiteralTurn (pos : ℕ) (c : UInt8) (cs : Bytes) (t : Token) : Prop where
  | number (hc : isDigit c = true)
      (h : numericItem (lexNumericLiteral pos c ⟨pos + 1, cs⟩) = .token t)
  | string (hc : c = ch '"')
      (h : stringItem (lexStringLiteral ⟨pos + 1, cs⟩).terminated
        ⟨pos, (lexStringLiteral ⟨pos + 1, cs⟩).cur.pos⟩ = .token t)
  | character (hc : c = ch '\'')
      (h : characterItem (lexCharacterLiteral ⟨pos + 1, cs⟩).terminated
        (lexCharacterLiteral ⟨pos + 1, cs⟩).charCount
        ⟨pos, (lexCharacterLiteral ⟨pos + 1, cs⟩).cur.pos⟩ = .token t)

theorem Errors.no_token {items : List LexerItem} (h : Errors items) {t : Token} :
    .token t ∉ items := by
  intro ht
  obtain ⟨e, he⟩ := h _ ht
  cases he

theorem blockCommentItems_not_literal {tokStart : ℕ} {cur : Cur} {t : Token}
    (ht : .token t ∈ (blockCommentItems tokStart cur).1) : isLiteralKind t.tokenKind = false := by
  unfold blockCommentItems at ht
  dsimp only at ht
  split_ifs at ht
  · cases List.mem_singleton.mp ht
    rfl
  · rcases List.mem_cons.mp ht with h | h
    · cases h
    · cases List.mem_singleton.mp h
      rfl

theorem lexComment_not_literal {tokStart : ℕ} {cur cur' : Cur} {items : List LexerItem}
    (h : lexComment tokStart cur = some (items, cur')) {t : Token} (ht : .token t ∈ items) :
    isLiteralKind t.tokenKind = false := by
  unfold lexComment at h
  split at h
  · next c cs _ =>
    split_ifs at h
    · have hitems := congrArg Prod.fst (Option.some.inj h)
      dsimp only at hitems
      rw [← hitems] at ht
      exact blockCommentItems_not_literal ht
    · cases h
      cases List.mem_singleton.mp ht
      exact lineCommentKind_not_literal _ _
  · cases h

theorem identifierItem_not_literal {token t : Token} {text : Bytes}
    (ht : identifierItem token text = .token t) (h : isLiteralKind token.tokenKind = false) :
    isLiteralKind t.tokenKind = false := by
  unfold identifierItem at ht
  split_ifs at ht
  cases ht
  exact h

theorem symbolItem_not_literal {kind : Token.Kind} {span : Span} {t : Token}
    (ht : symbolItem kind span = .token t) (h : isLiteralKind kind = false) :
    isLiteralKind t.tokenKind = false := by
  unfold symbolItem at ht
  split_ifs at ht
  cases ht
  exact h

theorem lexToken_literal {pos : ℕ} {c : UInt8} {cs : Bytes} {t : Token}
    (ht : .token t ∈ (lexToken pos c ⟨pos + 1, cs⟩).1) (hk : isLiteralKind t.tokenKind = true) :
    LiteralTurn pos c cs t := by
  unfold lexToken at ht
  split_ifs at ht with h₁ h₂ h₃ h₄
  · have hno := identifierItem_not_literal (List.mem_singleton.mp ht).symm
      (keywordKind_not_literal _)
    rw [hno] at hk
    cases hk
  · exact .number h₂ (List.mem_singleton.mp ht).symm
  · have herr := lexQuoted_errors (ch '"') cs.length [] 0 ⟨pos + 1, cs⟩ Errors.nil
    rcases List.mem_append.mp ht with ht | ht
    · exact (herr.no_token ht).elim
    · exact .string (by simpa using h₃) (List.mem_singleton.mp ht).symm
  · have herr := lexQuoted_errors (ch '\'') cs.length [] 0 ⟨pos + 1, cs⟩ Errors.nil
    rcases List.mem_append.mp ht with ht | ht
    · exact (herr.no_token ht).elim
    · exact .character (by simpa using h₄) (List.mem_singleton.mp ht).symm
  · have hno := symbolItem_not_literal (List.mem_singleton.mp ht).symm
      (lexSymbol_not_literal c ⟨pos + 1, cs⟩)
    rw [hno] at hk
    cases hk

theorem lexStep_literal {pos : ℕ} {c : UInt8} {cs : Bytes} {t : Token}
    (ht : .token t ∈ (lexStep pos c cs).1) (hk : isLiteralKind t.tokenKind = true) :
    LiteralTurn pos c cs t := by
  unfold lexStep at ht
  dsimp only at ht
  split at ht
  · next r hr =>
    split_ifs at hr
    rw [lexComment_not_literal hr ht] at hk
    cases hk
  · exact lexToken_literal ht hk

/-- Every literal of a text comes from a turn for it. -/
theorem literal_turn {source : Bytes} {t : Token} (ht : .token t ∈ lexAll source)
    (hk : isLiteralKind t.tokenKind = true) :
    ∃ pos c cs, TurnAt ⟨0, source⟩ pos c cs ∧ LiteralTurn pos c cs t := by
  rw [lexAll_eq] at ht
  rcases List.mem_append.mp ht with ht | ht
  · obtain ⟨pos, c, cs, hturn, hit⟩ := mem_lexRange.mp ht
    exact ⟨pos, c, cs, hturn, lexStep_literal hit hk⟩
  · cases List.mem_singleton.mp ht
    cases hk

/-- The bytes a token covers. -/
def wordAt (source : Bytes) (s : Span) : Bytes := substr source s.start (s.end - s.start)

theorem TurnAt.wordAt {source : Bytes} {pos : ℕ} {c : UInt8} {u rest : Bytes}
    (h : TurnAt ⟨0, source⟩ pos c (u ++ rest)) :
    wordAt source ⟨pos, pos + 1 + u.length⟩ = c :: u := by
  obtain ⟨v, hv⟩ := h.reads
  have hsource : source = v ++ (c :: (u ++ rest)) := hv.rest_eq
  have hpos : pos = v.length := by
    have := hv.pos_eq
    simpa using this
  unfold Lexer.wordAt substr
  rw [hsource, hpos, List.drop_left, show v.length + 1 + u.length - v.length = u.length + 1 by omega,
    List.take_succ_cons, List.take_left]

theorem digit_turn {pos : ℕ} {c : UInt8} {cs : Bytes} (hc : isDigit c = true) :
    lexStep pos c cs = numericItems pos c ⟨pos + 1, cs⟩ := by
  simp [lexStep, lexToken, digit_not_slash hc, digit_not_identStart hc, hc]

end Eter.Lexer
