import Eter.ParserLoops
import Eter.ParsePats

/-!
# Patterns keep the invariant
-/

namespace Eter.Parser
open Stateful Brackets Layout

variable {w : Watch} {b e q n : ℕ} {st : List Bracket} {hs : Held} {s : PState} {rec : Rec}

theorem parseFieldPat_spec (hrec : Recurses w n rec) (hn : 4 * b + 2 ≤ n) :
    Parses w b .fieldPat (parseFieldPat rec) := by
  intro b' hb e q st hs s h
  unfold parseFieldPat
  refine Yields.read rfl ?_
  split_ifs with hc
  · refine Yields.read rfl ((h.addError _ _).bind fun _ s₁ h₁ => ?_)
    exact (h₁.1.makeErrorNode (by omega) _ rfl).mono fun _ _ h' => h'.fewer (Nat.le_succ e)
  · have hk : s.stream.peek 0 = .identifier := by simpa [TokenStream.check] using hc
    have hpos := h.pos (by rw [hk]; decide)
    refine (h.advance hk rfl).bind fun _ s₁ h₁ => ?_
    refine (h₁.internText _).bind fun _ s₂ h₂ => ?_
    refine (h₂.1.consume (k := .colon) rfl).bind ?_
    rintro _ s₃ (⟨rfl, -, h₃⟩ | ⟨rfl, rfl, -⟩)
    · refine ((hrec.pat (by omega)).yields h₃).bind fun pat s₄ h₄ => ?_
      refine h₄.spanOf (i := pat) (c := .pat) (by simp) rfl fun _ => ?_
      exact (h₄.more (by omega)).allocPlain [(pat, .pat)] rfl rfl rfl (.present rfl .nil) rfl
    · exact (h₂.1.more (Nat.sub_le b' 1)).allocLeaf rfl (.absent .nil) rfl

theorem parseStructPat_spec (hrec : Recurses w n rec) (hn : 4 * b + 2 ≤ n)
    (h : Holds w b e q st hs s) (hk : s.stream.peek 0 = .l_brace) (name : InternedStr)
    (start : Span) :
    Yields (parseStructPat n rec name start)
      (fun i s' => Holds w b e q st (hs ++ [(i, .pat)]) s') s := by
  unfold parseStructPat
  refine (h.advance hk rfl).bind fun _ s₁ h₁ => ?_
  refine ((parseFieldPat_spec hrec (by omega)).commaSeparated (by omega) h₁ []).bind ?_
  rintro fields s₂ ⟨_, rfl, h₂⟩
  refine (h₂.expect (k := .r_brace) rfl _ _).bind fun _ s₃ h₃ => ?_
  exact (h₃.1.more (Nat.sub_le b 1)).allocPlain (holding .fieldPat fields) rfl rfl
    (indices_holding fields).symm (fits_holding fields) rfl

theorem parseTuplePat_spec (hrec : Recurses w n rec) (hn : 4 * b + 1 ≤ n)
    (h : Holds w b e q st hs s) (hk : s.stream.peek 0 = .l_paren) (name : InternedStr)
    (start : Span) :
    Yields (parseTuplePat n rec name start)
      (fun i s' => Holds w (b - 1) e q st (hs ++ [(i, .pat)]) s') s := by
  have hpos := h.pos (by rw [hk]; decide)
  unfold parseTuplePat
  refine (h.advance hk rfl).bind fun _ s₁ h₁ => ?_
  refine ((hrec.pat (by omega)).commaSeparated (by omega) h₁ []).bind ?_
  rintro pats s₂ ⟨_, rfl, h₂⟩
  refine (h₂.expect (k := .r_paren) rfl _ _).bind fun _ s₃ h₃ => ?_
  exact h₃.1.allocPlain (holding .pat pats) rfl rfl (indices_holding pats).symm
    (fits_holding pats) rfl

theorem parseNamePat_spec (hrec : Recurses w n rec) (hn : 4 * b + 1 ≤ n)
    (h : Holds w b e q st hs s) (hk : s.stream.peek 0 = .identifier) (tok : Token) :
    Yields (parseNamePat n rec tok)
      (fun i s' => Holds w (b - 1) e q st (hs ++ [(i, .pat)]) s') s := by
  have hpos := h.pos (by rw [hk]; decide)
  unfold parseNamePat
  refine Yields.read rfl ?_
  split_ifs
  · exact (h.advance hk rfl).bind fun _ s₁ h₁ => h₁.allocLeaf rfl .nil rfl
  · refine (h.advance hk rfl).bind fun _ s₁ h₁ => ?_
    refine (h₁.parsePathSegments (by omega) _).bind fun _ s₂ h₂ => ?_
    refine (h₂.internText _).bind fun _ s₃ h₃ => Yields.read rfl ?_
    split_ifs with hparen
    · have hk₃ : s₃.stream.peek 0 = .l_paren := by simpa [TokenStream.check] using hparen
      exact (parseTuplePat_spec hrec (by omega) h₃.1 hk₃ _ _).mono fun _ _ h' => h'.more (by omega)
    · refine Yields.read rfl ?_
      split_ifs with hbrace
      · have hk₃ : s₃.stream.peek 0 = .l_brace := by simpa [TokenStream.check] using hbrace
        exact parseStructPat_spec hrec (by omega) h₃.1 hk₃ _ _
      · exact h₃.1.allocLeaf rfl .nil rfl

theorem symOf_literal {k : Token.Kind} (hk : isLiteral k = true) : symOf k = .neutral := by
  cases k <;> first | rfl | cases hk

theorem parsePat_spec (hrec : Recurses w n rec) (hn : 4 * b + 1 ≤ n)
    (h : Holds w b e q st hs s) :
    Yields (parsePat n rec) (fun i s' => Holds w b e q st (hs ++ [(i, .pat)]) s' ∧
      (s.stream.peek 0 ≠ .eof → Holds w (b - 1) e q st (hs ++ [(i, .pat)]) s')) s := by
  have hboth : ∀ {m : ParserM NodeIndex} {t : PState},
      Yields m (fun i s' => Holds w (b - 1) e q st (hs ++ [(i, .pat)]) s') t →
      Yields m (fun i s' => Holds w b e q st (hs ++ [(i, .pat)]) s' ∧
        (s.stream.peek 0 ≠ .eof → Holds w (b - 1) e q st (hs ++ [(i, .pat)]) s')) t := by
    intro m t hm
    exact hm.mono fun _ _ h' => ⟨h'.more (Nat.sub_le b 1), fun _ => h'⟩
  unfold parsePat
  refine Yields.read rfl ?_
  rw [peekToken_kind]
  split_ifs with hident hparen hlit
  · exact hboth (parseNamePat_spec hrec hn h hident _)
  · exact hboth (parseTuplePat_spec hrec hn h hparen _ _)
  · refine hboth ?_
    refine (h.advance rfl (by rw [symOf_literal hlit]; rfl)).bind fun _ s₁ h₁ => ?_
    refine (h₁.internText _).bind fun _ s₂ h₂ => ?_
    exact h₂.1.allocLeaf rfl .nil rfl
  · unfold parseBadPat
    refine (h.addError _ _).bind ?_
    rintro _ s₁ ⟨h₁, hs₁⟩
    refine (h₁.skip (by omega)).bind ?_
    rintro _ s₂ ⟨h₂, h₂'⟩
    rw [hs₁] at h₂'
    by_cases heof : s.stream.peek 0 = .eof
    · refine (h₂.makeErrorNode (c := .pat) (by omega) _ rfl).mono fun _ _ h' => ?_
      exact ⟨h'.fewer (Nat.le_succ e), fun hne => (hne heof).elim⟩
    · exact hboth (((h₂' heof).makeErrorNode (by omega) _ rfl).mono fun _ _ h' =>
        h'.fewer (Nat.le_succ e))

end Eter.Parser
