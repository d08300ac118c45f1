import Eter.TypeSteps
import Eter.PatternSteps
import Eter.ParseExprs

/-!
# Expressions keep the invariant
-/

namespace Eter.Parser
open Stateful Brackets Layout

variable {w : Watch} {b e q n : ℕ} {st : List Bracket} {hs : Held} {s : PState} {rec : Rec}

theorem parseLitExpr_spec (h : Holds w b e q st hs s) (tok : Token) :
    Yields (parseLitExpr tok) (fun i s' => Holds w b e q st (hs ++ [(i, .expr)]) s') s := by
  unfold parseLitExpr
  exact (h.internText _).bind fun _ s₁ h₁ => h₁.1.allocLeaf rfl .nil rfl

/-! ### Struct literals and names -/

theorem parseFieldInit_spec (hrec : Recurses w n rec) (hn : 4 * b + 2 ≤ n) :
    Parses w b .fieldInit (parseFieldInit rec) := by
  intro b' hb e q st hs s h
  unfold parseFieldInit
  refine Yields.read rfl ?_
  split_ifs with hc
  · refine Yields.read rfl ((h.addError _ _).bind fun _ s₁ h₁ => ?_)
    exact (h₁.1.makeErrorNode (by omega) _ rfl).mono fun _ _ h' => h'.fewer (Nat.le_succ e)
  · have hk : s.stream.peek 0 = .identifier := by simpa [TokenStream.check] using hc
    have hpos := h.pos (by rw [hk]; decide)
    refine (h.advance hk rfl).bind fun _ s₁ h₁ => ?_
    refine (h₁.internText _).bind fun _ s₂ h₂ => ?_
    refine (h₂.1.consume (k := .colon) rfl).bind ?_
    rintro _ s₃ (⟨rfl, -, h₃⟩ | ⟨rfl, rfl, -⟩)
    · refine ((hrec.expr le_rfl (by omega)).yields h₃).bind fun init s₄ h₄ => ?_
      refine h₄.spanOf (i := init) (c := .expr) (by simp) rfl fun _ => ?_
      exact (h₄.more (by omega)).allocPlain [(init, .expr)] rfl rfl rfl (.one rfl .nil) rfl
    · refine (h₂.1.allocLeaf (c := .expr) rfl .nil rfl).bind fun ident s₄ h₄ => ?_
      exact (h₄.more (Nat.sub_le b' 1)).allocPlain [(ident, .expr)] rfl rfl rfl (.one rfl .nil) rfl

theorem parseStructLitExpr_spec (hrec : Recurses w n rec) (hn : 4 * b + 2 ≤ n)
    (h : Holds w b e q st hs s) (hk : s.stream.peek 0 = .l_brace) (name : InternedStr)
    (start : Span) :
    Yields (parseStructLitExpr n rec name start)
      (fun i s' => Holds w b e q st (hs ++ [(i, .expr)]) s') s := by
  unfold parseStructLitExpr
  refine (h.advance hk rfl).bind fun _ s₁ h₁ => ?_
  refine h₁.withStructLit (fun s₁ h₁ => ?_) fun _ _ x h' => h'.structLit x
  refine ((parseFieldInit_spec hrec (by omega)).commaSeparated (by omega) h₁ []).bind ?_
  rintro fields s₂ ⟨_, rfl, h₂⟩
  refine (h₂.expect (k := .r_brace) rfl _ _).bind fun _ s₃ h₃ => ?_
  exact (h₃.1.more (Nat.sub_le b 1)).allocPlain (holding .fieldInit fields) rfl rfl
    (indices_holding fields).symm (fits_holding fields) rfl

theorem parseNameExpr_spec (hrec : Recurses w n rec) (hn : 4 * b + 1 ≤ n)
    (h : Holds w b e q st hs s) (hk : s.stream.peek 0 = .identifier) (tok : Token) :
    Yields (parseNameExpr n rec tok)
      (fun i s' => Holds w (b - 1) e q st (hs ++ [(i, .expr)]) s') s := by
  have hpos := h.pos (by rw [hk]; decide)
  unfold parseNameExpr
  refine (h.advance hk rfl).bind fun _ s₁ h₁ => ?_
  refine (h₁.parsePathSegments (by omega) _).bind fun path s₂ h₂ => ?_
  refine (h₂.internText _).bind fun name s₃ h₃ => Yields.read rfl (Yields.read rfl ?_)
  split_ifs with hbrace hpath
  · have hk₃ : s₃.stream.peek 0 = .l_brace := by
      simp only [Bool.and_eq_true] at hbrace
      simpa [TokenStream.check] using hbrace.2
    exact parseStructLitExpr_spec hrec (by omega) h₃.1 hk₃ _ _
  · exact h₃.1.allocLeaf rfl .nil rfl
  · exact h₃.1.allocLeaf rfl .nil rfl

/-! ### Brackets -/

/-- The elements behind a first one. -/
theorem moreExprs_spec (hrec : Recurses w n rec) (hn : 4 * b + 2 ≤ n) {first : NodeIndex}
    (h : Holds w b e q st (hs ++ [(first, .expr)]) s) (stop : Token.Kind → Bool) :
    Yields (parseMore n [first] stop (rec (.expr 0))) (fun elems s' =>
      Holds w b e q st (hs ++ holding .expr elems) s' ∧ ∃ es, elems = first :: es) s := by
  refine ((hrec.expr le_rfl hn).moreElements (by omega) h [first] stop).mono ?_
  rintro _ s' ⟨es, rfl, h'⟩
  exact ⟨by simpa [holding] using h', es, rfl⟩

theorem parseTupleRest_spec (hrec : Recurses w n rec) (hn : 4 * b + 2 ≤ n) {inner : NodeIndex}
    (h : Holds w b e q (.paren :: st) (hs ++ [(inner, .expr)]) s) (tok : Token) :
    Yields (parseTupleRest n rec tok inner)
      (fun i s' => Holds w b e q st (hs ++ [(i, .expr)]) s') s := by
  unfold parseTupleRest
  refine (moreExprs_spec hrec hn h _).bind fun elems s₁ h₁ => ?_
  refine (h₁.1.expect (k := .r_paren) rfl _ _).bind fun _ s₂ h₂ => ?_
  exact h₂.1.allocPlain (holding .expr elems) rfl rfl (indices_holding elems).symm
    (fits_holding elems) rfl

theorem parseParenExpr_spec (hrec : Recurses w n rec) (hn : 4 * b + 1 ≤ n)
    (h : Holds w b e q st hs s) (hk : s.stream.peek 0 = .l_paren) (tok : Token) :
    Yields (parseParenExpr n rec tok)
      (fun i s' => Holds w (b - 1) e q st (hs ++ [(i, .expr)]) s') s := by
  have hpos := h.pos (by rw [hk]; decide)
  unfold parseParenExpr
  refine (h.advance hk rfl).bind fun _ s₁ h₁ => ?_
  refine h₁.withStructLit (fun s₁ h₁ => Yields.read rfl ?_) fun _ _ x h' => h'.structLit x
  split_ifs with hclose
  · have hk₁ : s₁.stream.peek 0 = .r_paren := by simpa [TokenStream.check] using hclose
    refine (h₁.advance hk₁ rfl).bind fun _ s₂ h₂ => ?_
    exact (h₂.more (Nat.sub_le _ 1)).allocPlain [] (List.append_nil hs).symm rfl rfl
      (fits_holding []) rfl
  · refine ((hrec.expr le_rfl (by omega)).yields h₁).bind fun inner s₂ h₂ => Yields.read rfl ?_
    split_ifs
    · exact parseTupleRest_spec hrec (by omega) h₂ tok
    · exact (h₂.expect (k := .r_paren) rfl _ _).bind fun _ s₃ h₃ => Yields.pure h₃.1

theorem parseArrayRest_spec (hrec : Recurses w n rec) (hn : 4 * b + 2 ≤ n) {first : NodeIndex}
    (h : Holds w b e q (.square :: st) (hs ++ [(first, .expr)]) s) (start : Span) :
    Yields (parseArrayRest n rec start first)
      (fun i s' => Holds w b e q st (hs ++ [(i, .expr)]) s') s := by
  unfold parseArrayRest parseConstExpr
  refine (h.consume (k := .semi) rfl).bind ?_
  rintro _ s₁ (⟨rfl, -, h₁⟩ | ⟨rfl, rfl, -⟩)
  · refine ((hrec.expr le_rfl (by omega)).yields h₁).bind fun count s₂ h₂ => ?_
    refine (h₂.expect (k := .r_square) rfl _ _).bind fun _ s₃ h₃ => ?_
    exact (h₃.1.more (Nat.sub_le b 1)).allocPlain [(first, .expr), (count, .expr)] (by simp) rfl
      rfl (.one rfl (.one rfl .nil)) rfl
  · refine (moreExprs_spec hrec hn h _).bind fun elems s₂ h₂ => ?_
    refine (h₂.1.expect (k := .r_square) rfl _ _).bind fun _ s₃ h₃ => ?_
    exact h₃.1.allocPlain (holding .expr elems) rfl rfl (indices_holding elems).symm
      (fits_holding elems) rfl

theorem parseArrayLitExpr_spec (hrec : Recurses w n rec) (hn : 4 * b + 1 ≤ n)
    (h : Holds w b e q st hs s) (hk : s.stream.peek 0 = .l_square) :
    Yields (parseArrayLitExpr n rec)
      (fun i s' => Holds w (b - 1) e q st (hs ++ [(i, .expr)]) s') s := by
  have hpos := h.pos (by rw [hk]; decide)
  unfold parseArrayLitExpr
  refine (h.advance hk rfl).bind fun _ s₁ h₁ => ?_
  refine h₁.withStructLit (fun s₁ h₁ => Yields.read rfl ?_) fun _ _ x h' => h'.structLit x
  split_ifs with hclose
  · have hk₁ : s₁.stream.peek 0 = .r_square := by simpa [TokenStream.check] using hclose
    refine (h₁.advance hk₁ rfl).bind fun _ s₂ h₂ => ?_
    exact (h₂.more (Nat.sub_le _ 1)).allocPlain [] (List.append_nil hs).symm rfl rfl
      (fits_holding []) rfl
  · refine ((hrec.expr le_rfl (by omega)).yields h₁).bind fun first s₂ h₂ => ?_
    exact parseArrayRest_spec hrec (by omega) h₂ _

theorem parseTensorValues_spec (hrec : Recurses w n rec) (hn : 4 * b + 2 ≤ n)
    (h : Holds w b e q st hs s) :
    Yields (parseTensorValues n rec) (fun values s' =>
      Holds w b e q st (hs ++ holding .expr values) s' ∧ 1 ≤ values.length) s := by
  unfold parseTensorValues
  refine h.withStructLit (fun s₁ h₁ => ?_) fun _ _ x h' => ⟨h'.1.structLit x, h'.2⟩
  refine ((hrec.expr le_rfl hn).yields h₁).bind fun first s₂ h₂ => ?_
  refine (moreExprs_spec hrec hn h₂ _).mono ?_
  rintro _ s' ⟨h', es, rfl⟩
  exact ⟨h', Nat.succ_pos _⟩

theorem parseTensorLitExpr_spec (hrec : Recurses w n rec) (hn : 4 * b + 1 ≤ n)
    (h : Holds w b e q st hs s) (hk : s.stream.peek 0 = .kw_tensor) :
    Yields (parseTensorLitExpr n rec)
      (fun i s' => Holds w (b - 1) e q st (hs ++ [(i, .expr)]) s') s := by
  have hpos := h.pos (by rw [hk]; decide)
  unfold parseTensorLitExpr parseConstExpr
  refine (h.advance hk rfl).bind fun _ s₁ h₁ => ?_
  refine (h₁.expect (k := .l_square) rfl _ _).bind fun _ s₂ h₂ => ?_
  refine (parseTensorValues_spec hrec (by omega) h₂.1).bind ?_
  rintro values s₃ ⟨h₃, hvalues⟩
  refine (h₃.expect (k := .semi) rfl _ _).bind fun _ s₄ h₄ => ?_
  refine ((hrec.expr le_rfl (by omega)).commaSeparated (by omega) h₄.1 values).bind ?_
  rintro _ s₅ ⟨dims, rfl, h₅⟩
  refine (requireDim_spec h₅ _).bind fun _ s₆ h₆ => ?_
  -- either there are dimensions or an error says that there are none
  have hdims : ∃ e', e ≤ e' ∧ Holds w (b - 1) e' q (.square :: st)
      (hs ++ holding .expr values ++ holding .expr dims) s₆ ∧
      (1 ≤ e' ∨ (values ++ dims).length % 2 ^ 16 ≠ values.length % 2 ^ 16) := by
    by_cases hlen : (values ++ dims).length % 2 ^ 16 = values.length % 2 ^ 16
    · exact ⟨e + 1, Nat.le_succ e, h₆.2 (by simpa using hlen), Or.inl (by omega)⟩
    · exact ⟨e, le_rfl, h₆.1, Or.inr hlen⟩
  obtain ⟨e', he, h₆, hdims⟩ := hdims
  refine (h₆.expect (k := .r_square) rfl _ _).bind fun _ s₇ h₇ => ?_
  have hfit : Fits (fun c p => p.2 = c) (layoutOf .TensorLitExpr)
      (holding .expr (values ++ dims)) := by
    cases values with
    | nil => simp at hvalues
    | cons v vs => exact .one rfl (fits_holding (vs ++ dims))
  refine (h₇.1.alloc (holding .expr (values ++ dims)) (by simp [holding])
    (indices_holding _).symm hfit ?_ ?_ rfl).mono fun _ _ h' => h'.fewer he
  · exact fun _ => ⟨values.length, rfl, hvalues, by simp⟩
  · exact hdims.imp id fun hne => ⟨by decide, by rintro ⟨⟩, fun _ => hne⟩

/-! ### Operators -/

theorem isPrefixOperator_bp {k : Token.Kind}
    (hk : k = .bang ∨ k = .minus ∨ k = .amp ∨ k = .star) :
    0 ≤ prefixBindingPower k ∧ symOf k = .neutral := by
  rcases hk with rfl | rfl | rfl | rfl <;> exact ⟨by decide, rfl⟩

theorem parseUnaryExpr_spec (hrec : Recurses w n rec) (hn : 4 * b + 1 ≤ n)
    (h : Holds w b e q st hs s) {tok : Token} (hk : s.stream.peek 0 = tok.tokenKind)
    (hop : tok.tokenKind = .bang ∨ tok.tokenKind = .minus ∨ tok.tokenKind = .amp ∨
      tok.tokenKind = .star) :
    Yields (parseUnaryExpr rec tok)
      (fun i s' => Holds w (b - 1) e q st (hs ++ [(i, .expr)]) s') s := by
  obtain ⟨hbp, hsym⟩ := isPrefixOperator_bp hop
  have hpos := h.pos (by rw [hk]; rcases hop with h | h | h | h <;> rw [h] <;> decide)
  unfold parseUnaryExpr
  refine (h.advance hk (by rw [hsym]; rfl)).bind fun _ s₁ h₁ => ?_
  refine ((hrec.expr hbp (by omega)).yields h₁).bind fun operand s₂ h₂ => ?_
  refine h₂.spanOf (i := operand) (c := .expr) (by simp) rfl fun _ => ?_
  exact h₂.allocPlain [(operand, .expr)] rfl rfl rfl (.one rfl .nil) rfl

theorem parseStarExpr_spec (hrec : Recurses w n rec) (hn : 4 * b + 1 ≤ n)
    (h : Holds w b e q st hs s) {tok : Token} (hk : s.stream.peek 0 = tok.tokenKind)
    (hop : tok.tokenKind = .star) :
    Yields (parseStarExpr rec tok)
      (fun i s' => Holds w (b - 1) e q st (hs ++ [(i, .expr)]) s') s := by
  obtain ⟨hbp, hsym⟩ := isPrefixOperator_bp (Or.inr (Or.inr (Or.inr hop)))
  have hpos := h.pos (by rw [hk, hop]; decide)
  unfold parseStarExpr
  refine (h.advance hk (by rw [hsym]; rfl)).bind fun _ s₁ h₁ => ?_
  refine ((hrec.expr hbp (by omega)).yields h₁).bind fun operand s₂ h₂ => ?_
  refine (h₂.consume (k := .eq) rfl).bind ?_
  rintro _ s₃ (⟨rfl, -, h₃⟩ | ⟨rfl, rfl, -⟩)
  · refine ((hrec.expr le_rfl (by omega)).yields h₃).bind fun rhs s₄ h₄ => ?_
    refine h₄.spanOf (i := rhs) (c := .expr) (by simp) rfl fun _ => ?_
    exact (h₄.more (Nat.sub_le _ 1)).allocPlain [(operand, .expr), (rhs, .expr)] (by simp) rfl rfl
      (.one rfl (.one rfl .nil)) rfl
  · refine h₂.spanOf (i := operand) (c := .expr) (by simp) rfl fun _ => ?_
    exact h₂.allocPlain [(operand, .expr)] rfl rfl rfl (.one rfl .nil) rfl

/-- The two steps do not touch the same parts of the state. -/
theorem skip_addError (loc : Span) (id : DiagID) (f : Unit → ParserM NodeIndex) :
    (skip >>= fun _ => addError loc id >>= f) = (addError loc id >>= fun _ => skip >>= f) := rfl

theorem parseBadExpr_spec (h : Holds w b e q st hs s) {tok : Token}
    (hk : s.stream.peek 0 = tok.tokenKind) :
    Yields (parseBadExpr tok) (fun i s' => Holds w b e q st (hs ++ [(i, .expr)]) s' ∧
      (isSync (s.stream.peek 0) = false ∧ s.stream.peek 0 ≠ .eof →
        Holds w (b - 1) e q st (hs ++ [(i, .expr)]) s')) s := by
  unfold parseBadExpr
  rw [← hk]
  by_cases hsync : isSync (s.stream.peek 0) = true
  · rw [if_pos hsync]
    show Yields (addError tok.tokenSpan .ExpectedExpr >>= fun _ => makeErrorNode tok.tokenSpan) _ s
    refine (h.addError _ _).bind fun _ s₁ h₁ => ?_
    refine (h₁.1.makeErrorNode (c := .expr) (by omega) _ rfl).mono fun _ _ h' => ?_
    exact ⟨h'.fewer (Nat.le_succ e), fun hne => by simp [hsync] at hne⟩
  · rw [if_neg hsync]
    show Yields (skip >>= fun _ => addError tok.tokenSpan .ExpectedExpr >>= fun _ =>
      makeErrorNode tok.tokenSpan) _ s
    rw [skip_addError]
    refine (h.addError _ _).bind ?_
    rintro _ s₁ ⟨h₁, hs₁⟩
    refine (h₁.skip (by omega)).bind ?_
    rintro _ s₂ ⟨h₂, h₂'⟩
    rw [hs₁] at h₂'
    by_cases heof : s.stream.peek 0 = .eof
    · refine (h₂.makeErrorNode (c := .expr) (by omega) _ rfl).mono fun _ _ h' => ?_
      exact ⟨h'.fewer (Nat.le_succ e), fun hne => (hne.2 heof).elim⟩
    · refine ((h₂' heof).makeErrorNode (c := .expr) (by omega) _ rfl).mono fun _ _ h' => ?_
      exact ⟨h'.weaken (Nat.sub_le b 1) (Nat.le_succ e), fun _ => h'.fewer (Nat.le_succ e)⟩

end Eter.Parser
