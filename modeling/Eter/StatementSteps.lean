import Eter.OperatorSteps
import Eter.ParseStmts

/-!
# Statements and blocks keep the invariant
-/

namespace Eter.Parser
open Stateful Brackets Layout

variable {w : Watch} {b e q n : ℕ} {st : List Bracket} {hs : Held} {s : PState} {rec : Rec}

theorem requireSemi_spec (h : Holds w b e q st hs s) (atEnd : Bool) (context noteText : String) :
    Yields (requireSemi atEnd context noteText) (fun _ s' => Holds w b e q st hs s') s := by
  unfold requireSemi
  refine (h.consume (k := .semi) rfl).bind ?_
  rintro _ s₁ (⟨rfl, -, h₁⟩ | ⟨rfl, rfl, -⟩)
  · exact Yields.pure (h₁.more (Nat.sub_le b 1))
  · refine Yields.read rfl (Yields.read rfl ?_)
    exact (h.report _).mono fun _ _ h' => h'.1.fewer (Nat.le_succ e)

theorem startsExprStmt_moves {k : Token.Kind} (hk : startsExprStmt k = true) :
    isSync k = false ∧ k ≠ .eof := by
  cases k <;> first | exact ⟨rfl, by decide⟩ | cases hk

theorem parseExprStmt_spec (hrec : Recurses w n rec) (hn : 4 * b + 2 ≤ n)
    (h : Holds w b e q st hs s) (hk : startsExprStmt (s.stream.peek 0) = true) :
    Yields (parseExprStmt rec)
      (fun i s' => Holds w (b - 1) e q st (hs ++ [(i, .stmt)]) s') s := by
  unfold parseExprStmt
  refine ((hrec.exprMoves le_rfl hn).yields h (startsExprStmt_moves hk)).bind fun expr s₁ h₁ => ?_
  refine h₁.kindOf (i := expr) (c := .expr) (by simp) rfl fun kind herror => ?_
  split_ifs with hkind
  · refine ((herror hkind).synchronize (le_max_right _ _)).bind fun _ s₂ h₂ => ?_
    exact Yields.pure ((h₂.1.fewer (le_max_left _ _)).widen rfl)
  · exact (requireSemi_spec h₁ _ _ _).bind fun _ s₂ h₂ => Yields.pure (h₂.widen rfl)

theorem parseBadStmt_spec (h : Holds w b e q st hs s) (hk : s.stream.peek 0 ≠ .eof)
    (tok : Token) :
    Yields (parseBadStmt tok)
      (fun i s' => Holds w (b - 1) e q st (hs ++ [(i, .stmt)]) s') s := by
  unfold parseBadStmt
  refine (h.addError _ _).bind ?_
  rintro _ s₁ ⟨h₁, hs₁⟩
  refine (h₁.synchronize (by omega)).bind ?_
  rintro _ s₂ ⟨-, h₂⟩
  rw [hs₁] at h₂
  exact ((h₂ hk).makeErrorNode (by omega) _ rfl).mono fun _ _ h' => h'.fewer (Nat.le_succ e)

/-! ### Let -/

theorem parseLetType_spec (hrec : Recurses w n rec) (hn : 4 * b + 2 ≤ n)
    (h : Holds w b e q st hs s) :
    Yields (parseLetType rec) (fun ts s' => ts.length ≤ 1 ∧
      Holds w b e q st (hs ++ holding .type ts) s') s := by
  unfold parseLetType
  refine (h.consume (k := .colon) rfl).bind ?_
  rintro _ s₁ (⟨rfl, -, h₁⟩ | ⟨rfl, rfl, -⟩)
  · refine ((hrec.type (by omega)).yields h₁).bind fun type s₂ h₂ => ?_
    exact Yields.pure ⟨le_rfl, h₂.more (Nat.sub_le b 1)⟩
  · exact Yields.pure ⟨Nat.zero_le 1, by simpa using h⟩

theorem parseLetInit_spec (hrec : Recurses w n rec) (hn : 4 * b + 2 ≤ n)
    (h : Holds w b e q st hs s) :
    Yields (parseLetInit rec) (fun is s' => is.length ≤ 1 ∧
      Holds w b e q st (hs ++ holding .expr is) s') s := by
  unfold parseLetInit
  refine (h.consume (k := .eq) rfl).bind ?_
  rintro _ s₁ (⟨rfl, -, h₁⟩ | ⟨rfl, rfl, -⟩)
  · refine ((hrec.expr le_rfl (by omega)).yields h₁).bind fun init s₂ h₂ => ?_
    exact Yields.pure ⟨le_rfl, h₂.more (Nat.sub_le b 1)⟩
  · exact Yields.pure ⟨Nat.zero_le 1, by simpa using h⟩

theorem endsInError_spec {ts is : List NodeIndex}
    (h : Holds w b e q st (hs ++ (holding .type ts ++ holding .expr is)) s) :
    Yields (endsInError (ts ++ is)) (fun r s' => s' = s ∧ (r = true →
      Holds w b (max e 1) q st (hs ++ (holding .type ts ++ holding .expr is)) s)) s := by
  unfold endsInError
  cases hlast : (ts ++ is).getLast? with
  | none => exact Yields.pure ⟨rfl, fun h => by cases h⟩
  | some i =>
    have hmem := List.mem_of_getLast? hlast
    have hheld : ∃ c : Cat, (i, c) ∈ hs ++ (holding .type ts ++ holding .expr is) ∧
        c.nullable = false := by
      rcases List.mem_append.mp hmem with hmem | hmem
      · exact ⟨.type, by simp [holding, hmem], rfl⟩
      · exact ⟨.expr, by simp [holding, hmem], rfl⟩
    obtain ⟨c, hc, hnull⟩ := hheld
    refine h.kindOf hc hnull fun kind herror => Yields.pure ⟨rfl, fun hkind => herror ?_⟩
    simpa using hkind

theorem resyncLet_spec (h : Holds w b e q st hs s) (he : 1 ≤ e) :
    Yields resyncLet (fun _ s' => Holds w b e q st hs s') s := by
  unfold resyncLet
  refine (h.skipUntil he _).bind fun _ s₁ h₁ => ?_
  refine (h₁.consume (k := .semi) rfl).bind ?_
  rintro _ s₂ (⟨rfl, -, h₂⟩ | ⟨rfl, rfl, -⟩)
  · exact Yields.pure (h₂.more (Nat.sub_le b 1))
  · exact Yields.pure h₁

theorem closeLet_spec {ts is : List NodeIndex}
    (h : Holds w b e q st (hs ++ (holding .type ts ++ holding .expr is)) s) :
    Yields (closeLet (ts ++ is))
      (fun _ s' => Holds w b e q st (hs ++ (holding .type ts ++ holding .expr is)) s') s := by
  unfold closeLet
  refine (endsInError_spec h).bind ?_
  rintro r s₁ ⟨rfl, herror⟩
  split_ifs with hr
  · exact (resyncLet_spec (herror hr) (le_max_right _ _)).mono fun _ _ h' =>
      h'.fewer (le_max_left _ _)
  · exact requireSemi_spec h _ _ _

theorem parseLetStmt_spec (hrec : Recurses w n rec) (hn : 4 * b + 2 ≤ n)
    (h : Holds w b e q st hs s) (hk : s.stream.peek 0 = .kw_let) :
    Yields (parseLetStmt rec)
      (fun i s' => Holds w (b - 1) e q st (hs ++ [(i, .stmt)]) s') s := by
  unfold parseLetStmt
  refine (h.expect_hit hk rfl _ _).bind fun _ s₁ h₁ => ?_
  refine h₁.parseRegime.bind fun regime s₂ h₂ => ?_
  refine (h₂.expectName (k := .identifier) rfl _).bind fun name s₃ h₃ => ?_
  refine (parseLetType_spec hrec (by omega) h₃.1).bind ?_
  rintro ts s₄ ⟨hts, h₄⟩
  refine (parseLetInit_spec hrec (by omega) h₄).bind ?_
  rintro is s₅ ⟨his, h₅⟩
  rw [List.append_assoc] at h₅
  refine (closeLet_spec h₅).bind fun _ s₆ h₆ => ?_
  refine Yields.read rfl ?_
  refine h₆.allocPlain (holding .type ts ++ holding .expr is) rfl rfl (by simp) ?_ rfl
  exact .opt (by simpa using hts) (fun _ => cat_of_mem_holding)
    (.opt_last (by simpa using his) fun _ => cat_of_mem_holding)

/-! ### Other statements -/

theorem parseRetStmt_spec (hrec : Recurses w n rec) (hn : 4 * b + 2 ≤ n)
    (h : Holds w b e q st hs s) (hk : s.stream.peek 0 = .kw_ret) :
    Yields (parseRetStmt rec)
      (fun i s' => Holds w (b - 1) e q st (hs ++ [(i, .stmt)]) s') s := by
  unfold parseRetStmt
  refine (h.expect_hit hk rfl _ _).bind fun _ s₁ h₁ => ?_
  refine ((hrec.expr le_rfl (by omega)).yields h₁).bind fun value s₂ h₂ => ?_
  refine (h₂.expect (k := .semi) rfl _ _).bind fun _ s₃ h₃ => ?_
  exact h₃.1.allocPlain [(value, .expr)] rfl rfl rfl (.present rfl .nil) rfl

theorem parseHeaderExpr_spec (hrec : Recurses w n rec) (hn : 4 * b + 2 ≤ n)
    (h : Holds w b e q st hs s) :
    Yields (parseHeaderExpr rec)
      (fun i s' => Holds w b e q st (hs ++ [(i, .expr)]) s') s := by
  unfold parseHeaderExpr
  exact h.withStructLit (fun s₁ h₁ => (hrec.expr le_rfl hn).yields h₁)
    fun _ _ x h' => h'.structLit x

theorem parseElse_spec (hrec : Recurses w n rec) (hn : 4 * b + 4 ≤ n)
    (h : Holds w b e q st hs s) :
    Yields (parseElse rec) (fun is s' => is.length ≤ 1 ∧
      Holds w b e q st (hs ++ holding .elseBranch is) s') s := by
  unfold parseElse
  refine Yields.read rfl ?_
  split_ifs with hc
  · have hk : s.stream.peek 0 = .kw_else := by simpa [TokenStream.check] using hc
    refine (h.advance hk rfl).bind fun _ s₁ h₁ => Yields.read rfl ?_
    split_ifs with hif
    · have hk₁ : s₁.stream.peek 0 = .kw_if := by simpa [TokenStream.check] using hif
      refine ((hrec.ifMoves (by omega)).yields h₁ hk₁).bind fun i s₂ h₂ => ?_
      exact Yields.pure ⟨le_rfl, (h₂.more (by omega)).widen rfl⟩
    · refine ((hrec.block (by omega)).yields h₁).bind fun i s₂ h₂ => ?_
      exact Yields.pure ⟨le_rfl, (h₂.more (Nat.sub_le b 1)).widen rfl⟩
  · exact Yields.pure ⟨Nat.zero_le 1, by simpa using h⟩

theorem parseIfExpr_spec (hrec : Recurses w n rec) (hn : 4 * b ≤ n) (h : Holds w b e q st hs s)
    (hk : s.stream.peek 0 = .kw_if) :
    Yields (parseIfExpr rec)
      (fun i s' => Holds w (b - 1) e q st (hs ++ [(i, .ifExpr)]) s') s := by
  have hpos := h.pos (by rw [hk]; decide)
  unfold parseIfExpr
  refine (h.expect_hit hk rfl _ _).bind fun _ s₁ h₁ => ?_
  refine (parseHeaderExpr_spec hrec (by omega) h₁).bind fun cond s₂ h₂ => ?_
  refine ((hrec.block (by omega)).yields h₂).bind fun block s₃ h₃ => ?_
  refine (parseElse_spec hrec (by omega) h₃).bind ?_
  rintro other s₄ ⟨hother, h₄⟩
  refine Yields.read rfl ?_
  refine h₄.allocPlain ((cond, .expr) :: (block, .block) :: holding .elseBranch other) (by simp)
    rfl ?_ (.one rfl (.one rfl ?_)) rfl
  · simp [Held.indices, holding, Function.comp_def]
  · exact .opt_last (by simpa using hother) fun _ => cat_of_mem_holding

theorem parseWhileStmt_spec (hrec : Recurses w n rec) (hn : 4 * b ≤ n)
    (h : Holds w b e q st hs s) (hk : s.stream.peek 0 = .kw_while) :
    Yields (parseWhileStmt rec)
      (fun i s' => Holds w (b - 1) e q st (hs ++ [(i, .expr)]) s') s := by
  have hpos := h.pos (by rw [hk]; decide)
  unfold parseWhileStmt
  refine (h.expect_hit hk rfl _ _).bind fun _ s₁ h₁ => ?_
  refine (parseHeaderExpr_spec hrec (by omega) h₁).bind fun cond s₂ h₂ => ?_
  refine ((hrec.block (by omega)).yields h₂).bind fun block s₃ h₃ => Yields.read rfl ?_
  exact h₃.allocPlain [(cond, .expr), (block, .block)] (by simp) rfl rfl
    (.one rfl (.one rfl .nil)) rfl

theorem parseForStmt_spec (hrec : Recurses w n rec) (hn : 4 * b ≤ n)
    (h : Holds w b e q st hs s) (hk : s.stream.peek 0 = .kw_for) :
    Yields (parseForStmt rec)
      (fun i s' => Holds w (b - 1) e q st (hs ++ [(i, .stmt)]) s') s := by
  have hpos := h.pos (by rw [hk]; decide)
  unfold parseForStmt
  refine (h.expect_hit hk rfl _ _).bind fun _ s₁ h₁ => ?_
  refine h₁.parseRegime.bind fun regime s₂ h₂ => ?_
  refine (h₂.expectName (k := .identifier) rfl _).bind fun name s₃ h₃ => ?_
  refine (h₃.1.expect (k := .kw_in_) rfl _ _).bind fun _ s₄ h₄ => ?_
  refine (parseHeaderExpr_spec hrec (by omega) h₄.1).bind fun iterable s₅ h₅ => ?_
  refine ((hrec.block (by omega)).yields h₅).bind fun block s₆ h₆ => ?_
  refine h₆.spanOf (i := block) (c := .block) (by simp) rfl fun _ => ?_
  exact h₆.allocPlain [(iterable, .expr), (block, .block)] (by simp) rfl rfl
    (.one rfl (.one rfl .nil)) rfl

theorem parseJumpStmt_spec (h : Holds w b e q st hs s) {k : Token.Kind}
    (hk : s.stream.peek 0 = k) {kind : NodeKind}
    (hkind : k = .kw_break ∧ kind = .BreakStmt ∨ k = .kw_continue ∧ kind = .ContinueStmt) :
    Yields (parseJumpStmt kind)
      (fun i s' => Holds w (b - 1) e q st (hs ++ [(i, .stmt)]) s') s := by
  unfold parseJumpStmt
  rcases hkind with ⟨rfl, rfl⟩ | ⟨rfl, rfl⟩
  · refine (h.advance hk rfl).bind fun _ s₁ h₁ => ?_
    refine (h₁.expect (k := .semi) rfl _ _).bind fun _ s₂ h₂ => ?_
    exact h₂.1.allocLeaf rfl .nil rfl
  · refine (h.advance hk rfl).bind fun _ s₁ h₁ => ?_
    refine (h₁.expect (k := .semi) rfl _ _).bind fun _ s₂ h₂ => ?_
    exact h₂.1.allocLeaf rfl .nil rfl

theorem openUnsafe_spec (h : Holds w b e q st hs s) :
    Yields openUnsafe (fun _ s' => Holds w b e q (.brace :: st) hs s') s := by
  unfold openUnsafe
  refine (h.consume (k := .l_brace) rfl).bind ?_
  rintro _ s₁ (⟨rfl, -, h₁⟩ | ⟨rfl, rfl, -⟩)
  · exact Yields.pure (h₁.more (Nat.sub_le b 1))
  · have hslip := h.slipped .bareUnsafe
    exact ⟨(), _, rfl, (hslip.missing (k := .l_brace) rfl _).fewer (Nat.le_succ e)⟩

/-- Statements up to a closing brace, as the children of a new node. -/
theorem stmts_spec (hrec : Recurses w n rec) (hn : 4 * b + 3 ≤ n)
    (h : Holds w b e q (.brace :: st) hs s) {kind : NodeKind} {c : Cat} {context : String}
    {start : Span} (hkind : kind = .UnsafeBlock ∧ c = .expr ∨ kind = .BlockExpr ∧ c = .block) :
    Yields (do
        let children ← parseUntil n [] .r_brace (rec .stmt)
        let close := (← expect .r_brace .ExpectedClose context).tokenSpan
        alloc kind ⟨start.start, close.end⟩ children 0 0)
      (fun i s' => Holds w b e q st (hs ++ [(i, c)]) s') s := by
  refine ((hrec.stmt hn).elements (by omega) h []).bind ?_
  rintro children s₁ ⟨_, rfl, h₁⟩
  refine (h₁.expect (k := .r_brace) rfl _ _).bind fun _ s₂ h₂ => ?_
  refine h₂.1.allocPlain (holding .stmt children) rfl ?_ (indices_holding children).symm ?_ ?_
  · rcases hkind with ⟨rfl, -⟩ | ⟨rfl, -⟩ <;> rfl
  · rcases hkind with ⟨rfl, -⟩ | ⟨rfl, -⟩ <;> exact fits_holding children
  · rcases hkind with ⟨rfl, rfl⟩ | ⟨rfl, rfl⟩ <;> rfl

theorem parseUnsafeBlock_spec (hrec : Recurses w n rec) (hn : 4 * b ≤ n)
    (h : Holds w b e q st hs s) (hk : s.stream.peek 0 = .kw_unsafe_) :
    Yields (parseUnsafeBlock n rec)
      (fun i s' => Holds w (b - 1) e q st (hs ++ [(i, .expr)]) s') s := by
  have hpos := h.pos (by rw [hk]; decide)
  unfold parseUnsafeBlock
  refine (h.expect_hit hk rfl _ _).bind fun _ s₁ h₁ => ?_
  refine (openUnsafe_spec h₁).bind fun _ s₂ h₂ => ?_
  exact stmts_spec hrec (by omega) h₂ (Or.inl ⟨rfl, rfl⟩)

theorem parseBlockExpr_spec (hrec : Recurses w n rec) (hn : 4 * b + 3 ≤ n)
    (h : Holds w b e q st hs s) :
    Yields (parseBlockExpr n rec)
      (fun i s' => Holds w b e q st (hs ++ [(i, .block)]) s') s := by
  unfold parseBlockExpr
  refine (h.expect (k := .l_brace) rfl _ _).bind fun _ s₁ h₁ => ?_
  exact stmts_spec hrec hn h₁.1 (Or.inr ⟨rfl, rfl⟩)

theorem parseBlockExpr_moves (hrec : Recurses w n rec) (hn : 4 * b ≤ n)
    (h : Holds w b e q st hs s) (hk : s.stream.peek 0 = .l_brace) :
    Yields (parseBlockExpr n rec)
      (fun i s' => Holds w (b - 1) e q st (hs ++ [(i, .block)]) s') s := by
  have hpos := h.pos (by rw [hk]; decide)
  unfold parseBlockExpr
  refine (h.expect_hit hk rfl _ _).bind fun _ s₁ h₁ => ?_
  exact stmts_spec hrec (by omega) h₁ (Or.inr ⟨rfl, rfl⟩)

/-! ### Match -/

theorem closeArm_spec (h : Holds w b e q st hs s) :
    Yields closeArm (fun _ s' => Holds w b e q st hs s') s := by
  unfold closeArm
  refine (h.consume (k := .comma) rfl).bind ?_
  rintro _ s₁ (⟨rfl, -, h₁⟩ | ⟨rfl, rfl, -⟩)
  · exact Yields.pure (h₁.more (Nat.sub_le b 1))
  · refine (h.consume (k := .semi) rfl).bind ?_
    rintro _ s₂ (⟨rfl, -, h₂⟩ | ⟨rfl, rfl, -⟩)
    · exact Yields.pure (h₂.more (Nat.sub_le b 1))
    · exact Yields.pure h

theorem parseMatchArm_spec (hrec : Recurses w n rec) (hn : 4 * b + 2 ≤ n) :
    Progresses w b .matchArm (· ≠ .eof) (parseMatchArm rec) := by
  intro b' hb e q st hs s h hne
  unfold parseMatchArm
  refine ((hrec.patMoves (by omega)).yields h hne).bind fun pat s₁ h₁ => ?_
  refine (h₁.expect (k := .fat_arrow) rfl _ _).bind fun _ s₂ h₂ => ?_
  refine ((hrec.expr le_rfl (by omega)).yields h₂.1).bind fun value s₃ h₃ => ?_
  refine (closeArm_spec h₃).bind fun _ s₄ h₄ => ?_
  refine h₄.spanOf (i := pat) (c := .pat) (by simp) rfl fun _ => ?_
  refine h₄.spanOf (i := value) (c := .expr) (by simp) rfl fun _ => ?_
  exact h₄.allocPlain [(pat, .pat), (value, .expr)] (by simp) rfl rfl
    (.one rfl (.one rfl .nil)) rfl

theorem parseMatchExpr_spec (hrec : Recurses w n rec) (hn : 4 * b ≤ n)
    (h : Holds w b e q st hs s) (hk : s.stream.peek 0 = .kw_match) :
    Yields (parseMatchExpr n rec)
      (fun i s' => Holds w (b - 1) e q st (hs ++ [(i, .expr)]) s') s := by
  have hpos := h.pos (by rw [hk]; decide)
  unfold parseMatchExpr
  refine (h.expect_hit hk rfl _ _).bind fun _ s₁ h₁ => ?_
  refine (parseHeaderExpr_spec hrec (by omega) h₁).bind fun scrutinee s₂ h₂ => ?_
  refine (h₂.expect (k := .l_brace) rfl _ _).bind fun _ s₃ h₃ => ?_
  refine ((parseMatchArm_spec hrec (by omega)).elements (by omega) h₃.1 []).bind ?_
  rintro arms s₄ ⟨_, rfl, h₄⟩
  refine (h₄.expect (k := .r_brace) rfl _ _).bind fun _ s₅ h₅ => ?_
  exact h₅.1.allocPlain ((scrutinee, .expr) :: holding .matchArm arms) (by simp) rfl
    (by simp [Held.indices, holding, Function.comp_def]) (.one rfl (fits_holding arms)) rfl

/-! ### Dispatch -/

theorem symOf_prefixOperator {k : Token.Kind} (hk : isPrefixOperator k = true) :
    k = .bang ∨ k = .minus ∨ k = .amp ∨ k = .star := by
  simp only [isPrefixOperator, Bool.or_eq_true, decide_eq_true_eq] at hk
  tauto

/-- Before a token that may start an expression the parser consumes it. -/
theorem parsePrefixExpr_spec (hrec : Recurses w n rec) (hn : 4 * b + 1 ≤ n)
    (h : Holds w b e q st hs s) :
    Yields (parsePrefixExpr n rec) (fun i s' => Holds w b e q st (hs ++ [(i, .expr)]) s' ∧
      (isSync (s.stream.peek 0) = false ∧ s.stream.peek 0 ≠ .eof →
        Holds w (b - 1) e q st (hs ++ [(i, .expr)]) s')) s := by
  have hboth : ∀ {m : ParserM NodeIndex},
      Yields m (fun i s' => Holds w (b - 1) e q st (hs ++ [(i, .expr)]) s') s →
      Yields m (fun i s' => Holds w b e q st (hs ++ [(i, .expr)]) s' ∧
        (isSync (s.stream.peek 0) = false ∧ s.stream.peek 0 ≠ .eof →
          Holds w (b - 1) e q st (hs ++ [(i, .expr)]) s')) s := by
    intro m hm
    exact hm.mono fun _ _ h' => ⟨h'.more (Nat.sub_le b 1), fun _ => h'⟩
  have hpeek := peekToken_kind s.stream
  unfold parsePrefixExpr
  refine Yields.read rfl ?_
  split_ifs with hlit hop
  · rw [hpeek] at hlit
    refine hboth ?_
    refine (h.advance rfl (by rw [symOf_literal hlit]; rfl)).bind fun _ s₁ h₁ => ?_
    exact parseLitExpr_spec h₁ _
  · exact hboth (parseUnaryExpr_spec hrec hn h hpeek.symm (symOf_prefixOperator hop))
  · split
    case _ hk => exact hboth (parseNameExpr_spec hrec hn h (hpeek ▸ hk) _)
    case _ hk => exact hboth (parseParenExpr_spec hrec hn h (hpeek ▸ hk) _)
    case _ hk => exact hboth (parseArrayLitExpr_spec hrec hn h (hpeek ▸ hk))
    case _ hk =>
      exact hboth (((hrec.ifMoves hn).yields h (hpeek ▸ hk)).mono fun _ _ h' => h'.widen rfl)
    case _ hk => exact hboth (parseWhileStmt_spec hrec (by omega) h (hpeek ▸ hk))
    case _ hk => exact hboth (parseMatchExpr_spec hrec (by omega) h (hpeek ▸ hk))
    case _ hk => exact hboth (parseUnsafeBlock_spec hrec (by omega) h (hpeek ▸ hk))
    case _ hk =>
      exact hboth (((hrec.blockMoves hn).yields h (hpeek ▸ hk)).mono fun _ _ h' => h'.widen rfl)
    case _ hk => exact hboth (parseTensorLitExpr_spec hrec hn h (hpeek ▸ hk))
    case _ hk => exact hboth (parseStarExpr_spec hrec hn h hpeek.symm hk)
    case _ => exact parseBadExpr_spec h hpeek.symm

theorem parseExpr_spec (hrec : Recurses w n rec) (hn : 4 * b + 1 ≤ n) {m : ℤ} (hm : 0 ≤ m)
    (h : Holds w b e q st hs s) :
    Yields (parseExpr n rec m) (fun i s' => Holds w b e q st (hs ++ [(i, .expr)]) s' ∧
      (isSync (s.stream.peek 0) = false ∧ s.stream.peek 0 ≠ .eof →
        Holds w (b - 1) e q st (hs ++ [(i, .expr)]) s')) s := by
  have hloop : ∀ {b' lhs s₁}, b' ≤ b → Holds w b' e q st (hs ++ [(lhs, .expr)]) s₁ →
      Yields (iterate (infixTurn n rec m) n lhs)
        (fun i s' => Holds w b' e q st (hs ++ [(i, .expr)]) s') s₁ := by
    intro b' lhs s₁ hb h₁
    exact Yields.iterate (I := Operand w b' e q st hs)
      (fun _ _ _ hI => infixTurn_spec hrec (by omega) hm hI) (by omega) ⟨le_rfl, h₁⟩
  unfold parseExpr
  refine (parsePrefixExpr_spec hrec hn h).bind ?_
  rintro lhs s₁ ⟨h₁, h₁'⟩
  by_cases hmoves : isSync (s.stream.peek 0) = false ∧ s.stream.peek 0 ≠ .eof
  · exact (hloop (Nat.sub_le b 1) (h₁' hmoves)).mono fun _ _ h' =>
      ⟨h'.more (Nat.sub_le b 1), fun _ => h'⟩
  · exact (hloop le_rfl h₁).mono fun _ _ h' => ⟨h', fun hne => (hmoves hne).elim⟩

theorem parseStmt_spec (hrec : Recurses w n rec) (hn : 4 * b + 2 ≤ n)
    (h : Holds w b e q st hs s) (hne : s.stream.peek 0 ≠ .eof) :
    Yields (parseStmt n rec)
      (fun i s' => Holds w (b - 1) e q st (hs ++ [(i, .stmt)]) s') s := by
  have hpeek := peekToken_kind s.stream
  unfold parseStmt
  refine Yields.read rfl ?_
  split_ifs with hstarts
  · exact parseExprStmt_spec hrec hn h (hpeek ▸ hstarts)
  · split
    case _ hk => exact parseLetStmt_spec hrec hn h (hpeek ▸ hk)
    case _ hk =>
      exact ((hrec.ifMoves (by omega)).yields h (hpeek ▸ hk)).mono fun _ _ h' => h'.widen rfl
    case _ hk => exact parseForStmt_spec hrec (by omega) h (hpeek ▸ hk)
    case _ hk =>
      exact (parseWhileStmt_spec hrec (by omega) h (hpeek ▸ hk)).mono fun _ _ h' => h'.widen rfl
    case _ hk =>
      exact ((hrec.blockMoves (by omega)).yields h (hpeek ▸ hk)).mono fun _ _ h' => h'.widen rfl
    case _ hk => exact parseRetStmt_spec hrec (by omega) h (hpeek ▸ hk)
    case _ hk => exact parseJumpStmt_spec h (hpeek ▸ hk) (Or.inl ⟨rfl, rfl⟩)
    case _ hk => exact parseJumpStmt_spec h (hpeek ▸ hk) (Or.inr ⟨rfl, rfl⟩)
    case _ hk =>
      exact (parseUnsafeBlock_spec hrec (by omega) h (hpeek ▸ hk)).mono fun _ _ h' => h'.widen rfl
    case _ => exact parseBadStmt_spec h hne _

end Eter.Parser
