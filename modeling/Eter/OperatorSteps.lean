import Eter.ExpressionSteps

/-!
# Postfix forms and infix operators keep the invariant

The left operand is the last held node; every form adopts it and holds the new node in its place.
-/

namespace Eter.Parser
open Stateful Brackets Layout

variable {w : Watch} {b e q n : ℕ} {st : List Bracket} {hs : Held} {s : PState} {rec : Rec}
  {lhs : NodeIndex}

theorem parseArgs_spec (hrec : Recurses w n rec) (hn : 4 * b + 2 ≤ n) (h : Holds w b e q st hs s) :
    Yields (parseArgs n rec)
      (fun args s' => Holds w b e q st (hs ++ holding .expr args) s') s := by
  unfold parseArgs
  refine Yields.read rfl ?_
  split_ifs
  · exact Yields.pure (by simpa using h)
  · refine ((hrec.expr le_rfl hn).yields h).bind fun first s₁ h₁ => ?_
    exact (moreExprs_spec hrec hn h₁ _).mono fun _ _ h' => h'.1

theorem parseArgList_spec (hrec : Recurses w n rec) (hn : 4 * b + 1 ≤ n)
    (h : Holds w b e q st hs s) (hk : s.stream.peek 0 = .l_paren) :
    Yields (parseArgList n rec)
      (fun i s' => Holds w (b - 1) e q st (hs ++ [(i, .argList)]) s') s := by
  have hpos := h.pos (by rw [hk]; decide)
  unfold parseArgList
  refine (h.expect_hit hk rfl _ _).bind fun _ s₁ h₁ => ?_
  refine h₁.withStructLit (fun s₁ h₁ => ?_) fun _ _ x h' => h'.structLit x
  refine (parseArgs_spec hrec (by omega) h₁).bind fun args s₂ h₂ => ?_
  refine (h₂.expect (k := .r_paren) rfl _ _).bind fun _ s₃ h₃ => ?_
  exact h₃.1.allocPlain (holding .expr args) rfl rfl (indices_holding args).symm
    (fits_holding args) rfl

theorem allocTupleIndex_spec (h : Holds w b e q st (hs ++ [(lhs, .expr)]) s) (stop : ℕ)
    (text : Bytes) :
    Yields (allocTupleIndex lhs stop text)
      (fun i s' => Holds w b e q st (hs ++ [(i, .expr)]) s') s := by
  unfold allocTupleIndex
  refine h.spanOf (i := lhs) (c := .expr) (by simp) rfl fun _ => ?_
  refine (h.intern _).bind fun _ s₁ h₁ => ?_
  exact h₁.allocPlain [(lhs, .expr)] rfl rfl rfl (.one rfl .nil) rfl

theorem floatIndex_reads (s : PState) : ∃ r, floatIndex s = .ok (r, s) ∧
    (r ≠ none → s.stream.peek 0 = .float_literal) := by
  have hrun : floatIndex s = if s.stream.check .float_literal then
      .ok ((splitDot (s.stream.textOf (s.stream.peekToken 0).tokenSpan)).map
        fun r => (s.stream.peekToken 0, r.1, dropSuffixF r.2), s)
      else .ok (none, s) := by
    unfold floatIndex
    show (if s.stream.check .float_literal then _ else _ : ParserM _) s = _
    split_ifs <;> rfl
  rw [hrun]
  split_ifs with hc
  · exact ⟨_, rfl, fun _ => by simpa [TokenStream.check] using hc⟩
  · exact ⟨none, rfl, fun hne => (hne rfl).elim⟩

theorem parseFloatIndex_spec (h : Holds w b e q st (hs ++ [(lhs, .expr)]) s)
    (hk : s.stream.peek 0 = .float_literal) (tok : Token) (intPart fracPart : Bytes) :
    Yields (parseFloatIndex lhs tok intPart fracPart)
      (fun i s' => Holds w (b - 1) e q st (hs ++ [(i, .expr)]) s') s := by
  unfold parseFloatIndex
  refine (h.advance hk rfl).bind fun _ s₁ h₁ => ?_
  refine (allocTupleIndex_spec h₁ _ _).bind fun lhs' s₂ h₂ => ?_
  split_ifs
  · exact allocTupleIndex_spec h₂ _ _
  · exact Yields.pure h₂

theorem parseField_spec (h : Holds w b e q st (hs ++ [(lhs, .expr)]) s) :
    Yields (parseField lhs) (fun i s' => Holds w b e q st (hs ++ [(i, .expr)]) s') s := by
  unfold parseField
  refine (h.expectAndIntern (k := .identifier) rfl _).bind fun _ s₁ h₁ => ?_
  refine h₁.spanOf (i := lhs) (c := .expr) (by simp) rfl fun _ => Yields.read rfl ?_
  exact h₁.allocPlain [(lhs, .expr)] rfl rfl rfl (.one rfl .nil) rfl

theorem parseDot_spec (h : Holds w b e q st (hs ++ [(lhs, .expr)]) s)
    (hk : s.stream.peek 0 = .dot) :
    Yields (parseDot lhs) (fun i s' => Holds w (b - 1) e q st (hs ++ [(i, .expr)]) s') s := by
  unfold parseDot
  refine (h.advance hk rfl).bind fun _ s₁ h₁ => Yields.read rfl ?_
  split_ifs with hint
  · have hk₁ : s₁.stream.peek 0 = .integer_literal := by simpa [TokenStream.check] using hint
    refine (h₁.advance hk₁ rfl).bind fun _ s₂ h₂ => Yields.read rfl ?_
    exact allocTupleIndex_spec (h₂.more (Nat.sub_le _ 1)) _ _
  · obtain ⟨r, hr, hfloat⟩ := floatIndex_reads s₁
    refine Yields.read hr ?_
    cases r with
    | some r =>
      exact (parseFloatIndex_spec h₁ (hfloat (by simp)) _ _ _).mono fun _ _ h' =>
        h'.more (Nat.sub_le _ 1)
    | none => exact parseField_spec h₁

theorem parsePostfixIndex_spec (hrec : Recurses w n rec) (hn : 4 * b + 1 ≤ n)
    (h : Holds w b e q st (hs ++ [(lhs, .expr)]) s) (hk : s.stream.peek 0 = .l_square) :
    Yields (parsePostfixIndex n rec lhs)
      (fun i s' => Holds w (b - 1) e q st (hs ++ [(i, .expr)]) s') s := by
  have hpos := h.pos (by rw [hk]; decide)
  unfold parsePostfixIndex
  refine (h.advance hk rfl).bind fun _ s₁ h₁ => ?_
  refine h₁.spanOf (i := lhs) (c := .expr) (by simp) rfl fun _ => ?_
  have hindices : Yields (withStructLit true do
        let first ← rec (.expr 0)
        parseMore n [first] isRSquare (rec (.expr 0)))
      (fun indices s' => Holds w (b - 1) e q (.square :: st)
        (hs ++ [(lhs, .expr)] ++ holding .expr indices) s' ∧ ∃ i is, indices = i :: is) s₁ := by
    refine h₁.withStructLit (fun s₁ h₁ => ?_) fun _ _ x h' => ⟨h'.1.structLit x, h'.2⟩
    refine ((hrec.expr le_rfl (by omega)).yields h₁).bind fun first s₂ h₂ => ?_
    exact (moreExprs_spec hrec (by omega) h₂ _).mono fun _ _ ⟨h', es, heq⟩ => ⟨h', first, es, heq⟩
  refine hindices.bind ?_
  rintro _ s₂ ⟨h₂, i, is, rfl⟩
  refine (h₂.expect (k := .r_square) rfl _ _).bind fun _ s₃ h₃ => ?_
  have hidx : lhs :: i :: is = Held.indices ((lhs, .expr) :: holding .expr (i :: is)) := by
    simp [Held.indices, holding, Function.comp_def]
  cases is with
  | nil =>
    exact h₃.1.allocPlain ((lhs, .expr) :: holding .expr [i]) (by simp) rfl hidx
      (.one rfl (.one rfl .nil)) rfl
  | cons i' is =>
    have htensor : decide (1 < (i :: i' :: is).length) = true := by simp
    rw [htensor]
    exact h₃.1.allocPlain ((lhs, .expr) :: holding .expr (i :: i' :: is)) (by simp) rfl hidx
      (.one rfl (.one rfl (.one rfl (fits_holding is)))) rfl

theorem parseCall_spec (hrec : Recurses w n rec) (hn : 4 * b + 1 ≤ n)
    (h : Holds w b e q st (hs ++ [(lhs, .expr)]) s) (hk : s.stream.peek 0 = .l_paren) :
    Yields (parseCall n rec lhs)
      (fun i s' => Holds w (b - 1) e q st (hs ++ [(i, .expr)]) s') s := by
  unfold parseCall
  refine (parseArgList_spec hrec hn h hk).bind fun args s₁ h₁ => ?_
  refine h₁.spanOf (i := lhs) (c := .expr) (by simp) rfl fun _ => ?_
  refine h₁.spanOf (i := args) (c := .argList) (by simp) rfl fun _ => ?_
  exact h₁.allocPlain [(lhs, .expr), (args, .argList)] (by simp) rfl rfl
    (.one rfl (.one rfl .nil)) rfl

theorem parsePropagate_spec (h : Holds w b e q st (hs ++ [(lhs, .expr)]) s)
    (hk : s.stream.peek 0 = .question) :
    Yields (parsePropagate lhs)
      (fun i s' => Holds w (b - 1) e q st (hs ++ [(i, .expr)]) s') s := by
  unfold parsePropagate
  refine (h.advance hk rfl).bind fun _ s₁ h₁ => ?_
  refine h₁.spanOf (i := lhs) (c := .expr) (by simp) rfl fun _ => Yields.read rfl ?_
  exact h₁.allocPlain [(lhs, .expr)] rfl rfl rfl (.one rfl .nil) rfl

theorem parseCast_spec (hrec : Recurses w n rec) (hn : 4 * b + 1 ≤ n)
    (h : Holds w b e q st (hs ++ [(lhs, .expr)]) s) (hk : s.stream.peek 0 = .kw_as) :
    Yields (parseCast rec lhs)
      (fun i s' => Holds w (b - 1) e q st (hs ++ [(i, .expr)]) s') s := by
  have hpos := h.pos (by rw [hk]; decide)
  unfold parseCast
  refine (h.advance hk rfl).bind fun _ s₁ h₁ => ?_
  refine ((hrec.type (by omega)).yields h₁).bind fun type s₂ h₂ => ?_
  refine h₂.spanOf (i := lhs) (c := .expr) (by simp) rfl fun _ => ?_
  refine h₂.spanOf (i := type) (c := .type) (by simp) rfl fun _ => ?_
  exact h₂.allocPlain [(lhs, .expr), (type, .type)] (by simp) rfl rfl
    (.one rfl (.one rfl .nil)) rfl

/-- What an operand loop keeps: the operand is the last held node. -/
def Operand (w : Watch) (b e q : ℕ) (st : List Bracket) (hs : Held) (v : ℕ) (lhs : NodeIndex)
    (s : PState) : Prop :=
  v ≤ b ∧ Holds w v e q st (hs ++ [(lhs, .expr)]) s

theorem postfixTurn_spec (hrec : Recurses w n rec) (hn : 4 * b + 1 ≤ n) {v : ℕ}
    (h : Operand w b e q st hs v lhs s) :
    Yields (postfixTurn n rec lhs) (fun r s' => r.Leads
      (fun lhs' => ∃ v' < v, Operand w b e q st hs v' lhs' s')
      (fun lhs' => Holds w b e q st (hs ++ [(lhs', .expr)]) s')) s := by
  obtain ⟨hv, h⟩ := h
  have hagain : ∀ {m : ParserM NodeIndex}, s.stream.peek 0 ≠ .eof →
      Yields m (fun i s' => Holds w (v - 1) e q st (hs ++ [(i, .expr)]) s') s →
      Yields (do return .again (← m) : ParserM (Turn NodeIndex NodeIndex)) (fun r s' => r.Leads
        (fun lhs' => ∃ v' < v, Operand w b e q st hs v' lhs' s')
        (fun lhs' => Holds w b e q st (hs ++ [(lhs', .expr)]) s')) s := by
    intro m hne hm
    have hpos := h.pos hne
    exact hm.bind fun i s₁ h₁ => Yields.pure ⟨v - 1, by omega, by omega, h₁⟩
  unfold postfixTurn
  refine Yields.read rfl ?_
  split
  · exact hagain (by simp [*]) (parseCall_spec hrec (by omega) h ‹_›)
  · exact hagain (by simp [*]) (parseDot_spec h ‹_›)
  · exact hagain (by simp [*]) (parsePostfixIndex_spec hrec (by omega) h ‹_›)
  · exact hagain (by simp [*]) (parsePropagate_spec h ‹_›)
  · exact hagain (by simp [*]) (parseCast_spec hrec (by omega) h ‹_›)
  · exact Yields.pure (h.more hv)

theorem parsePostfixOrCallExpr_spec (hrec : Recurses w n rec) (hn : 4 * b + 1 ≤ n)
    (h : Holds w b e q st (hs ++ [(lhs, .expr)]) s) :
    Yields (parsePostfixOrCallExpr n rec lhs)
      (fun i s' => Holds w b e q st (hs ++ [(i, .expr)]) s') s :=
  Yields.iterate (I := Operand w b e q st hs) (fun _ _ _ hI => postfixTurn_spec hrec hn hI)
    (by omega) ⟨le_rfl, h⟩

/-! ### Infix operators -/

/-- A token with a binding power is an operator. -/
theorem infix_operator {k : Token.Kind} (hk : 0 ≤ (infixBindingPower k).1) :
    symOf k = .neutral ∧ k ≠ .eof ∧ 0 ≤ (infixBindingPower k).2 := by
  cases k <;> first | exact ⟨rfl, by decide, by decide⟩ | exact absurd hk (by decide)

theorem parseInfix_spec (hrec : Recurses w n rec) (hn : 4 * b + 1 ≤ n) {v : ℕ}
    (hv : v ≤ b) (h : Holds w v e q st (hs ++ [(lhs, .expr)]) s)
    (hk : 0 ≤ (infixBindingPower (s.stream.peek 0)).1) :
    Yields (parseInfix rec (infixBindingPower (s.stream.peek 0)).2 lhs) (fun r s' => r.Leads
      (fun lhs' => ∃ v' < v, Operand w b e q st hs v' lhs' s')
      (fun lhs' => Holds w b e q st (hs ++ [(lhs', .expr)]) s')) s := by
  obtain ⟨hsym, hne, hright⟩ := infix_operator hk
  have hpos := h.pos hne
  unfold parseInfix
  refine (h.advance rfl (by rw [hsym]; rfl)).bind fun op s₁ h₁ => ?_
  refine ((hrec.expr hright (by omega)).yields h₁).bind fun rhs s₂ h₂ => ?_
  refine h₂.kindOf (i := rhs) (c := .expr) (by simp) rfl fun kind herror => ?_
  split_ifs with hkind
  · -- the left operand is dropped with the operator
    refine Yields.pure ((((herror hkind).drop (le_max_right _ _) ?_).fewer (le_max_left _ _)).more
      (by omega))
    simp
  · refine h₂.spanOf (i := lhs) (c := .expr) (by simp) rfl fun _ => ?_
    refine h₂.spanOf (i := rhs) (c := .expr) (by simp) rfl fun _ => ?_
    refine Yields.bind (R := fun i s' => Holds w (v - 1) e q st (hs ++ [(i, .expr)]) s') ?_
      fun i s₃ h₃ => Yields.pure ⟨v - 1, by omega, by omega, h₃⟩
    exact h₂.allocPlain [(lhs, .expr), (rhs, .expr)] (by simp) rfl rfl
      (.one rfl (.one rfl .nil)) rfl

theorem infixTurn_spec (hrec : Recurses w n rec) (hn : 4 * b + 1 ≤ n) {m : ℤ} (hm : 0 ≤ m)
    {v : ℕ} (h : Operand w b e q st hs v lhs s) :
    Yields (infixTurn n rec m lhs) (fun r s' => r.Leads
      (fun lhs' => ∃ v' < v, Operand w b e q st hs v' lhs' s')
      (fun lhs' => Holds w b e q st (hs ++ [(lhs', .expr)]) s')) s := by
  obtain ⟨hv, h⟩ := h
  unfold infixTurn
  refine (parsePostfixOrCallExpr_spec hrec (by omega) h).bind fun lhs' s₁ h₁ => ?_
  refine Yields.read rfl ?_
  show Yields (if (infixBindingPower (s₁.stream.peek 0)).1 < m then _ else _) _ s₁
  split_ifs with hbp
  · exact Yields.pure (h₁.more hv)
  · exact parseInfix_spec hrec hn hv h₁ (by omega)

end Eter.Parser
