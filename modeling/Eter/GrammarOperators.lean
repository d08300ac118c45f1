import Eter.GrammarExprs

/-!
# Operators and postfix forms are read
-/

namespace Eter.Parser
open Stateful NodePool

variable {st : TokenStream} {lit : Bool} {s t : PState} {n i j k p q : ℕ} {x : NodeIndex}
  {e f tr : SyntaxTree} {ts : List SyntaxTree} {a b : Bytes}

/-! ### Prefix operators -/

theorem prefixBindingPower_eq (op : PrefixOperator) : prefixBindingPower op = 110 := by
  obtain ⟨w, hw⟩ := op
  revert hw
  cases w <;> simp [isPrefixOperator, prefixBindingPower]

theorem isLiteral_operator (op : PrefixOperator) : isLiteral op = false := by
  obtain ⟨w, hw⟩ := op
  revert hw
  cases w <;> simp [isPrefixOperator, isLiteral]

theorem operand_unary (hop : isPrefixOperator (st.kindAt i) = true)
    (h : OperandAt st lit p (i + 1) j e) (hp : 110 ≤ p) : OperandAt st lit 110 i j
      (.node .UnaryExpr 0 none (makeOpPayload (st.kindAt i).value) [e]) := by
  have hlt := h.lt
  have hstarts := closesElement_sign hop
  refine operand_of_prefix (by omega) hstarts (by simp) fun n hn s hs hc => ?_
  refine hs.prefixExpr ?_
  rw [show isLiteral (st.kindAt i) = false from isLiteral_operator ⟨st.kindAt i, hop⟩,
    if_neg Bool.false_ne_true, if_pos hop]
  unfold parseUnaryExpr
  refine hs.gathered.advance rfl (ne_of_starts hstarts rfl) fun t₁ h₁ => ?_
  rw [tokenAt_kind, show prefixBindingPower (st.kindAt i) = 110 from
    prefixBindingPower_eq ⟨st.kindAt i, hop⟩]
  refine h₁.call (h.element (m := 110) (by exact_mod_cast hp) (ends_of_completes_unary hc)) rfl
    (by omega) fun x t₂ h₂ => ?_
  refine h₂.spanOf (List.mem_singleton_self x) (by simpa using h.node) fun span => ?_
  exact h₂.alloc (.operator _)

theorem Before.starExpr {Q : NodeIndex → PState → Prop} (hs : Before st lit i s)
    (hop : st.kindAt i = .star) (h : Yields (parseStarExpr (run n) (st.tokenAt i)) Q s) :
    Yields (parsePrefixExpr n (run n)) Q s := by
  refine hs.prefixExpr ?_
  rw [hop]
  exact h

theorem operand_deref (hop : st.kindAt i = .star) (h : OperandAt st lit p (i + 1) j e) (hp : 110 ≤ p)
    (hend : st.kindAt j ≠ .eq) : OperandAt st lit 110 i j
      (.node .UnaryExpr 0 none (makeOpPayload Token.Kind.star.value) [e]) := by
  have hlt := h.lt
  refine operand_of_prefix (by omega) (by rw [hop]; rfl) (by simp) fun n hn s hs hc => ?_
  refine hs.starExpr hop ?_
  unfold parseStarExpr
  refine hs.gathered.advance hop (by decide) fun t₁ h₁ => ?_
  rw [tokenAt_kind, hop]
  refine h₁.call (h.element (m := 110) (by exact_mod_cast hp) (ends_of_completes_unary hc)) rfl
    (by omega) fun x t₂ h₂ => ?_
  refine h₂.consume_else hend ?_
  refine h₂.spanOf (List.mem_singleton_self x) (by simpa using h.node) fun span => ?_
  exact h₂.alloc (.operator _)

theorem operand_projAssign (hop : st.kindAt i = .star) (h : OperandAt st lit p (i + 1) j e)
    (hp : 110 ≤ p) (heq : st.kindAt j = .eq) (hvalue : Element st lit exprParser 1 (j + 1) k f) :
    OperandAt st lit 120 i k (.node .ProjAssignExpr 0 none 0 [e, f]) := by
  have hlt := h.lt
  have hlt' := hvalue.lt
  refine operand_of_prefix (by omega) (by rw [hop]; rfl) (by simp) fun n hn s hs hc => ?_
  refine hs.starExpr hop ?_
  unfold parseStarExpr
  refine hs.gathered.advance hop (by decide) fun t₁ h₁ => ?_
  rw [tokenAt_kind, hop]
  refine h₁.call (h.element (m := 110) (by exact_mod_cast hp) (by rw [heq]; exact ⟨rfl, by decide⟩))
    rfl (by omega) fun x t₂ h₂ => ?_
  refine h₂.consume_then heq (by decide) fun t₃ h₃ => ?_
  refine h₃.call hvalue rfl (by omega) fun y t₄ h₄ => ?_
  refine h₄.spanOf (x := y) (by simp) (by simpa using ⟨h.node, hvalue.node⟩) fun span => ?_
  exact h₄.alloc (.plain _)

/-! ### Infix operators -/

theorem Before.behind (hs : Before st lit i s) (hx : s.Parsed j e.stored x t) :
    Gathered st lit s j [] [x] [e] t :=
  hs.gathered.concat hx

theorem operand_binary (hl : OperandAt st lit p i j e) (hop : 0 < precedence (st.kindAt j))
    (hp : Expression.leftPrecedence ⟨st.kindAt j, hop⟩ ≤ p) (hr : OperandAt st lit q (j + 1) k f)
    (hq : Expression.rightPrecedence ⟨st.kindAt j, hop⟩ ≤ q) :
    OperandAt st lit (precedence (st.kindAt j)) i k
      (.node .BinaryExpr 0 none (makeOpPayload (st.kindAt j).value) [e, f]) := by
  have hlt := hl.lt
  have hlt' := hr.lt
  obtain ⟨op, hopEq⟩ : ∃ op : InfixOperator, op = ⟨st.kindAt j, hop⟩ := ⟨_, rfl⟩
  have hkind : st.kindAt j = op := by rw [hopEq]
  rw [← hopEq] at hp hq
  refine ⟨by omega, hl.starts, by simp, fun n hn s m hs hm hc => ?_⟩
  rw [hkind] at hm hc ⊢
  have hcompletes : Completes (st.kindAt j) p := by
    rw [hkind]
    exact completes_left hp
  have hm' : m ≤ p := hm.trans (by exact_mod_cast (Expression.le_left op).trans hp)
  have hpost : isPostfix (s.kindAt j) = false := by
    rw [hs.kindAt_eq, hkind]
    obtain ⟨w, hw⟩ := op
    revert hw
    cases w <;> simp [precedence, isPostfix]
  have hbp : (infixBindingPower op).2 ≤ q :=
    (Expression.right_le op).trans (by exact_mod_cast hq)
  have hright := hr.element hbp (ends_of_completes hc)
  refine ((hl.built n (by omega) s m hs hm' hcompletes).operator hpost fun x t hx => ?_).mono
    (by omega)
  have h₁ := hs.behind hx
  unfold operatorTurn
  refine h₁.peek ?_
  show Yields (if (infixBindingPower (st.kindAt j)).1 < m then _ else
    parseInfix (run n) (infixBindingPower (st.kindAt j)).2 x) _ t
  rw [hkind, infix_left, if_neg (not_lt.mpr hm)]
  have hne : (op : Token.Kind) ≠ .eof := by
    obtain ⟨w, hw⟩ := op
    rintro rfl
    exact absurd hw (by decide)
  unfold parseInfix
  refine h₁.advance hkind hne fun t₂ h₂ => ?_
  refine h₂.call hright rfl (by omega) fun y t₃ h₃ => ?_
  refine h₃.kindOf (x := y) (by simp) (by simpa using ⟨hl.node, hr.node⟩) fun kind hkindOf => ?_
  rw [if_neg hkindOf]
  refine h₃.spanOf (x := x) (by simp) (by simpa using ⟨hl.node, hr.node⟩) fun span => ?_
  refine h₃.spanOf (x := y) (by simp) (by simpa using ⟨hl.node, hr.node⟩) fun span' => ?_
  rw [tokenAt_kind, hkind]
  exact turns_again (h₃.alloc (.operator _))

/-! ### Postfix forms -/

/-- A turn behind an operand that holds together most tightly. -/
theorem OperandAt.behind (h : OperandAt st lit 120 i j e) (hlt : j < k) (hnode : tr.IsNode)
    (hturn : ∀ n ≥ 4 * (k - j), ∀ s x t, Gathered st lit s j [] [x] [e] t →
      Yields (postfixAt n (run n) x (st.kindAt j)) (Turns s k tr.stored) t) :
    OperandAt st lit 120 i k tr := by
  have hlt' := h.lt
  refine ⟨by omega, h.starts, hnode, fun n hn s m hs hm _ => ?_⟩
  refine ((h.built n (by omega) s m hs hm (.inl le_rfl)).turn fun x t hx => ?_).mono
    (by omega : j - i + 1 ≤ k - i)
  have h₁ := hs.behind hx
  rw [← h₁.kind] at hturn
  exact hturn n (by omega) s x t h₁

def argsParser (n : ℕ) : ParserM NodeIndex := parseArgList n (run n)

theorem reads_args (hopen : st.kindAt i = .l_paren)
    (hl : ListOf st (Element st true exprParser 1) (i + 1) j ts) (hle : i + 1 ≤ j)
    (hclose : st.kindAt j = .r_paren) :
    Runs st lit argsParser 0 i (j + 1) (.node .ArgList 0 none 0 ts) := by
  intro n hn s hs
  show Yields (parseArgList n (run n)) _ s
  unfold parseArgList
  refine hs.gathered.expect hopen (by decide) fun t₁ h₁ => h₁.inside (b := true) fun s' t₂ h₂ => ?_
  unfold parseArgs
  rw [bind_assoc]
  rcases hl.first (by rw [hclose]; decide) with ⟨rfl, rfl⟩ | ⟨k, tr, ts', rfl, helem, hmore⟩
  · refine h₂.check_hit hclose ?_
    rw [if_pos rfl, pure_bind]
    exact h₂.expect hclose (by decide) fun t₃ h₃ => h₃.alloc (.plain _)
  · have hlt := helem.lt
    have hlen := hmore.length_le
    refine h₂.check_miss (ne_of_starts helem.starts rfl) ?_
    rw [if_neg Bool.false_ne_true, bind_assoc]
    refine h₂.call helem rfl (by omega) fun x t₃ h₃ => ?_
    refine h₃.parseMore hmore rfl (by omega) (by omega) fun ys t₄ h₄ => ?_
    exact h₄.expect hclose (by decide) fun t₅ h₅ => h₅.alloc (.plain _)

theorem operand_call (hcallee : OperandAt st lit 120 i j e) (hopen : st.kindAt j = .l_paren)
    (hargs : Element st lit argsParser 0 j k f) :
    OperandAt st lit 120 i k (.node .CallExpr 0 none 0 [e, f]) := by
  refine hcallee.behind hargs.lt (by simp) fun n hn s x t ht => ?_
  rw [hopen]
  refine turns_again ?_
  unfold parseCall
  refine ht.call hargs rfl (by omega) fun y t₁ h₁ => ?_
  have hnodes : ∀ tr ∈ [e] ++ [f], tr.IsNode := by simpa using ⟨hcallee.node, hargs.node⟩
  refine h₁.spanOf (x := x) (by simp) hnodes fun span => ?_
  refine h₁.spanOf (x := y) (by simp) hnodes fun span' => ?_
  exact h₁.alloc (.plain _)

theorem operand_index (hbase : OperandAt st lit 120 i j e) (hopen : st.kindAt j = .l_square)
    (hindices : CommasOf st (Element st true exprParser 1) (j + 1) k ts) (hsome : ts ≠ [])
    (hle : j + 1 ≤ k) (hclose : st.kindAt k = .r_square) :
    OperandAt st lit 120 i (k + 1)
      (.node (if 1 < ts.length then .TensorIndexExpr else .IndexExpr) 0 none 0 (e :: ts)) := by
  refine hbase.behind (by omega) (by rw [isNode_node]; split <;> decide) fun n hn s x t ht => ?_
  rw [hopen]
  refine turns_again ?_
  unfold parsePostfixIndex
  refine ht.advance hopen (by decide) fun t₁ h₁ => ?_
  refine h₁.spanOf (x := x) (by simp) (by simpa using hbase.node) fun span => ?_
  refine h₁.exprList hindices hsome (fun w hw => decide_closer_of_starts rfl hw)
    (by rw [hclose]; rfl) (by rw [hclose]; decide) (by omega) fun ys t₂ h₂ => ?_
  have hlen : ys.length = ts.length := by simpa using h₂.length
  refine h₂.expect hclose (by decide) fun t₃ h₃ => ?_
  rw [hlen]
  by_cases hmany : 1 < ts.length
  · rw [decide_eq_true hmany, if_pos rfl, if_pos hmany]
    exact h₃.alloc (.plain _)
  · rw [decide_eq_false hmany, if_neg Bool.false_ne_true, if_neg hmany]
    exact h₃.alloc (.plain _)

theorem operand_propagate (hbase : OperandAt st lit 120 i j e) (hmark : st.kindAt j = .question) :
    OperandAt st lit 120 i (j + 1) (.node .PropagateExpr 0 none 0 [e]) := by
  refine hbase.behind (by omega) (by simp) fun n hn s x t ht => ?_
  rw [hmark]
  refine turns_again ?_
  unfold parsePropagate
  refine ht.advance hmark (by decide) fun t₁ h₁ => ?_
  refine h₁.spanOf (x := x) (by simp) (by simpa using hbase.node) fun span => ?_
  exact h₁.previous (by rw [hmark]; decide) (h₁.alloc (.plain _))

theorem operand_cast (hbase : OperandAt st lit 120 i j e) (hword : st.kindAt j = .kw_as)
    (htype : Element st lit typeParser 1 (j + 1) k f) :
    OperandAt st lit 120 i k (.node .CastExpr 0 none 0 [e, f]) := by
  have hlt := htype.lt
  refine hbase.behind (by omega) (by simp) fun n hn s x t ht => ?_
  rw [hword]
  refine turns_again ?_
  unfold parseCast
  refine ht.advance hword (by decide) fun t₁ h₁ => ?_
  refine h₁.call htype rfl (by omega) fun y t₂ h₂ => ?_
  have hnodes : ∀ tr ∈ [e] ++ [f], tr.IsNode := by simpa using ⟨hbase.node, htype.node⟩
  refine h₂.spanOf (x := x) (by simp) hnodes fun span => ?_
  refine h₂.spanOf (x := y) (by simp) hnodes fun span' => ?_
  exact h₂.alloc (.plain _)

/-! ### Behind a dot -/

theorem Gathered.allocTupleIndex {names : List (InternedStr × Bytes)} {α : Type}
    {Q : α → PState → Prop} {g : NodeIndex → ParserM α} (h : Gathered st lit s j names [x] [e] t)
    (he : e.IsNode) (stop : ℕ) (text : Bytes)
    (hg : ∀ y u, s.Parsed j (SyntaxTree.node .TupleIndexExpr 0 (some text) 0 [e]).stored y u →
      Yields (g y) Q u) : Yields (Parser.allocTupleIndex x stop text >>= g) Q t := by
  unfold Parser.allocTupleIndex
  rw [bind_assoc]
  refine h.spanOf (x := x) (by simp) (by simpa using he) fun span => ?_
  rw [bind_assoc]
  refine h.intern text fun id t₁ h₁ => ?_
  refine Yields.bind (h₁.alloc ?_) hg
  exact .name h₁.named

theorem floatIndex_none (h : t.stream.peek 0 ≠ .float_literal) : floatIndex t = .ok (none, t) := by
  obtain ⟨r, hrun, hr⟩ := floatIndex_reads t
  cases r with
  | none => exact hrun
  | some r => exact absurd (hr (by simp)) h

theorem operand_field (hbase : OperandAt st lit 120 i j e) (hdot : st.kindAt j = .dot)
    (hname : st.kindAt (j + 1) = .identifier) :
    OperandAt st lit 120 i (j + 2) (.node .FieldExpr 0 (some (st.textAt (j + 1))) 0 [e]) := by
  refine hbase.behind (by omega) (by simp) fun n hn s x t ht => ?_
  rw [hdot]
  refine turns_again ?_
  unfold parseDot
  refine ht.advance hdot (by decide) fun t₁ h₁ => ?_
  refine h₁.check_else (by rw [hname]; decide) ?_
  refine Yields.read (floatIndex_none (by rw [h₁.kind, hname]; decide)) ?_
  show Yields (parseField x) _ _
  unfold parseField expectAndIntern
  rw [bind_assoc]
  refine h₁.expect hname (by decide) fun t₂ h₂ => ?_
  refine h₂.internText _ fun name t₃ h₃ => ?_
  refine h₃.spanOf (x := x) (by simp) (by simpa using hbase.node) fun span => ?_
  exact h₃.previous (by rw [hname]; decide) (h₃.alloc (.packedNone h₃.named))

theorem operand_tupleIndex (hbase : OperandAt st lit 120 i j e) (hdot : st.kindAt j = .dot)
    (hindex : st.kindAt (j + 1) = .integer_literal) :
    OperandAt st lit 120 i (j + 2) (.node .TupleIndexExpr 0 (some (st.textAt (j + 1))) 0 [e]) := by
  refine hbase.behind (by omega) (by simp) fun n hn s x t ht => ?_
  rw [hdot]
  refine turns_again ?_
  unfold parseDot
  refine ht.advance hdot (by decide) fun t₁ h₁ => h₁.check_then hindex ?_
  refine h₁.advance hindex (by decide) fun t₂ h₂ => h₂.text ?_
  rw [← bind_pure (allocTupleIndex _ _ _)]
  exact h₂.allocTupleIndex hbase.node _ _ fun y u hy => Yields.pure hy

theorem operand_floatIndex (hbase : OperandAt st lit 120 i j e) (hdot : st.kindAt j = .dot)
    (hindex : st.kindAt (j + 1) = .float_literal)
    (htext : splitDot (st.textAt (j + 1)) = some (a, b)) :
    OperandAt st lit 120 i (j + 2) (floatIndexTree e a (dropSuffixF b)) := by
  refine hbase.behind (by omega) (floatIndexTree_isNode _ _ _) fun n hn s x t ht => ?_
  rw [hdot]
  refine turns_again ?_
  unfold parseDot
  refine ht.advance hdot (by decide) fun t₁ h₁ => ?_
  refine h₁.check_else (by rw [hindex]; decide) ?_
  have hsplit : floatIndex t₁ = .ok (some (st.tokenAt (j + 1), a, dropSuffixF b), t₁) := by
    obtain ⟨r, u, hrun, rfl, rfl⟩ : Yields floatIndex (fun r u =>
        r = some (st.tokenAt (j + 1), a, dropSuffixF b) ∧ u = t₁) t₁ := by
      unfold floatIndex
      refine h₁.check_then hindex (h₁.peekToken (h₁.text ?_))
      rw [show st.textOf (st.tokenAt (j + 1)).tokenSpan = _ from rfl]
      refine Yields.pure ⟨?_, rfl⟩
      rw [show splitDot (st.textOf (st.tokenAt (j + 1)).tokenSpan) = some (a, b) from htext]
      rfl
    exact hrun
  refine Yields.read hsplit ?_
  show Yields (parseFloatIndex x (st.tokenAt (j + 1)) a (dropSuffixF b)) _ _
  unfold parseFloatIndex
  refine h₁.advance hindex (by decide) fun t₂ h₂ => ?_
  refine h₂.allocTupleIndex hbase.node _ _ fun y u hy => ?_
  unfold floatIndexTree
  split_ifs with hfrac
  · obtain ⟨i₀, hs⟩ := h₂.start
    rw [← bind_pure (allocTupleIndex _ _ _)]
    exact (hs.behind hy).allocTupleIndex (by simp) _ _ fun z v hz => Yields.pure hz
  · exact Yields.pure hy

end Eter.Parser
