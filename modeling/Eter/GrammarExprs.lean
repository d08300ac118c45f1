import Eter.BuiltTrees
import Eter.GrammarTypes

/-!
# Expressions are read

An operand is built by a prefix form and the turns of the loops up to a token that completes it.
-/

namespace Eter.Parser
open Stateful NodePool

variable {st : TokenStream} {lit : Bool} {s t : PState} {n i j k l p q : ℕ} {m : ℤ}
  {x : NodeIndex} {e f tr : SyntaxTree} {ts ts' : List SyntaxTree} {w : Token.Kind}

/-! ### Operands -/

/-- Before the token an expression of the precedence is complete. -/
def Completes (w : Token.Kind) (p : ℕ) : Prop :=
  120 ≤ p ∨ isPostfix w = false ∧ (infixBindingPower w).1 < if p = 10 then 9 else (p : ℤ) + 1

theorem completes_of_ends (hw : Ends w m) (hm : m ≤ p) : Completes w p := by
  refine .inr ⟨hw.1, ?_⟩
  have hlt := hw.2
  split_ifs with hp
  · rcases left_of_any w with hleft | hleft <;> omega
  · omega

/-- An operator completes what may stand to its left. -/
theorem completes_left {op : InfixOperator} (hp : Expression.leftPrecedence op ≤ p) :
    Completes op p := by
  refine .inr ⟨?_, ?_⟩
  · obtain ⟨w, hw⟩ := op
    revert hw
    cases w <;> simp [Parser.precedence, isPostfix]
  · rw [infix_left]
    unfold Expression.leftPrecedence at hp
    rcases precedence_cases op with ⟨hr, hop, -⟩ | ⟨hl, hop, -, -⟩
    · rw [if_pos hr] at hp
      split_ifs <;> omega
    · rw [hl, if_neg Bool.false_ne_true] at hp
      split_ifs <;> omega

/-- What completes an operation ends its right operand. -/
theorem ends_of_completes {op : InfixOperator} (hw : Completes w (precedence op)) :
    Ends w (infixBindingPower op).2 := by
  rcases precedence_cases op with ⟨-, hop, hbp⟩ | ⟨-, hop, hle, hbp⟩
  · rcases hw with hw | ⟨hpost, hlt⟩
    · omega
    · rw [if_pos hop] at hlt
      exact ⟨hpost, by omega⟩
  · rcases hw with hw | ⟨hpost, hlt⟩
    · omega
    · rw [if_neg (by omega)] at hlt
      exact ⟨hpost, by omega⟩

theorem ends_of_completes_unary (hw : Completes w 110) : Ends w 110 := by
  rcases hw with hw | ⟨hpost, -⟩
  · omega
  · refine ⟨hpost, ?_⟩
    cases w <;> simp [infixBindingPower]

/-- Tokens `i` to `j` are an operand of the precedence. -/
structure OperandAt (st : TokenStream) (lit : Bool) (p i j : ℕ) (tr : SyntaxTree) : Prop where
  lt : i < j
  starts : closesElement (st.kindAt i) = false
  node : tr.IsNode
  built : ∀ n ≥ 4 * (j - i), ∀ s (m : ℤ), Before st lit i s → m ≤ p → Completes (st.kindAt j) p →
    Built n (j - i) m s j tr.stored

theorem Before.kindAt_eq (hs : Before st lit i s) (j : ℕ) : s.kindAt j = st.kindAt j := by
  show ({ s.stream with cursor := j } : TokenStream).peek 0 =
    ({ st with cursor := j } : TokenStream).peek 0
  unfold TokenStream.peek
  rw [hs.tokens]

/-- An operand up to a token that ends it at a binding power. -/
theorem OperandAt.element (h : OperandAt st lit p i j tr) (hm : m ≤ p) (hends : Ends (st.kindAt j) m) :
    Element st lit (fun n => run n (.expr m)) 1 i j tr := by
  refine ⟨h.lt, h.starts, h.node, fun n hn s hs => ?_⟩
  have hlt := h.lt
  obtain ⟨n, rfl⟩ : ∃ n', n = n' + 1 := ⟨n - 1, by omega⟩
  refine (h.built n (by omega) s m hs hm (completes_of_ends hends hm)).reads ?_ (by omega)
  rwa [hs.kindAt_eq]

theorem OperandAt.full (h : OperandAt st lit p i j tr) (hends : Ends (st.kindAt j) 0) :
    Element st lit exprParser 1 i j tr :=
  h.element (Int.natCast_nonneg p) hends

/-- A prefix form is an operand. -/
theorem operand_of_prefix (hlt : i < j) (hstarts : closesElement (st.kindAt i) = false)
    (hnode : tr.IsNode) (h : ∀ n ≥ 4 * (j - i), ∀ s, Before st lit i s →
      Completes (st.kindAt j) p → Yields (parsePrefixExpr n (run n)) (s.Parsed j tr.stored) s) :
    OperandAt st lit p i j tr :=
  ⟨hlt, hstarts, hnode, fun n hn s _ hs _ hc => .start (h n hn s hs hc) _⟩

/-- What a prefix form starts with decides which one it is. -/
theorem Before.prefixExpr {Q : NodeIndex → PState → Prop} {rec : Rec} (hs : Before st lit i s)
    (h : Yields (do
      let tok := st.tokenAt i
      if isLiteral (st.kindAt i) then
        let _ ← advance
        parseLitExpr tok
      else if isPrefixOperator (st.kindAt i) then parseUnaryExpr rec tok
      else
        match st.kindAt i with
        | .identifier => parseNameExpr n rec tok
        | .l_paren => parseParenExpr n rec tok
        | .l_square => parseArrayLitExpr n rec
        | .kw_if => rec .ifExpr
        | .kw_while => parseWhileStmt rec
        | .kw_match => parseMatchExpr n rec
        | .kw_unsafe_ => parseUnsafeBlock n rec
        | .l_brace => rec .block
        | .kw_tensor => parseTensorLitExpr n rec
        | .star => parseStarExpr rec tok
        | _ => parseBadExpr tok) Q s) : Yields (parsePrefixExpr n rec) Q s := by
  unfold parsePrefixExpr
  refine hs.gathered.peekToken ?_
  rwa [tokenAt_kind]

/-! ### Literals and names -/

theorem operand_literal (hlit : isLiteral (st.kindAt i) = true) :
    OperandAt st lit 120 i (i + 1) (.node .LitExpr 0 (some (st.textAt i)) 0 []) := by
  have hstarts := closesElement_literal hlit
  refine operand_of_prefix (by omega) hstarts (by simp) fun n hn s hs _ => ?_
  refine hs.prefixExpr ?_
  rw [if_pos hlit]
  have hne : st.kindAt i ≠ .eof := by
    intro hk
    rw [hk] at hstarts
    cases hstarts
  refine hs.gathered.advance rfl hne fun t₁ h₁ => ?_
  unfold parseLitExpr
  exact h₁.internText _ fun name t₂ h₂ => h₂.leaf (.packedNone h₂.named)

/-- Behind the path of a name. -/
def restOfName (n : ℕ) (rec : Rec) (name : InternedStr) (path : Bool × Span) :
    ParserM NodeIndex := do
  if (← structLitAllowed) && (← check .l_brace) then parseStructLitExpr n rec name path.2
  else allocLeaf (if path.1 then .PathExpr else .IdentExpr) path.2 name

theorem Before.nameExpr {Q : NodeIndex → PState → Prop} (hs : Before st lit i s)
    (hname : st.kindAt i = .identifier) (hpath : Segments st (i + 1) j)
    (hend : st.kindAt j ≠ .colon_colon) (hn : j - i ≤ n)
    (h : ∀ name t, Gathered st lit s j [(name, st.textFrom i j)] [] [] t →
      Yields (restOfName n (run n) name (decide (j ≠ i + 1),
        ⟨(st.tokenAt i).tokenSpan.start, (st.tokenAt (j - 1)).tokenSpan.end⟩)) Q t) :
    Yields (parsePrefixExpr n (run n)) Q s := by
  have hle := hpath.le
  refine hs.prefixExpr ?_
  rw [hname]
  show Yields (parseNameExpr n (run n) (st.tokenAt i)) _ _
  unfold parseNameExpr
  refine hs.gathered.advance hname (by decide) fun t₁ h₁ => ?_
  refine h₁.parsePathSegments hpath hend (by omega) fun t₂ h₂ => ?_
  exact h₂.internText _ fun name t₃ h₃ => h name t₃ h₃

theorem operand_name (hname : st.kindAt i = .identifier) (hpath : Segments st (i + 1) j)
    (hend : st.kindAt j ≠ .colon_colon) (hbrace : lit = true → st.kindAt j ≠ .l_brace) :
    OperandAt st lit 120 i j
      (.node (if j = i + 1 then .IdentExpr else .PathExpr) 0 (some (st.textFrom i j)) 0 []) := by
  have hle := hpath.le
  refine operand_of_prefix (by omega) (by rw [hname]; rfl) (by rw [isNode_node]; split <;> decide)
    fun n hn s hs _ => ?_
  refine hs.nameExpr hname hpath hend (by omega) fun name t ht => ?_
  unfold restOfName
  refine ht.structLitAllowed (ht.check ?_)
  have hand : (lit && decide (st.kindAt j = .l_brace)) = false := by
    cases lit with
    | false => rfl
    | true => simpa using hbrace rfl
  rw [hand, if_neg Bool.false_ne_true]
  by_cases hj : j = i + 1
  · subst hj
    rw [if_pos rfl, decide_eq_false (by simp), if_neg Bool.false_ne_true]
    exact ht.leaf (.name ht.named)
  · rw [if_neg hj, decide_eq_true hj, if_pos rfl]
    exact ht.leaf (.name ht.named)

/-! ### Struct literals -/

def fieldInitParser (n : ℕ) : ParserM NodeIndex := parseFieldInit (run n)

theorem reads_fieldInit (hname : st.kindAt i = .identifier) (hcolon : st.kindAt (i + 1) = .colon)
    (hinit : Element st lit exprParser 1 (i + 2) j e) :
    Runs st lit fieldInitParser 1 i j (.node .FieldInit 0 (some (st.textAt i)) 0 [e]) := by
  intro n hn s hs
  have hlt := hinit.lt
  have ht := hs.gathered
  show Yields (parseFieldInit (run n)) _ s
  unfold parseFieldInit
  refine ht.unless_check hname (ht.advance hname (by decide) fun t₁ h₁ => ?_)
  refine h₁.internText _ fun name t₂ h₂ => ?_
  refine h₂.consume_then hcolon (by decide) fun t₃ h₃ => ?_
  refine h₃.call hinit rfl (by omega) fun x t₄ h₄ => ?_
  refine h₄.spanOf (List.mem_singleton_self x) (by simpa using hinit.node) fun span => ?_
  exact h₄.alloc (.name h₄.named)

theorem reads_shortFieldInit (hname : st.kindAt i = .identifier)
    (hend : st.kindAt (i + 1) ≠ .colon) :
    Runs st lit fieldInitParser 1 i (i + 1) (.node .FieldInit 0 (some (st.textAt i)) 0
      [.node .IdentExpr 0 (some (st.textAt i)) 0 []]) := by
  intro n hn s hs
  have ht := hs.gathered
  show Yields (parseFieldInit (run n)) _ s
  unfold parseFieldInit
  refine ht.unless_check hname (ht.advance hname (by decide) fun t₁ h₁ => ?_)
  refine h₁.internText _ fun name t₂ h₂ => ?_
  refine h₂.consume_else hend (h₂.leafThen (.name h₂.named) fun x t₃ h₃ => ?_)
  exact h₃.alloc (.name h₃.named)

theorem operand_structLit (hname : st.kindAt i = .identifier) (hpath : Segments st (i + 1) j)
    (hopen : st.kindAt j = .l_brace)
    (hfields : CommasOf st (Element st true fieldInitParser 1) (j + 1) k ts) (hle : j + 1 ≤ k)
    (hclose : st.kindAt k = .r_brace) : OperandAt st true 120 i (k + 1)
      (.node .StructLitExpr 0 (some (st.textFrom i j)) 0 ts) := by
  have hpathLe := hpath.le
  refine operand_of_prefix (by omega) (by rw [hname]; rfl) (by simp) fun n hn s hs _ => ?_
  refine hs.nameExpr hname hpath (by rw [hopen]; decide) (by omega) fun name t ht => ?_
  unfold restOfName
  refine ht.structLitAllowed (ht.check ?_)
  rw [decide_eq_true hopen, Bool.true_and, if_pos rfl]
  unfold parseStructLitExpr
  refine ht.advance hopen (by decide) fun t₁ h₁ => h₁.inside fun s' t₂ h₂ => ?_
  refine h₂.parseCommaSeparated hfields rfl hclose rfl (by decide) (by omega) (by omega)
    fun ys t₃ h₃ => ?_
  exact h₃.expect hclose (by decide) fun t₄ h₄ => h₄.alloc (.name h₄.named)

/-! ### Parentheses and brackets -/

/-- A comma behind the first element, and the rest of the list. -/
theorem CommasOf.behind {E : ℕ → ℕ → SyntaxTree → Prop} {close : Token.Kind → Bool}
    (h : CommasOf st E (j + 1) k ts) (hstarts : ∀ i j tr, E i j tr → close (st.kindAt i) = false)
    (hj : st.kindAt j = .comma) (hclose : close (st.kindAt k) = true)
    (hcomma : st.kindAt k ≠ .comma) : MoreOf st E close j k ts := by
  rcases h.first hstarts hclose hcomma with ⟨rfl, rfl⟩ | ⟨j', tr, ts', rfl, helem, hmore⟩
  · exact .trailing hj hclose
  · exact .cons hj (hstarts _ _ _ helem) helem hmore

theorem decide_closer_of_starts {w' : Token.Kind} (hw : closesElement w = true)
    (h : closesElement w' = false) : decide (w' = w) = false := by
  refine decide_eq_false ?_
  rintro rfl
  rw [hw] at h
  cases h

theorem ne_of_starts {w' : Token.Kind} (h : closesElement w' = false) (hw : closesElement w = true) :
    w' ≠ w := by
  rintro rfl
  rw [hw] at h
  cases h

theorem Before.parenExpr {Q : NodeIndex → PState → Prop} (hs : Before st lit i s)
    (hopen : st.kindAt i = .l_paren)
    (h : Yields (parseParenExpr n (run n) (st.tokenAt i)) Q s) :
    Yields (parsePrefixExpr n (run n)) Q s := by
  refine hs.prefixExpr ?_
  rw [hopen]
  exact h

theorem operand_unit (hopen : st.kindAt i = .l_paren) (hclose : st.kindAt (i + 1) = .r_paren) :
    OperandAt st lit 120 i (i + 2) (.node .TupleExpr 0 none 0 []) := by
  refine operand_of_prefix (by omega) (by rw [hopen]; rfl) (by simp) fun n hn s hs _ => ?_
  refine hs.parenExpr hopen ?_
  unfold parseParenExpr
  refine hs.gathered.advance hopen (by decide) fun t₁ h₁ => h₁.inside (b := true) fun s' t₂ h₂ => ?_
  refine h₂.check_then hclose ?_
  exact h₂.advance hclose (by decide) fun t₃ h₃ => h₃.alloc (.plain _)

theorem operand_grouped (hopen : st.kindAt i = .l_paren)
    (hinner : Element st true exprParser 1 (i + 1) j e) (hclose : st.kindAt j = .r_paren) :
    OperandAt st lit 120 i (j + 1) e := by
  have hlt := hinner.lt
  refine operand_of_prefix (by omega) (by rw [hopen]; rfl) hinner.node fun n hn s hs _ => ?_
  refine hs.parenExpr hopen ?_
  unfold parseParenExpr
  refine hs.gathered.advance hopen (by decide) fun t₁ h₁ => h₁.inside (b := true) fun s' t₂ h₂ => ?_
  refine h₂.check_else (ne_of_starts hinner.starts rfl) ?_
  refine h₂.call hinner rfl (by omega) fun x t₃ h₃ => ?_
  refine h₃.check_else (by rw [hclose]; decide) ?_
  exact h₃.expect hclose (by decide) fun t₄ h₄ => Yields.pure (h₄.result hinner.node)

theorem operand_tuple (hopen : st.kindAt i = .l_paren)
    (hfirst : Element st true exprParser 1 (i + 1) j e) (hcomma : st.kindAt j = .comma)
    (hrest : CommasOf st (Element st true exprParser 1) (j + 1) k ts) (hle : j + 1 ≤ k)
    (hclose : st.kindAt k = .r_paren) :
    OperandAt st lit 120 i (k + 1) (.node .TupleExpr 0 none 0 (e :: ts)) := by
  have hlt := hfirst.lt
  refine operand_of_prefix (by omega) (by rw [hopen]; rfl) (by simp) fun n hn s hs _ => ?_
  refine hs.parenExpr hopen ?_
  unfold parseParenExpr
  refine hs.gathered.advance hopen (by decide) fun t₁ h₁ => h₁.inside (b := true) fun s' t₂ h₂ => ?_
  refine h₂.check_else (ne_of_starts hfirst.starts rfl) ?_
  refine h₂.call hfirst rfl (by omega) fun x t₃ h₃ => h₃.check_then hcomma ?_
  unfold parseTupleRest
  have hmore : MoreOf st (Element st true exprParser 1) isRParen j k ts :=
    hrest.behind (fun _ _ _ h => decide_closer_of_starts rfl h.starts) hcomma
      (by rw [hclose]; rfl) (by rw [hclose]; decide)
  have hlen := hmore.length_le
  refine h₃.parseMore hmore rfl (by omega) (by omega) fun ys t₄ h₄ => ?_
  exact h₄.expect hclose (by decide) fun t₅ h₅ => h₅.alloc (.plain _)

theorem Before.arrayExpr {Q : NodeIndex → PState → Prop} (hs : Before st lit i s)
    (hopen : st.kindAt i = .l_square) (h : Yields (parseArrayLitExpr n (run n)) Q s) :
    Yields (parsePrefixExpr n (run n)) Q s := by
  refine hs.prefixExpr ?_
  rw [hopen]
  exact h

theorem operand_array (hopen : st.kindAt i = .l_square)
    (helems : CommasOf st (Element st true exprParser 1) (i + 1) j ts) (hle : i + 1 ≤ j)
    (hclose : st.kindAt j = .r_square) :
    OperandAt st lit 120 i (j + 1) (.node .ArrayLitExpr 0 none 0 ts) := by
  refine operand_of_prefix (by omega) (by rw [hopen]; rfl) (by simp) fun n hn s hs _ => ?_
  refine hs.arrayExpr hopen ?_
  unfold parseArrayLitExpr
  refine hs.gathered.advance hopen (by decide) fun t₁ h₁ => h₁.inside (b := true) fun s' t₂ h₂ => ?_
  have hfirst : FirstOf st (Element st true exprParser 1) isRSquare (i + 1) j ts :=
    helems.first (fun _ _ _ h => decide_closer_of_starts rfl h.starts) (by rw [hclose]; rfl)
      (by rw [hclose]; decide)
  rcases hfirst with ⟨rfl, rfl⟩ | ⟨k, tr, ts', rfl, helem, hmore⟩
  · refine h₂.check_then hclose ?_
    exact h₂.advance hclose (by decide) fun t₃ h₃ => h₃.alloc (.plain _)
  · have hlt := helem.lt
    have hlen := hmore.length_le
    refine h₂.check_else (ne_of_starts helem.starts rfl) ?_
    refine h₂.call helem rfl (by omega) fun x t₃ h₃ => ?_
    unfold parseArrayRest
    refine h₃.consume_else ?_ ?_
    · cases hmore with
      | stop => rw [hclose]; decide
      | trailing hk => rw [hk]; decide
      | cons hk => rw [hk]; decide
    refine h₃.parseMore hmore rfl (by omega) (by omega) fun ys t₄ h₄ => ?_
    exact h₄.expect hclose (by decide) fun t₅ h₅ => h₅.alloc (.plain _)

theorem operand_repeated (hopen : st.kindAt i = .l_square)
    (helem : Element st true exprParser 1 (i + 1) j e) (hsemi : st.kindAt j = .semi)
    (hcount : Element st true exprParser 1 (j + 1) k f) (hclose : st.kindAt k = .r_square) :
    OperandAt st lit 120 i (k + 1) (.node .ArrayRepeatExpr 0 none 0 [e, f]) := by
  have hlt := helem.lt
  have hlt' := hcount.lt
  refine operand_of_prefix (by omega) (by rw [hopen]; rfl) (by simp) fun n hn s hs _ => ?_
  refine hs.arrayExpr hopen ?_
  unfold parseArrayLitExpr
  refine hs.gathered.advance hopen (by decide) fun t₁ h₁ => h₁.inside (b := true) fun s' t₂ h₂ => ?_
  refine h₂.check_else (ne_of_starts helem.starts rfl) ?_
  refine h₂.call helem rfl (by omega) fun x t₃ h₃ => ?_
  unfold parseArrayRest
  refine h₃.consume_then hsemi (by decide) fun t₄ h₄ => ?_
  refine h₄.call hcount rfl (by omega) fun y t₅ h₅ => ?_
  exact h₅.expect hclose (by decide) fun t₆ h₆ => h₆.alloc (.plain _)

/-! ### Lists with the flag -/

/-- A first expression and those behind commas, with struct literals allowed. -/
theorem Gathered.exprList {α : Type} {Q : α → PState → Prop} {names : List (InternedStr × Bytes)}
    {xs : List NodeIndex} {close : Token.Kind → Bool} {g : List NodeIndex → ParserM α}
    (h : Gathered st lit s i names xs ts t)
    (hl : CommasOf st (Element st true exprParser 1) i k ts') (hsome : ts' ≠ [])
    (hopen : ∀ w, closesElement w = false → close w = false) (hclose : close (st.kindAt k) = true)
    (hcomma : st.kindAt k ≠ .comma) (hn : 4 * (k - i) + 1 ≤ n)
    (hg : ∀ ys u, Gathered st lit s k names (xs ++ ys) (ts ++ ts') u → Yields (g ys) Q u) :
    Yields (withStructLit true (do
      let first ← run n (.expr 0)
      Parser.parseMore n [first] close (run n (.expr 0))) >>= g) Q t := by
  rcases hl.of_element hopen hclose hcomma with ⟨-, hnil⟩ | ⟨j, tr, ts', rfl, helem, hmore⟩
  · exact (hsome hnil).elim
  have hlt := helem.lt
  have hlen := hmore.length_le
  refine h.within (g := id) (fun t' ht' => ?_) hg
  have h₁ := ht'.gathered
  refine h₁.call helem rfl (by omega) fun x t₂ h₂ => ?_
  rw [← bind_pure (Parser.parseMore _ _ _ _)]
  exact h₂.parseMore hmore rfl (by omega) (by omega) fun ys t₃ h₃ => Yields.pure h₃

theorem operand_tensor (hword : st.kindAt i = .kw_tensor) (hopen : st.kindAt (i + 1) = .l_square)
    (hvalues : CommasOf st (Element st true exprParser 1) (i + 2) j ts) (hsome : ts ≠ [])
    (hle : i + 2 ≤ j) (hsemi : st.kindAt j = .semi)
    (hdims : CommasOf st (Element st lit exprParser 1) (j + 1) k ts')
    (hcount : ts'.length % 2 ^ 16 ≠ 0) (hle' : j + 1 ≤ k) (hclose : st.kindAt k = .r_square) :
    OperandAt st lit 120 i (k + 1) (.node .TensorLitExpr 0 none
      (makeOpPayload (ts.length % 2 ^ 16)) (ts ++ ts')) := by
  refine operand_of_prefix (by omega) (by rw [hword]; rfl) (by simp) fun n hn s hs _ => ?_
  refine hs.prefixExpr ?_
  rw [hword]
  show Yields (parseTensorLitExpr n (run n)) _ _
  unfold parseTensorLitExpr
  refine hs.gathered.advance hword (by decide) fun t₁ h₁ => ?_
  refine h₁.expect hopen (by decide) fun t₂ h₂ => ?_
  refine h₂.exprList hvalues hsome (fun w hw => ?_)
    (by rw [hsemi]; rfl) (by rw [hsemi]; decide) (by omega) fun xs t₃ h₃ => ?_
  · rw [decide_closer_of_starts rfl hw, decide_closer_of_starts rfl hw]
    rfl
  refine h₃.expect hsemi (by decide) fun t₄ h₄ => ?_
  refine h₄.parseCommaSeparated hdims rfl hclose rfl (by decide) (by omega) (by omega)
    fun ys t₅ h₅ => ?_
  have hvaluesLen : xs.length = ts.length := by simpa using h₄.length
  have hlen := h₅.length
  rw [List.nil_append] at hlen
  refine Yields.bind (R := fun _ u => u = t₅) ?_ ?_
  · unfold requireDim
    rw [if_neg ?_]
    · exact Yields.pure rfl
    · have hlen : (xs ++ ys).length = (ts ++ ts').length := hlen
      rw [decide_eq_true_eq, hlen, List.length_append, hvaluesLen]
      omega
  · rintro _ _ rfl
    refine h₅.expect hclose (by decide) fun t₆ h₆ => ?_
    rw [hvaluesLen]
    exact h₆.alloc (.plain _)

end Eter.Parser
